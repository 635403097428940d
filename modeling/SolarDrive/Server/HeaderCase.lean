import SolarDrive.Api.HeaderReads
import SolarDrive.Server.RequestCallback

/-!
# A client that changes the case of its header names

What the server does with a byte stream and with the same stream under other
spellings of the header names: the requests that are handed over, how they are
authenticated, and what the handlers do. `case_unnoticed_iff` says exactly when
the difference goes unnoticed.
-/

namespace SolarDrive.Server

open Lib Http Auth Api

/-- The request that gets to the router. -/
def letThrough (svc : Services) (now : Int) (req : HttpRequest) : Option HttpRequest :=
  if isWhitelisted req.path then some req
  else
    let auth := authenticate svc.jwt now req
    if auth.authenticated then some (req.setAuthUser auth.userId auth.username) else none

/-- What the request callback does after the rate limit. -/
def respond (svc : Services) (now : Int) (req : HttpRequest) : App HttpResponse :=
  match letThrough svc now req with
  | some routed => dispatch svc routed
  | none => svc.setError 401 (authenticate svc.jwt now req).errorMsg

/-- Both streams are served alike: the same requests but for the spelling, the same
exception if there is one, and the same answers. -/
structure SameService (svc : Services) (now : Int) (bs bs' : Bytes) : Prop where
  requests : List.Forall₂ SameRequest (HttpParser.fresh.deliveries bs).1
    (HttpParser.fresh.deliveries bs').1
  ending : (HttpParser.fresh.deliveries bs).2 = (HttpParser.fresh.deliveries bs').2
  answers : ∀ r ∈ (HttpParser.fresh.deliveries bs).1.zip (HttpParser.fresh.deliveries bs').1,
    authenticate svc.jwt now r.1 = authenticate svc.jwt now r.2 ∧
      respond svc now r.1 = respond svc now r.2

/-- The values that are looked up for a request and used. -/
structure SameLookups (svc : Services) (now : Int) (req req' : HttpRequest) : Prop where
  authorization : isWhitelisted req.path = true ∨
    req.getHeader (ascii "Authorization") = req'.getHeader (ascii "Authorization")
  reads : ∀ routed, letThrough svc now req = some routed → ∀ route r,
    apiRouter.dispatch routed = some (route, r) →
      SameReads svc r { r with headers := req'.headers } route

/-- No spelling is noticed: the blocks give the same lengths and the requests the
same values. -/
structure Unnoticed (svc : Services) (now : Int) (bs bs' : Bytes) : Prop where
  framing : ∀ r ∈ (HttpParser.fresh.blocks bs).zip (HttpParser.fresh.blocks bs'),
    r.1.bodyLength = r.2.bodyLength
  lookups : ∀ r ∈ (HttpParser.fresh.deliveries bs).1.zip (HttpParser.fresh.deliveries bs').1,
    SameLookups svc now r.1 r.2

section Requests

variable {svc : Services} {now : Int} {req req' : HttpRequest}

/-- Off the whitelist a missing header has an answer of its own. -/
theorem authenticate_missing_iff (J : JwtUtil) (hw : isWhitelisted req.path = false) :
    authenticate J now req = { errorMsg := ascii "Missing Authorization header" } ↔
      req.getHeader (ascii "Authorization") = [] := by
  have hformat : ascii "Invalid Authorization format, expected: Bearer <token>" ≠
      ascii "Missing Authorization header" := by decide
  have htoken : ascii "Invalid or expired token" ≠ ascii "Missing Authorization header" := by decide
  unfold authenticate
  simp only [hw, Bool.false_eq_true, if_false]
  cases hheader : req.getHeader (ascii "Authorization") with
  | nil => exact iff_of_true rfl rfl
  | cons c cs =>
      simp only [List.isEmpty_cons, Bool.false_eq_true, if_false]
      refine iff_of_false (fun heq => ?_) nofun
      split at heq
      · exact hformat (congrArg AuthResult.errorMsg heq)
      · split at heq
        · exact htoken (congrArg AuthResult.errorMsg heq)
        · cases congrArg AuthResult.authenticated heq

theorem authenticate_eq_iff (h : SameRequest req req') (hnames : DistinctNames req.headers) :
    authenticate svc.jwt now req = authenticate svc.jwt now req' ↔
      isWhitelisted req.path = true ∨
        req.getHeader (ascii "Authorization") = req'.getHeader (ascii "Authorization") := by
  have hheader := HttpParser.getHeader_renamed h hnames (ascii "Authorization")
  have hpath : req'.path = req.path := by
    obtain ⟨hs, rfl, -⟩ := h
    rfl
  cases hw : isWhitelisted req.path with
  | true =>
      have hw' : isWhitelisted req'.path = true := hpath ▸ hw
      refine iff_of_true ?_ (.inl rfl)
      unfold authenticate
      rw [if_pos hw, if_pos hw']
  | false =>
      have hw' : isWhitelisted req'.path = false := hpath ▸ hw
      have hmissing : authenticate svc.jwt now req = _ ↔ _ := authenticate_missing_iff svc.jwt hw
      have hmissing' : authenticate svc.jwt now req' = _ ↔ _ :=
        authenticate_missing_iff svc.jwt hw'
      constructor
      · intro heq
        refine .inr ?_
        rw [heq] at hmissing
        have hboth := hmissing.symm.trans hmissing'
        rcases hheader with hsame | hnone | hnone
        · exact hsame
        · rw [hnone, hboth.mp hnone]
        · rw [hnone, hboth.mpr hnone]
      · rintro (hnot | hsame)
        · cases hnot
        · unfold authenticate
          rw [hsame, hpath]

theorem respond_eq_iff (hlen : ∀ d, 2 ≤ (svc.digest d).length) (h : SameRequest req req')
    (hnames : DistinctNames req.headers)
    (hauth : authenticate svc.jwt now req = authenticate svc.jwt now req') :
    respond svc now req = respond svc now req' ↔ ∀ routed, letThrough svc now req = some routed →
      ∀ route r, apiRouter.dispatch routed = some (route, r) →
        SameReads svc r { r with headers := req'.headers } route := by
  obtain ⟨hs, rfl, hhs⟩ := h
  unfold respond letThrough
  dsimp only
  rw [← hauth]
  by_cases hw : isWhitelisted req.path = true
  · simp only [hw, if_true, Option.some.injEq, forall_eq']
    exact dispatch_eq_iff hlen ⟨hs, rfl, hhs⟩ hnames
  · by_cases hadmitted : (authenticate svc.jwt now req).authenticated = true
    · simp only [hw, hadmitted, if_true, Bool.false_eq_true, if_false, Option.some.injEq,
        forall_eq']
      have hsame : SameRequest
          (req.setAuthUser (authenticate svc.jwt now req).userId
            (authenticate svc.jwt now req).username)
          (HttpRequest.setAuthUser { req with headers := hs }
            (authenticate svc.jwt now req).userId (authenticate svc.jwt now req).username) :=
        ⟨hs, rfl, hhs⟩
      exact dispatch_eq_iff hlen hsame hnames
    · simp only [hw, hadmitted, Bool.false_eq_true, if_false]
      exact iff_of_true trivial nofun

theorem sameLookups_iff (hlen : ∀ d, 2 ≤ (svc.digest d).length) (h : SameRequest req req')
    (hnames : DistinctNames req.headers) :
    (authenticate svc.jwt now req = authenticate svc.jwt now req' ∧
      respond svc now req = respond svc now req') ↔ SameLookups svc now req req' := by
  constructor
  · rintro ⟨hauth, hrespond⟩
    exact ⟨(authenticate_eq_iff h hnames).mp hauth, (respond_eq_iff hlen h hnames hauth).mp hrespond⟩
  · rintro ⟨hauthorization, hreads⟩
    have hauth : authenticate svc.jwt now req = authenticate svc.jwt now req' :=
      (authenticate_eq_iff h hnames).mpr hauthorization
    exact ⟨hauth, (respond_eq_iff hlen h hnames hauth).mpr hreads⟩

end Requests

/-- A change of letter case in the header names is served alike exactly when none of
the exact lookups notices it. -/
theorem case_unnoticed_iff {svc : Services} (hlen : ∀ d, 2 ≤ (svc.digest d).length) (now : Int)
    {bs bs' : Bytes} (hre : HttpParser.fresh.Recased bs bs')
    (hdiffer : HttpParser.fresh.NamesDiffer bs) :
    SameService svc now bs bs' ↔ Unnoticed svc now bs bs' := by
  have hframing := HttpParser.deliveries_alike_iff (HttpParser.alike_refl _) HttpParser.sound_fresh
    hre hdiffer
  have hpair : List.Forall₂ SameRequest (HttpParser.fresh.deliveries bs).1
      (HttpParser.fresh.deliveries bs').1 →
      ∀ r ∈ (HttpParser.fresh.deliveries bs).1.zip (HttpParser.fresh.deliveries bs').1,
        SameRequest r.1 r.2 ∧ DistinctNames r.1.headers := by
    intro hforall r hr
    refine ⟨List.forall₂_iff_zip.mp hforall |>.2 hr, ?_⟩
    exact HttpParser.deliveries_distinct HttpParser.sound_fresh hdiffer _ (List.of_mem_zip hr).1
  constructor
  · rintro ⟨hrequests, hending, hanswers⟩
    refine ⟨hframing.mp ⟨hrequests, hending⟩, fun r hr => ?_⟩
    obtain ⟨hsame, hnames⟩ := hpair hrequests r hr
    exact (sameLookups_iff hlen hsame hnames).mp (hanswers r hr)
  · rintro ⟨hlengths, hlookups⟩
    obtain ⟨hrequests, hending⟩ := hframing.mpr hlengths
    refine ⟨hrequests, hending, fun r hr => ?_⟩
    obtain ⟨hsame, hnames⟩ := hpair hrequests r hr
    exact (sameLookups_iff hlen hsame hnames).mpr (hlookups r hr)

/-- A check of the server's health under a name the server does not look up. -/
def healthText (name : String) : Bytes :=
  ascii "GET /api/v1/health HTTP/1.1\r\n" ++ ascii name ++ ascii ": drive\r\n\r\n"

theorem health_unnoticed : SameService sampleServices 0 (healthText "Host") (healthText "hOST") := by
  refine (case_unnoticed_iff sampleServices_digest_length 0 (by decide +kernel)
    (by decide +kernel)).mpr ⟨by decide +kernel, ?_⟩
  have hdelivered : (HttpParser.fresh.deliveries (healthText "Host")).1.zip
      (HttpParser.fresh.deliveries (healthText "hOST")).1 =
      [({ method := .GET, path := ascii "/api/v1/health", version := ascii "HTTP/1.1",
          headers := [(ascii "Host", ascii "drive")] },
        { method := .GET, path := ascii "/api/v1/health", version := ascii "HTTP/1.1",
          headers := [(ascii "hOST", ascii "drive")] })] := by decide +kernel
  rw [hdelivered]
  simp only [List.forall_mem_singleton]
  refine ⟨.inl (by decide +kernel), fun routed hadmit route r hdispatch => ?_⟩
  have hw : isWhitelisted (ascii "/api/v1/health") = true := by decide +kernel
  unfold letThrough at hadmit
  rw [if_pos hw, Option.some.injEq] at hadmit
  subst hadmit
  obtain ⟨params, hfind, -⟩ := dispatch_some hdispatch
  have hhealth : apiRouter.findRoute .GET (ascii "/api/v1/health") = some (.health, []) := by
    apply findRoute_of_registered
    unfold registerApiRoutes routeTable
    repeat rw [ascii_ofList]
    decide +kernel
  rw [hhealth] at hfind
  cases hfind
  trivial

theorem bodies_of_requests {rs rs' : List HttpRequest} (h : List.Forall₂ SameRequest rs rs') :
    rs.map HttpRequest.body = rs'.map HttpRequest.body := by
  induction h with
  | nil => rfl
  | cons hfirst _ ih =>
      obtain ⟨hs, rfl, -⟩ := hfirst
      rw [List.map_cons, List.map_cons, ih]

/-- An upload of a text that is itself a request. -/
def uploadText (name : String) : Bytes :=
  ascii "POST /api/v1/upload HTTP/1.1\r\n" ++ ascii name ++ ascii ": 17\r\n\r\n" ++
    ascii "GET /x HTTP/1.1\n\n"

/-- Under the lower-case name the length is missed: the request has no body, and the
body is taken for the next request. -/
theorem lowercase_length_missed : ¬ ∀ bs bs' : Bytes, HttpParser.fresh.Recased bs bs' →
    HttpParser.fresh.NamesDiffer bs → SameService sampleServices 0 bs bs' := by
  intro h
  have hbodies := bodies_of_requests (h (uploadText "Content-Length")
    (uploadText "content-length") (by decide +kernel) (by decide +kernel)).requests
  have hfound : (HttpParser.fresh.deliveries (uploadText "Content-Length")).1.map
      HttpRequest.body = [ascii "GET /x HTTP/1.1\n\n"] := by decide +kernel
  have hmissed : (HttpParser.fresh.deliveries (uploadText "content-length")).1.map
      HttpRequest.body = [[], []] := by decide +kernel
  rw [hfound, hmissed] at hbodies
  cases hbodies

end SolarDrive.Server
