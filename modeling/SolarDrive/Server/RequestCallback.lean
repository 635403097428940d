import SolarDrive.Http.Response
import SolarDrive.Auth.Middleware
import SolarDrive.Api.Routes

/-!
# The request callback

What the server does with a parsed request: WebSocket upgrade, static files,
the rate limit, authentication, routing. The first three are taken as they
come (`Front`): the results hold whatever they answer.

Two matchers decide who gets in. The whitelist compares the whole path, the
router matches the path up to its first NUL; `whitelisted_not_protected` says
that they never disagree on a protected route.
-/

namespace SolarDrive.Server

open Lib Http Auth Api

/-- What stands before authentication. -/
structure Front where
  tryHandleUpgrade : HttpRequest → Bool
  tryServe : HttpRequest → Option HttpResponse
  allow : Bytes → Bool
  peerIp : Bytes

/-- The pages that are not counted by the rate limiter. -/
def isExempt (path : Bytes) : Bool := staticPages.contains path

def trimCopy (s : Bytes) : Bytes :=
  ((s.dropWhile isSpace).reverse.dropWhile isSpace).reverse

def resolveClientIp (xForwardedFor peerIp : Bytes) : Bytes :=
  let first := trimCopy (xForwardedFor.takeWhile (· != 44))
  if first.isEmpty then peerIp else first

/-- How the callback ends: an upgraded connection, an answer of its own, or
the router's turn. -/
inductive CallbackResult where
  | upgraded
  | answered (resp : Except Bytes HttpResponse)
  | routed (req : HttpRequest)

def tooManyRequests : HttpResponse :=
  ((HttpResponse.setStatus {} 429 (ascii "Too Many Requests")).setHeader (ascii "Retry-After")
    (ascii "60")).setJson (ascii "\x7b\"error\":\"Too many requests\"\x7d")

def requestCallback (F : Front) (J : JwtUtil) (now : Int) (req : HttpRequest) : CallbackResult :=
  if F.tryHandleUpgrade req then .upgraded
  else
    match if req.method = .GET then F.tryServe req else none with
    | some resp => .answered (.ok resp)
    | none =>
        let clientIp := resolveClientIp (req.getHeaderIc (ascii "X-Forwarded-For")) F.peerIp
        if !isExempt req.path && !F.allow clientIp then .answered (.ok tooManyRequests)
        else if isWhitelisted req.path then .routed req
        else
          let auth := authenticate J now req
          if auth.authenticated then .routed (req.setAuthUser auth.userId auth.username)
          else .answered (HttpResponse.setError {} J.json 401 auth.errorMsg)

/-- The handler a request ends up in, and the request as the handler sees it. -/
def Reaches (F : Front) (J : JwtUtil) (now : Int) (req : HttpRequest) (handler : RouteName)
    (req' : HttpRequest) : Prop :=
  ∃ routed, requestCallback F J now req = .routed routed ∧
    apiRouter.dispatch routed = some (handler, req')

/-! ## The two matchers -/

/-- No literal start of a protected route is comparable with a whitelist entry. -/
theorem protected_apart : ∀ r ∈ apiRouter, r.handler.isPublic = false →
    (∀ page ∈ staticPages, ¬ literalPrefix r.regex <+: page) ∧
      ∀ pre ∈ ascii "/s/" :: apiWhitelist,
        ¬ pre <+: literalPrefix r.regex ∧ ¬ literalPrefix r.regex <+: pre := by
  have hall : ∀ router ∈ registerApiRoutes, ∀ r ∈ router, r.handler.isPublic = false →
      (∀ page ∈ staticPages, ¬ literalPrefix r.regex <+: page) ∧
        ∀ pre ∈ ascii "/s/" :: apiWhitelist,
          ¬ pre <+: literalPrefix r.regex ∧ ¬ literalPrefix r.regex <+: pre := by
    unfold registerApiRoutes routeTable staticPages apiWhitelist
    repeat rw [ascii_ofList]
    decide +kernel
  exact hall apiRouter registerApiRoutes_eq

theorem whitelisted_not_protected {req req' : HttpRequest} {handler : RouteName}
    (hw : isWhitelisted req.path = true) (h : apiRouter.dispatch req = some (handler, req')) :
    handler.isPublic = true := by
  obtain ⟨params, hfind, -⟩ := dispatch_some h
  obtain ⟨r, hr, rfl, groups, hmatch⟩ := findRoute_some hfind
  by_contra hpub
  rw [Bool.not_eq_true] at hpub
  obtain ⟨hpages, hprefixes⟩ := protected_apart r hr hpub
  -- the route's literal start is a prefix of the path before its first NUL, so of the path
  have hlit : literalPrefix r.regex <+: req.path :=
    (literalPrefix_of_match hmatch).trans (cstr_head req.path)
  have hclash : ∀ pre ∈ ascii "/s/" :: apiWhitelist, ¬ pre <+: req.path := by
    intro pre hpre hp
    rcases List.prefix_or_prefix_of_prefix hp hlit with h1 | h2
    · exact (hprefixes pre hpre).1 h1
    · exact (hprefixes pre hpre).2 h2
  rcases isWhitelisted_cases hw with hpage | ⟨pre, hpre, hp⟩ | hp
  · exact hpages _ hpage hlit
  · exact hclash pre (List.mem_cons_of_mem _ hpre) hp
  · exact hclash _ List.mem_cons_self hp

/-- The router gets the request untouched, or with the user of a verified token. -/
theorem requestCallback_routed {F : Front} {J : JwtUtil} {now : Int} {req routed : HttpRequest}
    (h : requestCallback F J now req = .routed routed) :
    (isWhitelisted req.path = true ∧ routed = req) ∨
      (isWhitelisted req.path = false ∧ (authenticate J now req).authenticated = true ∧
        routed = req.setAuthUser (authenticate J now req).userId
          (authenticate J now req).username) := by
  unfold requestCallback at h
  split at h
  · cases h
  · split at h
    · cases h
    · simp only at h
      split at h
      · cases h
      · split at h
        · rename_i hw
          cases h
          exact .inl ⟨hw, rfl⟩
        · rename_i hw
          split at h
          · rename_i hauth
            cases h
            exact .inr ⟨Bool.eq_false_iff.mpr hw, hauth, rfl⟩
          · cases h

/-- **The authentication gate.** A request that reaches a protected handler
carries the user id of a token that was verified for it; and no whitelisted
path is dispatched to a protected handler. -/
theorem protected_handlers_authenticated (F : Front) (J : JwtUtil) (now : Int) :
    (∀ (req req' : HttpRequest) (handler : RouteName), Reaches F J now req handler req' →
      handler.isPublic = false →
      ∃ token claims, extractToken (req.getHeader (ascii "Authorization")) = some token ∧
        J.verify now token = some claims ∧ req'.authUserId = claims.userId) ∧
    ∀ (req req' : HttpRequest) (handler : RouteName), isWhitelisted req.path = true →
      apiRouter.dispatch req = some (handler, req') → handler.isPublic = true := by
  refine ⟨?_, fun req req' handler hw h => whitelisted_not_protected hw h⟩
  rintro req req' handler ⟨routed, hcallback, hdispatch⟩ hprotected
  rcases requestCallback_routed hcallback with ⟨hw, rfl⟩ | ⟨hw, hauth, rfl⟩
  · have hpublic := whitelisted_not_protected hw hdispatch
    rw [hprotected] at hpublic
    cases hpublic
  · obtain ⟨token, claims, htoken, hverify, huser, -⟩ := authenticate_cases hw hauth
    obtain ⟨params, -, rfl⟩ := dispatch_some hdispatch
    refine ⟨token, claims, htoken, hverify, ?_⟩
    rw [(setPathParams_authUser _ _).1]
    exact huser

/-- A request to list the files, with the given bearer token. -/
def listRequest (token : Bytes) : HttpRequest :=
  { method := .GET, path := ascii "/api/v1/files"
    headers := [(ascii "Authorization", ascii "Bearer " ++ token)] }

/-- A server without static files whose limiter lets everyone through. -/
def openFront : Front where
  tryHandleUpgrade := fun _ => false
  tryServe := fun _ => none
  allow := fun _ => true
  peerIp := ascii "10.0.0.1"

theorem extractToken_bearer {token : Bytes} (h : token ≠ []) :
    extractToken (ascii "Bearer " ++ token) = some token := by
  have hlen : 0 < token.length := List.length_pos_iff.mpr h
  have h7 : (ascii "Bearer ").length = 7 := by decide
  have htake : (ascii "Bearer " ++ token).take 7 = ascii "Bearer " := by
    rw [← h7, List.take_left]
  have hdrop : (ascii "Bearer " ++ token).drop 7 = token := by
    rw [← h7, List.drop_left]
  have hlong : ¬ (ascii "Bearer " ++ token).length ≤ 7 := by
    rw [List.length_append, h7]
    omega
  rw [extractToken, if_neg hlong, htake, if_neg (by simp), hdrop]

/-- Alice lists her files with a token of the server's own. -/
theorem alice_lists_files : ∃ token req',
    Reaches openFront sampleUtil 1700000060 (listRequest token) .fileList req' ∧
      ∃ claims, sampleUtil.verify 1700000060 token = some claims ∧
        req'.authUserId = claims.userId := by
  have hissued : issuedClaims 0 ⟨ascii "u1", ascii "alice", 0, 1700000000⟩ 24 =
      ⟨ascii "u1", ascii "alice", 1700086400, 1700000000⟩ := rfl
  have hread : ∀ t, sampleUtil.json.dump (tokenPayload
      ⟨ascii "u1", ascii "alice", 1700086400, 1700000000⟩) = .ok t → Readable t := by
    intro t ht
    have hok : (match sampleUtil.json.dump (tokenPayload
        ⟨ascii "u1", ascii "alice", 1700086400, 1700000000⟩) with
        | .ok t => decide (Readable t)
        | .error _ => true) = true := by decide +kernel
    rw [ht] at hok
    simpa using hok
  obtain ⟨payloadJson, token, hdump, -, hver⟩ := verify_generate (J := sampleUtil)
    JsonText.lib_lawful 0 1700000060 24 (by decide : validUtf8 (ascii "u1") = true)
    (by decide : validUtf8 (ascii "alice") = true)
    (by decide : -(2 ^ 63) ≤ (issuedClaims 0 ⟨ascii "u1", ascii "alice", 0, 1700000000⟩ 24).exp ∧ _)
    (by decide)
  rw [hissued] at hdump hver
  rw [if_pos ⟨hread _ hdump, by decide⟩] at hver
  have hne : token ≠ [] := by
    rintro rfl
    cases hver
  have htoken : extractToken ((listRequest token).getHeader (ascii "Authorization")) =
      some token := extractToken_bearer hne
  have hpath : isWhitelisted (ascii "/api/v1/files") = false := by decide +kernel
  have hw : isWhitelisted (listRequest token).path = false := hpath
  have hauth : authenticate sampleUtil 1700000060 (listRequest token) =
      { authenticated := true, userId := ascii "u1", username := ascii "alice" } := by
    have hfilled : ((listRequest token).getHeader (ascii "Authorization")).isEmpty = false := rfl
    simp [authenticate, hw, hfilled, htoken, hver]
  have hreach : Reaches openFront sampleUtil 1700000060 (listRequest token) .fileList
      ((listRequest token).setAuthUser (ascii "u1") (ascii "alice")) := by
    refine ⟨(listRequest token).setAuthUser (ascii "u1") (ascii "alice"), ?_, ?_⟩
    · simp [requestCallback, openFront, hw, hauth]
    · have hfind : apiRouter.findRoute .GET (ascii "/api/v1/files") = some (.fileList, []) := by
        apply findRoute_of_registered
        unfold registerApiRoutes routeTable
        repeat rw [ascii_ofList]
        decide +kernel
      show (apiRouter.findRoute .GET (ascii "/api/v1/files")).map _ = _
      rw [hfind]
      rfl
  obtain ⟨token', claims, htoken', hverify, huser⟩ :=
    (protected_handlers_authenticated openFront sampleUtil 1700000060).1 _ _ _ hreach rfl
  rw [htoken] at htoken'
  cases htoken'
  exact ⟨token, _, hreach, claims, hverify, huser⟩

end SolarDrive.Server
