import SolarDrive.Api.Exceptions

/-!
# What no `catch` clause takes

Two things end a request without an exception. A part request indexes `uploaded`
and `part_hashes` up to the `chunk_count` of its session, and completion reads
`uploaded` as far; the three are fields of a Redis hash, and an array that is
missing there is loaded empty. And `std::regex_match` recurses along the path,
so that a long one uses up the stack.

Here both are part of the program: it ends with an `Ending`, of which `undefined`
stands for whatever the machine does then. A run with any other end is a run of
`dispatch`, with the same calls and the same answer (`RunsAs`).
-/

namespace SolarDrive.Api

open Lib Http Auth Prog

/-- How a request ends when no exception escapes. -/
inductive Ending where
  | answered (resp : HttpResponse)
  | undefined

/-- The program, with its response as the ending. -/
def answer (p : App HttpResponse) : App Ending := do
  let resp ← p
  return .answered resp

/-! ## Accesses of a session's arrays -/

/-- `uploaded[part_num]` and `part_hashes[part_num]` exist. -/
def MultipartSession.HasPlace (session : MultipartSession) (partNum : Int) : Prop :=
  partNum.toNat < session.uploaded.length ∧ partNum.toNat < session.partHashes.length

instance (session : MultipartSession) (partNum : Int) : Decidable (session.HasPlace partNum) :=
  inferInstanceAs (Decidable (_ ∧ _))

/-- `storePart`, with the two accesses after the part is in the store. -/
def storePartInPlace (svc : Services) (session : MultipartSession) (partNum : Int) (body : Bytes) :
    App Ending := do
  let hash ← ask (.put body)
  if session.HasPlace partNum then answer (recordPart svc session partNum body hash)
  else return .undefined

/-- `handle_upload_part`. -/
def uploadPartInPlace (svc : Services) (req : HttpRequest) : App Ending :=
  Prog.tryCatch (do
    if !req.hasAuthUser then answer (svc.setError 401 (ascii "Unauthorized"))
    else
      let uploadId := req.getPathParam (ascii "upload_id")
      let partStr := req.getPathParam (ascii "part_num")
      if uploadId = [] ∨ partStr = [] then
        answer (svc.setError 400 (ascii "missing upload_id or part_num"))
      else
        let partNum ← ofSto "stoi" (stoi partStr)
        if req.body = [] then answer (svc.setError 400 (ascii "empty part body"))
        else
          let found ← requireSession svc req uploadId
          match found with
          | .error resp => answer (return resp)
          | .ok session =>
              if partNum < 0 ∨ session.chunkCount ≤ partNum then
                answer (svc.setError 400 (ascii "invalid part_num"))
              else if session.chunkSize < req.body.length then
                answer (svc.setError 413 (ascii "part too large"))
              else storePartInPlace svc session partNum req.body)
    fun e => answer (svc.catchStd (ascii "upload part failed: ") e)

/-- `handle_complete`: the scan stops at the first part that is not there, which
may be beyond the end of `uploaded`. -/
def completeInPlace (svc : Services) (req : HttpRequest) : App Ending :=
  Prog.tryCatch (do
    if !req.hasAuthUser then answer (svc.setError 401 (ascii "Unauthorized"))
    else
      let uploadId := req.getPathParam (ascii "upload_id")
      if uploadId = [] then answer (svc.setError 400 (ascii "missing upload_id"))
      else
        let found ← requireSession svc req uploadId
        match found with
        | .error resp => answer (return resp)
        | .ok session =>
            match firstMissing session with
            | some i =>
                if i < session.uploaded.length then
                  answer (svc.setError 400
                    (ascii "part " ++ decimal i ++ ascii " not uploaded yet"))
                else return .undefined
            | none => answer (finishSession svc uploadId session))
    fun e => answer (svc.catchStd (ascii "complete failed: ") e)

def handlerInPlace (svc : Services) : RouteName → HttpRequest → App Ending
  | .uploadPart, req => uploadPartInPlace svc req
  | .uploadComplete, req => completeInPlace svc req
  | route, req => answer (handler svc route req)

/-! ## Matching on a bounded stack -/

/-- `findRoute` when matching an expression that is `deep` for a text uses up the
stack: then there is no result. -/
def findRouteWithin {η : Type} (deep : List RegexAtom → Bytes → Bool) :
    HttpRouter η → HttpMethod → Bytes → Option (Option (η × List (Bytes × Bytes)))
  | [], _, _ => some none
  | r :: rs, method, path =>
      if r.method ≠ method then findRouteWithin deep rs method path
      else if deep r.regex (cstr path) then none
      else
        match regexMatch r.regex (cstr path) with
        | none => findRouteWithin deep rs method path
        | some groups => some (some (r.handler, r.paramNames.zip groups))

/-- `HttpRouter::dispatch`, with all that can happen in it. -/
def dispatchInPlace (deep : List RegexAtom → Bytes → Bool) (svc : Services) (req : HttpRequest) :
    App Ending :=
  match findRouteWithin deep apiRouter req.method req.path with
  | none => return .undefined
  | some none => answer (svc.setError 404 (ascii "Not Found"))
  | some (some (route, params)) => handlerInPlace svc route (HttpRouter.setPathParams req params)

/-- A route of the request's method is tried that is too deep for its path: no
route before it matches. -/
def TooDeep {η : Type} (deep : List RegexAtom → Bytes → Bool) (router : HttpRouter η)
    (method : HttpMethod) (path : Bytes) : Prop :=
  ∃ before r after, router = before ++ r :: after ∧ r.method = method ∧
    deep r.regex (cstr path) = true ∧
    ∀ r' ∈ before, r'.method = method → regexMatch r'.regex (cstr path) = none

section Matching

variable {η : Type} {deep : List RegexAtom → Bytes → Bool} {method : HttpMethod} {path : Bytes}

/-- There is no result exactly when a route that is tried is too deep; otherwise
it is that of `findRoute`. -/
theorem findRouteWithin_cases : ∀ router : HttpRouter η,
    (TooDeep deep router method path ∧ findRouteWithin deep router method path = none) ∨
      (¬ TooDeep deep router method path ∧
        findRouteWithin deep router method path = some (router.findRoute method path))
  | [] => by
      refine .inr ⟨?_, rfl⟩
      rintro ⟨before, r, after, heq, -⟩
      cases before <;> cases heq
  | r :: rs => by
      -- a route that is passed over changes nothing for the ones behind it
      have hpassed : (r.method = method → deep r.regex (cstr path) = false ∧
          regexMatch r.regex (cstr path) = none) →
          (TooDeep deep (r :: rs) method path ↔ TooDeep deep rs method path) := by
        intro hr
        constructor
        · rintro ⟨before, r', after, heq, hm, hdeep, hbefore⟩
          cases before with
          | nil =>
              cases heq
              rw [(hr hm).1] at hdeep
              cases hdeep
          | cons b bs =>
              cases heq
              exact ⟨bs, r', after, rfl, hm, hdeep,
                fun r'' h => hbefore r'' (List.mem_cons_of_mem _ h)⟩
        · rintro ⟨before, r', after, rfl, hm, hdeep, hbefore⟩
          refine ⟨r :: before, r', after, rfl, hm, hdeep, fun r'' h hm'' => ?_⟩
          rcases List.mem_cons.mp h with rfl | h
          · exact (hr hm'').2
          · exact hbefore r'' h hm''
      rw [findRouteWithin, HttpRouter.findRoute]
      by_cases hm : r.method = method
      · rw [if_neg (not_not.mpr hm), if_neg (not_not.mpr hm)]
        cases hdeep : deep r.regex (cstr path) with
        | true =>
            exact .inl ⟨⟨[], r, rs, rfl, hm, hdeep, fun _ h => absurd h List.not_mem_nil⟩, rfl⟩
        | false =>
            cases hmatch : regexMatch r.regex (cstr path) with
            | none =>
                rw [hpassed fun _ => ⟨hdeep, hmatch⟩]
                exact findRouteWithin_cases rs
            | some groups =>
                refine .inr ⟨?_, rfl⟩
                rintro ⟨before, r', after, heq, hm', hdeep', hbefore⟩
                cases before with
                | nil =>
                    cases heq
                    rw [hdeep] at hdeep'
                    cases hdeep'
                | cons b bs =>
                    cases heq
                    rw [hbefore r List.mem_cons_self hm] at hmatch
                    cases hmatch
      · rw [if_pos hm, if_pos hm, hpassed fun h => absurd h hm]
        exact findRouteWithin_cases rs

theorem not_tooDeep {router : HttpRouter η} (h : ∀ regex, deep regex (cstr path) = false) :
    ¬ TooDeep deep router method path := by
  rintro ⟨_, r, _, -, -, hdeep, -⟩
  rw [h r.regex] at hdeep
  cases hdeep

end Matching

/-! ## The same run without the accesses -/

/-- Where `p` does not end `undefined`, which only a run in `Out` does, it makes
the calls of `q` and has its answer. -/
def RunsAs (p : App Ending) (q : App HttpResponse) (Out : List (Event Call Call.Resp Exn) → Prop) :
    Prop :=
  ∀ tr r, Trace p tr r →
    (r = .ok .undefined ∧ Out tr) ∨ ∃ r', r = r'.map .answered ∧ Trace q tr r'

section RunsAs

variable {Out : List (Event Call Call.Resp Exn) → Prop}

theorem runsAs_answer (q : App HttpResponse) : RunsAs (answer q) q Out := by
  intro tr r htr
  refine .inr ?_
  rcases trace_of_bind htr with ⟨tr₁, tr₂, resp, rfl, hq, hret⟩ | ⟨e, rfl, hq⟩
  · cases hret
    exact ⟨.ok resp, rfl, by rwa [List.append_nil]⟩
  · exact ⟨.error e, rfl, hq⟩

/-- Both programs start alike. -/
theorem runsAs_bind {α : Type} {m : App α} {f : α → App Ending} {g : α → App HttpResponse}
    (h : ∀ pre a, Trace m pre (.ok a) → RunsAs (f a) (g a) fun tr => Out (pre ++ tr)) :
    RunsAs (m >>= f) (m >>= g) Out := by
  intro tr r htr
  rcases trace_of_bind htr with ⟨pre, post, a, rfl, hm, hf⟩ | ⟨e, rfl, hm⟩
  · rcases h pre a hm post r hf with hout | ⟨r', rfl, hg⟩
    · exact .inl hout
    · exact .inr ⟨r', rfl, trace_bind hm hg⟩
  · exact .inr ⟨.error e, rfl, trace_bind_error hm⟩

/-- The `catch` clauses answer alike. -/
theorem runsAs_tryCatch {p : App Ending} {q : App HttpResponse} {h : Exn → App HttpResponse}
    (hp : RunsAs p q Out) : RunsAs (p.tryCatch fun e => answer (h e)) (q.tryCatch h) Out := by
  intro tr r htr
  rcases trace_of_tryCatch htr with ⟨a, rfl, hok⟩ | ⟨e, tr₁, tr₂, rfl, herr, hh⟩
  · rcases hp tr _ hok with hout | ⟨r', heq, hq⟩
    · exact .inl hout
    · cases r' with
      | error e => cases heq
      | ok resp => exact .inr ⟨.ok resp, heq, trace_tryCatch_ok hq⟩
  · rcases hp tr₁ _ herr with ⟨⟨⟩, -⟩ | ⟨r', heq, hq⟩
    cases r' with
    | ok resp => cases heq
    | error e' =>
        cases heq
        rcases @runsAs_answer (fun _ => False) (h e) tr₂ r hh with ⟨-, ⟨⟩⟩ | ⟨r', rfl, hh'⟩
        exact .inr ⟨r', rfl, trace_tryCatch_error hq hh'⟩

end RunsAs

/-! ## Which runs end undefined -/

/-- The calls of a part request load a session that counts the part, store the
body, and have no place for its hash. -/
def PartOutOfRange (svc : Services) (req : HttpRequest) (tr : List (Event Call Call.Resp Exn)) :
    Prop :=
  req.hasAuthUser = true ∧ req.getPathParam (ascii "upload_id") ≠ [] ∧ req.body ≠ [] ∧
    ∃ partNum loads session hash,
      stoi (req.getPathParam (ascii "part_num")) = .ok partNum ∧
      Trace (requireSession svc req (req.getPathParam (ascii "upload_id"))) loads
        (.ok (.ok session)) ∧
      0 ≤ partNum ∧ partNum < session.chunkCount ∧ (req.body.length : Int) ≤ session.chunkSize ∧
      ¬ session.HasPlace partNum ∧ tr = loads ++ [⟨.put req.body, .ok hash⟩]

/-- The calls of a completion load a session with fewer flags than parts, and
every flag is set. -/
def CompleteOutOfRange (svc : Services) (req : HttpRequest)
    (tr : List (Event Call Call.Resp Exn)) : Prop :=
  req.hasAuthUser = true ∧ req.getPathParam (ascii "upload_id") ≠ [] ∧
    ∃ session,
      Trace (requireSession svc req (req.getPathParam (ascii "upload_id"))) tr
        (.ok (.ok session)) ∧
      (session.uploaded.length : Int) < session.chunkCount ∧ ∀ flag ∈ session.uploaded, flag = true

/-- The calls of a request end where one of its accesses is outside a vector. -/
def OutOfRange (svc : Services) (req : HttpRequest) (tr : List (Event Call Call.Resp Exn)) : Prop :=
  match apiRouter.dispatch req with
  | some (.uploadPart, req') => PartOutOfRange svc req' tr
  | some (.uploadComplete, req') => CompleteOutOfRange svc req' tr
  | _ => False

/-- The scan of a completion leaves `uploaded` exactly when all its flags are set
and it is shorter than the count. -/
theorem firstMissing_beyond {session : MultipartSession} :
    (∃ i, firstMissing session = some i ∧ session.uploaded.length ≤ i) ↔
      (session.uploaded.length : Int) < session.chunkCount ∧
        ∀ flag ∈ session.uploaded, flag = true := by
  have hset : ∀ {j : Nat} (hj : j < session.uploaded.length),
      (!session.uploaded.getD j false) = false ↔ session.uploaded[j] = true := by
    intro j hj
    rw [List.getD_eq_getElem _ _ hj]
    simp
  unfold firstMissing
  constructor
  · rintro ⟨i, hfind, hlen⟩
    obtain ⟨hmissing, hi, hbefore⟩ := List.find?_range_eq_some.mp hfind
    refine ⟨by have := List.mem_range.mp hi; omega, fun flag hflag => ?_⟩
    obtain ⟨j, hj, rfl⟩ := List.mem_iff_getElem.mp hflag
    have hj' := hbefore j (by omega)
    exact (hset hj).mp (by simpa using hj')
  · rintro ⟨hlen, hall⟩
    refine ⟨session.uploaded.length, ?_, Nat.le_refl _⟩
    refine List.find?_range_eq_some.mpr ⟨?_, List.mem_range.mpr (by omega), fun j hj => ?_⟩
    · rw [List.getD_eq_default _ _ (Nat.le_refl _)]
      rfl
    · have := (hset hj).mpr (hall _ (List.getElem_mem hj))
      simpa using this

section Runs

variable {svc : Services} {req : HttpRequest} {tr : List (Event Call Call.Resp Exn)}
  {r : Except Exn Ending}

theorem runsAs_uploadPartInPlace :
    RunsAs (uploadPartInPlace svc req) (handleUploadPart svc req) (PartOutOfRange svc req) := by
  refine runsAs_tryCatch ?_
  by_cases hauth : req.hasAuthUser = true
  swap
  · simp only [hauth]
    exact runsAs_answer _
  simp only [hauth, Bool.not_true, Bool.false_eq_true, if_false]
  by_cases hid : req.getPathParam (ascii "upload_id") = [] ∨ req.getPathParam (ascii "part_num") = []
  · simp only [if_pos hid]
    exact runsAs_answer _
  simp only [if_neg hid]
  cases hsto : stoi (req.getPathParam (ascii "part_num")) with
  | error e => exact runsAs_answer (throwStd (ascii "stoi"))
  | ok partNum =>
      show RunsAs (if req.body = [] then _ else _) (if req.body = [] then _ else _) _
      by_cases hbody : req.body = []
      · simp only [if_pos hbody]
        exact runsAs_answer _
      simp only [if_neg hbody]
      refine runsAs_bind fun loads found hloads => ?_
      cases found with
      | error resp => exact runsAs_answer _
      | ok session =>
          dsimp only
          by_cases hnum : partNum < 0 ∨ session.chunkCount ≤ partNum
          · simp only [if_pos hnum]
            exact runsAs_answer _
          simp only [if_neg hnum]
          by_cases hsize : session.chunkSize < req.body.length
          · simp only [if_pos hsize]
            exact runsAs_answer _
          simp only [if_neg hsize]
          refine runsAs_bind fun puts hash hput => ?_
          by_cases hplace : session.HasPlace partNum
          · simp only [if_pos hplace]
            exact runsAs_answer _
          simp only [if_neg hplace]
          intro post r hpost
          cases hpost
          refine .inl ⟨rfl, hauth, fun h => hid (.inl h), hbody, partNum, loads, session, hash,
            hsto, hloads, by omega, by omega, by omega, hplace, ?_⟩
          cases hput with
          | call o hk =>
              cases o with
              | error e => cases hk
              | ok h =>
                  cases hk
                  rfl

theorem trace_uploadPartInPlace (h : PartOutOfRange svc req tr) :
    Trace (uploadPartInPlace svc req) tr (.ok .undefined) := by
  obtain ⟨hauth, hid, hbody, partNum, loads, session, hash, hsto, hloads, hlow, hhigh, hsize,
    hplace, rfl⟩ := h
  have hpart : req.getPathParam (ascii "part_num") ≠ [] := by
    intro h
    rw [h] at hsto
    cases hsto
  refine trace_tryCatch_ok ?_
  simp only [hauth, Bool.not_true, Bool.false_eq_true, if_false, hid, hpart, or_self, hsto]
  show Trace (if req.body = [] then _ else _) _ _
  simp only [if_neg hbody]
  refine trace_bind hloads ?_
  dsimp only
  rw [if_neg (by omega), if_neg (by omega)]
  refine Trace.call (.ok hash) ?_
  show Trace (if session.HasPlace partNum then _ else _) _ _
  rw [if_neg hplace]
  exact Trace.ret _

theorem runsAs_completeInPlace :
    RunsAs (completeInPlace svc req) (handleComplete svc req) (CompleteOutOfRange svc req) := by
  refine runsAs_tryCatch ?_
  by_cases hauth : req.hasAuthUser = true
  swap
  · simp only [hauth]
    exact runsAs_answer _
  simp only [hauth, Bool.not_true, Bool.false_eq_true, if_false]
  by_cases hid : req.getPathParam (ascii "upload_id") = []
  · simp only [if_pos hid]
    exact runsAs_answer _
  simp only [if_neg hid]
  refine runsAs_bind fun loads found hloads => ?_
  cases found with
  | error resp => exact runsAs_answer _
  | ok session =>
      dsimp only
      cases hmissing : firstMissing session with
      | none => exact runsAs_answer _
      | some i =>
          dsimp only
          by_cases hi : i < session.uploaded.length
          · simp only [if_pos hi]
            exact runsAs_answer _
          simp only [if_neg hi]
          intro post r hpost
          cases hpost
          refine .inl ⟨rfl, ?_⟩
          show CompleteOutOfRange svc req (loads ++ [])
          rw [List.append_nil]
          exact ⟨hauth, hid, session, hloads,
            firstMissing_beyond.mp ⟨i, hmissing, Nat.le_of_not_lt hi⟩⟩

theorem trace_completeInPlace (h : CompleteOutOfRange svc req tr) :
    Trace (completeInPlace svc req) tr (.ok .undefined) := by
  obtain ⟨hauth, hid, session, hloads, hflags⟩ := h
  obtain ⟨i, hmissing, hi⟩ := firstMissing_beyond.mpr hflags
  refine trace_tryCatch_ok ?_
  simp only [hauth, Bool.not_true, Bool.false_eq_true, if_false, if_neg hid]
  rw [← List.append_nil tr]
  refine trace_bind hloads ?_
  dsimp only
  rw [hmissing]
  dsimp only
  rw [if_neg (Nat.not_lt.mpr hi)]
  exact Trace.ret _

/-- What a route is without its accesses, and when it ends undefined. -/
theorem runsAs_dispatch (deep : List RegexAtom → Bytes → Bool)
    (hdeep : ¬ TooDeep deep apiRouter req.method req.path) :
    RunsAs (dispatchInPlace deep svc req) (dispatch svc req) (OutOfRange svc req) := by
  obtain ⟨h, -⟩ | ⟨-, hfind⟩ := @findRouteWithin_cases _ deep req.method req.path apiRouter
  · exact absurd h hdeep
  unfold dispatchInPlace dispatch OutOfRange HttpRouter.dispatch
  rw [hfind]
  cases hroute : apiRouter.findRoute req.method req.path with
  | none => exact runsAs_answer _
  | some found =>
      obtain ⟨route, params⟩ := found
      cases route with
      | uploadPart => exact runsAs_uploadPartInPlace
      | uploadComplete => exact runsAs_completeInPlace
      | _ => exact runsAs_answer _

/-- Out of range, or on too deep a path, the run has no other end. -/
theorem trace_undefined (deep : List RegexAtom → Bytes → Bool)
    (htr : Trace (dispatchInPlace deep svc req) tr r)
    (h : TooDeep deep apiRouter req.method req.path ∨ OutOfRange svc req tr) :
    r = .ok .undefined := by
  obtain ⟨-, hfind⟩ | ⟨hdeep, hfind⟩ := @findRouteWithin_cases _ deep req.method req.path apiRouter
  · unfold dispatchInPlace at htr
    rw [hfind] at htr
    cases htr
    rfl
  have hout := h.resolve_left hdeep
  refine trace_unique htr ?_
  unfold dispatchInPlace
  rw [hfind]
  unfold OutOfRange HttpRouter.dispatch at hout
  cases hroute : apiRouter.findRoute req.method req.path with
  | none =>
      rw [hroute] at hout
      exact hout.elim
  | some found =>
      rw [hroute] at hout
      obtain ⟨route, params⟩ := found
      cases route with
      | uploadPart => exact trace_uploadPartInPlace hout
      | uploadComplete => exact trace_completeInPlace hout
      | _ => exact hout.elim

/-- **Dispatch answers, whatever the calls return, exactly when** no route that
is tried is too deep for the path, the session that Redis returned has a place
for every part it counts as far as the request goes, and the last call did not
throw an exception with unreadable text; the download route, with two `try`
blocks around each other, answers even then. -/
theorem dispatch_answers_iff (hjson : svc.json.Lawful) (deep : List RegexAtom → Bytes → Bool)
    (htr : Trace (dispatchInPlace deep svc req) tr r) :
    (∃ resp, r = .ok (.answered resp)) ↔
      ¬ TooDeep deep apiRouter req.method req.path ∧ ¬ OutOfRange svc req tr ∧
        (routeOf req = some .fileDownload ∨ ¬ EndsUnreadable tr) := by
  by_cases hbad : TooDeep deep apiRouter req.method req.path ∨ OutOfRange svc req tr
  · obtain rfl := trace_undefined deep htr hbad
    constructor
    · rintro ⟨resp, ⟨⟩⟩
    · rintro ⟨hdeep, hout, -⟩
      exact absurd hbad (not_or.mpr ⟨hdeep, hout⟩)
  obtain ⟨hdeep, hout⟩ := not_or.mp hbad
  rcases runsAs_dispatch deep hdeep tr r htr with ⟨-, h⟩ | ⟨r', rfl, htr'⟩
  · exact absurd h hout
  rw [and_iff_right hdeep, and_iff_right hout, ← returns_dispatch hjson req htr']
  constructor
  · rintro ⟨resp, heq⟩
    cases r' with
    | error e => cases heq
    | ok resp' => exact ⟨resp', rfl⟩
  · rintro ⟨resp, rfl⟩
    exact ⟨resp, rfl⟩

end Runs

/-! ### Two bodies -/

def registerRequest (body : Bytes) : HttpRequest :=
  { method := .POST, path := ascii "/api/v1/auth/register", body }

/-- What the parser throws on a body it cannot read: the text quotes the bytes
read last. -/
def parseError (column : Nat) (problem : String) (last : Bytes) : Exn :=
  { kind := .json
    what := ascii "[json.exception.parse_error.101] parse error at line 1, column " ++
      decimal column ++ ascii ": syntax error while parsing value - " ++ ascii problem ++
      ascii "; last read: '" ++ last ++ ascii "'" }

/-- A stack that holds the match of any path of 65536 bytes. -/
def sampleStack : List RegexAtom → Bytes → Bool := fun _ path => decide (65536 < path.length)

theorem routed_registerRequest (body : Bytes) :
    apiRouter.findRoute .POST (ascii "/api/v1/auth/register") = some (.register, []) ∧
      ¬ TooDeep sampleStack apiRouter (registerRequest body).method (registerRequest body).path := by
  constructor
  · apply findRoute_of_registered
    unfold registerApiRoutes routeTable
    repeat rw [ascii_ofList]
    decide +kernel
  · refine not_tooDeep fun regex => ?_
    show decide (65536 < (cstr (ascii "/api/v1/auth/register")).length) = false
    decide

/-- A body that does not parse is answered with `set_error`, which is the last
thing that can throw. -/
theorem trace_registerRequest (svc : Services) (body : Bytes) {e : Exn} (he : e.kind = .json) :
    Trace (dispatchInPlace sampleStack svc (registerRequest body)) [⟨.jsonParse body, .error e⟩]
      (match HttpResponse.setError {} svc.json 400 (ascii "invalid JSON: " ++ e.what) with
        | .ok resp => .ok (.answered resp)
        | .error w => .error { kind := .json, what := w }) := by
  obtain ⟨hroute, hdeep⟩ := routed_registerRequest body
  have hfind : findRouteWithin sampleStack apiRouter (registerRequest body).method
      (registerRequest body).path = some (some (.register, [])) := by
    rcases findRouteWithin_cases apiRouter with ⟨h, -⟩ | ⟨-, h⟩
    · exact absurd h hdeep
    · exact h.trans (congrArg some hroute)
  have hdispatch : dispatchInPlace sampleStack svc (registerRequest body) =
      answer (handleRegister svc (HttpRouter.setPathParams (registerRequest body) [])) := by
    rw [dispatchInPlace, hfind]
    rfl
  rw [hdispatch]
  refine Trace.call _ ?_
  show Trace (answer (svc.catchJson (ascii "register failed: ") e)) [] _
  rw [Services.catchJson, if_pos he, Services.setError]
  cases HttpResponse.setError {} svc.json 400 (ascii "invalid JSON: " ++ e.what) with
  | ok resp => exact .ret _
  | error w => exact .raise _

/-- The body `x` is refused with 400. -/
theorem plain_body_answered :
    ∃ r, Trace (dispatchInPlace sampleStack sampleServices (registerRequest (ascii "x")))
        [⟨.jsonParse (ascii "x"), .error (parseError 1 "invalid literal" (ascii "x"))⟩] r ∧
      ∃ resp, r = .ok (.answered resp) := by
  have htr := trace_registerRequest sampleServices (ascii "x")
    (e := parseError 1 "invalid literal" (ascii "x")) rfl
  obtain ⟨hroute, hdeep⟩ := routed_registerRequest (ascii "x")
  have hdispatch : apiRouter.dispatch (registerRequest (ascii "x")) =
      some (.register, HttpRouter.setPathParams (registerRequest (ascii "x")) []) :=
    congrArg (Option.map _) hroute
  refine ⟨_, htr, (dispatch_answers_iff sampleServices_lawful sampleStack htr).mpr
    ⟨hdeep, fun hout => ?_, .inr ?_⟩⟩
  · rw [OutOfRange, hdispatch] at hout
    exact hout
  · show ¬ (!validUtf8 (parseError 1 "invalid literal" (ascii "x")).what) = true
    decide +kernel

/-- The body of a quote and the byte `FF` ends the request with an exception:
the parser's text holds the byte, and `set_error` cannot write it. -/
theorem broken_string_escapes :
    ∃ e, Trace (dispatchInPlace sampleStack sampleServices (registerRequest [34, 0xFF]))
      [⟨.jsonParse [34, 0xFF],
        .error (parseError 2 "invalid string: ill-formed UTF-8 byte" [34, 0xFF])⟩] (.error e) := by
  have htr := trace_registerRequest sampleServices [34, 0xFF]
    (e := parseError 2 "invalid string: ill-formed UTF-8 byte" [34, 0xFF]) rfl
  have hbad : ¬ validUtf8 (ascii "invalid JSON: " ++
      (parseError 2 "invalid string: ill-formed UTF-8 byte" [34, 0xFF]).what) = true := by
    decide +kernel
  cases hset : HttpResponse.setError {} sampleServices.json 400 (ascii "invalid JSON: " ++
      (parseError 2 "invalid string: ill-formed UTF-8 byte" [34, 0xFF]).what) with
  | ok resp => exact absurd ((setError_ok_iff sampleServices_lawful {} 400 _).mp ⟨resp, hset⟩) hbad
  | error w =>
      rw [hset] at htr
      exact ⟨_, htr⟩

end SolarDrive.Api
