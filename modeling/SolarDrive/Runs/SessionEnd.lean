import SolarDrive.Runs.UploadParts

/-!
# A session that has ended

An abort or a completion deletes the session, and a request for a part that had
loaded it before writes it back, field by field, the name of the file first.
With that field the session is there again.

`ended_for_good` shows that this is the only way: if no request writes the name
into a session that is not there (`NotRevived`), no load finds it after the answer.
-/

namespace SolarDrive.Runs

open Lib Http Api Metadata Prog

def abortRequest (svc : Services) (req : HttpRequest) : App Reply := do
  let resp ← handleAbort svc req
  return .answered resp

def completeRequest (svc : Services) (req : HttpRequest) : App Reply := do
  let resp ← handleComplete svc req
  return .answered resp

/-! ## What an answer says -/

section Answers

variable {svc : Services} {uploadId : Bytes} {log : Log}
  {valid : (c : Call) → Except Exn c.Resp → Prop}

/-- Any calls, with these outcomes. -/
abbrev heard (valid : (c : Call) → Except Exn c.Resp → Prop) : Interface Call Call.Resp Exn Log :=
  logInterface (fun _ _ => True) valid

theorem heard_grows {α : Type} (p : App α) :
    p.wp (heard valid) (Grows (fun _ _ => True) log) log :=
  grows_of_callsOnly (fun _ _ _ => trivial) (callsOnly_true p)

/-- The process has sent the `DEL`. -/
def DeletedIn (uploadId : Bytes) (log : Log) : Prop :=
  ∃ r, (⟨.redisDel (sessionKey uploadId), r⟩ : Event Call Call.Resp Exn) ∈ log

/-- A 200 is answered after the `DEL`. -/
abbrev Ended (uploadId : Bytes) (resp : HttpResponse) (log : Log) : Prop :=
  resp.statusCode = 200 → DeletedIn uploadId log

theorem heard_refused (uploadId : Bytes) {code : Int} (hcode : code ≠ 200) (msg : Bytes) :
    (svc.setError code msg).wp (heard valid) (Grows (Ended uploadId) log) log := by
  refine wp_mono (grows_refused hcode msg) ?_
  rintro r log' ⟨hsub, hresp⟩
  exact ⟨hsub, fun resp hr hok => absurd hok (hresp resp hr)⟩

theorem heard_deleteFromRedis (hredis : svc.hasRedis = true) :
    (deleteFromRedis svc uploadId).wp (heard valid)
      (Grows (fun _ log' => DeletedIn uploadId log') log) log := by
  unfold deleteFromRedis
  rw [if_pos hredis]
  refine grows_bind (grows_request trivial) fun b log₁ _ hdel => ?_
  exact grows_pure ⟨_, hdel.1⟩

/-- A handler that works on a session, by what is known of a session it has loaded. -/
theorem grows_withSession {pre : Log → Call → Prop} {req : HttpRequest} {what : Bytes}
    {k : Bytes → MultipartSession → App HttpResponse} {M : MultipartSession → Log → Prop}
    {G : HttpResponse → Log → Prop} (hid : req.getPathParam (ascii "upload_id") = uploadId)
    (hG : ∀ resp log, resp.statusCode ≠ 200 → G resp log)
    (hload : (loadFromRedis svc uploadId).wp (logInterface pre valid)
      (Grows (fun session log' => session.uploadId = [] ∨ M session log') log) log)
    (hk : ∀ session log', M session log' →
      (k uploadId session).wp (logInterface pre valid) (Grows G log') log') :
    (withSession svc req what k).wp (logInterface pre valid) (Grows G log) log := by
  have hrefused : ∀ {log : Log} {code : Int}, code ≠ 200 → ∀ msg,
      (svc.setError code msg).wp (logInterface pre valid) (Grows G log) log := by
    intro log code hcode msg
    refine wp_mono (grows_refused hcode msg) ?_
    rintro r log' ⟨hsub, hresp⟩
    exact ⟨hsub, fun resp hr => hG resp log' (hresp resp hr)⟩
  refine wp_catch (M := Grows G log) ?_ (fun resp log' h => h) ?_
  swap
  · rintro e log' ⟨hsub, -⟩
    refine wp_mono (hrefused (by decide) _) ?_
    rintro r log'' ⟨hsub', hr⟩
    exact ⟨List.Subset.trans hsub hsub', hr⟩
  split
  · exact hrefused (by decide) _
  dsimp only
  rw [hid]
  split
  · exact hrefused (by decide) _
  have hfound : (requireSession svc req uploadId).wp (logInterface pre valid)
      (Grows (fun found log' => (∀ session, found = .ok session → M session log') ∧
        ∀ resp, found = .error resp → resp.statusCode ≠ 200) log) log := by
    refine grows_bind hload fun session log₁ _ hsession => ?_
    have hrefusal : ∀ {code : Int} {msg : Bytes} {log₁ : Log}, code ≠ 200 → (do
          let resp ← svc.setError code msg
          return .error resp : App (Answered MultipartSession)).wp (logInterface pre valid)
        (Grows (fun found log' => (∀ session, found = .ok session → M session log') ∧
          ∀ resp, found = .error resp → resp.statusCode ≠ 200) log₁) log₁ := by
      intro code msg log₁ hcode
      refine grows_bind (grows_refused hcode _) fun resp _ _ hresp => grows_pure ⟨by simp, ?_⟩
      rintro _ ⟨⟩
      exact hresp
    split
    · exact hrefusal (by decide)
    · rename_i hid
      split
      · exact hrefusal (by decide)
      · refine grows_pure ⟨?_, by simp⟩
        rintro _ ⟨⟩
        exact hsession.resolve_left hid
  refine grows_bind hfound fun found log₁ _ hfound => ?_
  cases found with
  | error resp => exact grows_pure (hG resp log₁ (hfound.2 resp rfl))
  | ok session => exact hk session log₁ (hfound.1 session rfl)

/-- Only with a client there is a session to work on. -/
theorem heard_loadFromRedis : (loadFromRedis svc uploadId).wp (heard valid)
    (Grows (fun session _ => session.uploadId = [] ∨ svc.hasRedis = true) log) log := by
  by_cases hredis : svc.hasRedis = true
  · refine wp_mono (heard_grows _) ?_
    rintro r log' ⟨hsub, -⟩
    exact ⟨hsub, fun _ _ => Or.inr hredis⟩
  · unfold loadFromRedis
    rw [if_neg hredis]
    exact grows_pure (Or.inl rfl)

theorem heard_withSession {req : HttpRequest} {what : Bytes}
    {k : Bytes → MultipartSession → App HttpResponse}
    (hid : req.getPathParam (ascii "upload_id") = uploadId)
    (hk : svc.hasRedis = true → ∀ session log', (k uploadId session).wp (heard valid)
      (Grows (Ended uploadId) log') log') :
    (withSession svc req what k).wp (heard valid) (Grows (Ended uploadId) log) log :=
  grows_withSession hid (fun _ _ hcode hok => absurd hok hcode) heard_loadFromRedis
    fun session log' hredis => hk hredis session log'

/-- What comes after the `DEL`. -/
theorem heard_after {p : App HttpResponse} (hdel : DeletedIn uploadId log) :
    p.wp (heard valid) (Grows (Ended uploadId) log) log := by
  obtain ⟨r, hmem⟩ := hdel
  refine wp_mono (heard_grows p) ?_
  rintro res log' ⟨hsub, -⟩
  exact ⟨hsub, fun _ _ _ => ⟨r, hsub hmem⟩⟩

theorem heard_handleAbort {req : HttpRequest}
    (hid : req.getPathParam (ascii "upload_id") = uploadId) :
    (handleAbort svc req).wp (heard valid) (Grows (Ended uploadId) log) log :=
  heard_withSession hid fun hredis _ _ =>
    grows_bind (heard_deleteFromRedis hredis) fun _ _ _ hdel => heard_after hdel

theorem heard_handleComplete {req : HttpRequest}
    (hid : req.getPathParam (ascii "upload_id") = uploadId) :
    (handleComplete svc req).wp (heard valid) (Grows (Ended uploadId) log) log := by
  refine heard_withSession hid fun hredis session log₁ => ?_
  cases firstMissing session with
  | some i => exact heard_refused uploadId (by decide) _
  | none =>
      refine grows_bind (heard_grows _) fun chunkHashes log₂ _ _ => ?_
      refine grows_bind (heard_grows _) fun content log₃ _ _ => ?_
      refine grows_bind (heard_grows _) fun created log₄ _ _ => ?_
      exact grows_bind (heard_deleteFromRedis hredis) fun _ _ _ hdel => heard_after hdel

/-- The answer of an abort or a completion. -/
theorem heard_endRequest {req : HttpRequest}
    (hid : req.getPathParam (ascii "upload_id") = uploadId) {p : App Reply}
    (hp : p = abortRequest svc req ∨ p = completeRequest svc req) :
    p.wp (heard valid) (fun r log => ∀ resp, r = .ok (.answered resp) → Ended uploadId resp log)
      [] := by
  have hanswer : ∀ {handler : App HttpResponse},
      handler.wp (heard valid) (Grows (Ended uploadId) []) [] →
      (do let resp ← handler; return .answered resp : App Reply).wp (heard valid)
        (fun r log => ∀ resp, r = .ok (.answered resp) → Ended uploadId resp log) [] := by
    intro handler h
    refine wp_seq h ?_ fun e log _ resp hr => (by cases hr)
    rintro resp log ⟨-, hended⟩ _ ⟨⟩
    exact hended resp rfl
  rcases hp with rfl | rfl
  · exact hanswer (heard_handleAbort hid)
  · exact hanswer (heard_handleComplete hid)

/-- The name of the file is not in Redis. -/
def Absent (uploadId : Bytes) : (c : Call) → Except Exn c.Resp → Prop
  | .hget key field, r => key = sessionKey uploadId → field = ascii "file_name" → r = .ok none
  | _, _ => True

/-- A load then finds no session. -/
theorem heard_loadRequest : (loadRequest svc uploadId).wp (heard (Absent uploadId))
    (fun r _ => ∀ session, r = .ok (.loaded session) → session.uploadId = []) log := by
  refine wp_seq (M := fun r _ => ∀ session, r = .ok session → session.uploadId = []) ?_ ?_
    fun e _ _ _ h => (by cases h)
  · unfold loadFromRedis
    split
    · refine wp_request_bind trivial ?_ fun e _ _ _ h => (by cases h)
      rintro fileName log' ⟨habsent, -⟩
      obtain rfl : fileName = none := Except.ok.inj (habsent rfl rfl)
      rintro session ⟨⟩
      rfl
    · rintro session ⟨⟩
      rfl
  · rintro session log' h _ ⟨⟩
    exact h session rfl

end Answers

/-! ## The run -/

section Run

variable {svc : Services} {pg : Postgres} {uploadId : Bytes} {w w' : World}

/-- No session is there to be loaded. -/
def Gone (uploadId : Bytes) (w : World) : Prop :=
  hget w (sessionKey uploadId) (ascii "file_name") = none

/-- The name of the file is written only into a session that is there. -/
def NotRevived {ι : Type} (uploadId : Bytes) (w : World) (_ : Pool ι Call Call.Resp Exn Reply)
    (_ : ι) (c : Call) (_ : World) : Prop :=
  ∀ key field value, c = .hset key field value → cstr key = cstr (sessionKey uploadId) →
    cstr field = ascii "file_name" → ¬ Gone uploadId w

theorem gone_of_none (h : w.redis (cstr (sessionKey uploadId)) = none) : Gone uploadId w := by
  rw [Gone, hget, h]

theorem gone_of_same (h : Gone uploadId w)
    (hsame : w'.redis (cstr (sessionKey uploadId)) = w.redis (cstr (sessionKey uploadId))) :
    Gone uploadId w' := by
  rw [Gone, hget, hsame]
  exact h

/-- A session that is gone stays gone. -/
theorem gone_step {ι : Type} {P : Pool ι Call Call.Resp Exn Reply} {i : ι} {c : Call}
    {r : Except Exn c.Resp} (h : Gone uploadId w) (hexec : exec svc pg c w = (r, w'))
    (hcond : NotRevived uploadId w P i c w') : Gone uploadId w' := by
  by_cases hredis : touchesRedis c = false
  · exact gone_of_same h (by rw [exec_redis hredis hexec])
  have hw : w' = (exec svc pg c w).2 := by rw [hexec]
  subst hw
  cases c with
  | redisSet key value ttl =>
      by_cases hkey : cstr (sessionKey uploadId) = cstr key
      · have hstring : (exec svc pg (.redisSet key value ttl) w).2.redis
            (cstr (sessionKey uploadId)) = some (.str (cstr value)) := by
          show Function.update w.redis (cstr key) _ _ = _
          rw [hkey, Function.update_self]
        rw [Gone, hget, hstring]
      · exact gone_of_same h (Function.update_of_ne hkey _ _)
  | redisDel key =>
      by_cases hkey : cstr (sessionKey uploadId) = cstr key
      · refine gone_of_none ?_
        show Function.update w.redis (cstr key) none (cstr (sessionKey uploadId)) = none
        rw [hkey, Function.update_self]
      · exact gone_of_same h (Function.update_of_ne hkey _ _)
  | hset key field value =>
      show Gone uploadId (hset key field value w).2
      by_cases hkey : cstr key = cstr (sessionKey uploadId)
      · -- a session that is gone gets no file name again, and other fields do not bring it back
        have hfield : cstr (ascii "file_name") ≠ cstr field := fun hf =>
          hcond key field value rfl hkey (hf.symm.trans (by decide)) h
        have hold : ∀ fields, w.redis (cstr (sessionKey uploadId)) = some (.hash fields) →
            fields (cstr (ascii "file_name")) = none := by
          intro fields hf
          rw [Gone, hget, hf] at h
          exact h
        rw [Gone, hget, ← hkey]
        rw [← hkey] at hold
        unfold hset
        cases hvalue : w.redis (cstr key) with
        | none =>
            dsimp only
            rw [Function.update_self]
            exact Function.update_of_ne hfield _ _
        | some v =>
            cases v with
            | str s =>
                dsimp only
                rw [hvalue]
            | hash fields =>
                dsimp only
                rw [Function.update_self]
                exact (Function.update_of_ne hfield _ _).trans (hold fields hvalue)
      · obtain ⟨redis, hsame, hother⟩ : ∃ redis, (hset key field value w).2 = { w with redis } ∧
            redis (cstr (sessionKey uploadId)) = w.redis (cstr (sessionKey uploadId)) := by
          unfold hset
          split
          · exact ⟨w.redis, rfl, rfl⟩
          · exact ⟨_, rfl, Function.update_of_ne (Ne.symm hkey) _ _⟩
          · exact ⟨_, rfl, Function.update_of_ne (Ne.symm hkey) _ _⟩
        rw [hsame]
        exact gone_of_same h hother
  | _ => exact absurd rfl hredis

variable {ι : Type} [DecidableEq ι] {P₀ P P' : Pool ι Call Call.Resp Exn Reply} {w₀ : World}

/-- Once a `DEL` is in the log of a process, the session is gone. -/
theorem gone_of_deleted (hstart : ∀ i, (P₀ i).log = [])
    (hrun : Pool.Run (exec svc pg) (NotRevived uploadId) w₀ P₀ w P) :
    ∀ i, DeletedIn uploadId (P i).log → Gone uploadId w := by
  refine hrun.invariant (fun w P => ∀ i, DeletedIn uploadId (P i).log → Gone uploadId w) ?_ ?_
  · rintro i ⟨r, hmem⟩
    rw [hstart i] at hmem
    exact absurd hmem List.not_mem_nil
  · rintro w w' P i c k r hinv hcall hexec hcond j ⟨r', hmem⟩
    rcases Pool.mem_log_advance.mp hmem with hold | ⟨-, heq⟩
    · exact gone_step (hinv j ⟨r', hold⟩) hexec hcond
    · cases heq
      have hw : w' = (exec svc pg (.redisDel (sessionKey uploadId)) w).2 := by rw [hexec]
      rw [hw]
      exact gone_of_none (Function.update_self _ _ _)

/-- Every process still does what its program says. -/
theorem follows_run {α : Type} {Q₀ Q : Pool ι Call Call.Resp Exn α}
    {cond : World → Pool ι Call Call.Resp Exn α → ι → Call → World → Prop}
    {G : Except Exn α → Log → Prop} {i : ι} (hstart : (Q₀ i).prog.wp (heard fun _ _ => True) G (Q₀ i).log)
    (hrun : Pool.Run (exec svc pg) cond w₀ Q₀ w Q) :
    Follows (fun _ _ => True) (fun _ _ => True) G (Q i) := by
  refine hrun.invariant (fun _ Q => Follows (fun _ _ => True) (fun _ _ => True) G (Q i)) hstart ?_
  intro w w' Q j c k r hfollows hcall hexec _
  by_cases hj : i = j
  · subst hj
    rw [Pool.advance_self]
    exact hfollows.step hcall trivial
  · rw [Pool.advance_ne Q hj]
    exact hfollows

/-- **An abort and a completion are final** in a run in which no request writes the name of
the file into a session that is gone: after the answer 200 the session is gone for good,
and no load that begins later finds it. -/
theorem ended_for_good {reqs : ι → HttpRequest} (hlogs : ∀ i, (P₀ i).log = []) {a : ι}
    (hid : (reqs a).getPathParam (ascii "upload_id") = uploadId)
    (hend : (P₀ a).prog = abortRequest svc (reqs a) ∨ (P₀ a).prog = completeRequest svc (reqs a))
    (hrun : Pool.Run (exec svc pg) (NotRevived uploadId) w₀ P₀ w P)
    {resp : HttpResponse} (hanswered : (P a).prog = .ret (.answered resp))
    (hok : resp.statusCode = 200)
    (hrun' : Pool.Run (exec svc pg) (NotRevived uploadId) w P w' P') :
    Gone uploadId w' ∧
      ∀ l session, (P l).log = [] → (P l).prog = loadRequest svc uploadId →
        (P' l).prog = .ret (.loaded session) → session.uploadId = [] := by
  have hdeleted : DeletedIn uploadId (P a).log := by
    have hwp : (P₀ a).prog.wp (heard fun _ _ => True)
        (fun r log => ∀ resp, r = .ok (.answered resp) → Ended uploadId resp log) (P₀ a).log := by
      rw [hlogs a]
      exact heard_endRequest hid hend
    exact (follows_run hwp hrun).done hanswered resp rfl hok
  have hgone : Gone uploadId w := gone_of_deleted hlogs hrun a hdeleted
  refine ⟨hrun'.invariant (fun w _ => Gone uploadId w) hgone fun h _ hexec hcond =>
    gone_step h hexec hcond, fun l session hlog hload hdone => ?_⟩
  -- from here on every answer for the name of the file is that there is none
  have hfollows : Gone uploadId w' ∧ Follows (fun _ _ => True) (Absent uploadId)
      (fun r _ => ∀ session, r = .ok (.loaded session) → session.uploadId = []) (P' l) := by
    refine hrun'.invariant (fun w P => Gone uploadId w ∧ Follows (fun _ _ => True)
      (Absent uploadId) (fun r _ => ∀ session, r = .ok (.loaded session) → session.uploadId = [])
      (P l)) ⟨hgone, ?_⟩ ?_
    · rw [Follows, hload]
      exact heard_loadRequest
    · rintro w w' P i c k r ⟨hg, hf⟩ hcall hexec hcond
      refine ⟨gone_step hg hexec hcond, ?_⟩
      by_cases hi : l = i
      · subst hi
        rw [Pool.advance_self]
        refine hf.step hcall ?_
        cases c with
        | hget key field =>
            rintro rfl rfl
            exact (congrArg Prod.fst hexec).symm.trans (congrArg Except.ok hg)
        | _ => trivial
      · rw [Pool.advance_ne P hi]
        exact hf
  exact hfollows.2.done hdone session rfl

end Run

/-! ### A part and an abort -/

/-- Request 0 brings a part, request 1 aborts, and process 2 loads. -/
def partBesideAbort : Pool (Fin 3) Call Call.Resp Exn Reply := fun i =>
  { log := []
    prog :=
      if i = 0 then partRequest sampleServices (partBody 0)
      else if i = 1 then abortRequest sampleServices (partBody 1)
      else loadRequest sampleServices (ascii "s") }

/-- The session is there when something is written into it. -/
def writesOpen (w : World) (_ : Pool (Fin 3) Call Call.Resp Exn Reply) (_ : Fin 3) (c : Call) :
    Bool :=
  match c with
  | .hset _ _ _ => (hget w (sessionKey (ascii "s")) (ascii "file_name")).isSome
  | _ => true

theorem notRevived_of_writesOpen {w w' : World} {P : Pool (Fin 3) Call Call.Resp Exn Reply}
    {i : Fin 3} {c : Call} (h : writesOpen w P i c = true) : NotRevived (ascii "s") w P i c w' := by
  rintro key field value rfl - - hgone
  have hsome : (hget w (sessionKey (ascii "s")) (ascii "file_name")).isSome = true := h
  rw [hgone] at hsome
  cases hsome

def loadedId (p : Worker) : Option Bytes :=
  match p.prog with
  | .ret (.loaded session) => some session.uploadId
  | _ => none

theorem loadedId_sound {p : Worker} {id : Bytes} (h : loadedId p = some id) :
    ∃ session, p.prog = .ret (.loaded session) ∧ session.uploadId = id := by
  unfold loadedId at h
  split at h
  · rename_i session hp
    exact ⟨session, hp, Option.some.inj h⟩
  · cases h

/-- The part is written back before the abort. -/
theorem aborted_for_good : ∃ w P w' P' session,
    Pool.Run (exec sampleServices samplePostgres) (NotRevived (ascii "s")) openSession
      partBesideAbort w P ∧
    Pool.Run (exec sampleServices samplePostgres) (NotRevived (ascii "s")) w P w' P' ∧
    (P' 2).prog = .ret (.loaded session) ∧ session.uploadId = [] := by
  have hrun : ((Pool.runSchedule (exec sampleServices samplePostgres) writesOpen
      (List.replicate 23 0 ++ List.replicate 12 1) openSession partBesideAbort).any fun p =>
        answeredOk (p.2 1) && (p.2 2).log.isEmpty &&
          (Pool.runSchedule (exec sampleServices samplePostgres) writesOpen [2] p.1 p.2).any fun q =>
            loadedId (q.2 2) == some []) = true := by
    decide +kernel
  obtain ⟨⟨w, P⟩, hsched, hp⟩ := (Option.any_eq_true _ _).mp hrun
  rw [Bool.and_eq_true, Bool.and_eq_true] at hp
  obtain ⟨⟨w', P'⟩, hsched', hq⟩ := (Option.any_eq_true _ _).mp hp.2
  obtain ⟨resp, hresp, hok⟩ := answeredOk_sound hp.1.1
  obtain ⟨session, hprog, -⟩ := loadedId_sound (beq_iff_eq.mp hq)
  have hr := Pool.run_of_schedule (fun w P i c w' => @notRevived_of_writesOpen w w' P i c) hsched
  have hr' := Pool.run_of_schedule (fun w P i c w' => @notRevived_of_writesOpen w w' P i c) hsched'
  have hlog := List.isEmpty_iff.mp hp.1.2
  have hend := @ended_for_good sampleServices samplePostgres (ascii "s") w w' (Fin 3) _ partBesideAbort
    P P' openSession partBody (fun _ => rfl) 1 rfl (Or.inl rfl) hr resp hresp hok hr'
  exact ⟨w, P, w', P', session, hr, hr', hprog, hend.2 2 session hlog (hr.untouched hlog) hprog⟩

/-- The part request has loaded the session, the abort deletes it, and the request writes it
back. -/
theorem aborted_and_revived : ¬ ∀ (svc : Services) (pg : Postgres) (uploadId : Bytes)
    (P₀ P P' : Pool (Fin 3) Call Call.Resp Exn Reply) (w₀ w w' : World)
    (reqs : Fin 3 → HttpRequest) (a l : Fin 3) (resp : HttpResponse) (session : MultipartSession),
    (∀ i, (P₀ i).log = []) → (reqs a).getPathParam (ascii "upload_id") = uploadId →
    (P₀ a).prog = abortRequest svc (reqs a) →
    Pool.Run (exec svc pg) (fun _ _ _ _ _ => True) w₀ P₀ w P →
    (P a).prog = .ret (.answered resp) → resp.statusCode = 200 →
    Pool.Run (exec svc pg) (fun _ _ _ _ _ => True) w P w' P' →
    (P l).log = [] → (P l).prog = loadRequest svc uploadId →
    (P' l).prog = .ret (.loaded session) → session.uploadId = [] := by
  intro h
  have hrun : ((Pool.runSchedule (exec sampleServices samplePostgres) (fun _ _ _ _ => true)
      (List.replicate 12 0 ++ List.replicate 12 1) openSession partBesideAbort).any fun p =>
        answeredOk (p.2 1) && (p.2 2).log.isEmpty &&
          (Pool.runSchedule (exec sampleServices samplePostgres) (fun _ _ _ _ => true)
            (List.replicate 11 0 ++ List.replicate 11 2) p.1 p.2).any fun q =>
              loadedId (q.2 2) == some (ascii "s")) = true := by
    decide +kernel
  obtain ⟨⟨w, P⟩, hsched, hp⟩ := (Option.any_eq_true _ _).mp hrun
  rw [Bool.and_eq_true, Bool.and_eq_true] at hp
  obtain ⟨⟨w', P'⟩, hsched', hq⟩ := (Option.any_eq_true _ _).mp hp.2
  obtain ⟨resp, hresp, hok⟩ := answeredOk_sound hp.1.1
  obtain ⟨session, hprog, hid⟩ := loadedId_sound (beq_iff_eq.mp hq)
  have hr : Pool.Run (exec sampleServices samplePostgres) (fun _ _ _ _ _ => True) openSession
      partBesideAbort w P := Pool.run_of_schedule (fun _ _ _ _ _ _ => trivial) hsched
  have hr' : Pool.Run (exec sampleServices samplePostgres) (fun _ _ _ _ _ => True) w P w' P' :=
    Pool.run_of_schedule (fun _ _ _ _ _ _ => trivial) hsched'
  have hlog := List.isEmpty_iff.mp hp.1.2
  have hnone := h sampleServices samplePostgres (ascii "s") partBesideAbort P P' openSession w w'
    partBody 1 2 resp session (fun _ => rfl) rfl rfl hr hresp hok hr' hlog (hr.untouched hlog) hprog
  rw [hid] at hnone
  cases hnone

end SolarDrive.Runs
