import SolarDrive.Api.Effects
import SolarDrive.Metadata.Lookups
import SolarDrive.Metadata.Names
import SolarDrive.Runs.SessionEnd

/-!
# One file from a session

Several requests complete one session. New content is safe: all of them insert
under the name of the session, and the unique index refuses the second. Known
content is linked under the next free name, as often as it is linked; and a load
that is overtaken by the `DEL` puts together a session that has lost fields.

`one_file` shows that these are the only ways: if a request links only while no other is
between its load of the session and the `DEL`, and inserts what it has read before a `DEL`
(`InTurn`), there is one file.
-/

namespace SolarDrive.Runs

open Lib Http Api Metadata Prog

/-! ## What a completion does -/

section Complete

variable (svc : Services) (uploadId : Bytes) (answer : (c : Call) → Except Exn c.Resp)

/-- A file has been created. -/
def creation : Event Call Call.Resp Exn → Prop
  | ⟨.fileInsert _, .ok _⟩ => True
  | ⟨.insertLink _ _, .ok _⟩ => True
  | _ => False

def CreatedIn (log : Log) : Prop := ∃ e ∈ log, creation e

/-- The calls whose answer depends on the session and the store only. -/
def stable (uploadId : Bytes) : Call → Prop
  | .hget key _ => key = sessionKey uploadId
  | .get _ => True
  | .jsonParse _ => True
  | _ => False

/-- The session, if these are the answers. -/
def savedSession : MultipartSession :=
  ((loadFromRedis svc uploadId).eval answer).toOption.getD {}

def savedHash : Bytes :=
  svc.sha256 (((getChunked (savedSession svc uploadId answer).partHashes).eval
    answer).toOption.getD [])

/-- The session as found at the start has been read, all of it. -/
abbrev Whole (log : Log) : Prop := AnsweredBy (stable uploadId) answer log

/-- The session has been found in Redis. -/
def FoundIn (log : Log) : Prop := ∃ t, ReadIn uploadId log "file_name" t

/-- One file is created, from what was read, by the way the lookup chose. -/
def completes (log : Log) : Call → Prop
  | .fileInsert f => ¬ CreatedIn log ∧ FoundIn uploadId log ∧ (Whole uploadId answer log →
      let session := savedSession svc uploadId answer
      f.name = session.fileName ∧ f.ownerId = session.userId ∧ f.folderId = session.folderId ∧
        (⟨.findContentByHash (savedHash svc uploadId answer), .ok none⟩ :
          Event Call Call.Resp Exn) ∈ log)
  | .insertLink _ _ => ¬ CreatedIn log ∧ FoundIn uploadId log ∧ (Whole uploadId answer log →
      ∃ c, (⟨.findContentByHash (savedHash svc uploadId answer), .ok (some c)⟩ :
        Event Call Call.Resp Exn) ∈ log)
  | .redisSet key _ _ => cstr key ≠ cstr (sessionKey uploadId)
  | .redisDel key => key = sessionKey uploadId
  | c => readOnly c = true

variable {svc uploadId answer} {log : Log} {valid : (c : Call) → Except Exn c.Resp → Prop}

theorem CreatedIn.mono {log' : Log} (h : CreatedIn log) (hsub : log ⊆ log') : CreatedIn log' := by
  obtain ⟨e, he, hcreates⟩ := h
  exact ⟨e, hsub he, hcreates⟩

theorem FoundIn.mono {log' : Log} (h : FoundIn uploadId log) (hsub : log ⊆ log') :
    FoundIn uploadId log' := by
  obtain ⟨t, hread⟩ := h
  exact ⟨t, hsub hread⟩

theorem createdIn_append {tail : Log} (h : CreatedIn (log ++ tail))
    (htail : ∀ e ∈ tail, readOnly e.call = true) : CreatedIn log := by
  obtain ⟨e, he, hcreates⟩ := h
  rcases List.mem_append.mp he with hold | hnew
  · exact ⟨e, hold, hcreates⟩
  · have hread := htail e hnew
    unfold creation at hcreates
    split at hcreates
    · cases hread
    · cases hread
    · exact absurd hcreates id

theorem readOnly_of_stable {c : Call} (h : stable uploadId c) : readOnly c = true := by
  cases c with
  | hget key field => rfl
  | get hash => rfl
  | jsonParse text => rfl
  | _ => exact absurd h id

theorem completes_of_readOnly {c : Call} (h : readOnly c = true) (log : Log) :
    completes svc uploadId answer log c := by
  cases c with
  | fileInsert f => cases h
  | insertLink f id => cases h
  | redisSet key value ttl => cases h
  | redisDel key => cases h
  | _ => exact h

abbrev completeLogs (svc : Services) (uploadId : Bytes) (answer : (c : Call) → Except Exn c.Resp) :
    Interface Call Call.Resp Exn Log :=
  logInterface (completes svc uploadId answer) fun _ _ => True

/-- What is read of the session and the store. -/
theorem grows_stable {α : Type} {p : App α} (hp : p.CallsOnly (stable uploadId))
    (h : ¬ CreatedIn log) : p.wp (completeLogs svc uploadId answer)
      (Grows (fun a log' => ¬ CreatedIn log' ∧
        (Whole uploadId answer log' → p.eval answer = .ok a)) log) log := by
  refine wp_mono (wp_eval answer
    (fun c hc log => completes_of_readOnly (readOnly_of_stable hc) log) hp) ?_
  rintro r log' ⟨⟨tail, rfl, htail⟩, hr⟩
  refine ⟨List.subset_append_left _ _, ?_⟩
  rintro a rfl
  exact ⟨fun hc => h (createdIn_append hc fun e he => readOnly_of_stable (htail e he)),
    fun hwhole => (hr hwhole).symm⟩

/-- Other reads. -/
theorem grows_reading {α : Type} {p : App α} (hp : Reads p) (h : ¬ CreatedIn log) :
    p.wp (completeLogs svc uploadId answer) (Grows (fun _ log' => ¬ CreatedIn log') log) log := by
  refine wp_mono (wp_eval answer (fun c hc log => completes_of_readOnly hc log) hp) ?_
  rintro r _ ⟨⟨tail, rfl, htail⟩, -⟩
  exact ⟨List.subset_append_left _ _, fun _ _ hc => h (createdIn_append hc htail)⟩

theorem grows_lookup {hash : Bytes} (h : ¬ CreatedIn log) :
    (ask (.findContentByHash hash)).wp (completeLogs svc uploadId answer)
      (Grows (fun content log' => ¬ CreatedIn log' ∧
        (⟨.findContentByHash hash, .ok content⟩ : Event Call Call.Resp Exn) ∈ log') log) log := by
  refine wp_request.mpr ⟨rfl, ?_⟩
  rintro r log' ⟨-, rfl⟩
  refine ⟨List.subset_append_left _ _, ?_⟩
  rintro content rfl
  refine ⟨fun hc => h (createdIn_append hc ?_), List.mem_append_right _ (List.mem_singleton.mpr rfl)⟩
  rintro e he
  rw [List.mem_singleton.mp he]
  rfl

/-- The calls once a file is there. -/
def afterwards (uploadId : Bytes) (c : Call) : Prop :=
  readOnly c = true ∨ c = .redisDel (sessionKey uploadId) ∨
    ∃ hash id ttl, c = .redisSet (hashKey hash) id ttl

theorem grows_created {α : Type} {p : App α} (hp : p.CallsOnly (afterwards uploadId))
    (h : CreatedIn log) :
    p.wp (completeLogs svc uploadId answer) (Grows (fun _ log' => CreatedIn log') log) log := by
  refine wp_mono (grows_of_callsOnly ?_ hp) ?_
  · rintro c (hc | rfl | ⟨hash, id, ttl, rfl⟩) log
    · exact completes_of_readOnly hc log
    · exact rfl
    · exact hashKey_ne hash uploadId
  · rintro r log' ⟨hsub, -⟩
    exact ⟨hsub, fun _ _ => h.mono hsub⟩

theorem CreatedIn.insert {f : FileRecord} {id : Bytes}
    (h : (⟨.fileInsert f, .ok id⟩ : Event Call Call.Resp Exn) ∈ log) : CreatedIn log :=
  ⟨_, h, trivial⟩

theorem CreatedIn.link {f : FileRecord} {contentId id : Bytes}
    (h : (⟨.insertLink f contentId, .ok id⟩ : Event Call Call.Resp Exn) ∈ log) : CreatedIn log :=
  ⟨_, h, trivial⟩

theorem Whole.subset {log' : Log} (h : Whole uploadId answer log') (hsub : log ⊆ log') :
    Whole uploadId answer log := fun c r hc hmem => h c r hc (hsub hmem)

theorem completes_createFile {session : MultipartSession} {chunkHashes hash : Bytes}
    (h : ¬ CreatedIn log) (hfound : FoundIn uploadId log) (hwhole : Whole uploadId answer log →
      savedSession svc uploadId answer = session ∧ savedHash svc uploadId answer = hash) :
    (createFile svc session chunkHashes hash).wp (completeLogs svc uploadId answer)
      (Grows (fun _ log' => CreatedIn log') log) log := by
  have hredis : ∀ hash value, afterwards uploadId (.redisSet (hashKey hash) value 0) :=
    fun _ _ => Or.inr (Or.inr ⟨_, _, _, rfl⟩)
  have hreads : ∀ c, readOnly c = true → afterwards uploadId c := fun _ => Or.inl
  refine grows_bind (grows_lookup h) ?_
  rintro content log₁ hsub ⟨h₁, hlookup⟩
  have hwhole₁ := fun hw : Whole uploadId answer log₁ => hwhole (hw.subset hsub)
  cases content with
  | some c =>
      have hlink : (linkExistingContent c session.fileName session.mimeType session.userId
          session.folderId).wp (completeLogs svc uploadId answer)
            (Grows (fun _ log' => CreatedIn log') log₁) log₁ := by
        refine grows_bind (grows_reading (reads_makeUniqueName _ _ _) h₁) fun name log₂ hsub₂ h₂ => ?_
        refine wp_mono (grows_request ⟨h₂, (hfound.mono hsub).mono hsub₂, fun hw => ⟨c, ?_⟩⟩) ?_
        · rw [(hwhole₁ (Whole.subset hw hsub₂)).2]
          exact hsub₂ hlookup
        · rintro r log₃ ⟨hsub₃, hr⟩
          exact ⟨hsub₃, fun id hid => CreatedIn.link (hr id hid).1⟩
      refine grows_bind hlink fun id log₂ _ hcreated => ?_
      refine grows_bind (grows_created (callsOnly_rememberHash svc hredis hash c.contentId)
        hcreated) ?_
      exact fun _ log₃ _ hcreated => grows_pure hcreated
  | none =>
      refine grows_bind (grows_request ⟨h₁, hfound.mono hsub, fun hw => ?_⟩) ?_
      · obtain ⟨hsession, hhash⟩ := hwhole₁ hw
        rw [hsession, hhash]
        exact ⟨rfl, rfl, rfl, hlookup⟩
      · rintro id log₂ - ⟨hinsert, -⟩
        refine grows_bind (grows_created (callsOnly_indexContent hreads svc hredis hash)
          (CreatedIn.insert hinsert)) ?_
        exact fun _ log₃ _ hcreated => grows_pure hcreated

theorem completes_finishSession {session : MultipartSession} (h : ¬ CreatedIn log)
    (hfound : FoundIn uploadId log)
    (hwhole : Whole uploadId answer log → savedSession svc uploadId answer = session) :
    (finishSession svc uploadId session).wp (completeLogs svc uploadId answer)
      (Grows (fun _ log' => CreatedIn log') log) log := by
  refine grows_bind (grows_stable (callsOnly_ofJson _) h) ?_
  rintro chunkHashes log₁ hsub ⟨h₁, -⟩
  refine grows_bind (grows_stable (callsOnly_getChunked (fun _ => trivial) _) h₁) ?_
  rintro content log₂ hsub₂ ⟨h₂, hcontent⟩
  refine grows_bind (completes_createFile h₂ ((hfound.mono hsub).mono hsub₂) fun hw => ?_) ?_
  · have hsession := hwhole (Whole.subset (Whole.subset hw hsub₂) hsub)
    refine ⟨hsession, ?_⟩
    rw [savedHash, hsession, hcontent hw]
    rfl
  rintro ⟨fileId, instant⟩ log₃ - hcreated
  have hdel : (deleteFromRedis svc uploadId).CallsOnly (afterwards uploadId) := by
    unfold deleteFromRedis
    split
    · exact callsOnly_bind (callsOnly_request (Or.inr (Or.inl rfl))) fun _ => callsOnly_pure _
    · exact callsOnly_pure _
  refine grows_created (callsOnly_bind hdel fun _ => ?_) hcreated
  exact callsOnly_bind (callsOnly_request (Or.inl rfl)) fun _ => (reads_setJson svc _).mono
    fun _ hc => Or.inl hc

/-- A load that gives a session has found it. -/
theorem found_loadFromRedis : (loadFromRedis svc uploadId).wp (completeLogs svc uploadId answer)
    (Grows (fun session log' => session.uploadId = [] ∨ FoundIn uploadId log') log) log := by
  unfold loadFromRedis
  split
  swap
  · exact grows_pure (Or.inl rfl)
  refine grows_bind (grows_request rfl) ?_
  rintro fileName log₁ - ⟨hread, -⟩
  cases fileName with
  | none => exact grows_pure (Or.inl rfl)
  | some name =>
      have hreads : Reads (loadFields svc (sessionKey uploadId) uploadId name) :=
        callsOnly_loadFields svc (fun _ => rfl) (fun _ => rfl) uploadId name
      refine wp_mono (grows_of_callsOnly (fun _ hc log => completes_of_readOnly hc log) hreads) ?_
      rintro r log₂ ⟨hsub, -⟩
      exact ⟨hsub, fun _ _ => Or.inr ⟨name, hsub hread⟩⟩

/-- A completion creates one file at most, and only then answers 200. -/
theorem completes_completeRequest {req : HttpRequest}
    (hid : req.getPathParam (ascii "upload_id") = uploadId) :
    (completeRequest svc req).wp (completeLogs svc uploadId answer) (fun r log =>
      ∀ resp, r = .ok (.answered resp) → resp.statusCode = 200 → CreatedIn log) [] := by
  have hempty : ¬ CreatedIn [] := fun ⟨_, he, _⟩ => absurd he List.not_mem_nil
  have hhandler : (handleComplete svc req).wp (completeLogs svc uploadId answer)
      (Grows (fun resp log => resp.statusCode = 200 → CreatedIn log) []) [] := by
    refine grows_withSession (M := fun session log => ¬ CreatedIn log ∧ FoundIn uploadId log ∧
      (Whole uploadId answer log → savedSession svc uploadId answer = session)) hid
      (fun _ _ hcode hok => absurd hok hcode) ?_ ?_
    · have hload : (loadFromRedis svc uploadId).CallsOnly (stable uploadId) :=
        callsOnly_loadFromRedis svc (fun _ => rfl) fun _ => trivial
      refine wp_mono (wp_and (grows_stable hload hempty) found_loadFromRedis) ?_
      rintro r log' ⟨⟨hsub, hr⟩, -, hfound⟩
      refine ⟨hsub, fun session hok => (hfound session hok).imp_right fun hfound =>
        ⟨(hr session hok).1, hfound, fun hw => ?_⟩⟩
      rw [savedSession, (hr session hok).2 hw]
      rfl
    · rintro session log ⟨hnot, hfound, hwhole⟩
      cases firstMissing session with
      | some i =>
          refine wp_mono (grows_refused (by decide) _) ?_
          rintro r log' ⟨hsub, hresp⟩
          exact ⟨hsub, fun resp hr hok => absurd hok (hresp resp hr)⟩
      | none =>
          refine wp_mono (completes_finishSession hnot hfound hwhole) ?_
          rintro r log' ⟨hsub, hcreated⟩
          exact ⟨hsub, fun resp hr _ => hcreated resp hr⟩
  refine wp_seq hhandler ?_ fun _ _ _ _ h => (by cases h)
  rintro resp log ⟨-, hresp⟩ _ ⟨⟩ hok
  exact hresp resp rfl hok

/-- The request has only read so far. -/
def OnlyRead (log : Log) : Prop := ∀ e ∈ log, readOnly e.call = true

/-- A completion that is refused with 400 or 403 has only read. -/
abbrev ReadIfRefused (resp : HttpResponse) (log : Log) : Prop :=
  resp.statusCode = 400 ∨ resp.statusCode = 403 → OnlyRead log

theorem OnlyRead.not_created (h : OnlyRead log) : ¬ CreatedIn log := by
  rintro ⟨e, he, hcreates⟩
  have hread := h e he
  unfold creation at hcreates
  split at hcreates
  · cases hread
  · cases hread
  · exact hcreates

section Refused

variable {valid : (c : Call) → Except Exn c.Resp → Prop}

theorem heard_reads {α : Type} {p : App α} (hp : Reads p) (h : OnlyRead log) :
    p.wp (heard valid) (fun _ log' => OnlyRead log') log := by
  refine wp_of_callsOnly OnlyRead (fun log' c hc hlog => ⟨trivial, ?_⟩) hp h
  rintro r _ ⟨-, rfl⟩ e he
  rcases List.mem_append.mp he with hold | hnew
  · exact hlog e hold
  · rw [List.mem_singleton.mp hnew]
    exact hc

theorem heard_setError (code : Int) (msg : Bytes) (h : OnlyRead log) :
    (svc.setError code msg).wp (heard valid)
      (fun r log' => ∀ resp, r = .ok resp → ReadIfRefused resp log') log := by
  refine wp_setError svc code msg (fun resp _ => ?_) fun e => ?_
  · rintro _ ⟨⟩ -
    exact h
  · rintro _ ⟨⟩

/-- A session that is finished is answered with 200. -/
theorem heard_finishSession {session : MultipartSession} :
    (finishSession svc uploadId session).wp (heard valid)
      (fun r _ => ∀ resp, r = .ok resp → resp.statusCode = 200) log := by
  have hany : ∀ {α β : Type} {p : App α} {f : α → App β} {Q : Except Exn β → Log → Prop} {log : Log},
      (∀ a log, (f a).wp (heard valid) Q log) → (∀ e log, Q (.error e) log) →
      (p >>= f).wp (heard valid) Q log := by
    intro α β p f Q log hf herr
    have hp : p.wp (heard valid) (fun _ _ => True) log := wp_mono (heard_grows p) fun _ _ _ => trivial
    exact wp_seq hp (fun a log _ => hf a log) fun e log _ => herr e log
  have hno : ∀ (e : Exn) (log : Log) (resp : HttpResponse),
      (.error e : Except Exn HttpResponse) = .ok resp → resp.statusCode = 200 :=
    fun _ _ _ h => by cases h
  refine hany (fun chunkHashes log₁ => hany (fun content log₂ => hany (fun created log₃ => ?_) hno)
    hno) hno
  refine hany (fun _ log₄ => hany (fun _ log₅ => ?_) hno) hno
  unfold Services.setJson
  refine hany (fun text log₆ => ?_) hno
  rintro _ ⟨⟩
  rfl

theorem heard_completeRequest (req : HttpRequest) : (completeRequest svc req).wp (heard valid)
    (fun r log => ∀ resp, r = .ok (.answered resp) → ReadIfRefused resp log) [] := by
  have hempty : OnlyRead [] := fun _ he => absurd he List.not_mem_nil
  have hhandler : (handleComplete svc req).wp (heard valid)
      (fun r log => ∀ resp, r = .ok resp → ReadIfRefused resp log) [] := by
    refine wp_catch (M := fun r log => ∀ resp, r = .ok resp → ReadIfRefused resp log) ?_
      (fun resp log h => h) ?_
    swap
    · intro e log _
      refine wp_setError svc 500 _ (fun resp hcode => ?_) fun e => ?_
      · rintro _ ⟨⟩ hrefused
        rw [hcode] at hrefused
        exact absurd hrefused (by decide)
      · rintro _ ⟨⟩
    split
    · exact heard_setError _ _ hempty
    dsimp only
    split
    · exact heard_setError _ _ hempty
    refine wp_seq (heard_reads (reads_requireSession svc req _) hempty) ?_ fun _ _ _ _ h => (by cases h)
    intro found log hread
    cases found with
    | error resp =>
        rintro _ ⟨⟩ -
        exact hread
    | ok session =>
        dsimp only
        cases firstMissing session with
        | some i => exact heard_setError _ _ hread
        | none =>
            refine wp_mono heard_finishSession ?_
            rintro r log' hok resp hr hrefused
            rw [hok resp hr] at hrefused
            exact absurd hrefused (by decide)
  refine wp_seq hhandler ?_ fun _ _ _ _ h => (by cases h)
  rintro resp log hresp _ ⟨⟩
  exact hresp resp rfl

end Refused

end Complete

/-! ## The run -/

section Run

variable {ι : Type} (svc : Services) (pg : Postgres) (uploadId : Bytes) (w₀ : World)

/-- The answers of the world as it was at the start. -/
abbrev before (c : Call) : Except Exn c.Resp := (exec svc pg c w₀).1

/-- The completion has been refused with 400 or 403. -/
def WasRefused (p : Worker) : Prop :=
  ∃ resp, p.prog = .ret (.answered resp) ∧ (resp.statusCode = 400 ∨ resp.statusCode = 403)

/-- When a request links or inserts. -/
structure InTurn (w : World) (P : Pool ι Call Call.Resp Exn Reply) (j : ι) (c : Call)
    (_ : World) : Prop where
  /-- The session is still there, and no other request has loaded it, but one that was refused. -/
  link : ∀ f contentId, c = .insertLink f contentId → ¬ Gone uploadId w ∧
    ∀ i, i ≠ j → FoundIn uploadId (P i).log → WasRefused (P i)
  /-- Its fields have been read before a `DEL`, or a live file has the name already. -/
  insert : ∀ f, c = .fileInsert f →
    (∀ field r, (⟨.hget (sessionKey uploadId) field, r⟩ : Event Call Call.Resp Exn) ∈ (P j).log →
      r = .ok (hget w₀ (sessionKey uploadId) field)) ∨
    ∃ row ∈ w.files, Named pg f.name f.ownerId f.folderId row

/-- A live file has the name of the session. -/
def NameTaken (w : World) : Prop :=
  let session := savedSession svc uploadId (before svc pg w₀)
  ∃ row ∈ w.files, Named pg session.fileName session.userId session.folderId row

/-- There is content with the hash of the session. -/
def ContentKnown (w : World) : Prop :=
  ∃ c ∈ w.contents, c.hash = savedHash svc uploadId (before svc pg w₀)

/-- One file at most, and what the requests know. -/
structure OneFileSafe (w : World) (P : Pool ι Call Call.Resp Exn Reply) : Prop where
  store : w.store = w₀.store
  kept : w.redis (cstr (sessionKey uploadId)) = w₀.redis (cstr (sessionKey uploadId)) ∨
    Gone uploadId w
  answers : ∀ i c r, stable uploadId c → (⟨c, r⟩ : Event Call Call.Resp Exn) ∈ (P i).log →
    r = before svc pg w₀ c ∨ Gone uploadId w ∧ ∃ field, c = .hget (sessionKey uploadId) field
  contents : w₀.contents ⊆ w.contents
  origin : ContentKnown svc pg uploadId w₀ w →
    ContentKnown svc pg uploadId w₀ w₀ ∨ NameTaken svc pg uploadId w₀ w
  notFound : ∀ i, (⟨.findContentByHash (savedHash svc uploadId (before svc pg w₀)), .ok none⟩ :
    Event Call Call.Resp Exn) ∈ (P i).log → ¬ ContentKnown svc pg uploadId w₀ w₀
  found : ∀ i c, (⟨.findContentByHash (savedHash svc uploadId (before svc pg w₀)), .ok (some c)⟩ :
    Event Call Call.Resp Exn) ∈ (P i).log → ContentKnown svc pg uploadId w₀ w
  created : ∀ i, CreatedIn (P i).log →
    ContentKnown svc pg uploadId w₀ w ∨ NameTaken svc pg uploadId w₀ w
  sources : ∀ i, CreatedIn (P i).log → FoundIn uploadId (P i).log
  refused : ∀ i, Follows (fun _ _ => True) (fun _ _ => True)
    (fun r log => ∀ resp, r = .ok (.answered resp) → ReadIfRefused resp log) (P i)
  files : w.files = w₀.files ∧ (∀ i, ¬ CreatedIn (P i).log) ∨
    ∃ i row, w.files = w₀.files ++ [row] ∧ CreatedIn (P i).log ∧ ∀ j, CreatedIn (P j).log → j = i
  follows : ∀ i, Follows (completes svc uploadId (before svc pg w₀)) (fun _ _ => True)
    (fun r log => ∀ resp, r = .ok (.answered resp) → resp.statusCode = 200 → CreatedIn log) (P i)

variable {svc pg uploadId w₀} {w w' : World} {P : Pool ι Call Call.Resp Exn Reply} [DecidableEq ι]

omit [DecidableEq ι] in
/-- A request has a whole copy as long as the session is there. -/
theorem OneFileSafe.whole {i : ι} (hsafe : OneFileSafe svc pg uploadId w₀ w P)
    (hread : ∀ field r, (⟨.hget (sessionKey uploadId) field, r⟩ : Event Call Call.Resp Exn) ∈
      (P i).log → Gone uploadId w → r = .ok (hget w₀ (sessionKey uploadId) field)) :
    Whole uploadId (before svc pg w₀) (P i).log := by
  intro c r hc hmem
  rcases hsafe.answers i c r hc hmem with hr | ⟨hgone, field, rfl⟩
  · exact hr
  · exact hread field r hmem hgone

theorem createdIn_advance {i j : ι} {c : Call} {k : Except Exn c.Resp → App Reply}
    {r : Except Exn c.Resp} (hr : ¬ creation ⟨c, r⟩) (h : CreatedIn (P.advance i c r (k r) j).log) :
    CreatedIn (P j).log := by
  obtain ⟨e, he, hcreates⟩ := h
  rcases Pool.mem_log_advance.mp he with hold | ⟨rfl, rfl⟩
  · exact ⟨e, hold, hcreates⟩
  · exact absurd hcreates hr

/-- The lookup by hash, when it is answered. -/
theorem exec_findContentByHash {data : Bytes} {found : Option FileRecord}
    (h : exec svc pg (.findContentByHash (svc.sha256 data)) w = (.ok found, w')) :
    found.isSome = true ↔ ∃ c ∈ w.contents, c.hash = svc.sha256 data := by
  have hres : findContentByHash pg w (svc.sha256 data) = .ok found := congrArg Prod.fst h
  simp only [findContentByHash, contentFindByHash, textParam_sha256, bind_eq_ok] at hres
  obtain ⟨content, ⟨hash, hhash, hcontent⟩, hfound⟩ := hres
  cases hhash
  cases hcontent
  cases hfound
  simp [Option.isSome_map, List.find?_isSome]

omit [DecidableEq ι] in
/-- The `DEL` is not undone. -/
theorem gone_completes (P : Pool ι Call Call.Resp Exn Reply) (i : ι) {c : Call}
    {r : Except Exn c.Resp} {log : Log}
    (hc : completes svc uploadId (before svc pg w₀) log c) (hexec : exec svc pg c w = (r, w'))
    (h : Gone uploadId w) : Gone uploadId w' := by
  refine @gone_step svc pg uploadId w w' ι P i c r h hexec ?_
  rintro key field value rfl
  cases hc

omit [DecidableEq ι] in
/-- The redis key of the session is as it was, or the session is gone. -/
theorem kept_completes (i : ι) {c : Call} {r : Except Exn c.Resp} {log : Log}
    (hc : completes svc uploadId (before svc pg w₀) log c) (hexec : exec svc pg c w = (r, w'))
    (hsafe : OneFileSafe svc pg uploadId w₀ w P) :
    w'.redis (cstr (sessionKey uploadId)) = w₀.redis (cstr (sessionKey uploadId)) ∨
      Gone uploadId w' := by
  rcases hsafe.kept with hkept | hgone
  swap
  · exact Or.inr (gone_completes P i hc hexec hgone)
  by_cases hredis : touchesRedis c = false
  · exact Or.inl (by rw [exec_redis hredis hexec, hkept])
  have hw : w' = (exec svc pg c w).2 := by rw [hexec]
  subst hw
  cases c with
  | redisSet key value ttl =>
      exact Or.inl ((Function.update_of_ne (Ne.symm hc) _ _).trans hkept)
  | redisDel key =>
      obtain rfl : key = sessionKey uploadId := hc
      exact Or.inr (gone_of_none (Function.update_self _ _ _))
  | hset key field value => cases hc
  | _ => exact absurd rfl hredis

omit [DecidableEq ι] in
/-- What a read of the session or the store is answered with. -/
theorem answers_step {c : Call} {r : Except Exn c.Resp}
    (hsafe : OneFileSafe svc pg uploadId w₀ w P) (hc : stable uploadId c)
    (hexec : exec svc pg c w = (r, w')) :
    r = before svc pg w₀ c ∨ Gone uploadId w ∧ ∃ field, c = .hget (sessionKey uploadId) field := by
  obtain rfl : (exec svc pg c w).1 = r := congrArg Prod.fst hexec
  cases c with
  | get hash =>
      refine Or.inl ?_
      show storeGet w hash = storeGet w₀ hash
      rw [storeGet, storeGet, hsafe.store]
  | jsonParse text => exact Or.inl rfl
  | hget key field =>
      obtain rfl : key = sessionKey uploadId := hc
      refine hsafe.kept.imp (fun hkept => ?_) fun hgone => ⟨hgone, field, rfl⟩
      show Except.ok (hget w (sessionKey uploadId) field) = .ok (hget w₀ (sessionKey uploadId) field)
      rw [hget, hget, hkept]
  | _ => exact absurd hc id

/-- A step that creates no file. -/
theorem oneFileSafe_quiet {i : ι} {c : Call} {k : Except Exn c.Resp → App Reply}
    {r : Except Exn c.Resp} (hsafe : OneFileSafe svc pg uploadId w₀ w P)
    (hp : (P i).prog = .call c k) (hexec : exec svc pg c w = (r, w'))
    (hr : ¬ creation ⟨c, r⟩) (hstore : w'.store = w.store) (hcontents : w'.contents = w.contents)
    (hfiles : w'.files = w.files) : OneFileSafe svc pg uploadId w₀ w' (P.advance i c r (k r)) := by
  have hc := (hsafe.follows i).pre_call hp
  have hgone : Gone uploadId w → Gone uploadId w' := gone_completes P i hc hexec
  have hknown : ContentKnown svc pg uploadId w₀ w' ↔ ContentKnown svc pg uploadId w₀ w := by
    rw [ContentKnown, ContentKnown, hcontents]
  have htaken : NameTaken svc pg uploadId w₀ w' ↔ NameTaken svc pg uploadId w₀ w := by
    rw [NameTaken, NameTaken, hfiles]
  -- a creation enters the log only with its own step, so every clause is about old entries
  refine
    { store := hstore.trans hsafe.store
      kept := kept_completes i hc hexec hsafe
      answers := ?_
      contents := by rw [hcontents]; exact hsafe.contents
      origin := fun h => (hsafe.origin (hknown.mp h)).imp_right htaken.mpr
      notFound := ?_
      found := ?_
      created := fun j h => (hsafe.created j (createdIn_advance hr h)).imp hknown.mpr htaken.mpr
      sources := fun j h => (hsafe.sources j (createdIn_advance hr h)).mono
        (log_subset_advance P i j c r (k r))
      refused := Follows.advance hsafe.refused hp trivial
      files := ?_
      follows := Follows.advance hsafe.follows hp trivial }
  · intro j c' r' hc' hmem
    rcases Pool.mem_log_advance.mp hmem with hold | ⟨-, heq⟩
    · exact (hsafe.answers j c' r' hc' hold).imp_right fun ⟨h, hf⟩ => ⟨hgone h, hf⟩
    · cases heq
      exact (answers_step hsafe hc' hexec).imp_right fun ⟨h, hf⟩ => ⟨hgone h, hf⟩
  · intro j hmem
    rcases Pool.mem_log_advance.mp hmem with hold | ⟨-, heq⟩
    · exact hsafe.notFound j hold
    · cases heq
      rintro ⟨c', hmem', hhash⟩
      have hnone := (exec_findContentByHash hexec).mpr ⟨c', hsafe.contents hmem', hhash⟩
      cases hnone
  · intro j c' hmem
    rcases Pool.mem_log_advance.mp hmem with hold | ⟨-, heq⟩
    · exact hknown.mpr (hsafe.found j c' hold)
    · cases heq
      exact hknown.mpr ((exec_findContentByHash hexec).mp rfl)
  · rcases hsafe.files with ⟨hsame, hnone⟩ | ⟨j, row, hrow, hcreated, honly⟩
    · exact Or.inl ⟨hfiles.trans hsame, fun j h => hnone j (createdIn_advance hr h)⟩
    · exact Or.inr ⟨j, row, hfiles.trans hrow, hcreated.mono (log_subset_advance P i j c r (k r)),
        fun l h => honly l (createdIn_advance hr h)⟩

/-- The step that creates the file. -/
theorem oneFileSafe_create {i : ι} {c : Call} {k : Except Exn c.Resp → App Reply}
    {r : Except Exn c.Resp} (hsafe : OneFileSafe svc pg uploadId w₀ w P)
    (hp : (P i).prog = .call c k) (hexec : exec svc pg c w = (r, w'))
    (hcreates : (∃ f, c = .fileInsert f) ∨ ∃ f contentId, c = .insertLink f contentId)
    (hcreated : creation ⟨c, r⟩) (hnone : ∀ j, ¬ CreatedIn (P j).log) {row : FileRow} (hstore : w'.store = w.store)
    (hcontents : w.contents ⊆ w'.contents) (hfiles : w'.files = w.files ++ [row])
    (horigin : ContentKnown svc pg uploadId w₀ w' →
      ContentKnown svc pg uploadId w₀ w₀ ∨ NameTaken svc pg uploadId w₀ w')
    (hnow : ContentKnown svc pg uploadId w₀ w' ∨ NameTaken svc pg uploadId w₀ w') :
    OneFileSafe svc pg uploadId w₀ w' (P.advance i c r (k r)) := by
  have hc := (hsafe.follows i).pre_call hp
  have hgone : Gone uploadId w → Gone uploadId w' := gone_completes P i hc hexec
  -- the new event is the creation, so that nothing else is learned
  have hold : ∀ {j : ι} {e : Event Call Call.Resp Exn}, e ∈ (P.advance i c r (k r) j).log →
      (∀ f, e.call ≠ .fileInsert f) → (∀ f contentId, e.call ≠ .insertLink f contentId) →
      e ∈ (P j).log := by
    intro j e hmem hinsert hlink
    rcases Pool.mem_log_advance.mp hmem with hold | ⟨-, rfl⟩
    · exact hold
    · rcases hcreates with ⟨f, rfl⟩ | ⟨f, contentId, rfl⟩
      · exact absurd rfl (hinsert f)
      · exact absurd rfl (hlink f contentId)
  refine
    { store := hstore.trans hsafe.store
      kept := kept_completes i hc hexec hsafe
      answers := ?_
      contents := List.Subset.trans hsafe.contents hcontents
      origin := horigin
      notFound := fun j hmem => hsafe.notFound j (hold hmem nofun nofun)
      found := ?_
      created := fun _ _ => hnow
      sources := ?_
      refused := Follows.advance hsafe.refused hp trivial
      files := ?_
      follows := Follows.advance hsafe.follows hp trivial }
  · intro j c' r' hc' hmem
    have hmem' := hold hmem (by rintro f rfl; exact hc') (by rintro f contentId rfl; exact hc')
    exact (hsafe.answers j c' r' hc' hmem').imp_right fun ⟨h, hf⟩ => ⟨hgone h, hf⟩
  · intro j c' hmem
    obtain ⟨d, hd, hhash⟩ := hsafe.found j c' (hold hmem nofun nofun)
    exact ⟨d, hcontents hd, hhash⟩
  · rintro j ⟨e, he, hcreates'⟩
    rcases Pool.mem_log_advance.mp he with hmem | ⟨rfl, -⟩
    · exact absurd ⟨e, hmem, hcreates'⟩ (hnone j)
    · have hfound : FoundIn uploadId (P j).log := by
        rcases hcreates with ⟨f, rfl⟩ | ⟨f, contentId, rfl⟩
        · exact hc.2.1
        · exact hc.2.1
      exact hfound.mono (log_subset_advance P j j c r (k r))
  · have hbefore : w.files = w₀.files := by
      rcases hsafe.files with ⟨hsame, -⟩ | ⟨j, _, -, hj, -⟩
      · exact hsame
      · exact absurd hj (hnone j)
    refine Or.inr ⟨i, row, by rw [hfiles, hbefore], ?_, fun j h => ?_⟩
    · rw [Pool.advance_self]
      exact ⟨_, List.mem_append_right _ (List.mem_singleton.mpr rfl), hcreated⟩
    · by_contra hne
      rw [Pool.advance_ne P hne] at h
      exact hnone j h

omit [DecidableEq ι] in
/-- Where no other request has the session, no other request has created a file from it. -/
theorem not_created_of_link {i : ι} (hsafe : OneFileSafe svc pg uploadId w₀ w P)
    (hself : ¬ CreatedIn (P i).log)
    (hothers : ∀ j, j ≠ i → FoundIn uploadId (P j).log → WasRefused (P j)) (j : ι) :
    ¬ CreatedIn (P j).log := by
  intro hj
  by_cases hji : j = i
  · exact hself (hji ▸ hj)
  · obtain ⟨resp, hdone, hrefused⟩ := hothers j hji (hsafe.sources j hj)
    exact ((hsafe.refused j).done hdone resp rfl hrefused).not_created hj

theorem oneFileSafe_step {i : ι} {c : Call} {k : Except Exn c.Resp → App Reply}
    {r : Except Exn c.Resp} (hsafe : OneFileSafe svc pg uploadId w₀ w P)
    (hp : (P i).prog = .call c k) (hexec : exec svc pg c w = (r, w'))
    (hcond : InTurn pg uploadId w₀ w P i c w') :
    OneFileSafe svc pg uploadId w₀ w' (P.advance i c r (k r)) := by
  have hc := (hsafe.follows i).pre_call hp
  cases c with
  | insertLink f contentId =>
      obtain ⟨hself, -, hplan⟩ := hc
      obtain ⟨hthere, hothers⟩ := hcond.link f contentId rfl
      rcases exec_insertLink_named hexec with ⟨e, rfl, rfl⟩ | ⟨row, hrow, -, rfl, rfl⟩
      · exact oneFileSafe_quiet hsafe hp hexec id rfl rfl rfl
      · -- the session is there, so the copy is whole and the content is that of the session
        obtain ⟨c, hfound⟩ := hplan (hsafe.whole fun _ _ _ hgone => absurd hgone hthere)
        have hknown := hsafe.found i c hfound
        refine oneFileSafe_create hsafe hp hexec (Or.inr ⟨f, contentId, rfl⟩)
          trivial
          (not_created_of_link hsafe hself hothers) rfl (List.Subset.refl _) rfl
          (fun _ => (hsafe.origin hknown).imp_right ?_) (Or.inl hknown)
        rintro ⟨row', hmem, hnamed⟩
        exact ⟨row', List.mem_append_left _ hmem, hnamed⟩
  | fileInsert f =>
      obtain ⟨hself, -, hplan⟩ := hc
      rcases exec_fileInsert_named hexec with ⟨e, rfl, rfl⟩ |
        ⟨row, contents, hrow, hfree, rfl, hsub, rfl⟩
      · exact oneFileSafe_quiet hsafe hp hexec id rfl rfl rfl
      have hread := (hcond.insert f rfl).resolve_right fun ⟨row', hmem, hnamed⟩ => by
        rw [hnamed.indexed hmem hrow] at hfree
        cases hfree
      obtain ⟨hname, howner, hfolder, hlookup⟩ :=
        hplan (hsafe.whole fun field r hmem _ => hread field r hmem)
      rw [hname, howner, hfolder] at hrow
      have hnotTaken : ¬ NameTaken svc pg uploadId w₀ w := by
        rintro ⟨row', hmem, hnamed⟩
        rw [hnamed.indexed hmem hrow] at hfree
        cases hfree
      have htaken : NameTaken svc pg uploadId w₀
          { w.skipUuids with contents, files := w.files ++ [row] } :=
        ⟨row, List.mem_append_right _ (List.mem_singleton.mpr rfl), hrow⟩
      -- a file that is there already has the name, or its content was known before the lookup
      have hnone : ∀ j, ¬ CreatedIn (P j).log := by
        intro j hj
        rcases hsafe.created j hj with hknown | htaken'
        · rcases hsafe.origin hknown with hknown₀ | htaken'
          · exact hsafe.notFound i hlookup hknown₀
          · exact hnotTaken htaken'
        · exact hnotTaken htaken'
      exact oneFileSafe_create hsafe hp hexec (Or.inl ⟨f, rfl⟩) trivial hnone rfl hsub rfl (fun _ => Or.inr htaken)
        (Or.inr htaken)
  | put data => cases hc
  | fileSoftDelete id => cases hc
  | purgeContent content => cases hc
  | _ =>
      obtain ⟨hstore, hcontents, hfiles⟩ := exec_data rfl hexec
      exact oneFileSafe_quiet hsafe hp hexec id hstore hcontents hfiles

omit [DecidableEq ι] in
theorem oneFileSafe_start {reqs : ι → HttpRequest}
    (hstart : ∀ i, (P i).log = [] ∧ (P i).prog = completeRequest svc (reqs i) ∧
      (reqs i).getPathParam (ascii "upload_id") = uploadId) :
    OneFileSafe svc pg uploadId w₀ w₀ P := by
  have hempty : ∀ i e, e ∉ (P i).log := by
    intro i e he
    rw [(hstart i).1] at he
    exact absurd he List.not_mem_nil
  exact
    { store := rfl
      kept := Or.inl rfl
      answers := fun i _ _ _ h => absurd h (hempty i _)
      contents := List.Subset.refl _
      origin := Or.inl
      notFound := fun i h => absurd h (hempty i _)
      found := fun i _ h => absurd h (hempty i _)
      created := fun i ⟨_, h, _⟩ => absurd h (hempty i _)
      sources := fun i ⟨_, h, _⟩ => absurd h (hempty i _)
      refused := fun i => by
        rw [Follows, (hstart i).1, (hstart i).2.1]
        exact heard_completeRequest _
      files := Or.inl ⟨rfl, fun i ⟨_, h, _⟩ => absurd h (hempty i _)⟩
      follows := fun i => by
        rw [Follows, (hstart i).1, (hstart i).2.1]
        exact completes_completeRequest (hstart i).2.2 }

/-- **A session yields one file** in a run of completions in which content is linked by one
request at a time and nothing is inserted from a session that was read across its `DEL`: at
most one file is new, and at most one request is answered 200. -/
theorem one_file {reqs : ι → HttpRequest} {P₀ : Pool ι Call Call.Resp Exn Reply}
    (hstart : ∀ i, (P₀ i).log = [] ∧ (P₀ i).prog = completeRequest svc (reqs i) ∧
      (reqs i).getPathParam (ascii "upload_id") = uploadId)
    (hrun : Pool.Run (exec svc pg) (InTurn pg uploadId w₀) w₀ P₀ w P) :
    (w.files = w₀.files ∨ ∃ row, w.files = w₀.files ++ [row]) ∧
      ∀ i j resp resp', (P i).prog = .ret (.answered resp) → resp.statusCode = 200 →
        (P j).prog = .ret (.answered resp') → resp'.statusCode = 200 → i = j := by
  have hsafe : OneFileSafe svc pg uploadId w₀ w P :=
    hrun.invariant (OneFileSafe svc pg uploadId w₀) (oneFileSafe_start hstart)
      fun hinv hcall hexec hcond => oneFileSafe_step hinv hcall hexec hcond
  have hcreated : ∀ i resp, (P i).prog = .ret (.answered resp) → resp.statusCode = 200 →
      CreatedIn (P i).log := fun i resp hdone hok => (hsafe.follows i).done hdone resp rfl hok
  rcases hsafe.files with ⟨hsame, hnone⟩ | ⟨l, row, hrow, -, honly⟩
  · exact ⟨Or.inl hsame, fun i _ resp _ hi hok _ _ => absurd (hcreated i resp hi hok) (hnone i)⟩
  · refine ⟨Or.inr ⟨row, hrow⟩, fun i j resp resp' hi hok hj hok' => ?_⟩
    rw [honly i (hcreated i resp hi hok), honly j (hcreated j resp' hj hok')]

end Run

/-! ### Two completions -/

/-- The session of two parts, with both of them there. -/
def readySession : World :=
  let hashes := [sampleServices.sha256 (ascii "x"), sampleServices.sha256 (ascii "y")]
  { oneFile with
    store := fun h =>
      if h = sampleServices.sha256 (ascii "y") then some (ascii "y") else oneFile.store h
    redis := fun key =>
      if key = sessionKey (ascii "s") then
        some (.hash fun f => (sessionFields twoParts
          ((sampleServices.json.dump (hashArray hashes)).toOption.getD [])
          (ascii "[true,true]")).lookup f)
      else none }

def twoCompletions : Pool (Fin 2) Call Call.Resp Exn Reply := fun i =>
  { log := []
    prog := completeRequest sampleServices (partBody i.castSucc) }

def answered (p : Worker) : Bool :=
  match p.prog with
  | .ret (.answered _) => true
  | _ => false

theorem answered_sound {p : Worker} (h : answered p = true) :
    ∃ resp, p.prog = .ret (.answered resp) := by
  unfold answered at h
  split at h
  · rename_i resp hp
    exact ⟨resp, hp⟩
  · cases h

/-- The same session, of a content that another file has. -/
def knownSession : World :=
  { readySession with
    contents := readySession.contents ++
      [{ id := sampleId 5, hash := sampleServices.sha256 (ascii "xy"), size := 2
         chunkHashes := hashArray [sampleServices.sha256 (ascii "x"), sampleServices.sha256 (ascii "y")]
         mimeType := ascii "text/plain" }]
    files := readySession.files ++
      [{ id := sampleId 6, name := ascii "copy.txt", ownerId := aliceId, folderId := none
         contentId := sampleId 5, createdAt := 0, deletedAt := none }] }

/-- Content is linked while the other request has made no call, and what is inserted was read
before any `DEL`. -/
def takesTurns (w₀ : World) (w : World) (P : Pool (Fin 2) Call Call.Resp Exn Reply) (j : Fin 2)
    (c : Call) : Bool :=
  match c with
  | .insertLink _ _ => (hget w (sessionKey (ascii "s")) (ascii "file_name")).isSome &&
      (List.finRange 2).all fun i => i == j || (P i).log.isEmpty
  | .fileInsert _ => (P j).log.all fun
      | ⟨.hget key field, .ok t⟩ => t == hget w₀ key field
      | ⟨.hget _ _, .error _⟩ => false
      | _ => true
  | _ => true

theorem inTurn_of_takesTurns {w₀ w w' : World} {P : Pool (Fin 2) Call Call.Resp Exn Reply}
    {j : Fin 2} {c : Call} (h : takesTurns w₀ w P j c = true) :
    InTurn samplePostgres (ascii "s") w₀ w P j c w' := by
  refine ⟨?_, ?_⟩
  · rintro f contentId rfl
    obtain ⟨hthere, hothers⟩ := Bool.and_eq_true_iff.mp h
    refine ⟨fun hgone => ?_, fun i hij ⟨t, hread⟩ => ?_⟩
    · rw [hgone] at hthere
      cases hthere
    · rcases Bool.or_eq_true_iff.mp (List.all_eq_true.mp hothers i (List.mem_finRange i)) with
        hsame | hempty
      · exact absurd (beq_iff_eq.mp hsame) hij
      · rw [ReadIn, List.isEmpty_iff.mp hempty] at hread
        cases hread
  · rintro f rfl
    refine Or.inl fun field r hmem => ?_
    have hread := List.all_eq_true.mp h _ hmem
    cases r with
    | error e => cases hread
    | ok t => exact congrArg Except.ok (beq_iff_eq.mp hread)

theorem twoCompletions_start (i : Fin 2) : (twoCompletions i).log = [] ∧ (twoCompletions i).prog =
    completeRequest sampleServices (partBody i.castSucc) ∧
    (partBody i.castSucc).getPathParam (ascii "upload_id") = ascii "s" := ⟨rfl, rfl, rfl⟩

/-- Two completions that both load the session and look for its content: one of them inserts
it. And a completion of known content, which is linked before the other begins. -/
theorem completed_once :
    (∃ w P, Pool.Run (exec sampleServices samplePostgres)
        (InTurn samplePostgres (ascii "s") readySession) readySession twoCompletions w P ∧
      answeredOk (P 0) = true ∧ (∃ resp, (P 1).prog = .ret (.answered resp)) ∧
      (w.files = readySession.files ∨ ∃ row, w.files = readySession.files ++ [row])) ∧
    ∃ w P, Pool.Run (exec sampleServices samplePostgres)
        (InTurn samplePostgres (ascii "s") knownSession) knownSession twoCompletions w P ∧
      answeredOk (P 0) = true ∧ (∃ resp, (P 1).prog = .ret (.answered resp)) ∧
      (w.files = knownSession.files ∨ ∃ row, w.files = knownSession.files ++ [row]) := by
  have hinserted : ((Pool.runSchedule (exec sampleServices samplePostgres) (takesTurns readySession)
      (List.replicate 14 1 ++ List.replicate 19 0 ++ [1]) readySession twoCompletions).any fun p =>
        answeredOk (p.2 0) && answered (p.2 1)) = true := by
    decide +kernel
  have hlinked : ((Pool.runSchedule (exec sampleServices samplePostgres) (takesTurns knownSession)
      (List.replicate 19 0 ++ [1]) knownSession twoCompletions).any fun p =>
        answeredOk (p.2 0) && answered (p.2 1)) = true := by
    decide +kernel
  obtain ⟨⟨w, P⟩, hsched, hok⟩ := (Option.any_eq_true _ _).mp hinserted
  obtain ⟨⟨w', P'⟩, hsched', hok'⟩ := (Option.any_eq_true _ _).mp hlinked
  rw [Bool.and_eq_true] at hok hok'
  have hr := Pool.run_of_schedule (fun w P i c w' => @inTurn_of_takesTurns _ w w' P i c) hsched
  have hr' := Pool.run_of_schedule (fun w P i c w' => @inTurn_of_takesTurns _ w w' P i c) hsched'
  exact ⟨⟨w, P, hr, hok.1, answered_sound hok.2, (one_file twoCompletions_start hr).1⟩,
    w', P', hr', hok'.1, answered_sound hok'.2, (one_file twoCompletions_start hr').1⟩

/-- Both load the session; one inserts its file, and the other finds the content and links it. -/
theorem completed_twice : ∃ w P,
    Pool.Run (exec sampleServices samplePostgres) (fun _ _ _ _ _ => True) readySession
      twoCompletions w P ∧
    (∃ resp, (P 0).prog = .ret (.answered resp) ∧ resp.statusCode = 200) ∧
    (∃ resp, (P 1).prog = .ret (.answered resp) ∧ resp.statusCode = 200) ∧
    w.files.length = readySession.files.length + 2 := by
  have hrun : ((Pool.runSchedule (exec sampleServices samplePostgres) (fun _ _ _ _ => true)
      (List.replicate 13 1 ++ List.replicate 19 0 ++ List.replicate 7 1) readySession
        twoCompletions).any fun p => answeredOk (p.2 0) && answeredOk (p.2 1) &&
          p.1.files.length == readySession.files.length + 2) = true := by
    decide +kernel
  obtain ⟨⟨w, P⟩, hsched, hp⟩ := (Option.any_eq_true _ _).mp hrun
  rw [Bool.and_eq_true, Bool.and_eq_true, beq_iff_eq] at hp
  obtain ⟨⟨hfirst, hsecond⟩, hfiles⟩ := hp
  exact ⟨w, P, Pool.run_of_schedule (fun _ _ _ _ _ _ => trivial) hsched,
    answeredOk_sound hfirst, answeredOk_sound hsecond, hfiles⟩

end SolarDrive.Runs
