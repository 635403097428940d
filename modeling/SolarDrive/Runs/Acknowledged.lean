import SolarDrive.Metadata.RedisLoss
import SolarDrive.Runs.UploadParts

/-!
# Acknowledged and recorded

`save_to_redis` ignores what its ten commands return, so `handle_init` and
`handle_upload_part` answer 200 whatever becomes of them.

`acknowledged_iff` says when Redis then holds what was acknowledged, for any
fates of the commands: every field of the session has been written, or reads as
intended without that.
-/

namespace SolarDrive.Runs

open Lib Http Api Metadata Prog

variable {svc : Services} {pg : Postgres} {s s' : Lossy}

/-! ## Answers of a run -/

section Answers

variable {σ : Type} {exec : (c : Call) → σ → Except Exn c.Resp × σ} {t t' : σ} {resp : HttpResponse}

theorem run_setError {code : Int} {msg : Bytes}
    (h : (svc.setError code msg).run exec t = (.ok resp, t')) : resp.statusCode = code := by
  have hwp : (svc.setError code msg).wp (ofExec exec)
      (fun r _ => ∀ resp, r = .ok resp → resp.statusCode = code) t := by
    refine wp_setError svc code msg (fun resp hresp => ?_) fun e => nofun
    rintro _ ⟨⟩
    exact hresp
  rw [wp_ofExec, h] at hwp
  exact hwp resp rfl

theorem run_setJson {j : Json} (h : (svc.setJson j).run exec t = (.ok resp, t')) :
    ∃ text, svc.json.dump j = .ok text ∧ resp = HttpResponse.setJson {} text ∧ t' = t := by
  obtain ⟨text, t₁, hdump, hret⟩ := run_bind_ok.mp h
  cases hd : svc.json.dump j with
  | error e => rw [hd] at hdump; cases hdump
  | ok text' =>
      rw [hd] at hdump
      cases hdump
      cases hret
      exact ⟨text, rfl, rfl, rfl⟩

/-- The answers of the `catch` clauses are no 200. -/
theorem run_catchJson {what : Bytes} {e : Exn}
    (h : (svc.catchJson what e).run exec t = (.ok resp, t')) : resp.statusCode ≠ 200 := by
  unfold Services.catchJson at h
  split at h <;> rw [run_setError h] <;> decide

theorem run_resolveFolderId {folderId userId : Bytes} {found : Answered Bytes}
    (h : (resolveFolderId svc folderId userId).run exec t = (.ok found, t')) :
    match found with
    | .ok id => id = folderId
    | .error resp => resp.statusCode ≠ 200 := by
  have hmissing : ∀ {t₁ : σ}, (do
        let resp ← svc.setError 404 (ascii "folder not found")
        return .error resp : App (Answered Bytes)).run exec t₁ = (.ok found, t') →
      match found with
      | .ok id => id = folderId
      | .error resp => resp.statusCode ≠ 200 := by
    intro t₁ hrun
    obtain ⟨resp, t₂, herr, hret⟩ := run_bind_ok.mp hrun
    cases hret
    show resp.statusCode ≠ 200
    rw [run_setError herr]
    decide
  unfold resolveFolderId at h
  split at h
  · cases h
    exact Eq.symm ‹_›
  · obtain ⟨folder, t₁, -, hrest⟩ := run_bind_ok.mp h
    cases folder with
    | none => exact hmissing hrest
    | some f =>
        dsimp only at hrest
        split at hrest
        · exact hmissing hrest
        · cases hrest
          rfl

end Answers

theorem run_requireSession {req : HttpRequest} {uploadId : Bytes} {found : Answered MultipartSession}
    (h : (requireSession svc req uploadId).run (execLossy svc pg) s = (.ok found, s')) :
    match found with
    | .ok session => (loadFromRedis svc uploadId).run (execLossy svc pg) s = (.ok session, s') ∧
        session.uploadId ≠ []
    | .error resp => resp.statusCode ≠ 200 := by
  have hrefused : ∀ {code : Int} {msg : Bytes} {s₁ : Lossy}, code ≠ 200 → (do
        let resp ← svc.setError code msg
        return .error resp : App (Answered MultipartSession)).run (execLossy svc pg) s₁ =
          (.ok found, s') → ∃ resp, found = .error resp ∧ resp.statusCode ≠ 200 := by
    intro code msg s₁ hcode hrun
    obtain ⟨resp, s₂, herr, hret⟩ := run_bind_ok.mp hrun
    cases hret
    exact ⟨resp, rfl, by rwa [run_setError herr]⟩
  obtain ⟨session, s₁, hload, hrest⟩ := run_bind_ok.mp h
  split at hrest
  · obtain ⟨resp, rfl, hresp⟩ := hrefused (by decide) hrest
    exact hresp
  · rename_i hid
    split at hrest
    · obtain ⟨resp, rfl, hresp⟩ := hrefused (by decide) hrest
      exact hresp
    · cases hrest
      exact ⟨hload, hid⟩

/-- A part of a handler that does not ask Redis anything. -/
theorem run_others {α : Type} {p : App α} {r : Except Exn α}
    (hp : p.CallsOnly fun c => isRedis c = false) (h : p.run (execLossy svc pg) s = (r, s')) :
    s'.world.redis = s.world.redis ∧ s'.fates = s.fates := by
  have hwp := wp_ofExec.mp (@lossy_others svc pg s α p hp)
  rw [h] at hwp
  exact hwp

/-! ## What becomes of a field -/

/-- A field that is written can be read back, and one that is not reads as intended already. -/
def FieldKept (s : Lossy) (n : Nat) (key : Bytes) (field : String) (fits : Prop)
    (reads : Option Bytes → Prop) : Prop :=
  (s.Writes n key → fits) ∧ (¬ s.Writes n key → reads (hget s.world key (ascii field)))

theorem fieldKept_iff {key : Bytes} {fields : List (Bytes × Bytes)} {w' : World}
    (hsaves : Saves key fields s w') {n : Nat} {field : String} {value : Bytes} {fits : Prop}
    (reads : Option Bytes → Prop) (hn : fields[n]? = some (ascii field, value))
    (hfits : reads (some (cstr value)) ↔ fits) :
    reads (hget w' key (ascii field)) ↔ FieldKept s n key field fits reads := by
  by_cases hwrites : s.Writes n key
  · rw [hsaves.written n _ hn hwrites, hfits]
    exact ⟨fun h => ⟨fun _ => h, fun hnot => absurd hwrites hnot⟩, fun h => h.1 hwrites⟩
  · have hsame : hget w' key (ascii field) = hget s.world key (ascii field) :=
      hsaves.kept n _ hn hwrites
    rw [hsame]
    exact ⟨fun h => ⟨fun h' => absurd h' hwrites, fun _ => h⟩, fun h => h.2 hwrites⟩

/-- A text is read back if it has no NUL. -/
theorem readsText_written {missing : Option Bytes} {value : Bytes} :
    readsText missing value (some (cstr value)) ↔ NUL ∉ value := by
  rw [readsText, Option.some_or, Option.some.injEq]
  constructor
  · intro h
    rw [← h]
    exact not_mem_cstr value
  · exact cstr_of_not_mem

/-- A number is read back if it is in range. -/
theorem readsNumber_written {bits : Nat} {missing value : Int} :
    readsNumber (stoSigned bits) missing value (some (cstr (decimalInt value))) ↔
      -(2 ^ (bits - 1) : Int) ≤ value ∧ value < 2 ^ (bits - 1) := by
  rw [cstr_of_not_mem (nul_not_mem_decimalInt value)]
  exact ⟨stoSigned_lt, fun h => stoSigned_decimalInt h.1 h.2⟩

/-- An array is read back. -/
theorem readsArray_written (hjson : svc.json.Lawful) {α : Type} {enc : List α → Json}
    {elem : Json → Except Bytes α} (hflat : ∀ xs, (enc xs).isFlat = true)
    (helem : ∀ xs, (enc xs).getArray elem = .ok xs) {xs ys : List α} {t : Bytes}
    (hdump : svc.json.dump (enc xs) = .ok t) :
    readsArray svc elem ys (some (cstr t)) ↔ ys = xs := by
  obtain ⟨hnul, hparse⟩ := hjson.parse_dump (hflat xs) hdump
  rw [cstr_of_not_mem hnul, readsArray, if_neg (hjson.dump_ne_nil (hflat xs) hdump), hparse]
  constructor
  · rintro ⟨_, ⟨⟩, hys⟩
    rw [helem xs] at hys
    exact (Except.ok.inj hys).symm
  · rintro rfl
    exact ⟨_, rfl, helem ys⟩

/-! ## Starting a session -/

/-- The session `handle_init` starts. -/
def newSession (svc : Services) (init : InitBody) (userId uploadId : Bytes) : MultipartSession :=
  let chunkCount := partCount init.totalSize svc.chunkSize
  { uploadId, userId, folderId := init.folderId, fileName := init.fileName
    mimeType := init.mimeType, totalSize := init.totalSize, chunkSize := svc.chunkSize, chunkCount
    uploaded := List.replicate chunkCount.toNat false
    partHashes := List.replicate chunkCount.toNat [] }

/-- The nine `HSET`s of a new session: one that is not carried out does no harm where the
field reads as intended without it, which for a new id is what its default is. -/
structure InitRecorded (svc : Services) (s : Lossy) (session : MultipartSession) : Prop where
  hasRedis : svc.hasRedis = true
  fileName : FieldKept s 0 (sessionKey session.uploadId) "file_name" (NUL ∉ session.fileName)
    (readsText none session.fileName)
  mimeType : FieldKept s 1 (sessionKey session.uploadId) "mime_type" (NUL ∉ session.mimeType)
    (readsText (some (ascii "application/octet-stream")) session.mimeType)
  userId : FieldKept s 2 (sessionKey session.uploadId) "user_id" (NUL ∉ session.userId)
    (readsText (some []) session.userId)
  folderId : FieldKept s 3 (sessionKey session.uploadId) "folder_id" (NUL ∉ session.folderId)
    (readsText (some []) session.folderId)
  totalSize : FieldKept s 4 (sessionKey session.uploadId) "total_size"
    (session.totalSize < 2 ^ 63) (readsNumber stoll 0 session.totalSize)
  chunkSize : FieldKept s 5 (sessionKey session.uploadId) "chunk_size" True
    (readsNumber stoll svc.chunkSize session.chunkSize)
  chunkCount : FieldKept s 6 (sessionKey session.uploadId) "chunk_count" True
    (readsNumber stoi 0 session.chunkCount)
  partHashes : FieldKept s 7 (sessionKey session.uploadId) "part_hashes" True
    (readsArray svc Json.getString session.partHashes)
  uploaded : FieldKept s 8 (sessionKey session.uploadId) "uploaded" True
    (readsArray svc Json.getBool session.uploaded)

theorem seen_iff_recorded (hjson : svc.json.Lawful) {init : InitBody} {userId uploadId : Bytes}
    {w' : World} {t t' : Bytes} (hredis : svc.hasRedis = true) (hpos : 0 < init.totalSize)
    (ht : svc.json.dump (hashArray (newSession svc init userId uploadId).partHashes) = .ok t)
    (ht' : svc.json.dump (flagArray (newSession svc init userId uploadId).uploaded) = .ok t')
    (hsaves : Saves (sessionKey uploadId)
      (sessionFields (newSession svc init userId uploadId) t t') s w') :
    Seen svc (.calm w') (newSession svc init userId uploadId) ↔
      InitRecorded svc s (newSession svc init userId uploadId) := by
  obtain ⟨hlow, hhigh⟩ := partCount_range init.totalSize svc.chunkSize
  have hchunk := svc.chunkSize_lt
  have htotal : readsNumber stoll 0 init.totalSize (some (cstr (decimalInt init.totalSize))) ↔
      init.totalSize < 2 ^ 63 :=
    readsNumber_written.trans ⟨And.right, fun h => ⟨by omega, h⟩⟩
  have hsize : readsNumber stoll svc.chunkSize svc.chunkSize
      (some (cstr (decimalInt svc.chunkSize))) ↔ True :=
    readsNumber_written.trans (iff_true_intro ⟨by omega, by omega⟩)
  have hcount : readsNumber stoi 0 (partCount init.totalSize svc.chunkSize)
      (some (cstr (decimalInt (partCount init.totalSize svc.chunkSize)))) ↔ True :=
    readsNumber_written.trans (iff_true_intro ⟨hlow, hhigh⟩)
  have hhashes := (readsArray_written hjson isFlat_hashArray getArray_hashArray ht).trans
    (iff_true_intro rfl)
  have hflags := (readsArray_written hjson isFlat_flagArray getArray_flagArray ht').trans
    (iff_true_intro rfl)
  constructor
  · intro h
    exact
      { hasRedis := hredis
        fileName := (fieldKept_iff hsaves _ rfl readsText_written).mp h.fileName
        mimeType := (fieldKept_iff hsaves _ rfl readsText_written).mp h.mimeType
        userId := (fieldKept_iff hsaves _ rfl readsText_written).mp h.userId
        folderId := (fieldKept_iff hsaves _ rfl readsText_written).mp h.folderId
        totalSize := (fieldKept_iff hsaves _ rfl htotal).mp h.totalSize
        chunkSize := (fieldKept_iff hsaves _ rfl hsize).mp h.chunkSize
        chunkCount := (fieldKept_iff hsaves _ rfl hcount).mp h.chunkCount
        partHashes := (fieldKept_iff hsaves _ rfl hhashes).mp h.partHashes
        uploaded := (fieldKept_iff hsaves _ rfl hflags).mp h.uploaded }
  · intro h
    exact
      { fileName := (fieldKept_iff hsaves _ rfl readsText_written).mpr h.fileName
        mimeType := (fieldKept_iff hsaves _ rfl readsText_written).mpr h.mimeType
        userId := (fieldKept_iff hsaves _ rfl readsText_written).mpr h.userId
        folderId := (fieldKept_iff hsaves _ rfl readsText_written).mpr h.folderId
        totalSize := (fieldKept_iff hsaves _ rfl htotal).mpr h.totalSize
        chunkSize := (fieldKept_iff hsaves _ rfl hsize).mpr h.chunkSize
        chunkCount := (fieldKept_iff hsaves _ rfl hcount).mpr h.chunkCount
        partHashes := (fieldKept_iff hsaves _ rfl hhashes).mpr h.partHashes
        uploaded := (fieldKept_iff hsaves _ rfl hflags).mpr h.uploaded }

theorem run_generateUuid {exec : (c : Call) → Lossy → Except Exn c.Resp × Lossy} {id : Bytes}
    (h : generateUuid.run exec s = (.ok id, s')) : id ≠ [] := by
  unfold generateUuid at h
  simp only [run_bind_ok] at h
  obtain ⟨a, _, -, b, _, -, c, _, -, d, _, -, hret⟩ := h
  cases hret
  exact List.append_ne_nil_of_right_ne_nil _ (List.cons_ne_nil _ _)

/-- The 200 of `handle_init`, and the save it does not look at. -/
theorem run_handleInit {req : HttpRequest} {resp : HttpResponse}
    (h : (handleInit svc req).run (execLossy svc pg) s = (.ok resp, s')) (hok : resp.statusCode = 200) :
    ∃ body init uploadId text s₁ s₂ u, svc.json.parse req.body = .ok body ∧
      readInitBody body = .ok init ∧ 0 < init.totalSize ∧ uploadId ≠ [] ∧
      s₁.world.redis = s.world.redis ∧ s₁.fates = s.fates ∧
      (saveToRedis svc (newSession svc init req.authUserId uploadId)).run (execLossy svc pg) s₁ =
        (.ok u, s₂) ∧ s₂ = s' ∧
      svc.json.dump (object [("chunk_count", .int (partCount init.totalSize svc.chunkSize)),
        ("chunk_size", .int svc.chunkSize), ("upload_id", .str uploadId)]) = .ok text ∧
      resp = HttpResponse.setJson {} text := by
  have hrefused : ∀ {code : Int} {msg : Bytes} {s₁ : Lossy}, code ≠ 200 →
      (svc.setError code msg).run (execLossy svc pg) s₁ ≠ (.ok resp, s') := by
    intro code msg s₁ hcode hrun
    exact hcode ((run_setError hrun).symm.trans hok)
  rcases run_tryCatch_ok.mp h with hauth | ⟨e, s₁, -, hcatch⟩
  swap
  · exact absurd hok (run_catchJson hcatch)
  split at hauth
  · exact absurd hauth (hrefused (by decide))
  obtain ⟨body, _, hask, hbody⟩ := run_bind_ok.mp hauth
  obtain ⟨hparse, rfl⟩ := run_jsonParse.mp hask
  obtain ⟨init, s₁, hinit, hsizes⟩ := run_bind_ok.mp hbody
  cases hread : readInitBody body with
  | error e => rw [hread] at hinit; cases hinit
  | ok init' =>
      rw [hread] at hinit
      cases hinit
      split at hsizes
      · exact absurd hsizes (hrefused (by decide))
      rename_i hpos
      split at hsizes
      · exact absurd hsizes (hrefused (by decide))
      obtain ⟨found, s₂, hfolder, hanswer⟩ := run_bind_ok.mp hsizes
      have hfound := run_resolveFolderId hfolder
      cases found with
      | error resp' =>
          cases hanswer
          exact absurd hok hfound
      | ok folderId =>
          obtain rfl : folderId = init.folderId := hfound
          obtain ⟨session, s₃, hstart, hsaving⟩ := run_bind_ok.mp hanswer
          obtain ⟨u, s₄, hsave, hend⟩ := run_bind_ok.mp hsaving
          obtain ⟨uploadId, s₅, hid, hcount⟩ := run_bind_ok.mp hstart
          dsimp only at hcount
          split at hcount
          · cases hcount
          cases hcount
          obtain ⟨text, hdump, hresp, hs⟩ := run_setJson hend
          -- before the save no call goes to Redis
          have hothers : (resolveFolderId svc init.folderId req.authUserId).CallsOnly
              fun c => isRedis c = false :=
            callsOnly_resolveFolderId svc (fun _ => rfl) _ _
          have huuid : generateUuid.CallsOnly fun c => isRedis c = false :=
            callsOnly_bind (callsOnly_request rfl) fun _ =>
              callsOnly_bind (callsOnly_request rfl) fun _ =>
              callsOnly_bind (callsOnly_request rfl) fun _ =>
              callsOnly_bind (callsOnly_request rfl) fun _ => callsOnly_pure _
          have hafter := run_others hothers hfolder
          have hafter' := run_others huuid hid
          exact ⟨body, init, uploadId, text, s₃, s₄, u, hparse, hread, by omega, run_generateUuid hid,
            hafter'.1.trans hafter.1, hafter'.2.trans hafter.2, hsave, hs.symm, hdump, hresp⟩

/-! ## Recording a part -/

/-- The arrays with the part are written from whole copies, or Redis has the part already;
and the session can be loaded: the numbers that are not written again can be read. Nine
replies are read before the first `HSET`. -/
structure PartRecorded (svc : Services) (s : Lossy) (uploadId : Bytes) (part : Nat) (hash : Bytes) :
    Prop where
  totalSize : FieldKept s 13 (sessionKey uploadId) "total_size" True
    fun text => ∃ v, readsNumber stoll 0 v text
  chunkSize : FieldKept s 14 (sessionKey uploadId) "chunk_size" True
    fun text => ∃ v, readsNumber stoll svc.chunkSize v text
  partHashes : FieldKept s 16 (sessionKey uploadId) "part_hashes"
    (∃ hs, readsArray svc Json.getString hs (s.sees 7 (sessionKey uploadId) "part_hashes") ∧
      part < hs.length)
    fun text => ∃ hs, readsArray svc Json.getString hs text ∧ hs.getD part [] = hash
  uploaded : FieldKept s 17 (sessionKey uploadId) "uploaded"
    (∃ fs, readsArray svc Json.getBool fs (s.sees 8 (sessionKey uploadId) "uploaded") ∧
      part < fs.length)
    fun text => ∃ fs, readsArray svc Json.getBool fs text ∧ fs.getD part false = true

/-- What a load finds of a part. -/
def PartHeld (svc : Services) (pg : Postgres) (w : World) (uploadId : Bytes) (part : Nat)
    (hash : Bytes) : Prop :=
  ∃ session, ((loadFromRedis svc uploadId).run (exec svc pg) w).1 = .ok session ∧
    session.uploadId = uploadId ∧ session.uploaded.getD part false = true ∧
    session.partHashes.getD part [] = hash

theorem readsArray_unique {α : Type} {elem : Json → Except Bytes α} {xs ys : List α}
    {text : Option Bytes} (hx : readsArray svc elem xs text) (hy : readsArray svc elem ys text) :
    xs = ys := by
  cases text with
  | none => exact Eq.trans hx (Eq.symm hy)
  | some t =>
      unfold readsArray at hx hy
      dsimp only at hx hy
      split at hx
      · rw [if_pos ‹_›] at hy
        exact hx.trans hy.symm
      · rw [if_neg ‹_›] at hy
        obtain ⟨j, hj, hxs⟩ := hx
        obtain ⟨j', hj', hys⟩ := hy
        rw [hj] at hj'
        cases hj'
        rw [hxs] at hys
        exact Except.ok.inj hys

/-- An array that a request has changed and written, or that Redis has as it was. -/
theorem readsArray_kept_iff (hjson : svc.json.Lawful) {α : Type} {enc : List α → Json}
    {elem : Json → Except Bytes α} (hflat : ∀ xs, (enc xs).isFlat = true)
    (helem : ∀ xs, (enc xs).getArray elem = .ok xs) {key : Bytes} {fields : List (Bytes × Bytes)}
    {w' : World} (hsaves : Saves key fields s w') {n part : Nat} {field : String} {t : Bytes}
    {xs : List α} {x default : α} {seen : Option Bytes} (hne : x ≠ default)
    (hn : fields[n]? = some (ascii field, t)) (hdump : svc.json.dump (enc (xs.set part x)) = .ok t)
    (hseen : readsArray svc elem xs seen) :
    (∃ ys, readsArray svc elem ys (hget w' key (ascii field)) ∧ ys.getD part default = x) ↔
      FieldKept s n key field (∃ ys, readsArray svc elem ys seen ∧ part < ys.length)
        fun text => ∃ ys, readsArray svc elem ys text ∧ ys.getD part default = x := by
  refine fieldKept_iff hsaves (fun text => ∃ ys, readsArray svc elem ys text ∧
    ys.getD part default = x) hn ?_
  constructor
  · rintro ⟨ys, hreads, hget⟩
    obtain rfl := (readsArray_written hjson hflat helem hdump).mp hreads
    refine ⟨xs, hseen, ?_⟩
    by_contra hlt
    rw [List.set_eq_of_length_le (Nat.le_of_not_lt hlt), List.getD_eq_getElem?_getD,
      List.getElem?_eq_none (Nat.le_of_not_lt hlt)] at hget
    exact hne hget.symm
  · rintro ⟨ys, hys, hlt⟩
    obtain rfl := readsArray_unique hys hseen
    exact ⟨_, (readsArray_written hjson hflat helem hdump).mpr rfl, getD_set_self hlt x default⟩

/-- The numbers of a session as a request has read them can be written and read again. -/
theorem number_range {bits : Nat} {missing value : Int} {text : Option Bytes}
    (hmissing : -(2 ^ (bits - 1) : Int) ≤ missing ∧ missing < 2 ^ (bits - 1))
    (h : readsNumber (stoSigned bits) missing value text) :
    -(2 ^ (bits - 1) : Int) ≤ value ∧ value < 2 ^ (bits - 1) := by
  cases text with
  | none =>
      cases h
      exact hmissing
  | some t => exact stoSigned_lt h

theorem hget_of_sees {n : Nat} {key t : Bytes} {field : String} (h : s.sees n key field = some t) :
    hget s.world key (ascii field) = some t := by
  unfold Lossy.sees at h
  split at h
  · exact h
  · cases h

/-- The session a part was recorded in, as Redis holds it afterwards. -/
theorem partHeld_iff_recorded (hjson : svc.json.Lawful) {uploadId hash t t' : Bytes} {part : Nat}
    {session : MultipartSession} {w' : World} (hid : uploadId ≠ []) (hhash : hash ≠ [])
    (hsession : session.uploadId = uploadId) (hredis : svc.hasRedis = true)
    (hseen : Seen svc s session) (hpart : (part : Int) < session.chunkCount)
    (ht : svc.json.dump (hashArray (session.partHashes.set part hash)) = .ok t)
    (ht' : svc.json.dump (flagArray (session.uploaded.set part true)) = .ok t')
    (hsaves : Saves (sessionKey uploadId) (sessionFields { session with
        uploaded := session.uploaded.set part true
        partHashes := session.partHashes.set part hash } t t') (s.skip 9) w') :
    PartHeld svc pg w' uploadId part hash ↔ PartRecorded svc s uploadId part hash := by
  subst hsession
  have hchunk := svc.chunkSize_lt
  obtain ⟨htlow, hthigh⟩ := number_range (by decide) hseen.totalSize
  obtain ⟨hslow, hshigh⟩ := number_range ⟨by omega, by omega⟩ hseen.chunkSize
  obtain ⟨hclow, hchigh⟩ := number_range (by decide) hseen.chunkCount
  have htotal : (∃ v, readsNumber stoll 0 v (hget w' (sessionKey session.uploadId)
      (ascii "total_size"))) ↔ FieldKept s 13 (sessionKey session.uploadId) "total_size" True
        fun text => ∃ v, readsNumber stoll 0 v text :=
    fieldKept_iff hsaves (fun text => ∃ v, readsNumber stoll 0 v text) (n := 4) rfl
      (iff_true_intro ⟨_, readsNumber_written.mpr ⟨htlow, hthigh⟩⟩)
  have hsize : (∃ v, readsNumber stoll svc.chunkSize v (hget w' (sessionKey session.uploadId)
      (ascii "chunk_size"))) ↔ FieldKept s 14 (sessionKey session.uploadId) "chunk_size" True
        fun text => ∃ v, readsNumber stoll svc.chunkSize v text :=
    fieldKept_iff hsaves (fun text => ∃ v, readsNumber stoll svc.chunkSize v text) (n := 5) rfl
      (iff_true_intro ⟨_, readsNumber_written.mpr ⟨hslow, hshigh⟩⟩)
  have hhashes := readsArray_kept_iff hjson isFlat_hashArray getArray_hashArray hsaves (n := 7)
    hhash rfl ht hseen.partHashes
  have hflags := readsArray_kept_iff hjson isFlat_flagArray getArray_flagArray hsaves (n := 8)
    (show true ≠ false by decide) rfl ht' hseen.uploaded
  -- the number of parts and the name were read, so they are there in any case
  have hcount : ∃ v, readsNumber stoi 0 v (hget w' (sessionKey session.uploadId)
      (ascii "chunk_count")) := by
    refine (fieldKept_iff hsaves (fun text => ∃ v, readsNumber stoi 0 v text) (n := 6) rfl
      (iff_true_intro ⟨_, readsNumber_written.mpr ⟨hclow, hchigh⟩⟩)).mpr ⟨fun _ => trivial, fun _ => ?_⟩
    cases htext : s.sees 6 (sessionKey session.uploadId) "chunk_count" with
    | none =>
        have hzero := hseen.chunkCount
        rw [htext] at hzero
        have : 0 = session.chunkCount := hzero
        omega
    | some text =>
        have hread := hseen.chunkCount
        rw [htext] at hread
        rw [Lossy.skip_world, hget_of_sees htext]
        exact ⟨_, hread⟩
  have hname : ∃ name, hget w' (sessionKey session.uploadId) (ascii "file_name") = some name := by
    refine (fieldKept_iff hsaves (fun text => ∃ name, text = some name) (n := 0) rfl
      (iff_true_intro ⟨_, rfl⟩)).mpr ⟨fun _ => trivial, fun _ => ⟨session.fileName, ?_⟩⟩
    have hread := hseen.fileName
    rw [readsText, Option.or_none] at hread
    rw [Lossy.skip_world]
    exact hget_of_sees hread
  constructor
  · rintro ⟨session', hload, hid', hflag, hhash'⟩
    obtain ⟨-, hseen'⟩ := (loaded_iff_seen (hid'.symm ▸ hid)).mp (hid'.symm ▸ hload)
    obtain ⟨-, -, -, -, htotal', hsize', -, hhashes', hflags'⟩ := hseen'
    rw [hid'] at htotal' hsize' hhashes' hflags'
    exact
      { totalSize := htotal.mp ⟨_, htotal'⟩
        chunkSize := hsize.mp ⟨_, hsize'⟩
        partHashes := hhashes.mp ⟨_, hhashes', hhash'⟩
        uploaded := hflags.mp ⟨_, hflags', hflag⟩ }
  · intro h
    obtain ⟨name, hname⟩ := hname
    obtain ⟨count, hcount⟩ := hcount
    obtain ⟨total, htotal'⟩ := htotal.mpr h.totalSize
    obtain ⟨size, hsize'⟩ := hsize.mpr h.chunkSize
    obtain ⟨hs, hhashes', hhash'⟩ := hhashes.mpr h.partHashes
    obtain ⟨fs, hflags', hflag⟩ := hflags.mpr h.uploaded
    let text (field : String) := hget w' (sessionKey session.uploadId) (ascii field)
    let found : MultipartSession :=
      { uploadId := session.uploadId, fileName := name, totalSize := total, chunkSize := size
        chunkCount := count, partHashes := hs, uploaded := fs
        mimeType := (text "mime_type").getD (ascii "application/octet-stream")
        userId := (text "user_id").getD [], folderId := (text "folder_id").getD [] }
    have hfound : Seen svc (.calm w') found :=
      { fileName := (Option.or_none ..).trans hname
        mimeType := readsText_getD.mpr rfl
        userId := readsText_getD.mpr rfl
        folderId := readsText_getD.mpr rfl
        totalSize := htotal'
        chunkSize := hsize'
        chunkCount := hcount
        partHashes := hhashes'
        uploaded := hflags' }
    exact ⟨found, (@loaded_iff_seen svc pg w' found hid).mpr ⟨hredis, hfound⟩, rfl, hflag, hhash'⟩

/-- The 200 of `handle_upload_part`, and the save it does not look at. -/
theorem run_handleUploadPart {req : HttpRequest} {resp : HttpResponse}
    (h : (handleUploadPart svc req).run (execLossy svc pg) s = (.ok resp, s'))
    (hok : resp.statusCode = 200) :
    ∃ n session text s₁ s₂ u, stoi (req.getPathParam (ascii "part_num")) = .ok n ∧ 0 ≤ n ∧
      n < session.chunkCount ∧ req.getPathParam (ascii "upload_id") ≠ [] ∧
      svc.hasRedis = true ∧ session.uploadId = req.getPathParam (ascii "upload_id") ∧
      Seen svc s session ∧ 4 ≤ (svc.sha256 req.body).length ∧
      s₁.world.redis = s.world.redis ∧ s₁.fates = (s.skip 9).fates ∧
      (saveToRedis svc (session.record n (svc.sha256 req.body))).run (execLossy svc pg) s₁ =
        (.ok u, s₂) ∧ s₂.world = s'.world ∧
      svc.json.dump (object [("hash", .str (svc.sha256 req.body)), ("part_num", .int n),
        ("size", .int req.body.length)]) = .ok text ∧
      resp = HttpResponse.setJson {} text := by
  have hrefused : ∀ {code : Int} {msg : Bytes} {s₁ : Lossy}, code ≠ 200 →
      (svc.setError code msg).run (execLossy svc pg) s₁ ≠ (.ok resp, s') := by
    intro code msg s₁ hcode hrun
    exact hcode ((run_setError hrun).symm.trans hok)
  -- every other way out answers with another status
  rcases run_tryCatch_ok.mp h with hauth | ⟨e, s₁, -, hcatch⟩
  swap
  · exact absurd hcatch (hrefused (by decide))
  split at hauth
  · exact absurd hauth (hrefused (by decide))
  dsimp only at hauth
  split at hauth
  · exact absurd hauth (hrefused (by decide))
  rename_i hparams
  obtain ⟨n, s₁, hnum, hbody⟩ := run_bind_ok.mp hauth
  cases hstoi : stoi (req.getPathParam (ascii "part_num")) with
  | error e => rw [hstoi] at hnum; cases hnum
  | ok m =>
      rw [hstoi] at hnum
      cases hnum
      split at hbody
      · exact absurd hbody (hrefused (by decide))
      obtain ⟨found, s₂, hfind, hanswer⟩ := run_bind_ok.mp hbody
      have hfound := run_requireSession hfind
      cases found with
      | error resp' =>
          cases hanswer
          exact absurd hok hfound
      | ok session =>
          obtain ⟨hredis, hid, hseen, rfl⟩ :=
            (run_loadFromRedis fun hnil => hparams (Or.inl hnil)).mp hfound
          dsimp only at hanswer
          split at hanswer
          · exact absurd hanswer (hrefused (by decide))
          rename_i hrange
          split at hanswer
          · exact absurd hanswer (hrefused (by decide))
          obtain ⟨hash, s₃, hput, hsaving⟩ := run_bind_ok.mp hanswer
          obtain ⟨u, s₄, hsave, hnotify⟩ := run_bind_ok.mp hsaving
          obtain ⟨_, s₅, hpush, hend⟩ := run_bind_ok.mp hnotify
          obtain ⟨text, hdump, hresp, rfl⟩ := run_setJson hend
          -- the store and the push take no reply of Redis
          have hstored := run_others (callsOnly_request rfl) hput
          have hpushed : s₄.world = s'.world :=
            congrArg (fun p => p.2.world) ((run_request _ _ _).symm.trans hpush)
          have hexec : exec svc pg (.put req.body) s.world = (.ok hash, s₃.world) := by
            have hs : execLossy svc pg (.put req.body) (s.skip 9) = (.ok hash, s₃) :=
              (run_request _ _ _).symm.trans hput
            have hr := congrArg Prod.fst hs
            have hw := congrArg (fun p => p.2.world) hs
            exact Prod.ext hr hw
          obtain ⟨hlen, rfl⟩ : 4 ≤ (svc.sha256 req.body).length ∧ hash = svc.sha256 req.body := by
            have hput' : storePut svc req.body s.world = (.ok hash, s₃.world) := hexec
            unfold storePut at hput'
            dsimp only at hput'
            split at hput'
            · cases hput'
            · have hhash : hash = svc.sha256 req.body := by
                split at hput' <;> exact (Except.ok.inj (congrArg Prod.fst hput')).symm
              exact ⟨by omega, hhash⟩
          exact ⟨n, session, text, s₃, s₄, u, rfl, by omega, by omega,
            fun hnil => hparams (Or.inl hnil), hredis, hid, hseen, hlen, hstored.1, hstored.2, hsave,
            hpushed, hdump, hresp⟩

/-- **What is acknowledged is recorded exactly when every field is**: the new session when
each of its nine fields is written or reads as intended without that, a part when both
arrays are written from whole copies or have it already. -/
theorem acknowledged_iff (hjson : svc.json.Lawful) :
    (∀ s req resp s', (handleInit svc req).run (execLossy svc pg) s = (.ok resp, s') →
      resp.statusCode = 200 → ∃ body init uploadId text, svc.json.parse req.body = .ok body ∧
        readInitBody body = .ok init ∧
        svc.json.dump (object [("chunk_count", .int (partCount init.totalSize svc.chunkSize)),
          ("chunk_size", .int svc.chunkSize), ("upload_id", .str uploadId)]) = .ok text ∧
        resp = HttpResponse.setJson {} text ∧
        (((loadFromRedis svc uploadId).run (exec svc pg) s'.world).1 =
            .ok (newSession svc init req.authUserId uploadId) ↔
          InitRecorded svc s (newSession svc init req.authUserId uploadId))) ∧
    ∀ s req resp s', (handleUploadPart svc req).run (execLossy svc pg) s = (.ok resp, s') →
      resp.statusCode = 200 → ∃ n text, stoi (req.getPathParam (ascii "part_num")) = .ok n ∧
        svc.json.dump (object [("hash", .str (svc.sha256 req.body)), ("part_num", .int n),
          ("size", .int req.body.length)]) = .ok text ∧
        resp = HttpResponse.setJson {} text ∧
        (PartHeld svc pg s'.world (req.getPathParam (ascii "upload_id")) n.toNat
            (svc.sha256 req.body) ↔
          PartRecorded svc s (req.getPathParam (ascii "upload_id")) n.toNat
            (svc.sha256 req.body)) := by
  refine ⟨fun s req resp s' h hok => ?_, fun s req resp s' h hok => ?_⟩
  · obtain ⟨body, init, uploadId, text, s₁, s₂, u, hparse, hread, hpos, hid, hsame, hfates, hsave,
      rfl, hdump, hresp⟩ := run_handleInit h hok
    refine ⟨body, init, uploadId, text, hparse, hread, hdump, hresp, ?_⟩
    have hloaded := @loaded_iff_seen svc pg s₂.world (newSession svc init req.authUserId uploadId) hid
    by_cases hredis : svc.hasRedis = true
    · obtain ⟨t, t', ht, ht', hsaves⟩ := lossy_saveToRedis hredis hsave
      have hrecorded := seen_iff_recorded hjson hredis hpos ht ht' (hsaves.congr hsame hfates)
      exact hloaded.trans ⟨fun hseen => hrecorded.mp hseen.2, fun h => ⟨hredis, hrecorded.mpr h⟩⟩
    · exact hloaded.trans ⟨fun hseen => absurd hseen.1 hredis, fun h => absurd h.hasRedis hredis⟩
  · obtain ⟨n, session, text, s₁, s₂, u, hstoi, hlow, hhigh, hid, hredis, hsession, hseen, hlen,
      hsame, hfates, hsave, hworld, hdump, hresp⟩ := run_handleUploadPart h hok
    refine ⟨n, text, hstoi, hdump, hresp, ?_⟩
    obtain ⟨t, t', ht, ht', hsaves⟩ := lossy_saveToRedis hredis hsave
    rw [hworld] at hsaves
    have hkey : (session.record n (svc.sha256 req.body)).uploadId =
      req.getPathParam (ascii "upload_id") := hsession
    rw [hkey] at hsaves
    have hhash : svc.sha256 req.body ≠ [] := fun hnil => by
      rw [hnil] at hlen
      exact absurd hlen (by decide)
    exact partHeld_iff_recorded hjson hid hhash hsession hredis hseen (by omega) ht ht'
      (hsaves.congr hsame hfates)

/-! ### With Redis, and without it -/

def aliceInit : HttpRequest :=
  { body := ascii "\x7b\"file_name\":\"a.txt\",\"total_size\":1\x7d", authUserId := aliceId.text }

theorem readInitBody_aliceInit {body : Json} {init : InitBody}
    (hparse : sampleServices.json.parse aliceInit.body = .ok body)
    (hread : readInitBody body = .ok init) :
    init.fileName = ascii "a.txt" ∧ init.mimeType = ascii "application/octet-stream" ∧
      init.folderId = [] ∧ init.totalSize = 1 := by
  have hcheck : ((sampleServices.json.parse aliceInit.body).toOption.any fun body =>
      (readInitBody body).toOption.any fun init => init.fileName == ascii "a.txt" &&
        init.mimeType == ascii "application/octet-stream" && init.folderId == [] &&
        init.totalSize == 1) = true := by
    decide +kernel
  simpa [hparse, hread, Except.toOption, and_assoc] using hcheck

/-- A 200, and `check` holds of the answer and of the world afterwards. -/
def ackedWith (check : HttpResponse → World → Bool) (p : Except Exn HttpResponse × Lossy) : Bool :=
  match p.1 with
  | .ok resp => resp.statusCode == 200 && check resp p.2.world
  | .error _ => false

theorem acked {check : HttpResponse → World → Bool} {p : Except Exn HttpResponse × Lossy}
    (h : ackedWith check p = true) :
    ∃ resp s', p = (.ok resp, s') ∧ resp.statusCode = 200 ∧ check resp s'.world = true := by
  obtain ⟨r, s'⟩ := p
  cases r with
  | error e => cases h
  | ok resp =>
      obtain ⟨hcode, hcheck⟩ := Bool.and_eq_true_iff.mp h
      exact ⟨resp, s', rfl, beq_iff_eq.mp hcode, hcheck⟩

def loadedFlags (uploadId : Bytes) (w : World) : Option (Bytes × List Bool) :=
  match ((loadFromRedis sampleServices uploadId).run (exec sampleServices samplePostgres) w).1 with
  | .ok session => some (session.uploadId, session.uploaded)
  | .error _ => none

/-- With Redis in reach an upload of Alice is begun and recorded. -/
theorem begun_and_recorded : ∃ resp s' init uploadId,
    (handleInit sampleServices aliceInit).run (execLossy sampleServices samplePostgres)
      (.calm oneFile) = (.ok resp, s') ∧ resp.statusCode = 200 ∧
    ((loadFromRedis sampleServices uploadId).run (exec sampleServices samplePostgres) s'.world).1 =
      .ok (newSession sampleServices init aliceId.text uploadId) := by
  have hacked : ackedWith (fun _ _ => true) ((handleInit sampleServices aliceInit).run
      (execLossy sampleServices samplePostgres) (.calm oneFile)) = true := by
    decide +kernel
  obtain ⟨resp, s', hrun, hok, -⟩ := acked hacked
  obtain ⟨body, init, uploadId, text, hparse, hread, -, -, hiff⟩ :=
    (acknowledged_iff sampleServices_lawful).1 _ _ _ _ hrun hok
  obtain ⟨hname, hmime, hfolder, hsize⟩ := readInitBody_aliceInit hparse hread
  refine ⟨resp, s', init, uploadId, hrun, hok, hiff.mpr ?_⟩
  have hkept : ∀ {n key field fits reads}, fits →
      FieldKept (.calm oneFile) n key field fits reads := by
    intro n key field fits reads hfits
    exact ⟨fun _ => hfits, fun hnot => absurd ⟨nofun, fun v hv => by cases hv⟩ hnot⟩
  have hfile : NUL ∉ init.fileName := by
    rw [hname]
    decide
  have hmimeText : NUL ∉ init.mimeType := by
    rw [hmime]
    decide
  have hfolderId : NUL ∉ init.folderId := by
    rw [hfolder]
    exact List.not_mem_nil
  have htotal : init.totalSize < 2 ^ 63 := by
    rw [hsize]
    decide
  have huser : NUL ∉ aliceId.text := by decide
  exact
    { hasRedis := rfl
      fileName := hkept hfile
      mimeType := hkept hmimeText
      userId := hkept huser
      folderId := hkept hfolderId
      totalSize := hkept htotal
      chunkSize := hkept trivial
      chunkCount := hkept trivial
      partHashes := hkept trivial
      uploaded := hkept trivial }

/-- Redis is out of reach, and the start of an upload is answered 200 all the same. Only the
`HSET` of the flags is lost, and a part is answered 200 that is not there. -/
theorem acknowledged_unrecorded :
    (∃ resp s', (handleInit sampleServices aliceInit).run (execLossy sampleServices samplePostgres)
        ⟨oneFile, fun _ => .lost⟩ = (.ok resp, s') ∧ resp.statusCode = 200 ∧
      resp.body = ascii "\x7b\"chunk_count\":1,\"chunk_size\":1,\"upload_id\":\"0-1-2-3\"\x7d" ∧
      loadedFlags (ascii "0-1-2-3") s'.world = some ([], [])) ∧
    ∃ resp s', (handleUploadPart sampleServices (partBody 0)).run
        (execLossy sampleServices samplePostgres)
        ⟨openSession, fun n => if n = 17 then .lost else .answered⟩ = (.ok resp, s') ∧
      resp.statusCode = 200 ∧
      loadedFlags (ascii "s") s'.world = some (ascii "s", [false, false]) := by
  refine ⟨?_, ?_⟩
  · have hacked : ackedWith (fun resp w => resp.body ==
          ascii "\x7b\"chunk_count\":1,\"chunk_size\":1,\"upload_id\":\"0-1-2-3\"\x7d" &&
        loadedFlags (ascii "0-1-2-3") w == some ([], [])) ((handleInit sampleServices aliceInit).run
          (execLossy sampleServices samplePostgres) ⟨oneFile, fun _ => .lost⟩) = true := by
      decide +kernel
    obtain ⟨resp, s', hrun, hok, hcheck⟩ := acked hacked
    obtain ⟨hbody, hload⟩ := Bool.and_eq_true_iff.mp hcheck
    exact ⟨resp, s', hrun, hok, beq_iff_eq.mp hbody, beq_iff_eq.mp hload⟩
  · have hacked : ackedWith (fun _ w => loadedFlags (ascii "s") w == some (ascii "s", [false, false]))
        ((handleUploadPart sampleServices (partBody 0)).run (execLossy sampleServices samplePostgres)
          ⟨openSession, fun n => if n = 17 then .lost else .answered⟩) = true := by
      decide +kernel
    obtain ⟨resp, s', hrun, hok, hload⟩ := acked hacked
    exact ⟨resp, s', hrun, hok, beq_iff_eq.mp hload⟩

end SolarDrive.Runs
