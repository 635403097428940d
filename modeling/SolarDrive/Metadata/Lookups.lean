import SolarDrive.Metadata.Inversion

/-!
# What the parts of handlers find and write

`Finds` is the specification of a part that only reads: the world stays as it
is, up to the random numbers used, and a result has a property. The checks of
ownership are stated with it, and the writing of a session after it.
-/

namespace SolarDrive.Metadata

open Lib Http Api Prog

section Finds

variable {svc : Services} {pg : Postgres} {w : World} {α β : Type}

/-- The part leaves the tables, the store and Redis alone, and a result of it
satisfies `G`. -/
def Finds (svc : Services) (pg : Postgres) (p : App α) (w : World) (G : α → Prop) : Prop :=
  p.wp (ofExec (exec svc pg))
    (fun r w' => (∃ draws, w' = { w with draws }) ∧ ∀ a, r = .ok a → G a) w

theorem finds_pure {a : α} {G : α → Prop} (h : G a) : Finds svc pg (pure a) w G := by
  refine ⟨⟨w.draws, rfl⟩, ?_⟩
  rintro _ ⟨⟩
  exact h

theorem finds_raise {G : α → Prop} (e : Exn) : Finds svc pg (.raise e) w G := by
  refine ⟨⟨w.draws, rfl⟩, ?_⟩
  rintro _ ⟨⟩

theorem finds_reads {p : App α} (hp : Reads p) : Finds svc pg p w fun _ => True := by
  have hsame : p.wp (ofExec (exec svc pg)) (fun _ w' => ∃ draws, w' = { w with draws }) w := by
    refine wp_of_callsOnly (fun w' => ∃ draws, w' = { w with draws }) ?_ hp ⟨w.draws, rfl⟩
    rintro _ c hc ⟨draws, rfl⟩
    refine ⟨trivial, fun r w' hexec => ?_⟩
    obtain ⟨draws', hd⟩ := @exec_readOnly svc pg c hc { w with draws }
    rw [show exec svc pg c { w with draws } = (r, w') from hexec] at hd
    exact ⟨draws', hd⟩
  exact wp_mono hsame fun _ _ hw => ⟨hw, fun _ _ => trivial⟩

theorem finds_ask {c : Call} (hc : readOnly c = true) :
    Finds svc pg (ask c) w fun a => (exec svc pg c w).1 = .ok a := by
  refine wp_request.mpr ⟨trivial, fun r w' hexec => ?_⟩
  have hr : exec svc pg c w = (r, w') := hexec
  obtain ⟨draws, hd⟩ := @exec_readOnly svc pg c hc w
  rw [hr] at hd ⊢
  exact ⟨⟨draws, hd⟩, fun _ h => h⟩

/-- The JSON library is asked wherever calls go on as they do in the world. -/
theorem wp_jsonParse {σ : Type} {E : (c : Call) → σ → Except Exn c.Resp × σ} {s : σ} {text : Bytes}
    {Q : Except Exn Json → σ → Prop}
    (hE : E (.jsonParse text) s = ((exec svc pg (.jsonParse text) w).1, s))
    (hparsed : ∀ j, svc.json.parse text = .ok j → Q (.ok j) s)
    (hfails : ∀ what, svc.json.parse text = .error what → Q (.error { kind := .json, what }) s) :
    (ask (.jsonParse text)).wp (ofExec E) Q s := by
  refine wp_request.mpr ⟨trivial, fun r s' hexec => ?_⟩
  rw [exec] at hE
  cases hparse : svc.json.parse text with
  | ok j =>
      rw [hparse] at hE
      obtain ⟨rfl, rfl⟩ := Prod.mk.inj (hE.symm.trans hexec)
      exact hparsed j hparse
  | error what =>
      rw [hparse] at hE
      obtain ⟨rfl, rfl⟩ := Prod.mk.inj (hE.symm.trans hexec)
      exact hfails what hparse

/-- The JSON library's answer. -/
theorem finds_jsonParse (text : Bytes) :
    Finds svc pg (ask (.jsonParse text)) w fun j => svc.json.parse text = .ok j := by
  refine @wp_jsonParse svc pg w _ _ _ _ _ rfl (fun j hparse => ?_) fun what _ => ?_
  · refine ⟨⟨w.draws, rfl⟩, ?_⟩
    rintro _ ⟨⟩
    exact hparse
  · exact ⟨⟨w.draws, rfl⟩, nofun⟩

theorem finds_bind {p : App α} {f : α → App β} {M : α → Prop} {G : β → Prop}
    (hp : Finds svc pg p w M)
    (hf : ∀ a draws, M a → Finds svc pg (f a) { w with draws } G) :
    Finds svc pg (p >>= f) w G := by
  refine wp_seq hp ?_ ?_
  · rintro a _ ⟨⟨draws, rfl⟩, ha⟩
    refine wp_mono (hf a draws (ha a rfl)) ?_
    rintro r _ ⟨⟨draws', rfl⟩, hr⟩
    exact ⟨⟨draws', rfl⟩, hr⟩
  · rintro e _ ⟨hw, -⟩
    refine ⟨hw, ?_⟩
    rintro _ ⟨⟩

theorem finds_and {p : App α} {G G' : α → Prop} (h : Finds svc pg p w G)
    (h' : Finds svc pg p w G') : Finds svc pg p w fun a => G a ∧ G' a := by
  rw [Finds, wp_ofExec] at h h' ⊢
  exact ⟨h.1, fun a ha => ⟨h.2 a ha, h'.2 a ha⟩⟩

/-- A reading part of a handler, and then the rest. -/
theorem wp_finds_bind {p : App α} {f : α → App β} {M : α → Prop}
    {Q : Except Exn β → World → Prop} (hp : Finds svc pg p w M)
    (hok : ∀ a draws, M a → (f a).wp (ofExec (exec svc pg)) Q { w with draws })
    (herr : ∀ e draws, Q (.error e) { w with draws }) :
    (p >>= f).wp (ofExec (exec svc pg)) Q w := by
  refine wp_seq hp ?_ ?_
  · rintro a _ ⟨⟨draws, rfl⟩, ha⟩
    exact hok a draws (ha a rfl)
  · rintro e _ ⟨⟨draws, rfl⟩, -⟩
    exact herr e draws

/-- Without a draw the world stays exactly as it is. -/
theorem wp_still_run {p : App α} {f : α → App β} {Q : Except Exn β → World → Prop}
    (hp : p.CallsOnly fun c => readOnly c = true ∧ c ≠ .draw)
    (hok : ∀ a, p.run (exec svc pg) w = (.ok a, w) → (f a).wp (ofExec (exec svc pg)) Q w)
    (herr : ∀ e, Q (.error e) w) : (p >>= f).wp (ofExec (exec svc pg)) Q w := by
  have hsame : p.wp (ofExec (exec svc pg)) (fun _ w' => w' = w) w := by
    refine wp_of_callsOnly (fun w' => w' = w) ?_ hp rfl
    intro w₁ c hc hw₁
    refine ⟨trivial, fun r w' hexec => ?_⟩
    have hw : w' = (exec svc pg c w₁).2 := (congrArg Prod.snd hexec).symm
    rw [hw, ← hw₁]
    cases c with
    | draw => exact absurd rfl hc.2
    | _ => first | rfl | cases hc.1
  rw [wp_ofExec] at hsame ⊢
  rw [run_bind]
  rcases hrun : p.run (exec svc pg) w with ⟨r, w₁⟩
  rw [hrun] at hsame
  obtain rfl : w₁ = w := hsame
  cases r with
  | ok a => exact wp_ofExec.mp (hok a hrun)
  | error e => exact herr e

theorem wp_still_bind {p : App α} {f : α → App β} {Q : Except Exn β → World → Prop}
    (hp : p.CallsOnly fun c => readOnly c = true ∧ c ≠ .draw)
    (hok : ∀ a, (f a).wp (ofExec (exec svc pg)) Q w) (herr : ∀ e, Q (.error e) w) :
    (p >>= f).wp (ofExec (exec svc pg)) Q w := wp_still_run hp (fun a _ => hok a) herr

end Finds

/-! ## Ownership -/

section Owned

variable {svc : Services} {pg : Postgres} {w : World}

theorem selectFiles_head {p : FileRow → Bool} {record : FileRecord}
    (h : (selectFiles pg w p).head? = some record) :
    ∃ f ∈ w.files, p f = true ∧ f.live = true ∧ fileRecord pg w f = some record := by
  obtain ⟨f, hf, hrec⟩ := List.mem_filterMap.mp (List.mem_of_mem_head? h)
  obtain ⟨hmem, hp⟩ := List.mem_filter.mp hf
  rw [Bool.and_eq_true] at hp
  exact ⟨f, hmem, hp.1, hp.2, hrec⟩

theorem findOwnedById_ok {ownerId id : Bytes} {record : FileRecord}
    (h : findOwnedById pg w ownerId id = .ok (some record)) :
    ∃ f ∈ w.files, f.live = true ∧ pg.uuidParam id = .ok f.id ∧
      pg.uuidParam ownerId = .ok f.ownerId ∧ fileRecord pg w f = some record := by
  simp only [findOwnedById, bind_eq_ok] at h
  obtain ⟨u, hu, owner, howner, hret⟩ := h
  obtain ⟨f, hf, hp, hlive, hrec⟩ := selectFiles_head (Except.ok.inj hret)
  rw [Bool.and_eq_true, decide_eq_true_eq, decide_eq_true_eq] at hp
  obtain ⟨rfl, rfl⟩ := hp
  exact ⟨f, hf, hlive, hu, howner, hrec⟩

theorem finds_requireOwnedFile (userId fileId : Bytes) :
    Finds svc pg (requireOwnedFile svc userId fileId) w fun found => ∀ record,
      found = .ok record → ∃ f ∈ w.files, f.live = true ∧ pg.uuidParam fileId = .ok f.id ∧
        pg.uuidParam userId = .ok f.ownerId ∧ fileRecord pg w f = some record := by
  have hrefused : ∀ (code : Int) (msg : Bytes) (draws : Nat → Nat), Finds svc pg (do
      let resp ← svc.setError code msg
      return .error resp : App (Answered FileRecord)) { w with draws } fun found => ∀ record,
        found = .ok record → ∃ f ∈ w.files, f.live = true ∧ pg.uuidParam fileId = .ok f.id ∧
          pg.uuidParam userId = .ok f.ownerId ∧ fileRecord pg w f = some record := by
    intro code msg draws
    refine finds_bind (finds_reads (reads_setError svc code msg)) fun resp _ _ => finds_pure ?_
    rintro record ⟨⟩
  unfold requireOwnedFile
  split
  · exact hrefused _ _ w.draws
  · refine finds_bind (finds_ask rfl) fun found draws hfound => ?_
    cases found with
    | none => exact hrefused _ _ draws
    | some record =>
        refine finds_pure ?_
        rintro _ ⟨⟩
        exact findOwnedById_ok hfound

theorem folderFindById_ok {id : Bytes} {record : FolderRecord}
    (h : folderFindById pg w id = .ok (some record)) :
    ∃ f ∈ w.folders, pg.uuidParam id = .ok f.id ∧ f.live = true ∧ record = folderRecord pg f := by
  simp only [folderFindById, bind_eq_ok] at h
  obtain ⟨u, hu, hret⟩ := h
  obtain ⟨f, hf, rfl⟩ := Option.map_eq_some_iff.mp (Except.ok.inj hret)
  have hp := List.find?_some hf
  rw [Bool.and_eq_true, decide_eq_true_eq] at hp
  obtain ⟨rfl, hlive⟩ := hp
  exact ⟨f, List.mem_of_find?_eq_some hf, hu, hlive, rfl⟩

theorem finds_ownedFolder (id userId : Bytes) :
    Finds svc pg (ownedFolder id userId) w fun found => ∀ record, found = some record →
      ∃ f ∈ w.folders, pg.uuidParam id = .ok f.id ∧ f.ownerId.text = userId ∧ f.live = true := by
  refine finds_bind (finds_ask rfl) fun found draws hfound => ?_
  cases found with
  | none =>
      refine finds_pure ?_
      rintro _ ⟨⟩
  | some record =>
      obtain ⟨f, hf, hid, hlive, rfl⟩ := folderFindById_ok hfound
      refine finds_pure ?_
      rintro record' heq
      split at heq
      · rename_i howner
        exact ⟨f, hf, hid, howner, hlive⟩
      · cases heq

end Owned

/-! ## Sessions -/

section Sessions

variable {svc : Services} {pg : Postgres} {w : World}

/-- The three kinds of keys differ in their first letter. -/
theorem shareKey_ne (token id : Bytes) : cstr (shareKey token) ≠ cstr (sessionKey id) := by
  intro h
  have hhead : some (115 : UInt8) = some 109 := congrArg List.head? h
  exact absurd hhead (by decide)

theorem hashKey_ne (hash id : Bytes) : cstr (hashKey hash) ≠ cstr (sessionKey id) := by
  intro h
  have hhead : some (102 : UInt8) = some 109 := congrArg List.head? h
  exact absurd hhead (by decide)

/-- What is known of a session that is loaded is known of the one that is handed on. -/
theorem finds_openSession (req : HttpRequest) {uploadId : Bytes} {P : MultipartSession → Prop}
    (hload : Finds svc pg (loadFromRedis svc uploadId) w fun session =>
      session.uploadId = [] ∨ P session) :
    Finds svc pg (requireSession svc req uploadId) w fun found => ∀ session,
      found = .ok session → P session ∧ session.userId = req.authUserId := by
  have hrefused : ∀ (code : Int) (msg : Bytes) (draws : Nat → Nat), Finds svc pg (do
      let resp ← svc.setError code msg
      return .error resp : App (Answered MultipartSession)) { w with draws } fun found => ∀ session,
        found = .ok session → P session ∧ session.userId = req.authUserId := by
    intro code msg draws
    refine finds_bind (finds_reads (reads_setError svc code msg)) fun resp _ _ => finds_pure ?_
    rintro session ⟨⟩
  refine finds_bind hload fun session draws hsession => ?_
  split
  · exact hrefused _ _ draws
  · rename_i hid
    split
    · exact hrefused _ _ draws
    · rename_i huser
      refine finds_pure ?_
      rintro _ ⟨⟩
      exact ⟨hsession.resolve_left hid, not_not.mp huser⟩

/-- The text fields of a loaded session are those in Redis, with the defaults of
`load_from_redis`. -/
structure LoadedFrom (w : World) (uploadId : Bytes) (session : MultipartSession) : Prop where
  sessionId : session.uploadId = uploadId
  fileName : hget w (sessionKey uploadId) (ascii "file_name") = some session.fileName
  mimeType : session.mimeType = (hget w (sessionKey uploadId) (ascii "mime_type")).getD
    (ascii "application/octet-stream")
  userId : session.userId = (hget w (sessionKey uploadId) (ascii "user_id")).getD []
  folderId : session.folderId = (hget w (sessionKey uploadId) (ascii "folder_id")).getD []

/-- A session that is handed on is the one of that id in Redis, and the user's. -/
theorem finds_requireSession (req : HttpRequest) (uploadId : Bytes) :
    Finds svc pg (requireSession svc req uploadId) w fun found => ∀ session,
      found = .ok session → LoadedFrom w uploadId session ∧ session.userId = req.authUserId := by
  have hload : Finds svc pg (loadFromRedis svc uploadId) w fun session =>
      session.uploadId = [] ∨ LoadedFrom w uploadId session := by
    unfold loadFromRedis
    split
    swap
    · exact finds_pure (Or.inl rfl)
    have hfield : ∀ {field text : _} {draws : Nat → Nat},
        (exec svc pg (.hget (sessionKey uploadId) (ascii field)) { w with draws }).1 = .ok text →
          hget w (sessionKey uploadId) (ascii field) = text := fun h => Except.ok.inj h
    refine finds_bind (finds_ask rfl) fun fileName draws hname => ?_
    cases fileName with
    | none => exact finds_pure (Or.inl rfl)
    | some name =>
        refine finds_bind (finds_ask rfl) fun mime draws hmime => ?_
        refine finds_bind (finds_ask rfl) fun user draws huser => ?_
        refine finds_bind (finds_ask rfl) fun folder draws hfolder => ?_
        refine finds_bind (finds_reads (reads_numberField _ _ _ _ _)) fun total draws _ => ?_
        refine finds_bind (finds_reads (reads_numberField _ _ _ _ _)) fun size draws _ => ?_
        refine finds_bind (finds_reads (reads_numberField _ _ _ _ _)) fun count draws _ => ?_
        refine finds_bind (finds_reads (reads_arrayField _ _ _)) fun hashes draws _ => ?_
        refine finds_bind (finds_reads (reads_arrayField _ _ _)) fun flags draws _ => ?_
        exact finds_pure (Or.inr ⟨rfl, hfield hname, by rw [hfield hmime], by rw [hfield huser],
          by rw [hfield hfolder]⟩)
  exact finds_openSession req hload

/-- The upload id the next session gets. -/
def generatedId (w : World) : Bytes :=
  hexNat (w.draws 0 % 2 ^ 64) ++ DASH :: hexNat (w.draws 1 % 2 ^ 64) ++
    DASH :: hexNat (w.draws 2 % 2 ^ 64) ++ DASH :: hexNat (w.draws 3 % 2 ^ 64)

/-- A new session has no parts yet. -/
structure Started (svc : Services) (init : InitBody) (userId folderId : Bytes) (w : World)
    (session : MultipartSession) : Prop where
  sessionId : session.uploadId = generatedId w
  userId : session.userId = userId
  folderId : session.folderId = folderId
  chunkCount : session.chunkCount = partCount init.totalSize svc.chunkSize
  nonneg : 0 ≤ session.chunkCount
  partHashes : session.partHashes = List.replicate session.chunkCount.toNat []
  uploaded : session.uploaded = List.replicate session.chunkCount.toNat false
  totalSize : session.totalSize = init.totalSize
  chunkSize : session.chunkSize = svc.chunkSize

theorem finds_startSession (init : InitBody) (userId folderId : Bytes) :
    Finds svc pg (startSession svc init userId folderId) w
      (Started svc init userId folderId w) := by
  have hid : Finds svc pg generateUuid w fun id => id = generatedId w := by
    refine wp_ofExec.mpr ⟨⟨_, rfl⟩, ?_⟩
    rintro _ ⟨⟩
    rfl
  refine finds_bind hid ?_
  rintro _ draws rfl
  dsimp only
  split
  · exact finds_raise _
  · rename_i hneg
    exact finds_pure ⟨rfl, rfl, rfl, rfl, not_lt.mp hneg, rfl, rfl, rfl, rfl⟩

/-! ### Writing a session -/

/-- The fields of one hash have been written, and nothing else. -/
structure Rehashed (key : Bytes) (fields : List (Bytes × Bytes)) (w w' : World) : Prop where
  world : w' = { w with redis := w'.redis }
  others : ∀ k, k ≠ cstr key → w'.redis k = w.redis k
  hashKey : HashKey w' key
  written : ∀ p ∈ fields, hget w' key p.1 = some (cstr p.2)
  unwritten : ∀ f, cstr f = f → f ∉ fields.map Prod.fst → hget w' key f = hget w key f

theorem wp_hsetAll {key : Bytes} : ∀ (fields : List (Bytes × Bytes)) {w : World}, HashKey w key →
    (∀ p ∈ fields, cstr p.1 = p.1) → (fields.map Prod.fst).Nodup →
    (hsetAll key fields).wp (ofExec (exec svc pg))
      (fun r w' => r = .ok () ∧ Rehashed key fields w w') w
  | [], w, hkey, _, _ =>
      ⟨rfl, rfl, fun _ _ => rfl, hkey, fun _ hp => absurd hp List.not_mem_nil, fun _ _ _ => rfl⟩
  | (field, value) :: rest, w, hkey, hnames, hnodup => by
      refine wp_request_bind trivial ?_ ?_
      swap
      · intro e w' hexec
        cases congrArg Prod.fst (show exec svc pg (.hset key field value) w = _ from hexec)
      intro b w₁ hexec
      obtain rfl : (hset key field value w).2 = w₁ :=
        congrArg Prod.snd (show exec svc pg (.hset key field value) w = _ from hexec)
      obtain ⟨hfresh, hnodup'⟩ := List.nodup_cons.mp hnodup
      have hfield : cstr field = field := hnames _ List.mem_cons_self
      refine wp_mono (wp_hsetAll rest (hashKey_hset hkey)
        (fun p hp => hnames p (List.mem_cons_of_mem _ hp)) hnodup') ?_
      rintro r w' ⟨rfl, hworld, hothers, hkey', hwritten, hunwritten⟩
      have hkept : ∀ f, cstr f = f → f ∉ rest.map Prod.fst →
          hget w' key f = if f = field then some (cstr value) else hget w key f := by
        intro f hf hnot
        rw [hunwritten f hf hnot, hget_hset hkey, hf, hfield]
      obtain ⟨fields, heq, -⟩ := @hset_redis w key field value hkey
      refine ⟨rfl, ?_, ?_, hkey', ?_, ?_⟩
      · rw [hworld, heq]
      · intro k hk
        rw [hothers k hk, heq]
        exact Function.update_of_ne hk _ _
      · intro p hp
        rcases List.mem_cons.mp hp with rfl | hp
        · rw [hkept field hfield hfresh, if_pos rfl]
        · exact hwritten p hp
      · intro f hf hnot
        rw [List.map_cons, List.mem_cons, not_or] at hnot
        rw [hkept f hf hnot.2, if_neg hnot.1]

/-- How `save_to_redis` ends. -/
inductive Saved (svc : Services) (session : MultipartSession) (w : World) :
    Except Exn Unit → World → Prop
  | skipped : svc.hasRedis = false → Saved svc session w (.ok ()) w
  | failed (e : Exn) : Saved svc session w (.error e) w
  | written {t t' : Bytes} {w' : World} :
      svc.hasRedis = true →
      svc.json.dump (hashArray session.partHashes) = .ok t →
      svc.json.dump (flagArray session.uploaded) = .ok t' →
      Rehashed (sessionKey session.uploadId) (sessionFields session t t') w w' →
      Saved svc session w (.ok ()) w'

theorem sessionFields_names (session : MultipartSession) (t t' : Bytes) :
    (∀ p ∈ sessionFields session t t', cstr p.1 = p.1) ∧
      ((sessionFields session t t').map Prod.fst).Nodup := by
  have hnames : (sessionFields session t t').map Prod.fst =
      [ascii "file_name", ascii "mime_type", ascii "user_id", ascii "folder_id",
        ascii "total_size", ascii "chunk_size", ascii "chunk_count", ascii "part_hashes",
        ascii "uploaded"] := rfl
  have hcstr : ∀ f ∈ (sessionFields session t t').map Prod.fst, cstr f = f := by
    rw [hnames]
    decide
  refine ⟨fun p hp => hcstr _ (List.mem_map_of_mem hp), ?_⟩
  rw [hnames]
  decide

/-- With both arrays as texts, all nine fields are written. -/
theorem wp_saveToRedis_written {session : MultipartSession} {t t' : Bytes}
    (hkey : HashKey w (sessionKey session.uploadId)) (hredis : svc.hasRedis = true)
    (ht : svc.json.dump (hashArray session.partHashes) = .ok t)
    (ht' : svc.json.dump (flagArray session.uploaded) = .ok t') :
    (saveToRedis svc session).wp (ofExec (exec svc pg))
      (fun r w' => r = .ok () ∧
        Rehashed (sessionKey session.uploadId) (sessionFields session t t') w w') w := by
  obtain ⟨hnames, hnodup⟩ := sessionFields_names session t t'
  unfold saveToRedis
  rw [if_pos hredis, ht, ht']
  show (hsetAll (sessionKey session.uploadId) _ >>= _ : App Unit).wp _ _ _
  refine wp_seq (wp_hsetAll _ hkey hnames hnodup) ?_ ?_
  · rintro _ w₁ ⟨-, hw₁⟩
    refine wp_request_bind trivial ?_ ?_
    · intro b w₂ hexec
      obtain rfl : w₁ = w₂ := congrArg Prod.snd
        (show exec svc pg (.expire (sessionKey session.uploadId) (24 * 3600)) w₁ = _ from hexec)
      exact ⟨rfl, hw₁⟩
    · intro e w₂ hexec
      cases congrArg Prod.fst
        (show exec svc pg (.expire (sessionKey session.uploadId) (24 * 3600)) w₁ = _ from hexec)
  · rintro e w₁ ⟨⟨⟩, -⟩

theorem wp_saveToRedis (session : MultipartSession)
    (hkey : HashKey w (sessionKey session.uploadId)) :
    (saveToRedis svc session).wp (ofExec (exec svc pg)) (Saved svc session w) w := by
  by_cases hredis : svc.hasRedis = true
  swap
  · unfold saveToRedis
    rw [if_neg hredis]
    exact .skipped (by simpa using hredis)
  cases ht : svc.json.dump (hashArray session.partHashes) with
  | error e =>
      unfold saveToRedis
      rw [if_pos hredis, ht]
      exact .failed _
  | ok t =>
      cases ht' : svc.json.dump (flagArray session.uploaded) with
      | error e =>
          unfold saveToRedis
          rw [if_pos hredis, ht, ht']
          exact .failed _
      | ok t' =>
          refine wp_mono (wp_saveToRedis_written hkey hredis ht ht') ?_
          rintro r w' ⟨rfl, hw'⟩
          exact .written hredis ht ht' hw'

end Sessions

end SolarDrive.Metadata
