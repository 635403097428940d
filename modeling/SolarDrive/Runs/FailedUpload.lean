import SolarDrive.Metadata.Faults
import SolarDrive.Metadata.Names
import SolarDrive.Runs.Sessions

/-!
# What a failed upload leaves behind

`handle_single_upload` with calls that can be refused at any place. The chunks
are stored one by one before the row that lists them is inserted, and nothing
takes them back; nor is the row taken back when the lookup after it fails.

`leaves_nothing_iff` says which failed uploads leave nothing.
-/

namespace SolarDrive.Runs

open Lib Http Api Metadata Prog

/-! ## How far an upload comes -/

/-- The chunks stored before one is refused. -/
def storedChunks : List Bytes → (Nat → Option Exn) → List Bytes
  | [], _ => []
  | chunk :: chunks, faults =>
      if faults 0 = none then chunk :: storedChunks chunks fun n => faults (n + 1) else []

/-- Redis answers that the content is known. -/
def seenInRedis (svc : Services) (s : Faulty) (hash : Bytes) : Bool :=
  svc.hasRedis && s.faults 0 = none && (redisGet s.world (hashKey hash)).isSome

/-- The calls of an upload before the database is asked for the last time whether it has the
content: Redis, and with its hint the database once more. -/
def callsBefore (svc : Services) (s : Faulty) (hash : Bytes) : Nat :=
  if seenInRedis svc s hash then 2 else if svc.hasRedis then 1 else 0

/-- The database answers that it does not have the content. -/
structure Unknown (svc : Services) (pg : Postgres) (s : Faulty) (hash : Bytes) : Prop where
  missing : findContentByHash pg s.world hash = .ok none
  answered : s.faults (callsBefore svc s hash) = none
  hinted : seenInRedis svc s hash = true → s.faults 1 = none

/-- The calls that resolve the folder. -/
def folderCalls (req : HttpRequest) : Nat :=
  if req.getHeader (ascii "X-Folder-Id") = [] then 0 else 1

/-- The request is one for which chunks are stored: it has a body, not too long, its folder is
found, and its content is not. -/
structure Stores (svc : Services) (pg : Postgres) (s : Faulty) (req : HttpRequest) (userId : Bytes) :
    Prop where
  body : req.body ≠ []
  size : svc.oversized req.body.length = false
  folder : req.getHeader (ascii "X-Folder-Id") = [] ∨ s.faults 0 = none ∧ ∃ f,
    folderFindById pg s.world (req.getHeader (ascii "X-Folder-Id")) = .ok (some f) ∧
      f.ownerId = userId
  unknown : Unknown svc pg (s.skip (folderCalls req)) (svc.sha256 req.body)

/-- The state in which the first chunk is stored. -/
def atFirstChunk (svc : Services) (s : Faulty) (req : HttpRequest) : Faulty :=
  let s₁ := s.skip (folderCalls req)
  s₁.skip (callsBefore svc s₁ (svc.sha256 req.body) + 1)

/-- The file an upload inserts. -/
def uploadRecord (svc : Services) (req : HttpRequest) (userId : Bytes) : FileRecord :=
  { name := resolveFilename req, size := req.body.length, hash := svc.sha256 req.body
    mimeType := resolveMimeType req, ownerId := userId
    folderId := req.getHeader (ascii "X-Folder-Id") }

/-- The row for new content is committed. -/
def Commits (svc : Services) (pg : Postgres) (s : Faulty) (body : Bytes) (file : FileRecord) : Prop :=
  s.faults (chunksOf svc.storeChunkSize body).length = none ∧
    Insertable pg file (s.world.uuids 0) (s.world.uuids 1) s.world

/-- From its first chunk on, the upload stores nothing that has not been there, and does not
come to commit a row. -/
def NothingNew (svc : Services) (pg : Postgres) (s : Faulty) (body : Bytes) (file : FileRecord) :
    Prop :=
  (∀ chunk ∈ storedChunks (chunksOf svc.storeChunkSize body) s.faults,
    (s.world.store (svc.sha256 chunk)).isSome = true) ∧
  ¬ (storedChunks (chunksOf svc.storeChunkSize body) s.faults = chunksOf svc.storeChunkSize body ∧
    Commits svc pg s body file)

/-- The object store and the two tables are the same. -/
structure Untouched (w w' : World) : Prop where
  store : w'.store = w.store
  contents : w'.contents = w.contents
  files : w'.files = w.files

theorem Untouched.refl (w : World) : Untouched w w := ⟨rfl, rfl, rfl⟩

theorem Untouched.trans {w w₁ w₂ : World} (h : Untouched w w₁) (h' : Untouched w₁ w₂) :
    Untouched w w₂ :=
  ⟨h'.store.trans h.store, h'.contents.trans h.contents, h'.files.trans h.files⟩

section Upload

variable {svc : Services} {pg : Postgres} {s s' : Faulty}

/-! ## Storing the chunks -/

/-- The chunks up to the refused one are stored, and nothing else happens. -/
structure StoresChunks (svc : Services) (chunks : List Bytes) (s : Faulty)
    (r : Except Exn (List Bytes)) (s' : Faulty) : Prop where
  tables : s'.world = { s.world with store := s'.world.store }
  objects : ∀ x, (s'.world.store x).isSome = true ↔ (s.world.store x).isSome = true ∨
    ∃ chunk ∈ storedChunks chunks s.faults, svc.sha256 chunk = x
  same : (∀ chunk ∈ storedChunks chunks s.faults,
    (s.world.store (svc.sha256 chunk)).isSome = true) → s'.world.store = s.world.store
  all : storedChunks chunks s.faults = chunks →
    r = .ok (chunks.map svc.sha256) ∧ s'.faults = (s.skip chunks.length).faults
  refused : storedChunks chunks s.faults ≠ chunks → ∃ e, r = .error e

/-- One chunk, when it is not refused. -/
theorem put_answered (hlen : ∀ d, 2 ≤ (svc.digest d).length) {data : Bytes} {r : Except Exn Bytes}
    (hfault : s.faults 0 = none) (h : execFaulty svc pg (.put data) s = (r, s')) :
    r = .ok (svc.sha256 data) ∧ s'.faults = (s.skip 1).faults ∧
      s'.world = { s.world with store := s'.world.store } ∧
      (∀ x, (s'.world.store x).isSome = true ↔
        (s.world.store x).isSome = true ∨ svc.sha256 data = x) ∧
      ((s.world.store (svc.sha256 data)).isSome = true → s'.world.store = s.world.store) := by
  rw [execFaulty_answered (.inl hfault)] at h
  obtain ⟨hr, rfl⟩ := Prod.mk.inj h
  have hexec : exec svc pg (.put data) s.world = (r, (exec svc pg (.put data) s.world).2) := by
    rw [← hr]
  rcases exec_put hexec with ⟨hw, ⟨-, hshort⟩ | ⟨rfl, hsome⟩⟩ | ⟨rfl, hnone, hw⟩
  · exact absurd (sha256_length hlen data) (Nat.not_le.mpr hshort)
  · dsimp only
    rw [hw]
    refine ⟨rfl, rfl, rfl, fun x => ?_, fun _ => rfl⟩
    exact ⟨Or.inl, fun hx => hx.elim id fun heq => heq ▸ hsome⟩
  · refine ⟨rfl, rfl, ?_, fun x => ?_, fun hsome => ?_⟩
    · dsimp only
      rw [hw]
    · dsimp only
      rw [hw]
      by_cases hx : x = svc.sha256 data
      · subst hx
        simp
      · show (Function.update s.world.store (svc.sha256 data) (some data) x).isSome = true ↔ _
        rw [Function.update_of_ne hx]
        exact ⟨Or.inl, fun h => h.resolve_right fun heq => hx heq.symm⟩
    · rw [hnone] at hsome
      cases hsome

theorem StoresChunks.cons (hlen : ∀ d, 2 ≤ (svc.digest d).length) {chunk : Bytes} {chunks : List Bytes}
    {s₁ : Faulty} {r : Except Exn (List Bytes)} (hfault : s.faults 0 = none) {hash : Bytes}
    (hput : execFaulty svc pg (.put chunk) s = (.ok hash, s₁)) (h : StoresChunks svc chunks s₁ r s') :
    StoresChunks svc (chunk :: chunks) s (r.map fun hashes => hash :: hashes) s' := by
  obtain ⟨hhash, hfaults, htables, hobjects, hsame⟩ := put_answered hlen hfault hput
  cases hhash
  have hcons : storedChunks (chunk :: chunks) s.faults = chunk :: storedChunks chunks s₁.faults := by
    rw [storedChunks, if_pos hfault, hfaults]
    congr 2
    funext n
    rw [Faulty.skip_faults, Nat.add_comm]
  refine ⟨?_, fun x => ?_, fun hall => ?_, fun hall => ?_, fun hsome => ?_⟩
  · rw [h.tables, htables]
  · rw [h.objects x, hobjects x, hcons, or_assoc]
    refine or_congr_right ⟨?_, ?_⟩
    · rintro (rfl | ⟨c, hc, rfl⟩)
      · exact ⟨chunk, List.mem_cons_self, rfl⟩
      · exact ⟨c, List.mem_cons_of_mem _ hc, rfl⟩
    · rintro ⟨c, hc, rfl⟩
      rcases List.mem_cons.mp hc with rfl | hc
      · exact Or.inl rfl
      · exact Or.inr ⟨c, hc, rfl⟩
  · rw [hcons] at hall
    refine (h.same fun c hc => ?_).trans (hsame (hall chunk List.mem_cons_self))
    exact (hobjects _).mpr (Or.inl (hall c (List.mem_cons_of_mem _ hc)))
  · rw [hcons] at hall
    obtain ⟨rfl, hskip⟩ := h.all (List.cons.inj hall).2
    refine ⟨rfl, ?_⟩
    rw [hskip]
    funext n
    show s₁.faults (chunks.length + n) = s.faults (chunks.length + 1 + n)
    rw [hfaults, Faulty.skip_faults]
    congr 1
    omega
  · rw [hcons] at hsome
    obtain ⟨e, rfl⟩ := h.refused fun heq => hsome (congrArg _ heq)
    exact ⟨e, rfl⟩

theorem wp_putAll_faulty (hlen : ∀ d, 2 ≤ (svc.digest d).length) : ∀ (chunks : List Bytes) (s : Faulty),
    (putAll chunks).wp (ofExec (execFaulty svc pg)) (fun r s' => StoresChunks svc chunks s r s') s
  | [], s => by
      refine ⟨rfl, fun x => ⟨Or.inl, fun h => h.elim id ?_⟩, fun _ => rfl, fun _ => ⟨rfl, ?_⟩, ?_⟩
      · rintro ⟨_, hmem, -⟩
        cases hmem
      · simp
      · exact fun h => absurd rfl h
  | chunk :: chunks, s => by
      cases hfault : s.faults 0 with
      | some e =>
          have hnone : storedChunks (chunk :: chunks) s.faults = [] := by
            rw [storedChunks, hfault, if_neg nofun]
          have hexec : execFaulty svc pg (.put chunk) s = (.error e, s.skip 1) :=
            execFaulty_refused hfault rfl
          refine wp_request_bind trivial (fun a s₁ h => ?_) fun e' s₁ h => ?_
          · cases hexec.symm.trans (show execFaulty svc pg (.put chunk) s = (.ok a, s₁) from h)
          · cases hexec.symm.trans (show execFaulty svc pg (.put chunk) s = (.error e', s₁) from h)
            refine ⟨rfl, fun x => ⟨Or.inl, fun h => h.elim id ?_⟩, fun _ => rfl, fun hall => ?_,
              fun _ => ⟨e, rfl⟩⟩
            · rw [hnone]
              rintro ⟨_, hmem, -⟩
              cases hmem
            · rw [hnone] at hall
              cases hall
      | none =>
          refine wp_request_bind trivial (fun hash s₁ h => ?_) fun e' s₁ h => ?_
          swap
          · cases (put_answered hlen hfault h).1
          refine wp_seq (wp_putAll_faulty hlen chunks s₁) (fun hashes s₂ h₂ => ?_) fun e s₂ h₂ => ?_
          · exact StoresChunks.cons hlen hfault h h₂
          · exact StoresChunks.cons hlen hfault h h₂

/-- The store is the same afterwards if there was nothing to store. -/
theorem StoresChunks.untouched_iff {chunks : List Bytes} {r : Except Exn (List Bytes)}
    (h : StoresChunks svc chunks s r s') : Untouched s.world s'.world ↔
      ∀ chunk ∈ storedChunks chunks s.faults, (s.world.store (svc.sha256 chunk)).isSome = true := by
  constructor
  · intro hsame chunk hc
    rw [← hsame.store]
    exact (h.objects _).mpr (Or.inr ⟨chunk, hc, rfl⟩)
  · intro hall
    refine ⟨h.same hall, ?_, ?_⟩ <;> rw [h.tables]

/-! ## The rest of the upload -/

theorem touchesData_of_reads {c : Call} (hc : readOnly c = true) : touchesData c = false := by
  cases c <;> first | rfl | cases hc

/-- Without one of the five calls nothing is touched. -/
theorem wp_untouched {α : Type} {p : App α} {w : World}
    (hp : p.CallsOnly fun c => touchesData c = false) (hs : Untouched w s.world) :
    p.wp (ofExec (execFaulty svc pg)) (fun _ s' => Untouched w s'.world) s :=
  wp_faulty (fun hc h hexec =>
    have hdata := exec_data hc hexec
    h.trans ⟨hdata.1, hdata.2.1, hdata.2.2⟩) hp hs

theorem calls_indexContent (hash : Bytes) :
    (indexContent svc hash).CallsOnly fun c => touchesData c = false :=
  callsOnly_indexContent (fun _ => touchesData_of_reads) svc (fun _ _ => rfl) hash

/-- A committed row is there. -/
theorem fileInsert_ok_touches {file : FileRecord} {t : Bytes} {w w' : World}
    (h : exec svc pg (.fileInsert file) w = (.ok t, w')) : ∃ row, w'.files = w.files ++ [row] := by
  rcases exec_fileInsert_named h with ⟨e, he, -⟩ | ⟨row, _, -, -, -, -, rfl⟩
  · cases he
  · exact ⟨row, rfl⟩

variable (hjson : svc.json.Lawful) (hascii : svc.json.WritesAscii) (hpg : pg.Lawful svc.json)
  (hlen : ∀ d, 2 ≤ (svc.digest d).length)

include hjson in
theorem dump_digests (data : List Bytes) :
    ∃ t, svc.json.dump (hashArray (data.map svc.sha256)) = .ok t := by
  obtain ⟨t, hdump, -⟩ := hjson.dump_flat (hashArray (data.map svc.sha256)) (isFlat_hashArray _) (by
    intro x hx
    have hmem : ∃ d ∈ data, x = svc.sha256 d := by
      simpa [hashArray, Json.texts, Json.scalarText] using hx
    obtain ⟨d, -, rfl⟩ := hmem
    exact validUtf8_sha256 svc d)
  exact ⟨t, hdump⟩

include hjson hascii hpg hlen in
/-- From the first chunk on, nothing is touched exactly when nothing is new. -/
theorem wp_uploadNew_faulty {body filename mimeType userId folderId : Bytes}
    (hunknown : findContentByHash pg s.world (svc.sha256 body) = .ok none) :
    (uploadNew svc body filename mimeType userId folderId (svc.sha256 body)).wp
      (ofExec (execFaulty svc pg))
      (fun _ s' => Untouched s.world s'.world ↔ NothingNew svc pg s body
        { name := filename, size := body.length, hash := svc.sha256 body, mimeType
          ownerId := userId, folderId }) s := by
  refine wp_seq (wp_putAll_faulty hlen _ s) (fun hashes s₁ h₁ => ?_) fun e s₁ h₁ => ?_
  swap
  · -- a chunk is refused
    rw [h₁.untouched_iff, NothingNew, and_iff_left]
    rintro ⟨hall, -⟩
    cases (h₁.all hall).1
  have hall : storedChunks (chunksOf svc.storeChunkSize body) s.faults =
      chunksOf svc.storeChunkSize body := by
    by_contra hrefused
    obtain ⟨e, he⟩ := h₁.refused hrefused
    cases he
  obtain ⟨hhashes, hfaults⟩ := h₁.all hall
  cases hhashes
  obtain ⟨t, hdump⟩ := dump_digests hjson (chunksOf svc.storeChunkSize body)
  have hfault : s₁.faults 0 = s.faults (chunksOf svc.storeChunkSize body).length := by
    rw [hfaults]
    rfl
  -- the insertion that does not commit leaves what the chunks have left
  have hlost : ∀ {s₂ : Faulty} {file : FileRecord}, Untouched s₁.world s₂.world →
      ¬ Commits svc pg s body file →
      (Untouched s.world s₂.world ↔ NothingNew svc pg s body file) := by
    intro s₂ file hsame hnot
    rw [NothingNew, and_iff_left fun h => hnot h.2, ← h₁.untouched_iff]
    exact ⟨fun h => ⟨hsame.store.symm.trans h.store, hsame.contents.symm.trans h.contents,
      hsame.files.symm.trans h.files⟩, fun h => h.trans hsame⟩
  have hcommits : ∀ {file : FileRecord} {r : Except Exn Bytes},
      (exec svc pg (.fileInsert file) s₁.world).1 = r → file.hash = svc.sha256 body →
      file.chunkHashes = t → ((∃ id, r = .ok id) ↔
        Insertable pg { file with chunkHashes := [] } (s.world.uuids 0) (s.world.uuids 1) s.world) := by
    rintro file _ rfl hhash hchunks
    have hmissing : findContentByHash pg s₁.world file.hash = .ok none := by
      rw [hhash, h₁.tables]
      exact hunknown
    rw [fileInsert_commits_iff hjson hascii hpg hmissing (hchunks ▸ hdump), h₁.tables]
    exact ⟨fun h => h.congr rfl rfl rfl rfl rfl rfl rfl rfl,
      fun h => h.congr rfl rfl rfl rfl rfl rfl rfl rfl⟩
  rw [hdump]
  refine wp_request_bind trivial (fun fileId s₂ hexec => ?_) fun e s₂ hexec => ?_
  · -- the row is there from now on
    have hnone : s₁.faults 0 = none := by
      by_contra hsome
      obtain ⟨e, he⟩ := Option.ne_none_iff_exists'.mp hsome
      cases (execFaulty_refused he rfl).symm.trans (show execFaulty svc pg _ s₁ = _ from hexec)
    obtain ⟨hr, rfl⟩ := Prod.mk.inj ((execFaulty_answered (.inl hnone)).symm.trans
      (show execFaulty svc pg _ s₁ = _ from hexec))
    have hinsertable := (hcommits hr rfl rfl).mp ⟨fileId, rfl⟩
    obtain ⟨row, hrow⟩ := fileInsert_ok_touches (Prod.ext hr rfl)
    have hfiles : s₁.world.files = s.world.files := by rw [h₁.tables]
    have hkeep : ∀ {w w' : World} {c : Call} {r : Except Exn c.Resp}, touchesData c = false →
        w.files = s.world.files ++ [row] → exec svc pg c w = (r, w') →
        w'.files = s.world.files ++ [row] :=
      fun hc hw hstep => (exec_data hc hstep).2.2.trans hw
    refine wp_mono (wp_faulty hkeep ?_ ?_) fun r s₃ h₃ => ?_
    · exact callsOnly_bind (calls_indexContent _) fun _ =>
        callsOnly_reads (fun _ => touchesData_of_reads) (reads_setJson svc _)
    · exact hrow.trans (by rw [hfiles])
    · refine iff_of_false (fun hsame => ?_) fun h => h.2 ⟨hall, hfault ▸ hnone, hinsertable⟩
      have hlength := congrArg List.length (h₃.symm.trans hsame.files)
      rw [List.length_append] at hlength
      exact absurd hlength (Nat.succ_ne_self _)
  · cases hs : s₁.faults 0 with
    | some e' =>
        cases (execFaulty_refused hs rfl).symm.trans (show execFaulty svc pg _ s₁ = _ from hexec)
        refine hlost (Untouched.refl _) fun hcommit => ?_
        rw [hfault, hcommit.1] at hs
        cases hs
    | none =>
        obtain ⟨hr, rfl⟩ := Prod.mk.inj ((execFaulty_answered (.inl hs)).symm.trans
          (show execFaulty svc pg _ s₁ = _ from hexec))
        refine hlost ?_ fun hcommit => ?_
        · rcases exec_fileInsert_named (Prod.ext hr rfl) with ⟨e', -, hw⟩ | ⟨row, _, -, -, hok, -⟩
          · have hstore := congrArg World.store hw
            have hcontents := congrArg World.contents hw
            have hfiles := congrArg World.files hw
            exact ⟨hstore, hcontents, hfiles⟩
          · cases hok
        · obtain ⟨id, hid⟩ := (hcommits hr rfl rfl).mpr hcommit.2
          cases hid

include hjson in
/-- A link fails without a trace, or is answered with 200. -/
theorem wp_link_faulty {content : FileRecord} {filename mimeType userId folderId body : Bytes} {w : World}
    (hsize : -(2 ^ 63) ≤ content.size ∧ content.size < 2 ^ 63) (hs : Untouched w s.world) :
    (do
      let fileId ← linkExistingContent content filename mimeType userId folderId
      instantAnswer svc fileId (svc.sha256 body) content.size : App HttpResponse).wp
      (ofExec (execFaulty svc pg)) (fun r s' => accepted r = false → Untouched w s'.world) s := by
  have hname : (makeUniqueName filename userId folderId).CallsOnly fun c => touchesData c = false :=
    callsOnly_reads (fun _ => touchesData_of_reads) (reads_makeUniqueName _ _ _)
  refine wp_seq (M := fun r s' => match r with
    | .ok id => validUtf8 id = true
    | .error _ => Untouched w s'.world) ?_ (fun id s₁ hid => ?_) fun e s₁ h₁ _ => h₁
  · refine wp_seq (wp_untouched hname hs) (fun name s₁ h₁ => ?_) fun e s₁ h₁ => h₁
    refine wp_request.mpr ⟨trivial, fun r s₂ hexec => ?_⟩
    rcases execFaulty_cases hexec with hanswered | ⟨hsame, e, rfl⟩
    · rcases exec_insertLink hanswered with ⟨e, rfl, hw⟩ | ⟨row, -, rfl, -⟩
      · rw [hw]
        exact h₁.trans ⟨rfl, rfl, rfl⟩
      · exact validUtf8_of_ascii fun c hc => (isUuidText_ascii row.id.isText hc).2
    · show Untouched w s₂.world
      rw [hsame]
      exact h₁
  · refine wp_mono (wp_fileAnswer hjson hid hsize) fun r s₂ h₂ hfailed => ?_
    rw [h₂.2] at hfailed
    cases hfailed

include hjson hascii hpg hlen in
/-- The database is asked, and then the content is linked or stored. -/
theorem wp_uploadLookup_faulty {body filename mimeType userId folderId : Bytes}
    (hsizes : BigintSizes s.world) :
    (uploadLookup svc body filename mimeType userId folderId (svc.sha256 body)).wp
      (ofExec (execFaulty svc pg))
      (fun r s' => accepted r = false → (Untouched s.world s'.world ↔
        (findContentByHash pg s.world (svc.sha256 body) = .ok none → s.faults 0 = none →
          NothingNew svc pg (s.skip 1) body
            { name := filename, size := body.length, hash := svc.sha256 body, mimeType
              ownerId := userId, folderId }))) s := by
  refine wp_query_bind rfl (fun found hfault hfound => ?_) fun e herr _ => ?_
  · have hanswer : findContentByHash pg s.world (svc.sha256 body) = .ok found := hfound
    cases found with
    | none =>
        refine wp_mono (wp_uploadNew_faulty (s := s.skip 1) hjson hascii hpg hlen hanswer) ?_
        exact fun r s' h _ => h.trans ⟨fun h _ _ => h, fun h => h hanswer hfault⟩
    | some record =>
        obtain ⟨c, hc, -, rfl⟩ := findContentByHash_some hanswer
        have hcalm : (rememberHash svc (svc.sha256 body) c.id.text).CallsOnly
            fun c => touchesData c = false := callsOnly_rememberHash svc (fun _ _ => rfl) _ _
        refine wp_seq (M := fun _ s₁ => Untouched s.world s₁.world)
          (wp_untouched (s := s.skip 1) hcalm ⟨rfl, rfl, rfl⟩) (fun _ s₁ h₁ => ?_) fun e s₁ h₁ _ => ?_
        · refine wp_mono (wp_link_faulty hjson (hsizes c hc) h₁) fun r s' h hfailed => ?_
          exact iff_of_true (h hfailed) fun hnone => by rw [hanswer] at hnone; cases hnone
        · exact iff_of_true h₁ fun hnone => by rw [hanswer] at hnone; cases hnone
  · refine iff_of_true (Untouched.refl _) fun hnone hfault => ?_
    have herror : findContentByHash pg s.world (svc.sha256 body) = .error e := herr hfault
    rw [herror] at hnone
    cases hnone

include hjson hascii hpg hlen in
theorem wp_uploadContent_faulty {body filename mimeType userId folderId : Bytes}
    (hsizes : BigintSizes s.world) :
    (uploadContent svc body filename mimeType userId folderId).wp (ofExec (execFaulty svc pg))
      (fun r s' => accepted r = false → (Untouched s.world s'.world ↔
        (Unknown svc pg s (svc.sha256 body) →
          NothingNew svc pg (s.skip (callsBefore svc s (svc.sha256 body) + 1)) body
            { name := filename, size := body.length, hash := svc.sha256 body, mimeType
              ownerId := userId, folderId }))) s := by
  -- the lookup comes after `n` calls: the one of Redis, and the one its hint leads to
  have hlookup : ∀ n, seenInRedis svc s (svc.sha256 body) = false ∧ (n = 0 ∨ n = 1) ∨ n = 2 →
      callsBefore svc s (svc.sha256 body) = n → (n = 2 → s.faults 1 = none) →
      (uploadLookup svc body filename mimeType userId folderId (svc.sha256 body)).wp
        (ofExec (execFaulty svc pg))
        (fun r s' => accepted r = false → (Untouched s.world s'.world ↔
          (Unknown svc pg s (svc.sha256 body) →
            NothingNew svc pg (s.skip (callsBefore svc s (svc.sha256 body) + 1)) body
              { name := filename, size := body.length, hash := svc.sha256 body, mimeType
                ownerId := userId, folderId }))) (s.skip n) := by
    intro n hn hcalls hhint
    refine wp_mono (wp_uploadLookup_faulty (s := s.skip n) hjson hascii hpg hlen hsizes) ?_
    intro r s' h hfailed
    refine (h hfailed).trans ?_
    rw [Faulty.skip_skip, Faulty.skip_faults, hcalls]
    constructor
    · intro h hunknown
      exact h hunknown.missing (hcalls ▸ hunknown.answered)
    · intro h hmissing hanswered
      refine h ⟨hmissing, hcalls ▸ hanswered, fun hseen => ?_⟩
      rcases hn with ⟨hnot, -⟩ | rfl
      · rw [hnot] at hseen
        cases hseen
      · exact hhint rfl
  unfold uploadContent
  dsimp only
  by_cases hredis : svc.hasRedis = true
  swap
  · have hseen : seenInRedis svc s (svc.sha256 body) = false := by
      rw [seenInRedis, Bool.eq_false_iff.mpr hredis]
      rfl
    rw [if_neg hredis]
    have h := hlookup 0 (.inl ⟨hseen, .inl rfl⟩) (by rw [callsBefore, hseen]; simp [hredis]) nofun
    rwa [Faulty.skip_zero] at h
  rw [if_pos hredis]
  -- a failing `GET` is answered like a missing key
  have hreply : execFaulty svc pg (.redisGet (hashKey (svc.sha256 body))) s =
      (.ok (if s.faults 0 = none then redisGet s.world (hashKey (svc.sha256 body)) else none),
        s.skip 1) := by
    cases hfault : s.faults 0 with
    | none =>
        rw [execFaulty_answered (.inl hfault), if_pos rfl]
        rfl
    | some e =>
        rw [execFaulty_refused hfault rfl, if_neg nofun]
        rfl
  refine wp_request_bind trivial (fun cached s₁ hexec => ?_) fun e s₁ hexec => ?_
  swap
  · cases hreply.symm.trans (show execFaulty svc pg _ s = _ from hexec)
  obtain ⟨hcached, rfl⟩ := Prod.mk.inj (hreply.symm.trans (show execFaulty svc pg _ s = _ from hexec))
  have hseen : seenInRedis svc s (svc.sha256 body) = cached.isSome := by
    rw [← Except.ok.inj hcached, seenInRedis, hredis]
    by_cases hfault : s.faults 0 = none
    · simp [hfault]
    · simp [hfault]
  cases cached with
  | none =>
      exact hlookup 1 (.inl ⟨hseen, .inr rfl⟩) (by rw [callsBefore, hseen]; simp [hredis]) nofun
  | some text =>
      have hcalls : callsBefore svc s (svc.sha256 body) = 2 := by
        rw [callsBefore, hseen]
        rfl
      refine wp_query_bind rfl (fun found hfault hfound => ?_) fun e herr _ => ?_
      · have hanswer : findContentByHash pg s.world (svc.sha256 body) = .ok found := hfound
        cases found with
        | none =>
            have h := hlookup 2 (.inr rfl) hcalls fun _ => hfault
            rwa [show s.skip 2 = (s.skip 1).skip 1 from (Faulty.skip_skip s 1 1).symm] at h
        | some record =>
            obtain ⟨c, hc, -, rfl⟩ := findContentByHash_some hanswer
            refine wp_mono (wp_link_faulty (s := (s.skip 1).skip 1) hjson (hsizes c hc) ⟨rfl, rfl, rfl⟩)
              fun r s' h hfailed => ?_
            refine iff_of_true (h hfailed) fun hunknown => ?_
            rw [hunknown.missing] at hanswer
            cases hanswer
      · refine iff_of_true ⟨rfl, rfl, rfl⟩ fun hunknown => ?_
        have herror : findContentByHash pg s.world (svc.sha256 body) = .error e :=
          herr (hunknown.hinted (by rw [hseen]; rfl))
        rw [hunknown.missing] at herror
        cases herror

/-- The folder an upload names is there and is the user's. -/
def FolderFound (pg : Postgres) (s : Faulty) (req : HttpRequest) (userId : Bytes) : Prop :=
  req.getHeader (ascii "X-Folder-Id") = [] ∨ s.faults 0 = none ∧ ∃ f,
    folderFindById pg s.world (req.getHeader (ascii "X-Folder-Id")) = .ok (some f) ∧
      f.ownerId = userId

/-- The folder that an upload names is answered, or nothing has changed and it is not found. -/
def FolderAnswered (pg : Postgres) (s : Faulty) (req : HttpRequest) (userId : Bytes) :
    Except Exn (Answered Bytes) → Faulty → Prop
  | .ok (.ok id), s' => id = req.getHeader (ascii "X-Folder-Id") ∧
      s' = s.skip (folderCalls req) ∧ FolderFound pg s req userId
  | _, s' => Untouched s.world s'.world ∧ ¬ FolderFound pg s req userId

theorem wp_resolveFolderId_faulty (req : HttpRequest) (userId : Bytes) :
    (resolveFolderId svc (req.getHeader (ascii "X-Folder-Id")) userId).wp
      (ofExec (execFaulty svc pg)) (FolderAnswered pg s req userId) s := by
  unfold resolveFolderId
  by_cases hempty : req.getHeader (ascii "X-Folder-Id") = []
  · rw [if_pos hempty]
    refine ⟨hempty.symm, ?_, .inl hempty⟩
    rw [folderCalls, if_pos hempty, Faulty.skip_zero]
  rw [if_neg hempty]
  have hrefused : ¬ FolderFound pg s req userId → ∀ {code : Int} {msg : Bytes}, (do
        let resp ← svc.setError code msg
        return .error resp : App (Answered Bytes)).wp (ofExec (execFaulty svc pg))
      (FolderAnswered pg s req userId) (s.skip 1) := by
    intro hnot code msg
    refine wp_seq (M := fun _ s₁ => Untouched s.world s₁.world) (wp_untouched (s := s.skip 1)
      (callsOnly_reads (fun _ => touchesData_of_reads) (reads_setError svc _ _)) ⟨rfl, rfl, rfl⟩) ?_ ?_
    · exact fun _ _ h => ⟨h, hnot⟩
    · exact fun _ _ h => ⟨h, hnot⟩
  refine wp_query_bind rfl (fun found hfault hfound => ?_) fun e herr => ?_
  · have hanswer : folderFindById pg s.world (req.getHeader (ascii "X-Folder-Id")) = .ok found :=
      hfound
    cases found with
    | none =>
        refine hrefused ?_
        rintro (h | ⟨-, f, hf, -⟩)
        · exact hempty h
        · rw [hanswer] at hf
          cases hf
    | some f =>
        dsimp only
        by_cases howner : f.ownerId = userId
        · rw [if_neg (fun h => h howner)]
          refine ⟨rfl, ?_, .inr ⟨hfault, f, hanswer, howner⟩⟩
          rw [folderCalls, if_neg hempty]
        · rw [if_pos howner]
          refine hrefused ?_
          rintro (h | ⟨-, f', hf', howner'⟩)
          · exact hempty h
          · rw [hanswer] at hf'
            cases hf'
            exact howner howner'
  · refine ⟨⟨rfl, rfl, rfl⟩, ?_⟩
    rintro (h | ⟨hfault, f, hf, -⟩)
    · exact hempty h
    · have herror : folderFindById pg s.world (req.getHeader (ascii "X-Folder-Id")) = .error e :=
        herr hfault
      rw [herror] at hf
      cases hf

include hjson hascii hpg hlen in
/-- **What a failed upload leaves behind**: nothing, exactly when the request is none for which
chunks are stored, or those stored before the failure were there already and no row is
committed. -/
theorem leaves_nothing_iff (hsizes : BigintSizes s.world) {req : HttpRequest} {userId : Bytes}
    {r : Except Exn HttpResponse}
    (hrun : (handleSingleUpload svc req userId).run (execFaulty svc pg) s = (r, s'))
    (hfailed : accepted r = false) : Untouched s.world s'.world ↔
      (Stores svc pg s req userId →
        NothingNew svc pg (atFirstChunk svc s req) req.body (uploadRecord svc req userId)) := by
  have hkept : ∀ {s₁ : Faulty}, Untouched s.world s₁.world → ¬ Stores svc pg s req userId →
      (Untouched s.world s₁.world ↔ (Stores svc pg s req userId →
        NothingNew svc pg (atFirstChunk svc s req) req.body (uploadRecord svc req userId))) :=
    fun hsame hnot => iff_of_true hsame fun hstores => absurd hstores hnot
  have herr : ∀ {code : Int} {msg : Bytes}, ¬ Stores svc pg s req userId →
      (svc.setError code msg).wp (ofExec (execFaulty svc pg)) (fun r s' => accepted r = false →
        (Untouched s.world s'.world ↔ (Stores svc pg s req userId →
          NothingNew svc pg (atFirstChunk svc s req) req.body (uploadRecord svc req userId)))) s := by
    intro code msg hnot
    refine wp_mono (wp_untouched (callsOnly_reads (fun _ => touchesData_of_reads)
      (reads_setError svc code msg)) (Untouched.refl _)) fun r s₂ h₂ _ => hkept h₂ hnot
  have hwp : (handleSingleUpload svc req userId).wp (ofExec (execFaulty svc pg))
      (fun r s' => accepted r = false → (Untouched s.world s'.world ↔
        (Stores svc pg s req userId →
          NothingNew svc pg (atFirstChunk svc s req) req.body (uploadRecord svc req userId)))) s := by
    unfold handleSingleUpload
    by_cases hbody : req.body = []
    · rw [if_pos hbody]
      exact herr fun hstores => hstores.body hbody
    rw [if_neg hbody]
    by_cases hsize : svc.oversized req.body.length = true
    · rw [if_pos hsize]
      exact herr fun hstores => by rw [hstores.size] at hsize; cases hsize
    rw [if_neg hsize]
    refine wp_seq (wp_resolveFolderId_faulty req userId) (fun folder s₁ h₁ => ?_)
      fun e s₁ h₁ _ => hkept h₁.1 fun hstores => h₁.2 hstores.folder
    cases folder with
    | error resp => exact fun _ => hkept h₁.1 fun hstores => h₁.2 hstores.folder
    | ok id =>
        obtain ⟨rfl, rfl, hfolder⟩ := h₁
        refine wp_mono (wp_uploadContent_faulty (s := s.skip (folderCalls req)) hjson hascii hpg hlen
          hsizes) fun r s' h hnot => (h hnot).trans ?_
        exact ⟨fun h hstores => h hstores.unknown,
          fun h hunknown => h ⟨hbody, Bool.eq_false_iff.mpr hsize, hfolder, hunknown⟩⟩
  rw [wp_ofExec, hrun] at hwp
  exact hwp hfailed

end Upload

end SolarDrive.Runs
