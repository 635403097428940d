import SolarDrive.Api.ReadOnly
import SolarDrive.Metadata.Exec

/-!
# What each call does to the world

One inversion lemma per call that changes something, saying everything it can
do, and `exec_readOnly` for all the others. The invariants of the following
modules are derived from these and do not unfold a query again.
-/

namespace SolarDrive.Metadata

open Lib Api

/-! ## Parameters -/

theorem isUuidText_ascii {t : Bytes} (h : isUuidText t = true) {c : UInt8} (hc : c ∈ t) :
    c ≠ NUL ∧ c < 0x80 := by
  rw [isUuidText, Bool.and_eq_true, List.all_eq_true] at h
  obtain ⟨i, hi, rfl⟩ := List.mem_iff_getElem.mp hc
  have hp := h.2 (t[i], i) (List.mem_zipIdx_iff_getElem?.mpr (List.getElem?_eq_getElem hi))
  have hclass : t[i] = DASH ∨ (48 ≤ t[i] ∧ t[i] ≤ 57) ∨ (97 ≤ t[i] ∧ t[i] ≤ 102) := by
    dsimp only at hp
    split at hp
    · exact Or.inl (by simpa using hp)
    · simp only [isDigit, Bool.or_eq_true, Bool.and_eq_true, decide_eq_true_eq] at hp
      exact Or.inr hp
  generalize t[i] = b at hclass
  simp only [UInt8.le_iff_toNat_le, UInt8.lt_iff_toNat_lt, ← UInt8.toNat_inj, ne_eq] at hclass ⊢
  have h45 : DASH.toNat = 45 := rfl
  have h48 : (48 : UInt8).toNat = 48 := rfl
  have h57 : (57 : UInt8).toNat = 57 := rfl
  have h97 : (97 : UInt8).toNat = 97 := rfl
  have h102 : (102 : UInt8).toNat = 102 := rfl
  have h128 : (0x80 : UInt8).toNat = 128 := rfl
  have h0 : NUL.toNat = 0 := rfl
  omega

theorem Uuid.text_ne_nil (u : Uuid) : u.text ≠ [] := by
  intro h
  have hu := u.isText
  rw [h] at hu
  exact absurd hu (by decide)

theorem Uuid.text_injective {u v : Uuid} (h : u.text = v.text) : u = v := by
  cases u
  cases v
  cases h
  rfl

section Params

variable {pg : Postgres}

theorem textParam_ok {t u : Bytes} : pg.textParam t = .ok u ↔ validUtf8 (cstr t) = true ∧ u = cstr t := by
  unfold Postgres.textParam
  split
  · rename_i h
    constructor
    · rintro ⟨⟩
      exact ⟨h, rfl⟩
    · rintro ⟨-, rfl⟩
      rfl
  · rename_i h
    constructor
    · rintro ⟨⟩
    · rintro ⟨h', -⟩
      exact absurd h' h

theorem require_ok {b : Bool} {e : PgError} {u : Unit} : pg.require b e = .ok u ↔ b = true := by
  cases b
  · constructor <;> rintro ⟨⟩
  · exact ⟨fun _ => rfl, fun _ => rfl⟩

theorem uuidParam_ok {t : Bytes} {u : Uuid} :
    pg.uuidParam t = .ok u ↔ validUtf8 (cstr t) = true ∧ pg.uuidIn (cstr t) = some u := by
  unfold Postgres.uuidParam
  rw [bind_eq_ok]
  constructor
  · rintro ⟨x, hx, hu⟩
    obtain ⟨hv, rfl⟩ := textParam_ok.mp hx
    cases hin : pg.uuidIn (cstr t) with
    | none => rw [hin] at hu; cases hu
    | some v =>
        rw [hin] at hu
        cases hu
        exact ⟨hv, rfl⟩
  · rintro ⟨hv, hu⟩
    refine ⟨cstr t, textParam_ok.mpr ⟨hv, rfl⟩, ?_⟩
    rw [hu]
    rfl

/-- An id is found again through its text. -/
theorem uuidParam_text {json : JsonLib} (hpg : pg.Lawful json) (u : Uuid) :
    pg.uuidParam u.text = .ok u := by
  have hascii : ∀ c ∈ u.text, c ≠ NUL ∧ c < 0x80 := fun c hc => isUuidText_ascii u.isText hc
  have hcstr : cstr u.text = u.text := cstr_of_not_mem fun h => (hascii _ h).1 rfl
  rw [uuidParam_ok, hcstr]
  exact ⟨validUtf8_of_ascii fun c hc => (hascii c hc).2, hpg.uuidIn_text u⟩

/-! ## Digests -/

variable (svc : Services)

theorem textParam_of_ascii {t : Bytes} (h : ∀ c ∈ t, c ≠ NUL ∧ c < 0x80) :
    pg.textParam t = .ok t := by
  have hcstr : cstr t = t := cstr_of_not_mem fun hn => (h _ hn).1 rfl
  rw [textParam_ok, hcstr]
  exact ⟨validUtf8_of_ascii fun c hc => (h c hc).2, rfl⟩

theorem textParam_sha256 (d : Bytes) : pg.textParam (svc.sha256 d) = .ok (svc.sha256 d) :=
  textParam_of_ascii fun _ hc => mem_hexBytes hc

theorem validUtf8_sha256 (d : Bytes) : validUtf8 (svc.sha256 d) = true :=
  validUtf8_of_ascii fun _ hc => (mem_hexBytes hc).2

theorem nul_not_mem_sha256 (d : Bytes) : NUL ∉ svc.sha256 d := fun h => (mem_hexBytes h).1 rfl

theorem listsChunk_hashArray {hs : List Bytes} {h : Bytes} :
    listsChunk (hashArray hs) h = true ↔ h ∈ hs := by
  simp [listsChunk, hashArray]

theorem isFlat_hashArray (hs : List Bytes) : (hashArray hs).isFlat = true := by
  simp [hashArray, Json.isFlat, Json.isScalar]

/-- The text of an array of digests is taken as that array. -/
theorem jsonbParam_dump (hjson : svc.json.Lawful) (hpg : pg.Lawful svc.json) {data : List Bytes}
    {t : Bytes} {j : Json} (hd : svc.json.dump (hashArray (data.map svc.sha256)) = .ok t)
    (hj : pg.jsonbParam t = .ok j) : j = hashArray (data.map svc.sha256) := by
  have hnul := (hjson.parse_dump (isFlat_hashArray _) hd).1
  simp only [Postgres.jsonbParam, bind_eq_ok] at hj
  obtain ⟨u, hu, hj⟩ := hj
  obtain ⟨-, rfl⟩ := textParam_ok.mp hu
  rw [cstr_of_not_mem hnul] at hj
  have hin := hpg.jsonbIn_dump (data.map svc.sha256) t (by
    intro h hh
    obtain ⟨d, -, rfl⟩ := List.mem_map.mp hh
    exact nul_not_mem_sha256 svc d) hd
  rw [hin] at hj
  exact (Except.ok.inj hj).symm

theorem parse_jsonbOut_digests (hpg : pg.Lawful svc.json) (data : List Bytes) :
    svc.json.parse (pg.jsonbOut (hashArray (data.map svc.sha256))) =
      .ok (hashArray (data.map svc.sha256)) := by
  apply hpg.parse_jsonbOut
  intro h hh
  obtain ⟨d, -, rfl⟩ := List.mem_map.mp hh
  exact validUtf8_sha256 svc d

theorem parseChunkHashes_digests (hpg : pg.Lawful svc.json) (data : List Bytes) :
    parseChunkHashes svc.json (pg.jsonbOut (hashArray (data.map svc.sha256))) =
      some (data.map svc.sha256) := by
  rw [parseChunkHashes, parse_jsonbOut_digests svc hpg]
  simp [hashArray, List.filterMap_map, Function.comp_def]

end Params

/-! ## Calls that change nothing -/

theorem exec_readOnly {svc : Services} {pg : Postgres} {c : Call} (hc : readOnly c = true)
    (w : World) : ∃ draws, (exec svc pg c w).2 = { w with draws } := by
  cases c with
  | draw => exact ⟨_, rfl⟩
  | _ => first | exact ⟨w.draws, rfl⟩ | cases hc

theorem exec_jsonParse {svc : Services} {pg : Postgres} {w : World} {text : Bytes} {j : Json}
    (hparse : svc.json.parse text = .ok j) : exec svc pg (.jsonParse text) w = (.ok j, w) := by
  rw [exec, hparse]

/-- A transaction commits its result, or throws and leaves what was there. -/
theorem commit_cases {α : Type} {x : Except Exn (α × World)} {w w' : World} {r : Except Exn α}
    (h : commit w x = (r, w')) :
    (∃ e, r = .error e ∧ w' = w) ∨ ∃ a, x = .ok (a, w') ∧ r = .ok a := by
  cases x with
  | error e =>
      cases h
      exact Or.inl ⟨e, rfl, rfl⟩
  | ok p =>
      cases h
      exact Or.inr ⟨p.1, rfl, rfl⟩

/-! ## Files -/

section Files

variable {svc : Services} {pg : Postgres} {w w' : World}

theorem findContentByHash_some {hash : Bytes} {record : FileRecord}
    (h : findContentByHash pg w hash = .ok (some record)) :
    ∃ c ∈ w.contents, pg.textParam hash = .ok c.hash ∧ record =
      { contentId := c.id.text, id := c.id.text, size := c.size, hash := c.hash
        chunkHashes := pg.jsonbOut c.chunkHashes, mimeType := c.mimeType } := by
  simp only [findContentByHash, contentFindByHash, bind_eq_ok] at h
  obtain ⟨content, ⟨text, htext, hret⟩, hmap⟩ := h
  cases hret
  obtain ⟨record', hrecord', rfl⟩ := Option.map_eq_some_iff.mp (Except.ok.inj hmap)
  obtain ⟨c, hc, rfl⟩ := Option.map_eq_some_iff.mp hrecord'
  have hhash : c.hash = text := by simpa using List.find?_some hc
  exact ⟨c, List.mem_of_find?_eq_some hc, hhash ▸ htext, rfl⟩

theorem findContentByHash_none {hash : Bytes}
    (h : findContentByHash pg w hash = .ok none) :
    ∃ text, pg.textParam hash = .ok text ∧ ∀ c ∈ w.contents, c.hash ≠ text := by
  simp only [findContentByHash, contentFindByHash, bind_eq_ok] at h
  obtain ⟨content, ⟨text, htext, hret⟩, hmap⟩ := h
  cases hret
  refine ⟨text, htext, fun c hc heq => ?_⟩
  have hnone : w.contents.find? (fun c => decide (c.hash = text)) = none :=
    Option.map_eq_none_iff.mp (Option.map_eq_none_iff.mp (Except.ok.inj hmap))
  exact List.find?_eq_none.mp hnone c hc (decide_eq_true heq)

/-- The row `INSERT INTO files` adds. -/
structure Inserted (pg : Postgres) (file : FileRecord) (contentId : Bytes) (w : World)
    (row : FileRow) : Prop where
  ownerId : pg.uuidParam file.ownerId = .ok row.ownerId
  contentId : pg.uuidParam contentId = .ok row.contentId
  live : row.live = true
  fresh : ∀ f ∈ w.files, f.id ≠ row.id
  content : (w.findContent row.contentId).isSome = true

theorem insertFileRow_ok {file : FileRecord} {contentId : Bytes} {id : Uuid} {t : Bytes}
    (h : insertFileRow pg file contentId id w = .ok (t, w')) :
    ∃ row, Inserted pg file contentId w row ∧ row.id = id ∧ t = row.id.text ∧
      w' = { w with files := w.files ++ [row] } := by
  simp only [insertFileRow, bind_eq_ok, require_ok] at h
  obtain ⟨name, hname, owner, howner, folder, hfolder, content, hcontent, _, hid, _, hindex, _,
    huser, _, hfk, _, hrow, hret⟩ := h
  cases hret
  refine ⟨_, ⟨howner, hcontent, rfl, ?_, hrow⟩, rfl, rfl, rfl⟩
  intro f hf heq
  simp only [Bool.not_eq_true', List.any_eq_false, decide_eq_true_eq] at hid
  exact hid f hf heq

theorem exec_insertLink {file : FileRecord} {contentId : Bytes} {r : Except Exn Bytes}
    (h : exec svc pg (.insertLink file contentId) w = (r, w')) :
    (∃ e, r = .error e ∧ w' = w.skipUuids) ∨
      ∃ row, Inserted pg file contentId w row ∧ r = .ok row.id.text ∧
        w' = { w.skipUuids with files := w.files ++ [row] } := by
  rcases commit_cases h with herr | ⟨t, hins, rfl⟩
  · exact Or.inl herr
  · simp only [insertLink, bind_eq_ok] at hins
    obtain ⟨_, -, hins⟩ := hins
    split at hins
    · cases hins
    · obtain ⟨row, hrow, -, rfl, rfl⟩ := insertFileRow_ok hins
      exact Or.inr ⟨row, ⟨hrow.1, hrow.2, hrow.3, hrow.4, hrow.5⟩, rfl, rfl⟩

/-- The content row a new file refers to: the one with its hash, or a new one. -/
inductive Ensured (pg : Postgres) (file : FileRecord) (w : World) :
    List ContentRow → ContentRow → Prop
  | found {c : ContentRow} : pg.textParam file.hash = .ok c.hash → c ∈ w.contents →
      Ensured pg file w w.contents c
  | created {c : ContentRow} : pg.textParam file.hash = .ok c.hash →
      pg.jsonbParam file.chunkHashes = .ok c.chunkHashes → c.size = file.size →
      (∀ d ∈ w.contents, d.id ≠ c.id ∧ d.hash ≠ c.hash) → Ensured pg file w (w.contents ++ [c]) c

theorem ensureInTxn_ok (file : FileRecord) {content : ContentRecord} {id : Uuid} {t : Bytes}
    (hhash : content.hash = file.hash) (hchunks : content.chunkHashes = file.chunkHashes)
    (hsize : content.size = file.size) (h : ensureInTxn pg content id w = .ok (t, w')) :
    ∃ contents c, Ensured pg file w contents c ∧ t = c.id.text ∧ w' = { w with contents } := by
  simp only [ensureInTxn, bind_eq_ok] at h
  obtain ⟨hash, hparam, h⟩ := h
  rw [hhash] at hparam
  cases hfind : w.contents.find? (fun c => decide (c.hash = hash)) with
  | some c =>
      rw [hfind] at h
      cases h
      have hc : c.hash = hash := by simpa using List.find?_some hfind
      exact ⟨w.contents, c, .found (hc ▸ hparam) (List.mem_of_find?_eq_some hfind), rfl, rfl⟩
  | none =>
      rw [hfind] at h
      simp only [bind_eq_ok, require_ok, newContent] at h
      obtain ⟨row, ⟨hash', hparam', chunks, hjson, mime, -, hrow⟩, _, hfree, hret⟩ := h
      cases hrow
      cases hret
      rw [hhash, hparam] at hparam'
      cases hparam'
      refine ⟨_, _, .created hparam (hchunks ▸ hjson) hsize fun d hd => ⟨fun heq => ?_, ?_⟩, rfl, rfl⟩
      swap
      · simpa using List.find?_eq_none.mp hfind d hd
      simp only [World.findContent, Option.isNone_iff_eq_none, List.find?_eq_none,
        decide_eq_true_eq] at hfree
      exact hfree d hd heq

theorem exec_fileInsert (hpg : pg.Lawful svc.json) {file : FileRecord} {r : Except Exn Bytes}
    (h : exec svc pg (.fileInsert file) w = (r, w')) :
    (∃ e, r = .error e ∧ w' = w.skipUuids) ∨
      ∃ row contents c, Ensured pg file w contents c ∧ row.contentId = c.id ∧
        Inserted pg file c.id.text { w with contents } row ∧ r = .ok row.id.text ∧
        w' = { w.skipUuids with contents, files := w.files ++ [row] } := by
  rcases commit_cases h with herr | ⟨t, hins, rfl⟩
  · exact Or.inl herr
  · simp only [fileInsert, bind_eq_ok] at hins
    obtain ⟨_, -, ⟨cid, w₂⟩, htxn, hins⟩ := hins
    obtain ⟨contents, c, hens, rfl, rfl⟩ := ensureInTxn_ok file rfl rfl rfl htxn
    obtain ⟨row, hrow, -, rfl, rfl⟩ := insertFileRow_ok hins
    have hid : row.contentId = c.id := by
      have hparam := hrow.contentId
      rw [uuidParam_text hpg] at hparam
      exact (Except.ok.inj hparam).symm
    refine Or.inr ⟨row, contents, c, ?_, hid, ⟨hrow.1, hrow.2, hrow.3, hrow.4, hrow.5⟩, rfl, rfl⟩
    cases hens with
    | found h₁ h₂ => exact .found h₁ h₂
    | created h₁ h₂ h₃ h₄ => exact .created h₁ h₂ h₃ h₄

theorem exec_fileSoftDelete {id : Bytes} {r : Except Exn Unit}
    (h : exec svc pg (.fileSoftDelete id) w = (r, w')) :
    (∃ e, r = .error e ∧ w' = w) ∨
      ∃ u, pg.uuidParam id = .ok u ∧ r = .ok () ∧
        w' = { w with
          files := w.files.map fun f =>
            if f.id = u then { f with deletedAt := some w.sqlNow } else f } := by
  rcases commit_cases h with herr | ⟨_, hdel, rfl⟩
  · exact Or.inl herr
  · simp only [fileSoftDelete, bind_eq_ok] at hdel
    obtain ⟨u, hu, hret⟩ := hdel
    cases hret
    exact Or.inr ⟨u, hu, rfl, rfl⟩

end Files

/-! ## Users, folders, shares -/

section Others

variable {svc : Services} {pg : Postgres} {w w' : World}

theorem exec_registerUser {username password : Bytes} {r : Except Exn (Option Bytes)}
    (h : exec svc pg (.registerUser username password) w = (r, w')) :
    ∃ users, w' = { w.skipUuids with users } := by
  rcases commit_cases h with ⟨e, -, rfl⟩ | ⟨a, hreg, -⟩
  · exact ⟨w.users, rfl⟩
  · simp only [registerUser, bind_eq_ok] at hreg
    obtain ⟨name, -, hreg⟩ := hreg
    split at hreg
    · cases hreg
      exact ⟨w.users, rfl⟩
    · cases hreg
      exact ⟨_, rfl⟩

/-- The row `INSERT INTO folders` adds. -/
structure NewFolder (pg : Postgres) (folder : FolderRecord) (w : World) (row : FolderRow) : Prop where
  ownerId : pg.uuidParam folder.ownerId = .ok row.ownerId
  parentId : pg.optionalUuid folder.parentId = .ok row.parentId
  fresh : ∀ f ∈ w.folders, f.id ≠ row.id

theorem exec_folderInsert {folder : FolderRecord} {r : Except Exn Bytes}
    (h : exec svc pg (.folderInsert folder) w = (r, w')) :
    w' = w.skipUuids ∨
      ∃ row, NewFolder pg folder w row ∧
        w' = { w.skipUuids with folders := w.folders ++ [row] } := by
  rcases commit_cases h with ⟨e, -, rfl⟩ | ⟨t, hins, -⟩
  · exact Or.inl rfl
  · simp only [folderInsert, bind_eq_ok, require_ok] at hins
    obtain ⟨name, -, owner, howner, parent, hparent, _, hid, _, -, _, -, _, -, hret⟩ := hins
    cases hret
    refine Or.inr ⟨_, ⟨howner, hparent, fun f hf heq => ?_⟩, rfl⟩
    simp only [Bool.not_eq_true', List.any_eq_false, decide_eq_true_eq] at hid
    exact hid f hf heq

theorem exec_folderSoftDelete {id : Bytes} {r : Except Exn Unit}
    (h : exec svc pg (.folderSoftDelete id) w = (r, w')) :
    w' = w ∨ ∃ u, pg.uuidParam id = .ok u ∧ w' = { w with
      folders := w.folders.map fun f =>
        if f.id = u then { f with deletedAt := some w.sqlNow } else f } := by
  rcases commit_cases h with ⟨e, -, rfl⟩ | ⟨_, hdel, -⟩
  · exact Or.inl rfl
  · simp only [folderSoftDelete, bind_eq_ok] at hdel
    obtain ⟨u, hu, hret⟩ := hdel
    cases hret
    exact Or.inr ⟨u, hu, rfl⟩

/-- A folder with a new name is where it was, and whose it was. -/
theorem exec_folderRename {id name : Bytes} {r : Except Exn Bool}
    (h : exec svc pg (.folderRename id name) w = (r, w')) :
    w' = w ∨ ∃ (u : Uuid) (g : FolderRow → FolderRow), pg.uuidParam id = .ok u ∧
      (∀ f, (g f).id = f.id ∧ (g f).ownerId = f.ownerId ∧ (g f).parentId = f.parentId ∧
        (g f).live = f.live) ∧
      w' = { w with folders := w.folders.map fun f => if f.id = u then g f else f } := by
  rcases commit_cases h with ⟨e, -, rfl⟩ | ⟨_, hren, -⟩
  · exact Or.inl rfl
  · simp only [folderRename, bind_eq_ok, require_ok] at hren
    obtain ⟨u, hu, text, -, _, -, hret⟩ := hren
    cases hret
    refine Or.inr ⟨u, fun f => if f.live then { f with name := text } else f, hu, ?_, ?_⟩
    · intro f
      dsimp only
      split <;> exact ⟨rfl, rfl, rfl, rfl⟩
    · congr 1
      apply List.map_congr_left
      intro f _
      by_cases hf : f.id = u <;> simp [hf]

/-- The row `INSERT INTO file_shares` adds. -/
structure NewShare (pg : Postgres) (record : ShareRecord) (w : World) (row : ShareRow) : Prop where
  fileId : pg.uuidParam record.fileId = .ok row.fileId
  ownerId : pg.uuidParam record.ownerId = .ok row.ownerId
  shareToken : pg.textParam record.shareToken = .ok row.shareToken
  passwordHash : ∃ hash, pg.textParam record.passwordHash = .ok hash ∧
    row.passwordHash = nullIfEmpty hash
  expiresAt : expiryParam pg record.expiresAt = .ok row.expiresAt
  maxDownloads : row.maxDownloads = record.maxDownloads
  downloadCount : row.downloadCount = 0
  inForce : row.isRevoked = false
  fresh : ∀ s ∈ w.shares, s.shareToken ≠ row.shareToken

theorem exec_shareInsert {record : ShareRecord} {r : Except Exn Bytes}
    (h : exec svc pg (.shareInsert record) w = (r, w')) :
    w' = w.skipUuids ∨
      ∃ row, NewShare pg record w row ∧ w' = { w.skipUuids with shares := w.shares ++ [row] } := by
  rcases commit_cases h with ⟨e, -, rfl⟩ | ⟨t, hins, -⟩
  · exact Or.inl rfl
  · simp only [shareInsert, bind_eq_ok, require_ok] at hins
    obtain ⟨file, hfile, owner, howner, token, htoken, pass, hpass, expires, hexpires, _, -, _, -, _,
      htaken, _, -, _, -, hret⟩ := hins
    cases hret
    refine Or.inr ⟨_, ⟨hfile, howner, htoken, ⟨pass, hpass, rfl⟩, hexpires, rfl, rfl, rfl, ?_⟩, rfl⟩
    intro s hs heq
    simp only [Bool.not_eq_true', List.any_eq_false, decide_eq_true_eq] at htaken
    exact htaken s hs heq

/-- The shares after a download of the one with this id. -/
def countedOnce (u : Uuid) (shares : List ShareRow) : List ShareRow :=
  shares.map fun s => if s.id = u then { s with downloadCount := s.downloadCount + 1 } else s

theorem increment_cases {id : Bytes} {r : Except Exn Unit}
    (h : exec svc pg (.incrementDownloadCount id) w = (r, w')) :
    (∃ e, r = .error e ∧ w' = w) ∨ ∃ u, pg.uuidParam id = .ok u ∧ r = .ok () ∧
      w' = { w with shares := countedOnce u w.shares } := by
  rcases commit_cases h with ⟨e, he, rfl⟩ | ⟨_, hinc, hr⟩
  · exact Or.inl ⟨e, he, rfl⟩
  · simp only [incrementDownloadCount, bind_eq_ok, require_ok] at hinc
    obtain ⟨u, hu, _, -, hret⟩ := hinc
    cases hret
    exact Or.inr ⟨u, hu, hr, rfl⟩

theorem exec_incrementDownloadCount {id : Bytes} {r : Except Exn Unit}
    (h : exec svc pg (.incrementDownloadCount id) w = (r, w')) :
    ∃ g : ShareRow → ShareRow,
      (∀ s, (g s).fileId = s.fileId ∧ (g s).ownerId = s.ownerId ∧ (g s).isRevoked = s.isRevoked) ∧
        w' = { w with shares := w.shares.map g } := by
  rcases increment_cases h with ⟨e, -, rfl⟩ | ⟨u, -, -, rfl⟩
  · exact ⟨fun s => s, fun _ => ⟨rfl, rfl, rfl⟩, by rw [List.map_id']⟩
  · refine ⟨_, fun s => ?_, rfl⟩
    split <;> exact ⟨rfl, rfl, rfl⟩

theorem exec_revoke {id ownerId : Bytes} {r : Except Exn Unit}
    (h : exec svc pg (.revoke id ownerId) w = (r, w')) :
    w' = w ∨ ∃ u owner, pg.uuidParam id = .ok u ∧ pg.uuidParam ownerId = .ok owner ∧
      w' = { w with
        shares := w.shares.map fun s =>
          if s.id = u && s.ownerId = owner then { s with isRevoked := true } else s } := by
  rcases commit_cases h with ⟨e, -, rfl⟩ | ⟨_, hrev, -⟩
  · exact Or.inl rfl
  · simp only [revoke, bind_eq_ok] at hrev
    obtain ⟨u, hu, owner, howner, hret⟩ := hrev
    cases hret
    exact Or.inr ⟨u, owner, hu, howner, rfl⟩

theorem exec_revokeByFileId {fileId : Bytes} {r : Except Exn Unit}
    (h : exec svc pg (.revokeByFileId fileId) w = (r, w')) :
    (∃ e, r = .error e ∧ pg.uuidParam fileId = .error e ∧ w' = w) ∨
      ∃ u, pg.uuidParam fileId = .ok u ∧ r = .ok () ∧
        w' = { w with
          shares := w.shares.map fun s =>
            if s.fileId = u && !s.isRevoked then { s with isRevoked := true } else s } := by
  have hexec : commit w (revokeByFileId pg fileId w) = (r, w') := h
  cases hu : pg.uuidParam fileId with
  | error e =>
      rw [revokeByFileId, hu] at hexec
      cases hexec
      exact Or.inl ⟨e, rfl, rfl, rfl⟩
  | ok u =>
      rw [revokeByFileId, hu] at hexec
      cases hexec
      exact Or.inr ⟨u, rfl, rfl, rfl⟩

end Others

/-! ## The collector -/

section Collector

variable {svc : Services} {pg : Postgres} {w w' : World}

/-- The store after the loop: a name is as before, or its object is gone and no
remaining content lists it. -/
theorem removeChunks_store {contents : List ContentRow} : ∀ (hashes : List Bytes)
    (store : Bytes → Option Bytes) (n : Nat) (h : Bytes),
    (removeChunks pg contents hashes store n).2 h = store h ∨
      ((removeChunks pg contents hashes store n).2 h = none ∧ chunkHashInUse contents h = false ∧
        ∃ hash ∈ hashes, pg.textParam hash = .ok h)
  | [], _, _, _ => Or.inl rfl
  | hash :: hashes, store, n, h => by
      rw [removeChunks]
      cases ht : pg.textParam hash with
      | error e => exact Or.inl rfl
      | ok text =>
          dsimp only
          have hrest : ∀ (store' : Bytes → Option Bytes) (m : Nat), store' h = store h →
              (removeChunks pg contents hashes store' m).2 h = store h ∨
                ((removeChunks pg contents hashes store' m).2 h = none ∧
                  chunkHashInUse contents h = false ∧
                    ∃ x ∈ hash :: hashes, pg.textParam x = .ok h) := by
            intro store' m hsame
            rcases removeChunks_store hashes store' m h with heq | ⟨hgone, huse, x, hx, hp⟩
            · exact Or.inl (heq.trans hsame)
            · exact Or.inr ⟨hgone, huse, x, List.mem_cons_of_mem _ hx, hp⟩
          split
          · exact hrest store n rfl
          · rename_i huse
            split
            · exact Or.inl rfl
            · split
              · by_cases hh : h = text
                · subst hh
                  refine Or.inr ⟨?_, ?_, hash, List.mem_cons_self, ht⟩
                  · rcases removeChunks_store hashes (Function.update store h none) (n + 1) h with
                      heq | ⟨hgone, -⟩
                    · rw [heq, Function.update_self]
                    · exact hgone
                  · simpa using fun hc => huse (Or.inl hc)
                · exact hrest _ _ (Function.update_of_ne hh _ _)
              · exact hrest store n rfl

/-- The loop does not throw on names of the usual form. -/
theorem removeChunks_ok {contents : List ContentRow} : ∀ (hashes : List Bytes)
    (store : Bytes → Option Bytes) (n : Nat),
    (∀ hash ∈ hashes, ∃ t, pg.textParam hash = .ok t ∧ 4 ≤ t.length) →
    ∃ m, (removeChunks pg contents hashes store n).1 = .ok m
  | [], _, n, _ => ⟨n, rfl⟩
  | hash :: hashes, store, n, hall => by
      obtain ⟨t, ht, hlen⟩ := hall hash List.mem_cons_self
      have hrest : ∀ (store' : Bytes → Option Bytes) (k : Nat),
          ∃ m, (removeChunks pg contents hashes store' k).1 = .ok m :=
        fun _ _ => removeChunks_ok hashes _ _ fun x hx => hall x (List.mem_cons_of_mem _ hx)
      rw [removeChunks, ht]
      dsimp only
      split
      · exact hrest _ _
      · split
        · omega
        · split
          · exact hrest _ _
          · exact hrest _ _

/-- What the loop is to remove is gone when it is through. -/
theorem removeChunks_gone {contents : List ContentRow} {t : Bytes} : ∀ (hashes : List Bytes)
    (store : Bytes → Option Bytes) (n : Nat),
    (∀ hash ∈ hashes, ∃ t, pg.textParam hash = .ok t ∧ 4 ≤ t.length) →
    (∃ hash ∈ hashes, hash ≠ [] ∧ pg.textParam hash = .ok t) → chunkHashInUse contents t = false →
    (removeChunks pg contents hashes store n).2 t = none
  | [], _, _, _, hmem, _ => by
      obtain ⟨_, hmem, -⟩ := hmem
      cases hmem
  | hash :: hashes, store, n, hall, hmem, hunused => by
      obtain ⟨text, htext, hlen⟩ := hall hash List.mem_cons_self
      have hrest := fun store' m h =>
        removeChunks_gone hashes store' m (fun x hx => hall x (List.mem_cons_of_mem _ hx)) h hunused
      -- what is gone stays gone
      have hstays : ∀ store' m, store' t = none →
          (removeChunks pg contents hashes store' m).2 t = none := by
        intro store' m hgone
        rcases @removeChunks_store pg contents hashes store' m t with
          heq | ⟨hgone', -⟩
        · rw [heq, hgone]
        · exact hgone'
      rw [removeChunks, htext]
      dsimp only
      obtain ⟨x, hx, hne, hparam⟩ := hmem
      rcases List.mem_cons.mp hx with rfl | hx
      · obtain rfl : text = t := Except.ok.inj (htext.symm.trans hparam)
        rw [if_neg (by rw [hunused]; simp [hne]), if_neg (Nat.not_lt.mpr hlen)]
        by_cases hthere : (store text).isSome = true
        · rw [if_pos hthere]
          exact hstays _ _ (Function.update_self _ _ _)
        · rw [if_neg hthere]
          exact hstays _ _ (Option.not_isSome_iff_eq_none.mp hthere)
      · have hlater : ∃ hash ∈ hashes, hash ≠ [] ∧ pg.textParam hash = .ok t := ⟨x, hx, hne, hparam⟩
        split
        · exact hrest _ _ hlater
        · split
          · omega
          · split
            · exact hrest _ _ hlater
            · exact hrest _ _ hlater

/-- What the collector does with a content record: nothing, or it deletes the
row and sweeps the store, or it throws half-way through the sweep. -/
inductive Purged (svc : Services) (pg : Postgres) (content : ContentRecord) (w : World) :
    Except Exn GcStats → World → Prop
  | nothing (r : Except Exn GcStats) : Purged svc pg content w r w
  | swept {id : Uuid} {hashes : List Bytes} {store : Bytes → Option Bytes} (r : Except Exn GcStats)
      (b : Bool) :
      pg.uuidParam content.id = .ok id → w.fileLives id = false →
      parseChunkHashes svc.json content.chunkHashes = some hashes →
      (w.findContent id).isSome = true →
      (∀ h, store h = w.store h ∨ (store h = none ∧
        chunkHashInUse (withoutContent id w).contents h = false ∧
          ∃ hash ∈ hashes, pg.textParam hash = .ok h)) →
      ((∀ hash ∈ hashes, ∃ t, pg.textParam hash = .ok t ∧ 4 ≤ t.length) → b = true) →
      Purged svc pg content w r { (if b then withoutContent id w else w) with store }

theorem exec_purgeContent {content : ContentRecord} {r : Except Exn GcStats}
    (h : exec svc pg (.purgeContent content) w = (r, w')) : Purged svc pg content w r w' := by
  have hexec : purgeContent svc pg content w = (r, w') := h
  unfold purgeContent at hexec
  cases hid : pg.uuidParam content.id with
  | error e =>
      rw [hid] at hexec
      cases hexec
      exact .nothing _
  | ok id =>
      rw [hid] at hexec
      dsimp only at hexec
      cases hlive : w.fileLives id with
      | true =>
          rw [hlive] at hexec
          cases hexec
          exact .nothing _
      | false =>
          rw [hlive] at hexec
          cases hparse : parseChunkHashes svc.json content.chunkHashes with
          | none =>
              rw [hparse] at hexec
              cases hexec
              exact .nothing _
          | some hashes =>
              rw [hparse] at hexec
              dsimp only at hexec
              cases hrow : w.findContent id with
              | none =>
                  rw [hrow] at hexec
                  cases hexec
                  exact .nothing _
              | some c =>
                  rw [hrow] at hexec
                  -- a throw in the loop keeps the tables, but not the store
                  have hstore := @removeChunks_store pg (withoutContent id w).contents hashes w.store 0
                  have hok := @removeChunks_ok pg (withoutContent id w).contents hashes w.store 0
                  have hsome : (w.findContent id).isSome = true := by rw [hrow]; rfl
                  rcases hrem : removeChunks pg (withoutContent id w).contents hashes w.store 0
                    with ⟨res, store⟩
                  rw [hrem] at hstore hok
                  simp only [Option.isNone_some, Bool.false_eq_true, if_false, hrem] at hexec
                  cases res with
                  | error e =>
                      cases hexec
                      refine .swept (b := false) _ hid hlive hparse hsome hstore fun hall => ?_
                      obtain ⟨m, hm⟩ := hok hall
                      cases hm
                  | ok m =>
                      cases hexec
                      exact .swept (b := true) _ hid hlive hparse hsome hstore fun _ => rfl

end Collector

/-! ## What most calls leave alone -/

section Frames

variable {svc : Services} {pg : Postgres} {c : Call} {w w' : World} {r : Except Exn c.Resp}

/-- The calls that can change files, content rows or objects. -/
def touchesData : Call → Bool
  | .put _ | .fileInsert _ | .insertLink _ _ | .fileSoftDelete _ | .purgeContent _ => true
  | _ => false

/-- The calls that can change Redis. -/
def touchesRedis : Call → Bool
  | .redisSet _ _ _ | .redisDel _ | .hset _ _ _ => true
  | _ => false

theorem hset_data (key field value : Bytes) (w : World) :
    ∃ redis, (hset key field value w).2 = { w with redis } := by
  unfold hset
  split
  · exact ⟨w.redis, rfl⟩
  · exact ⟨_, rfl⟩
  · exact ⟨_, rfl⟩

theorem exec_data (hc : touchesData c = false) (h : exec svc pg c w = (r, w')) :
    w'.store = w.store ∧ w'.contents = w.contents ∧ w'.files = w.files := by
  have hw : w' = (exec svc pg c w).2 := by rw [h]
  by_cases hr : readOnly c = true
  · obtain ⟨draws, hd⟩ := @exec_readOnly svc pg c hr w
    rw [hw, hd]
    exact ⟨rfl, rfl, rfl⟩
  cases c with
  | redisSet key value ttl => rw [hw]; exact ⟨rfl, rfl, rfl⟩
  | redisDel key => rw [hw]; exact ⟨rfl, rfl, rfl⟩
  | hset key field value =>
      obtain ⟨redis, hh⟩ := hset_data key field value w
      have hw' : w' = (hset key field value w).2 := hw
      rw [hw', hh]
      exact ⟨rfl, rfl, rfl⟩
  | registerUser username password =>
      obtain ⟨users, rfl⟩ := exec_registerUser h
      exact ⟨rfl, rfl, rfl⟩
  | folderInsert folder =>
      rcases exec_folderInsert h with rfl | ⟨row, -, rfl⟩ <;> exact ⟨rfl, rfl, rfl⟩
  | folderSoftDelete id =>
      rcases exec_folderSoftDelete h with rfl | ⟨u, -, rfl⟩ <;> exact ⟨rfl, rfl, rfl⟩
  | folderRename id name =>
      rcases exec_folderRename h with rfl | ⟨u, g, -, -, rfl⟩ <;> exact ⟨rfl, rfl, rfl⟩
  | shareInsert record =>
      rcases exec_shareInsert h with rfl | ⟨row, -, rfl⟩ <;> exact ⟨rfl, rfl, rfl⟩
  | incrementDownloadCount id =>
      obtain ⟨g, -, rfl⟩ := exec_incrementDownloadCount h
      exact ⟨rfl, rfl, rfl⟩
  | revoke id ownerId =>
      rcases exec_revoke h with rfl | ⟨u, owner, -, -, rfl⟩ <;> exact ⟨rfl, rfl, rfl⟩
  | revokeByFileId fileId =>
      rcases exec_revokeByFileId h with ⟨e, -, -, rfl⟩ | ⟨u, -, -, rfl⟩ <;> exact ⟨rfl, rfl, rfl⟩
  | put data => cases hc
  | fileInsert file => cases hc
  | insertLink file contentId => cases hc
  | fileSoftDelete id => cases hc
  | purgeContent content => cases hc
  | _ => exact absurd rfl hr

theorem exec_put {data : Bytes} {r : Except Exn Bytes}
    (h : exec svc pg (.put data) w = (r, w')) :
    (w' = w ∧ (r = .error (hashTooShort (svc.sha256 data)) ∧ (svc.sha256 data).length < 4 ∨
        r = .ok (svc.sha256 data) ∧ (w.store (svc.sha256 data)).isSome = true)) ∨
      r = .ok (svc.sha256 data) ∧ w.store (svc.sha256 data) = none ∧
        w' = { w with store := Function.update w.store (svc.sha256 data) (some data) } := by
  have hexec : storePut svc data w = (r, w') := h
  unfold storePut at hexec
  dsimp only at hexec
  split at hexec
  · rename_i hlen
    cases hexec
    exact Or.inl ⟨rfl, Or.inl ⟨rfl, hlen⟩⟩
  · split at hexec
    · rename_i hsome
      cases hexec
      exact Or.inl ⟨rfl, Or.inr ⟨rfl, hsome⟩⟩
    · rename_i hnone
      cases hexec
      exact Or.inr ⟨rfl, by simpa using hnone, rfl⟩

theorem exec_redis (hc : touchesRedis c = false) (h : exec svc pg c w = (r, w')) :
    w'.redis = w.redis := by
  have hw : w' = (exec svc pg c w).2 := by rw [h]
  by_cases hr : readOnly c = true
  · obtain ⟨draws, hd⟩ := @exec_readOnly svc pg c hr w
    rw [hw, hd]
  cases c with
  | put data =>
      rcases exec_put h with ⟨rfl, -⟩ | ⟨-, -, rfl⟩ <;> rfl
  | registerUser username password =>
      obtain ⟨users, rfl⟩ := exec_registerUser h
      rfl
  | folderInsert folder => rcases exec_folderInsert h with rfl | ⟨row, -, rfl⟩ <;> rfl
  | folderSoftDelete id => rcases exec_folderSoftDelete h with rfl | ⟨u, -, rfl⟩ <;> rfl
  | folderRename id name => rcases exec_folderRename h with rfl | ⟨u, g, -, -, rfl⟩ <;> rfl
  | fileInsert file =>
      rcases commit_cases h with ⟨e, -, rfl⟩ | ⟨t, hins, -⟩
      · rfl
      · simp only [fileInsert, bind_eq_ok] at hins
        obtain ⟨_, -, ⟨cid, w₂⟩, htxn, hins⟩ := hins
        obtain ⟨contents, d, -, rfl, rfl⟩ := ensureInTxn_ok file rfl rfl rfl htxn
        obtain ⟨row, -, -, -, rfl⟩ := insertFileRow_ok hins
        rfl
  | insertLink file contentId =>
      rcases exec_insertLink h with ⟨e, -, rfl⟩ | ⟨row, -, -, rfl⟩ <;> rfl
  | fileSoftDelete id => rcases exec_fileSoftDelete h with ⟨e, -, rfl⟩ | ⟨u, -, -, rfl⟩ <;> rfl
  | shareInsert record => rcases exec_shareInsert h with rfl | ⟨row, -, rfl⟩ <;> rfl
  | incrementDownloadCount id =>
      obtain ⟨g, -, rfl⟩ := exec_incrementDownloadCount h
      rfl
  | revoke id ownerId => rcases exec_revoke h with rfl | ⟨u, owner, -, -, rfl⟩ <;> rfl
  | revokeByFileId fileId =>
      rcases exec_revokeByFileId h with ⟨e, -, -, rfl⟩ | ⟨u, -, -, rfl⟩ <;> rfl
  | purgeContent content =>
      cases exec_purgeContent h with
      | nothing => rfl
      | swept _ b => cases b <;> rfl
  | redisSet key value ttl => cases hc
  | redisDel key => cases hc
  | hset key field value => cases hc
  | _ => exact absurd rfl hr

/-- Links and deletions of files leave contents and objects alone. -/
theorem exec_contents (hput : ∀ data, c ≠ .put data) (hins : ∀ file, c ≠ .fileInsert file)
    (hpurge : ∀ content, c ≠ .purgeContent content) (h : exec svc pg c w = (r, w')) :
    w'.store = w.store ∧ w'.contents = w.contents := by
  by_cases hc : touchesData c = false
  · obtain ⟨hstore, hcontents, -⟩ := exec_data hc h
    exact ⟨hstore, hcontents⟩
  cases c with
  | put data => exact absurd rfl (hput data)
  | fileInsert file => exact absurd rfl (hins file)
  | purgeContent content => exact absurd rfl (hpurge content)
  | insertLink file contentId =>
      rcases exec_insertLink h with ⟨e, -, rfl⟩ | ⟨row, -, -, rfl⟩ <;> exact ⟨rfl, rfl⟩
  | fileSoftDelete id =>
      rcases exec_fileSoftDelete h with ⟨e, -, rfl⟩ | ⟨u, -, -, rfl⟩ <;> exact ⟨rfl, rfl⟩
  | _ => exact absurd rfl hc

end Frames

/-! ## Hashes in Redis -/

/-- The key does not hold a string, so that `HSET` works. -/
def HashKey (w : World) (key : Bytes) : Prop := ∀ v, w.redis (cstr key) ≠ some (.str v)

theorem hset_redis {w : World} {key field value : Bytes} (hkey : HashKey w key) :
    ∃ fields, (hset key field value w).2 =
        { w with redis := Function.update w.redis (cstr key) (some (.hash fields)) } ∧
      ∀ f, fields (cstr f) = if cstr f = cstr field then some (cstr value) else hget w key f := by
  have hfields : ∀ fields : Bytes → Option Bytes, (∀ f, fields (cstr f) = hget w key f) → ∀ f,
      Function.update fields (cstr field) (some (cstr value)) (cstr f) =
        if cstr f = cstr field then some (cstr value) else hget w key f := by
    intro fields hget f
    by_cases hf : cstr f = cstr field
    · rw [if_pos hf, hf, Function.update_self]
    · rw [if_neg hf, Function.update_of_ne hf, hget f]
  cases hval : w.redis (cstr key) with
  | none =>
      refine ⟨_, by rw [hset, hval]; rfl, hfields (fun _ => none) fun f => ?_⟩
      rw [hget, hval]
  | some v =>
      cases v with
      | str s => exact absurd hval (hkey s)
      | hash fields =>
          refine ⟨_, by rw [hset, hval]; rfl, hfields fields fun f => ?_⟩
          rw [hget, hval]

theorem hget_hset {w : World} {key field value : Bytes} (hkey : HashKey w key) (f : Bytes) :
    hget (hset key field value w).2 key f =
      if cstr f = cstr field then some (cstr value) else hget w key f := by
  obtain ⟨fields, heq, hfields⟩ := @hset_redis w key field value hkey
  rw [heq, hget]
  dsimp only
  rw [Function.update_self]
  exact hfields f

theorem hashKey_hset {w : World} {key field value : Bytes} (hkey : HashKey w key) :
    HashKey (hset key field value w).2 key := by
  obtain ⟨fields, heq, -⟩ := @hset_redis w key field value hkey
  intro v hv
  rw [heq] at hv
  dsimp only at hv
  rw [Function.update_self] at hv
  cases hv

end SolarDrive.Metadata
