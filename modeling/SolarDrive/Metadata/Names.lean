import SolarDrive.Metadata.Inversion

/-!
# The unique index on names

`idx_files_owner_folder_name`: of the live files of one owner in one folder,
every name is that of one file. What a successful insertion found free, and
what it refuses from then on.
-/

namespace SolarDrive.Metadata

open Lib Api

variable {svc : Services} {pg : Postgres} {w w' : World}

/-- The index has an entry for this owner, folder and name. -/
def indexed (w : World) (ownerId : Uuid) (folderId : Option Uuid) (name : Bytes) : Bool :=
  w.files.any fun f => f.live && f.ownerId = ownerId &&
    f.folderId.getD Uuid.nil = folderId.getD Uuid.nil && f.name = name

/-- The row has the name, owner and folder of the record. -/
structure Named (pg : Postgres) (name ownerId folderId : Bytes) (row : FileRow) : Prop where
  name : pg.textParam name = .ok row.name
  ownerId : pg.uuidParam ownerId = .ok row.ownerId
  folderId : pg.optionalUuid folderId = .ok row.folderId
  live : row.live = true

theorem insertFileRow_named {file : FileRecord} {contentId : Bytes} {id : Uuid} {t : Bytes}
    (h : insertFileRow pg file contentId id w = .ok (t, w')) :
    ∃ row, Named pg file.name file.ownerId file.folderId row ∧
      indexed w row.ownerId row.folderId row.name = false ∧ t = row.id.text ∧
      w' = { w with files := w.files ++ [row] } := by
  simp only [insertFileRow, bind_eq_ok, require_ok] at h
  obtain ⟨name, hname, owner, howner, folder, hfolder, content, -, _, -, _, hindex, _, -, _, -, _,
    -, hret⟩ := h
  cases hret
  exact ⟨_, ⟨hname, howner, hfolder, rfl⟩, by simpa [indexed] using hindex, rfl, rfl⟩

/-- A new file with new or known content. -/
theorem exec_fileInsert_named {file : FileRecord} {r : Except Exn Bytes}
    (h : exec svc pg (.fileInsert file) w = (r, w')) :
    (∃ e, r = .error e ∧ w' = w.skipUuids) ∨
      ∃ row contents, Named pg file.name file.ownerId file.folderId row ∧
        indexed w row.ownerId row.folderId row.name = false ∧ r = .ok row.id.text ∧
        w.contents ⊆ contents ∧
        w' = { w.skipUuids with contents, files := w.files ++ [row] } := by
  rcases commit_cases h with herr | ⟨t, hins, rfl⟩
  · exact Or.inl herr
  · simp only [fileInsert, bind_eq_ok] at hins
    obtain ⟨_, -, ⟨cid, w₂⟩, htxn, hins⟩ := hins
    obtain ⟨contents, c, hens, -, rfl⟩ := ensureInTxn_ok file rfl rfl rfl htxn
    obtain ⟨row, hrow, hfree, rfl, rfl⟩ := insertFileRow_named hins
    refine Or.inr ⟨row, contents, hrow, hfree, rfl, ?_, rfl⟩
    cases hens with
    | found _ _ => exact List.Subset.refl _
    | created _ _ _ _ => exact List.subset_append_left _ _

/-- A new file for known content. -/
theorem exec_insertLink_named {file : FileRecord} {contentId : Bytes} {r : Except Exn Bytes}
    (h : exec svc pg (.insertLink file contentId) w = (r, w')) :
    (∃ e, r = .error e ∧ w' = w.skipUuids) ∨
      ∃ row, Named pg file.name file.ownerId file.folderId row ∧
        indexed w row.ownerId row.folderId row.name = false ∧ r = .ok row.id.text ∧
        w' = { w.skipUuids with files := w.files ++ [row] } := by
  rcases commit_cases h with herr | ⟨t, hins, rfl⟩
  · exact Or.inl herr
  · simp only [insertLink, bind_eq_ok] at hins
    obtain ⟨_, -, hins⟩ := hins
    split at hins
    · cases hins
    · obtain ⟨row, hrow, hfree, rfl, rfl⟩ := insertFileRow_named hins
      exact Or.inr ⟨row, hrow, hfree, rfl, rfl⟩

/-- A second file of that name finds the index entry of the first. -/
theorem Named.indexed {name ownerId folderId : Bytes} {row row' : FileRow}
    (h : Named pg name ownerId folderId row) (hmem : row ∈ w.files)
    (h' : Named pg name ownerId folderId row') :
    Metadata.indexed w row'.ownerId row'.folderId row'.name = true := by
  have hname : row.name = row'.name := Except.ok.inj (h.name.symm.trans h'.name)
  have howner : row.ownerId = row'.ownerId := Except.ok.inj (h.ownerId.symm.trans h'.ownerId)
  have hfolder : row.folderId = row'.folderId := Except.ok.inj (h.folderId.symm.trans h'.folderId)
  refine List.any_eq_true.mpr ⟨row, hmem, ?_⟩
  simp [h.live, hname, howner, hfolder]

/-- `content_objects.size` is a `BIGINT`. -/
def BigintSizes (w : World) : Prop := ∀ c ∈ w.contents, -(2 ^ 63) ≤ c.size ∧ c.size < 2 ^ 63

/-! ## What the table takes -/

/-- A file of this record can be added: its name is free, and what it refers to is there. -/
structure Fits (pg : Postgres) (file : FileRecord) (id : Uuid) (w : World) : Prop where
  fresh : w.files.any (·.id = id) = false
  named : ∃ name owner folder, pg.textParam file.name = .ok name ∧
    pg.uuidParam file.ownerId = .ok owner ∧ pg.optionalUuid file.folderId = .ok folder ∧
    Metadata.indexed w owner folder name = false ∧ w.users.any (·.id = owner) = true ∧
    folder.all (fun p => w.folders.any (·.id = p)) = true

theorem insertFileRow_ok_iff {file : FileRecord} {contentId : Bytes} {id : Uuid} :
    (∃ t w', insertFileRow pg file contentId id w = .ok (t, w')) ↔
      Fits pg file id w ∧ ∃ u, pg.uuidParam contentId = .ok u ∧ (w.findContent u).isSome = true := by
  simp only [insertFileRow, bind_eq_ok, require_ok, Bool.not_eq_true']
  constructor
  · rintro ⟨t, w', name, hname, owner, howner, folder, hfolder, content, hcontent, _, hid, _, hindex,
      _, huser, _, hfk, _, hrow, -⟩
    exact ⟨⟨hid, name, owner, folder, hname, howner, hfolder, hindex, huser, hfk⟩, content, hcontent,
      hrow⟩
  · rintro ⟨⟨hid, name, owner, folder, hname, howner, hfolder, hindex, huser, hfk⟩, u, hcontent,
      hfound⟩
    exact ⟨_, _, name, hname, owner, howner, folder, hfolder, u, hcontent, (), hid, (), hindex, (),
      huser, (), hfk, (), hfound, rfl⟩

/-- A link to content that is there. -/
theorem insertLink_ok_iff {file : FileRecord} {contentId : Bytes} {id : Uuid} :
    (∃ t w', insertLink pg file contentId id w = .ok (t, w')) ↔
      file.ownerId ≠ [] ∧ contentId ≠ [] ∧ Fits pg file id w ∧
        ∃ u, pg.uuidParam contentId = .ok u ∧ (w.findContent u).isSome = true := by
  unfold insertLink requireOwnerId
  by_cases howner : file.ownerId = []
  · rw [if_pos howner]
    exact ⟨fun ⟨_, _, h⟩ => (nomatch h), fun h => absurd howner h.1⟩
  rw [if_neg howner]
  by_cases hid : contentId = []
  · rw [if_pos hid]
    exact ⟨fun ⟨_, _, h⟩ => (nomatch h), fun h => absurd hid h.2.1⟩
  rw [if_neg hid]
  exact insertFileRow_ok_iff.trans ⟨fun h => ⟨howner, hid, h⟩, fun h => h.2.2⟩

/-- New content with a new file. -/
structure Insertable (pg : Postgres) (file : FileRecord) (contentUuid fileUuid : Uuid) (w : World) :
    Prop where
  owner : file.ownerId ≠ []
  mimeType : ∃ t, pg.textParam (if file.mimeType = [] then ascii "application/octet-stream"
    else file.mimeType) = .ok t
  contentFresh : w.findContent contentUuid = none
  fits : Fits pg file fileUuid w

theorem newContent_ok {content : ContentRecord} {id : Uuid} {hash mime : Bytes} {chunks : Json}
    (hhash : pg.textParam content.hash = .ok hash)
    (hchunks : pg.jsonbParam content.chunkHashes = .ok chunks)
    (hmime : pg.textParam (if content.mimeType = [] then ascii "application/octet-stream"
      else content.mimeType) = .ok mime) :
    newContent pg content id = .ok ⟨id, hash, content.size, chunks, mime⟩ :=
  bind_eq_ok.mpr ⟨hash, hhash, bind_eq_ok.mpr ⟨chunks, hchunks, bind_eq_ok.mpr ⟨mime, hmime, rfl⟩⟩⟩

theorem fileInsert_ok_iff {json : JsonLib} (hpg : pg.Lawful json) {file : FileRecord} {cu fu : Uuid}
    {hash : Bytes} {chunks : Json} (hhash : pg.textParam file.hash = .ok hash)
    (hnew : ∀ c ∈ w.contents, c.hash ≠ hash) (hchunks : pg.jsonbParam file.chunkHashes = .ok chunks) :
    (∃ t w', fileInsert pg file cu fu w = .ok (t, w')) ↔ Insertable pg file cu fu w := by
  have hnone : w.contents.find? (fun c => decide (c.hash = hash)) = none :=
    List.find?_eq_none.mpr fun c hc heq => hnew c hc (of_decide_eq_true heq)
  unfold fileInsert requireOwnerId ensureInTxn
  by_cases howner : file.ownerId = []
  · rw [if_pos howner]
    exact ⟨fun ⟨_, _, h⟩ => (nomatch h), fun h => absurd howner h.owner⟩
  rw [if_neg howner]
  simp only [bind_eq_ok]
  constructor
  · rintro ⟨t, w', _, -, ⟨cid, w₁⟩, ⟨hash', hparam, hcontent⟩, hins⟩
    obtain rfl : hash = hash' := Except.ok.inj (hhash.symm.trans hparam)
    rw [hnone] at hcontent
    simp only [newContent, bind_eq_ok, require_ok] at hcontent
    obtain ⟨row, ⟨_, -, _, -, mime, hmime, hrow⟩, _, hfree, hret⟩ := hcontent
    cases hrow
    cases hret
    obtain ⟨hfits, -⟩ := insertFileRow_ok_iff.mp ⟨t, w', hins⟩
    exact ⟨howner, ⟨mime, hmime⟩, Option.isNone_iff_eq_none.mp hfree, hfits.fresh, hfits.named⟩
  · rintro ⟨-, ⟨mime, hmime⟩, hfree, hfits⟩
    obtain ⟨row, hrow⟩ : ∃ row : ContentRow, row = ⟨cu, hash, file.size, chunks, mime⟩ := ⟨_, rfl⟩
    have hfound : (World.findContent { w with contents := w.contents ++ [row] } cu).isSome = true :=
      List.find?_isSome.mpr ⟨_, List.mem_append_right _ (List.mem_singleton_self row),
        decide_eq_true (by rw [hrow])⟩
    have hins : ∃ t w', insertFileRow pg file cu.text fu { w with contents := w.contents ++ [row] } =
        .ok (t, w') :=
      insertFileRow_ok_iff.mpr ⟨⟨hfits.fresh, hfits.named⟩, cu, uuidParam_text hpg cu, hfound⟩
    obtain ⟨t, w', hins⟩ := hins
    refine ⟨t, w', (), trivial, (cu.text, { w with contents := w.contents ++ [row] }),
      ⟨hash, hhash, ?_⟩, hins⟩
    rw [hnone]
    refine bind_eq_ok.mpr ⟨row, ?_, ?_⟩
    · rw [hrow]
      exact newContent_ok hhash hchunks hmime
    · exact bind_eq_ok.mpr ⟨(), require_ok.mpr (Option.isNone_iff_eq_none.mpr hfree), rfl⟩

theorem Insertable.congr {file file' : FileRecord} {cu fu : Uuid}
    (h : Insertable pg file cu fu w) (hname : file'.name = file.name)
    (howner : file'.ownerId = file.ownerId) (hfolder : file'.folderId = file.folderId)
    (hmime : file'.mimeType = file.mimeType) (hcontents : w'.contents = w.contents)
    (hfiles : w'.files = w.files) (husers : w'.users = w.users) (hfolders : w'.folders = w.folders) :
    Insertable pg file' cu fu w' := by
  obtain ⟨hne, hm, hfresh, hid, hnamed⟩ := h
  refine ⟨howner ▸ hne, hmime ▸ hm, ?_, ?_, ?_⟩
  · rw [World.findContent, hcontents]
    exact hfresh
  · rwa [hfiles]
  · unfold Metadata.indexed at hnamed ⊢
    rwa [hname, howner, hfolder, hfiles, husers, hfolders]

variable (hjson : svc.json.Lawful) (hpg : pg.Lawful svc.json)
  (hlen : ∀ d, 2 ≤ (svc.digest d).length)

theorem jsonbParam_hashArray (hjson : svc.json.Lawful) (hpg : pg.Lawful svc.json)
    (hascii : svc.json.WritesAscii) {data : List Bytes} {t : Bytes}
    (hdump : svc.json.dump (hashArray (data.map svc.sha256)) = .ok t) :
    pg.jsonbParam t = .ok (hashArray (data.map svc.sha256)) := by
  have hnul := (hjson.parse_dump (isFlat_hashArray _) hdump).1
  have hin := hpg.jsonbIn_dump _ _ (fun h hh => by
    obtain ⟨d, -, rfl⟩ := List.mem_map.mp hh
    exact nul_not_mem_sha256 svc d) hdump
  have htext : pg.textParam t = .ok t := by
    refine textParam_of_ascii fun c hc => ⟨fun hzero => hnul (hzero ▸ hc), ?_⟩
    refine hascii _ t (fun h hh => ?_) hdump c hc
    obtain ⟨d, -, rfl⟩ := List.mem_map.mp hh
    exact fun c hc => (mem_hexBytes hc).2
  refine bind_eq_ok.mpr ⟨t, htext, ?_⟩
  rw [hin]
  rfl

/-- The insertion of new content commits when the database takes it. -/
theorem fileInsert_commits_iff (hjson : svc.json.Lawful) (hascii : svc.json.WritesAscii)
    (hpg : pg.Lawful svc.json) {file : FileRecord} {data : List Bytes}
    (hunknown : findContentByHash pg w file.hash = .ok none)
    (hdump : svc.json.dump (hashArray (data.map svc.sha256)) = .ok file.chunkHashes) :
    (∃ t, (exec svc pg (.fileInsert file) w).1 = .ok t) ↔
      Insertable pg file (w.uuids 0) (w.uuids 1) w := by
  obtain ⟨text, htext, hnew⟩ := findContentByHash_none hunknown
  have hiff := @fileInsert_ok_iff pg w.skipUuids svc.json hpg file (w.uuids 0) (w.uuids 1) text _ htext
    hnew (jsonbParam_hashArray hjson hpg hascii hdump)
  have hsame : Insertable pg file (w.uuids 0) (w.uuids 1) w.skipUuids ↔
      Insertable pg file (w.uuids 0) (w.uuids 1) w :=
    ⟨fun h => h.congr rfl rfl rfl rfl rfl rfl rfl rfl,
      fun h => h.congr rfl rfl rfl rfl rfl rfl rfl rfl⟩
  rw [← hsame, ← hiff]
  show (∃ t, (commit w.skipUuids (fileInsert pg file (w.uuids 0) (w.uuids 1) w.skipUuids)).1 = .ok t) ↔ _
  cases fileInsert pg file (w.uuids 0) (w.uuids 1) w.skipUuids with
  | error e => exact ⟨fun ⟨_, h⟩ => (nomatch h), fun ⟨_, _, h⟩ => (nomatch h)⟩
  | ok p => exact ⟨fun _ => ⟨p.1, p.2, rfl⟩, fun _ => ⟨p.1, rfl⟩⟩

end SolarDrive.Metadata
