import SolarDrive.Metadata.Inversion

/-!
# Keys, indexes and references

What the constraints of the schema say of a row that has been inserted, or has
been given another name: it is the only one of its key and of its entry in the
unique index, and the rows that it refers to are there.
-/

namespace SolarDrive.Metadata

open Lib Api

variable {svc : Services} {pg : Postgres} {w w' : World}

/-! ## Files -/

structure CheckedFile (pg : Postgres) (file : FileRecord) (w : World) (row : FileRow) : Prop where
  name : pg.textParam file.name = .ok row.name
  ownerId : pg.uuidParam file.ownerId = .ok row.ownerId
  folderId : pg.optionalUuid file.folderId = .ok row.folderId
  live : row.live = true
  fresh : ∀ f ∈ w.files, f.id ≠ row.id
  free : ∀ f ∈ w.files, f.live = true → f.ownerId = row.ownerId → f.folderId = row.folderId →
    f.name ≠ row.name
  user : ∃ u ∈ w.users, u.id = row.ownerId
  folder : ∀ p, row.folderId = some p → ∃ g ∈ w.folders, g.id = p
  content : (w.findContent row.contentId).isSome = true

theorem insertFileRow_checked {file : FileRecord} {contentId : Bytes} {id : Uuid} {t : Bytes}
    (h : insertFileRow pg file contentId id w = .ok (t, w')) :
    ∃ row, CheckedFile pg file w row ∧ t = row.id.text ∧
      w' = { w with files := w.files ++ [row] } := by
  simp only [insertFileRow, bind_eq_ok, require_ok] at h
  obtain ⟨name, hname, owner, howner, folder, hfolder, content, hcontent, _, hid, _, hindex, _,
    huser, _, hfk, _, hrow, hret⟩ := h
  cases hret
  simp only [Bool.not_eq_true', List.any_eq_false, decide_eq_true_eq] at hid
  simp only [Bool.not_eq_true', List.any_eq_false, Bool.and_eq_true, decide_eq_true_eq] at hindex
  obtain ⟨u, hu, huser⟩ := List.any_eq_true.mp huser
  refine ⟨_, ⟨hname, howner, hfolder, rfl, hid, ?_, ⟨u, hu, of_decide_eq_true huser⟩, ?_, hrow⟩, rfl,
    rfl⟩
  · intro f hf hlive hsame hplace heq
    exact hindex f hf ⟨⟨⟨hlive, hsame⟩, congrArg (·.getD Uuid.nil) hplace⟩, heq⟩
  · intro p hp
    obtain rfl : folder = some p := hp
    obtain ⟨g, hg, hid⟩ := List.any_eq_true.mp hfk
    exact ⟨g, hg, of_decide_eq_true hid⟩

theorem exec_insertLink_checked {file : FileRecord} {contentId : Bytes} {r : Except Exn Bytes}
    (h : exec svc pg (.insertLink file contentId) w = (r, w')) :
    (∃ e, r = .error e ∧ w' = w.skipUuids) ∨
      ∃ row, CheckedFile pg file w row ∧ r = .ok row.id.text ∧
        w' = { w.skipUuids with files := w.files ++ [row] } := by
  rcases commit_cases h with herr | ⟨t, hins, rfl⟩
  · exact Or.inl herr
  · simp only [insertLink, bind_eq_ok] at hins
    obtain ⟨_, -, hins⟩ := hins
    split at hins
    · cases hins
    · obtain ⟨row, ⟨hname, howner, hfolder, hlive, hfresh, hfree, huser, hplace, hcontent⟩, rfl, rfl⟩ :=
        insertFileRow_checked hins
      exact Or.inr ⟨row, ⟨hname, howner, hfolder, hlive, hfresh, hfree, huser, hplace, hcontent⟩, rfl,
        rfl⟩

/-- Content that is found stays what it is when a file is inserted. -/
theorem exec_fileInsert_checked {file : FileRecord} {r : Except Exn Bytes}
    (h : exec svc pg (.fileInsert file) w = (r, w')) :
    (∃ e, r = .error e ∧ w' = w.skipUuids) ∨
      ∃ row contents, CheckedFile pg file { w with contents } row ∧ r = .ok row.id.text ∧
        (∀ id, (w.findContent id).isSome = true →
          World.findContent { w with contents } id = w.findContent id) ∧
        w' = { w.skipUuids with contents, files := w.files ++ [row] } := by
  rcases commit_cases h with herr | ⟨t, hins, rfl⟩
  · exact Or.inl herr
  · simp only [fileInsert, bind_eq_ok] at hins
    obtain ⟨_, -, ⟨cid, w₂⟩, htxn, hins⟩ := hins
    obtain ⟨contents, c, hens, -, rfl⟩ := ensureInTxn_ok file rfl rfl rfl htxn
    obtain ⟨row, ⟨hname, howner, hfolder, hlive, hfresh, hfree, huser, hplace, hcontent⟩, rfl, rfl⟩ :=
      insertFileRow_checked hins
    refine Or.inr ⟨row, contents, ⟨hname, howner, hfolder, hlive, hfresh, hfree, huser, hplace,
      hcontent⟩, rfl, fun id hfound => ?_, rfl⟩
    cases hens with
    | found _ _ => rfl
    | created _ _ _ _ =>
        obtain ⟨d, hd⟩ := Option.isSome_iff_exists.mp hfound
        rw [World.findContent, List.find?_append, show w.skipUuids.contents.find? _ = some d from hd, hd]
        rfl

/-! ## Folders -/

structure CheckedFolder (pg : Postgres) (folder : FolderRecord) (w : World) (row : FolderRow) :
    Prop where
  name : pg.textParam folder.name = .ok row.name
  ownerId : pg.uuidParam folder.ownerId = .ok row.ownerId
  parentId : pg.optionalUuid folder.parentId = .ok row.parentId
  live : row.live = true
  fresh : ∀ f ∈ w.folders, f.id ≠ row.id
  free : ∀ f ∈ w.folders, f.live = true → f.ownerId = row.ownerId → f.parentId = row.parentId →
    f.name ≠ row.name
  user : ∃ u ∈ w.users, u.id = row.ownerId
  parent : ∀ p, row.parentId = some p → ∃ g ∈ w.folders, g.id = p

/-- No other folder has the owner, parent and name. -/
theorem not_folderTaken {id owner : Uuid} {parent : Option Uuid} {name : Bytes}
    (h : folderTaken w id owner parent name = false) : ∀ f ∈ w.folders, f.live = true → f.id ≠ id →
      f.ownerId = owner → f.parentId = parent → f.name ≠ name := by
  simp only [folderTaken, List.any_eq_false, Bool.and_eq_true, decide_eq_true_eq] at h
  intro f hf hlive hne howner hparent hname
  exact h f hf ⟨⟨⟨⟨hlive, hne⟩, howner⟩, congrArg (·.getD Uuid.nil) hparent⟩, hname⟩

theorem exec_folderInsert_checked {folder : FolderRecord} {r : Except Exn Bytes}
    (h : exec svc pg (.folderInsert folder) w = (r, w')) :
    w' = w.skipUuids ∨
      ∃ row, CheckedFolder pg folder w row ∧ r = .ok row.id.text ∧
        w' = { w.skipUuids with folders := w.folders ++ [row] } := by
  rcases commit_cases h with ⟨e, -, rfl⟩ | ⟨t, hins, hr⟩
  · exact Or.inl rfl
  · simp only [folderInsert, bind_eq_ok, require_ok] at hins
    obtain ⟨name, hname, owner, howner, parent, hparent, _, hid, _, hindex, _, huser, _, hfk, hret⟩ :=
      hins
    cases hret
    simp only [Bool.not_eq_true', List.any_eq_false, decide_eq_true_eq] at hid
    rw [Bool.not_eq_true'] at hindex
    obtain ⟨u, hu, huser⟩ := List.any_eq_true.mp huser
    refine Or.inr ⟨_, ⟨hname, howner, hparent, rfl, fun f hf => hid f hf, ?_,
      ⟨u, hu, of_decide_eq_true huser⟩, ?_⟩, hr, rfl⟩
    · intro f hf hlive
      exact not_folderTaken hindex f hf hlive (hid f hf)
    · intro p hp
      obtain rfl : parent = some p := hp
      obtain ⟨g, hg, hid⟩ := List.any_eq_true.mp hfk
      exact ⟨g, hg, of_decide_eq_true hid⟩

/-- A live folder with a new name. -/
def renamed (id : Uuid) (name : Bytes) (f : FolderRow) : FolderRow :=
  if f.id = id && f.live then { f with name } else f

theorem exec_folderRename_checked {text newName : Bytes} {r : Except Exn Bool}
    (h : exec svc pg (.folderRename text newName) w = (r, w')) :
    w' = w ∨ ∃ id name, pg.uuidParam text = .ok id ∧ pg.textParam newName = .ok name ∧ r = .ok true ∧
      (∀ f ∈ w.folders, f.id = id → f.live = true → ∀ g ∈ w.folders, g.live = true → g.id ≠ id →
        g.ownerId = f.ownerId → g.parentId = f.parentId → g.name ≠ name) ∧
      w' = { w with folders := w.folders.map (renamed id name) } := by
  rcases commit_cases h with ⟨e, -, rfl⟩ | ⟨_, hren, hr⟩
  · exact Or.inl rfl
  · simp only [folderRename, bind_eq_ok, require_ok] at hren
    obtain ⟨id, hid, name, hname, _, hindex, hret⟩ := hren
    cases hret
    refine Or.inr ⟨id, name, hid, hname, hr, fun f hf hfid hlive => ?_, rfl⟩
    have hfree := List.all_eq_true.mp hindex f hf
    simp only [hfid, hlive, ne_eq, not_true_eq_false, decide_false, Bool.not_true, Bool.false_or,
      Bool.not_eq_true'] at hfree
    exact not_folderTaken hfree

theorem exec_folderSoftDelete_checked {text : Bytes} {r : Except Exn Unit}
    (h : exec svc pg (.folderSoftDelete text) w = (r, w')) :
    w' = w ∨ ∃ id, pg.uuidParam text = .ok id ∧ r = .ok () ∧ w' = { w with
      folders := w.folders.map fun f =>
        if f.id = id then { f with deletedAt := some w.sqlNow } else f } := by
  rcases commit_cases h with ⟨e, -, rfl⟩ | ⟨_, hdel, rfl⟩
  · exact Or.inl rfl
  · simp only [folderSoftDelete, bind_eq_ok] at hdel
    obtain ⟨id, hid, hret⟩ := hdel
    cases hret
    exact Or.inr ⟨id, hid, rfl, rfl⟩

/-! ## Users -/

structure CheckedUser (pg : Postgres) (svc : Services) (username password : Bytes) (w : World)
    (row : UserRow) : Prop where
  username : pg.textParam username = .ok row.username
  passwordHash : row.passwordHash = svc.sha256 password
  fresh : ∀ u ∈ w.users, u.id ≠ row.id
  free : ∀ u ∈ w.users, u.username ≠ row.username

theorem exec_registerUser_checked {username password : Bytes} {r : Except Exn (Option Bytes)}
    (h : exec svc pg (.registerUser username password) w = (r, w')) :
    w' = w.skipUuids ∧ (∀ id, r ≠ .ok (some id)) ∨
      ∃ row, CheckedUser pg svc username password w row ∧ r = .ok (some row.id.text) ∧
        w' = { w.skipUuids with users := w.users ++ [row] } := by
  rcases commit_cases h with ⟨e, rfl, rfl⟩ | ⟨a, hreg, rfl⟩
  · exact Or.inl ⟨rfl, fun id hr => by cases hr⟩
  · simp only [registerUser, bind_eq_ok] at hreg
    obtain ⟨name, hname, hreg⟩ := hreg
    split at hreg
    · cases hreg
      exact Or.inl ⟨rfl, fun id hr => by cases hr⟩
    · rename_i hnew
      cases hreg
      simp only [List.any_eq_true, Bool.or_eq_true, decide_eq_true_eq, not_exists, not_and,
        not_or] at hnew
      exact Or.inr ⟨_, ⟨hname, rfl, fun u hu => (hnew u hu).2, fun u hu => (hnew u hu).1⟩, rfl, rfl⟩

end SolarDrive.Metadata
