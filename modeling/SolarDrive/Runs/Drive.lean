import SolarDrive.Lib.Namespace
import SolarDrive.Metadata.Constraints
import SolarDrive.Runs.Revocation

/-!
# The drive behind the tables

`drive` is what the tables say, without deleted files, chunks, shares and
sessions. Whatever programs run side by side, every change to it is that of one
successful call, and one that the namespace allows: so names stay unique, files
stay what they are until they are deleted, and no folder comes to lie in itself.
-/

namespace SolarDrive.Runs

open Lib Lib.Namespace Http Api Metadata Prog

/-- The content of a file is the row that it refers to. -/
abbrev DriveSpace : Type := Space Uuid Uuid Bytes (Option ContentRow)

abbrev DriveChange : Type := Change Uuid Uuid Bytes (Option ContentRow)

def fileOf (w : World) (f : FileRow) : Namespace.File Uuid Uuid Bytes (Option ContentRow) where
  label := { owner := f.ownerId, place := f.folderId, name := f.name }
  content := w.findContent f.contentId

def folderOf (f : FolderRow) : Namespace.Folder Uuid Uuid Bytes where
  label := { owner := f.ownerId, place := f.parentId, name := f.name }
  live := f.live

def drive (w : World) : DriveSpace where
  users id := (w.users.find? (·.id = id)).map UserRow.username
  files id := (w.files.find? fun f => f.id = id && f.live).map (fileOf w)
  folders id := (w.folders.find? (·.id = id)).map folderOf

/-- The change is the effect of the call. -/
def Causes (pg : Postgres) : Call → DriveChange → Prop
  | .registerUser username _, .addUser _ name => pg.textParam username = .ok name
  | .fileInsert file, .addFile _ f | .insertLink file _, .addFile _ f =>
      pg.uuidParam file.ownerId = .ok f.label.owner ∧
        pg.optionalUuid file.folderId = .ok f.label.place ∧ pg.textParam file.name = .ok f.label.name
  | .fileSoftDelete text, .removeFile id => pg.uuidParam text = .ok id
  | .folderInsert folder, .addFolder _ label =>
      pg.uuidParam folder.ownerId = .ok label.owner ∧
        pg.optionalUuid folder.parentId = .ok label.place ∧ pg.textParam folder.name = .ok label.name
  | .folderRename text newName, .renameFolder id name =>
      pg.uuidParam text = .ok id ∧ pg.textParam newName = .ok name
  | .folderSoftDelete text, .removeFolder id => pg.uuidParam text = .ok id
  | _, _ => False

/-! ## Rows -/

section Rows

variable {w w' : World}

/-- The only row of a key that no other row has. -/
theorem find?_append_row {α : Type} {l : List α} {row : α} {key : α → Uuid}
    (hfresh : ∀ x ∈ l, key x ≠ key row) (id : Uuid) :
    (l ++ [row]).find? (fun x => decide (key x = id)) =
      if id = key row then some row else l.find? fun x => decide (key x = id) := by
  rw [List.find?_append, List.find?_singleton]
  by_cases hid : id = key row
  · subst hid
    have hnone : l.find? (fun x => decide (key x = key row)) = none :=
      List.find?_eq_none.mpr fun x hx heq => hfresh x hx (of_decide_eq_true heq)
    rw [hnone, if_pos rfl, if_pos (decide_eq_true rfl)]
    rfl
  · rw [if_neg hid, if_neg fun heq => hid (of_decide_eq_true heq).symm]
    exact Option.or_none

/-- Rows are changed that the search does not find, before or after. -/
theorem find?_map_other {α : Type} {l : List α} {p : α → Bool} {g : α → α}
    (hp : ∀ x, p (g x) = p x) (hg : ∀ x, p x = true → g x = x) :
    (l.map g).find? p = l.find? p := by
  rw [List.find?_map, show p ∘ g = p from funext hp]
  cases h : l.find? p with
  | none => rfl
  | some x => exact congrArg some (hg x (List.find?_some h))

theorem drive_users {id : Uuid} {name : Bytes} (h : (drive w).users id = some name) :
    ∃ u ∈ w.users, u.id = id ∧ u.username = name := by
  obtain ⟨u, hu, rfl⟩ := Option.map_eq_some_iff.mp h
  exact ⟨u, List.mem_of_find?_eq_some hu, by simpa using List.find?_some hu, rfl⟩

theorem drive_files {id : Uuid} {f : Namespace.File Uuid Uuid Bytes (Option ContentRow)}
    (h : (drive w).files id = some f) :
    ∃ row ∈ w.files, row.id = id ∧ row.live = true ∧ f = fileOf w row := by
  obtain ⟨row, hrow, rfl⟩ := Option.map_eq_some_iff.mp h
  have hp := List.find?_some hrow
  rw [Bool.and_eq_true, decide_eq_true_eq] at hp
  exact ⟨row, List.mem_of_find?_eq_some hrow, hp.1, hp.2, rfl⟩

theorem drive_folders {id : Uuid} {f : Namespace.Folder Uuid Uuid Bytes}
    (h : (drive w).folders id = some f) : ∃ row ∈ w.folders, row.id = id ∧ f = folderOf row := by
  obtain ⟨row, hrow, rfl⟩ := Option.map_eq_some_iff.mp h
  exact ⟨row, List.mem_of_find?_eq_some hrow, by simpa using List.find?_some hrow, rfl⟩

theorem drive_users_ne {u : UserRow} (h : u ∈ w.users) : (drive w).users u.id ≠ none := by
  intro hnone
  exact List.find?_eq_none.mp (Option.map_eq_none_iff.mp hnone) u h (decide_eq_true rfl)

theorem drive_folders_ne {g : FolderRow} (h : g ∈ w.folders) : (drive w).folders g.id ≠ none := by
  intro hnone
  exact List.find?_eq_none.mp (Option.map_eq_none_iff.mp hnone) g h (decide_eq_true rfl)

theorem drive_files_none {id : Uuid} (h : ∀ f ∈ w.files, f.id ≠ id) : (drive w).files id = none :=
  Option.map_eq_none_iff.mpr (List.find?_eq_none.mpr fun f hf heq => by
    rw [Bool.and_eq_true, decide_eq_true_eq] at heq
    exact h f hf heq.1)

theorem drive_folders_none {id : Uuid} (h : ∀ f ∈ w.folders, f.id ≠ id) :
    (drive w).folders id = none :=
  Option.map_eq_none_iff.mpr
    (List.find?_eq_none.mpr fun f hf heq => h f hf (of_decide_eq_true heq))

theorem drive_users_none {id : Uuid} (h : ∀ u ∈ w.users, u.id ≠ id) : (drive w).users id = none :=
  Option.map_eq_none_iff.mpr
    (List.find?_eq_none.mpr fun u hu heq => h u hu (of_decide_eq_true heq))

/-- Every live file has its content. -/
def Grounded (w : World) : Prop :=
  ∀ f ∈ w.files, f.live = true → (w.findContent f.contentId).isSome = true

theorem drive_users_congr (h : w'.users = w.users) : (drive w').users = (drive w).users := by
  unfold drive
  rw [h]

theorem drive_folders_congr (h : w'.folders = w.folders) :
    (drive w').folders = (drive w).folders := by
  unfold drive
  rw [h]

/-- The same live files are found, and they have the same content. -/
theorem drive_files_congr
    (hfiles : ∀ id, (w'.files.find? fun f => f.id = id && f.live) =
      w.files.find? fun f => f.id = id && f.live)
    (hcontents : ∀ f ∈ w.files, f.live = true →
      w'.findContent f.contentId = w.findContent f.contentId) :
    (drive w').files = (drive w).files := by
  funext id
  show (w'.files.find? fun f => f.id = id && f.live).map (fileOf w') = _
  rw [hfiles id]
  refine Option.map_congr fun f hf => ?_
  have hp := List.find?_some hf
  rw [Bool.and_eq_true] at hp
  unfold fileOf
  rw [hcontents f (List.mem_of_find?_eq_some hf) hp.2]

theorem drive_tables (husers : w'.users = w.users) (hfolders : w'.folders = w.folders)
    (hfiles : w'.files = w.files) (hcontents : w'.contents = w.contents) : drive w' = drive w := by
  refine Space.ext (drive_users_congr husers) (drive_files_congr (fun id => by rw [hfiles]) ?_)
    (drive_folders_congr hfolders)
  intro f _ _
  rw [World.findContent, World.findContent, hcontents]

theorem Grounded.congr (h : Grounded w) (hfiles : ∀ f ∈ w'.files, f.live = true → f ∈ w.files)
    (hcontents : ∀ f ∈ w.files, f.live = true →
      w'.findContent f.contentId = w.findContent f.contentId) : Grounded w' := by
  intro f hf hlive
  have hbefore := hfiles f hf hlive
  rw [hcontents f hbefore hlive]
  exact h f hbefore hlive

/-! ### Changes -/

variable {svc : Services} {pg : Postgres}

theorem drive_addUser {row : UserRow} (hfresh : ∀ u ∈ w.users, u.id ≠ row.id)
    (husers : w'.users = w.users ++ [row]) (hfolders : w'.folders = w.folders)
    (hfiles : w'.files = w.files) (hcontents : w'.contents = w.contents) :
    drive w' = (drive w).apply (.addUser row.id row.username) := by
  refine Space.ext ?_ (drive_files_congr (fun id => by rw [hfiles]) ?_) (drive_folders_congr hfolders)
  · funext id
    show (w'.users.find? _).map UserRow.username = Function.update (drive w).users row.id _ id
    rw [husers, find?_append_row hfresh]
    by_cases hid : id = row.id
    · rw [if_pos hid, hid, Function.update_self]
      rfl
    · rw [if_neg hid, Function.update_of_ne hid]
      rfl
  · intro f _ _
    rw [World.findContent, World.findContent, hcontents]

theorem drive_addFile (h : Grounded w) {row : FileRow} (hlive : row.live = true)
    (hfresh : ∀ f ∈ w.files, f.id ≠ row.id) (husers : w'.users = w.users)
    (hfolders : w'.folders = w.folders) (hfiles : w'.files = w.files ++ [row])
    (hcontents : ∀ id, (w.findContent id).isSome = true → w'.findContent id = w.findContent id) :
    drive w' = (drive w).apply (.addFile row.id (fileOf w' row)) := by
  have hbefore : (drive { w' with files := w.files }).files = (drive w).files :=
    drive_files_congr (fun _ => rfl) fun f hf hlive => hcontents _ (h f hf hlive)
  refine Space.ext (drive_users_congr husers) ?_ (drive_folders_congr hfolders)
  funext id
  show (w'.files.find? _).map (fileOf w') = Function.update (drive w).files row.id _ id
  rw [hfiles, List.find?_append, List.find?_singleton]
  by_cases hid : id = row.id
  · subst hid
    have hnone : (w.files.find? fun f => f.id = row.id && f.live) = none :=
      List.find?_eq_none.mpr fun f hf heq => by
        rw [Bool.and_eq_true, decide_eq_true_eq] at heq
        exact hfresh f hf heq.1
    rw [hnone, Option.none_or, if_pos (by rw [hlive, decide_eq_true rfl]; rfl), Function.update_self]
    rfl
  · have hother : ¬ (decide (row.id = id) && row.live) = true := by
      rw [decide_eq_false fun heq => hid heq.symm]
      exact Bool.false_ne_true
    rw [if_neg hother, Option.or_none, Function.update_of_ne hid]
    exact congrFun hbefore id

theorem drive_removeFile (id : Uuid) (time : Int)
    (hfiles : w'.files = w.files.map fun f => if f.id = id then { f with deletedAt := some time } else f)
    (husers : w'.users = w.users) (hfolders : w'.folders = w.folders)
    (hcontents : w'.contents = w.contents) : drive w' = (drive w).apply (.removeFile id) := by
  refine Space.ext (drive_users_congr husers) ?_ (drive_folders_congr hfolders)
  funext i
  show (w'.files.find? _).map (fileOf w') = Function.update (drive w).files id none i
  rw [hfiles]
  by_cases hi : i = id
  · subst hi
    rw [Function.update_self, Option.map_eq_none_iff, List.find?_eq_none]
    intro f hf hp
    obtain ⟨f₀, -, rfl⟩ := List.mem_map.mp hf
    rw [Bool.and_eq_true, decide_eq_true_eq] at hp
    by_cases hid : f₀.id = i
    · rw [if_pos hid] at hp
      cases hp.2
    · rw [if_neg hid] at hp
      exact hid hp.1
  · have hother : ∀ f : FileRow, f.id = i → f.id ≠ id := fun f hf heq => hi (hf.symm.trans heq)
    rw [Function.update_of_ne hi, find?_map_other]
    · have hsame : (drive { w' with files := w.files }).files = (drive w).files := by
        refine drive_files_congr ?_ ?_
        · exact fun _ => rfl
        · intro f _ _
          rw [World.findContent, World.findContent, hcontents]
      exact congrFun hsame i
    · intro f
      split
      · rename_i hid
        rw [decide_eq_false fun heq => hother f heq hid, Bool.false_and, Bool.false_and]
      · rfl
    · intro f hf
      rw [Bool.and_eq_true, decide_eq_true_eq] at hf
      rw [if_neg (hother f hf.1)]

/-- A change of folders that keeps their ids, seen at the one that it is about. -/
theorem drive_updateFolder {id : Uuid} {g : FolderRow → FolderRow}
    {f : Namespace.Folder Uuid Uuid Bytes → Namespace.Folder Uuid Uuid Bytes}
    (hid : ∀ x, (g x).id = x.id) (hothers : ∀ x, x.id ≠ id → g x = x)
    (hself : ∀ x, x.id = id → folderOf (g x) = f (folderOf x)) :
    drive { w with folders := w.folders.map g } = { drive w with
      folders := Function.update (drive w).folders id (((drive w).folders id).map f) } := by
  refine Space.ext rfl (drive_files_congr (fun _ => rfl) fun _ _ _ => rfl) ?_
  funext i
  show ((w.folders.map g).find? _).map folderOf = Function.update (drive w).folders id _ i
  have hcomp : (fun x : FolderRow => decide (x.id = i)) ∘ g = fun x => decide (x.id = i) := by
    funext x
    rw [Function.comp_apply, hid]
  rw [List.find?_map, hcomp]
  by_cases hi : i = id
  · subst hi
    rw [Function.update_self]
    show _ = ((w.folders.find? _).map folderOf).map f
    cases hfound : w.folders.find? fun x => decide (x.id = i) with
    | none => rfl
    | some x => exact congrArg some (hself x (by simpa using List.find?_some hfound))
  · rw [Function.update_of_ne hi]
    show _ = (w.folders.find? _).map folderOf
    cases hfound : w.folders.find? fun x => decide (x.id = i) with
    | none => rfl
    | some x =>
        have hx : x.id = i := by simpa using List.find?_some hfound
        show some (folderOf (g x)) = _
        rw [hothers x fun heq => hi (hx.symm.trans heq)]
        rfl

/-- Nothing happens to a folder that is not there, or is left as it is. -/
theorem update_folder_same {s : DriveSpace} {id : Uuid}
    {f : Namespace.Folder Uuid Uuid Bytes → Namespace.Folder Uuid Uuid Bytes}
    (h : ∀ x, s.folders id = some x → f x = x) :
    { s with folders := Function.update s.folders id ((s.folders id).map f) } = s := by
  refine Space.ext rfl rfl (Function.update_eq_self_iff.mpr ?_)
  cases hx : s.folders id with
  | none => rfl
  | some x => exact congrArg some (h x hx)

end Rows

/-! ## One call -/

section Step

variable {svc : Services} {pg : Postgres} {w w' : World}

/-- What a call does to the drive: nothing, or it has succeeded and makes the
change that it causes. -/
inductive DriveStep (pg : Postgres) (c : Call) (r : Except Exn c.Resp) (w w' : World) : Prop
  | same : drive w' = drive w → DriveStep pg c r w w'
  | changed {a : c.Resp} (change : DriveChange) : r = .ok a → Causes pg c change →
      (drive w).Allowed change → drive w' = (drive w).apply change → DriveStep pg c r w w'

/-- The collector takes files that are deleted, and content that no live file has. -/
theorem drive_sweep (h : Grounded w) {id : Uuid} {store : Bytes → Option Bytes}
    (hdead : w.fileLives id = false) :
    Grounded { withoutContent id w with store } ∧
      drive { withoutContent id w with store } = drive w := by
  have hother : ∀ f ∈ w.files, f.live = true → f.contentId ≠ id := by
    intro f hf hlive heq
    have hnone := List.any_eq_false.mp hdead f hf
    rw [hlive, decide_eq_true heq] at hnone
    exact hnone rfl
  have hcontents : ∀ f ∈ w.files, f.live = true →
      World.findContent { withoutContent id w with store } f.contentId =
        w.findContent f.contentId := by
    intro f hf hlive
    show (w.contents.filter _).find? _ = _
    rw [List.find?_filter, World.findContent]
    congr 1
    funext c
    by_cases hid : c.id = f.contentId
    · simp [hid, hother f hf hlive]
    · simp [hid]
  refine ⟨h.congr (fun f hf _ => List.mem_of_mem_filter hf) hcontents, ?_⟩
  refine Space.ext rfl (drive_files_congr (fun i => ?_) hcontents) rfl
  show (w.files.filter _).find? _ = _
  rw [List.find?_filter]
  congr 1
  funext f
  cases hlive : f.live with
  | false => simp
  | true => simp [hlive]

theorem drive_addFolder {row : FolderRow} {uuids : Nat → Uuid} (hlive : row.live = true)
    (hfresh : ∀ f ∈ w.folders, f.id ≠ row.id) :
    drive { w with folders := w.folders ++ [row], uuids } = (drive w).apply (.addFolder row.id
      { owner := row.ownerId, place := row.parentId, name := row.name }) := by
  refine Space.ext rfl (drive_files_congr (fun _ => rfl) fun _ _ _ => rfl) ?_
  funext id
  show ((w.folders ++ [row]).find? _).map folderOf = Function.update (drive w).folders row.id _ id
  rw [find?_append_row hfresh]
  by_cases hid : id = row.id
  · rw [if_pos hid, hid, Function.update_self]
    show some (folderOf row) = _
    rw [folderOf, hlive]
  · rw [if_neg hid, Function.update_of_ne hid]
    rfl

theorem allowed_addFolder {folder : FolderRecord} {row : FolderRow}
    (h : CheckedFolder pg folder w row) :
    (drive w).Allowed (.addFolder row.id
      { owner := row.ownerId, place := row.parentId, name := row.name }) := by
  refine ⟨drive_folders_none h.fresh, ⟨?_, fun p hp => ?_⟩, ?_⟩
  · obtain ⟨u, hu, hid⟩ := h.user
    have hne := drive_users_ne hu
    rwa [hid] at hne
  · obtain ⟨g, hg, hid⟩ := h.parent p hp
    have hne := drive_folders_ne hg
    rwa [hid] at hne
  · intro id f hf hlive hlabel
    obtain ⟨other, hother, -, rfl⟩ := drive_folders hf
    obtain ⟨howner, hplace, hname⟩ := Label.mk.inj hlabel
    exact h.free other hother hlive howner hplace hname

/-- A file that has passed the checks may be added. -/
theorem allowed_addFile {file : FileRecord} {row : FileRow} {w₁ : World}
    (h : CheckedFile pg file w₁ row) (husers : w₁.users = w.users) (hfolders : w₁.folders = w.folders)
    (hfiles : w₁.files = w.files) (content : Option ContentRow) :
    (drive w).Allowed (.addFile row.id
      { label := { owner := row.ownerId, place := row.folderId, name := row.name }, content }) := by
  refine ⟨drive_files_none fun f hf => h.fresh f (hfiles ▸ hf), ⟨?_, fun p hp => ?_⟩, ?_⟩
  · obtain ⟨u, hu, hid⟩ := h.user
    have hne := drive_users_ne (husers ▸ hu)
    rwa [hid] at hne
  · obtain ⟨g, hg, hid⟩ := h.folder p hp
    have hne := drive_folders_ne (hfolders ▸ hg)
    rwa [hid] at hne
  · intro id f hf hlabel
    obtain ⟨other, hother, -, hlive, rfl⟩ := drive_files hf
    obtain ⟨howner, hplace, hname⟩ := Label.mk.inj hlabel
    exact h.free other (hfiles ▸ hother) hlive howner hplace hname

theorem grounded_addFile (h : Grounded w) {row : FileRow} (hfiles : w'.files = w.files ++ [row])
    (hrow : (w'.findContent row.contentId).isSome = true)
    (hfound : ∀ id, (w.findContent id).isSome = true → w'.findContent id = w.findContent id) :
    Grounded w' := by
  intro f hf hlive
  rw [hfiles, List.mem_append, List.mem_singleton] at hf
  rcases hf with hf | rfl
  · have hbefore := h f hf hlive
    rwa [hfound _ hbefore]
  · exact hrow

theorem driveStep_removeFile {text : Bytes} {id : Uuid} {r : Except Exn Unit} (h : Grounded w)
    (hid : pg.uuidParam text = .ok id) (hr : r = .ok ()) :
    Grounded { w with
        files := w.files.map fun f => if f.id = id then { f with deletedAt := some w.sqlNow } else f } ∧
      DriveStep pg (.fileSoftDelete text) r w { w with
        files := w.files.map fun f =>
          if f.id = id then { f with deletedAt := some w.sqlNow } else f } := by
  refine ⟨fun f hf hlive => ?_, ?_⟩
  · obtain ⟨f₀, hf₀, rfl⟩ := List.mem_map.mp hf
    by_cases hf₀id : f₀.id = id
    · rw [if_pos hf₀id] at hlive
      cases hlive
    · rw [if_neg hf₀id] at hlive ⊢
      exact h f₀ hf₀ hlive
  · have hdrive := @drive_removeFile w { w with
      files := w.files.map fun f => if f.id = id then { f with deletedAt := some w.sqlNow } else f }
        id w.sqlNow rfl rfl rfl rfl
    by_cases hnone : (drive w).files id = none
    · refine .same (hdrive.trans (Space.ext rfl (Function.update_eq_self_iff.mpr hnone.symm) rfl))
    · exact .changed (c := .fileSoftDelete text) (.removeFile id) hr hid hnone hdrive

theorem driveStep_removeFolder {text : Bytes} {id : Uuid} {r : Except Exn Unit}
    (hid : pg.uuidParam text = .ok id) (hr : r = .ok ()) :
    DriveStep pg (.folderSoftDelete text) r w { w with
      folders := w.folders.map fun f =>
        if f.id = id then { f with deletedAt := some w.sqlNow } else f } := by
  have hdrive := @drive_updateFolder w id
    (fun f => if f.id = id then { f with deletedAt := some w.sqlNow } else f)
    (fun f => { f with live := false }) (fun f => by split <;> rfl) (fun f hf => if_neg hf)
    fun f hf => by rw [if_pos hf]; rfl
  by_cases hlive : ∃ folder, (drive w).folders id = some folder ∧ folder.live = true
  · exact .changed (c := .folderSoftDelete text) (.removeFolder id) hr hid hlive hdrive
  · refine .same (hdrive.trans (update_folder_same fun folder hfolder => ?_))
    have hdead : folder.live = false :=
      Bool.eq_false_iff.mpr fun htrue => hlive ⟨folder, hfolder, htrue⟩
    rw [← hdead]

theorem driveStep_rename {text newName name : Bytes} {id : Uuid} {r : Except Exn Bool}
    (hid : pg.uuidParam text = .ok id) (hname : pg.textParam newName = .ok name) (hr : r = .ok true)
    (hfree : ∀ f ∈ w.folders, f.id = id → f.live = true → ∀ g ∈ w.folders, g.live = true → g.id ≠ id →
      g.ownerId = f.ownerId → g.parentId = f.parentId → g.name ≠ name) :
    DriveStep pg (.folderRename text newName) r w
      { w with folders := w.folders.map (renamed id name) } := by
  have hdrive := @drive_updateFolder w id (renamed id name)
    (fun f => if f.live then { f with label := { f.label with name } } else f)
    (fun f => by unfold renamed; split <;> rfl)
    (fun f hf => if_neg fun h => by
      rw [Bool.and_eq_true, decide_eq_true_eq] at h
      exact hf h.1)
    fun f hf => by
      unfold renamed
      cases hlive : f.live with
      | false => simp [folderOf, hlive]
      | true =>
          rw [hf, decide_eq_true rfl]
          show folderOf { f with name } = if f.live then _ else _
          rw [hlive]
          rfl
  by_cases hlive : ∃ folder, (drive w).folders id = some folder ∧ folder.live = true
  · obtain ⟨folder, hfolder, hlive⟩ := hlive
    refine .changed (c := .folderRename text newName) (.renameFolder id name) hr
      ⟨hid, hname⟩ ⟨folder, hfolder, hlive, ?_⟩ ?_
    · intro i f hf hflive hne hlabel
      obtain ⟨row, hrow, hrowid, rfl⟩ := drive_folders hfolder
      obtain ⟨other, hother, rfl, rfl⟩ := drive_folders hf
      obtain ⟨howner, hplace, hname⟩ := Label.mk.inj hlabel
      exact hfree row hrow hrowid hlive other hother hflive hne howner hplace hname
    · rw [hdrive]
      refine Space.ext rfl rfl ?_
      show Function.update (drive w).folders id _ = Function.update (drive w).folders id _
      rw [hfolder, Option.map_some, if_pos hlive]
      rfl
  · refine .same (hdrive.trans (update_folder_same fun folder hfolder => ?_))
    exact if_neg fun htrue => hlive ⟨folder, hfolder, htrue⟩

theorem drive_exec (hgrounded : Grounded w) {c : Call} {r : Except Exn c.Resp}
    (hexec : exec svc pg c w = (r, w')) : Grounded w' ∧ DriveStep pg c r w w' := by
  have hw : w' = (exec svc pg c w).2 := by rw [hexec]
  have hkept : ∀ {v : World}, v.users = w.users → v.folders = w.folders → v.files = w.files →
      v.contents = w.contents → Grounded v ∧ DriveStep pg c r w v := by
    intro v husers hfolders hfiles hcontents
    refine ⟨hgrounded.congr (fun f hf _ => hfiles ▸ hf) fun f _ _ => ?_,
      .same (drive_tables husers hfolders hfiles hcontents)⟩
    rw [World.findContent, World.findContent, hcontents]
  by_cases hr : readOnly c = true
  · obtain ⟨draws, hd⟩ := @exec_readOnly svc pg c hr w
    rw [hw, hd]
    exact hkept rfl rfl rfl rfl
  cases c with
  | put data =>
      rcases exec_put hexec with ⟨rfl, -⟩ | ⟨-, -, rfl⟩
      · exact hkept rfl rfl rfl rfl
      · exact hkept rfl rfl rfl rfl
  | redisSet key value ttl =>
      rw [hw]
      exact hkept rfl rfl rfl rfl
  | redisDel key =>
      rw [hw]
      exact hkept rfl rfl rfl rfl
  | hset key field value =>
      obtain ⟨redis, hh⟩ := hset_data key field value w
      rw [show w' = (hset key field value w).2 from hw, hh]
      exact hkept rfl rfl rfl rfl
  | registerUser username password =>
      rcases exec_registerUser_checked hexec with ⟨rfl, -⟩ | ⟨row, hrow, hr, rfl⟩
      · exact hkept rfl rfl rfl rfl
      · refine ⟨fun f hf hlive => hgrounded f hf hlive, .changed (a := some row.id.text)
          (.addUser row.id row.username) hr hrow.username ⟨drive_users_none hrow.fresh, ?_⟩
          (drive_addUser hrow.fresh rfl rfl rfl rfl)⟩
        intro id hid
        obtain ⟨u, hu, -, hname⟩ := drive_users hid
        exact hrow.free u hu hname
  | folderInsert folder =>
      rcases exec_folderInsert_checked hexec with rfl | ⟨row, hrow, hr, rfl⟩
      · exact hkept rfl rfl rfl rfl
      · exact ⟨fun f hf hlive => hgrounded f hf hlive, .changed
          (.addFolder row.id { owner := row.ownerId, place := row.parentId, name := row.name }) hr
          ⟨hrow.ownerId, hrow.parentId, hrow.name⟩ (allowed_addFolder hrow)
          (drive_addFolder hrow.live hrow.fresh)⟩
  | folderRename text newName =>
      rcases exec_folderRename_checked hexec with rfl | ⟨id, name, hid, hname, hr, hfree, rfl⟩
      · exact hkept rfl rfl rfl rfl
      · exact ⟨fun f hf hlive => hgrounded f hf hlive, driveStep_rename hid hname hr hfree⟩
  | folderSoftDelete text =>
      rcases exec_folderSoftDelete_checked hexec with rfl | ⟨id, hid, hr, rfl⟩
      · exact hkept rfl rfl rfl rfl
      · exact ⟨fun f hf hlive => hgrounded f hf hlive, driveStep_removeFolder hid hr⟩
  | fileInsert file =>
      rcases exec_fileInsert_checked hexec with ⟨e, -, rfl⟩ | ⟨row, contents, hrow, hr, hfound, rfl⟩
      · exact hkept rfl rfl rfl rfl
      · exact ⟨grounded_addFile hgrounded rfl hrow.content hfound, .changed (.addFile row.id _) hr
          ⟨hrow.ownerId, hrow.folderId, hrow.name⟩ (allowed_addFile (w := w) hrow rfl rfl rfl _)
          (drive_addFile hgrounded hrow.live hrow.fresh rfl rfl rfl hfound)⟩
  | insertLink file contentId =>
      rcases exec_insertLink_checked hexec with ⟨e, -, rfl⟩ | ⟨row, hrow, hr, rfl⟩
      · exact hkept rfl rfl rfl rfl
      · exact ⟨grounded_addFile hgrounded rfl hrow.content fun _ _ => rfl, .changed (.addFile row.id _) hr
          ⟨hrow.ownerId, hrow.folderId, hrow.name⟩ (allowed_addFile (w := w) hrow rfl rfl rfl _)
          (drive_addFile hgrounded hrow.live hrow.fresh rfl rfl rfl fun _ _ => rfl)⟩
  | fileSoftDelete text =>
      rcases exec_fileSoftDelete hexec with ⟨e, -, rfl⟩ | ⟨id, hid, hr, rfl⟩
      · exact hkept rfl rfl rfl rfl
      · exact driveStep_removeFile hgrounded hid hr
  | shareInsert record =>
      rcases exec_shareInsert hexec with rfl | ⟨row, -, rfl⟩
      · exact hkept rfl rfl rfl rfl
      · exact hkept rfl rfl rfl rfl
  | incrementDownloadCount id =>
      obtain ⟨g, -, rfl⟩ := exec_incrementDownloadCount hexec
      exact hkept rfl rfl rfl rfl
  | revoke id ownerId =>
      rcases exec_revoke hexec with rfl | ⟨u, owner, -, -, rfl⟩
      · exact hkept rfl rfl rfl rfl
      · exact hkept rfl rfl rfl rfl
  | revokeByFileId fileId =>
      rcases exec_revokeByFileId hexec with ⟨e, -, -, rfl⟩ | ⟨u, -, -, rfl⟩
      · exact hkept rfl rfl rfl rfl
      · exact hkept rfl rfl rfl rfl
  | purgeContent content =>
      cases exec_purgeContent hexec with
      | nothing => exact hkept rfl rfl rfl rfl
      | swept _ b _ hdead _ _ _ _ =>
          cases b with
          | false => exact hkept rfl rfl rfl rfl
          | true => exact ⟨(drive_sweep hgrounded hdead).1, .same (drive_sweep hgrounded hdead).2⟩
  | _ => exact absurd rfl hr

end Step

/-! ## Any interleaving -/

section Interleavings

variable {svc : Services} {pg : Postgres} {ι α : Type} [DecidableEq ι] {w₀ w w' : World}
  {P₀ P P' : Pool ι Call Call.Resp Exn α}

/-- Some process has made the call, and it has succeeded. -/
def Succeeded (P : Pool ι Call Call.Resp Exn α) (c : Call) : Prop :=
  ∃ i a, (⟨c, .ok a⟩ : Event Call Call.Resp Exn) ∈ (P i).log

/-- It was made after the pool was `P₀`. -/
def SucceededSince (P₀ P : Pool ι Call Call.Resp Exn α) (c : Call) : Prop :=
  ∃ i a made, (P i).log = (P₀ i).log ++ made ∧ (⟨c, .ok a⟩ : Event Call Call.Resp Exn) ∈ made

omit [DecidableEq ι] in
theorem SucceededSince.succeeded {c : Call} (h : SucceededSince P₀ P c) : Succeeded P c := by
  obtain ⟨i, a, made, hlog, hmem⟩ := h
  exact ⟨i, a, hlog ▸ List.mem_append_right _ hmem⟩

/-- What every process has called before is still in its log. -/
def LogsKept (P₀ P : Pool ι Call Call.Resp Exn α) : Prop := ∀ i, ∃ made, (P i).log = (P₀ i).log ++ made

theorem LogsKept.advance (h : LogsKept P₀ P) (i : ι) (c : Call) (r : Except Exn c.Resp) (next : App α) :
    LogsKept P₀ (P.advance i c r next) := by
  intro j
  obtain ⟨made, hlog⟩ := h j
  by_cases hj : j = i
  · subst hj
    refine ⟨made ++ [⟨c, r⟩], ?_⟩
    rw [Pool.advance_self, hlog, List.append_assoc]
  · refine ⟨made, ?_⟩
    rw [Pool.advance_ne P hj, hlog]

theorem SucceededSince.advance {c : Call} (h : SucceededSince P₀ P c) (i : ι) (c' : Call)
    (r : Except Exn c'.Resp) (next : App α) : SucceededSince P₀ (P.advance i c' r next) c := by
  obtain ⟨j, a, made, hlog, hmem⟩ := h
  by_cases hj : j = i
  · subst hj
    refine ⟨j, a, made ++ [⟨c', r⟩], ?_, List.mem_append_left _ hmem⟩
    rw [Pool.advance_self, hlog, List.append_assoc]
  · refine ⟨j, a, made, ?_, hmem⟩
    rw [Pool.advance_ne P hj, hlog]

/-- The call that is made now is made since then. -/
theorem LogsKept.succeededSince (h : LogsKept P₀ P) (i : ι) {c : Call} (a : c.Resp) (next : App α) :
    SucceededSince P₀ (P.advance i c (.ok a) next) c := by
  obtain ⟨made, hlog⟩ := h i
  refine ⟨i, a, made ++ [⟨c, .ok a⟩], ?_, List.mem_append_right _ (List.mem_singleton_self _)⟩
  rw [Pool.advance_self, hlog, List.append_assoc]

theorem Beside.drive (h : Beside w w') : drive w' = drive w ∧ (Grounded w → Grounded w') := by
  cases h with
  | revokeExpired => exact ⟨drive_tables rfl rfl rfl rfl, fun h f hf hlive => h f hf hlive⟩
  | tick time => exact ⟨drive_tables rfl rfl rfl rfl, fun h f hf hlive => h f hf hlive⟩
  | expire key => exact ⟨drive_tables rfl rfl rfl rfl, fun h f hf hlive => h f hf hlive⟩

/-- From any state in which live files have their content. -/
theorem refines_run (hgrounded : Grounded w₀)
    (hrun : Pool.Interleaved (exec svc pg) Beside w₀ P₀ w P) :
    Grounded w ∧ ∃ changes, Space.Changes (drive w₀) changes (drive w) ∧
      ∀ change ∈ changes, ∃ c, SucceededSince P₀ P c ∧ Causes pg c change := by
  suffices h : LogsKept P₀ P ∧ Grounded w ∧ ∃ changes, Space.Changes (drive w₀) changes (drive w) ∧
      ∀ change ∈ changes, ∃ c, SucceededSince P₀ P c ∧ Causes pg c change from h.2
  refine hrun.invariant (fun w P => LogsKept P₀ P ∧ Grounded w ∧
    ∃ changes, Space.Changes (drive w₀) changes (drive w) ∧
      ∀ change ∈ changes, ∃ c, SucceededSince P₀ P c ∧ Causes pg c change) ?_ ?_ ?_
  · exact ⟨fun i => ⟨[], (List.append_nil _).symm⟩, hgrounded, [], .nil,
      fun change hmem => absurd hmem List.not_mem_nil⟩
  · rintro w₁ w₂ Q i c k r ⟨hgrown, h₁, changes, hchanges, hcaused⟩ hcall hexec
    obtain ⟨h₂, hstep⟩ := drive_exec h₁ hexec
    have hbefore : ∀ change ∈ changes, ∃ c', SucceededSince P₀ (Q.advance i c r (k r)) c' ∧
        Causes pg c' change := by
      intro change hmem
      obtain ⟨c', hdone, hcause⟩ := hcaused change hmem
      exact ⟨c', hdone.advance i c r (k r), hcause⟩
    refine ⟨hgrown.advance i c r (k r), h₂, ?_⟩
    cases hstep with
    | same hsame => exact ⟨changes, hsame ▸ hchanges, hbefore⟩
    | @changed a change hr hcause hallowed hnext =>
        refine ⟨changes ++ [change], .snoc hchanges hallowed (congrArg some hnext.symm), ?_⟩
        intro other hmem
        rcases List.mem_append.mp hmem with hmem | hmem
        · exact hbefore other hmem
        · rw [List.mem_singleton.mp hmem]
          subst hr
          exact ⟨c, hgrown.succeededSince i a (k (.ok a)), hcause⟩
  · rintro w₁ w₂ Q ⟨hgrown, h₁, changes, hchanges, hcaused⟩ hbeside
    obtain ⟨hsame, hkeep⟩ := hbeside.drive
    exact ⟨hgrown, hkeep h₁, changes, hsame ▸ hchanges, hcaused⟩

theorem Initial.grounded (h : Initial w) : Grounded w := by
  intro f hf
  rw [h.files] at hf
  cases hf

theorem Initial.space_sound (h : Initial w) (husers : (w.users.map UserRow.username).Nodup) :
    (drive w).Sound := by
  have hfiles : ∀ id, (drive w).files id = none := fun id => drive_files_none fun f hf => by
    rw [h.files] at hf
    cases hf
  have hfolders : ∀ id, (drive w).folders id = none := fun id => drive_folders_none fun f hf => by
    rw [h.folders] at hf
    cases hf
  refine ⟨fun u v name hu hv => ?_, fun i j f g hf => ?_, fun i j f g hf => ?_, fun i f hf => ?_,
    fun i f hf => ?_, fun _ => 0, fun i f p hf => ?_⟩
  · obtain ⟨x, hx, rfl, hname⟩ := drive_users hu
    obtain ⟨y, hy, rfl, hname'⟩ := drive_users hv
    rw [List.inj_on_of_nodup_map husers hx hy (hname.trans hname'.symm)]
  · rw [hfiles i] at hf
    cases hf
  · rw [hfolders i] at hf
    cases hf
  · rw [hfiles i] at hf
    cases hf
  · rw [hfolders i] at hf
    cases hf
  · rw [hfolders i] at hf
    cases hf

/-- **Whatever runs side by side refines the namespace.** The drive changes by
allowed changes only, each of them the effect of a call that has succeeded. What
else is called, the collector and what goes on beside leave it as it is. -/
theorem drive_refined (h₀ : Initial w₀) (hrun : Pool.Interleaved (exec svc pg) Beside w₀ P₀ w P) :
    ∃ changes, Space.Changes (drive w₀) changes (drive w) ∧
      ∀ change ∈ changes, ∃ c, Succeeded P c ∧ Causes pg c change := by
  obtain ⟨-, changes, hchanges, hcaused⟩ := refines_run h₀.grounded hrun
  refine ⟨changes, hchanges, fun change hmem => ?_⟩
  obtain ⟨c, hdone, hcause⟩ := hcaused change hmem
  exact ⟨c, hdone.succeeded, hcause⟩

/-- **Names are unique in every state of every interleaving, and folders are a forest.** -/
theorem drive_sound (h₀ : Initial w₀) (husers : (w₀.users.map UserRow.username).Nodup)
    (hrun : Pool.Interleaved (exec svc pg) Beside w₀ P₀ w P) :
    (drive w).Sound ∧ WellFounded (drive w).Inside := by
  obtain ⟨-, changes, hchanges, -⟩ := refines_run h₀.grounded hrun
  have hsound := Space.Changes.sound hchanges (h₀.space_sound husers)
  exact ⟨hsound, hsound.wellFounded⟩

/-- **A file stays what it is until it is deleted**: its owner, folder, name and
content. Folders stay where they are, and one that is deleted does not come back. -/
theorem entries_kept (h₀ : Initial w₀) (hbefore : Pool.Interleaved (exec svc pg) Beside w₀ P₀ w P)
    (hafter : Pool.Interleaved (exec svc pg) Beside w P w' P') :
    (∀ id f, (drive w).files id = some f →
      (∀ text, pg.uuidParam text = .ok id → ¬ SucceededSince P P' (.fileSoftDelete text)) →
        (drive w').files id = some f) ∧
      ∀ id g, (drive w).folders id = some g → ∃ g', (drive w').folders id = some g' ∧
        g'.label.owner = g.label.owner ∧ g'.label.place = g.label.place ∧
          (g'.live = true → g.live = true) := by
  obtain ⟨hgrounded, -⟩ := refines_run h₀.grounded hbefore
  obtain ⟨-, changes, hchanges, hcaused⟩ := refines_run hgrounded hafter
  refine ⟨fun id f hf hnot => ?_, fun id g hg => Space.Changes.folder hchanges hg⟩
  refine Space.Changes.file hchanges hf fun hmem => ?_
  obtain ⟨c, hdone, hcause⟩ := hcaused _ hmem
  cases c with
  | fileSoftDelete text => exact hnot text hcause hdone
  | _ => exact hcause.elim

end Interleavings

/-! ### One name for two folders -/

def folderD : FolderRecord := { name := ascii "d", ownerId := aliceId.text }

def fileX : FileRecord :=
  { name := ascii "x", ownerId := aliceId.text, hash := ascii "h", chunkHashes := ascii "[]" }

/-- A program of one call. -/
def only (c : Call) : Proc Call Call.Resp Exn Unit := { log := [], prog := .call c fun _ => .ret () }

/-- A file is added, the folder `d` is made twice and given another name. -/
def twiceTheFolder : Pool (Fin 4) Call Call.Resp Exn Unit
  | 0 => only (.fileInsert fileX)
  | 1 => only (.folderInsert folderD)
  | 2 => only (.folderInsert folderD)
  | 3 => only (.folderRename (sampleId 2).text (ascii "e"))

def deletesFile : Call → Bool
  | .fileSoftDelete _ => true
  | _ => false

theorem twice_run : ∃ w P w' P',
    Pool.Interleaved (exec sampleServices samplePostgres) Beside idsInTurn twiceTheFolder w P ∧
      Pool.Interleaved (exec sampleServices samplePostgres) Beside w P w' P' ∧
      w.files.map (fun f => (f.id, f.live)) = [(sampleId 1, true)] ∧
      w'.folders.map (fun f => (f.id, f.name)) = [(sampleId 2, ascii "e")] ∧
      ∀ i, ∀ e ∈ (P' i).log, deletesFile e.call = false := by
  have hrun : ((Pool.runSchedule (exec sampleServices samplePostgres) (fun _ _ _ _ => true) [0, 1]
      idsInTurn twiceTheFolder).any fun p =>
        (p.1.files.map fun f => (f.id, f.live)) == [(sampleId 1, true)] &&
          (Pool.runSchedule (exec sampleServices samplePostgres) (fun _ _ _ _ => true) [2, 3] p.1
            p.2).any fun q =>
              (q.1.folders.map fun f => (f.id, f.name)) == [(sampleId 2, ascii "e")] &&
                decide (∀ i, ((q.2 i).log.all fun e => !deletesFile e.call) = true)) = true := by
    decide +kernel
  obtain ⟨⟨w, P⟩, hsched, hp⟩ := (Option.any_eq_true _ _).mp hrun
  rw [Bool.and_eq_true, beq_iff_eq] at hp
  obtain ⟨⟨w', P'⟩, hsched', hq⟩ := (Option.any_eq_true _ _).mp hp.2
  rw [Bool.and_eq_true, beq_iff_eq, decide_eq_true_eq] at hq
  refine ⟨w, P, w', P', Pool.interleaved_of_schedule hsched, Pool.interleaved_of_schedule hsched',
    hp.1, hq.1, fun i e he => ?_⟩
  exact (Bool.not_eq_true' _).mp (List.all_eq_true.mp (hq.2 i) e he)

theorem idsInTurn_initial : Initial idsInTurn := ⟨fun _ => rfl, rfl, rfl, rfl, rfl, fun _ => rfl⟩

theorem twice_refined : ∃ w changes, w.folders.map (fun f => (f.id, f.name)) = [(sampleId 2, ascii "e")] ∧
    Space.Changes (drive idsInTurn) changes (drive w) := by
  obtain ⟨w, P, w', P', hbefore, hafter, -, hfolders, -⟩ := twice_run
  obtain ⟨changes, hchanges, -⟩ := drive_refined idsInTurn_initial (hbefore.trans hafter)
  exact ⟨w', changes, hfolders, hchanges⟩

theorem twice_sound : ∃ w, w.folders.map (fun f => (f.id, f.name)) = [(sampleId 2, ascii "e")] ∧
    (drive w).Sound := by
  obtain ⟨w, P, w', P', hbefore, hafter, -, hfolders, -⟩ := twice_run
  have hnames : (idsInTurn.users.map UserRow.username).Nodup := by decide
  exact ⟨w', hfolders, (drive_sound idsInTurn_initial hnames (hbefore.trans hafter)).1⟩

theorem twice_kept : ∃ w w' f, w'.folders.map (fun f => (f.id, f.name)) = [(sampleId 2, ascii "e")] ∧
    (drive w).files (sampleId 1) = some f ∧ (drive w').files (sampleId 1) = some f := by
  obtain ⟨w, P, w', P', hbefore, hafter, hfiles, hfolders, hcalls⟩ := twice_run
  obtain ⟨f, hf, hid⟩ := List.mem_map.mp
    (show (sampleId 1, true) ∈ w.files.map fun f => (f.id, f.live) by
      rw [hfiles]
      exact List.mem_singleton_self _)
  obtain ⟨hid, hlive⟩ := Prod.mk.inj hid
  have hsome : (drive w).files (sampleId 1) ≠ none := by
    intro hnone
    refine List.find?_eq_none.mp (Option.map_eq_none_iff.mp hnone) f hf ?_
    rw [hlive, decide_eq_true hid]
    rfl
  obtain ⟨entry, hentry⟩ := Option.ne_none_iff_exists'.mp hsome
  refine ⟨w, w', entry, hfolders, hentry,
    (entries_kept idsInTurn_initial hbefore hafter).1 (sampleId 1) entry hentry fun text _ hdone => ?_⟩
  obtain ⟨i, a, hmem⟩ := hdone.succeeded
  cases hcalls i _ hmem

end SolarDrive.Runs
