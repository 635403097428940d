import SolarDrive.Metadata.Names
import SolarDrive.Runs.Sizes

/-!
# The folder tree

Deletion marks a folder and keeps its row, so that no foreign key speaks up for
what is in it. That nothing live sits in a deleted folder (`Placed`) is left to
the handlers: who inserts has just found the folder live, and `handle_delete`
has just found it empty. A completed upload is the exception. Its folder was
looked up when the upload was started, and can be gone since.
-/

namespace SolarDrive.Runs

open Lib Http Api Metadata Prog

/-- There is a live folder with this id and owner. -/
def FolderLives (w : World) (owner id : Uuid) : Prop :=
  ∃ g ∈ w.folders, g.id = id ∧ g.ownerId = owner ∧ g.live = true

/-- What is live is at the root, or in a live folder of its owner. -/
structure Placed (w : World) : Prop where
  files : ∀ f ∈ w.files, f.live = true → ∀ p, f.folderId = some p → FolderLives w f.ownerId p
  folders : ∀ f ∈ w.folders, f.live = true → ∀ p, f.parentId = some p → FolderLives w f.ownerId p

/-- The folder of a session, live or not, is one of the session's user. -/
def SessionPlaced (pg : Postgres) (w : World) (id : Bytes) : Prop :=
  ∀ folder, hget w (sessionKey id) (ascii "folder_id") = some folder → folder ≠ [] →
    ∃ g ∈ w.folders, pg.uuidParam folder = .ok g.id ∧
      hget w (sessionKey id) (ascii "user_id") = some g.ownerId.text

/-- The invariant. -/
structure Orderly (pg : Postgres) (w : World) : Prop where
  placed : Placed w
  sessions : ∀ id, SessionPlaced pg w id
  sessionKeys : ∀ id, HashKey w (sessionKey id)

/-- The root, or a live folder of this user. -/
def LiveFolder (pg : Postgres) (w : World) (userId folderId : Bytes) : Prop :=
  folderId ≠ [] → ∃ g ∈ w.folders, pg.uuidParam folderId = .ok g.id ∧ g.ownerId.text = userId ∧
    g.live = true

/-! ## What one call does to the tree -/

section Step

variable {svc : Services} {pg : Postgres} {w w' : World}

/-- No folder is deleted. -/
def FoldersStay (w w' : World) : Prop :=
  ∀ g ∈ w.folders, ∃ g' ∈ w'.folders, g'.id = g.id ∧ g'.ownerId = g.ownerId ∧ g'.live = g.live

theorem FoldersStay.of_subset (h : w.folders ⊆ w'.folders) : FoldersStay w w' :=
  fun g hg => ⟨g, h hg, rfl, rfl, rfl⟩

theorem FolderLives.mono {owner id : Uuid} (h : FolderLives w owner id) (hstay : FoldersStay w w') :
    FolderLives w' owner id := by
  obtain ⟨g, hg, rfl, rfl, hlive⟩ := h
  obtain ⟨g', hg', hid, howner, hlive'⟩ := hstay g hg
  exact ⟨g', hg', hid, howner, hlive'.trans hlive⟩

theorem LiveFolder.mono {userId folderId : Bytes} (h : LiveFolder pg w userId folderId)
    (hstay : FoldersStay w w') : LiveFolder pg w' userId folderId := by
  intro hne
  obtain ⟨g, hg, hid, rfl, hlive⟩ := h hne
  obtain ⟨g', hg', hid', howner, hlive'⟩ := hstay g hg
  exact ⟨g', hg', hid' ▸ hid, congrArg Uuid.text howner, hlive'.trans hlive⟩

theorem LiveFolder.root (pg : Postgres) (w : World) (userId : Bytes) : LiveFolder pg w userId [] :=
  fun hne => absurd rfl hne

/-- A session stays as it is while its folder and its key do. -/
theorem SessionPlaced.mono {id : Bytes} (h : SessionPlaced pg w id)
    (hfolders : ∀ g ∈ w.folders, ∃ g' ∈ w'.folders, g'.id = g.id ∧ g'.ownerId = g.ownerId)
    (hredis : w'.redis (cstr (sessionKey id)) = w.redis (cstr (sessionKey id))) :
    SessionPlaced pg w' id := by
  have hsame : ∀ field, hget w' (sessionKey id) field = hget w (sessionKey id) field := by
    intro field
    rw [hget, hget, hredis]
  intro folder hfolder hne
  rw [hsame] at hfolder ⊢
  obtain ⟨g, hg, hid, huser⟩ := h folder hfolder hne
  obtain ⟨g', hg', hid', howner⟩ := hfolders g hg
  exact ⟨g', hg', hid' ▸ hid, howner ▸ huser⟩

/-- Live files and folders were there before, and folders have stayed. -/
theorem Placed.mono (h : Placed w) (hstay : FoldersStay w w')
    (hfiles : ∀ f ∈ w'.files, f.live = true → f ∈ w.files)
    (hfolders : ∀ f ∈ w'.folders, f.live = true → ∃ f' ∈ w.folders,
      f'.live = true ∧ f'.parentId = f.parentId ∧ f'.ownerId = f.ownerId) : Placed w' := by
  refine ⟨fun f hf hlive p hp => (h.files f (hfiles f hf hlive) hlive p hp).mono hstay, ?_⟩
  intro f hf hlive p hp
  obtain ⟨f', hf', hlive', hparent, howner⟩ := hfolders f hf hlive
  exact howner ▸ (h.folders f' hf' hlive' p (hparent.trans hp)).mono hstay

/-- Folders and Redis as before, and no new file. -/
theorem Orderly.congr (h : Orderly pg w) (hfiles : ∀ f ∈ w'.files, f.live = true → f ∈ w.files)
    (hfolders : w'.folders = w.folders) (hredis : w'.redis = w.redis) : Orderly pg w' := by
  have hstay : FoldersStay w w' := .of_subset (by rw [hfolders]; exact List.Subset.refl _)
  refine ⟨h.placed.mono hstay hfiles fun f hf hlive => ?_, fun id => ?_, fun id v hv => ?_⟩
  · exact ⟨f, hfolders ▸ hf, hlive, rfl, rfl⟩
  · refine (h.sessions id).mono (fun g hg => ?_) (by rw [hredis])
    exact ⟨g, hfolders ▸ hg, rfl, rfl⟩
  · exact h.sessionKeys id v (hredis ▸ hv)

theorem Orderly.draws (h : Orderly pg w) (draws : Nat → Nat) : Orderly pg { w with draws } :=
  h.congr (fun _ hf _ => hf) rfl rfl

theorem Orderly.insertFile (h : Orderly pg w) {row : FileRow}
    (hrow : ∀ p, row.folderId = some p → FolderLives w row.ownerId p)
    (hfiles : w'.files = w.files ++ [row]) (hfolders : w'.folders = w.folders)
    (hredis : w'.redis = w.redis) : Orderly pg w' := by
  have hbefore : Orderly pg { w' with files := w.files } := h.congr (fun _ hf _ => hf) hfolders hredis
  refine ⟨⟨fun f hf hlive p hp => ?_, hbefore.placed.folders⟩, hbefore.sessions,
    hbefore.sessionKeys⟩
  have hstay : FoldersStay w w' := .of_subset (by rw [hfolders]; exact List.Subset.refl _)
  rw [hfiles, List.mem_append, List.mem_singleton] at hf
  rcases hf with hf | rfl
  · exact (h.placed.files f hf hlive p hp).mono hstay
  · exact (hrow p hp).mono hstay

theorem Orderly.insertFolder (h : Orderly pg w) {row : FolderRow}
    (hrow : ∀ p, row.parentId = some p → FolderLives w row.ownerId p)
    (hfolders : w'.folders = w.folders ++ [row]) (hfiles : w'.files = w.files)
    (hredis : w'.redis = w.redis) : Orderly pg w' := by
  have hsub : w.folders ⊆ w'.folders := by
    rw [hfolders]
    exact List.subset_append_left _ _
  have hstay : FoldersStay w w' := .of_subset hsub
  refine ⟨⟨fun f hf hlive p hp => ?_, fun f hf hlive p hp => ?_⟩, fun id => ?_, fun id v hv => ?_⟩
  · exact (h.placed.files f (hfiles ▸ hf) hlive p hp).mono hstay
  · rw [hfolders, List.mem_append, List.mem_singleton] at hf
    rcases hf with hf | rfl
    · exact (h.placed.folders f hf hlive p hp).mono hstay
    · exact (hrow p hp).mono hstay
  · exact (h.sessions id).mono (fun g hg => ⟨g, hsub hg, rfl, rfl⟩) (by rw [hredis])
  · exact h.sessionKeys id v (hredis ▸ hv)

/-- An update of folders that leaves them where they are. -/
theorem Orderly.updateFolders (h : Orderly pg w) {g : FolderRow → FolderRow}
    (hg : ∀ f, (g f).id = f.id ∧ (g f).ownerId = f.ownerId ∧ (g f).parentId = f.parentId ∧
      (g f).live = f.live) : Orderly pg { w with folders := w.folders.map g } ∧
    FoldersStay w { w with folders := w.folders.map g } := by
  have hstay : FoldersStay w { w with folders := w.folders.map g } := fun f hf =>
    ⟨g f, List.mem_map_of_mem hf, (hg f).1, (hg f).2.1, (hg f).2.2.2⟩
  refine ⟨⟨h.placed.mono hstay (fun _ hf _ => hf) ?_, fun id => ?_, h.sessionKeys⟩, hstay⟩
  · intro f hf hlive
    obtain ⟨f₀, hf₀, rfl⟩ := List.mem_map.mp hf
    obtain ⟨-, howner, hparent, hlive'⟩ := hg f₀
    exact ⟨f₀, hf₀, hlive'.symm.trans hlive, hparent.symm, howner.symm⟩
  · exact (h.sessions id).mono
      (fun f hf => ⟨g f, List.mem_map_of_mem hf, (hg f).1, (hg f).2.1⟩) rfl

/-- The deletion of an empty folder. -/
theorem Orderly.softDelete (h : Orderly pg w) {id : Uuid}
    (hfolders : ∀ f ∈ w.folders, f.live = true → f.parentId ≠ some id)
    (hfiles : ∀ f ∈ w.files, f.live = true → f.folderId ≠ some id) (now : Int) :
    Orderly pg { w with
      folders := w.folders.map fun f => if f.id = id then { f with deletedAt := some now } else f } := by
  have hlives : ∀ {owner p : Uuid}, FolderLives w owner p → p ≠ id → FolderLives { w with
      folders := w.folders.map fun f => if f.id = id then { f with deletedAt := some now } else f }
        owner p := by
    rintro owner _ ⟨g, hg, rfl, howner, hlive⟩ hne
    have hmem := List.mem_map_of_mem (f := fun f : FolderRow =>
      if f.id = id then { f with deletedAt := some now } else f) hg
    rw [if_neg hne] at hmem
    exact ⟨g, hmem, rfl, howner, hlive⟩
  refine ⟨⟨fun f hf hlive p hp => ?_, fun f hf hlive p hp => ?_⟩, fun key => ?_, h.sessionKeys⟩
  · exact hlives (h.placed.files f hf hlive p hp) fun heq => hfiles f hf hlive (heq ▸ hp)
  · obtain ⟨f₀, hf₀, rfl⟩ := List.mem_map.mp hf
    by_cases hid : f₀.id = id
    · rw [if_pos hid] at hlive
      cases hlive
    · rw [if_neg hid] at hlive hp ⊢
      exact hlives (h.placed.folders f₀ hf₀ hlive p hp) fun heq => hfolders f₀ hf₀ hlive (heq ▸ hp)
  · refine (h.sessions key).mono (fun g hg => ⟨_, List.mem_map_of_mem hg, ?_⟩) rfl
    split <;> exact ⟨rfl, rfl⟩

/-- Redis is written outside of the sessions, or a key is deleted. -/
theorem Orderly.setKey (h : Orderly pg w) {key : Bytes} {v : Option RedisValue}
    (hkey : v = none ∨ ∀ id, cstr key ≠ cstr (sessionKey id)) :
    Orderly pg { w with redis := Function.update w.redis (cstr key) v } := by
  have hother : ∀ id, cstr (sessionKey id) ≠ cstr key →
      Function.update w.redis (cstr key) v (cstr (sessionKey id)) =
        w.redis (cstr (sessionKey id)) := fun id hne => Function.update_of_ne hne _ _
  refine ⟨⟨h.placed.files, h.placed.folders⟩, fun id => ?_, fun id x hx => ?_⟩
  · by_cases hid : cstr (sessionKey id) = cstr key
    · have hnone : v = none := hkey.resolve_right fun hne => hne id hid.symm
      intro folder hfolder
      rw [hget] at hfolder
      dsimp only at hfolder
      rw [hid, Function.update_self, hnone] at hfolder
      cases hfolder
    · exact (h.sessions id).mono (fun g hg => ⟨g, hg, rfl, rfl⟩) (hother id hid)
  · dsimp only at hx
    by_cases hid : cstr (sessionKey id) = cstr key
    · have hnone : v = none := hkey.resolve_right fun hne => hne id hid.symm
      rw [hid, Function.update_self, hnone] at hx
      cases hx
    · rw [hother id hid] at hx
      exact h.sessionKeys id x hx

/-- The calls that insert for this user into this folder, and those that leave
sessions and folders as they are. -/
def into (userId folderId : Bytes) : Call → Prop
  | .folderInsert folder => folder.ownerId = userId ∧ folder.parentId = folderId
  | .fileInsert file | .insertLink file _ => file.ownerId = userId ∧ file.folderId = folderId
  | .redisSet key _ _ => ∀ id, cstr key ≠ cstr (sessionKey id)
  | .hset _ _ _ | .folderSoftDelete _ => False
  | _ => True

variable {json : JsonLib} {userId folderId : Bytes}

theorem into_of_reads {c : Call} (hc : readOnly c = true) : into userId folderId c := by
  cases c <;> trivial

/-- A row for a live folder is placed. -/
theorem LiveFolder.lives (hpg : pg.Lawful json) (h : LiveFolder pg w userId folderId) {owner : Uuid}
    {folder : Option Uuid} (howner : pg.uuidParam userId = .ok owner)
    (hfolder : pg.optionalUuid folderId = .ok folder) (p : Uuid) (hp : folder = some p) :
    FolderLives w owner p := by
  subst hp
  unfold Postgres.optionalUuid at hfolder
  split at hfolder
  · cases hfolder
  · rename_i hne
    obtain ⟨g, hg, hid, rfl, hlive⟩ := h hne
    rw [hid] at hfolder
    rw [uuidParam_text hpg] at howner
    cases hfolder
    cases howner
    exact ⟨g, hg, rfl, rfl, hlive⟩

theorem Orderly.step (hpg : pg.Lawful json) {c : Call} {r : Except Exn c.Resp}
    (h : Orderly pg w) (hlive : LiveFolder pg w userId folderId) (hc : into userId folderId c)
    (hexec : exec svc pg c w = (r, w')) : Orderly pg w' ∧ FoldersStay w w' := by
  have hw : w' = (exec svc pg c w).2 := by rw [hexec]
  have hsame : w.folders ⊆ w.folders := List.Subset.refl _
  by_cases hr : readOnly c = true
  · obtain ⟨draws, hd⟩ := @exec_readOnly svc pg c hr w
    rw [hw, hd]
    exact ⟨h.draws draws, .of_subset hsame⟩
  cases c with
  | put data =>
      rcases exec_put hexec with ⟨rfl, -⟩ | ⟨-, -, rfl⟩ <;>
        exact ⟨h.congr (fun _ hf _ => hf) rfl rfl, .of_subset hsame⟩
  | redisSet key value ttl =>
      rw [hw]
      exact ⟨h.setKey (Or.inr hc), .of_subset hsame⟩
  | redisDel key =>
      rw [hw]
      exact ⟨h.setKey (Or.inl rfl), .of_subset hsame⟩
  | registerUser username password =>
      obtain ⟨users, rfl⟩ := exec_registerUser hexec
      exact ⟨h.congr (fun _ hf _ => hf) rfl rfl, .of_subset hsame⟩
  | folderInsert folder =>
      obtain ⟨rfl, rfl⟩ := hc
      rcases exec_folderInsert hexec with rfl | ⟨row, hrow, rfl⟩
      · exact ⟨h.congr (fun _ hf _ => hf) rfl rfl, .of_subset hsame⟩
      · exact ⟨h.insertFolder (hlive.lives hpg hrow.ownerId hrow.parentId) rfl rfl rfl,
          .of_subset (List.subset_append_left _ _)⟩
  | folderRename id name =>
      rcases exec_folderRename hexec with rfl | ⟨u, g, -, hg, rfl⟩
      · exact ⟨h, .of_subset hsame⟩
      · refine h.updateFolders fun f => ?_
        split
        · exact hg f
        · exact ⟨rfl, rfl, rfl, rfl⟩
  | fileInsert file =>
      obtain ⟨rfl, rfl⟩ := hc
      rcases exec_fileInsert_named hexec with ⟨e, -, rfl⟩ | ⟨row, contents, hrow, -, -, -, rfl⟩
      · exact ⟨h.congr (fun _ hf _ => hf) rfl rfl, .of_subset hsame⟩
      · exact ⟨h.insertFile (hlive.lives hpg hrow.ownerId hrow.folderId) rfl rfl rfl,
          .of_subset hsame⟩
  | insertLink file contentId =>
      obtain ⟨rfl, rfl⟩ := hc
      rcases exec_insertLink_named hexec with ⟨e, -, rfl⟩ | ⟨row, hrow, -, -, rfl⟩
      · exact ⟨h.congr (fun _ hf _ => hf) rfl rfl, .of_subset hsame⟩
      · exact ⟨h.insertFile (hlive.lives hpg hrow.ownerId hrow.folderId) rfl rfl rfl,
          .of_subset hsame⟩
  | fileSoftDelete id =>
      rcases exec_fileSoftDelete hexec with ⟨e, -, rfl⟩ | ⟨u, -, -, rfl⟩
      · exact ⟨h, .of_subset hsame⟩
      · refine ⟨h.congr (fun f hf hflive => ?_) rfl rfl, .of_subset hsame⟩
        obtain ⟨f, hf, rfl⟩ := List.mem_map.mp hf
        by_cases hid : f.id = u
        · rw [if_pos hid] at hflive
          cases hflive
        · rwa [if_neg hid]
  | shareInsert record =>
      rcases exec_shareInsert hexec with rfl | ⟨row, -, rfl⟩ <;>
        exact ⟨h.congr (fun _ hf _ => hf) rfl rfl, .of_subset hsame⟩
  | incrementDownloadCount id =>
      obtain ⟨g, -, rfl⟩ := exec_incrementDownloadCount hexec
      exact ⟨h.congr (fun _ hf _ => hf) rfl rfl, .of_subset hsame⟩
  | revoke id ownerId =>
      rcases exec_revoke hexec with rfl | ⟨u, owner, -, -, rfl⟩ <;>
        exact ⟨h.congr (fun _ hf _ => hf) rfl rfl, .of_subset hsame⟩
  | revokeByFileId fileId =>
      rcases exec_revokeByFileId hexec with ⟨e, -, -, rfl⟩ | ⟨u, -, -, rfl⟩ <;>
        exact ⟨h.congr (fun _ hf _ => hf) rfl rfl, .of_subset hsame⟩
  | purgeContent content =>
      cases exec_purgeContent hexec with
      | nothing => exact ⟨h, .of_subset hsame⟩
      | swept _ b _ _ _ _ _ _ =>
          cases b with
          | false => exact ⟨h.congr (fun _ hf _ => hf) rfl rfl, .of_subset hsame⟩
          | true =>
              exact ⟨h.congr (fun f hf _ => List.mem_of_mem_filter hf) rfl rfl, .of_subset hsame⟩
  | hset key field value => exact hc.elim
  | folderSoftDelete id => exact hc.elim
  | _ => exact absurd rfl hr

/-- A part of a handler that inserts where a live folder has been found. -/
theorem wp_into (hpg : pg.Lawful json) {α : Type} {p : App α} (h : Orderly pg w)
    (hlive : LiveFolder pg w userId folderId) (hp : p.CallsOnly (into userId folderId)) :
    p.wp (ofExec (exec svc pg)) (fun _ w' => Orderly pg w') w := by
  refine wp_mono (wp_of_callsOnly (fun w' => Orderly pg w' ∧ LiveFolder pg w' userId folderId) ?_ hp
    ⟨h, hlive⟩) fun _ _ h' => h'.1
  rintro w₁ c hc ⟨h₁, hlive₁⟩
  refine ⟨trivial, fun r w₂ hexec => ?_⟩
  obtain ⟨h₂, hstay⟩ := h₁.step hpg hlive₁ hc hexec
  exact ⟨h₂, hlive₁.mono hstay⟩

/-- A part of a handler that inserts at the root, if at all. -/
theorem wp_root (hpg : pg.Lawful json) {α : Type} {p : App α} (h : Orderly pg w)
    (hp : p.CallsOnly (into userId [])) :
    p.wp (ofExec (exec svc pg)) (fun _ w' => Orderly pg w') w :=
  wp_into hpg h (.root pg w userId) hp

theorem wp_orderly_reads (hpg : pg.Lawful json) {α : Type} {p : App α} (h : Orderly pg w)
    (hp : Reads p) : p.wp (ofExec (exec svc pg)) (fun _ w' => Orderly pg w') w := by
  have hroot : p.CallsOnly (into [] []) := hp.mono fun _ hc => into_of_reads hc
  exact wp_root hpg h hroot

end Step

/-! ## Handlers -/

section Handlers

variable {svc : Services} {pg : Postgres} {w : World} {json : JsonLib}

theorem finds_resolveFolderId (folderId userId : Bytes) :
    Finds svc pg (resolveFolderId svc folderId userId) w fun found => ∀ id, found = .ok id →
      LiveFolder pg w userId id := by
  have hrefused : ∀ draws, Finds svc pg (do
      let resp ← svc.setError 404 (ascii "folder not found")
      return .error resp : App (Answered Bytes)) { w with draws } fun found => ∀ id,
        found = .ok id → LiveFolder pg w userId id := by
    intro draws
    refine finds_bind (finds_reads (reads_setError svc _ _)) fun resp _ _ => finds_pure ?_
    rintro id ⟨⟩
  unfold resolveFolderId
  split
  · refine finds_pure ?_
    rintro _ ⟨⟩
    exact .root pg w userId
  · refine finds_bind (finds_ask rfl) fun found draws hfound => ?_
    cases found with
    | none => exact hrefused draws
    | some record =>
        obtain ⟨g, hg, hid, hlive, rfl⟩ := folderFindById_ok hfound
        dsimp only
        split
        · exact hrefused draws
        · rename_i howner
          refine finds_pure ?_
          rintro _ ⟨⟩
          exact fun _ => ⟨g, hg, hid, not_not.mp howner, hlive⟩

theorem orderly_uploadRoute (hpg : pg.Lawful json) (req : HttpRequest) (h : Orderly pg w) :
    (uploadRoute svc req).wp (ofExec (exec svc pg)) (fun _ w' => Orderly pg w') w := by
  refine course_uploadRoute (P := Orderly pg) (F := fun folderId w' => Orderly pg w' ∧
    LiveFolder pg w' req.authUserId folderId) ?_ ?_ ?_ ?_ h
  · exact fun code msg w₁ h₁ => wp_orderly_reads hpg h₁ (reads_setError svc _ _)
  · exact fun e w₁ h₁ => wp_orderly_reads hpg h₁ (reads_catchStd svc _ e)
  · intro w₁ k h₁ hrefused hfound
    refine wp_finds_bind (finds_resolveFolderId _ _) (fun folder draws hfolder => ?_)
      fun e draws => h₁.draws draws
    cases folder with
    | error resp => exact hrefused resp _ (h₁.draws draws)
    | ok folderId => exact hfound folderId _ ⟨h₁.draws draws, hfolder folderId rfl⟩
  · rintro folderId w₁ ⟨h₁, hlive⟩ -
    refine wp_into hpg h₁ hlive ?_
    exact callsOnly_uploadContent (fun c hc => into_of_reads hc) svc (fun _ => trivial)
      (fun hash _ => hashKey_ne hash) (fun _ hu hf => ⟨hu, hf⟩) (fun _ _ hu hf => ⟨hu, hf⟩) _ _ _

/-! ### Folders -/

theorem orderly_handleFolderCreate (hpg : pg.Lawful json) (req : HttpRequest) (h : Orderly pg w) :
    (handleFolderCreate svc req).wp (ofExec (exec svc pg)) (fun _ w' => Orderly pg w') w := by
  have hcreate : ∀ {w₁ : World} {parentId : Bytes}, Orderly pg w₁ →
      LiveFolder pg w₁ req.authUserId parentId → ∀ name,
      (createFolder svc req.authUserId parentId name).wp (ofExec (exec svc pg))
        (fun _ w' => Orderly pg w') w₁ := fun h₁ hlive name =>
    wp_into hpg h₁ hlive
      (callsOnly_createFolder (fun c hc => into_of_reads hc) svc (fun _ hu hp => ⟨hu, hp⟩) name)
  refine wp_catch (M := fun _ w' => Orderly pg w') ?_ (fun _ _ h' => h')
    fun e w' h' => wp_orderly_reads hpg h' (reads_catchJson svc _ e)
  split
  swap
  · exact wp_orderly_reads hpg h (reads_setError svc _ _)
  refine wp_finds_bind (finds_reads (reads_ask rfl)) (fun body draws _ => ?_)
    fun e draws => h.draws draws
  refine wp_finds_bind (finds_reads (reads_ofJson _)) (fun name draws _ => ?_)
    fun e draws => h.draws draws
  split
  · exact wp_orderly_reads hpg (h.draws _) (reads_setError svc _ _)
  refine wp_finds_bind (finds_reads (reads_ofJson _)) (fun parentId draws _ => ?_)
    fun e draws => h.draws draws
  split
  · rename_i hroot
    subst hroot
    exact hcreate (h.draws _) (.root pg _ _) name
  refine wp_finds_bind (finds_ownedFolder _ _) (fun parent draws hparent => ?_)
    fun e draws => h.draws draws
  cases parent with
  | none => exact wp_orderly_reads hpg (h.draws _) (reads_setError svc _ _)
  | some record => exact hcreate (h.draws draws) (fun _ => hparent record rfl) name

/-- What `has_children` has seen. -/
theorem hasChildren_false {id : Bytes} (h : hasChildren pg w id = .ok false) :
    ∃ u, pg.uuidParam id = .ok u ∧ (∀ f ∈ w.folders, f.live = true → f.parentId ≠ some u) ∧
      ∀ f ∈ w.files, f.live = true → f.folderId ≠ some u := by
  simp only [hasChildren, bind_eq_ok] at h
  obtain ⟨u, hu, hret⟩ := h
  have hnone := Except.ok.inj hret
  simp only [Bool.or_eq_false_iff, List.any_eq_false, Bool.and_eq_true, decide_eq_true_eq,
    not_and] at hnone
  exact ⟨u, hu, fun f hf hlive heq => hnone.1 f hf heq hlive,
    fun f hf hlive heq => hnone.2 f hf heq hlive⟩

theorem orderly_handleFolderDelete (hpg : pg.Lawful json) (req : HttpRequest) (h : Orderly pg w) :
    (handleFolderDelete svc req).wp (ofExec (exec svc pg)) (fun _ w' => Orderly pg w') w := by
  refine wp_catch (M := fun _ w' => Orderly pg w') ?_ (fun _ _ h' => h')
    fun e w' h' => wp_orderly_reads hpg h' (reads_catchStd svc _ e)
  split
  swap
  · exact wp_orderly_reads hpg h (reads_setError svc _ _)
  dsimp only
  split
  · exact wp_orderly_reads hpg h (reads_setError svc _ _)
  refine wp_finds_bind (finds_reads (reads_ownedFolder _ _)) (fun found draws _ => ?_)
    fun e draws => h.draws draws
  cases found with
  | none => exact wp_orderly_reads hpg (h.draws draws) (reads_setError svc _ _)
  | some record =>
  refine wp_finds_bind (finds_ask rfl) (fun occupied draws' hocc => ?_) fun e draws' => h.draws draws'
  cases occupied with
  | true => exact wp_orderly_reads hpg (h.draws draws') (reads_setError svc _ _)
  | false =>
  -- what is deleted is what has been looked at, and nothing has come in between
  obtain ⟨u, hu, hfolders, hfiles⟩ := hasChildren_false hocc
  have hdeleted : ∀ {r : Except Exn Unit} {w' : World},
      exec svc pg (.folderSoftDelete (req.getPathParam (ascii "id"))) { w with draws := draws' } =
        (r, w') → Orderly pg w' := by
    intro r w' hexec
    rcases exec_folderSoftDelete hexec with rfl | ⟨v, hv, rfl⟩
    · exact h.draws draws'
    · obtain rfl : u = v := Except.ok.inj (hu.symm.trans hv)
      exact (h.draws draws').softDelete hfolders hfiles _
  exact wp_request_bind trivial (fun _ w' hexec => hdeleted hexec) fun _ w' hexec => hdeleted hexec

/-! ### Multipart sessions -/

theorem uuidParam_cstr (t : Bytes) : pg.uuidParam (cstr t) = pg.uuidParam t := by
  rw [Postgres.uuidParam, Postgres.uuidParam, Postgres.textParam, Postgres.textParam, cstr_cstr]

/-- A session is written that is in a folder of its user. -/
theorem Orderly.saved {session : MultipartSession} {r : Except Exn Unit} {w' : World}
    (h : Orderly pg w)
    (hplaced : session.folderId ≠ [] → ∃ g ∈ w.folders, pg.uuidParam session.folderId = .ok g.id ∧
      g.ownerId.text = session.userId) (hsaved : Saved svc session w r w') : Orderly pg w' := by
  cases hsaved with
  | skipped => exact h
  | failed => exact h
  | @written t t' w' _ _ _ hre =>
      have hworld : Placed w' := by
        rw [hre.world]
        exact ⟨h.placed.files, h.placed.folders⟩
      have hfolders : w'.folders = w.folders := by rw [hre.world]
      refine ⟨hworld, fun id => ?_, fun id v hv => ?_⟩
      · by_cases hid : cstr (sessionKey id) = cstr (sessionKey session.uploadId)
        · have hsame : ∀ field, hget w' (sessionKey id) field =
              hget w' (sessionKey session.uploadId) field := by
            intro field
            rw [hget, hget, hid]
          have hfolder := hre.written (ascii "folder_id", session.folderId) (by simp [sessionFields])
          have huser := hre.written (ascii "user_id", session.userId) (by simp [sessionFields])
          intro folder hget' hne
          rw [hsame, hfolder] at hget'
          obtain rfl := Option.some.inj hget'
          obtain ⟨g, hg, hparam, howner⟩ := hplaced fun hnil => hne (by rw [hnil]; rfl)
          refine ⟨g, hfolders ▸ hg, (uuidParam_cstr _).trans hparam, ?_⟩
          rw [hsame, huser, ← howner]
          exact congrArg some (cstr_of_not_mem fun hn => (isUuidText_ascii g.ownerId.isText hn).1 rfl)
        · exact (h.sessions id).mono (fun g hg => ⟨g, hfolders ▸ hg, rfl, rfl⟩) (hre.others _ hid)
      · by_cases hid : cstr (sessionKey id) = cstr (sessionKey session.uploadId)
        · rw [hid] at hv
          exact hre.hashKey v hv
        · rw [hre.others _ hid] at hv
          exact h.sessionKeys id v hv

/-- The folder of a loaded session belongs to the session's user. -/
theorem SessionPlaced.loaded {id : Bytes} {session : MultipartSession} (h : SessionPlaced pg w id)
    (hloaded : LoadedFrom w id session) (hne : session.folderId ≠ []) :
    ∃ g ∈ w.folders, pg.uuidParam session.folderId = .ok g.id ∧ g.ownerId.text = session.userId := by
  rw [hloaded.folderId] at hne ⊢
  rw [hloaded.userId]
  cases hfolder : hget w (sessionKey id) (ascii "folder_id") with
  | none =>
      rw [hfolder] at hne
      exact absurd rfl hne
  | some folder =>
      rw [hfolder] at hne
      obtain ⟨g, hg, hid, huser⟩ := h folder hfolder hne
      exact ⟨g, hg, hid, by rw [huser]; rfl⟩

theorem orderly_handleInit (hpg : pg.Lawful json) (req : HttpRequest) (h : Orderly pg w) :
    (handleInit svc req).wp (ofExec (exec svc pg)) (fun _ w' => Orderly pg w') w := by
  refine wp_catch (M := fun _ w' => Orderly pg w') ?_ (fun _ _ h' => h')
    fun e w' h' => wp_orderly_reads hpg h' (reads_catchJson svc _ e)
  split
  · exact wp_orderly_reads hpg h (reads_setError svc _ _)
  refine wp_finds_bind (finds_reads (reads_ask rfl)) (fun body draws _ => ?_)
    fun e draws => h.draws draws
  refine wp_finds_bind (finds_reads (reads_ofJson _)) (fun init draws _ => ?_)
    fun e draws => h.draws draws
  split
  · exact wp_orderly_reads hpg (h.draws _) (reads_setError svc _ _)
  split
  · exact wp_orderly_reads hpg (h.draws _) (reads_setError svc _ _)
  refine wp_finds_bind (finds_resolveFolderId _ _) (fun folder draws hfolder => ?_)
    fun e draws => h.draws draws
  cases folder with
  | error resp => exact h.draws draws
  | ok folderId =>
  refine wp_finds_bind (finds_startSession _ _ _) (fun session draws hstart => ?_)
    fun e draws => h.draws draws
  have hplaced : session.folderId ≠ [] → ∃ g ∈ w.folders,
      pg.uuidParam session.folderId = .ok g.id ∧ g.ownerId.text = session.userId := by
    rw [hstart.folderId, hstart.userId]
    intro hne
    obtain ⟨g, hg, hid, howner, -⟩ := hfolder folderId rfl hne
    exact ⟨g, hg, hid, howner⟩
  refine wp_seq (wp_saveToRedis session ((h.draws draws).sessionKeys _))
    (fun _ w' hsaved => ?_) fun e w' hsaved => (h.draws draws).saved hplaced hsaved
  exact wp_orderly_reads hpg ((h.draws draws).saved hplaced hsaved) (reads_setJson svc _)

theorem orderly_handleUploadPart (hpg : pg.Lawful json) (req : HttpRequest) (h : Orderly pg w) :
    (handleUploadPart svc req).wp (ofExec (exec svc pg)) (fun _ w' => Orderly pg w') w := by
  refine wp_catch (M := fun _ w' => Orderly pg w') ?_ (fun _ _ h' => h')
    fun e w' h' => wp_orderly_reads hpg h' (reads_catchStd svc _ e)
  split
  · exact wp_orderly_reads hpg h (reads_setError svc _ _)
  dsimp only
  split
  · exact wp_orderly_reads hpg h (reads_setError svc _ _)
  refine wp_finds_bind (finds_reads (reads_ofSto _ _)) (fun partNum draws₀ _ => ?_)
    fun e draws₀ => h.draws draws₀
  split
  · exact wp_orderly_reads hpg (h.draws draws₀) (reads_setError svc _ _)
  refine wp_finds_bind (finds_requireSession req _) (fun found draws hfound => ?_)
    fun e draws => h.draws draws
  cases found with
  | error resp => exact h.draws draws
  | ok session =>
  dsimp only
  split
  · exact wp_orderly_reads hpg (h.draws draws) (reads_setError svc _ _)
  split
  · exact wp_orderly_reads hpg (h.draws draws) (reads_setError svc _ _)
  obtain ⟨hloaded, -⟩ := hfound session rfl
  have hplaced : session.folderId ≠ [] → ∃ g ∈ w.folders,
      pg.uuidParam session.folderId = .ok g.id ∧ g.ownerId.text = session.userId :=
    ((h.draws draws₀).sessions _).loaded hloaded
  have hput : ∀ {r : Except Exn Bytes} {w' : World},
      exec svc pg (.put req.body) { w with draws } = (r, w') →
        Orderly pg w' ∧ w'.folders = w.folders := by
    intro r w' hexec
    rcases exec_put hexec with ⟨rfl, -⟩ | ⟨-, -, rfl⟩
    · exact ⟨h.draws draws, rfl⟩
    · exact ⟨h.congr (fun _ hf _ => hf) rfl rfl, rfl⟩
  refine wp_request_bind trivial (fun hash w₁ hexec => ?_) fun e w₁ hexec => (hput hexec).1
  obtain ⟨h₁, hfolders⟩ := hput hexec
  have hsave : ∀ {r w'}, Saved svc (session.record partNum hash) w₁ r w' → Orderly pg w' :=
    fun hsaved => h₁.saved (hfolders.symm ▸ hplaced) hsaved
  refine wp_seq (wp_saveToRedis (session.record partNum hash) (h₁.sessionKeys _))
    (fun _ w₂ hsaved => ?_) fun e w₂ hsaved => hsave hsaved
  exact wp_orderly_reads hpg (hsave hsaved)
    (reads_bind (reads_ask rfl) fun _ => reads_setJson svc _)

/-- The request completes this session: all parts are there and can be read. -/
structure Completes (svc : Services) (pg : Postgres) (w : World) (req : HttpRequest)
    (session : MultipartSession) : Prop where
  loaded : ((requireSession svc req (req.getPathParam (ascii "upload_id"))).run (exec svc pg) w).1 =
    .ok (.ok session)
  full : firstMissing session = none
  readable : ∃ content, ((getChunked session.partHashes).run (exec svc pg) w).1 = .ok content

/-- The folder of an upload that is completed has not been deleted. -/
def KeepsFolder (svc : Services) (pg : Postgres) (w : World) : Action → Prop
  | .request .uploadComplete req => ∀ session, Completes svc pg w req session →
      session.folderId ≠ [] → ∀ g ∈ w.folders, pg.uuidParam session.folderId = .ok g.id →
        g.live = true
  | _ => True

theorem orderly_handleComplete (hpg : pg.Lawful json) (req : HttpRequest) (h : Orderly pg w)
    (hkeeps : KeepsFolder svc pg w (.request .uploadComplete req)) :
    (handleComplete svc req).wp (ofExec (exec svc pg)) (fun _ w' => Orderly pg w') w := by
  refine course_withSession (P := fun w' => w' = w) (S := fun session w' => w' = w ∧
    ((requireSession svc req (req.getPathParam (ascii "upload_id"))).run (exec svc pg) w).1 =
      .ok (.ok session)) ?_ ?_ ?_ ?_ rfl
  · rintro code msg _ rfl
    exact wp_orderly_reads hpg h (reads_setError svc _ _)
  · exact fun e w₁ h₁ => wp_orderly_reads hpg h₁ (reads_catchStd svc _ e)
  · rintro _ f rfl - hrefused hfound
    refine wp_still_run (callsOnly_requireSession svc (fun _ => ⟨rfl, nofun⟩)
      (fun _ => ⟨rfl, nofun⟩) req) (fun found hrun => ?_) fun _ => h
    cases found with
    | error resp => exact hrefused resp _ h
    | ok session => exact hfound session _ ⟨rfl, congrArg Prod.fst hrun⟩
  rintro session w₁ ⟨hsame, hrun⟩
  subst w₁
  split
  · exact wp_orderly_reads hpg h (reads_setError svc _ _)
  rename_i hfull
  refine wp_still_bind (callsOnly_ofJson _) (fun chunkHashes => ?_) fun _ => h
  refine wp_still_run (callsOnly_getChunked (fun _ => ⟨rfl, nofun⟩) _) (fun content hread => ?_)
    fun _ => h
  obtain ⟨hloaded, howner⟩ := (run_of_wp (finds_requireSession req _)).2 _ hrun session rfl
  have hlive : LiveFolder pg w req.authUserId session.folderId := by
    intro hne
    obtain ⟨g, hg, hid, huser⟩ := (h.sessions _).loaded hloaded hne
    exact ⟨g, hg, hid, huser.trans howner,
      hkeeps session ⟨hrun, hfull, content, congrArg Prod.fst hread⟩ hne g hg hid⟩
  refine wp_into hpg h hlive ?_
  refine callsOnly_bind (callsOnly_createFile (fun c hc => into_of_reads hc) svc
    (fun hash _ => hashKey_ne hash) (fun _ hu hf => ⟨hu, hf⟩) (fun _ _ hu hf => ⟨hu, hf⟩) howner rfl
    _ _) fun created => ?_
  obtain ⟨fileId, instant⟩ := created
  refine callsOnly_bind (callsOnly_deleteFromRedis svc (fun _ => trivial) _) fun _ => ?_
  exact callsOnly_bind (callsOnly_request trivial) fun _ =>
    (reads_setJson svc _).mono fun _ hc => into_of_reads hc

end Handlers

/-! ## Histories -/

section Histories

variable {svc : Services} {pg : Postgres} {w : World} {json : JsonLib}

theorem orderly_serve (hpg : pg.Lawful json) (route : RouteName) (req : HttpRequest)
    (h : Orderly pg w) (hkeeps : KeepsFolder svc pg w (.request route req)) :
    Orderly pg (serve svc pg route req w).2 := by
  have hreads : ∀ c, readOnly c = true → into req.authUserId [] c := fun c hc => into_of_reads hc
  have hroot : ∀ {p : App HttpResponse}, p.CallsOnly (into req.authUserId []) →
      p.wp (ofExec (exec svc pg)) (fun _ w' => Orderly pg w') w := fun hp => wp_root hpg h hp
  have hhandler : (handler svc route req).wp (ofExec (exec svc pg)) (fun _ w' => Orderly pg w') w := by
    cases route with
    | health => exact h
    | metrics => exact h
    | register => exact hroot (callsOnly_handleRegister hreads svc req fun _ _ => trivial)
    | login => exact wp_orderly_reads hpg h (reads_handleLogin svc req)
    | shareDownload =>
        exact hroot (callsOnly_handleShareDownload hreads svc req (fun _ => trivial)
          fun token _ _ => shareKey_ne token)
    | upload => exact orderly_uploadRoute hpg req h
    | uploadInit => exact orderly_handleInit hpg req h
    | uploadPart => exact orderly_handleUploadPart hpg req h
    | uploadComplete => exact orderly_handleComplete hpg req h hkeeps
    | uploadStatus => exact wp_orderly_reads hpg h (reads_handleStatus svc req)
    | uploadAbort => exact hroot (callsOnly_handleAbort hreads svc req fun _ => trivial)
    | fileList => exact wp_orderly_reads hpg h (reads_handleFileList svc req)
    | fileDelete =>
        exact hroot (callsOnly_handleFileDelete hreads svc req (fun _ => trivial) (fun _ => trivial)
          fun _ => trivial)
    | folderList => exact wp_orderly_reads hpg h (reads_handleFolderList svc req)
    | folderCreate => exact orderly_handleFolderCreate hpg req h
    | folderRename => exact hroot (callsOnly_handleFolderRename hreads svc req fun _ _ => trivial)
    | folderDelete => exact orderly_handleFolderDelete hpg req h
    | fileDownload => exact wp_orderly_reads hpg h (reads_downloadRoute svc req)
    | shareCreate =>
        exact hroot (callsOnly_handleShareCreate hreads svc req (fun _ => trivial)
          fun token _ _ => shareKey_ne token)
    | shareSave => exact hroot (callsOnly_handleShareSave hreads svc req fun _ _ hu hf => ⟨hu, hf⟩)
    | shareList => exact wp_orderly_reads hpg h (reads_handleShareList svc req)
    | shareRevoke =>
        exact hroot (callsOnly_handleShareRevoke hreads svc req (fun _ => trivial) fun _ => trivial)
  exact run_of_wp hhandler

theorem orderly_act (hpg : pg.Lawful json) {a : Action} (h : Orderly pg w)
    (hkeeps : KeepsFolder svc pg w a) : Orderly pg (act svc pg w a) := by
  cases a with
  | request route req => exact orderly_serve hpg route req h hkeeps
  | collect batchLimit =>
      have hroot : (collectOrphans batchLimit).CallsOnly (into [] []) :=
        callsOnly_collectOrphans (fun c hc => into_of_reads hc) (fun _ => trivial) batchLimit
      exact run_of_wp (wp_root hpg h hroot)
  | tick time => exact h.congr (fun _ hf _ => hf) rfl rfl
  | expire key => exact h.setKey (Or.inl rfl)

theorem Initial.orderly (h : Initial w) : Orderly pg w := by
  refine ⟨⟨fun f hf => ?_, fun f hf => ?_⟩, fun id folder hfolder => ?_, fun id v hv => ?_⟩
  · rw [h.files] at hf
    cases hf
  · rw [h.folders] at hf
    cases hf
  · rw [hget, h.redis] at hfolder
    cases hfolder
  · rw [h.redis] at hv
    cases hv

/-- **While no upload is completed in a folder that has been deleted, every live
file and every live folder is at the root or in a live folder of its owner.** -/
theorem placed_of_history (hpg : pg.Lawful json) {w₀ : World} (h₀ : Initial w₀)
    {actions : List Action}
    (hkeeps : Throughout svc pg (fun s a => KeepsFolder svc pg s.1 a) (w₀, {}) actions) :
    Placed (history svc pg w₀ actions).1 := by
  let Inv : World × Record → Prop := fun s => Orderly pg s.1
  have hstart : Inv (w₀, {}) := h₀.orderly
  have hstep : ∀ s a, Inv s → KeepsFolder svc pg s.1 a → Inv (recorded svc pg s a) :=
    fun s a h hk => orderly_act hpg h hk
  exact (throughout_invariant hstep hstart hkeeps).placed

end Histories

/-! ### An upload into a folder -/

def createFolderBy (user : Uuid) (document : Bytes) : Action :=
  .request .folderCreate { body := document, authUserId := user.text }

def deleteFolderBy (user folder : Uuid) : Action :=
  .request .folderDelete { authUserId := user.text, pathParams := [(ascii "id", folder.text)] }

/-- Alice makes a folder, starts an upload into it and brings its part; more
happens, and she completes the upload. -/
def uploadIntoFolder (more : List Action) : List Action :=
  createFolderBy aliceId (ascii "\x7b\"name\":\"d\"\x7d") ::
    initBy aliceId (ascii "\x7b\"file_name\":\"x\",\"folder_id\":\"" ++ (twoUsers.uuids 0).text ++
      ascii "\",\"total_size\":1\x7d") ::
    partBy aliceId "0-1-2-3" 0 (ascii "x") :: more ++ [completeBy aliceId "0-1-2-3"]

/-- In a drive where no folder has been deleted. -/
theorem keepsFolder_of_live {svc : Services} {pg : Postgres} {w : World} {a : Action}
    (h : w.folders.all FolderRow.live = true) : KeepsFolder svc pg w a := by
  unfold KeepsFolder
  split
  · exact fun _ _ _ g hg _ => List.all_eq_true.mp h g hg
  · trivial

/-- The file is in the folder. -/
theorem placed_in_folder :
    ((history sampleServices samplePostgres twoUsers (uploadIntoFolder [])).1.files.map
      fun f => (f.live, f.folderId)) = [(true, some (twoUsers.uuids 0))] ∧
    Placed (history sampleServices samplePostgres twoUsers (uploadIntoFolder [])).1 := by
  refine ⟨by decide +kernel, placed_of_history samplePostgres_lawful twoUsers_initial ?_⟩
  exact ⟨trivial, trivial, trivial, keepsFolder_of_live (by decide +kernel), trivial⟩

/-- She deletes the folder before she completes the upload: it is empty, and then
the file is in it. -/
theorem misplaced_after_delete : ¬ Placed (history sampleServices samplePostgres twoUsers
    (uploadIntoFolder [deleteFolderBy aliceId (twoUsers.uuids 0)])).1 := by
  intro h
  have hfile : (history sampleServices samplePostgres twoUsers
      (uploadIntoFolder [deleteFolderBy aliceId (twoUsers.uuids 0)])).1.files.any
        (fun f => f.live && decide (f.folderId = some (twoUsers.uuids 0))) = true := by
    decide +kernel
  have hdead : (history sampleServices samplePostgres twoUsers
      (uploadIntoFolder [deleteFolderBy aliceId (twoUsers.uuids 0)])).1.folders.all
        (fun g => !g.live) = true := by decide +kernel
  obtain ⟨f, hf, hprops⟩ := List.any_eq_true.mp hfile
  rw [Bool.and_eq_true, decide_eq_true_eq] at hprops
  obtain ⟨g, hg, -, -, hlive⟩ := h.files f hf hprops.1 _ hprops.2
  have hnot := List.all_eq_true.mp hdead g hg
  rw [hlive] at hnot
  cases hnot

end SolarDrive.Runs
