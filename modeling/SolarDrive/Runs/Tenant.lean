import SolarDrive.Api.Courses
import SolarDrive.Api.Effects
import SolarDrive.Runs.History

/-!
# What a user's request leaves alone

The rows, shares and sessions of other users are the same after a request as
before it (`Kept`). Some calls act by bare id: that the row is the user's own
follows from what the handler has read, and for the shares of a deleted file
from `Linked`, which holds in every reachable world: a share that is not
revoked is a share of a live file of its owner.
-/

namespace SolarDrive.Runs

open Lib Http Api Metadata Prog

/-- `user` is the user of the session with this id. -/
def SessionOf (w : World) (id user : Bytes) : Prop :=
  hget w (sessionKey id) (ascii "user_id") = some user

/-- Nothing that belongs to a user other than `u` has changed. -/
structure Kept (u : Uuid) (w w' : World) : Prop where
  files : w'.files.filter (fun f => f.live && f.ownerId ≠ u) =
    w.files.filter fun f => f.live && f.ownerId ≠ u
  folders : w'.folders.filter (fun f => f.live && f.ownerId ≠ u) =
    w.folders.filter fun f => f.live && f.ownerId ≠ u
  shares : w'.shares.filter (fun s => !s.isRevoked && s.ownerId ≠ u) =
    w.shares.filter fun s => !s.isRevoked && s.ownerId ≠ u
  sessions : ∀ id user, user ≠ u.text → SessionOf w id user ∨ SessionOf w' id user →
    w'.redis (cstr (sessionKey id)) = w.redis (cstr (sessionKey id))

theorem Kept.refl (u : Uuid) (w : World) : Kept u w w := ⟨rfl, rfl, rfl, fun _ _ _ _ => rfl⟩

theorem sessionOf_congr {w w' : World} {id user : Bytes}
    (h : w'.redis (cstr (sessionKey id)) = w.redis (cstr (sessionKey id))) :
    SessionOf w' id user ↔ SessionOf w id user := by
  unfold SessionOf hget
  rw [h]

theorem Kept.trans {u : Uuid} {w₁ w₂ w₃ : World} (h₁ : Kept u w₁ w₂) (h₂ : Kept u w₂ w₃) :
    Kept u w₁ w₃ := by
  refine ⟨h₂.files.trans h₁.files, h₂.folders.trans h₁.folders, h₂.shares.trans h₁.shares, ?_⟩
  intro id user huser hof
  have hmid : SessionOf w₂ id user := by
    rcases hof with hof | hof
    · exact (sessionOf_congr (h₁.sessions id user huser (Or.inl hof))).mpr hof
    · exact (sessionOf_congr (h₂.sessions id user huser (Or.inr hof))).mp hof
  exact (h₂.sessions id user huser (Or.inl hmid)).trans
    (h₁.sessions id user huser (Or.inr hmid))

/-- Ids are unique, and a share that is not revoked is one of a file of the same
owner, live but for the file `gone`. -/
structure Linked (gone : Option Uuid) (w : World) : Prop where
  fileIds : (w.files.map FileRow.id).Nodup
  folderIds : (w.folders.map FolderRow.id).Nodup
  shares : ∀ s ∈ w.shares, s.isRevoked = false →
    ∃ f ∈ w.files, f.id = s.fileId ∧ f.ownerId = s.ownerId ∧ (f.live = true ∨ gone = some f.id)

theorem Linked.file_unique {gone : Option Uuid} {w : World} (h : Linked gone w) {f g : FileRow}
    (hf : f ∈ w.files) (hg : g ∈ w.files) (heq : f.id = g.id) : f = g :=
  List.inj_on_of_nodup_map h.fileIds hf hg heq

theorem Linked.folder_unique {gone : Option Uuid} {w : World} (h : Linked gone w) {f g : FolderRow}
    (hf : f ∈ w.folders) (hg : g ∈ w.folders) (heq : f.id = g.id) : f = g :=
  List.inj_on_of_nodup_map h.folderIds hf hg heq

/-! ## Rows out of sight -/

section Rows

variable {α : Type} {p q : α → Bool} {g : α → α} {l : List α}

/-- An update of rows that `q` sees neither before nor after. -/
theorem filter_map_unseen (h : ∀ a ∈ l, p a = true → q a = false ∧ q (g a) = false) :
    (l.map fun a => if p a = true then g a else a).filter q = l.filter q := by
  induction l with
  | nil => rfl
  | cons a l ih =>
      have hl := ih fun b hb => h b (List.mem_cons_of_mem _ hb)
      rw [List.map_cons]
      by_cases hp : p a = true
      · obtain ⟨hq, hqg⟩ := h a List.mem_cons_self hp
        rw [if_pos hp, List.filter_cons_of_neg (by simp [hqg]), List.filter_cons_of_neg (by simp [hq]),
          hl]
      · rw [if_neg hp, List.filter_cons, List.filter_cons, hl]

theorem filter_append_unseen {a : α} (h : q a = false) : (l ++ [a]).filter q = l.filter q := by
  rw [List.filter_append, List.filter_cons_of_neg (by simp [h]), List.filter_nil, List.append_nil]

/-- A deletion of rows that `q` does not see. -/
theorem filter_filter_unseen (h : ∀ a ∈ l, q a = true → p a = true) :
    (l.filter p).filter q = l.filter q := by
  rw [List.filter_filter]
  apply List.filter_congr
  intro a ha
  cases hq : q a with
  | false => rfl
  | true => rw [h a ha hq]; rfl

end Rows

/-! ## What one call leaves alone -/

/-- The calls that need nothing but the right owner: for user `text` they insert
rows and revoke shares, and of Redis they write no session. -/
def own (text : Bytes) : Call → Prop
  | .redisSet key _ _ | .redisDel key => ∀ id, cstr key ≠ cstr (sessionKey id)
  | .fileInsert file | .insertLink file _ => file.ownerId = text
  | .folderInsert folder => folder.ownerId = text
  | .revoke _ ownerId => ownerId = text
  | .hset _ _ _ | .fileSoftDelete _ | .folderSoftDelete _ | .folderRename _ _ => False
  | .shareInsert _ | .incrementDownloadCount _ | .revokeByFileId _ => False
  | _ => True

theorem own_of_reads {text : Bytes} {c : Call} (hc : readOnly c = true) : own text c := by
  cases c <;> trivial

section Step

variable {svc : Services} {pg : Postgres} {w w' : World} {c : Call} {r : Except Exn c.Resp}

/-- Worlds with the same rows are linked alike. -/
theorem Linked.congr {gone : Option Uuid} (h : Linked gone w) (hfiles : w'.files = w.files)
    (hfolders : w'.folders = w.folders) (hshares : w'.shares = w.shares) : Linked gone w' := by
  obtain ⟨hids, hids', hlink⟩ := h
  refine ⟨?_, ?_, ?_⟩
  · rwa [hfiles]
  · rwa [hfolders]
  · rwa [hfiles, hshares]

theorem Linked.insertFile {gone : Option Uuid} (h : Linked gone w) {row : FileRow}
    (hfresh : ∀ f ∈ w.files, f.id ≠ row.id) (hfiles : w'.files = w.files ++ [row])
    (hfolders : w'.folders = w.folders) (hshares : w'.shares = w.shares) : Linked gone w' := by
  obtain ⟨hids, hids', hlink⟩ := h
  refine ⟨?_, ?_, ?_⟩
  · rw [hfiles, List.map_append, List.map_singleton, List.nodup_append]
    refine ⟨hids, List.nodup_singleton _, ?_⟩
    intro a ha b hb heq
    obtain ⟨f, hf, rfl⟩ := List.mem_map.mp ha
    rw [List.mem_singleton] at hb
    exact hfresh f hf (heq.trans hb)
  · rwa [hfolders]
  · rw [hfiles, hshares]
    intro s hs hrev
    obtain ⟨f, hf, hrest⟩ := hlink s hs hrev
    exact ⟨f, List.mem_append_left _ hf, hrest⟩

theorem Linked.insertFolder {gone : Option Uuid} (h : Linked gone w) {row : FolderRow}
    (hfresh : ∀ f ∈ w.folders, f.id ≠ row.id) (hfolders : w'.folders = w.folders ++ [row])
    (hfiles : w'.files = w.files) (hshares : w'.shares = w.shares) : Linked gone w' := by
  obtain ⟨hids, hids', hlink⟩ := h
  refine ⟨?_, ?_, ?_⟩
  · rwa [hfiles]
  · rw [hfolders, List.map_append, List.map_singleton, List.nodup_append]
    refine ⟨hids', List.nodup_singleton _, ?_⟩
    intro a ha b hb heq
    obtain ⟨f, hf, rfl⟩ := List.mem_map.mp ha
    rw [List.mem_singleton] at hb
    exact hfresh f hf (heq.trans hb)
  · rwa [hfiles, hshares]

/-- An update of folders that keeps their ids. -/
theorem Linked.updateFolders {gone : Option Uuid} (h : Linked gone w) {g : FolderRow → FolderRow}
    (hg : ∀ f, (g f).id = f.id) (hfolders : w'.folders = w.folders.map g)
    (hfiles : w'.files = w.files) (hshares : w'.shares = w.shares) : Linked gone w' := by
  obtain ⟨hids, hids', hlink⟩ := h
  refine ⟨?_, ?_, ?_⟩
  · rwa [hfiles]
  · rw [hfolders, List.map_map]
    have hcomp : FolderRow.id ∘ g = FolderRow.id := funext hg
    rwa [hcomp]
  · rwa [hfiles, hshares]

/-- An update of shares that does not bring one back. -/
theorem Linked.updateShares {gone : Option Uuid} (h : Linked gone w) {g : ShareRow → ShareRow}
    (hg : ∀ s, (g s).fileId = s.fileId ∧ (g s).ownerId = s.ownerId ∧
      ((g s).isRevoked = false → s.isRevoked = false)) (hshares : w'.shares = w.shares.map g)
    (hfiles : w'.files = w.files) (hfolders : w'.folders = w.folders) : Linked gone w' := by
  obtain ⟨hids, hids', hlink⟩ := h
  refine ⟨?_, ?_, ?_⟩
  · rwa [hfiles]
  · rwa [hfolders]
  · rw [hfiles, hshares]
    intro s' hs' hrev
    obtain ⟨s, hs, rfl⟩ := List.mem_map.mp hs'
    obtain ⟨hfile, howner, hback⟩ := hg s
    rw [hfile, howner]
    exact hlink s hs (hback hrev)

/-- The collector deletes tombstones and their shares, which are revoked. -/
theorem Linked.purge (h : Linked none w) (id : Uuid) (store : Bytes → Option Bytes) :
    Linked none { withoutContent id w with store } := by
  obtain ⟨hids, hids', hlink⟩ := h
  refine ⟨?_, hids', ?_⟩
  · exact hids.sublist (List.Sublist.map _ List.filter_sublist)
  · intro s hs hrev
    obtain ⟨f, hf, hfile, howner, hlive⟩ := hlink s (List.mem_of_mem_filter hs) hrev
    have hlive' : f.live = true := hlive.resolve_right (by rintro ⟨⟩)
    refine ⟨f, List.mem_filter.mpr ⟨hf, ?_⟩, hfile, howner, Or.inl hlive'⟩
    simp [hlive']

/-- The calls that link no new share and end no file. -/
def keepsLinks : Call → Bool
  | .fileSoftDelete _ | .shareInsert _ => false
  | _ => true

theorem linked_step (hc : keepsLinks c = true) (h : Linked none w)
    (hexec : exec svc pg c w = (r, w')) : Linked none w' := by
  have hw : w' = (exec svc pg c w).2 := by rw [hexec]
  by_cases hr : readOnly c = true
  · obtain ⟨draws, hd⟩ := @exec_readOnly svc pg c hr w
    rw [hw, hd]
    exact h.congr rfl rfl rfl
  cases c with
  | put data => rcases exec_put hexec with ⟨rfl, -⟩ | ⟨-, -, rfl⟩ <;> exact h.congr rfl rfl rfl
  | redisSet key value ttl => rw [hw]; exact h.congr rfl rfl rfl
  | redisDel key => rw [hw]; exact h.congr rfl rfl rfl
  | hset key field value =>
      obtain ⟨redis, hh⟩ := hset_data key field value w
      have hw' : w' = (hset key field value w).2 := hw
      rw [hw', hh]
      exact h.congr rfl rfl rfl
  | registerUser username password =>
      obtain ⟨users, rfl⟩ := exec_registerUser hexec
      exact h.congr rfl rfl rfl
  | folderInsert folder =>
      rcases exec_folderInsert hexec with rfl | ⟨row, hrow, rfl⟩
      · exact h.congr rfl rfl rfl
      · exact h.insertFolder hrow.fresh rfl rfl rfl
  | folderSoftDelete id =>
      rcases exec_folderSoftDelete hexec with rfl | ⟨u, -, rfl⟩
      · exact h
      · refine h.updateFolders (fun f => ?_) rfl rfl rfl
        split <;> rfl
  | folderRename id name =>
      rcases exec_folderRename hexec with rfl | ⟨u, g, -, hg, rfl⟩
      · exact h
      · refine h.updateFolders (fun f => ?_) rfl rfl rfl
        split
        · exact (hg f).1
        · rfl
  | fileInsert file =>
      rcases commit_cases hexec with ⟨e, -, rfl⟩ | ⟨t, hins, -⟩
      · exact h.congr rfl rfl rfl
      · simp only [fileInsert, bind_eq_ok] at hins
        obtain ⟨_, -, ⟨cid, w₂⟩, htxn, hins⟩ := hins
        obtain ⟨contents, d, -, rfl, rfl⟩ := ensureInTxn_ok file rfl rfl rfl htxn
        obtain ⟨row, hrow, -, -, rfl⟩ := insertFileRow_ok hins
        exact h.insertFile hrow.fresh rfl rfl rfl
  | insertLink file contentId =>
      rcases exec_insertLink hexec with ⟨e, -, rfl⟩ | ⟨row, hrow, -, rfl⟩
      · exact h.congr rfl rfl rfl
      · exact h.insertFile hrow.fresh rfl rfl rfl
  | incrementDownloadCount id =>
      obtain ⟨g, hg, rfl⟩ := exec_incrementDownloadCount hexec
      refine h.updateShares (fun s => ⟨(hg s).1, (hg s).2.1, fun hrev => ?_⟩) rfl rfl rfl
      rwa [(hg s).2.2] at hrev
  | revoke id ownerId =>
      rcases exec_revoke hexec with rfl | ⟨u, owner, -, -, rfl⟩
      · exact h
      · refine h.updateShares (fun s => ?_) rfl rfl rfl
        split
        · exact ⟨rfl, rfl, by simp⟩
        · exact ⟨rfl, rfl, fun hrev => hrev⟩
  | revokeByFileId fileId =>
      rcases exec_revokeByFileId hexec with ⟨e, -, -, rfl⟩ | ⟨u, -, -, rfl⟩
      · exact h
      · refine h.updateShares (fun s => ?_) rfl rfl rfl
        split
        · exact ⟨rfl, rfl, by simp⟩
        · exact ⟨rfl, rfl, fun hrev => hrev⟩
  | purgeContent content =>
      cases exec_purgeContent hexec with
      | nothing => exact h
      | swept _ b _ _ _ _ _ _ =>
          cases b with
          | false => exact h.congr rfl rfl rfl
          | true => exact h.purge _ _
  | fileSoftDelete id => cases hc
  | shareInsert record => cases hc
  | _ => exact absurd rfl hr

theorem keepsLinks_of_own {text : Bytes} (h : own text c) : keepsLinks c = true := by
  cases c with
  | fileSoftDelete id => exact h.elim
  | shareInsert record => exact h.elim
  | _ => rfl

theorem keepsLinks_of_reads (h : readOnly c = true) : keepsLinks c = true := by
  cases c with
  | fileSoftDelete id => cases h
  | shareInsert record => cases h
  | _ => rfl

/-- Rows and Redis as before. -/
theorem Kept.congr (u : Uuid) (hfiles : w'.files = w.files) (hfolders : w'.folders = w.folders)
    (hshares : w'.shares = w.shares) (hredis : w'.redis = w.redis) : Kept u w w' := by
  refine ⟨by rw [hfiles], by rw [hfolders], by rw [hshares], fun id user _ _ => ?_⟩
  rw [hredis]

/-- Redis is written outside of the sessions. -/
theorem Kept.setKey (u : Uuid) {key : Bytes} (hkey : ∀ id, cstr key ≠ cstr (sessionKey id))
    (v : Option RedisValue) :
    Kept u w { w with redis := Function.update w.redis (cstr key) v } := by
  refine ⟨rfl, rfl, rfl, fun id user _ _ => ?_⟩
  exact Function.update_of_ne (hkey id).symm _ _

theorem Kept.insertFile {u : Uuid} {row : FileRow} (howner : row.ownerId = u)
    (hfiles : w'.files = w.files ++ [row]) (hfolders : w'.folders = w.folders)
    (hshares : w'.shares = w.shares) (hredis : w'.redis = w.redis) : Kept u w w' := by
  refine ⟨?_, by rw [hfolders], by rw [hshares], fun id user _ _ => by rw [hredis]⟩
  rw [hfiles]
  exact filter_append_unseen (by simp [howner])

/-- The collector takes tombstones and their shares. -/
theorem Kept.purge (u : Uuid) (h : Linked none w) (id : Uuid) (store : Bytes → Option Bytes) :
    Kept u w { withoutContent id w with store } := by
  refine ⟨?_, rfl, ?_, fun _ _ _ _ => rfl⟩
  · refine filter_filter_unseen fun f _ hf => ?_
    rw [Bool.and_eq_true] at hf
    simp [hf.1]
  · refine filter_filter_unseen fun s hs hq => ?_
    rw [Bool.and_eq_true] at hq
    obtain ⟨f, hf, hfile, -, hlive⟩ := h.shares s hs (by simpa using hq.1)
    have hlive' : f.live = true := hlive.resolve_right (by rintro ⟨⟩)
    rw [Bool.not_eq_true', List.any_eq_false]
    intro g hg
    by_cases hid : g.id = s.fileId
    · -- the share's file is live, and no other file has its id
      obtain rfl := h.file_unique hf hg (hfile.trans hid.symm)
      simp [hlive']
    · simp [hid]

theorem kept_own {json : JsonLib} (hpg : pg.Lawful json) {u : Uuid} (hown : own u.text c)
    (h : Linked none w) (hexec : exec svc pg c w = (r, w')) : Kept u w w' := by
  have hw : w' = (exec svc pg c w).2 := by rw [hexec]
  -- rows are inserted under the caller's own id, which is `u`
  have howner : ∀ {t : Bytes} {v : Uuid}, t = u.text → pg.uuidParam t = .ok v → v = u := by
    rintro _ v rfl hv
    rw [uuidParam_text hpg] at hv
    exact (Except.ok.inj hv).symm
  by_cases hr : readOnly c = true
  · obtain ⟨draws, hd⟩ := @exec_readOnly svc pg c hr w
    rw [hw, hd]
    exact .congr u rfl rfl rfl rfl
  cases c with
  | put data => rcases exec_put hexec with ⟨rfl, -⟩ | ⟨-, -, rfl⟩ <;> exact .congr u rfl rfl rfl rfl
  | redisSet key value ttl => rw [hw]; exact .setKey u hown _
  | redisDel key => rw [hw]; exact .setKey u hown _
  | registerUser username password =>
      obtain ⟨users, rfl⟩ := exec_registerUser hexec
      exact .congr u rfl rfl rfl rfl
  | folderInsert folder =>
      rcases exec_folderInsert hexec with rfl | ⟨row, hrow, rfl⟩
      · exact .congr u rfl rfl rfl rfl
      · refine ⟨rfl, ?_, rfl, fun _ _ _ _ => rfl⟩
        exact filter_append_unseen (by simp [howner hown hrow.ownerId])
  | fileInsert file =>
      rcases commit_cases hexec with ⟨e, -, rfl⟩ | ⟨t, hins, -⟩
      · exact .congr u rfl rfl rfl rfl
      · simp only [fileInsert, bind_eq_ok] at hins
        obtain ⟨_, -, ⟨cid, w₂⟩, htxn, hins⟩ := hins
        obtain ⟨contents, d, -, rfl, rfl⟩ := ensureInTxn_ok file rfl rfl rfl htxn
        obtain ⟨row, hrow, -, -, rfl⟩ := insertFileRow_ok hins
        exact .insertFile (howner hown hrow.ownerId) rfl rfl rfl rfl
  | insertLink file contentId =>
      rcases exec_insertLink hexec with ⟨e, -, rfl⟩ | ⟨row, hrow, -, rfl⟩
      · exact .congr u rfl rfl rfl rfl
      · exact .insertFile (howner hown hrow.ownerId) rfl rfl rfl rfl
  | revoke id ownerId =>
      rcases exec_revoke hexec with rfl | ⟨x, owner, -, hparam, rfl⟩
      · exact .refl u _
      · obtain rfl := howner hown hparam
        refine ⟨rfl, rfl, ?_, fun _ _ _ _ => rfl⟩
        refine filter_map_unseen fun s _ hs => ?_
        rw [Bool.and_eq_true, decide_eq_true_eq, decide_eq_true_eq] at hs
        simp [hs.2]
  | purgeContent content =>
      cases exec_purgeContent hexec with
      | nothing => exact .refl u _
      | swept _ b _ _ _ _ _ _ =>
          cases b with
          | false => exact .congr u rfl rfl rfl rfl
          | true => exact .purge u h _ _
  | hset key field value => exact hown.elim
  | fileSoftDelete id => exact hown.elim
  | folderSoftDelete id => exact hown.elim
  | folderRename id name => exact hown.elim
  | shareInsert record => exact hown.elim
  | incrementDownloadCount id => exact hown.elim
  | revokeByFileId fileId => exact hown.elim
  | _ => exact absurd rfl hr

/-! ## Parts of handlers -/

/-- From `w₀` on: the invariant, and what user `text` may not change. -/
structure Within (text : Bytes) (gone : Option Uuid) (w₀ w : World) : Prop where
  linked : Linked gone w
  kept : ∀ u : Uuid, text = u.text → Kept u w₀ w

theorem Within.refl {text : Bytes} (h : Linked none w) : Within text none w w :=
  ⟨h, fun u _ => .refl u w⟩

theorem Within.draws {text : Bytes} {gone : Option Uuid} {w₀ : World} (h : Within text gone w₀ w)
    (draws : Nat → Nat) : Within text gone w₀ { w with draws } :=
  ⟨h.linked.congr rfl rfl rfl, fun u hu => (h.kept u hu).trans (.congr u rfl rfl rfl rfl)⟩

variable {json : JsonLib} {text : Bytes} {w₀ : World}

theorem Within.step (hpg : pg.Lawful json) (hown : own text c) (h : Within text none w₀ w)
    (hexec : exec svc pg c w = (r, w')) : Within text none w₀ w' := by
  refine ⟨linked_step (keepsLinks_of_own hown) h.linked hexec, ?_⟩
  rintro u rfl
  exact (h.kept u rfl).trans (kept_own hpg hown h.linked hexec)

/-- A part that makes calls of its own user only. -/
theorem wp_own (hpg : pg.Lawful json) {α : Type} {p : App α} (hp : p.CallsOnly (own text))
    (h : Within text none w₀ w) :
    p.wp (ofExec (exec svc pg)) (fun _ w' => Within text none w₀ w') w := by
  refine wp_of_callsOnly (fun w' => Within text none w₀ w') ?_ hp h
  exact fun w₁ c hc h₁ => ⟨trivial, fun r w₂ hexec => h₁.step hpg hc hexec⟩

theorem wp_own_reads (hpg : pg.Lawful json) {α : Type} {p : App α} (hp : Reads p)
    (h : Within text none w₀ w) :
    p.wp (ofExec (exec svc pg)) (fun _ w' => Within text none w₀ w') w :=
  wp_own hpg (hp.mono fun _ hc => own_of_reads hc) h

end Step

/-! ## Handlers that act by id -/

section Handlers

variable {svc : Services} {pg : Postgres} {w w₀ : World} {text : Bytes} {json : JsonLib}

/-! ### Files -/

theorem Linked.softDelete (h : Linked none w) (id : Uuid) (now : Int) : Linked (some id)
    { w with files := w.files.map fun f => if f.id = id then { f with deletedAt := some now } else f } := by
  obtain ⟨hids, hids', hlink⟩ := h
  refine ⟨?_, hids', ?_⟩
  · rw [List.map_map]
    have hcomp : (FileRow.id ∘ fun f : FileRow =>
        if f.id = id then { f with deletedAt := some now } else f) = FileRow.id := by
      funext f
      show (if f.id = id then { f with deletedAt := some now } else f : FileRow).id = f.id
      split <;> rfl
    rwa [hcomp]
  · intro s hs hrev
    obtain ⟨f, hf, hfile, howner, hlive⟩ := hlink s hs hrev
    refine ⟨_, List.mem_map_of_mem hf, ?_⟩
    by_cases hid : f.id = id
    · rw [if_pos hid]
      exact ⟨hfile, howner, Or.inr (congrArg some hid.symm)⟩
    · rw [if_neg hid]
      exact ⟨hfile, howner, Or.inl (hlive.resolve_right nofun)⟩

theorem Kept.softDelete {gone : Option Uuid} (h : Linked gone w) {f : FileRow} (hf : f ∈ w.files)
    (now : Int) : Kept f.ownerId w
    { w with files := w.files.map fun g => if g.id = f.id then { g with deletedAt := some now } else g } := by
  refine ⟨?_, rfl, rfl, fun _ _ _ _ => rfl⟩
  have hunseen := @filter_map_unseen FileRow (fun g => decide (g.id = f.id))
    (fun g => g.live && g.ownerId ≠ f.ownerId) (fun g => { g with deletedAt := some now }) w.files
    fun g hg hid => by
      obtain rfl := h.file_unique hg hf (of_decide_eq_true hid)
      simp
  simpa only [decide_eq_true_eq] using hunseen

theorem Linked.revokeFile {id : Uuid} (h : Linked (some id) w) : Linked none
    { w with shares := w.shares.map fun s =>
      if s.fileId = id && !s.isRevoked then { s with isRevoked := true } else s } := by
  obtain ⟨hids, hids', hlink⟩ := h
  refine ⟨hids, hids', ?_⟩
  intro s' hs' hrev
  obtain ⟨s, hs, rfl⟩ := List.mem_map.mp hs'
  by_cases hmark : (decide (s.fileId = id) && !s.isRevoked) = true
  · rw [if_pos hmark] at hrev
    cases hrev
  · rw [if_neg hmark] at hrev ⊢
    obtain ⟨f, hf, hfile, howner, hlive⟩ := hlink s hs hrev
    refine ⟨f, hf, hfile, howner, Or.inl (hlive.resolve_right fun hgone => hmark ?_)⟩
    rw [← hfile, Option.some.inj hgone, hrev]
    simp

/-- The shares of a file are its owner's. -/
theorem Kept.revokeFile {gone : Option Uuid} (h : Linked gone w) {f : FileRow} (hf : f ∈ w.files) :
    Kept f.ownerId w
    { w with shares := w.shares.map fun s =>
      if s.fileId = f.id && !s.isRevoked then { s with isRevoked := true } else s } := by
  refine ⟨rfl, rfl, ?_, fun _ _ _ _ => rfl⟩
  refine filter_map_unseen fun s hs hmark => ?_
  rw [Bool.and_eq_true, decide_eq_true_eq, Bool.not_eq_true'] at hmark
  obtain ⟨g, hg, hfile, howner, -⟩ := h.shares s hs hmark.2
  obtain rfl := h.file_unique hg hf (hfile.trans hmark.1)
  simp [howner]

/-- The owner found by a user's id is that user. -/
theorem owner_eq (hpg : pg.Lawful json) {u v : Uuid} (hv : pg.uuidParam u.text = .ok v) : v = u := by
  rw [uuidParam_text hpg] at hv
  exact (Except.ok.inj hv).symm

/-- A user's file and its shares go together. -/
theorem Within.deleteFile (hpg : pg.Lawful json) (h : Within text none w₀ w) {f : FileRow}
    (hf : f ∈ w.files) (howner : pg.uuidParam text = .ok f.ownerId) (now : Int) :
    Within text none w₀ { w with
      files := w.files.map fun g => if g.id = f.id then { g with deletedAt := some now } else g
      shares := w.shares.map fun s =>
        if s.fileId = f.id && !s.isRevoked then { s with isRevoked := true } else s } := by
  have hgone := h.linked.softDelete f.id now
  refine ⟨hgone.revokeFile, ?_⟩
  rintro u rfl
  obtain rfl := owner_eq hpg howner
  have hmem := List.mem_map_of_mem (f := fun g : FileRow =>
    if g.id = f.id then { g with deletedAt := some now } else g) hf
  rw [if_pos rfl] at hmem
  exact (h.kept _ rfl).trans ((Kept.softDelete h.linked hf now).trans
    (Kept.revokeFile (f := { f with deletedAt := some now }) hgone hmem))

theorem within_handleFileDelete (hpg : pg.Lawful json) (req : HttpRequest) (h : Linked none w) :
    (handleFileDelete svc req).wp (ofExec (exec svc pg))
      (fun _ w' => Within req.authUserId none w w') w := by
  have hw : Within req.authUserId none w w := .refl h
  refine wp_catch (M := fun _ w' => Within req.authUserId none w w') ?_ (fun _ _ h' => h')
    fun e w' h' => wp_own_reads hpg (reads_catchStd svc _ e) h'
  split
  swap
  · exact wp_own_reads hpg (reads_setError svc _ _) hw
  dsimp only
  split
  · exact wp_own_reads hpg (reads_setError svc _ _) hw
  refine wp_finds_bind (finds_requireOwnedFile _ _) (fun owned draws howned => ?_)
    fun e draws => hw.draws draws
  cases owned with
  | error resp => exact hw.draws draws
  | ok file =>
      obtain ⟨f, hf, -, hid, howner, -⟩ := howned file rfl
      refine wp_request_bind trivial (fun _ w₁ hexec₁ => ?_) fun e w₁ hexec₁ => ?_
      swap
      · rcases exec_fileSoftDelete hexec₁ with ⟨e, -, rfl⟩ | ⟨x, -, hr, -⟩
        · exact hw.draws draws
        · cases hr
      rcases exec_fileSoftDelete hexec₁ with ⟨e, hr, -⟩ | ⟨x, hx, -, rfl⟩
      · cases hr
      obtain rfl : f.id = x := Except.ok.inj (hid.symm.trans hx)
      refine wp_request_bind trivial (fun _ w₂ hexec₂ => ?_) fun e w₂ hexec₂ => ?_
      swap
      · rcases exec_revokeByFileId hexec₂ with ⟨e, -, herr, -⟩ | ⟨x, -, hr, -⟩
        · rw [hid] at herr
          cases herr
        · cases hr
      rcases exec_revokeByFileId hexec₂ with ⟨e, hr, -, -⟩ | ⟨x, hx, -, rfl⟩
      · cases hr
      obtain rfl : f.id = x := Except.ok.inj (hid.symm.trans hx)
      -- the file is gone and so are its shares: the world is linked again
      have hdone := (hw.draws draws).deleteFile hpg hf howner ({ w with draws } : World).sqlNow
      refine wp_seq (wp_own hpg (callsOnly_tryCollectContent (fun c hc => own_of_reads hc)
        (fun _ => trivial) _) hdone) ?_ fun _ _ h' => h'
      exact fun _ _ h' => h'

/-! ### Folders -/

/-- The folder with this id belongs to `text`. -/
def OwnFolder (pg : Postgres) (text id : Bytes) (w : World) : Prop :=
  ∃ f ∈ w.folders, pg.uuidParam id = .ok f.id ∧ f.ownerId.text = text

/-- Updates of one folder, and reading. -/
def onFolder (id : Bytes) : Call → Prop
  | .folderSoftDelete i => i = id
  | .folderRename i _ => i = id
  | c => readOnly c = true

theorem onFolder_of_reads {id : Bytes} (c : Call) (hc : readOnly c = true) : onFolder id c := by
  cases c <;> trivial

theorem within_updateFolder {id : Bytes} {x : Uuid} {g : FolderRow → FolderRow}
    (hx : pg.uuidParam id = .ok x) (hg : ∀ f, (g f).id = f.id ∧ (g f).ownerId = f.ownerId)
    (h : Within text none w₀ w) (hfolder : OwnFolder pg text id w) :
    Within text none w₀
        { w with folders := w.folders.map fun f => if f.id = x then g f else f } ∧
      OwnFolder pg text id
        { w with folders := w.folders.map fun f => if f.id = x then g f else f } := by
  obtain ⟨f, hf, hid, howner⟩ := hfolder
  obtain rfl : f.id = x := Except.ok.inj (hid.symm.trans hx)
  refine ⟨⟨?_, ?_⟩, ?_⟩
  · refine h.linked.updateFolders (fun f' => ?_) rfl rfl rfl
    split
    · exact (hg f').1
    · rfl
  · intro u hu
    refine (h.kept u hu).trans ⟨rfl, ?_, rfl, fun _ _ _ _ => rfl⟩
    have hunseen := @filter_map_unseen FolderRow (fun f' => decide (f'.id = f.id))
      (fun f' => f'.live && f'.ownerId ≠ u) g w.folders fun f' hf' hid' => by
        obtain rfl := h.linked.folder_unique hf' hf (of_decide_eq_true hid')
        have hu' : f'.ownerId = u := Uuid.text_injective (howner.trans hu)
        simp [(hg f').2, hu']
    simpa only [decide_eq_true_eq] using hunseen
  · refine ⟨_, List.mem_map_of_mem hf, ?_⟩
    rw [if_pos rfl, (hg f).1, (hg f).2]
    exact ⟨hid, howner⟩

theorem ownFolder_of_found {id : Bytes} (h : ∃ f ∈ w.folders, pg.uuidParam id = .ok f.id ∧
    f.ownerId.text = text ∧ f.live = true) : OwnFolder pg text id w := by
  obtain ⟨f, hf, hid, howner, -⟩ := h
  exact ⟨f, hf, hid, howner⟩

theorem wp_onFolder {id : Bytes} {α : Type} {p : App α} (hp : p.CallsOnly (onFolder id))
    (h : Within text none w₀ w) (hfolder : OwnFolder pg text id w) :
    p.wp (ofExec (exec svc pg)) (fun _ w' => Within text none w₀ w') w := by
  refine wp_mono (wp_of_callsOnly (fun w' => Within text none w₀ w' ∧ OwnFolder pg text id w') ?_ hp
    ⟨h, hfolder⟩) fun _ _ h' => h'.1
  rintro w₁ c hc ⟨h₁, hfolder₁⟩
  refine ⟨trivial, fun r w₂ hexec => ?_⟩
  have hreads : readOnly c = true → Within text none w₀ w₂ ∧ OwnFolder pg text id w₂ := by
    intro hr
    obtain ⟨draws, hd⟩ := @exec_readOnly svc pg c hr w₁
    rw [show exec svc pg c w₁ = (r, w₂) from hexec] at hd
    rw [show w₂ = _ from hd]
    exact ⟨h₁.draws draws, hfolder₁⟩
  cases c with
  | folderSoftDelete i =>
      obtain rfl : i = id := hc
      rcases exec_folderSoftDelete hexec with rfl | ⟨x, hx, rfl⟩
      · exact ⟨h₁, hfolder₁⟩
      · exact within_updateFolder hx (fun _ => ⟨rfl, rfl⟩) h₁ hfolder₁
  | folderRename i name =>
      obtain rfl : i = id := hc
      rcases exec_folderRename hexec with rfl | ⟨x, g, hx, hg, rfl⟩
      · exact ⟨h₁, hfolder₁⟩
      · exact within_updateFolder hx (fun f => ⟨(hg f).1, (hg f).2.1⟩) h₁ hfolder₁
  | _ => exact hreads hc

theorem within_handleFolderDelete (hpg : pg.Lawful json) (req : HttpRequest) (h : Linked none w) :
    (handleFolderDelete svc req).wp (ofExec (exec svc pg))
      (fun _ w' => Within req.authUserId none w w') w := by
  have hw : Within req.authUserId none w w := .refl h
  refine wp_catch (M := fun _ w' => Within req.authUserId none w w') ?_ (fun _ _ h' => h')
    fun e w' h' => wp_own_reads hpg (reads_catchStd svc _ e) h'
  split
  swap
  · exact wp_own_reads hpg (reads_setError svc _ _) hw
  dsimp only
  split
  · exact wp_own_reads hpg (reads_setError svc _ _) hw
  refine wp_finds_bind (finds_ownedFolder _ _) (fun found draws hfound => ?_)
    fun e draws => hw.draws draws
  cases found with
  | none => exact wp_own_reads hpg (reads_setError svc _ _) (hw.draws draws)
  | some record =>
      refine wp_onFolder ?_ (hw.draws draws) (ownFolder_of_found (hfound record rfl))
      refine callsOnly_bind (callsOnly_request (onFolder_of_reads _ rfl)) fun occupied => ?_
      split
      · exact callsOnly_reads onFolder_of_reads (reads_setError svc _ _)
      · exact callsOnly_bind (callsOnly_request rfl) fun _ => callsOnly_pure _

theorem within_handleFolderRename (hpg : pg.Lawful json) (req : HttpRequest) (h : Linked none w) :
    (handleFolderRename svc req).wp (ofExec (exec svc pg))
      (fun _ w' => Within req.authUserId none w w') w := by
  have hw : Within req.authUserId none w w := .refl h
  refine wp_catch (M := fun _ w' => Within req.authUserId none w w') ?_ (fun _ _ h' => h')
    fun e w' h' => wp_own_reads hpg (reads_catchJson svc _ e) h'
  split
  swap
  · exact wp_own_reads hpg (reads_setError svc _ _) hw
  dsimp only
  split
  · exact wp_own_reads hpg (reads_setError svc _ _) hw
  refine wp_finds_bind (finds_ownedFolder _ _) (fun found draws hfound => ?_)
    fun e draws => hw.draws draws
  cases found with
  | none => exact wp_own_reads hpg (reads_setError svc _ _) (hw.draws draws)
  | some record =>
      refine wp_onFolder ?_ (hw.draws draws) (ownFolder_of_found (hfound record rfl))
      exact callsOnly_renameOwned onFolder_of_reads svc req record _ fun _ => rfl

/-! ### Shares -/

/-- A live file with this id belongs to `text`. -/
def OwnFile (pg : Postgres) (text id : Bytes) (w : World) : Prop :=
  ∃ f ∈ w.files, f.live = true ∧ pg.uuidParam id = .ok f.id ∧ pg.uuidParam text = .ok f.ownerId

/-- Shares of one file, and what needs no more than the right owner. -/
def onFile (text id : Bytes) : Call → Prop
  | .shareInsert record => record.ownerId = text ∧ record.fileId = id
  | .redisSet key _ _ => ∀ id, cstr key ≠ cstr (sessionKey id)
  | c => readOnly c = true

theorem onFile_of_reads {id : Bytes} (c : Call) (hc : readOnly c = true) : onFile text id c := by
  cases c <;> trivial

theorem within_insertShare (hpg : pg.Lawful json) {id : Bytes} {row : ShareRow}
    (hfile : pg.uuidParam id = .ok row.fileId) (howner : pg.uuidParam text = .ok row.ownerId)
    (h : Within text none w₀ w) (hown : OwnFile pg text id w) :
    Within text none w₀ { w.skipUuids with shares := w.shares ++ [row] } := by
  obtain ⟨f, hf, hlive, hid, hfowner⟩ := hown
  refine ⟨⟨h.linked.fileIds, h.linked.folderIds, ?_⟩, ?_⟩
  · intro s hs hrev
    rcases List.mem_append.mp hs with hs | hs
    · exact h.linked.shares s hs hrev
    · obtain rfl := List.mem_singleton.mp hs
      exact ⟨f, hf, Except.ok.inj (hid.symm.trans hfile), Except.ok.inj (hfowner.symm.trans howner),
        Or.inl hlive⟩
  · rintro u rfl
    refine (h.kept u rfl).trans ⟨rfl, rfl, ?_, fun _ _ _ _ => rfl⟩
    exact filter_append_unseen (by simp [owner_eq hpg howner])

theorem wp_onFile (hpg : pg.Lawful json) {id : Bytes} {α : Type} {p : App α}
    (hp : p.CallsOnly (onFile text id)) (h : Within text none w₀ w) (hown : OwnFile pg text id w) :
    p.wp (ofExec (exec svc pg)) (fun _ w' => Within text none w₀ w') w := by
  refine wp_mono (wp_of_callsOnly (fun w' => Within text none w₀ w' ∧ OwnFile pg text id w') ?_ hp
    ⟨h, hown⟩) fun _ _ h' => h'.1
  rintro w₁ c hc ⟨h₁, hown₁⟩
  refine ⟨trivial, fun r w₂ hexec => ?_⟩
  have hreads : readOnly c = true → Within text none w₀ w₂ ∧ OwnFile pg text id w₂ := by
    intro hr
    obtain ⟨draws, hd⟩ := @exec_readOnly svc pg c hr w₁
    rw [show exec svc pg c w₁ = (r, w₂) from hexec] at hd
    rw [show w₂ = _ from hd]
    exact ⟨h₁.draws draws, hown₁⟩
  cases c with
  | shareInsert record =>
      obtain ⟨rfl, rfl⟩ := hc
      rcases exec_shareInsert hexec with rfl | ⟨row, hnew, rfl⟩
      · refine ⟨⟨h₁.linked.congr rfl rfl rfl, fun u hu => ?_⟩, hown₁⟩
        exact (h₁.kept u hu).trans (.congr u rfl rfl rfl rfl)
      · exact ⟨within_insertShare hpg hnew.fileId hnew.ownerId h₁ hown₁, hown₁⟩
  | redisSet key value ttl =>
      obtain rfl : redisSet key value w₁ = w₂ := congrArg Prod.snd
        (show exec svc pg (.redisSet key value ttl) w₁ = _ from hexec)
      refine ⟨⟨h₁.linked.congr rfl rfl rfl, fun u hu => ?_⟩, hown₁⟩
      exact (h₁.kept u hu).trans (.setKey u hc _)
  | _ => exact hreads hc

theorem within_handleShareCreate (hpg : pg.Lawful json) (req : HttpRequest) (h : Linked none w) :
    (handleShareCreate svc req).wp (ofExec (exec svc pg))
      (fun _ w' => Within req.authUserId none w w') w := by
  have hw : Within req.authUserId none w w := .refl h
  refine wp_catch (M := fun _ w' => Within req.authUserId none w w') ?_ (fun _ _ h' => h')
    fun e w' h' => wp_own_reads hpg (reads_catchJson svc _ e) h'
  split
  swap
  · exact wp_own_reads hpg (reads_setError svc _ _) hw
  refine wp_finds_bind (finds_reads (reads_ask rfl)) (fun body draws _ => ?_)
    fun e draws => hw.draws draws
  refine wp_finds_bind (finds_reads (reads_ofJson _)) (fun share draws _ => ?_)
    fun e draws => hw.draws draws
  refine wp_finds_bind (finds_requireOwnedFile _ _) (fun owned draws howned => ?_)
    fun e draws => hw.draws draws
  cases owned with
  | error resp => exact hw.draws draws
  | ok file =>
      obtain ⟨f, hf, hlive, hid, howner, -⟩ := howned file rfl
      refine wp_onFile hpg ?_ (hw.draws draws) ⟨f, hf, hlive, hid, howner⟩
      exact callsOnly_createShare onFile_of_reads svc (fun record hu hf => ⟨hu, hf⟩)
        fun token _ _ => shareKey_ne token

/-! ### Multipart sessions -/

/-- A hash with a user holds no string. -/
theorem hashKey_of_sessionOf {id user : Bytes} (h : SessionOf w id user) :
    HashKey w (sessionKey id) := by
  intro v hv
  rw [SessionOf, hget, hv] at h
  cases h

/-- The session of a request is found under the request's user. -/
theorem sessionOf_of_user {id user : Bytes} (hne : user ≠ [])
    (h : user = (hget w (sessionKey id) (ascii "user_id")).getD []) : SessionOf w id user := by
  unfold SessionOf
  cases hg : hget w (sessionKey id) (ascii "user_id") with
  | none =>
      rw [hg] at h
      exact absurd h hne
  | some t =>
      rw [hg] at h
      rw [h]
      rfl

/-- A key is written that no other user had and that no other user gets. -/
theorem Within.writeKey {id : Bytes} {w' : World} (h : Within text none w₀ w)
    (hbefore : ∀ user, SessionOf w id user → user = text)
    (hafter : ∀ user, SessionOf w' id user → user = text)
    (hworld : w' = { w with redis := w'.redis })
    (hothers : ∀ k, k ≠ cstr (sessionKey id) → w'.redis k = w.redis k) :
    Within text none w₀ w' := by
  refine ⟨?_, ?_⟩
  · rw [hworld]
    exact h.linked.congr rfl rfl rfl
  · rintro u rfl
    refine (h.kept u rfl).trans ⟨by rw [hworld], by rw [hworld], by rw [hworld], ?_⟩
    intro id' user huser hof
    by_cases hid : cstr (sessionKey id') = cstr (sessionKey id)
    · have hsame : ∀ w₁ : World, SessionOf w₁ id' user ↔ SessionOf w₁ id user := by
        intro w₁
        rw [SessionOf, SessionOf, hget, hget, hid]
      rw [hsame, hsame] at hof
      exact absurd (hof.elim (hbefore user) (hafter user)) huser
    · exact hothers _ hid

/-- What `save_to_redis` changes belongs to the session's user. -/
theorem Within.saved {session : MultipartSession} {r : Except Exn Unit} {w' : World}
    (h : Within text none w₀ w) (huser : session.userId = text)
    (hbefore : ∀ user, SessionOf w session.uploadId user → user = text)
    (hsaved : Saved svc session w r w') : Within text none w₀ w' := by
  cases hsaved with
  | skipped => exact h
  | failed => exact h
  | @written t t' w' _ ht ht' hre =>
      refine ⟨?_, ?_⟩
      · rw [hre.world]
        exact h.linked.congr rfl rfl rfl
      · rintro u hu
        have hcstr : cstr u.text = u.text :=
          cstr_of_not_mem fun hn => (isUuidText_ascii u.isText hn).1 rfl
        have hafter : SessionOf w' session.uploadId text := by
          have hwritten := hre.written (ascii "user_id", session.userId) (by simp [sessionFields])
          rw [huser, hu, hcstr] at hwritten
          rwa [SessionOf, hu]
        exact (h.writeKey hbefore (fun user hof => Option.some.inj (hof.symm.trans hafter))
          hre.world hre.others).kept u hu

theorem within_handleInit (hpg : pg.Lawful json) (req : HttpRequest) (h : Linked none w)
    (hfresh : w.redis (cstr (sessionKey (generatedId w))) = none) :
    (handleInit svc req).wp (ofExec (exec svc pg))
      (fun _ w' => Within req.authUserId none w w') w := by
  have hw : Within req.authUserId none w w := .refl h
  refine wp_catch (M := fun _ w' => Within req.authUserId none w w') ?_ (fun _ _ h' => h')
    fun e w' h' => wp_own_reads hpg (reads_catchJson svc _ e) h'
  split
  · exact wp_own_reads hpg (reads_setError svc _ _) hw
  refine wp_still_bind (callsOnly_request ⟨rfl, nofun⟩) (fun body => ?_) fun _ => hw
  refine wp_still_bind (callsOnly_ofJson _) (fun init => ?_) fun _ => hw
  split
  · exact wp_own_reads hpg (reads_setError svc _ _) hw
  split
  · exact wp_own_reads hpg (reads_setError svc _ _) hw
  refine wp_still_bind (callsOnly_resolveFolderId svc (fun _ => ⟨rfl, nofun⟩) _ _)
    (fun folder => ?_) fun _ => hw
  cases folder with
  | error resp => exact hw
  | ok folderId =>
      refine wp_finds_bind (finds_startSession _ _ _) (fun session draws hstart => ?_)
        fun e draws => hw.draws draws
      have hnone : ∀ user, ¬ SessionOf w session.uploadId user := by
        intro user hof
        rw [SessionOf, hstart.sessionId, hget, hfresh] at hof
        cases hof
      have hkey : HashKey { w with draws } (sessionKey session.uploadId) := by
        intro v hv
        have hv' : w.redis (cstr (sessionKey session.uploadId)) = some (.str v) := hv
        rw [hstart.sessionId, hfresh] at hv'
        cases hv'
      have hsave : ∀ r w', Saved svc session { w with draws } r w' →
          Within req.authUserId none w w' := fun r w' hsaved =>
        (hw.draws draws).saved hstart.userId (fun user hof => absurd hof (hnone user)) hsaved
      refine wp_seq (wp_saveToRedis session hkey) (fun _ w' hsaved => ?_)
        fun e w' hsaved => hsave _ w' hsaved
      exact wp_own_reads hpg (reads_setJson svc _) (hsave _ w' hsaved)

/-- The session of the request belongs to the request's user. -/
def OwnSession (text id : Bytes) (session : MultipartSession) (w : World) : Prop :=
  session.uploadId = id ∧ session.userId = text ∧ SessionOf w id text

theorem wp_ownSession {req : HttpRequest} (hauth : req.hasAuthUser = true) {id : Bytes}
    {f : Answered MultipartSession → App HttpResponse} (h : Within req.authUserId none w₀ w)
    (hrefused : ∀ resp w', Within req.authUserId none w₀ w' →
      (f (.error resp)).wp (ofExec (exec svc pg)) (fun _ w' => Within req.authUserId none w₀ w') w')
    (hfound : ∀ session draws, OwnSession req.authUserId id session w →
      (f (.ok session)).wp (ofExec (exec svc pg)) (fun _ w' => Within req.authUserId none w₀ w')
        { w with draws }) :
    (requireSession svc req id >>= f).wp (ofExec (exec svc pg))
      (fun _ w' => Within req.authUserId none w₀ w') w := by
  refine wp_finds_bind (finds_requireSession req id) (fun found draws hsession => ?_)
    fun e draws => h.draws draws
  cases found with
  | error resp => exact hrefused resp _ (h.draws draws)
  | ok session =>
      obtain ⟨hloaded, huser⟩ := hsession session rfl
      have hne : req.authUserId ≠ [] := by
        intro hnil
        rw [HttpRequest.hasAuthUser, hnil] at hauth
        cases hauth
      exact hfound session draws
        ⟨hloaded.sessionId, huser, sessionOf_of_user hne (huser ▸ hloaded.userId)⟩

theorem within_withSession (hpg : pg.Lawful json) (req : HttpRequest) (h : Linked none w)
    (what : Bytes) {k : Bytes → MultipartSession → App HttpResponse}
    (hk : ∀ id session draws, OwnSession req.authUserId id session w →
      (k id session).wp (ofExec (exec svc pg)) (fun _ w' => Within req.authUserId none w w')
        { w with draws }) :
    (withSession svc req what k).wp (ofExec (exec svc pg))
      (fun _ w' => Within req.authUserId none w w') w := by
  refine course_withSession (P := fun w' => w' = w) (S := fun session w' =>
    ∃ draws : Nat → Nat, w' = { w with draws } ∧
      OwnSession req.authUserId (req.getPathParam (ascii "upload_id")) session w) ?_ ?_ ?_ ?_ rfl
  · rintro code msg _ rfl
    exact wp_own_reads hpg (reads_setError svc _ _) (.refl h)
  · exact fun e w' h' => wp_own_reads hpg (reads_catchStd svc _ e) h'
  · rintro _ f rfl hauth hrefused hfound
    exact wp_ownSession hauth (.refl h) hrefused
      fun session draws hown => hfound session _ ⟨draws, rfl, hown⟩
  · rintro session _ ⟨draws, rfl, hown⟩
    exact hk _ session draws hown

theorem wp_deleteFromRedis {id : Bytes} (h : Within text none w₀ w)
    (hof : svc.hasRedis = true → SessionOf w id text) :
    (deleteFromRedis svc id).wp (ofExec (exec svc pg)) (fun _ w' => Within text none w₀ w') w := by
  unfold deleteFromRedis
  split
  swap
  · exact h
  rename_i hredis
  have hdeleted : ∀ r w', exec svc pg (.redisDel (sessionKey id)) w = (r, w') →
      Within text none w₀ w' := by
    intro r w' hexec
    obtain rfl : redisDel (sessionKey id) w = w' := congrArg Prod.snd hexec
    refine h.writeKey (fun user hof' => Option.some.inj (hof'.symm.trans (hof hredis)))
      (fun user hof' => ?_) rfl fun k hk => Function.update_of_ne hk _ _
    rw [SessionOf, hget, redisDel] at hof'
    dsimp only at hof'
    rw [Function.update_self] at hof'
    cases hof'
  exact wp_request_bind trivial (fun _ w' hexec => hdeleted _ w' hexec)
    fun _ w' hexec => hdeleted _ w' hexec

theorem within_handleAbort (hpg : pg.Lawful json) (req : HttpRequest) (h : Linked none w) :
    (handleAbort svc req).wp (ofExec (exec svc pg))
      (fun _ w' => Within req.authUserId none w w') w := by
  refine within_withSession hpg req h _ fun id session draws hown => ?_
  refine wp_seq (wp_deleteFromRedis ((Within.refl h).draws draws) fun _ => hown.2.2) ?_
    fun _ _ h' => h'
  exact fun _ _ h' => h'

/-- Calls of the user leave the sessions in Redis alone. -/
theorem sessions_own {c : Call} {r : Except Exn c.Resp} {w' : World} (hown : own text c)
    (hexec : exec svc pg c w = (r, w')) (id : Bytes) :
    w'.redis (cstr (sessionKey id)) = w.redis (cstr (sessionKey id)) := by
  by_cases hc : touchesRedis c = false
  · rw [exec_redis hc hexec]
  have hw : w' = (exec svc pg c w).2 := by rw [hexec]
  cases c with
  | redisSet key value ttl => rw [hw]; exact Function.update_of_ne (hown id).symm _ _
  | redisDel key => rw [hw]; exact Function.update_of_ne (hown id).symm _ _
  | hset key field value => exact hown.elim
  | _ => exact absurd rfl hc

theorem within_handleComplete (hpg : pg.Lawful json) (req : HttpRequest) (h : Linked none w) :
    (handleComplete svc req).wp (ofExec (exec svc pg))
      (fun _ w' => Within req.authUserId none w w') w := by
  refine within_withSession hpg req h _ fun id session draws hown => ?_
  have hw : Within req.authUserId none w { w with draws } := (Within.refl h).draws draws
  obtain ⟨-, huser, hof⟩ := hown
  split
  · exact wp_own_reads hpg (reads_setError svc _ _) hw
  -- up to the deletion of the session it stays where it is
  have hcreate : ∀ {α : Type} {p : App α} {w₁ : World}, p.CallsOnly (own req.authUserId) →
      Within req.authUserId none w w₁ ∧ SessionOf w₁ id req.authUserId →
      p.wp (ofExec (exec svc pg)) (fun _ w' => Within req.authUserId none w w' ∧
        SessionOf w' id req.authUserId) w₁ := by
    intro α p w₁ hp h₁
    refine wp_of_callsOnly (fun w' => Within req.authUserId none w w' ∧
      SessionOf w' id req.authUserId) ?_ hp h₁
    rintro w₂ c hc ⟨h₂, hof₂⟩
    exact ⟨trivial, fun r w₃ hexec => ⟨h₂.step hpg hc hexec,
      (sessionOf_congr (sessions_own hc hexec id)).mpr hof₂⟩⟩
  refine wp_finds_bind (finds_reads (reads_ofJson _)) (fun chunkHashes draws _ => ?_)
    fun e draws => hw.draws draws
  refine wp_finds_bind (finds_reads (reads_getChunked _)) (fun content draws _ => ?_)
    fun e draws => hw.draws draws
  refine wp_seq (hcreate (callsOnly_createFile (fun c hc => own_of_reads hc) svc
    (fun hash _ => hashKey_ne hash) (fun _ hf _ => hf) (fun _ _ hf _ => hf) huser rfl _ _)
    ⟨hw.draws draws, hof⟩) ?_ fun _ _ h' => h'.1
  rintro ⟨fileId, instant⟩ w₁ ⟨h₁, hof₁⟩
  refine wp_seq (wp_deleteFromRedis h₁ fun _ => hof₁) (fun _ w₂ h₂ => ?_) fun _ _ h' => h'
  exact wp_own_reads hpg (reads_bind (reads_ask rfl) fun _ => reads_setJson svc _) h₂

theorem within_handleUploadPart (hpg : pg.Lawful json) (req : HttpRequest) (h : Linked none w) :
    (handleUploadPart svc req).wp (ofExec (exec svc pg))
      (fun _ w' => Within req.authUserId none w w') w := by
  have hw : Within req.authUserId none w w := .refl h
  refine wp_catch (M := fun _ w' => Within req.authUserId none w w') ?_ (fun _ _ h' => h')
    fun e w' h' => wp_own_reads hpg (reads_catchStd svc _ e) h'
  split
  · exact wp_own_reads hpg (reads_setError svc _ _) hw
  rename_i hauth
  dsimp only
  split
  · exact wp_own_reads hpg (reads_setError svc _ _) hw
  refine wp_finds_bind (finds_reads (reads_ofSto _ _)) (fun partNum draws _ => ?_)
    fun e draws => hw.draws draws
  split
  · exact wp_own_reads hpg (reads_setError svc _ _) (hw.draws draws)
  refine wp_ownSession (by simpa using hauth) (hw.draws draws) (fun _ _ h' => h')
    fun session draws hown => ?_
  dsimp only
  split
  · exact wp_own_reads hpg (reads_setError svc _ _) ((hw.draws _).draws draws)
  split
  · exact wp_own_reads hpg (reads_setError svc _ _) ((hw.draws _).draws draws)
  obtain ⟨hid, huser, hof⟩ := hown
  refine wp_request_bind trivial (fun hash w₁ hexec => ?_) fun e w₁ hexec => ?_
  all_goals
    have hput : own req.authUserId (.put req.body) := trivial
    have h₁ : Within req.authUserId none w w₁ := ((hw.draws _).draws draws).step hpg hput hexec
  swap
  · exact h₁
  have hof₁ : SessionOf w₁ session.uploadId req.authUserId := by
    rw [hid]
    exact (sessionOf_congr (sessions_own hput hexec _)).mpr hof
  have hsave : ∀ r w', Saved svc (session.record partNum hash) w₁ r w' →
      Within req.authUserId none w w' := by
    intro r w' hsaved
    have hrecord : (session.record partNum hash).userId = req.authUserId := huser
    exact h₁.saved hrecord (fun user hof' => Option.some.inj (hof'.symm.trans hof₁)) hsaved
  refine wp_seq (wp_saveToRedis (session.record partNum hash) (hashKey_of_sessionOf hof₁))
    (fun _ w₂ hsaved => ?_) fun e w₂ hsaved => hsave _ w₂ hsaved
  exact wp_own_reads hpg (reads_bind (reads_ask rfl) fun _ => reads_setJson svc _)
    (hsave _ w₂ hsaved)

end Handlers

/-! ## Histories -/

section Histories

variable {svc : Services} {pg : Postgres} {w : World} {json : JsonLib}

/-- A request of a logged-in user. -/
theorem within_serve (hpg : pg.Lawful json) {route : RouteName} (hroute : route.isPublic = false)
    (req : HttpRequest) (h : Linked none w)
    (hfresh : route = .uploadInit → w.redis (cstr (sessionKey (generatedId w))) = none) :
    Within req.authUserId none w (serve svc pg route req w).2 := by
  have hreads : ∀ c, readOnly c = true → own req.authUserId c := fun c hc => own_of_reads hc
  have hw : Within req.authUserId none w w := .refl h
  have hhandler : (handler svc route req).wp (ofExec (exec svc pg))
      (fun _ w' => Within req.authUserId none w w') w := by
    cases route with
    | health => cases hroute
    | metrics => cases hroute
    | register => cases hroute
    | login => cases hroute
    | shareDownload => cases hroute
    | upload =>
        exact wp_own hpg (callsOnly_uploadRoute hreads svc (fun _ => trivial)
          (fun hash _ => hashKey_ne hash) req (fun _ hf => hf) fun _ _ hf => hf) hw
    | uploadInit => exact within_handleInit hpg req h (hfresh rfl)
    | uploadPart => exact within_handleUploadPart hpg req h
    | uploadComplete => exact within_handleComplete hpg req h
    | uploadStatus => exact wp_own_reads hpg (reads_handleStatus svc req) hw
    | uploadAbort => exact within_handleAbort hpg req h
    | fileList => exact wp_own_reads hpg (reads_handleFileList svc req) hw
    | fileDelete => exact within_handleFileDelete hpg req h
    | folderList => exact wp_own_reads hpg (reads_handleFolderList svc req) hw
    | folderCreate =>
        exact wp_own hpg (callsOnly_handleFolderCreate hreads svc req fun _ hf => hf) hw
    | folderRename => exact within_handleFolderRename hpg req h
    | folderDelete => exact within_handleFolderDelete hpg req h
    | fileDownload => exact wp_own_reads hpg (reads_downloadRoute svc req) hw
    | shareCreate => exact within_handleShareCreate hpg req h
    | shareSave =>
        exact wp_own hpg (callsOnly_handleShareSave hreads svc req fun _ _ hf _ => hf) hw
    | shareList => exact wp_own_reads hpg (reads_handleShareList svc req) hw
    | shareRevoke =>
        exact wp_own hpg (callsOnly_handleShareRevoke hreads svc req (fun _ => rfl)
          fun token => shareKey_ne token) hw
  exact run_of_wp hhandler

theorem linked_callsOnly {α : Type} {p : App α} (hp : p.CallsOnly fun c => keepsLinks c = true)
    (h : Linked none w) : Linked none (p.run (exec svc pg) w).2 :=
  run_of_wp (Q := fun _ w' => Linked none w') (wp_of_callsOnly (fun w' => Linked none w')
    (fun _ _ hc h' => ⟨trivial, fun _ _ hexec => linked_step hc h' hexec⟩) hp h)

theorem linked_serve (hpg : pg.Lawful json) (route : RouteName) (req : HttpRequest)
    (h : Linked none w) : Linked none (serve svc pg route req w).2 := by
  have hreads : ∀ c, readOnly c = true → keepsLinks c = true := fun c hc => keepsLinks_of_reads hc
  have hother : ∀ route : RouteName, route.isPublic = false → route ≠ .uploadInit →
      Linked none (serve svc pg route req w).2 := fun route hroute hinit =>
    (within_serve hpg hroute req h fun heq => absurd heq hinit).linked
  cases route with
  | health => exact h
  | metrics => exact h
  | register => exact linked_callsOnly (callsOnly_handleRegister hreads svc req fun _ _ => rfl) h
  | login => exact linked_callsOnly (callsOnly_reads hreads (reads_handleLogin svc req)) h
  | shareDownload =>
      exact linked_callsOnly (callsOnly_handleShareDownload hreads svc req (fun _ => rfl)
        fun _ _ _ => rfl) h
  | uploadInit => exact linked_callsOnly (callsOnly_handleInit hreads svc req fun _ _ _ => rfl) h
  | _ => exact hother _ rfl nofun

theorem linked_act (hpg : pg.Lawful json) (w : World) (a : Action) (h : Linked none w) :
    Linked none (act svc pg w a) := by
  cases a with
  | request route req => exact linked_serve hpg route req h
  | collect batchLimit =>
      exact linked_callsOnly
        (callsOnly_collectOrphans (fun c hc => keepsLinks_of_reads hc) (fun _ => rfl) batchLimit) h
  | tick time => exact h.congr rfl rfl rfl
  | expire key => exact h.congr rfl rfl rfl

theorem Initial.linked (h : Initial w) : Linked none w := by
  refine ⟨?_, ?_, ?_⟩
  · rw [h.files]
    exact List.nodup_nil
  · rw [h.folders]
    exact List.nodup_nil
  · rw [h.shares]
    exact fun s hs => absurd hs List.not_mem_nil

/-- **Tenant frame**: after any history, a request of user `u` leaves the live
files, live folders, shares in force and upload sessions of every other user
exactly as they were. -/
theorem kept_by_request (hpg : pg.Lawful json) {w₀ : World} (h₀ : Initial w₀)
    (actions : List Action) {route : RouteName} (hroute : route.isPublic = false) {u : Uuid}
    {req : HttpRequest} (huser : req.authUserId = u.text)
    (hw : actions.foldl (act svc pg) w₀ = w)
    (hfresh : route = .uploadInit → w.redis (cstr (sessionKey (generatedId w))) = none) :
    Kept u w (serve svc pg route req w).2 := by
  have hlinked : Linked none w := by
    rw [← hw]
    exact history_invariant h₀.linked (linked_act hpg) actions
  exact (within_serve hpg hroute req hlinked hfresh).kept u huser

end Histories

/-! ### Alice and Bob -/

def startUpload (user : Uuid) : HttpRequest :=
  { body := ascii "\x7b\"file_name\":\"xy\",\"total_size\":2\x7d", authUserId := user.text }

/-- Alice has a file, and Bob starts an upload. -/
theorem kept_alice_file : ∃ w,
    [uploadBy aliceId "x" (ascii "x")].foldl (act sampleServices samplePostgres) twoUsers = w ∧
      w.files.map FileRow.ownerId = [aliceId] ∧
      (serve sampleServices samplePostgres .uploadInit (startUpload bobId) w).1.toOption.map
        HttpResponse.statusCode = some 200 ∧
      Kept bobId w (serve sampleServices samplePostgres .uploadInit (startUpload bobId) w).2 := by
  refine ⟨_, rfl, by decide +kernel, by decide +kernel, ?_⟩
  exact kept_by_request samplePostgres_lawful twoUsers_initial
    [uploadBy aliceId "x" (ascii "x")] rfl rfl rfl fun _ => Option.isNone_iff_eq_none.mp
      (by decide +kernel)

end SolarDrive.Runs
