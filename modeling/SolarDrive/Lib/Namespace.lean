import Mathlib.Data.Nat.Init
import Mathlib.Logic.Function.Basic
import SolarDrive.Lib.Machine

/-!
# Namespaces

Files and folders of several users. Each has an owner, a place and a name; a
place is the root or a folder. What changes (`Change`) is allowed to does not
make two things of one label, and no folder lies in itself: `Sound` says so for
every space that allowed changes lead to.
-/

namespace Lib.Namespace

open Machine

/-- Whose something is, where it is, and what it is called. -/
structure Label (I U N : Type) where
  owner : U
  place : Option I
  name : N

structure File (I U N C : Type) where
  label : Label I U N
  content : C

/-- A folder that has been removed keeps its place. -/
structure Folder (I U N : Type) where
  label : Label I U N
  live : Bool

@[ext]
structure Space (I U N C : Type) where
  users : U → Option N
  files : I → Option (File I U N C)
  folders : I → Option (Folder I U N)

inductive Change (I U N C : Type) where
  | addUser (user : U) (name : N)
  | addFile (id : I) (file : File I U N C)
  | removeFile (id : I)
  | addFolder (id : I) (label : Label I U N)
  | renameFolder (id : I) (name : N)
  | removeFolder (id : I)

namespace Space

variable {I U N C : Type}

/-- The owner and the place are there. -/
structure Holds (s : Space I U N C) (label : Label I U N) : Prop where
  owner : s.users label.owner ≠ none
  place : ∀ p, label.place = some p → s.folders p ≠ none

def Allowed (s : Space I U N C) : Change I U N C → Prop
  | .addUser user name => s.users user = none ∧ ∀ u, s.users u ≠ some name
  | .addFile id file => s.files id = none ∧ s.Holds file.label ∧
      ∀ i f, s.files i = some f → f.label ≠ file.label
  | .removeFile id => s.files id ≠ none
  | .addFolder id label => s.folders id = none ∧ s.Holds label ∧
      ∀ i f, s.folders i = some f → f.live = true → f.label ≠ label
  | .renameFolder id name => ∃ folder, s.folders id = some folder ∧ folder.live = true ∧
      ∀ i f, s.folders i = some f → f.live = true → i ≠ id → f.label ≠ { folder.label with name }
  | .removeFolder id => ∃ folder, s.folders id = some folder ∧ folder.live = true

variable [DecidableEq I] [DecidableEq U]

def apply (s : Space I U N C) : Change I U N C → Space I U N C
  | .addUser user name => { s with users := Function.update s.users user (some name) }
  | .addFile id file => { s with files := Function.update s.files id (some file) }
  | .removeFile id => { s with files := Function.update s.files id none }
  | .addFolder id label => { s with
      folders := Function.update s.folders id (some { label, live := true }) }
  | .renameFolder id name => { s with
      folders := Function.update s.folders id
        ((s.folders id).map fun f => { f with label := { f.label with name } }) }
  | .removeFolder id => { s with
      folders := Function.update s.folders id ((s.folders id).map fun f => { f with live := false }) }

/-- A space on which changes are made one after the other. -/
abbrev Changes (s : Space I U N C) (changes : List (Change I U N C)) (s' : Space I U N C) : Prop :=
  Run (fun s c => some (apply s c)) Allowed s changes s'

/-- Names are unique, whatever something is in exists, and a folder is of a higher
rank than the one it is in. -/
structure Sound (s : Space I U N C) : Prop where
  users : ∀ u v name, s.users u = some name → s.users v = some name → u = v
  files : ∀ i j f g, s.files i = some f → s.files j = some g → f.label = g.label → i = j
  folders : ∀ i j f g, s.folders i = some f → s.folders j = some g → f.live = true →
    g.live = true → f.label = g.label → i = j
  filesHeld : ∀ i f, s.files i = some f → s.Holds f.label
  foldersHeld : ∀ i f, s.folders i = some f → s.Holds f.label
  ranked : ∃ rank : I → Nat, ∀ i f p, s.folders i = some f → f.label.place = some p →
    rank p < rank i

variable {s s' : Space I U N C}

/-- A folder and what it is in. -/
def Inside (s : Space I U N C) (p i : I) : Prop := ∃ f, s.folders i = some f ∧ f.label.place = some p

omit [DecidableEq I] [DecidableEq U] in
theorem Sound.wellFounded (h : Sound s) : WellFounded s.Inside := by
  obtain ⟨rank, hrank⟩ := h.ranked
  refine Subrelation.wf (fun {p i} hin => ?_) (measure rank).wf
  obtain ⟨f, hf, hp⟩ := hin
  exact hrank i f p hf hp

omit [DecidableEq I] [DecidableEq U] in
/-- Users and folders do not go away. -/
theorem Holds.mono {label : Label I U N} (h : s.Holds label)
    (husers : ∀ u, s.users u ≠ none → s'.users u ≠ none)
    (hfolders : ∀ p, s.folders p ≠ none → s'.folders p ≠ none) : s'.Holds label :=
  ⟨husers _ h.owner, fun p hp => hfolders p (h.place p hp)⟩

section Update

variable {A B : Type} [DecidableEq A]

/-- An entry of an updated table is the new one or an old one. -/
theorem update_some {t : A → Option B} {a i : A} {v : Option B} {b : B}
    (h : Function.update t a v i = some b) : i = a ∧ v = some b ∨ i ≠ a ∧ t i = some b := by
  by_cases hi : i = a
  · subst hi
    rw [Function.update_self] at h
    exact Or.inl ⟨rfl, h⟩
  · rw [Function.update_of_ne hi] at h
    exact Or.inr ⟨hi, h⟩

theorem update_ne_none {t : A → Option B} {a i : A} {v : Option B} (hv : t a ≠ none → v ≠ none)
    (h : t i ≠ none) : Function.update t a v i ≠ none := by
  by_cases hi : i = a
  · subst hi
    rw [Function.update_self]
    exact hv h
  · rwa [Function.update_of_ne hi]

end Update

/-! ## One change -/

omit [DecidableEq I] in
theorem Sound.addUser (h : Sound s) {user : U} {name : N} (hnew : s.users user = none)
    (hfree : ∀ u, s.users u ≠ some name) :
    Sound { s with users := Function.update s.users user (some name) } := by
  have hstay : ∀ u, s.users u ≠ none → Function.update s.users user (some name) u ≠ none :=
    fun u hu => update_ne_none (fun _ => Option.some_ne_none name) hu
  refine ⟨fun u v n hu hv => ?_, h.files, h.folders, fun i f hf => ?_, fun i f hf => ?_, h.ranked⟩
  · rcases update_some hu with ⟨rfl, hn⟩ | ⟨hne, hu⟩
    · rcases update_some hv with ⟨rfl, -⟩ | ⟨-, hv⟩
      · rfl
      · exact (hfree v (hn ▸ hv)).elim
    · rcases update_some hv with ⟨-, hn⟩ | ⟨-, hv⟩
      · exact (hfree u (hn ▸ hu)).elim
      · exact h.users u v n hu hv
  · exact (h.filesHeld i f hf).mono hstay fun _ hp => hp
  · exact (h.foldersHeld i f hf).mono hstay fun _ hp => hp

omit [DecidableEq U] in
theorem Sound.addFile (h : Sound s) {id : I} {file : File I U N C} (hheld : s.Holds file.label)
    (hfree : ∀ i f, s.files i = some f → f.label ≠ file.label) :
    Sound { s with files := Function.update s.files id (some file) } := by
  refine ⟨h.users, fun i j f g hf hg hlabel => ?_, h.folders, fun i f hf => ?_, fun i f hf => ?_,
    h.ranked⟩
  · rcases update_some hf with ⟨rfl, heq⟩ | ⟨hne, hf⟩
    · rcases update_some hg with ⟨rfl, -⟩ | ⟨-, hg⟩
      · rfl
      · cases heq
        exact (hfree j g hg hlabel.symm).elim
    · rcases update_some hg with ⟨-, heq⟩ | ⟨-, hg⟩
      · cases heq
        exact (hfree i f hf hlabel).elim
      · exact h.files i j f g hf hg hlabel
  · rcases update_some hf with ⟨-, heq⟩ | ⟨-, hf⟩
    · cases heq
      exact ⟨hheld.owner, hheld.place⟩
    · exact ⟨(h.filesHeld i f hf).owner, (h.filesHeld i f hf).place⟩
  · exact ⟨(h.foldersHeld i f hf).owner, (h.foldersHeld i f hf).place⟩

omit [DecidableEq U] in
theorem Sound.removeFile (h : Sound s) (id : I) :
    Sound { s with files := Function.update s.files id none } := by
  have hold : ∀ {i f}, Function.update s.files id none i = some f → s.files i = some f := by
    intro i f hf
    rcases update_some hf with ⟨-, heq⟩ | ⟨-, hf⟩
    · cases heq
    · exact hf
  refine ⟨h.users, fun i j f g hf hg => h.files i j f g (hold hf) (hold hg), h.folders,
    fun i f hf => ?_, fun i f hf => ?_, h.ranked⟩
  · exact ⟨(h.filesHeld i f (hold hf)).owner, (h.filesHeld i f (hold hf)).place⟩
  · exact ⟨(h.foldersHeld i f hf).owner, (h.foldersHeld i f hf).place⟩

omit [DecidableEq U] in
/-- The new folder gets a rank above the one it is in. Nothing is in it yet. -/
theorem Sound.addFolder (h : Sound s) {id : I} {label : Label I U N} (hnew : s.folders id = none)
    (hheld : s.Holds label)
    (hfree : ∀ i f, s.folders i = some f → f.live = true → f.label ≠ label) :
    Sound { s with folders := Function.update s.folders id (some { label, live := true }) } := by
  have hstay : ∀ p, s.folders p ≠ none →
      Function.update s.folders id (some { label, live := true }) p ≠ none :=
    fun p hp => update_ne_none (fun _ => Option.some_ne_none _) hp
  refine ⟨h.users, h.files, fun i j f g hf hg hflive hglive hlabel => ?_, fun i f hf => ?_,
    fun i f hf => ?_, ?_⟩
  · rcases update_some hf with ⟨rfl, heq⟩ | ⟨hne, hf⟩
    · rcases update_some hg with ⟨rfl, -⟩ | ⟨-, hg⟩
      · rfl
      · cases heq
        exact (hfree j g hg hglive hlabel.symm).elim
    · rcases update_some hg with ⟨-, heq⟩ | ⟨-, hg⟩
      · cases heq
        exact (hfree i f hf hflive hlabel).elim
      · exact h.folders i j f g hf hg hflive hglive hlabel
  · exact (h.filesHeld i f hf).mono (fun _ hu => hu) hstay
  · rcases update_some hf with ⟨-, heq⟩ | ⟨-, hf⟩
    · cases heq
      exact hheld.mono (fun _ hu => hu) hstay
    · exact (h.foldersHeld i f hf).mono (fun _ hu => hu) hstay
  · obtain ⟨rank, hrank⟩ := h.ranked
    refine ⟨Function.update rank id ((label.place.map rank).getD 0 + 1), fun i f p hf hp => ?_⟩
    rcases update_some hf with ⟨rfl, heq⟩ | ⟨hne, hf⟩
    · cases heq
      have hne : p ≠ i := fun heq => hheld.place p hp (heq ▸ hnew)
      rw [Function.update_self, Function.update_of_ne hne, hp]
      exact Nat.lt_succ_self _
    · have hpne : p ≠ id := fun heq => (h.foldersHeld i f hf).place p hp (heq ▸ hnew)
      rw [Function.update_of_ne hne, Function.update_of_ne hpne]
      exact hrank i f p hf hp

omit [DecidableEq U] in
/-- A folder keeps its owner and its place, and the label it gets is free. -/
theorem Sound.updateFolder (h : Sound s) {id : I} {folder folder' : Folder I U N}
    (hfolder : s.folders id = some folder) (howner : folder'.label.owner = folder.label.owner)
    (hplace : folder'.label.place = folder.label.place)
    (hfree : folder'.live = true → ∀ i f, s.folders i = some f → f.live = true → i ≠ id →
      f.label ≠ folder'.label) :
    Sound { s with folders := Function.update s.folders id (some folder') } := by
  have hstay : ∀ p, s.folders p ≠ none → Function.update s.folders id (some folder') p ≠ none :=
    fun p hp => update_ne_none (fun _ => Option.some_ne_none _) hp
  have hold : ∀ {i f}, Function.update s.folders id (some folder') i = some f →
      ∃ f₀, s.folders i = some f₀ ∧ f.label.owner = f₀.label.owner ∧
        f.label.place = f₀.label.place := by
    intro i f hf
    rcases update_some hf with ⟨rfl, heq⟩ | ⟨-, hf⟩
    · cases heq
      exact ⟨folder, hfolder, howner, hplace⟩
    · exact ⟨f, hf, rfl, rfl⟩
  refine ⟨h.users, h.files, fun i j f g hf hg hflive hglive hlabel => ?_, fun i f hf => ?_,
    fun i f hf => ?_, ?_⟩
  · rcases update_some hf with ⟨hi, heq⟩ | ⟨hfne, hf'⟩
    · rcases update_some hg with ⟨hj, -⟩ | ⟨hgne, hg'⟩
      · exact hi.trans hj.symm
      · cases heq
        exact (hfree hflive j g hg' hglive hgne hlabel.symm).elim
    · rcases update_some hg with ⟨-, heq⟩ | ⟨-, hg'⟩
      · cases heq
        exact (hfree hglive i f hf' hflive hfne hlabel).elim
      · exact h.folders i j f g hf' hg' hflive hglive hlabel
  · exact (h.filesHeld i f hf).mono (fun _ hu => hu) hstay
  · obtain ⟨f₀, hf₀, howner, hplace⟩ := hold hf
    have hheld : Holds { s with folders := Function.update s.folders id (some folder') }
        f₀.label := (h.foldersHeld i f₀ hf₀).mono (fun _ hu => hu) hstay
    exact ⟨howner ▸ hheld.owner, hplace ▸ hheld.place⟩
  · obtain ⟨rank, hrank⟩ := h.ranked
    refine ⟨rank, fun i f p hf hp => ?_⟩
    obtain ⟨f₀, hf₀, -, hplace⟩ := hold hf
    exact hrank i f₀ p hf₀ (hplace ▸ hp)

theorem Sound.apply (h : Sound s) {change : Change I U N C} (hallowed : s.Allowed change) :
    Sound (s.apply change) := by
  cases change with
  | addUser user name => exact h.addUser hallowed.1 hallowed.2
  | addFile id file => exact h.addFile hallowed.2.1 hallowed.2.2
  | removeFile id => exact h.removeFile id
  | addFolder id label => exact h.addFolder hallowed.1 hallowed.2.1 hallowed.2.2
  | renameFolder id name =>
      obtain ⟨folder, hfolder, -, hfree⟩ := hallowed
      show Sound { s with folders := Function.update s.folders id ((s.folders id).map _) }
      rw [hfolder]
      exact h.updateFolder hfolder rfl rfl fun _ => hfree
  | removeFolder id =>
      obtain ⟨folder, hfolder, -⟩ := hallowed
      show Sound { s with folders := Function.update s.folders id ((s.folders id).map _) }
      rw [hfolder]
      refine h.updateFolder hfolder rfl rfl fun hlive => ?_
      cases hlive

/-! ## Any number of changes -/

theorem Changes.sound {changes : List (Change I U N C)} (hrun : Changes s changes s')
    (h : Sound s) : Sound s' := by
  apply hrun.invariant fun _ s => Sound s
  · exact h
  · intro _ s₁ s₂ change hsound hallowed hstep
    cases hstep
    exact hsound.apply hallowed

/-- A file stays what it is until it is removed. -/
theorem Changes.file {changes : List (Change I U N C)} (hrun : Changes s changes s') {id : I}
    {file : File I U N C} (h : s.files id = some file) (hnot : Change.removeFile id ∉ changes) :
    s'.files id = some file := by
  have hinv : Change.removeFile id ∉ changes → s'.files id = some file := by
    apply hrun.invariant fun changes s => Change.removeFile id ∉ changes → s.files id = some file
    · exact fun _ => h
    · intro changes s₁ s₂ change ih hallowed hstep hnot
      cases hstep
      have hbefore := ih fun hmem => hnot (List.mem_append_left _ hmem)
      cases change with
      | addFile id' file' =>
          have hne : id ≠ id' := by
            rintro rfl
            rw [hallowed.1] at hbefore
            cases hbefore
          show Function.update s₁.files id' _ id = _
          rw [Function.update_of_ne hne, hbefore]
      | removeFile id' =>
          have hne : id ≠ id' := by
            rintro rfl
            exact hnot (List.mem_append_right _ (List.mem_singleton_self _))
          show Function.update s₁.files id' _ id = _
          rw [Function.update_of_ne hne, hbefore]
      | _ => exact hbefore
  exact hinv hnot

/-- A folder stays where it is, and does not come back. -/
theorem Changes.folder {changes : List (Change I U N C)} (hrun : Changes s changes s') {id : I}
    {folder : Folder I U N} (h : s.folders id = some folder) :
    ∃ folder', s'.folders id = some folder' ∧ folder'.label.owner = folder.label.owner ∧
      folder'.label.place = folder.label.place ∧ (folder'.live = true → folder.live = true) := by
  apply hrun.invariant fun _ s => ∃ folder', s.folders id = some folder' ∧
    folder'.label.owner = folder.label.owner ∧ folder'.label.place = folder.label.place ∧
      (folder'.live = true → folder.live = true)
  · exact ⟨folder, h, rfl, rfl, fun hlive => hlive⟩
  · rintro _ s₁ s₂ change ⟨f, hf, howner, hplace, hlive⟩ hallowed hstep
    cases hstep
    cases change with
    | addFolder id' label =>
        have hne : id ≠ id' := by
          rintro rfl
          rw [hallowed.1] at hf
          cases hf
        refine ⟨f, ?_, howner, hplace, hlive⟩
        show Function.update s₁.folders id' _ id = _
        rw [Function.update_of_ne hne, hf]
    | renameFolder id' name =>
        by_cases hid : id = id'
        · subst hid
          refine ⟨{ f with label := { f.label with name } }, ?_, howner, hplace, hlive⟩
          show Function.update s₁.folders id _ id = _
          rw [Function.update_self, hf]
          rfl
        · refine ⟨f, ?_, howner, hplace, hlive⟩
          show Function.update s₁.folders id' _ id = _
          rw [Function.update_of_ne hid, hf]
    | removeFolder id' =>
        by_cases hid : id = id'
        · subst hid
          refine ⟨{ f with live := false }, ?_, howner, hplace, fun h => by cases h⟩
          show Function.update s₁.folders id _ id = _
          rw [Function.update_self, hf]
          rfl
        · refine ⟨f, ?_, howner, hplace, hlive⟩
          show Function.update s₁.folders id' _ id = _
          rw [Function.update_of_ne hid, hf]
    | _ => exact ⟨f, hf, howner, hplace, hlive⟩

end Space

end Lib.Namespace
