import Mathlib.Data.List.Basic

/-!
# Read committed

A table holds versions of rows, each with the transaction that wrote it. A
statement sees what is committed when it begins and what its own transaction
has written.

A unique index has an entry for a version whatever becomes of it, until its
transaction is aborted. An insertion that finds the entry of a version it does
not see has to wait: it is for the other transaction to say whether the row is
there.
-/

namespace Lib.ReadCommitted

inductive Status where
  | active
  | committed
  | aborted
deriving DecidableEq

/-- A row and its writer; a row without one has been there before. -/
structure Version (T R : Type) where
  writer : Option T
  row : R

abbrev Table (T R : Type) := List (Version T R)

variable {T R : Type}

def Version.status (status : T → Status) (v : Version T R) : Status :=
  match v.writer with
  | none => .committed
  | some t => status t

/-- The table before any transaction. -/
def Table.ofRows (rows : List R) : Table T R := rows.map fun r => ⟨none, r⟩

section Reads

variable [DecidableEq T] (status : T → Status) (me : T)

def Version.seen (v : Version T R) : Bool :=
  v.writer = some me || v.status status = .committed

def Version.indexed (v : Version T R) : Bool := v.status status ≠ .aborted

/-- What a statement of `me` sees of the table. -/
def Table.visible (t : Table T R) : List R := (t.filter (Version.seen status me)).map Version.row

def Table.committed (t : Table T R) : List R :=
  (t.filter fun v => v.status status = .committed).map Version.row

/-- What the unique indexes have entries for. -/
def Table.indexed (t : Table T R) : List R := (t.filter (Version.indexed status)).map Version.row

/-- The rows a transaction has written. -/
def Table.writtenBy (t : Table T R) : List R :=
  (t.filter fun v => v.writer = some me).map Version.row

inductive Entry where
  | free
  | taken
  | inFlight
deriving DecidableEq

/-- What an insertion of `me` finds in the index under the key of the rows with `p`. -/
def Table.probe (t : Table T R) (p : R → Bool) : Entry :=
  if (t.visible status me).any p then .taken
  else if (t.indexed status).any p then .inFlight
  else .free

end Reads

variable {status status' : T → Status} {me : T} {t : Table T R} {p : R → Bool}

section Reads

variable [DecidableEq T]

@[simp] theorem Table.visible_append (v : Version T R) :
    Table.visible status me (t ++ [v]) =
      t.visible status me ++ if v.seen status me then [v.row] else [] := by
  rw [Table.visible, Table.visible, List.filter_append, List.map_append]
  by_cases h : v.seen status me <;> simp [h]

@[simp] theorem Table.writtenBy_append (v : Version T R) :
    Table.writtenBy me (t ++ [v]) =
      t.writtenBy me ++ if v.writer = some me then [v.row] else [] := by
  rw [Table.writtenBy, Table.writtenBy, List.filter_append, List.map_append]
  by_cases h : v.writer = some me <;> simp [h]

theorem Table.mem_visible {r : R} :
    r ∈ t.visible status me ↔ ∃ v ∈ t, v.seen status me ∧ v.row = r := by
  simp only [Table.visible, List.mem_map, List.mem_filter, and_assoc]

end Reads

theorem Table.mem_committed {r : R} :
    r ∈ t.committed status ↔ ∃ v ∈ t, v.status status = .committed ∧ v.row = r := by
  simp only [Table.committed, List.mem_map, List.mem_filter, and_assoc, decide_eq_true_eq]

theorem Table.mem_indexed {r : R} :
    r ∈ t.indexed status ↔ ∃ v ∈ t, v.status status ≠ .aborted ∧ v.row = r := by
  simp only [Table.indexed, Version.indexed, List.mem_map, List.mem_filter, and_assoc,
    decide_eq_true_eq]

/-! ## Statuses change -/

/-- What is committed stays so, and what is aborted too. -/
structure Later (status status' : T → Status) : Prop where
  committed : ∀ t, status t = .committed → status' t = .committed
  aborted : ∀ t, status t = .aborted → status' t = .aborted

theorem Later.version_committed (h : Later status status') {v : Version T R}
    (hv : v.status status = .committed) : v.status status' = .committed := by
  unfold Version.status at *
  split
  · rfl
  · rename_i t ht
    rw [ht] at hv
    exact h.committed t hv

theorem Later.version_aborted (h : Later status status') {v : Version T R}
    (hv : v.status status = .aborted) : v.status status' = .aborted := by
  unfold Version.status at *
  split
  · rename_i hnone
    rw [hnone] at hv
    cases hv
  · rename_i t ht
    rw [ht] at hv
    exact h.aborted t hv

section Reads

variable [DecidableEq T]

theorem Later.seen (h : Later status status') {v : Version T R} (hv : v.seen status me) :
    v.seen status' me := by
  simp only [Version.seen, Bool.or_eq_true, decide_eq_true_eq] at hv ⊢
  exact hv.imp_right h.version_committed

theorem Later.visible (h : Later status status') {r : R} (hr : r ∈ t.visible status me) :
    r ∈ t.visible status' me := by
  obtain ⟨v, hv, hseen, hrow⟩ := Table.mem_visible.mp hr
  exact Table.mem_visible.mpr ⟨v, hv, h.seen hseen, hrow⟩

end Reads

/-- No index gets an entry by that. -/
theorem Later.indexed_sublist (h : Later status status') :
    (t.indexed status').Sublist (t.indexed status) := by
  refine List.Sublist.map _ (List.monotone_filter_right t fun v hv => ?_)
  simp only [Version.indexed, decide_eq_true_eq] at hv ⊢
  exact fun habort => hv (h.version_aborted habort)

/-! ## Unique -/

/-- The unique index has one entry at most for the rows with `p`. -/
def Table.AtMostOne (status : T → Status) (p : R → Bool) (t : Table T R) : Prop :=
  ((t.indexed status).filter p).length ≤ 1

theorem Table.AtMostOne.later (h : t.AtMostOne status p) (hlater : Later status status') :
    t.AtMostOne status' p :=
  Nat.le_trans (hlater.indexed_sublist.filter p).length_le h

/-- What is committed is in the index. -/
theorem Table.committed_sublist : (t.committed status).Sublist (t.indexed status) := by
  refine List.Sublist.map _ (List.monotone_filter_right t fun v hv => ?_)
  simp only [Version.indexed, decide_eq_true_eq] at hv ⊢
  rw [hv]
  exact nofun

/-- A committed row is then the only one. -/
theorem Table.AtMostOne.committed_length (h : t.AtMostOne status p) {r : R}
    (hr : r ∈ t.committed status) (hp : p r) : ((t.committed status).filter p).length = 1 := by
  have hle := Nat.le_trans (Table.committed_sublist.filter p).length_le h
  have hpos := List.length_pos_of_mem (List.mem_filter.mpr ⟨hr, hp⟩)
  omega

theorem Table.AtMostOne.eq (h : t.AtMostOne status p) {r r' : R} (hr : r ∈ t.indexed status)
    (hp : p r) (hr' : r' ∈ t.indexed status) (hp' : p r') : r = r' := by
  have hmem := List.mem_filter.mpr ⟨hr, hp⟩
  have hmem' := List.mem_filter.mpr ⟨hr', hp'⟩
  unfold Table.AtMostOne at h
  generalize (t.indexed status).filter p = rows at *
  match rows, h with
  | [], _ => cases hmem
  | [a], _ => rw [List.mem_singleton.mp hmem, List.mem_singleton.mp hmem']

/-! ## What an insertion finds -/

section Insertion

variable [DecidableEq T]

theorem Table.probe_taken (h : t.probe status me p = .taken) : ∃ r ∈ t.visible status me, p r := by
  unfold Table.probe at h
  split at h
  · exact List.any_eq_true.mp ‹_›
  · split at h <;> cases h

theorem Table.probe_free (h : t.probe status me p = .free) : (t.indexed status).filter p = [] := by
  unfold Table.probe at h
  split at h
  · cases h
  · split at h
    · cases h
    · rename_i hnone
      rw [List.filter_eq_nil_iff]
      intro r hr hp
      exact hnone (List.any_eq_true.mpr ⟨r, hr, hp⟩)

/-- Whoever waits does so for a transaction that is not over. -/
theorem Table.probe_inFlight (h : t.probe status me p = .inFlight) :
    ∃ v ∈ t, ∃ other, v.writer = some other ∧ other ≠ me ∧ status other = .active ∧ p v.row := by
  unfold Table.probe at h
  split at h
  · cases h
  rename_i hunseen
  split at h
  swap
  · cases h
  obtain ⟨r, hr, hp⟩ := List.any_eq_true.mp ‹_›
  obtain ⟨v, hv, hlive, rfl⟩ := Table.mem_indexed.mp hr
  have hseen : ¬ v.seen status me := fun hseen =>
    hunseen (List.any_eq_true.mpr ⟨v.row, Table.mem_visible.mpr ⟨v, hv, hseen, rfl⟩, hp⟩)
  simp only [Version.seen, Bool.or_eq_true, decide_eq_true_eq, not_or] at hseen
  obtain ⟨hmine, hpending⟩ := hseen
  cases hwriter : v.writer with
  | none => exact absurd (by rw [Version.status, hwriter]) hpending
  | some other =>
      rw [Version.status, hwriter] at hlive hpending
      refine ⟨v, hv, other, hwriter, fun heq => hmine (heq ▸ hwriter), ?_, hp⟩
      cases hother : status other with
      | active => rfl
      | committed => exact absurd hother hpending
      | aborted => exact absurd hother hlive

/-- An insertion for which the index is free. -/
theorem Table.AtMostOne.insert (v : Version T R) (h : t.AtMostOne status p)
    (hfree : p v.row → t.probe status me p = .free) : Table.AtMostOne status p (t ++ [v]) := by
  have happend : Table.indexed status (t ++ [v]) =
      t.indexed status ++ Table.indexed status [v] := by
    rw [Table.indexed, List.filter_append, List.map_append]
    rfl
  unfold Table.AtMostOne
  rw [happend, List.filter_append, List.length_append]
  have hone : (Table.indexed status [v]).length ≤ 1 := by
    rw [Table.indexed, List.length_map]
    exact List.length_filter_le _ _
  by_cases hp : p v.row
  · rw [Table.probe_free (hfree hp)]
    exact Nat.le_trans (Nat.le_of_eq (Nat.zero_add _))
      (Nat.le_trans (List.length_filter_le _ _) hone)
  · have hnone : (Table.indexed status [v]).filter p = [] := by
      rw [List.filter_eq_nil_iff]
      intro r hr
      obtain ⟨v', hv', -, rfl⟩ := Table.mem_indexed.mp hr
      rwa [List.mem_singleton.mp hv']
    rw [hnone]
    exact h

end Insertion

end Lib.ReadCommitted
