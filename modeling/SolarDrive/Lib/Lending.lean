import Mathlib.Algebra.BigOperators.Group.Finset.Basic
import Mathlib.Algebra.Order.BigOperators.Group.Finset
import Mathlib.Algebra.Order.Group.Multiset
import Mathlib.Data.Fintype.Basic
import Mathlib.Tactic.Abel
import SolarDrive.Lib.Machine

/-!
# Lending through a monitor

A pool of resources behind a lock and one condition variable. A borrower takes
the lock, sleeps while nothing is idle, and leaves with a resource; whoever
returns one puts it back under the lock and then, without it, wakes one sleeper.
The steps of the threads interleave, and a sleeper may wake by itself.
-/

namespace Lib.Lending

open Machine

/-- Where a thread is. -/
inductive Place (R : Type) where
  | outside
  /-- In `acquire`, about to take the lock, for the first time or after a wakeup. -/
  | acquiring
  /-- With the lock, at the test of the predicate. -/
  | testing
  | asleep
  | holding (r : R)
  /-- In `release`, about to take the lock. -/
  | releasing (r : R)
  /-- With the lock, about to put the resource back. -/
  | returning (r : R)
  /-- About to notify. -/
  | notifying
deriving DecidableEq

structure Monitor (T R : Type) where
  idle : List R
  lock : Option T := none
  place : T → Place R := fun _ => .outside

inductive Event (T : Type) where
  | acquire (t : T)
  | lock (t : T)
  | take (t : T)
  | sleep (t : T)
  /-- A wakeup that nobody sent. -/
  | stir (t : T)
  | release (t : T)
  | put (t : T)
  /-- `notify_one`, and whom it wakes. -/
  | notify (t : T) (woken : Option T)

/-- The events that work off what the threads have begun. -/
def Event.isWork {T : Type} : Event T → Bool
  | .acquire _ => false
  | .stir _ => false
  | _ => true

def Place.isAsleep {R : Type} : Place R → Bool
  | .asleep => true
  | _ => false

/-- The resource a thread has. -/
def Place.held {R : Type} : Place R → Multiset R
  | .holding r => {r}
  | .releasing r => {r}
  | .returning r => {r}
  | _ => 0

/-- The thread will test the predicate, or wake somebody who does. -/
def Place.alert {R : Type} : Place R → Nat
  | .acquiring => 1
  | .testing => 1
  | .notifying => 1
  | _ => 0

def Place.ownsLock {R : Type} : Place R → Bool
  | .testing => true
  | .returning _ => true
  | _ => false

/-- How many steps are left to a thread at most, when each notification pays for
the two steps back of the thread it wakes. -/
def Place.rank {R : Type} : Place R → Nat
  | .outside => 0
  | .acquiring => 8
  | .testing => 7
  | .asleep => 6
  | .holding _ => 6
  | .releasing _ => 5
  | .returning _ => 4
  | .notifying => 3

namespace Monitor

variable {T R : Type} [DecidableEq T]

def move (m : Monitor T R) (t : T) (p : Place R) : Monitor T R :=
  { m with place := Function.update m.place t p }

@[simp]
theorem move_place_self (m : Monitor T R) (t : T) (p : Place R) : (m.move t p).place t = p := by
  show Function.update m.place t p t = p
  rw [Function.update_self]

@[simp]
theorem move_place_of_ne (m : Monitor T R) {t u : T} (h : u ≠ t) (p : Place R) :
    (m.move t p).place u = m.place u := by
  show Function.update m.place t p u = m.place u
  rw [Function.update_of_ne h]

@[simp] theorem move_idle (m : Monitor T R) (t : T) (p : Place R) : (m.move t p).idle = m.idle := rfl

@[simp] theorem move_lock (m : Monitor T R) (t : T) (p : Place R) : (m.move t p).lock = m.lock := rfl

def step [Fintype T] (m : Monitor T R) : Event T → Option (Monitor T R)
  | .acquire t =>
      match m.place t with
      | .outside => some (m.move t .acquiring)
      | _ => none
  | .lock t =>
      match m.lock, m.place t with
      | none, .acquiring => some { m.move t .testing with lock := some t }
      | none, .releasing r => some { m.move t (.returning r) with lock := some t }
      | _, _ => none
  | .take t =>
      match m.place t, m.idle with
      | .testing, r :: rest => some { m.move t (.holding r) with idle := rest, lock := none }
      | _, _ => none
  | .sleep t =>
      match m.place t, m.idle with
      | .testing, [] => some { m.move t .asleep with lock := none }
      | _, _ => none
  | .stir t =>
      match m.place t with
      | .asleep => some (m.move t .acquiring)
      | _ => none
  | .release t =>
      match m.place t with
      | .holding r => some (m.move t (.releasing r))
      | _ => none
  | .put t =>
      match m.place t with
      | .returning r => some { m.move t .notifying with idle := m.idle ++ [r], lock := none }
      | _ => none
  | .notify t none =>
      match m.place t with
      | .notifying =>
          if ∀ u, (m.place u).isAsleep = false then some (m.move t .outside) else none
      | _ => none
  | .notify t (some u) =>
      match m.place t, m.place u with
      | .notifying, .asleep => some ((m.move t .outside).move u .acquiring)
      | _, _ => none

/-- What a step does, with the guard it passes. -/
inductive Effect (m : Monitor T R) : Event T → Monitor T R → Prop
  | acquire {t : T} (ht : m.place t = .outside) :
      Effect m (.acquire t) (m.move t .acquiring)
  | lockToTest {t : T} (hlock : m.lock = none) (ht : m.place t = .acquiring) :
      Effect m (.lock t) { m.move t .testing with lock := some t }
  | lockToReturn {t : T} {r : R} (hlock : m.lock = none) (ht : m.place t = .releasing r) :
      Effect m (.lock t) { m.move t (.returning r) with lock := some t }
  | take {t : T} {r : R} {rest : List R} (ht : m.place t = .testing) (hidle : m.idle = r :: rest) :
      Effect m (.take t) { m.move t (.holding r) with idle := rest, lock := none }
  | sleep {t : T} (ht : m.place t = .testing) (hidle : m.idle = []) :
      Effect m (.sleep t) { m.move t .asleep with lock := none }
  | stir {t : T} (ht : m.place t = .asleep) : Effect m (.stir t) (m.move t .acquiring)
  | release {t : T} {r : R} (ht : m.place t = .holding r) :
      Effect m (.release t) (m.move t (.releasing r))
  | put {t : T} {r : R} (ht : m.place t = .returning r) :
      Effect m (.put t) { m.move t .notifying with idle := m.idle ++ [r], lock := none }
  | notifyNobody {t : T} (ht : m.place t = .notifying)
      (hnobody : ∀ u, (m.place u).isAsleep = false) :
      Effect m (.notify t none) (m.move t .outside)
  | notify {t u : T} (ht : m.place t = .notifying) (hu : m.place u = .asleep) :
      Effect m (.notify t (some u)) ((m.move t .outside).move u .acquiring)

variable [Fintype T] {m m' : Monitor T R}

theorem effect_of_step {e : Event T} (h : m.step e = some m') : Effect m e m' := by
  cases e with
  | acquire t =>
      simp only [step] at h
      split at h
      · rename_i ht
        cases h
        exact .acquire ht
      · cases h
  | lock t =>
      simp only [step] at h
      split at h
      · rename_i hlock ht
        cases h
        exact .lockToTest hlock ht
      · rename_i hlock ht
        cases h
        exact .lockToReturn hlock ht
      · cases h
  | take t =>
      simp only [step] at h
      split at h
      · rename_i ht hidle
        cases h
        exact .take ht hidle
      · cases h
  | sleep t =>
      simp only [step] at h
      split at h
      · rename_i ht hidle
        cases h
        exact .sleep ht hidle
      · cases h
  | stir t =>
      simp only [step] at h
      split at h
      · rename_i ht
        cases h
        exact .stir ht
      · cases h
  | release t =>
      simp only [step] at h
      split at h
      · rename_i ht
        cases h
        exact .release ht
      · cases h
  | put t =>
      simp only [step] at h
      split at h
      · rename_i ht
        cases h
        exact .put ht
      · cases h
  | notify t woken =>
      cases woken with
      | none =>
          simp only [step] at h
          split at h
          · rename_i ht
            split at h
            · rename_i hnobody
              cases h
              exact .notifyNobody ht hnobody
            · cases h
          · cases h
      | some u =>
          simp only [step] at h
          split at h
          · rename_i ht hu
            cases h
            exact .notify ht hu
          · cases h

theorem step_of_effect {e : Event T} (h : Effect m e m') : m.step e = some m' := by
  cases h with
  | acquire ht => simp only [step, ht]
  | lockToTest hlock ht => simp only [step, hlock, ht]
  | lockToReturn hlock ht => simp only [step, hlock, ht]
  | take ht hidle => simp only [step, ht, hidle]
  | sleep ht hidle => simp only [step, ht, hidle]
  | stir ht => simp only [step, ht]
  | release ht => simp only [step, ht]
  | put ht => simp only [step, ht]
  | notifyNobody ht hnobody => simp only [step, ht, if_pos hnobody]
  | notify ht hu => simp only [step, ht, hu]

omit [DecidableEq T] [Fintype T] in
theorem isAsleep_iff {t : T} : (m.place t).isAsleep = true ↔ m.place t = .asleep := by
  constructor
  · intro h
    cases ht : m.place t with
    | asleep => rfl
    | _ =>
        rw [ht] at h
        cases h
  · intro h
    rw [h]
    rfl

/-! ## Sums over the threads -/

/-- A quantity of the places, over all threads. -/
def total {M : Type} [AddCommMonoid M] (f : Place R → M) (m : Monitor T R) : M :=
  ∑ t, f (m.place t)

/-- When one thread moves, its share is exchanged. -/
theorem total_move {M : Type} [AddCommMonoid M] (f : Place R → M) (m : Monitor T R) (t : T)
    (p : Place R) : total f (m.move t p) + f (m.place t) = total f m + f p := by
  have hrest : ∑ u ∈ Finset.univ.erase t, f ((m.move t p).place u) =
      ∑ u ∈ Finset.univ.erase t, f (m.place u) := by
    refine Finset.sum_congr rfl fun u hu => ?_
    rw [move_place_of_ne m (Finset.ne_of_mem_erase hu)]
  unfold total
  rw [← Finset.add_sum_erase _ _ (Finset.mem_univ t), hrest, move_place_self,
    ← Finset.add_sum_erase Finset.univ (fun u => f (m.place u)) (Finset.mem_univ t)]
  abel

/-! ## The invariant -/

/-- The lock is with the thread that is at it; each of the resources `rs` is idle
or with one thread; and while somebody sleeps, as many threads are on their way to
the idle resources as there are such resources. -/
structure Sound (rs : Multiset R) (m : Monitor T R) : Prop where
  locked : ∀ t, (m.place t).ownsLock = true ↔ m.lock = some t
  conserved : (m.idle : Multiset R) + total Place.held m = rs
  awake : (∃ t, (m.place t).isAsleep = true) → m.idle.length ≤ total Place.alert m

omit [DecidableEq T] in
theorem sound_new (rs : List R) : Sound (T := T) rs { idle := rs } := by
  refine ⟨fun t => ?_, ?_, ?_⟩
  · exact iff_of_false Bool.false_ne_true (Option.some_ne_none t).symm
  · have hnone : total Place.held ({ idle := rs } : Monitor T R) = 0 :=
      Finset.sum_eq_zero fun _ _ => rfl
    rw [hnone, add_zero]
  · rintro ⟨t, ht⟩
    cases ht

section Locks

omit [Fintype T]

variable (h : ∀ t, (m.place t).ownsLock = true ↔ m.lock = some t) {t : T} {p : Place R}

include h

/-- The lock, when a thread moves and takes, keeps or leaves it. -/
theorem locked_move {lock : Option T} (hself : p.ownsLock = true ↔ lock = some t)
    (hothers : ∀ u, u ≠ t → (lock = some u ↔ m.lock = some u)) :
    ∀ u, ((m.move t p).place u).ownsLock = true ↔ lock = some u := by
  intro u
  by_cases hu : u = t
  · rw [hu, move_place_self]
    exact hself
  · rw [move_place_of_ne m hu, h u, hothers u hu]

theorem locked_without (ht : (m.place t).ownsLock = false) (hp : p.ownsLock = false) :
    ∀ u, ((m.move t p).place u).ownsLock = true ↔ m.lock = some u := by
  refine locked_move h (iff_of_false ?_ fun hlock => ?_) fun _ _ => Iff.rfl
  · rw [hp]
    exact Bool.false_ne_true
  · have hown := (h t).mpr hlock
    rw [ht] at hown
    cases hown

theorem locked_taken (hlock : m.lock = none) (hp : p.ownsLock = true) :
    ∀ u, ((m.move t p).place u).ownsLock = true ↔ some t = some u := by
  refine locked_move h (iff_of_true hp rfl) fun u hu => ?_
  rw [hlock]
  exact iff_of_false (fun heq => hu (Option.some.inj heq).symm) (Option.some_ne_none u).symm

theorem locked_left (ht : (m.place t).ownsLock = true) (hp : p.ownsLock = false) :
    ∀ u, ((m.move t p).place u).ownsLock = true ↔ (none : Option T) = some u := by
  refine locked_move h (iff_of_false ?_ (Option.some_ne_none t).symm) fun u hu => ?_
  · rw [hp]
    exact Bool.false_ne_true
  · rw [(h t).mp ht]
    exact iff_of_false (Option.some_ne_none u).symm fun heq => hu (Option.some.inj heq).symm

end Locks

/-- What a thread puts down is idle, and the other way round. -/
theorem conserved_move {rs : Multiset R} (h : (m.idle : Multiset R) + total Place.held m = rs)
    {t : T} {p : Place R} {idle : List R}
    (hheld : (idle : Multiset R) + p.held = m.idle + (m.place t).held) :
    (idle : Multiset R) + total Place.held (m.move t p) = rs := by
  have hmove := total_move Place.held m t p
  refine add_right_cancel (b := (m.place t).held) ?_
  rw [add_assoc, hmove, ← h]
  calc (idle : Multiset R) + (total Place.held m + p.held)
      = (idle + p.held) + total Place.held m := by abel
    _ = (m.idle + (m.place t).held) + total Place.held m := by rw [hheld]
    _ = m.idle + total Place.held m + (m.place t).held := by abel

/-- A thread moves without falling asleep, and without leaving those on the way
unless it takes a resource. -/
theorem awake_move {rs : Multiset R} (h : Sound rs m) {t : T} {p : Place R} {idle : List R}
    (hp : p.isAsleep = false) (halert : idle.length + (m.place t).alert ≤ m.idle.length + p.alert) :
    (∃ u, ((m.move t p).place u).isAsleep = true) →
      idle.length ≤ total Place.alert (m.move t p) := by
  rintro ⟨u, hu⟩
  have hsleeper : ∃ u, (m.place u).isAsleep = true := by
    by_cases hut : u = t
    · rw [hut, move_place_self, hp] at hu
      cases hu
    · exact ⟨u, by rwa [move_place_of_ne m hut] at hu⟩
  have hbefore := h.awake hsleeper
  have hmove := total_move Place.alert m t p
  omega

theorem Sound.step {rs : Multiset R} (h : Sound rs m) {e : Event T} (hstep : m.step e = some m') :
    Sound rs m' := by
  cases effect_of_step hstep with
  | acquire ht =>
      refine ⟨?_, ?_, ?_⟩
      · exact locked_without h.locked (by rw [ht]; rfl) rfl
      · exact conserved_move h.conserved (by rw [ht]; rfl)
      · exact awake_move h rfl (by rw [ht]; exact Nat.le_succ _)
  | lockToTest hlock ht =>
      refine ⟨?_, ?_, ?_⟩
      · exact locked_taken h.locked hlock rfl
      · exact conserved_move h.conserved (by rw [ht]; rfl)
      · exact awake_move h rfl (by rw [ht]; exact Nat.le_refl _)
  | lockToReturn hlock ht =>
      refine ⟨?_, ?_, ?_⟩
      · exact locked_taken h.locked hlock rfl
      · exact conserved_move h.conserved (by rw [ht]; rfl)
      · exact awake_move h rfl (by rw [ht]; exact Nat.le_refl _)
  | @take t r rest ht hidle =>
      refine ⟨?_, ?_, ?_⟩
      · exact locked_left h.locked (by rw [ht]; rfl) rfl
      · refine conserved_move h.conserved ?_
        rw [ht, hidle, ← Multiset.cons_coe, ← Multiset.singleton_add]
        show (rest : Multiset R) + {r} = {r} + rest + 0
        rw [add_zero, add_comm]
      · refine awake_move h rfl ?_
        rw [ht, hidle]
        exact Nat.le_refl _
  | sleep ht hidle =>
      refine ⟨?_, ?_, ?_⟩
      · exact locked_left h.locked (by rw [ht]; rfl) rfl
      · exact conserved_move h.conserved (by rw [ht]; rfl)
      · intro _
        show m.idle.length ≤ _
        rw [hidle]
        exact Nat.zero_le _
  | stir ht =>
      refine ⟨?_, ?_, ?_⟩
      · exact locked_without h.locked (by rw [ht]; rfl) rfl
      · exact conserved_move h.conserved (by rw [ht]; rfl)
      · exact awake_move h rfl (by rw [ht]; exact Nat.le_succ _)
  | release ht =>
      refine ⟨?_, ?_, ?_⟩
      · exact locked_without h.locked (by rw [ht]; rfl) rfl
      · exact conserved_move h.conserved (by rw [ht]; rfl)
      · exact awake_move h rfl (by rw [ht]; exact Nat.le_refl _)
  | @put t r ht =>
      refine ⟨?_, ?_, ?_⟩
      · exact locked_left h.locked (by rw [ht]; rfl) rfl
      · refine conserved_move h.conserved ?_
        rw [ht, ← Multiset.coe_add]
        exact add_zero _
      · refine awake_move h rfl ?_
        rw [ht, List.length_append]
        exact Nat.le_refl _
  | @notifyNobody t ht hnobody =>
      refine ⟨?_, ?_, ?_⟩
      · exact locked_without h.locked (by rw [ht]; rfl) rfl
      · exact conserved_move h.conserved (by rw [ht]; rfl)
      · rintro ⟨u, hu⟩
        by_cases hut : u = t
        · rw [hut, move_place_self] at hu
          cases hu
        · rw [move_place_of_ne m hut, hnobody u] at hu
          cases hu
  | @notify t u ht hu =>
      have hne : u ≠ t := by
        rintro rfl
        rw [ht] at hu
        cases hu
      have hu' : (m.move t .outside).place u = .asleep := by rw [move_place_of_ne m hne, hu]
      refine ⟨?_, ?_, ?_⟩
      · refine locked_without (m := m.move t .outside) ?_ (by rw [hu']; rfl) rfl
        exact locked_without h.locked (by rw [ht]; rfl) rfl
      · refine conserved_move (m := m.move t .outside) ?_ (by rw [hu']; rfl)
        exact conserved_move h.conserved (by rw [ht]; rfl)
      · -- the thread on its way leaves, and the sleeper it wakes is on its way
        intro _
        have hbefore := h.awake ⟨u, by rw [hu]; rfl⟩
        have hleft := total_move Place.alert m t .outside
        have hwoken := total_move Place.alert (m.move t .outside) u .acquiring
        rw [ht] at hleft
        rw [hu'] at hwoken
        simp only [Place.alert] at hleft hwoken
        show m.idle.length ≤ _
        omega

variable {es : List (Event T)}

/-- Whatever the threads do. -/
theorem sound_run {rs : List R} (hrun : Run step (fun _ _ => True) { idle := rs } es m) :
    Sound (rs : Multiset R) m := by
  apply hrun.invariant fun _ m => Sound (rs : Multiset R) m
  · exact sound_new rs
  · exact fun h _ hstep => h.step hstep

/-! ## What follows for the resources -/

section Resources

variable {rs : Multiset R} (h : Sound rs m)

omit [DecidableEq T] in
include h in
theorem Sound.idle_le : (m.idle : Multiset R) ≤ rs := by
  rw [← h.conserved]
  exact Multiset.le_add_right _ _

omit [DecidableEq T] in
theorem held_le_total (t : T) : (m.place t).held ≤ total Place.held m :=
  Finset.single_le_sum (f := fun t => (m.place t).held) (fun _ _ => Multiset.zero_le _)
    (Finset.mem_univ t)

omit [DecidableEq T] in
include h in
/-- Each resource is in one place. -/
theorem Sound.mem_iff (r : R) : r ∈ rs ↔ r ∈ m.idle ∨ ∃ t, r ∈ (m.place t).held := by
  rw [← h.conserved, Multiset.mem_add, Multiset.mem_coe]
  refine or_congr Iff.rfl ⟨fun hr => ?_, ?_⟩
  · obtain ⟨t, -, ht⟩ := Multiset.mem_sum.mp hr
    exact ⟨t, ht⟩
  · rintro ⟨t, ht⟩
    exact Multiset.mem_of_le (held_le_total t) ht

include h in
/-- Among different resources no two threads have the same one, and none that a
thread has is idle. -/
theorem Sound.exclusive (hrs : rs.Nodup) {t : T} {r : R} (ht : r ∈ (m.place t).held) :
    r ∉ m.idle ∧ ∀ u, r ∈ (m.place u).held → u = t := by
  rw [← h.conserved, Multiset.nodup_add] at hrs
  obtain ⟨-, htotal, hapart⟩ := hrs
  refine ⟨fun hidle => ?_, fun u hu => ?_⟩
  · exact Multiset.disjoint_left.mp hapart (Multiset.mem_coe.mpr hidle)
      (Multiset.mem_of_le (held_le_total t) ht)
  · by_contra hne
    have hsplit := Finset.add_sum_erase Finset.univ (fun u => (m.place u).held) (Finset.mem_univ t)
    rw [total, ← hsplit, Multiset.nodup_add] at htotal
    have hrest : (m.place u).held ≤ ∑ u ∈ Finset.univ.erase t, (m.place u).held :=
      Finset.single_le_sum (f := fun u => (m.place u).held) (fun _ _ => Multiset.zero_le _)
        (Finset.mem_erase.mpr ⟨hne, Finset.mem_univ u⟩)
    exact Multiset.disjoint_left.mp htotal.2.2 ht (Multiset.mem_of_le hrest hu)

end Resources

/-! ## Progress -/

section Progress

variable {rs : Multiset R}

/-- A thread that has begun something and does not sleep goes on when it gets the lock. -/
theorem goes_on_of_place {t : T} (hsound : Sound rs m) (hlock : m.lock = none)
    (hout : m.place t ≠ .outside) (hsleep : (m.place t).isAsleep = false) :
    ∃ e m', e.isWork = true ∧ m.step e = some m' := by
  cases ht : m.place t with
  | outside => exact absurd ht hout
  | acquiring => exact ⟨_, _, rfl, step_of_effect (.lockToTest hlock ht)⟩
  | testing =>
      have hown := (hsound.locked t).mp (by rw [ht]; rfl)
      rw [hlock] at hown
      cases hown
  | asleep =>
      rw [ht] at hsleep
      cases hsleep
  | holding r => exact ⟨_, _, rfl, step_of_effect (.release ht)⟩
  | releasing r => exact ⟨_, _, rfl, step_of_effect (.lockToReturn hlock ht)⟩
  | returning r =>
      have hown := (hsound.locked t).mp (by rw [ht]; rfl)
      rw [hlock] at hown
      cases hown
  | notifying =>
      by_cases hnobody : ∀ u, (m.place u).isAsleep = false
      · exact ⟨_, _, rfl, step_of_effect (.notifyNobody ht hnobody)⟩
      · obtain ⟨u, hu⟩ := not_forall.mp hnobody
        exact ⟨_, _, rfl, step_of_effect (.notify ht (isAsleep_iff.mp (by simpa using hu)))⟩

/-- While there are resources and a thread has begun something, a thread can go on. -/
theorem Sound.goes_on (h : Sound rs m) (hrs : rs ≠ 0) (hbusy : ∃ t, m.place t ≠ .outside) :
    ∃ e m', e.isWork = true ∧ m.step e = some m' := by
  cases hlock : m.lock with
  | some t =>
      -- the owner of the lock goes on
      have hown := (h.locked t).mpr hlock
      cases ht : m.place t with
      | testing =>
          cases hidle : m.idle with
          | nil => exact ⟨_, _, rfl, step_of_effect (.sleep ht hidle)⟩
          | cons r rest => exact ⟨_, _, rfl, step_of_effect (.take ht hidle)⟩
      | returning r => exact ⟨_, _, rfl, step_of_effect (.put ht)⟩
      | _ =>
          rw [ht] at hown
          cases hown
  | none =>
      by_cases hall : ∀ t, m.place t ≠ .outside → (m.place t).isAsleep = true
      · -- everybody sleeps: then nobody is on the way, so nothing is idle, and nobody has anything
        exfalso
        obtain ⟨t, ht⟩ := hbusy
        have hrest : ∀ t, m.place t = .outside ∨ m.place t = .asleep := by
          intro t
          by_cases hout : m.place t = .outside
          · exact Or.inl hout
          · exact Or.inr (isAsleep_iff.mp (hall t hout))
        have halert : total Place.alert m = 0 :=
          Finset.sum_eq_zero fun t _ => by rcases hrest t with ht | ht <;> rw [ht] <;> rfl
        have hheld : total Place.held m = 0 :=
          Finset.sum_eq_zero fun t _ => by rcases hrest t with ht | ht <;> rw [ht] <;> rfl
        have hidle : m.idle = [] := by
          have hle := h.awake ⟨t, hall t ht⟩
          rw [halert] at hle
          exact List.eq_nil_of_length_eq_zero (Nat.le_zero.mp hle)
        apply hrs
        rw [← h.conserved, hheld, hidle]
        rfl
      · obtain ⟨t, ht⟩ := not_forall.mp hall
        obtain ⟨hout, hsleep⟩ := Classical.not_imp.mp ht
        exact goes_on_of_place h hlock hout (by simpa using hsleep)

/-- Each step of work uses up some of the rank. -/
theorem rank_lt {e : Event T} (he : e.isWork = true) (hstep : m.step e = some m') :
    total Place.rank m' < total Place.rank m := by
  have hmove : ∀ {t : T} {p : Place R} {idle : List R} {lock : Option T},
      p.rank < (m.place t).rank →
      total Place.rank { m.move t p with idle := idle, lock := lock } < total Place.rank m := by
    intro t p idle lock hlt
    have hsum := total_move Place.rank m t p
    show total Place.rank (m.move t p) < _
    omega
  cases effect_of_step hstep with
  | acquire ht => cases he
  | stir ht => cases he
  | lockToTest hlock ht => exact hmove (by rw [ht]; exact Nat.lt_succ_self _)
  | lockToReturn hlock ht => exact hmove (by rw [ht]; exact Nat.lt_succ_self _)
  | take ht hidle => exact hmove (by rw [ht]; exact Nat.lt_succ_self _)
  | sleep ht hidle => exact hmove (by rw [ht]; exact Nat.lt_succ_self _)
  | release ht => exact hmove (by rw [ht]; exact Nat.lt_succ_self _)
  | put ht => exact hmove (by rw [ht]; exact Nat.lt_succ_self _)
  | notifyNobody ht hnobody => exact hmove (by rw [ht]; exact Nat.succ_pos _)
  | @notify t u ht hu =>
      have hne : u ≠ t := by
        rintro rfl
        rw [ht] at hu
        cases hu
      have hleft := total_move Place.rank m t .outside
      have hwoken := total_move Place.rank (m.move t .outside) u .acquiring
      rw [ht] at hleft
      rw [move_place_of_ne m hne, hu] at hwoken
      simp only [Place.rank] at hleft hwoken
      omega

/-- Work without new business takes at most eight steps a thread. -/
theorem length_le_rank {es : List (Event T)}
    (hrun : Run step (fun _ e => e.isWork = true) m es m') :
    es.length + total Place.rank m' ≤ total Place.rank m := by
  apply hrun.invariant fun es m' => es.length + total Place.rank m' ≤ total Place.rank m
  · exact Nat.le_of_eq (Nat.zero_add _)
  · intro es s s' e hle he hstep
    have hlt := rank_lt he hstep
    rw [List.length_append, List.length_singleton]
    omega

omit [DecidableEq T] in
theorem total_rank_le (m : Monitor T R) : total Place.rank m ≤ 8 * Fintype.card T := by
  have hplace : ∀ p : Place R, p.rank ≤ 8 := by
    intro p
    cases p <;> simp [Place.rank]
  calc total Place.rank m ≤ ∑ _t : T, 8 := Finset.sum_le_sum fun t _ => hplace (m.place t)
    _ = 8 * Fintype.card T := by
      rw [Finset.sum_const_nat fun _ _ => rfl, Finset.card_univ, Nat.mul_comm]

omit [DecidableEq T] in
/-- A sleeper is not left alone with an idle resource. -/
theorem Sound.someone_on_the_way (h : Sound rs m) (hsleeper : ∃ t, (m.place t).isAsleep = true)
    (hidle : m.idle ≠ []) : ∃ t, 0 < (m.place t).alert := by
  have hle := h.awake hsleeper
  have hpos : 0 < total Place.alert m := Nat.lt_of_lt_of_le (List.length_pos_iff.mpr hidle) hle
  obtain ⟨t, -, ht⟩ := Finset.exists_ne_zero_of_sum_ne_zero (Nat.pos_iff_ne_zero.mp hpos)
  exact ⟨t, Nat.pos_of_ne_zero ht⟩

end Progress

end Monitor

end Lib.Lending
