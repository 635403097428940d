import Mathlib.Algebra.Order.Group.Defs
import Mathlib.Algebra.Order.Group.Unbundled.Basic

/-!
# Sliding windows

A log of admitted times over an ordered group, and how many of them lie in a half-open
window. When each was admitted with fewer than `L` others in the window that ends at it,
no window holds more than `L`, wherever it ends. A log from which all up to the start of
an earlier window has been dropped is as good as the whole one.
-/

namespace Lib.SlidingWindow

variable {α : Type} [AddCommGroup α] [LinearOrder α]

/-- How many times of a log are later than `t - W` and no later than `t`. -/
def recent (W : α) (log : List α) (t : α) : Nat :=
  log.countP fun u => decide (t - W < u ∧ u ≤ t)

/-- A log in order, each time of which was admitted with fewer than `L` in its window. -/
inductive Admitted (L : Nat) (W : α) : List α → Prop
  | nil : Admitted L W []
  | snoc {log : List α} {t : α} : Admitted L W log → (∀ u ∈ log, u ≤ t) →
      recent W log t < L → Admitted L W (log ++ [t])

variable {L : Nat} {W : α} {log : List α}

omit [AddCommGroup α] in
/-- What has been dropped up to the start of an earlier window does not count later. -/
theorem filter_filter_of_le {cut start : α} (hcut : cut ≤ start) :
    (log.filter fun u => decide (cut < u)).filter (fun u => decide (start < u)) =
      log.filter fun u => decide (start < u) := by
  rw [List.filter_filter]
  refine List.filter_congr fun u _ => ?_
  by_cases hstart : start < u
  · simp only [hstart, lt_of_le_of_lt hcut hstart, decide_true, Bool.and_self]
  · simp only [hstart, decide_false, Bool.false_and]

/-- All that is later than the start of the window and not later than its end. -/
theorem recent_eq_of_le {t : α} (hlog : ∀ u ∈ log, u ≤ t) :
    recent W log t = (log.filter fun u => decide (t - W < u)).length := by
  unfold recent
  rw [← List.countP_eq_length_filter]
  refine List.countP_congr fun u hu => ?_
  simp only [decide_eq_true_eq, and_iff_left (hlog u hu)]

variable [IsOrderedAddMonoid α]

/-- A later window holds no more of a log that ends before both. -/
theorem recent_le_of_le {t a : α} (hlog : ∀ u ∈ log, u ≤ t) (hta : t ≤ a) :
    recent W log a ≤ recent W log t := by
  refine List.countP_mono_left fun u hu h => ?_
  rw [decide_eq_true_eq] at h ⊢
  exact ⟨lt_of_le_of_lt (sub_le_sub_right hta W) h.1, hlog u hu⟩

/-- No window holds more than is admitted. -/
theorem Admitted.recent_le (h : Admitted L W log) (a : α) : recent W log a ≤ L := by
  induction h with
  | nil => exact Nat.zero_le L
  | @snoc log t _ hlog hless ih =>
      unfold recent
      rw [List.countP_append, List.countP_singleton]
      by_cases hin : a - W < t ∧ t ≤ a
      · have hrest := recent_le_of_le (W := W) hlog hin.2
        unfold recent at hrest hless
        rw [if_pos (decide_eq_true hin)]
        omega
      · rw [if_neg (by rwa [decide_eq_true_eq])]
        exact ih

/-! ## The machine that keeps the whole log -/

/-- The times at which an answer was given, with the answers: a time is admitted when
fewer than `L` of the log are in its window, and then it is in the log. -/
def answers (L : Nat) (W : α) : List α → List α → List (α × Bool)
  | _, [] => []
  | log, t :: ts =>
      let ok := decide (recent W log t < L)
      (t, ok) :: answers L W (if ok then log ++ [t] else log) ts

/-- The times that were admitted. -/
def admitted (h : List (α × Bool)) : List α := (h.filter fun c => c.2).map Prod.fst

omit [IsOrderedAddMonoid α] in
/-- Every answer depends on the times admitted before it. -/
theorem answers_append (t : α) : ∀ (ts log : List α), answers L W log (ts ++ [t]) =
    answers L W log ts ++ [(t, decide (recent W (log ++ admitted (answers L W log ts)) t < L))]
  | [], log => by simp [answers, admitted]
  | u :: ts, log => by
      rw [List.cons_append, answers, answers_append t ts]
      by_cases hok : recent W log u < L
      · simp [answers, admitted, hok]
      · simp [answers, admitted, hok]

omit [IsOrderedAddMonoid α] in
/-- What is admitted in order, is admitted. -/
theorem admitted_answers : ∀ (ts : List α) {log : List α}, Admitted L W log →
    ts.Pairwise (· ≤ ·) → (∀ u ∈ log, ∀ t ∈ ts, u ≤ t) →
    Admitted L W (log ++ admitted (answers L W log ts))
  | [], log, h, _, _ => by simpa [answers, admitted] using h
  | t :: ts, log, h, hsorted, hlog => by
      obtain ⟨hfirst, hrest⟩ := List.pairwise_cons.mp hsorted
      by_cases hok : recent W log t < L
      · have hlog' : ∀ u ∈ log ++ [t], ∀ t' ∈ ts, u ≤ t' := by
          intro u hu t' ht'
          rcases List.mem_append.mp hu with hu | hu
          · exact hlog u hu t' (List.mem_cons_of_mem _ ht')
          · exact (List.mem_singleton.mp hu) ▸ hfirst t' ht'
        have hnext := admitted_answers ts
          (h.snoc (fun u hu => hlog u hu t List.mem_cons_self) hok) hrest hlog'
        simpa [answers, admitted, hok] using hnext
      · have hnext := admitted_answers ts h hrest
          fun u hu t' ht' => hlog u hu t' (List.mem_cons_of_mem _ ht')
        simpa [answers, admitted, hok] using hnext

end Lib.SlidingWindow
