import Mathlib.Logic.Function.Basic
import SolarDrive.Lib.Prog

/-!
# Programs side by side

A pool runs any number of programs over one shared state, one call at a time
and in any order; every call is atomic. Each process carries the log of its
calls and their outcomes, so that what it knows can be read off.

`Run.invariant` is the induction over a run. `Follows` ties a process to an
interface whose ghost state is the log: it is what is left of a weakest
precondition when the process has got that far (`Follows.step`).
-/

namespace Lib

open Prog

structure Proc (C : Type) (R : C → Type) (ε α : Type) where
  log : List (Event C R ε)
  prog : Prog C R ε α

abbrev Pool (ι C : Type) (R : C → Type) (ε α : Type) : Type := ι → Proc C R ε α

namespace Pool

variable {ι C : Type} {R : C → Type} {ε α σ : Type} [DecidableEq ι]

/-- The pool after process `i` got the outcome `r` of its call `c`. -/
def advance (P : Pool ι C R ε α) (i : ι) (c : C) (r : Except ε (R c)) (next : Prog C R ε α) :
    Pool ι C R ε α :=
  Function.update P i { log := (P i).log ++ [⟨c, r⟩], prog := next }

theorem advance_self (P : Pool ι C R ε α) (i : ι) (c : C) (r : Except ε (R c))
    (next : Prog C R ε α) :
    P.advance i c r next i = { log := (P i).log ++ [⟨c, r⟩], prog := next } :=
  Function.update_self i _ P

theorem advance_ne (P : Pool ι C R ε α) {i j : ι} (h : j ≠ i) (c : C) (r : Except ε (R c))
    (next : Prog C R ε α) : P.advance i c r next j = P j :=
  Function.update_of_ne h _ P

/-- A log grows by the one event. -/
theorem mem_log_advance {P : Pool ι C R ε α} {i j : ι} {c : C} {r : Except ε (R c)}
    {next : Prog C R ε α} {e : Event C R ε} :
    e ∈ (P.advance i c r next j).log ↔ e ∈ (P j).log ∨ j = i ∧ e = ⟨c, r⟩ := by
  by_cases hj : j = i
  · subst hj
    rw [advance_self]
    simp
  · rw [advance_ne P hj]
    simp [hj]

/-- Runs in which every step satisfies `cond`: the shared state and the pool
before the step, the process, its call and the shared state after it. -/
inductive Run (exec : (c : C) → σ → Except ε (R c) × σ)
    (cond : σ → Pool ι C R ε α → ι → C → σ → Prop) (s₀ : σ) (P₀ : Pool ι C R ε α) :
    σ → Pool ι C R ε α → Prop
  | refl : Run exec cond s₀ P₀ s₀ P₀
  | tail {s s' : σ} {P : Pool ι C R ε α} {i : ι} {c : C} {k : Except ε (R c) → Prog C R ε α}
      {r : Except ε (R c)} :
      Run exec cond s₀ P₀ s P → (P i).prog = .call c k → exec c s = (r, s') →
      cond s P i c s' → Run exec cond s₀ P₀ s' (P.advance i c r (k r))

variable {exec : (c : C) → σ → Except ε (R c) × σ}
  {cond : σ → Pool ι C R ε α → ι → C → σ → Prop}

theorem Run.trans {s₀ s₁ s₂ : σ} {P₀ P₁ P₂ : Pool ι C R ε α} (h₁ : Run exec cond s₀ P₀ s₁ P₁)
    (h₂ : Run exec cond s₁ P₁ s₂ P₂) : Run exec cond s₀ P₀ s₂ P₂ := by
  induction h₂ with
  | refl => exact h₁
  | tail _ hcall hexec hcond ih => exact .tail ih hcall hexec hcond

/-- The run in which the processes of a schedule take their turns, as long as
each turn passes the check. -/
def runSchedule (exec : (c : C) → σ → Except ε (R c) × σ)
    (check : σ → Pool ι C R ε α → ι → C → Bool) :
    List ι → σ → Pool ι C R ε α → Option (σ × Pool ι C R ε α)
  | [], s, P => some (s, P)
  | i :: is, s, P =>
      match (P i).prog with
      | .call c k =>
          if check s P i c then
            runSchedule exec check is (exec c s).2 (P.advance i c (exec c s).1 (k (exec c s).1))
          else none
      | _ => none

theorem run_of_schedule {check : σ → Pool ι C R ε α → ι → C → Bool}
    (hcheck : ∀ s P i c s', check s P i c = true → cond s P i c s') : ∀ {is : List ι} {s s' : σ}
    {P P' : Pool ι C R ε α}, runSchedule exec check is s P = some (s', P') →
    Run exec cond s P s' P'
  | [], s, _, P, _, h => by
      cases h
      exact .refl
  | i :: is, s, s', P, P', h => by
      rw [runSchedule] at h
      split at h
      · rename_i c k hp
        split at h
        · rename_i hok
          exact Run.trans (.tail .refl hp rfl (hcheck s P i c _ hok)) (run_of_schedule hcheck h)
        · cases h
      · cases h

/-- What holds at the start and is kept by every step holds all along. -/
theorem Run.invariant {s₀ s₁ : σ} {P₀ P₁ : Pool ι C R ε α}
    (hrun : Run exec cond s₀ P₀ s₁ P₁) (Inv : σ → Pool ι C R ε α → Prop) (h₀ : Inv s₀ P₀)
    (hstep : ∀ {s s' : σ} {P : Pool ι C R ε α} {i : ι} {c : C}
      {k : Except ε (R c) → Prog C R ε α} {r : Except ε (R c)}, Inv s P →
      (P i).prog = .call c k → exec c s = (r, s') → cond s P i c s' →
      Inv s' (P.advance i c r (k r))) : Inv s₁ P₁ := by
  induction hrun with
  | refl => exact h₀
  | tail _ hcall hexec hcond ih => exact hstep ih hcall hexec hcond

/-- A process that has made no call is where it began. -/
theorem Run.untouched {s₀ s₁ : σ} {P₀ P₁ : Pool ι C R ε α} (hrun : Run exec cond s₀ P₀ s₁ P₁)
    {i : ι} : (P₁ i).log = [] → (P₁ i).prog = (P₀ i).prog := by
  refine hrun.invariant (fun _ P => (P i).log = [] → (P i).prog = (P₀ i).prog) (fun _ => rfl) ?_
  intro s s' P j c k r ih hcall hexec _ hlog
  by_cases hj : i = j
  · subst hj
    rw [advance_self] at hlog
    exact absurd hlog (List.append_ne_nil_of_right_ne_nil _ (List.cons_ne_nil _ _))
  · rw [advance_ne P hj] at hlog ⊢
    exact ih hlog

/-- Runs in which the surroundings change the shared state, too, between two calls. -/
inductive Interleaved (exec : (c : C) → σ → Except ε (R c) × σ) (surroundings : σ → σ → Prop)
    (s₀ : σ) (P₀ : Pool ι C R ε α) : σ → Pool ι C R ε α → Prop
  | refl : Interleaved exec surroundings s₀ P₀ s₀ P₀
  | call {s s' : σ} {P : Pool ι C R ε α} {i : ι} {c : C} {k : Except ε (R c) → Prog C R ε α}
      {r : Except ε (R c)} :
      Interleaved exec surroundings s₀ P₀ s P → (P i).prog = .call c k → exec c s = (r, s') →
      Interleaved exec surroundings s₀ P₀ s' (P.advance i c r (k r))
  | beside {s s' : σ} {P : Pool ι C R ε α} :
      Interleaved exec surroundings s₀ P₀ s P → surroundings s s' →
      Interleaved exec surroundings s₀ P₀ s' P

variable {surroundings : σ → σ → Prop}

theorem Interleaved.trans {s₀ s₁ s₂ : σ} {P₀ P₁ P₂ : Pool ι C R ε α}
    (h₁ : Interleaved exec surroundings s₀ P₀ s₁ P₁)
    (h₂ : Interleaved exec surroundings s₁ P₁ s₂ P₂) :
    Interleaved exec surroundings s₀ P₀ s₂ P₂ := by
  induction h₂ with
  | refl => exact h₁
  | call _ hcall hexec ih => exact .call ih hcall hexec
  | beside _ hmoved ih => exact .beside ih hmoved

/-- The surroundings may as well do nothing. -/
theorem Run.interleaved {s₀ s₁ : σ} {P₀ P₁ : Pool ι C R ε α} (hrun : Run exec cond s₀ P₀ s₁ P₁) :
    Interleaved exec surroundings s₀ P₀ s₁ P₁ := by
  induction hrun with
  | refl => exact .refl
  | tail _ hcall hexec _ ih => exact .call ih hcall hexec

/-- A schedule of the processes, the surroundings doing nothing. -/
theorem interleaved_of_schedule {check : σ → Pool ι C R ε α → ι → C → Bool} {is : List ι}
    {s s' : σ} {P P' : Pool ι C R ε α} (h : runSchedule exec check is s P = some (s', P')) :
    Interleaved exec surroundings s P s' P' := by
  have hrun : Run exec (fun _ _ _ _ _ => True) s P s' P' :=
    run_of_schedule (fun _ _ _ _ _ _ => trivial) h
  exact hrun.interleaved

theorem Interleaved.invariant {s₀ s₁ : σ} {P₀ P₁ : Pool ι C R ε α}
    (hrun : Interleaved exec surroundings s₀ P₀ s₁ P₁) (Inv : σ → Pool ι C R ε α → Prop)
    (h₀ : Inv s₀ P₀)
    (hcall : ∀ {s s' : σ} {P : Pool ι C R ε α} {i : ι} {c : C}
      {k : Except ε (R c) → Prog C R ε α} {r : Except ε (R c)}, Inv s P →
      (P i).prog = .call c k → exec c s = (r, s') → Inv s' (P.advance i c r (k r)))
    (hbeside : ∀ {s s' : σ} {P : Pool ι C R ε α}, Inv s P → surroundings s s' → Inv s' P) :
    Inv s₁ P₁ := by
  induction hrun with
  | refl => exact h₀
  | call _ hp hexec ih => exact hcall ih hp hexec
  | beside _ hmoved ih => exact hbeside ih hmoved

/-- A process that has made no call is where it began. -/
theorem Interleaved.untouched {s₀ s₁ : σ} {P₀ P₁ : Pool ι C R ε α}
    (hrun : Interleaved exec surroundings s₀ P₀ s₁ P₁) {i : ι} :
    (P₁ i).log = [] → P₁ i = P₀ i := by
  refine hrun.invariant (fun _ P => (P i).log = [] → P i = P₀ i) (fun _ => rfl) ?_ fun h _ => h
  intro s s' P j c k r ih _ _ hlog
  by_cases hj : i = j
  · subst hj
    rw [advance_self] at hlog
    exact absurd hlog (List.append_ne_nil_of_right_ne_nil _ (List.cons_ne_nil _ _))
  · rw [advance_ne P hj] at hlog ⊢
    exact ih hlog

end Pool

section Follows

variable {C : Type} {R : C → Type} {ε α : Type}

/-- An interface over logs: `pre` says which calls may follow a log, `valid`
which outcomes a call can have. -/
def logInterface (pre : List (Event C R ε) → C → Prop) (valid : (c : C) → Except ε (R c) → Prop) :
    Interface C R ε (List (Event C R ε)) where
  pre := pre
  step := fun log c r log' => valid c r ∧ log' = log ++ [⟨c, r⟩]

/-- The rest of the process meets its specification from its log on. -/
def Follows (pre : List (Event C R ε) → C → Prop) (valid : (c : C) → Except ε (R c) → Prop)
    (Q : Except ε α → List (Event C R ε) → Prop) (p : Proc C R ε α) : Prop :=
  p.prog.wp (logInterface pre valid) Q p.log

variable {pre : List (Event C R ε) → C → Prop} {valid : (c : C) → Except ε (R c) → Prop}
  {Q : Except ε α → List (Event C R ε) → Prop}

theorem Follows.pre_call {p : Proc C R ε α} (h : Follows pre valid Q p) {c : C}
    {k : Except ε (R c) → Prog C R ε α} (hp : p.prog = .call c k) : pre p.log c := by
  unfold Follows at h
  rw [hp] at h
  exact h.1

theorem Follows.step {p : Proc C R ε α} (h : Follows pre valid Q p) {c : C}
    {k : Except ε (R c) → Prog C R ε α} (hp : p.prog = .call c k) {r : Except ε (R c)}
    (hr : valid c r) : Follows pre valid Q { log := p.log ++ [⟨c, r⟩], prog := k r } := by
  unfold Follows at h ⊢
  rw [hp] at h
  exact h.2 r _ ⟨hr, rfl⟩

/-- When one process of a pool makes a step, all go on as specified. -/
theorem Follows.advance {ι : Type} [DecidableEq ι] {pre : ι → List (Event C R ε) → C → Prop}
    {Q : ι → Except ε α → List (Event C R ε) → Prop} {P : Pool ι C R ε α} {i : ι} {c : C}
    {k : Except ε (R c) → Prog C R ε α} {r : Except ε (R c)}
    (h : ∀ j, Follows (pre j) valid (Q j) (P j)) (hp : (P i).prog = .call c k) (hr : valid c r)
    (j : ι) : Follows (pre j) valid (Q j) (P.advance i c r (k r) j) := by
  by_cases hj : j = i
  · subst hj
    rw [Pool.advance_self]
    exact (h j).step hp hr
  · rw [Pool.advance_ne P hj]
    exact h j

theorem Follows.done {p : Proc C R ε α} (h : Follows pre valid Q p) {a : α}
    (hp : p.prog = .ret a) : Q (.ok a) p.log := by
  unfold Follows at h
  rw [hp] at h
  exact h

/-! ### Postconditions over a growing log -/

/-- The log has grown, and a result satisfies `G`. -/
def Grows (G : α → List (Event C R ε) → Prop) (log : List (Event C R ε)) (r : Except ε α)
    (log' : List (Event C R ε)) : Prop :=
  log ⊆ log' ∧ ∀ a, r = .ok a → G a log'

variable {β : Type} {log : List (Event C R ε)} {G : α → List (Event C R ε) → Prop}
  {G' : β → List (Event C R ε) → Prop}

theorem grows_pure {a : α} (h : G a log) :
    (pure a : Prog C R ε α).wp (logInterface pre valid) (Grows G log) log := by
  refine ⟨List.Subset.refl log, ?_⟩
  rintro b ⟨⟩
  exact h

theorem grows_raise (e : ε) :
    (.raise e : Prog C R ε α).wp (logInterface pre valid) (Grows G log) log := by
  refine ⟨List.Subset.refl log, ?_⟩
  rintro b ⟨⟩

/-- A call leaves itself and its outcome in the log. -/
theorem grows_request {c : C} (hpre : pre log c) :
    (request c : Prog C R ε (R c)).wp (logInterface pre valid)
      (Grows (fun a log' => (⟨c, .ok a⟩ : Event C R ε) ∈ log' ∧ valid c (.ok a)) log) log := by
  refine wp_request.mpr ⟨hpre, ?_⟩
  rintro r log' ⟨hvalid, rfl⟩
  refine ⟨List.subset_append_left _ _, ?_⟩
  rintro a rfl
  exact ⟨List.mem_append_right _ (List.mem_singleton.mpr rfl), hvalid⟩

theorem grows_bind {p : Prog C R ε α} {f : α → Prog C R ε β}
    (hp : p.wp (logInterface pre valid) (Grows G log) log)
    (hf : ∀ a log', log ⊆ log' → G a log' →
      (f a).wp (logInterface pre valid) (Grows G' log') log') :
    (p >>= f).wp (logInterface pre valid) (Grows G' log) log := by
  refine wp_seq hp ?_ ?_
  · rintro a log' ⟨hsub, ha⟩
    refine wp_mono (hf a log' hsub (ha a rfl)) ?_
    rintro r log'' ⟨hsub', hG⟩
    exact ⟨List.Subset.trans hsub hsub', hG⟩
  · rintro e log' ⟨hsub, -⟩
    refine ⟨hsub, ?_⟩
    rintro b ⟨⟩

/-- Calls that are always allowed. -/
theorem grows_of_callsOnly {S : C → Prop} (hS : ∀ c, S c → ∀ log, pre log c) {p : Prog C R ε α}
    (hp : p.CallsOnly S) :
    p.wp (logInterface pre valid) (Grows (fun _ _ => True) log) log := by
  have hsub : p.wp (logInterface pre valid) (fun _ log' => log ⊆ log') log := by
    refine wp_of_callsOnly (fun log' => log ⊆ log') (fun log' c hc hlog' => ?_) hp
      (List.Subset.refl log)
    refine ⟨hS c hc log', ?_⟩
    rintro r _ ⟨-, rfl⟩
    exact List.Subset.trans hlog' (List.subset_append_left _ _)
  exact wp_mono hsub fun r log' h => ⟨h, fun _ _ => trivial⟩

/-! ### Calls with known answers -/

/-- The calls of one kind in the log have been answered by this function. -/
def AnsweredBy (S : C → Prop) (answer : (c : C) → Except ε (R c)) (log : List (Event C R ε)) :
    Prop :=
  ∀ c r, S c → (⟨c, r⟩ : Event C R ε) ∈ log → r = answer c

/-- A program of such calls extends the log by them, and ends as it does with these answers. -/
theorem wp_eval {S : C → Prop} (answer : (c : C) → Except ε (R c))
    (hS : ∀ c, S c → ∀ log, pre log c) {p : Prog C R ε α} (hp : p.CallsOnly S) :
    p.wp (logInterface pre valid) (fun r log' =>
      (∃ tail, log' = log ++ tail ∧ ∀ e ∈ tail, S e.call) ∧
        (AnsweredBy S answer log' → r = p.eval answer)) log := by
  induction p generalizing log with
  | ret a => exact ⟨⟨[], (List.append_nil log).symm, fun _ he => absurd he List.not_mem_nil⟩,
      fun _ => rfl⟩
  | raise e => exact ⟨⟨[], (List.append_nil log).symm, fun _ he => absurd he List.not_mem_nil⟩,
      fun _ => rfl⟩
  | call c k ih =>
      refine ⟨hS c hp.1 log, ?_⟩
      rintro r _ ⟨-, rfl⟩
      refine wp_mono (ih r (hp.2 r)) ?_
      rintro res log' ⟨⟨tail, rfl, htail⟩, hres⟩
      refine ⟨⟨⟨c, r⟩ :: tail, List.append_assoc _ _ _, ?_⟩, fun hans => ?_⟩
      · rintro e he
        rcases List.mem_cons.mp he with rfl | he
        · exact hp.1
        · exact htail e he
      · have hr : r = answer c := hans c r hp.1 (List.mem_append_left _
          (List.mem_append_right _ (List.mem_singleton.mpr rfl)))
        rw [hres hans, hr]
        rfl

end Follows

end Lib
