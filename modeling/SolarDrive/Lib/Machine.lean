import Mathlib.Logic.Basic

/-!
# Machines

A machine takes labelled steps: it answers an event with its next state, or
does not take it. `Run` is a run with its events in order, each step of which
satisfies `cond`; `Run.invariant` is the induction over it, for properties of
the state and of the events so far.
-/

namespace Lib.Machine

variable {S E : Type} {step : S → E → Option S} {cond : S → E → Prop}

inductive Run (step : S → E → Option S) (cond : S → E → Prop) (s₀ : S) : List E → S → Prop
  | nil : Run step cond s₀ [] s₀
  | snoc {es : List E} {s s' : S} {e : E} : Run step cond s₀ es s → cond s e →
      step s e = some s' → Run step cond s₀ (es ++ [e]) s'

/-- What holds at the start and is kept by every step holds all along. -/
theorem Run.invariant {s₀ s : S} {es : List E} (hrun : Run step cond s₀ es s)
    (Inv : List E → S → Prop) (h₀ : Inv [] s₀)
    (hstep : ∀ {es : List E} {s s' : S} {e : E}, Inv es s → cond s e → step s e = some s' →
      Inv (es ++ [e]) s') : Inv es s := by
  induction hrun with
  | nil => exact h₀
  | snoc _ hcond hnext ih => exact hstep ih hcond hnext

theorem Run.append {s₀ s₁ s₂ : S} {es es' : List E} (h₁ : Run step cond s₀ es s₁)
    (h₂ : Run step cond s₁ es' s₂) : Run step cond s₀ (es ++ es') s₂ := by
  induction h₂ with
  | nil => rwa [List.append_nil]
  | snoc _ hcond hnext ih =>
      rw [← List.append_assoc]
      exact .snoc ih hcond hnext

/-- The run of a list of events, as long as each passes the check. -/
def exec (step : S → E → Option S) (check : S → E → Bool) : List E → S → Option S
  | [], s => some s
  | e :: es, s => if check s e then (step s e).bind (exec step check es) else none

theorem run_of_exec {check : S → E → Bool} (hcheck : ∀ s e, check s e = true → cond s e) :
    ∀ {es : List E} {s s' : S}, exec step check es s = some s' → Run step cond s es s'
  | [], s, _, h => by
      cases h
      exact .nil
  | e :: es, s, s', h => by
      rw [exec] at h
      split at h
      · rename_i hok
        obtain ⟨s₁, hnext, hrest⟩ := Option.bind_eq_some_iff.mp h
        have hone : Run step cond s ([] ++ [e]) s₁ := .snoc .nil (hcheck s e hok) hnext
        exact hone.append (run_of_exec hcheck hrest)
      · cases h

end Lib.Machine
