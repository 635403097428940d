import Mathlib.Logic.Basic

/-!
# Programs over external calls

A program returns, raises, or performs an external call and goes on with its
outcome, a value or an exception. Nothing is said about the calls: one program
can be run against a database state, against an environment that answers
anything, or one call at a time among other programs.

`wp` is the weakest precondition over an `Interface`: a ghost state, what must
hold when a call is made and how the state may change with its outcome. The
rules `wp_bind`, `wp_tryCatch` and `wp_request` take a program apart along its
syntax.
-/

namespace Lib

inductive Prog (C : Type) (R : C → Type) (ε α : Type) where
  | ret (a : α)
  | raise (e : ε)
  | call (c : C) (k : Except ε (R c) → Prog C R ε α)

/-- A sequence of fallible steps ends well when each of them does. -/
theorem bind_eq_ok {ε α β : Type} {x : Except ε α} {f : α → Except ε β} {b : β} :
    (x >>= f) = .ok b ↔ ∃ a, x = .ok a ∧ f a = .ok b := by
  constructor
  · intro h
    cases x with
    | error e => cases h
    | ok a => exact ⟨a, rfl, h⟩
  · rintro ⟨a, rfl, h⟩
    exact h

namespace Prog

variable {C : Type} {R : C → Type} {ε α β σ : Type}

def bind : Prog C R ε α → (α → Prog C R ε β) → Prog C R ε β
  | .ret a, f => f a
  | .raise e, _ => .raise e
  | .call c k, f => .call c fun r => (k r).bind f

/-- What `h` raises is not caught again. -/
def tryCatch : Prog C R ε α → (ε → Prog C R ε α) → Prog C R ε α
  | .ret a, _ => .ret a
  | .raise e, h => h e
  | .call c k, h => .call c fun r => (k r).tryCatch h

instance : Monad (Prog C R ε) where
  pure := .ret
  bind := bind

def request (c : C) : Prog C R ε (R c) :=
  .call c fun
    | .ok a => .ret a
    | .error e => .raise e

/-! ## Which calls a program makes -/

/-- Every call of the program satisfies `S`, whatever the outcomes. -/
def CallsOnly (S : C → Prop) : Prog C R ε α → Prop
  | .ret _ => True
  | .raise _ => True
  | .call c k => S c ∧ ∀ r, (k r).CallsOnly S

section CallsOnly

variable {S : C → Prop}

theorem callsOnly_pure (a : α) : (pure a : Prog C R ε α).CallsOnly S := trivial

theorem callsOnly_request {c : C} (h : S c) : (request c : Prog C R ε (R c)).CallsOnly S := by
  refine ⟨h, fun r => ?_⟩
  cases r <;> trivial

theorem callsOnly_bind {p : Prog C R ε α} {f : α → Prog C R ε β} (hp : p.CallsOnly S)
    (hf : ∀ a, (f a).CallsOnly S) : (p >>= f).CallsOnly S := by
  show (p.bind f).CallsOnly S
  induction p with
  | ret a => exact hf a
  | raise e => trivial
  | call c k ih => exact ⟨hp.1, fun r => ih r (hp.2 r)⟩

theorem callsOnly_tryCatch {p : Prog C R ε α} {h : ε → Prog C R ε α} (hp : p.CallsOnly S)
    (hh : ∀ e, (h e).CallsOnly S) : (p.tryCatch h).CallsOnly S := by
  induction p with
  | ret a => trivial
  | raise e => exact hh e
  | call c k ih => exact ⟨hp.1, fun r => ih r (hp.2 r)⟩

theorem CallsOnly.mono {S' : C → Prop} {p : Prog C R ε α} (h : p.CallsOnly S)
    (hS : ∀ c, S c → S' c) : p.CallsOnly S' := by
  induction p with
  | ret a => trivial
  | raise e => trivial
  | call c k ih => exact ⟨hS c h.1, fun r => ih r (h.2 r)⟩

theorem callsOnly_true (p : Prog C R ε α) : p.CallsOnly fun _ => True := by
  induction p with
  | ret a => trivial
  | raise e => trivial
  | call c k ih => exact ⟨trivial, ih⟩

end CallsOnly

/-! ## Running -/

/-- The run against a function that answers every call. -/
def run (exec : (c : C) → σ → Except ε (R c) × σ) : Prog C R ε α → σ → Except ε α × σ
  | .ret a, s => (.ok a, s)
  | .raise e, s => (.error e, s)
  | .call c k, s => (k (exec c s).1).run exec (exec c s).2

/-- The result when every call is answered by a fixed function. -/
def eval (answer : (c : C) → Except ε (R c)) : Prog C R ε α → Except ε α
  | .ret a => .ok a
  | .raise e => .error e
  | .call c k => (k (answer c)).eval answer

/-- The call a program makes when so many of its calls have been answered. -/
def callAfter (answer : (c : C) → Except ε (R c)) : Nat → Prog C R ε α → Option C
  | 0, .call c _ => some c
  | n + 1, .call c k => callAfter answer n (k (answer c))
  | _, _ => none

/-- A call and its outcome. -/
structure Event (C : Type) (R : C → Type) (ε : Type) where
  call : C
  outcome : Except ε (R call)

/-- The program can make these calls with these outcomes and end like that,
in an environment that answers anything. -/
inductive Trace : Prog C R ε α → List (Event C R ε) → Except ε α → Prop
  | ret (a : α) : Trace (.ret a) [] (.ok a)
  | raise (e : ε) : Trace (.raise e) [] (.error e)
  | call {c : C} {k : Except ε (R c) → Prog C R ε α} {tr : List (Event C R ε)} {res : Except ε α}
      (r : Except ε (R c)) : Trace (k r) tr res → Trace (.call c k) (⟨c, r⟩ :: tr) res

/-! ## Taking traces apart -/

section Traces

variable {p : Prog C R ε α} {f : α → Prog C R ε β} {h : ε → Prog C R ε α}
  {pre post tr : List (Event C R ε)}

/-- The outcomes of its calls determine how a program ends. -/
theorem trace_unique {r r' : Except ε α} (htr : Trace p tr r) (htr' : Trace p tr r') : r = r' := by
  induction htr with
  | ret a =>
      cases htr'
      rfl
  | raise e =>
      cases htr'
      rfl
  | call o _ ih =>
      cases htr' with
      | call _ hk => exact ih hk

theorem trace_bind {a : α} {r : Except ε β} (hp : Trace p pre (.ok a)) (hf : Trace (f a) post r) :
    Trace (p >>= f) (pre ++ post) r := by
  show Trace (p.bind f) _ r
  generalize hres : (Except.ok a : Except ε α) = res at hp
  induction hp with
  | ret b =>
      cases hres
      exact hf
  | raise e => cases hres
  | call o _ ih => exact .call o (ih hres)

theorem trace_bind_error {e : ε} (hp : Trace p tr (.error e)) :
    Trace (p >>= f) tr (.error e) := by
  show Trace (p.bind f) _ _
  generalize hres : (Except.error e : Except ε α) = res at hp
  induction hp with
  | ret b => cases hres
  | raise e' =>
      cases hres
      exact .raise e
  | call o _ ih => exact .call o (ih hres)

/-- A sequence runs through its first part, or the first part raises. -/
theorem trace_of_bind {r : Except ε β} (htr : Trace (p >>= f) tr r) :
    (∃ pre post a, tr = pre ++ post ∧ Trace p pre (.ok a) ∧ Trace (f a) post r) ∨
      ∃ e, r = .error e ∧ Trace p tr (.error e) := by
  replace htr : Trace (p.bind f) tr r := htr
  induction p generalizing tr with
  | ret a => exact .inl ⟨[], tr, a, rfl, .ret a, htr⟩
  | raise e =>
      cases htr
      exact .inr ⟨e, rfl, .raise e⟩
  | call c k ih =>
      cases htr with
      | call o hk =>
          rcases ih o hk with ⟨pre, post, a, rfl, hp, hf⟩ | ⟨e, rfl, hp⟩
          · exact .inl ⟨_ :: pre, post, a, rfl, .call o hp, hf⟩
          · exact .inr ⟨e, rfl, .call o hp⟩

theorem trace_tryCatch_ok {a : α} (hp : Trace p tr (.ok a)) :
    Trace (p.tryCatch h) tr (.ok a) := by
  generalize hres : (Except.ok a : Except ε α) = res at hp
  induction hp with
  | ret b =>
      cases hres
      exact .ret a
  | raise e => cases hres
  | call o _ ih => exact .call o (ih hres)

theorem trace_tryCatch_error {e : ε} {r : Except ε α} (hp : Trace p pre (.error e))
    (hh : Trace (h e) post r) : Trace (p.tryCatch h) (pre ++ post) r := by
  generalize hres : (Except.error e : Except ε α) = res at hp
  induction hp with
  | ret b => cases hres
  | raise e' =>
      cases hres
      exact hh
  | call o _ ih => exact .call o (ih hres)

/-- A `catch` clause is run on what the program raises, after its calls. -/
theorem trace_of_tryCatch {r : Except ε α} (htr : Trace (p.tryCatch h) tr r) :
    (∃ a, r = .ok a ∧ Trace p tr (.ok a)) ∨
      ∃ e pre post, tr = pre ++ post ∧ Trace p pre (.error e) ∧ Trace (h e) post r := by
  induction p generalizing tr with
  | ret a =>
      cases htr
      exact .inl ⟨a, rfl, .ret a⟩
  | raise e => exact .inr ⟨e, [], tr, rfl, .raise e, htr⟩
  | call c k ih =>
      cases htr with
      | call o hk =>
          rcases ih o hk with ⟨a, rfl, hp⟩ | ⟨e, pre, post, rfl, hp, hh⟩
          · exact .inl ⟨a, rfl, .call o hp⟩
          · exact .inr ⟨e, _ :: pre, post, rfl, .call o hp, hh⟩

end Traces

/-! ## Weakest preconditions -/

/-- What a program may rely on: what must hold at a call, and how the ghost
state and the outcome of a call are related. -/
structure Interface (C : Type) (R : C → Type) (ε σ : Type) where
  pre : σ → C → Prop
  step : σ → (c : C) → Except ε (R c) → σ → Prop

def wp (I : Interface C R ε σ) : Prog C R ε α → (Except ε α → σ → Prop) → σ → Prop
  | .ret a, Q, s => Q (.ok a) s
  | .raise e, Q, s => Q (.error e) s
  | .call c k, Q, s => I.pre s c ∧ ∀ r s', I.step s c r s' → (k r).wp I Q s'

section Rules

variable {I : Interface C R ε σ}

theorem wp_mono {p : Prog C R ε α} {Q Q' : Except ε α → σ → Prop} {s : σ}
    (h : p.wp I Q s) (hQ : ∀ r s, Q r s → Q' r s) : p.wp I Q' s := by
  induction p generalizing s with
  | ret a => exact hQ _ _ h
  | raise e => exact hQ _ _ h
  | call c k ih => exact ⟨h.1, fun r s' hs => ih r (h.2 r s' hs)⟩

theorem wp_and {p : Prog C R ε α} {Q Q' : Except ε α → σ → Prop} {s : σ} (h : p.wp I Q s)
    (h' : p.wp I Q' s) : p.wp I (fun r s => Q r s ∧ Q' r s) s := by
  induction p generalizing s with
  | ret a => exact ⟨h, h'⟩
  | raise e => exact ⟨h, h'⟩
  | call c k ih => exact ⟨h.1, fun r s' hs => ih r (h.2 r s' hs) (h'.2 r s' hs)⟩

theorem wp_bind {p : Prog C R ε α} {f : α → Prog C R ε β} {Q : Except ε β → σ → Prop} {s : σ} :
    (p >>= f).wp I Q s ↔
      p.wp I (fun r s => match r with
        | .ok a => (f a).wp I Q s
        | .error e => Q (.error e) s) s := by
  show (p.bind f).wp I Q s ↔ _
  induction p generalizing s with
  | ret a => exact Iff.rfl
  | raise e => exact Iff.rfl
  | call c k ih =>
      exact and_congr_right fun _ => forall_congr' fun r => forall_congr' fun s' =>
        imp_congr_right fun _ => ih r

theorem wp_tryCatch {p : Prog C R ε α} {h : ε → Prog C R ε α} {Q : Except ε α → σ → Prop}
    {s : σ} :
    (p.tryCatch h).wp I Q s ↔
      p.wp I (fun r s => match r with
        | .ok a => Q (.ok a) s
        | .error e => (h e).wp I Q s) s := by
  induction p generalizing s with
  | ret a => exact Iff.rfl
  | raise e => exact Iff.rfl
  | call c k ih =>
      exact and_congr_right fun _ => forall_congr' fun r => forall_congr' fun s' =>
        imp_congr_right fun _ => ih r

theorem wp_request {c : C} {Q : Except ε (R c) → σ → Prop} {s : σ} :
    (request c : Prog C R ε (R c)).wp I Q s ↔
      I.pre s c ∧ ∀ r s', I.step s c r s' → Q r s' := by
  refine and_congr_right fun _ => forall_congr' fun r => forall_congr' fun s' =>
    imp_congr_right fun _ => ?_
  cases r <;> exact Iff.rfl

/-- Sequencing through a condition in the middle. -/
theorem wp_seq {p : Prog C R ε α} {f : α → Prog C R ε β} {M : Except ε α → σ → Prop}
    {Q : Except ε β → σ → Prop} {s : σ} (hp : p.wp I M s)
    (hok : ∀ a s', M (.ok a) s' → (f a).wp I Q s')
    (herr : ∀ e s', M (.error e) s' → Q (.error e) s') : (p >>= f).wp I Q s := by
  rw [wp_bind]
  refine wp_mono hp fun r s' hM => ?_
  cases r with
  | ok a => exact hok a s' hM
  | error e => exact herr e s' hM

theorem wp_catch {p : Prog C R ε α} {h : ε → Prog C R ε α} {M Q : Except ε α → σ → Prop} {s : σ}
    (hp : p.wp I M s) (hok : ∀ a s', M (.ok a) s' → Q (.ok a) s')
    (herr : ∀ e s', M (.error e) s' → (h e).wp I Q s') : (p.tryCatch h).wp I Q s := by
  rw [wp_tryCatch]
  refine wp_mono hp fun r s' hM => ?_
  cases r with
  | ok a => exact hok a s' hM
  | error e => exact herr e s' hM

/-- The two rules used at every call of a handler: the outcome is a value and
the program goes on, or it is an exception and the program ends. -/
theorem wp_request_bind {c : C} {f : R c → Prog C R ε β} {Q : Except ε β → σ → Prop} {s : σ}
    (hpre : I.pre s c) (hok : ∀ a s', I.step s c (.ok a) s' → (f a).wp I Q s')
    (herr : ∀ e s', I.step s c (.error e) s' → Q (.error e) s') :
    ((request c : Prog C R ε (R c)) >>= f).wp I Q s := by
  rw [wp_bind, wp_request]
  refine ⟨hpre, fun r s' hs => ?_⟩
  cases r with
  | ok a => exact hok a s' hs
  | error e => exact herr e s' hs

end Rules

/-- A program of harmless calls keeps whatever they keep. -/
theorem wp_of_callsOnly {I : Interface C R ε σ} {S : C → Prop} (Inv : σ → Prop)
    (hS : ∀ s c, S c → Inv s → I.pre s c ∧ ∀ r s', I.step s c r s' → Inv s') {p : Prog C R ε α}
    (hp : p.CallsOnly S) {s : σ} (hs : Inv s) : p.wp I (fun _ s' => Inv s') s := by
  induction p generalizing s with
  | ret a => exact hs
  | raise e => exact hs
  | call c k ih =>
      obtain ⟨hpre, hstep⟩ := hS s c hp.1 hs
      exact ⟨hpre, fun r s' h => ih r (hp.2 r) (hstep r s' h)⟩

/-- Along a trace, a ghost state that every outcome allowed by the trace moves
by `next` ends where the weakest precondition holds. -/
theorem wp_trace {I : Interface C R ε σ} (next : σ → Event C R ε → σ)
    (hI : ∀ s c r, I.step s c r (next s ⟨c, r⟩)) {p : Prog C R ε α}
    {Q : Except ε α → σ → Prop} {tr : List (Event C R ε)} {res : Except ε α}
    (htr : Trace p tr res) {s : σ} (h : p.wp I Q s) : Q res (tr.foldl next s) := by
  induction htr generalizing s with
  | ret a => exact h
  | raise e => exact h
  | call r _ ih => exact ih (h.2 r _ (hI s _ r))

/-- The interface of a function that answers every call. -/
def ofExec (exec : (c : C) → σ → Except ε (R c) × σ) : Interface C R ε σ where
  pre := fun _ _ => True
  step := fun s c r s' => exec c s = (r, s')

/-- Over a function the weakest precondition speaks about its one run. -/
theorem wp_ofExec {exec : (c : C) → σ → Except ε (R c) × σ} {p : Prog C R ε α}
    {Q : Except ε α → σ → Prop} {s : σ} :
    p.wp (ofExec exec) Q s ↔ Q (p.run exec s).1 (p.run exec s).2 := by
  induction p generalizing s with
  | ret a => exact Iff.rfl
  | raise e => exact Iff.rfl
  | call c k ih =>
      constructor
      · intro h
        exact (ih _).mp (h.2 _ _ rfl)
      · intro h
        refine ⟨trivial, fun r s' hs => (ih r).mpr ?_⟩
        have hrun : (call c k).run exec s = (k r).run exec s' := by
          show (k (exec c s).1).run exec (exec c s).2 = _
          rw [hs]
        rwa [hrun] at h

/-! ## Two runs -/

theorem run_bind (exec : (c : C) → σ → Except ε (R c) × σ) (p : Prog C R ε α)
    (f : α → Prog C R ε β) (s : σ) : (p >>= f).run exec s =
      match p.run exec s with
      | (.ok a, s') => (f a).run exec s'
      | (.error e, s') => (.error e, s') := by
  show (p.bind f).run exec s = _
  induction p generalizing s with
  | ret a => rfl
  | raise e => rfl
  | call c k ih => exact ih _ _

/-- The rest of a program whose first part is known. -/
theorem wp_run_bind {exec : (c : C) → σ → Except ε (R c) × σ} {p : Prog C R ε α}
    {f : α → Prog C R ε β} {Q : Except ε β → σ → Prop} {s s₁ : σ} {a : α}
    (hp : p.run exec s = (.ok a, s₁)) (hf : (f a).wp (ofExec exec) Q s₁) :
    (p >>= f).wp (ofExec exec) Q s := by
  rw [wp_ofExec, run_bind, hp]
  exact wp_ofExec.mp hf

theorem run_request (exec : (c : C) → σ → Except ε (R c) × σ) (c : C) (s : σ) :
    (request c : Prog C R ε (R c)).run exec s = exec c s := by
  unfold request
  simp only [run]
  rcases exec c s with ⟨r, s'⟩
  cases r <;> rfl

theorem run_request_bind (exec : (c : C) → σ → Except ε (R c) × σ) (c : C)
    (f : R c → Prog C R ε β) (s : σ) : ((request c : Prog C R ε (R c)) >>= f).run exec s =
      match (exec c s).1 with
      | .ok a => (f a).run exec (exec c s).2
      | .error e => (.error e, (exec c s).2) := by
  rw [run_bind, run_request]
  rcases exec c s with ⟨r, s'⟩
  cases r <;> rfl

/-- A sequence ends well when its first part does, and then the rest. -/
theorem run_bind_ok {exec : (c : C) → σ → Except ε (R c) × σ} {p : Prog C R ε α}
    {f : α → Prog C R ε β} {s s' : σ} {b : β} : (p >>= f).run exec s = (.ok b, s') ↔
      ∃ a s₁, p.run exec s = (.ok a, s₁) ∧ (f a).run exec s₁ = (.ok b, s') := by
  rw [run_bind]
  rcases p.run exec s with ⟨r, s₁⟩
  constructor
  · intro h
    cases r with
    | ok a => exact ⟨a, s₁, rfl, h⟩
    | error e => cases h
  · rintro ⟨a, s₂, ⟨⟩, h⟩
    exact h

theorem run_tryCatch_ok {exec : (c : C) → σ → Except ε (R c) × σ} {p : Prog C R ε α}
    {h : ε → Prog C R ε α} {s s' : σ} {a : α} : (p.tryCatch h).run exec s = (.ok a, s') ↔
      p.run exec s = (.ok a, s') ∨
        ∃ e s₁, p.run exec s = (.error e, s₁) ∧ (h e).run exec s₁ = (.ok a, s') := by
  induction p generalizing s with
  | ret b => exact ⟨Or.inl, fun h => h.resolve_right (by rintro ⟨_, _, ⟨⟩, _⟩)⟩
  | raise e =>
      constructor
      · exact fun h => Or.inr ⟨e, s, rfl, h⟩
      · rintro (⟨⟨⟩⟩ | ⟨_, _, ⟨⟩, h⟩)
        exact h
  | call c k ih => exact ih _

section Simulates

variable {τ : Type} {exec : (c : C) → σ → Except ε (R c) × σ}
  {exec' : (c : C) → τ → Except ε (R c) × τ} {rel : σ → τ → Prop}

/-- From related states both programs end alike, and in related states. -/
def Simulates (exec : (c : C) → σ → Except ε (R c) × σ) (exec' : (c : C) → τ → Except ε (R c) × τ)
    (rel : σ → τ → Prop) (p q : Prog C R ε α) : Prop :=
  ∀ s t, rel s t → (p.run exec s).1 = (q.run exec' t).1 ∧ rel (p.run exec s).2 (q.run exec' t).2

theorem simulates_bind {p q : Prog C R ε α} {f g : α → Prog C R ε β}
    (hp : Simulates exec exec' rel p q) (hf : ∀ a, Simulates exec exec' rel (f a) (g a)) :
    Simulates exec exec' rel (p >>= f) (q >>= g) := by
  intro s t hst
  obtain ⟨hres, hrel⟩ := hp s t hst
  rw [run_bind, run_bind]
  revert hres hrel
  rcases p.run exec s with ⟨r, s'⟩
  rcases q.run exec' t with ⟨r', t'⟩
  rintro (rfl : r = r') (hrel : rel s' t')
  cases r with
  | ok a => exact hf a s' t' hrel
  | error e => exact ⟨rfl, hrel⟩

/-- A program simulates itself if both environments answer each of its calls alike. -/
theorem simulates_self {S : C → Prop} (hS : ∀ c, S c → ∀ s t, rel s t →
      (exec c s).1 = (exec' c t).1 ∧ rel (exec c s).2 (exec' c t).2) {p : Prog C R ε α}
    (hp : p.CallsOnly S) : Simulates exec exec' rel p p := by
  induction p with
  | ret a => exact fun _ _ hst => ⟨rfl, hst⟩
  | raise e => exact fun _ _ hst => ⟨rfl, hst⟩
  | call c k ih =>
      intro s t hst
      obtain ⟨hres, hrel⟩ := hS c hp.1 s t hst
      have hrest := ih (exec c s).1 (hp.2 _) _ _ hrel
      have hrun : (call c k).run exec' t = (k (exec c s).1).run exec' (exec' c t).2 := by
        rw [hres]
        rfl
      rw [hrun]
      exact hrest

end Simulates

end Prog

end Lib
