import SolarDrive.Metadata.RedisLoss

/-!
# Calls that fail

`execFaulty` answers the calls of a handler as `exec` does, but for those that
are refused: such a call changes nothing, and throws, unless it is to Redis,
where the client returns that it has no reply.
-/

namespace SolarDrive.Metadata

open Lib Http Api Prog

/-- A world, and what the calls to come are refused with. -/
structure Faulty where
  world : World
  faults : Nat → Option Exn

namespace Faulty

def skip (s : Faulty) (n : Nat) : Faulty := { s with faults := fun m => s.faults (n + m) }

@[simp] theorem skip_world (s : Faulty) (n : Nat) : (s.skip n).world = s.world := rfl

@[simp] theorem skip_faults (s : Faulty) (n m : Nat) : (s.skip n).faults m = s.faults (n + m) := rfl

@[simp] theorem skip_zero (s : Faulty) : s.skip 0 = s := by
  simp only [skip, Nat.zero_add]

@[simp] theorem skip_skip (s : Faulty) (n m : Nat) : (s.skip n).skip m = s.skip (n + m) := by
  simp only [skip, Nat.add_assoc]

end Faulty

/-- The calls that reach the disk, the database or Redis. -/
def canFail : Call → Bool
  | .jsonParse _ | .pushProgress _ _ _ _ | .pushComplete _ _ | .now | .draw => false
  | _ => true

def refusal (c : Call) (e : Exn) : Except Exn c.Resp := if isRedis c then noReply c else .error e

def execFaulty (svc : Services) (pg : Postgres) (c : Call) (s : Faulty) :
    Except Exn c.Resp × Faulty :=
  match s.faults 0, canFail c with
  | some e, true => (refusal c e, s.skip 1)
  | _, _ => ((exec svc pg c s.world).1, { s.skip 1 with world := (exec svc pg c s.world).2 })

section Faults

variable {svc : Services} {pg : Postgres} {s s' : Faulty} {α : Type}

theorem execFaulty_refused {c : Call} {e : Exn} (hfault : s.faults 0 = some e)
    (hc : canFail c = true) : execFaulty svc pg c s = (refusal c e, s.skip 1) := by
  unfold execFaulty
  rw [hfault, hc]

theorem execFaulty_answered {c : Call} (h : s.faults 0 = none ∨ canFail c = false) :
    execFaulty svc pg c s =
      ((exec svc pg c s.world).1, { s.skip 1 with world := (exec svc pg c s.world).2 }) := by
  unfold execFaulty
  rcases h with h | h
  · rw [h]
  · rw [h]
    cases s.faults 0 <;> rfl

/-- A call is answered, or is refused and leaves the world as it is. -/
theorem execFaulty_cases {c : Call} {r : Except Exn c.Resp} (h : execFaulty svc pg c s = (r, s')) :
    exec svc pg c s.world = (r, s'.world) ∨ s'.world = s.world ∧ ∃ e, r = refusal c e := by
  cases hfault : s.faults 0 with
  | none =>
      rw [execFaulty_answered (.inl hfault)] at h
      cases h
      exact .inl rfl
  | some e =>
      cases hc : canFail c with
      | false =>
          rw [execFaulty_answered (.inr hc)] at h
          cases h
          exact .inl rfl
      | true =>
          rw [execFaulty_refused hfault hc] at h
          cases h
          exact .inr ⟨rfl, e, rfl⟩

/-- What the calls of a program keep when they are answered is kept in any case. -/
theorem wp_faulty {Inv : World → Prop} {S : Call → Prop}
    (hstep : ∀ {w w' : World} {c : Call} {r : Except Exn c.Resp}, S c → Inv w →
      exec svc pg c w = (r, w') → Inv w') {p : App α} (hp : p.CallsOnly S) (hs : Inv s.world) :
    p.wp (ofExec (execFaulty svc pg)) (fun _ s' => Inv s'.world) s := by
  refine wp_of_callsOnly (fun s' : Faulty => Inv s'.world) ?_ hp hs
  intro s₁ c hc hinv
  refine ⟨trivial, fun r s₂ hexec => ?_⟩
  rcases execFaulty_cases hexec with hanswered | ⟨hsame, -⟩
  · exact hstep hc hinv hanswered
  · rw [hsame]
    exact hinv

/-- The questions to the database. -/
def isQuery (c : Call) : Bool := readOnly c && canFail c && !isRedis c

theorem exec_query {c : Call} (hc : isQuery c = true) (w : World) : (exec svc pg c w).2 = w := by
  cases c with
  | draw => cases hc
  | _ => first | rfl | cases hc

/-- A question is answered from the world, or an exception. -/
theorem wp_query_bind {c : Call} {f : c.Resp → App α} {Q : Except Exn α → Faulty → Prop}
    (hc : isQuery c = true)
    (hok : ∀ a, s.faults 0 = none → (exec svc pg c s.world).1 = .ok a →
      (f a).wp (ofExec (execFaulty svc pg)) Q (s.skip 1))
    (herr : ∀ e, (s.faults 0 = none → (exec svc pg c s.world).1 = .error e) →
      Q (.error e) (s.skip 1)) :
    (ask c >>= f).wp (ofExec (execFaulty svc pg)) Q s := by
  have hfail : canFail c = true ∧ isRedis c = false := by
    simp only [isQuery, Bool.and_eq_true, Bool.not_eq_true'] at hc
    exact ⟨hc.1.2, hc.2⟩
  cases hfault : s.faults 0 with
  | some e =>
      have hexec : execFaulty svc pg c s = (.error e, s.skip 1) := by
        rw [execFaulty_refused hfault hfail.1, refusal, if_neg (by rw [hfail.2]; exact nofun)]
      refine wp_request_bind trivial (fun a s₁ h => ?_) fun e' s₁ h => ?_
      · cases hexec.symm.trans (show execFaulty svc pg c s = (.ok a, s₁) from h)
      · cases hexec.symm.trans (show execFaulty svc pg c s = (.error e', s₁) from h)
        exact herr e fun hnone => by rw [hfault] at hnone; cases hnone
  | none =>
      have hexec : execFaulty svc pg c s = ((exec svc pg c s.world).1, s.skip 1) := by
        rw [execFaulty_answered (.inl hfault), exec_query hc]
        rfl
      refine wp_request_bind trivial (fun a s₁ h => ?_) fun e s₁ h => ?_
      · obtain ⟨hr, rfl⟩ := Prod.mk.inj (hexec.symm.trans (show execFaulty svc pg c s = (.ok a, s₁) from h))
        exact hok a hfault hr
      · obtain ⟨hr, rfl⟩ := Prod.mk.inj
          (hexec.symm.trans (show execFaulty svc pg c s = (.error e, s₁) from h))
        exact herr e fun _ => hr

end Faults

end SolarDrive.Metadata
