import Mathlib.Algebra.Order.Group.Multiset
import Mathlib.Logic.Function.Basic
import Mathlib.Tactic.Abel
import SolarDrive.Lib.Machine

/-!
# The acceptor

`handle_read` accepts until the backlog is empty. When the process is out of
descriptors it closes the one it keeps in reserve, accepts into the free slot, closes
what it accepted and opens the reserve again. The steps are the system calls;
between two of them other threads open and close descriptors of their own.
-/

namespace SolarDrive.Network

open Lib.Machine

/-- What a descriptor of the process is open for. -/
inductive Descriptor where
  | listenSocket
  /-- `/dev/null`, for `idle_fd_`. -/
  | reserve
  | connection (id : Nat)
  | other
deriving DecidableEq

/-- Where `handle_read` is. -/
inductive AcceptPhase where
  | outside
  /-- At `accept4`. -/
  | accepting
  /-- With a new connection. -/
  | accepted (fd id : Nat)
  /-- `EMFILE`: at `close(idle_fd_)`. -/
  | exhausted
  /-- At the `accept` into the free slot. -/
  | dropping
  /-- At the close of what was accepted. -/
  | dropped (fd id : Nat)
  /-- At the `open`. -/
  | reopening
deriving DecidableEq

/-- The acceptor, and what the kernel has for its process. -/
structure Acceptor where
  phase : AcceptPhase := .outside
  listening : Bool := false
  /-- `new_connection_cb_` is set. -/
  hasCallback : Bool
  /-- `idle_fd_`, none when it is negative. -/
  idleFd : Option Nat := none
  /-- The open descriptors. -/
  table : Nat → Option Descriptor
  /-- `RLIMIT_NOFILE`. -/
  limit : Nat
  backlog : List Nat := []
  /-- The connections that have arrived, that went to the callback, that were closed. -/
  arrived : List Nat := []
  handed : List Nat := []
  discarded : List Nat := []
  /-- What each `close` hit. -/
  closes : List (Option Descriptor) := []

inductive AcceptEvent where
  | listen
  | stopListening
  | readable
  | accept4
  /-- `accept4` fails with another error. -/
  | acceptError
  | deliver
  | closeIdle
  | acceptIdle
  | acceptIdleError
  | closeAccepted
  | reopen
  | reopenError
  /-- A connection is established. -/
  | arrive (id : Nat)
  | openElsewhere
  | closeElsewhere (fd : Nat)
deriving DecidableEq

/-- A connection between its `accept` and the callback or `close`. -/
def AcceptPhase.hand : AcceptPhase → Option (Nat × Nat)
  | .accepted fd id => some (fd, id)
  | .dropped fd id => some (fd, id)
  | _ => none

def AcceptPhase.held : AcceptPhase → Multiset Nat
  | .accepted _ id => {id}
  | .dropped _ id => {id}
  | _ => 0

/-- `idle_fd_` names the reserve, unless it is being used. -/
def AcceptPhase.keepsReserve : AcceptPhase → Bool
  | .dropping => false
  | .dropped _ _ => false
  | .reopening => false
  | _ => true

/-- One connection is owed to a round of `handle_read` that has accepted none yet. -/
def AcceptPhase.owed : AcceptPhase → Nat
  | .accepting => 1
  | .exhausted => 1
  | .dropping => 1
  | _ => 0

/-- The steps that are left to the round, when nothing more is accepted. -/
def AcceptPhase.rank : AcceptPhase → Nat
  | .outside => 0
  | .accepting => 5
  | .accepted _ _ => 6
  | .exhausted => 4
  | .dropping => 3
  | .dropped _ _ => 2
  | .reopening => 1

/-- The steps of `handle_read` in which no call fails for a reason of its own. -/
def AcceptEvent.isOwn : AcceptEvent → Bool
  | .readable => true
  | .accept4 => true
  | .deliver => true
  | .closeIdle => true
  | .acceptIdle => true
  | .closeAccepted => true
  | .reopen => true
  | _ => false

namespace Acceptor

/-- The descriptor that the next call gets. -/
def lowestFree (a : Acceptor) : Option Nat :=
  (List.range a.limit).find? fun fd => (a.table fd).isNone

def occupy (a : Acceptor) (fd : Nat) (d : Descriptor) : Acceptor :=
  { a with table := Function.update a.table fd (some d) }

/-- `close` by the acceptor. -/
def close (a : Acceptor) (fd : Nat) : Acceptor :=
  { a with table := Function.update a.table fd none, closes := a.closes ++ [a.table fd] }

/-- `idle_fd_ = open("/dev/null")`. -/
def openIdle (a : Acceptor) : Acceptor :=
  match a.lowestFree with
  | none => { a with idleFd := none }
  | some fd => { a.occupy fd .reserve with idleFd := some fd }

/-- The constructor; none when it aborts. -/
def new (table : Nat → Option Descriptor) (limit : Nat) (hasCallback : Bool) : Option Acceptor :=
  let a := openIdle { table, limit, hasCallback }
  a.lowestFree.map fun fd => a.occupy fd .listenSocket

def step (a : Acceptor) : AcceptEvent → Option Acceptor
  | .listen => if a.phase = .outside then some { a with listening := true } else none
  | .stopListening => if a.phase = .outside then some { a with listening := false } else none
  | .readable =>
      if a.phase = .outside ∧ a.listening then some { a with phase := .accepting } else none
  | .accept4 =>
      if a.phase = .accepting then
        match a.lowestFree, a.backlog with
        | none, _ => some { a with phase := .exhausted }
        | some _, [] => some { a with phase := .outside }
        | some fd, id :: rest =>
            some { a.occupy fd (.connection id) with backlog := rest, phase := .accepted fd id }
      else none
  | .acceptError => if a.phase = .accepting then some { a with phase := .outside } else none
  | .deliver =>
      match a.phase with
      | .accepted fd id =>
          if a.hasCallback then some { a with handed := a.handed ++ [id], phase := .accepting }
          else some { a.close fd with discarded := a.discarded ++ [id], phase := .accepting }
      | _ => none
  | .closeIdle =>
      if a.phase = .exhausted then
        match a.idleFd with
        | none => some { a with phase := .dropping }
        | some fd => some { a.close fd with phase := .dropping }
      else none
  | .acceptIdle =>
      if a.phase = .dropping then
        match a.lowestFree, a.backlog with
        | some fd, id :: rest =>
            some { a.occupy fd (.connection id) with
              backlog := rest, idleFd := some fd, phase := .dropped fd id }
        | _, _ => some { a with idleFd := none, phase := .reopening }
      else none
  | .acceptIdleError =>
      if a.phase = .dropping then some { a with idleFd := none, phase := .reopening } else none
  | .closeAccepted =>
      match a.phase with
      | .dropped fd id =>
          some { a.close fd with discarded := a.discarded ++ [id], phase := .reopening }
      | _ => none
  | .reopen => if a.phase = .reopening then some { a.openIdle with phase := .outside } else none
  | .reopenError =>
      if a.phase = .reopening then some { a with idleFd := none, phase := .outside } else none
  | .arrive id =>
      if id ∈ a.arrived then none
      else some { a with backlog := a.backlog ++ [id], arrived := a.arrived ++ [id] }
  | .openElsewhere => a.lowestFree.map fun fd => a.occupy fd .other
  | .closeElsewhere fd =>
      match a.table fd with
      | some .other => some { a with table := Function.update a.table fd none }
      | some (.connection id) =>
          if id ∈ a.handed then some { a with table := Function.update a.table fd none } else none
      | _ => none

def reserve (a : Acceptor) : Option Nat := if a.phase.keepsReserve then a.idleFd else none

theorem lowestFree_some {a : Acceptor} {fd : Nat} (h : a.lowestFree = some fd) :
    fd < a.limit ∧ a.table fd = none := by
  have hfree : (a.table fd).isNone = true := by simpa using List.find?_some h
  exact ⟨List.mem_range.mp (List.mem_of_find?_eq_some h), Option.isNone_iff_eq_none.mp hfree⟩

theorem lowestFree_ne_none {a : Acceptor} {fd : Nat} (hlow : fd < a.limit)
    (hfree : a.table fd = none) : a.lowestFree ≠ none := by
  intro hnone
  have hall := List.find?_eq_none.mp hnone fd (List.mem_range.mpr hlow)
  rw [hfree] at hall
  exact hall rfl

/-- What a step does, with the guard it passes. -/
inductive Effect (a : Acceptor) : AcceptEvent → Acceptor → Prop
  | listen (hphase : a.phase = .outside) : Effect a .listen { a with listening := true }
  | stopListening (hphase : a.phase = .outside) :
      Effect a .stopListening { a with listening := false }
  | readable (hphase : a.phase = .outside) : Effect a .readable { a with phase := .accepting }
  | full (hphase : a.phase = .accepting) (hfree : a.lowestFree = none) :
      Effect a .accept4 { a with phase := .exhausted }
  | drained (hphase : a.phase = .accepting) (hbacklog : a.backlog = []) :
      Effect a .accept4 { a with phase := .outside }
  | accept {fd id : Nat} {rest : List Nat} (hphase : a.phase = .accepting)
      (hfree : a.lowestFree = some fd) (hbacklog : a.backlog = id :: rest) :
      Effect a .accept4
        { a.occupy fd (.connection id) with backlog := rest, phase := .accepted fd id }
  | acceptError (hphase : a.phase = .accepting) : Effect a .acceptError { a with phase := .outside }
  | hand {fd id : Nat} (hphase : a.phase = .accepted fd id) :
      Effect a .deliver { a with handed := a.handed ++ [id], phase := .accepting }
  | refuse {fd id : Nat} (hphase : a.phase = .accepted fd id) :
      Effect a .deliver { a.close fd with discarded := a.discarded ++ [id], phase := .accepting }
  | noReserve (hphase : a.phase = .exhausted) (hidle : a.idleFd = none) :
      Effect a .closeIdle { a with phase := .dropping }
  | closeIdle {fd : Nat} (hphase : a.phase = .exhausted) (hidle : a.idleFd = some fd) :
      Effect a .closeIdle { a.close fd with phase := .dropping }
  | drop {fd id : Nat} {rest : List Nat} (hphase : a.phase = .dropping)
      (hfree : a.lowestFree = some fd) (hbacklog : a.backlog = id :: rest) :
      Effect a .acceptIdle { a.occupy fd (.connection id) with
        backlog := rest, idleFd := some fd, phase := .dropped fd id }
  | dropNothing (hphase : a.phase = .dropping) (hwhy : a.lowestFree = none ∨ a.backlog = []) :
      Effect a .acceptIdle { a with idleFd := none, phase := .reopening }
  | acceptIdleError (hphase : a.phase = .dropping) :
      Effect a .acceptIdleError { a with idleFd := none, phase := .reopening }
  | closeAccepted {fd id : Nat} (hphase : a.phase = .dropped fd id) :
      Effect a .closeAccepted
        { a.close fd with discarded := a.discarded ++ [id], phase := .reopening }
  | reopenNothing (hphase : a.phase = .reopening) (hfree : a.lowestFree = none) :
      Effect a .reopen { a with idleFd := none, phase := .outside }
  | reopen {fd : Nat} (hphase : a.phase = .reopening) (hfree : a.lowestFree = some fd) :
      Effect a .reopen { a.occupy fd .reserve with idleFd := some fd, phase := .outside }
  | reopenError (hphase : a.phase = .reopening) :
      Effect a .reopenError { a with idleFd := none, phase := .outside }
  | arrive {id : Nat} (hnew : id ∉ a.arrived) :
      Effect a (.arrive id) { a with backlog := a.backlog ++ [id], arrived := a.arrived ++ [id] }
  | openElsewhere {fd : Nat} (hfree : a.lowestFree = some fd) :
      Effect a .openElsewhere (a.occupy fd .other)
  | closeElsewhere {fd : Nat} (htable : a.table fd = some .other ∨
      ∃ id, a.table fd = some (.connection id) ∧ id ∈ a.handed) :
      Effect a (.closeElsewhere fd) { a with table := Function.update a.table fd none }

theorem effect_of_step {a a' : Acceptor} {e : AcceptEvent} (h : a.step e = some a') :
    Effect a e a' := by
  cases e with
  | listen =>
      simp only [step] at h
      split at h
      · rename_i hphase
        cases h
        exact .listen hphase
      · cases h
  | stopListening =>
      simp only [step] at h
      split at h
      · rename_i hphase
        cases h
        exact .stopListening hphase
      · cases h
  | readable =>
      simp only [step] at h
      split at h
      · rename_i hphase
        cases h
        exact .readable hphase.1
      · cases h
  | accept4 =>
      simp only [step] at h
      split at h
      · rename_i hphase
        split at h
        · rename_i hfree
          cases h
          exact .full hphase hfree
        · rename_i hbacklog
          cases h
          exact .drained hphase hbacklog
        · rename_i hfree hbacklog
          cases h
          exact .accept hphase hfree hbacklog
      · cases h
  | acceptError =>
      simp only [step] at h
      split at h
      · rename_i hphase
        cases h
        exact .acceptError hphase
      · cases h
  | deliver =>
      simp only [step] at h
      split at h
      · rename_i hphase
        split at h
        · cases h
          exact .hand hphase
        · cases h
          exact .refuse hphase
      · cases h
  | closeIdle =>
      simp only [step] at h
      split at h
      · rename_i hphase
        split at h
        · rename_i hidle
          cases h
          exact .noReserve hphase hidle
        · rename_i hidle
          cases h
          exact .closeIdle hphase hidle
      · cases h
  | acceptIdle =>
      simp only [step] at h
      split at h
      · rename_i hphase
        split at h
        · rename_i hfree hbacklog
          cases h
          exact .drop hphase hfree hbacklog
        · rename_i hneither
          cases h
          refine .dropNothing hphase ?_
          cases hfree : a.lowestFree with
          | none => exact Or.inl rfl
          | some fd =>
              cases hbacklog : a.backlog with
              | nil => exact Or.inr rfl
              | cons id rest => exact (hneither fd id rest hfree hbacklog).elim
      · cases h
  | acceptIdleError =>
      simp only [step] at h
      split at h
      · rename_i hphase
        cases h
        exact .acceptIdleError hphase
      · cases h
  | closeAccepted =>
      simp only [step] at h
      split at h
      · rename_i hphase
        cases h
        exact .closeAccepted hphase
      · cases h
  | reopen =>
      simp only [step, openIdle] at h
      split at h
      · rename_i hphase
        split at h
        · rename_i hfree
          cases h
          exact .reopenNothing hphase hfree
        · rename_i hfree
          cases h
          exact .reopen hphase hfree
      · cases h
  | reopenError =>
      simp only [step] at h
      split at h
      · rename_i hphase
        cases h
        exact .reopenError hphase
      · cases h
  | arrive id =>
      simp only [step] at h
      split at h
      · cases h
      · rename_i hnew
        cases h
        exact .arrive hnew
  | openElsewhere =>
      obtain ⟨fd, hfree, rfl⟩ := Option.map_eq_some_iff.mp h
      exact .openElsewhere hfree
  | closeElsewhere fd =>
      simp only [step] at h
      split at h
      · rename_i htable
        cases h
        exact .closeElsewhere (Or.inl htable)
      · rename_i id htable
        split at h
        · rename_i hhanded
          cases h
          exact .closeElsewhere (Or.inr ⟨id, htable, hhanded⟩)
        · cases h
      · cases h

/-! ## The descriptors -/

/-- The table, for an acceptor with this reserve and this connection in hand, that
has handed over those connections. -/
structure Tidy (table : Nat → Option Descriptor) (limit : Nat) (reserve : Option Nat)
    (hand : Option (Nat × Nat)) (handed : List Nat) : Prop where
  reserveAt : ∀ fd, table fd = some .reserve ↔ reserve = some fd
  reserveLow : ∀ fd, reserve = some fd → fd < limit
  inHand : ∀ fd id, hand = some (fd, id) →
    table fd = some (.connection id) ∧ fd < limit ∧ id ∉ handed
  connections : ∀ fd id, table fd = some (.connection id) → id ∈ handed ∨ hand = some (fd, id)

namespace Tidy

variable {table : Nat → Option Descriptor} {limit fd id : Nat} {reserve : Option Nat}
  {hand : Option (Nat × Nat)} {handed : List Nat}

theorem ne_reserve (h : Tidy table limit reserve hand handed) (hfd : table fd ≠ some .reserve) :
    reserve ≠ some fd :=
  fun heq => hfd ((h.reserveAt fd).mpr heq)

theorem ne_hand (h : Tidy table limit reserve hand handed)
    (hfd : ∀ id, table fd = some (.connection id) → id ∈ handed) (id : Nat) :
    hand ≠ some (fd, id) := by
  intro heq
  obtain ⟨htable, -, hnot⟩ := h.inHand fd id heq
  exact hnot (hfd id htable)

/-- Nothing changes but the entry of a descriptor that the acceptor does not hold. -/
theorem elsewhere (h : Tidy table limit reserve hand handed) (hreserve : reserve ≠ some fd)
    (hhand : ∀ id, hand ≠ some (fd, id)) {d : Option Descriptor} (hd : d ≠ some .reserve)
    (hconn : ∀ id, d ≠ some (.connection id)) :
    Tidy (Function.update table fd d) limit reserve hand handed := by
  refine ⟨fun fd' => ?_, h.reserveLow, fun fd' id hid => ?_, fun fd' id hid => ?_⟩
  · by_cases heq : fd' = fd
    · rw [heq, Function.update_self]
      exact iff_of_false hd hreserve
    · rw [Function.update_of_ne heq]
      exact h.reserveAt fd'
  · have hne : fd' ≠ fd := fun heq => hhand id (heq ▸ hid)
    rw [Function.update_of_ne hne]
    exact h.inHand fd' id hid
  · by_cases heq : fd' = fd
    · rw [heq, Function.update_self] at hid
      exact (hconn id hid).elim
    · rw [Function.update_of_ne heq] at hid
      exact h.connections fd' id hid

/-- The reserve is opened. -/
theorem takeReserve (h : Tidy table limit none hand handed) (hlow : fd < limit)
    (hhand : ∀ id, hand ≠ some (fd, id)) :
    Tidy (Function.update table fd (some .reserve)) limit (some fd) hand handed := by
  refine ⟨fun fd' => ?_, fun fd' hfd' => ?_, fun fd' id hid => ?_, fun fd' id hid => ?_⟩
  · by_cases heq : fd' = fd
    · rw [heq, Function.update_self]
      exact iff_of_true rfl rfl
    · rw [Function.update_of_ne heq, h.reserveAt fd']
      exact iff_of_false (Option.some_ne_none fd').symm fun hsome => heq (Option.some.inj hsome).symm
  · exact Option.some.inj hfd' ▸ hlow
  · have hne : fd' ≠ fd := fun heq => hhand id (heq ▸ hid)
    rw [Function.update_of_ne hne]
    exact h.inHand fd' id hid
  · by_cases heq : fd' = fd
    · rw [heq, Function.update_self] at hid
      cases hid
    · rw [Function.update_of_ne heq] at hid
      exact h.connections fd' id hid

/-- The reserve is closed. -/
theorem leaveReserve (h : Tidy table limit (some fd) hand handed) :
    Tidy (Function.update table fd none) limit none hand handed := by
  have htable := (h.reserveAt fd).mpr rfl
  refine ⟨fun fd' => ?_, fun fd' hfd' => ?_, fun fd' id hid => ?_, fun fd' id hid => ?_⟩
  · refine iff_of_false (fun hfd' => ?_) (Option.some_ne_none fd').symm
    by_cases heq : fd' = fd
    · rw [heq, Function.update_self] at hfd'
      cases hfd'
    · rw [Function.update_of_ne heq, h.reserveAt fd'] at hfd'
      exact heq (Option.some.inj hfd').symm
  · cases hfd'
  · obtain ⟨hbefore, hrest⟩ := h.inHand fd' id hid
    have hne : fd' ≠ fd := by
      intro heq
      rw [heq, htable] at hbefore
      cases hbefore
    rw [Function.update_of_ne hne]
    exact ⟨hbefore, hrest⟩
  · by_cases heq : fd' = fd
    · rw [heq, Function.update_self] at hid
      cases hid
    · rw [Function.update_of_ne heq] at hid
      exact h.connections fd' id hid

/-- A connection is accepted. -/
theorem takeConnection (h : Tidy table limit reserve none handed) (hlow : fd < limit)
    (hreserve : reserve ≠ some fd) (hid : id ∉ handed) :
    Tidy (Function.update table fd (some (.connection id))) limit reserve (some (fd, id)) handed := by
  refine ⟨fun fd' => ?_, h.reserveLow, fun fd' id' heq => ?_, fun fd' id' htable => ?_⟩
  · by_cases heq : fd' = fd
    · rw [heq, Function.update_self]
      exact iff_of_false (fun h => by cases h) hreserve
    · rw [Function.update_of_ne heq]
      exact h.reserveAt fd'
  · cases heq
    exact ⟨Function.update_self .., hlow, hid⟩
  · by_cases heq : fd' = fd
    · rw [heq, Function.update_self] at htable
      cases htable
      exact Or.inr (by rw [heq])
    · rw [Function.update_of_ne heq] at htable
      refine (h.connections fd' id' htable).imp_right fun hnone => ?_
      cases hnone

/-- The connection goes to the callback. -/
theorem handOver (h : Tidy table limit reserve (some (fd, id)) handed) :
    Tidy table limit reserve none (handed ++ [id]) := by
  refine ⟨h.reserveAt, h.reserveLow, fun fd' id' hnone => ?_, fun fd' id' htable => ?_⟩
  · cases hnone
  · refine Or.inl (List.mem_append.mpr ?_)
    refine (h.connections fd' id' htable).imp_right fun heq => ?_
    cases heq
    exact List.mem_singleton_self id

/-- The connection is closed. -/
theorem leaveConnection (h : Tidy table limit reserve (some (fd, id)) handed) :
    Tidy (Function.update table fd none) limit reserve none handed := by
  obtain ⟨hopen, -, -⟩ := h.inHand fd id rfl
  refine ⟨fun fd' => ?_, h.reserveLow, fun fd' id' hnone => ?_, fun fd' id' htable => ?_⟩
  · by_cases heq : fd' = fd
    · rw [heq, Function.update_self]
      refine iff_of_false (Option.some_ne_none _).symm fun hsome => ?_
      rw [(h.reserveAt fd).mpr hsome] at hopen
      cases hopen
    · rw [Function.update_of_ne heq]
      exact h.reserveAt fd'
  · cases hnone
  · by_cases heq : fd' = fd
    · rw [heq, Function.update_self] at htable
      cases htable
    · rw [Function.update_of_ne heq] at htable
      refine (h.connections fd' id' htable).imp_right fun hsome => ?_
      exact (heq (congrArg Prod.fst (Option.some.inj hsome)).symm).elim

end Tidy

/-- The invariant. Every connection that has arrived is in one place, and the
acceptor has closed nothing but its reserve and connections that it discards. -/
structure Sound (a : Acceptor) : Prop where
  tidy : Tidy a.table a.limit a.reserve a.phase.hand a.handed
  conserved : (a.arrived : Multiset Nat) = a.backlog + a.phase.held + a.handed + a.discarded
  nodup : a.arrived.Nodup
  closed : ∀ d ∈ a.closes, d = some .reserve ∨ ∃ id ∈ a.discarded, d = some (.connection id)

variable {a a' : Acceptor}

theorem sound_new {table : Nat → Option Descriptor} {limit : Nat} {hasCallback : Bool}
    (hbefore : ∀ fd d, table fd = some d → d = .other)
    (h : new table limit hasCallback = some a) :
    Sound a ∧ a.phase = .outside ∧ a.idleFd ≠ none := by
  have hbase : Tidy table limit none none [] := by
    refine ⟨fun fd => ?_, fun fd h => ?_, fun fd id h => ?_, fun fd id h => ?_⟩
    · refine iff_of_false (fun h => ?_) (Option.some_ne_none fd).symm
      cases hbefore fd _ h
    · cases h
    · cases h
    · cases hbefore fd _ h
  simp only [new, openIdle] at h
  split at h
  · rename_i hnone
    obtain ⟨sock, hsock, -⟩ := Option.map_eq_some_iff.mp h
    exact (Option.some_ne_none sock (hsock.symm.trans hnone)).elim
  · rename_i idle hidle
    obtain ⟨sock, hsock, rfl⟩ := Option.map_eq_some_iff.mp h
    obtain ⟨-, hfree⟩ := lowestFree_some hsock
    have hopened := hbase.takeReserve (lowestFree_some hidle).1 fun id => (Option.some_ne_none _).symm
    have hne : some idle ≠ some sock := by
      refine hopened.ne_reserve ?_
      rw [show Function.update table idle (some .reserve) sock = none from hfree]
      exact (Option.some_ne_none _).symm
    refine ⟨⟨?_, rfl, List.nodup_nil, fun d hd => ?_⟩, rfl, Option.some_ne_none idle⟩
    · exact hopened.elsewhere hne (fun id => (Option.some_ne_none _).symm) (fun h => by cases h)
        fun id h => by cases h
    · cases hd

theorem Sound.fresh (h : Sound a) {id : Nat} {rest : List Nat} (hbacklog : a.backlog = id :: rest) :
    id ∉ a.handed := by
  have hcount := Multiset.nodup_iff_count_le_one.mp (Multiset.coe_nodup.mpr h.nodup) id
  rw [h.conserved, hbacklog] at hcount
  simp only [Multiset.count_add, Multiset.coe_count, List.count_cons_self] at hcount
  exact List.count_eq_zero.mp (by omega)

/-- The acceptor closes a connection that it has not handed over. -/
theorem Sound.closed_discard (h : Sound a) {fd id : Nat} (hhand : a.phase.hand = some (fd, id)) :
    ∀ d ∈ (a.close fd).closes,
      d = some .reserve ∨ ∃ id' ∈ a.discarded ++ [id], d = some (.connection id') := by
  intro d hd
  rcases List.mem_append.mp hd with hd | hd
  · refine (h.closed d hd).imp_right fun hbefore => ?_
    obtain ⟨id', hid', hconn⟩ := hbefore
    exact ⟨id', List.mem_append_left _ hid', hconn⟩
  · obtain ⟨htable, -, -⟩ := h.tidy.inHand fd id hhand
    rw [List.mem_singleton.mp hd, htable]
    exact Or.inr ⟨id, List.mem_append_right _ (List.mem_singleton_self id), rfl⟩

theorem Sound.step (h : Sound a) {e : AcceptEvent} (hstep : a.step e = some a') : Sound a' := by
  have htidy := h.tidy
  have hconserved := h.conserved
  unfold reserve at htidy
  cases effect_of_step hstep with
  | listen hphase => exact ⟨h.tidy, h.conserved, h.nodup, h.closed⟩
  | stopListening hphase => exact ⟨h.tidy, h.conserved, h.nodup, h.closed⟩
  | readable hphase =>
      rw [hphase] at htidy hconserved
      exact ⟨htidy, hconserved, h.nodup, h.closed⟩
  | full hphase hfree =>
      rw [hphase] at htidy hconserved
      exact ⟨htidy, hconserved, h.nodup, h.closed⟩
  | drained hphase hbacklog =>
      rw [hphase] at htidy hconserved
      exact ⟨htidy, hconserved, h.nodup, h.closed⟩
  | @accept fd id rest hphase hfree hbacklog =>
      rw [hphase] at htidy hconserved
      obtain ⟨hlow, hnone⟩ := lowestFree_some hfree
      refine ⟨?_, ?_, h.nodup, h.closed⟩
      · refine htidy.takeConnection hlow (htidy.ne_reserve ?_) (h.fresh hbacklog)
        rw [hnone]
        exact (Option.some_ne_none _).symm
      · rw [hbacklog, ← Multiset.cons_coe, ← Multiset.singleton_add] at hconserved
        show (a.arrived : Multiset Nat) = rest + {id} + a.handed + a.discarded
        rw [hconserved, show AcceptPhase.held .accepting = 0 from rfl]
        abel
  | acceptError hphase =>
      rw [hphase] at htidy hconserved
      exact ⟨htidy, hconserved, h.nodup, h.closed⟩
  | @hand fd id hphase =>
      rw [hphase] at htidy hconserved
      refine ⟨htidy.handOver, ?_, h.nodup, h.closed⟩
      show (a.arrived : Multiset Nat) = a.backlog + 0 + (a.handed ++ [id] : List Nat) + a.discarded
      rw [hconserved, show AcceptPhase.held (.accepted fd id) = {id} from rfl, ← Multiset.coe_add,
        Multiset.coe_singleton]
      abel
  | @refuse fd id hphase =>
      have hhand : a.phase.hand = some (fd, id) := by
        rw [hphase]
        rfl
      have hclosed := h.closed_discard hhand
      rw [hphase] at htidy hconserved
      refine ⟨htidy.leaveConnection, ?_, h.nodup, hclosed⟩
      show (a.arrived : Multiset Nat) = a.backlog + 0 + a.handed + (a.discarded ++ [id] : List Nat)
      rw [hconserved, show AcceptPhase.held (.accepted fd id) = {id} from rfl, ← Multiset.coe_add,
        Multiset.coe_singleton]
      abel
  | noReserve hphase hidle =>
      rw [hphase, hidle] at htidy
      rw [hphase] at hconserved
      exact ⟨htidy, hconserved, h.nodup, h.closed⟩
  | @closeIdle fd hphase hidle =>
      rw [hphase, hidle] at htidy
      rw [hphase] at hconserved
      refine ⟨htidy.leaveReserve, hconserved, h.nodup, fun d hd => ?_⟩
      rcases List.mem_append.mp hd with hd | hd
      · exact h.closed d hd
      · rw [List.mem_singleton.mp hd]
        exact Or.inl ((htidy.reserveAt fd).mpr rfl)
  | @drop fd id rest hphase hfree hbacklog =>
      rw [hphase] at htidy hconserved
      obtain ⟨hlow, -⟩ := lowestFree_some hfree
      refine ⟨?_, ?_, h.nodup, h.closed⟩
      · exact htidy.takeConnection hlow (Option.some_ne_none fd).symm (h.fresh hbacklog)
      · rw [hbacklog, ← Multiset.cons_coe, ← Multiset.singleton_add] at hconserved
        show (a.arrived : Multiset Nat) = rest + {id} + a.handed + a.discarded
        rw [hconserved, show AcceptPhase.held .dropping = 0 from rfl]
        abel
  | dropNothing hphase hwhy =>
      rw [hphase] at htidy hconserved
      exact ⟨htidy, hconserved, h.nodup, h.closed⟩
  | acceptIdleError hphase =>
      rw [hphase] at htidy hconserved
      exact ⟨htidy, hconserved, h.nodup, h.closed⟩
  | @closeAccepted fd id hphase =>
      have hhand : a.phase.hand = some (fd, id) := by
        rw [hphase]
        rfl
      have hclosed := h.closed_discard hhand
      rw [hphase] at htidy hconserved
      refine ⟨htidy.leaveConnection, ?_, h.nodup, hclosed⟩
      show (a.arrived : Multiset Nat) = a.backlog + 0 + a.handed + (a.discarded ++ [id] : List Nat)
      rw [hconserved, show AcceptPhase.held (.dropped fd id) = {id} from rfl, ← Multiset.coe_add,
        Multiset.coe_singleton]
      abel
  | reopenNothing hphase hfree =>
      rw [hphase] at htidy hconserved
      exact ⟨htidy, hconserved, h.nodup, h.closed⟩
  | @reopen fd hphase hfree =>
      rw [hphase] at htidy hconserved
      exact ⟨htidy.takeReserve (lowestFree_some hfree).1 fun id => (Option.some_ne_none _).symm,
        hconserved, h.nodup, h.closed⟩
  | reopenError hphase =>
      rw [hphase] at htidy hconserved
      exact ⟨htidy, hconserved, h.nodup, h.closed⟩
  | @arrive id hnew =>
      refine ⟨h.tidy, ?_, ?_, h.closed⟩
      · show ((a.arrived ++ [id] : List Nat) : Multiset Nat) =
          (a.backlog ++ [id] : List Nat) + a.phase.held + a.handed + a.discarded
        rw [← Multiset.coe_add, ← Multiset.coe_add, hconserved]
        abel
      · exact List.nodup_append.mpr ⟨h.nodup, List.nodup_singleton id, fun x hx y hy => by
          rw [List.mem_singleton.mp hy]
          exact fun heq => hnew (heq ▸ hx)⟩
  | @openElsewhere fd hfree =>
      obtain ⟨-, hnone⟩ := lowestFree_some hfree
      refine ⟨?_, h.conserved, h.nodup, h.closed⟩
      refine h.tidy.elsewhere (h.tidy.ne_reserve ?_) (h.tidy.ne_hand fun id hid => ?_)
        (fun heq => by cases heq) fun id heq => by cases heq
      · rw [hnone]
        exact (Option.some_ne_none _).symm
      · rw [hnone] at hid
        cases hid
  | @closeElsewhere fd htable =>
      refine ⟨?_, h.conserved, h.nodup, h.closed⟩
      refine h.tidy.elsewhere (h.tidy.ne_reserve fun heq => ?_) (h.tidy.ne_hand fun id hid => ?_)
        (Option.some_ne_none _).symm fun id => (Option.some_ne_none _).symm
      · obtain htable | ⟨id, htable, -⟩ := htable
        · rw [htable] at heq
          cases heq
        · rw [htable] at heq
          cases heq
      · obtain htable | ⟨id', htable, hhanded⟩ := htable
        · rw [htable] at hid
          cases hid
        · rw [htable] at hid
          cases hid
          exact hhanded

/-! ## Out of descriptors -/

/-- While the reserve is in use there is a free descriptor to take it back to. -/
def Spare (a : Acceptor) : Prop :=
  match a.phase with
  | .dropping => a.lowestFree ≠ none
  | .dropped _ _ => True
  | .reopening => a.lowestFree ≠ none
  | _ => a.idleFd ≠ none

/-- After the steps `es` of `handle_read`, from `pending` connections. -/
structure Draining (pending : Nat) (es : List AcceptEvent) (a : Acceptor) : Prop where
  sound : Sound a
  spare : Spare a
  drained : a.backlog = [] ∨ a.backlog.length + es.count .readable ≤ pending + a.phase.owed
  short : es.length + 2 * a.backlog.length + a.phase.rank ≤
    2 * pending + 6 * es.count .readable

/-- A step that starts no round. -/
theorem Draining.within {pending : Nat} {es : List AcceptEvent} (h : Draining pending es a)
    {e : AcceptEvent} (he : e ≠ .readable) (hstep : a.step e = some a') (hspare : Spare a')
    (hdrained : a'.backlog = [] ∨ a'.backlog.length + a.phase.owed ≤ a.backlog.length + a'.phase.owed)
    (hshort : 2 * a'.backlog.length + a'.phase.rank < 2 * a.backlog.length + a.phase.rank)
    (hnil : a.backlog = [] → a'.backlog = []) :
    Draining pending (es ++ [e]) a' := by
  have hcount : (es ++ [e]).count .readable = es.count .readable := by
    rw [List.count_append, List.count_singleton, if_neg (by simpa using he), Nat.add_zero]
  refine ⟨h.sound.step hstep, hspare, ?_, ?_⟩
  · rw [hcount]
    rcases h.drained with hbacklog | hbacklog
    · exact Or.inl (hnil hbacklog)
    · exact hdrained.imp_right fun hless => by omega
  · have := h.short
    rw [hcount, List.length_append, List.length_singleton]
    omega

theorem Draining.step {pending : Nat} {es : List AcceptEvent} (h : Draining pending es a)
    {e : AcceptEvent} (he : e.isOwn = true) (hstep : a.step e = some a') :
    Draining pending (es ++ [e]) a' := by
  have hspare := h.spare
  have hshort := h.short
  unfold Spare at hspare
  have heffect := effect_of_step hstep
  cases heffect with
  | readable hphase =>
      rw [hphase] at hspare hshort
      have hcount : (es ++ [AcceptEvent.readable]).count .readable = es.count .readable + 1 := by
        rw [List.count_append, List.count_singleton_self]
      refine ⟨h.sound.step hstep, hspare, h.drained.imp_right fun hless => ?_, ?_⟩
      · rw [hphase] at hless
        rw [hcount]
        exact Nat.succ_le_succ hless
      · rw [hcount, List.length_append, List.length_singleton]
        simp only [AcceptPhase.rank] at hshort ⊢
        omega
  | full hphase hfree =>
      rw [hphase] at hspare
      refine h.within (by decide) hstep hspare (Or.inr ?_) ?_ id <;> rw [hphase]
      · exact Nat.le_refl _
      · exact Nat.lt_succ_self _
  | drained hphase hbacklog =>
      rw [hphase] at hspare
      refine h.within (by decide) hstep hspare (Or.inl hbacklog) ?_ id
      rw [hphase]
      exact Nat.lt_add_of_pos_right (by decide)
  | @accept fd id rest hphase hfree hbacklog =>
      rw [hphase] at hspare
      refine h.within (by decide) hstep hspare (Or.inr ?_) ?_ fun hnil => ?_
      · rw [hphase, hbacklog]
        exact Nat.le_refl _
      · rw [hphase, hbacklog, List.length_cons]
        simp only [AcceptPhase.rank]
        omega
      · rw [hbacklog] at hnil
        cases hnil
  | @hand fd id hphase =>
      rw [hphase] at hspare
      refine h.within (by decide) hstep hspare (Or.inr ?_) ?_ fun hnil => hnil <;> rw [hphase]
      · exact Nat.le_succ _
      · exact Nat.lt_succ_self _
  | @refuse fd id hphase =>
      rw [hphase] at hspare
      refine h.within (by decide) hstep hspare (Or.inr ?_) ?_ fun hnil => hnil <;> rw [hphase]
      · exact Nat.le_succ _
      · exact Nat.lt_succ_self _
  | noReserve hphase hidle =>
      rw [hphase] at hspare
      exact (hspare hidle).elim
  | @closeIdle fd hphase hidle =>
      have hlow : fd < a.limit := by
        refine h.sound.tidy.reserveLow fd ?_
        rw [reserve, hphase]
        exact hidle
      refine h.within (by decide) hstep ?_ (Or.inr ?_) ?_ id
      · exact lowestFree_ne_none hlow (Function.update_self ..)
      · rw [hphase]
        exact Nat.le_refl _
      · rw [hphase]
        exact Nat.lt_succ_self _
  | @drop fd id rest hphase hfree hbacklog =>
      refine h.within (by decide) hstep trivial (Or.inr ?_) ?_ fun hnil => ?_
      · rw [hphase, hbacklog]
        exact Nat.le_refl _
      · rw [hphase, hbacklog, List.length_cons]
        simp only [AcceptPhase.rank]
        omega
      · rw [hbacklog] at hnil
        cases hnil
  | dropNothing hphase hwhy =>
      rw [hphase] at hspare
      refine h.within (by decide) hstep hspare (Or.inl (hwhy.resolve_left hspare)) ?_ id
      rw [hphase]
      exact Nat.lt_add_of_pos_right Nat.two_pos
  | @closeAccepted fd id hphase =>
      obtain ⟨-, hlow, -⟩ := h.sound.tidy.inHand fd id (by rw [hphase]; rfl)
      refine h.within (by decide) hstep ?_ (Or.inr ?_) ?_ fun hnil => hnil
      · exact lowestFree_ne_none hlow (Function.update_self ..)
      · rw [hphase]
        exact Nat.le_refl _
      · rw [hphase]
        exact Nat.lt_succ_self _
  | reopenNothing hphase hfree =>
      rw [hphase] at hspare
      exact (hspare hfree).elim
  | @reopen fd hphase hfree =>
      refine h.within (by decide) hstep (Option.some_ne_none fd) (Or.inr ?_) ?_ id
      · rw [hphase]
        exact Nat.le_refl _
      · rw [hphase]
        exact Nat.lt_succ_self _
  | _ => cases he

/-- A round that is not over takes its next step. -/
theorem goes_on (hphase : a.phase ≠ .outside) :
    ∃ e, e.isOwn = true ∧ e ≠ .readable ∧ a.step e ≠ none := by
  cases h : a.phase with
  | outside => exact (hphase h).elim
  | accepting =>
      refine ⟨.accept4, rfl, by decide, ?_⟩
      simp only [Acceptor.step, h, ↓reduceIte]
      split <;> exact Option.some_ne_none _
  | accepted fd id =>
      refine ⟨.deliver, rfl, by decide, ?_⟩
      simp only [Acceptor.step, h]
      split <;> exact Option.some_ne_none _
  | exhausted =>
      refine ⟨.closeIdle, rfl, by decide, ?_⟩
      simp only [Acceptor.step, h, ↓reduceIte]
      split <;> exact Option.some_ne_none _
  | dropping =>
      refine ⟨.acceptIdle, rfl, by decide, ?_⟩
      simp only [Acceptor.step, h, ↓reduceIte]
      split <;> exact Option.some_ne_none _
  | dropped fd id =>
      refine ⟨.closeAccepted, rfl, by decide, ?_⟩
      simp only [Acceptor.step, h]
      exact Option.some_ne_none _
  | reopening =>
      refine ⟨.reopen, rfl, by decide, ?_⟩
      simp only [Acceptor.step, h]
      exact Option.some_ne_none _

theorem stops (hphase : a.phase = .outside) {e : AcceptEvent} (he : e.isOwn = true)
    (hne : e ≠ .readable) : a.step e = none := by
  cases e with
  | readable => exact (hne rfl).elim
  | accept4 | deliver | closeIdle | acceptIdle | closeAccepted | reopen =>
      simp only [Acceptor.step, hphase, reduceCtorEq, ↓reduceIte]
  | _ => cases he

section Runs

variable {table : Nat → Option Descriptor} {limit : Nat} {hasCallback : Bool} {start : Acceptor}
  {es : List AcceptEvent}

theorem sound_run (hbefore : ∀ fd d, table fd = some d → d = .other)
    (hnew : new table limit hasCallback = some start)
    (hrun : Run step (fun _ _ => True) start es a) : Sound a := by
  apply hrun.invariant fun _ a => Sound a
  · exact (sound_new hbefore hnew).1
  · exact fun h _ hstep => h.step hstep

/-- **In every run each connection that has arrived is in one place**: in the backlog, in
hand, with the callback or closed. The acceptor closes nothing else but its
reserve, of which it has one at most; and outside of `handle_read` no connection is
open that the callback did not get. -/
theorem connections_accounted (hbefore : ∀ fd d, table fd = some d → d = .other)
    (hnew : new table limit hasCallback = some start)
    (hrun : Run step (fun _ _ => True) start es a) :
    a.arrived.Nodup ∧
      (a.arrived : Multiset Nat) = a.backlog + a.phase.held + a.handed + a.discarded ∧
      (∀ d ∈ a.closes, d = some .reserve ∨ ∃ id ∈ a.discarded, d = some (.connection id)) ∧
      (∀ fd fd', a.table fd = some .reserve → a.table fd' = some .reserve → fd = fd') ∧
      (a.phase = .outside → ∀ fd id, a.table fd = some (.connection id) → id ∈ a.handed) := by
  have hsound := sound_run hbefore hnew hrun
  refine ⟨hsound.nodup, hsound.conserved, hsound.closed, fun fd fd' h h' => ?_, ?_⟩
  · have hfd := (hsound.tidy.reserveAt fd).mp h
    have hfd' := (hsound.tidy.reserveAt fd').mp h'
    exact Option.some.inj (hfd.symm.trans hfd')
  · intro hphase fd id htable
    refine (hsound.tidy.connections fd id htable).resolve_right fun hhand => ?_
    rw [hphase] at hhand
    cases hhand

/-- Standard input, output and error. -/
def standard (fd : Nat) : Option Descriptor := if fd < 3 then some .other else none

theorem standard_other : ∀ fd d, standard fd = some d → d = .other := by
  intro fd d h
  unfold standard at h
  split at h
  · exact (Option.some.inj h).symm
  · cases h

/-- With six descriptors: another thread takes the last one while two clients connect. -/
def crowd : List AcceptEvent := [.listen, .arrive 10, .openElsewhere, .arrive 11]

/-- Two rounds, each of which drops a connection. -/
def dropBoth : List AcceptEvent :=
  [.readable, .accept4, .closeIdle, .acceptIdle, .closeAccepted, .reopen,
    .readable, .accept4, .closeIdle, .acceptIdle, .closeAccepted, .reopen]

theorem dropped_accounted : ∃ start a : Acceptor,
    new standard 6 true = some start ∧
      Run step (fun _ _ => True) start (crowd ++ dropBoth) a ∧
      a.closes = [some .reserve, some (.connection 10), some .reserve, some (.connection 11)] ∧
      ∀ fd id, a.table fd = some (.connection id) → id ∈ a.handed := by
  obtain ⟨start, a, hnew, hexec, hphase, hcloses⟩ : ∃ start a : Acceptor,
      new standard 6 true = some start ∧
        exec step (fun _ _ => true) (crowd ++ dropBoth) start = some a ∧
        a.phase = .outside ∧
        a.closes = [some .reserve, some (.connection 10), some .reserve, some (.connection 11)] :=
    ⟨_, _, rfl, rfl, rfl, rfl⟩
  have hrun := run_of_exec (fun _ _ _ => trivial) hexec
  have hall := connections_accounted standard_other hnew hrun
  exact ⟨start, a, hnew, hrun, hcloses, hall.2.2.2.2 hphase⟩

/-- **Out of descriptors, the backlog drains and the reserve survives.** As long as
other threads leave the descriptors alone and no call fails otherwise, a round
comes to an end, with the reserve open again, and either empties the backlog or
takes a connection from it. -/
theorem exhaustion_drains (hbefore : ∀ fd d, table fd = some d → d = .other)
    (hnew : new table limit hasCallback = some start)
    (hrun : Run step (fun _ _ => True) start es a) (hphase : a.phase = .outside)
    (hidle : a.idleFd ≠ none) {work : List AcceptEvent}
    (hwork : Run step (fun _ e => e.isOwn = true) a work a') :
    work.length ≤ 2 * a.backlog.length + 6 * work.count .readable ∧
      ((∀ e, e.isOwn = true → e ≠ .readable → a'.step e = none) →
        a'.phase = .outside ∧ a'.idleFd ≠ none ∧
          (a'.backlog = [] ∨ a'.backlog.length + work.count .readable ≤ a.backlog.length)) := by
  have hstart : Draining a.backlog.length [] a := by
    refine ⟨sound_run hbefore hnew hrun, ?_, Or.inr (Nat.le_add_right _ _), ?_⟩
    · rw [Spare, hphase]
      exact hidle
    · rw [hphase, List.length_nil, Nat.zero_add]
      exact Nat.le_add_right _ _
  have hdraining : Draining a.backlog.length work a' := by
    apply hwork.invariant fun es a' => Draining a.backlog.length es a'
    · exact hstart
    · exact fun h he hstep => h.step he hstep
  have hshort := hdraining.short
  refine ⟨by omega, fun hstuck => ?_⟩
  have hout : a'.phase = .outside := by
    by_contra hinside
    obtain ⟨e, hown, hne, hstep⟩ := goes_on hinside
    exact hstep (hstuck e hown hne)
  have hspare := hdraining.spare
  have hdrained := hdraining.drained
  rw [Spare, hout] at hspare
  rw [hout] at hdrained
  exact ⟨hout, hspare, hdrained⟩

theorem dropped_drains : ∃ start a a' : Acceptor,
    new standard 6 true = some start ∧ Run step (fun _ _ => True) start crowd a ∧
      Run step (fun _ e => e.isOwn = true) a dropBoth a' ∧
      a.backlog = [10, 11] ∧ a'.idleFd ≠ none ∧ a'.backlog.length + 2 ≤ 2 := by
  obtain ⟨start, a, a', hnew, hexec, hwork, hphase, hidle, hbacklog, hout⟩ :
      ∃ start a a' : Acceptor, new standard 6 true = some start ∧
        exec step (fun _ _ => true) crowd start = some a ∧
        exec step (fun _ e => e.isOwn) dropBoth a = some a' ∧
        a.phase = .outside ∧ a.idleFd = some 3 ∧ a.backlog = [10, 11] ∧ a'.phase = .outside :=
    ⟨_, _, _, rfl, rfl, rfl, rfl, rfl, rfl, rfl⟩
  have hrun := run_of_exec (fun _ _ _ => trivial) hexec
  have hrest := run_of_exec (fun _ _ h => h) hwork
  have hreserve : a.idleFd ≠ none := hidle ▸ Option.some_ne_none 3
  have hall := (exhaustion_drains standard_other hnew hrun hphase hreserve hrest).2
    fun e he hne => stops hout he hne
  refine ⟨start, a, a', hnew, hrun, hrest, hbacklog, hall.2.1, ?_⟩
  rcases hall.2.2 with hnil | hless
  · rw [hnil]
    exact Nat.le_refl _
  · rw [hbacklog] at hless
    exact hless

end Runs

end Acceptor

end SolarDrive.Network
