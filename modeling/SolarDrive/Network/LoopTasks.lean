import SolarDrive.Network.EventLoop

/-!
# The tasks of a loop

Every task is queued once and taken once: what a loop has run, what is left of the
batch it runs and what is pending are, in this order, what has been queued.
-/

namespace SolarDrive.Network

namespace EventLoop

/-- What a step does, with what it needs. -/
inductive Moves (q : EventLoop) : LoopEvent → EventLoop → Prop
  | push (t : Nat) : Moves q (.push t)
      { q with pendingTasks := q.pendingTasks ++ [t], pushing := q.pushing + 1 }
  | wakeup : 0 < q.pushing → Moves q .wakeup
      { q with pushing := q.pushing - 1, wakeupFd := q.wakeupFd + 1 }
  | requestStop : Moves q .requestStop { q with stop := true, stopping := q.stopping + 1 }
  | wakeupStop : 0 < q.stopping → Moves q .wakeupStop
      { q with stopping := q.stopping - 1, wakeupFd := q.wakeupFd + 1 }
  | enter : q.phase = .outside → Moves q .enter { q with phase := .draining }
  | drained : q.phase = .draining → 0 < q.wakeupFd → Moves q .drain { q with wakeupFd := 0 }
  | drainEnds : q.phase = .draining → q.wakeupFd = 0 → Moves q .drain { q with phase := .starting }
  | exchange : q.phase = .starting → Moves q .exchange
      { q with stop := false, phase := if q.stop then .outside else .atHead }
  | check : q.phase = .atHead → Moves q .check
      { q with phase := if q.stop then .outside else .polling }
  | activate (readable : Bool) : q.phase = .polling → (readable = true → 0 < q.wakeupFd) →
      Moves q (.activate readable) { q with phase := .dispatching readable }
  | handleRead : q.phase = .dispatching true → Moves q .handleRead
      { q with phase := .dispatching false, wakeupFd := 0 }
  | queue (t : Nat) : calling q.phase = true → Moves q (.queue t)
      { q with pendingTasks := q.pendingTasks ++ [t] }
  | stopHere : calling q.phase = true → Moves q .stopHere { q with stop := true }
  | swap : q.phase = .dispatching false → Moves q .swap
      { q with pendingTasks := [], phase := .running none q.pendingTasks }
  | task (current : Option Nat) (t : Nat) (rest : List Nat) : q.phase = .running current (t :: rest) →
      Moves q .task { q with phase := .running (some t) rest }
  | done (current : Option Nat) : q.phase = .running current [] → Moves q .done
      { q with phase := .atHead }

variable {q q' : EventLoop} {e : LoopEvent}

theorem moves_of_step (h : q.step e = some q') : Moves q e q' := by
  cases e with
  | push t =>
      cases h
      exact .push t
  | wakeup =>
      obtain ⟨hguard, rfl⟩ := Option.ite_none_right_eq_some.mp h |>.imp_right Option.some.inj
      exact .wakeup hguard
  | requestStop =>
      cases h
      exact .requestStop
  | wakeupStop =>
      obtain ⟨hguard, rfl⟩ := Option.ite_none_right_eq_some.mp h |>.imp_right Option.some.inj
      exact .wakeupStop hguard
  | enter =>
      obtain ⟨hguard, rfl⟩ := Option.ite_none_right_eq_some.mp h |>.imp_right Option.some.inj
      exact .enter hguard
  | drain =>
      obtain ⟨hguard, h⟩ := Option.ite_none_right_eq_some.mp h
      split at h
      · rename_i hpos
        cases h
        exact .drained hguard hpos
      · rename_i hpos
        cases h
        exact .drainEnds hguard (Nat.eq_zero_of_not_pos hpos)
  | exchange =>
      obtain ⟨hguard, rfl⟩ := Option.ite_none_right_eq_some.mp h |>.imp_right Option.some.inj
      exact .exchange hguard
  | check =>
      obtain ⟨hguard, rfl⟩ := Option.ite_none_right_eq_some.mp h |>.imp_right Option.some.inj
      exact .check hguard
  | activate readable =>
      obtain ⟨hguard, rfl⟩ := Option.ite_none_right_eq_some.mp h |>.imp_right Option.some.inj
      exact .activate readable hguard.1 hguard.2
  | handleRead =>
      obtain ⟨hguard, rfl⟩ := Option.ite_none_right_eq_some.mp h |>.imp_right Option.some.inj
      exact .handleRead hguard
  | queue t =>
      obtain ⟨hguard, rfl⟩ := Option.ite_none_right_eq_some.mp h |>.imp_right Option.some.inj
      exact .queue t hguard
  | stopHere =>
      obtain ⟨hguard, rfl⟩ := Option.ite_none_right_eq_some.mp h |>.imp_right Option.some.inj
      exact .stopHere hguard
  | swap =>
      obtain ⟨hguard, rfl⟩ := Option.ite_none_right_eq_some.mp h |>.imp_right Option.some.inj
      exact .swap hguard
  | task =>
      rw [step] at h
      split at h
      · rename_i hphase
        cases h
        exact .task _ _ _ hphase
      · cases h
  | done =>
      rw [step] at h
      split at h
      · rename_i hphase
        cases h
        exact .done _ hphase
      · cases h

/-- The rest of the batch that is run. -/
def batch : LoopPhase → List Nat
  | .running _ rest => rest
  | _ => []

end EventLoop

/-- A loop with its tasks, as they are queued and as they are run. -/
structure LoopLedger where
  loop : EventLoop := {}
  queued : List Nat := []
  ran : List Nat := []

namespace LoopLedger

open EventLoop

def queuedBy : LoopEvent → List Nat
  | .push t | .queue t => [t]
  | _ => []

def ranBy (q : EventLoop) : LoopEvent → List Nat
  | .task => (batch q.phase).take 1
  | _ => []

def step (s : LoopLedger) (e : LoopEvent) : Option LoopLedger :=
  (s.loop.step e).map fun loop =>
    { loop, queued := s.queued ++ queuedBy e, ran := s.ran ++ ranBy s.loop e }

variable {s s' : LoopLedger} {e : LoopEvent} {es : List LoopEvent}

theorem step_eq (h : s.step e = some s') : Moves s.loop e s'.loop ∧
    s'.queued = s.queued ++ queuedBy e ∧ s'.ran = s.ran ++ ranBy s.loop e := by
  obtain ⟨loop, hloop, rfl⟩ := Option.map_eq_some_iff.mp h
  exact ⟨moves_of_step hloop, rfl, rfl⟩

/-- Nothing is lost, doubled or reordered. -/
def InOrder (s : LoopLedger) : Prop :=
  s.queued = s.ran ++ (batch s.loop.phase ++ s.loop.pendingTasks)

theorem InOrder.step (h : InOrder s) (hstep : s.step e = some s') : InOrder s' := by
  obtain ⟨hmoves, hqueued, hran⟩ := step_eq hstep
  rw [InOrder, hqueued, hran, h]
  generalize s'.loop = loop at hmoves
  cases hmoves with
  | push t => simp [queuedBy, ranBy, List.append_assoc]
  | queue t _ => simp [queuedBy, ranBy, List.append_assoc]
  | swap hphase => simp [queuedBy, ranBy, batch, hphase]
  | task current t rest hphase => simp [queuedBy, ranBy, batch, hphase]
  | done current hphase => simp [queuedBy, ranBy, batch, hphase]
  | exchange hphase => cases hstop : s.loop.stop <;> simp [queuedBy, ranBy, batch, hphase]
  | check hphase => cases hstop : s.loop.stop <;> simp [queuedBy, ranBy, batch, hphase]
  | enter hphase => simp [queuedBy, ranBy, batch, hphase]
  | drainEnds hphase _ => simp [queuedBy, ranBy, batch, hphase]
  | activate readable hphase _ => simp [queuedBy, ranBy, batch, hphase]
  | handleRead hphase => simp [queuedBy, ranBy, batch, hphase]
  | _ => simp [queuedBy, ranBy]

/-- The loop is where it will take the pending tasks before it tests `stop_`. -/
def beforeSwap : LoopPhase → Bool
  | .polling | .dispatching _ => true
  | _ => false

/-- Some tasks have been queued, and are run unless the loop is yet to take them. -/
structure Due (tasks : List Nat) (s : LoopLedger) : Prop where
  inOrder : InOrder s
  queued : tasks <+: s.queued
  ran : beforeSwap s.loop.phase = true ∨ tasks <+: s.ran ++ batch s.loop.phase

theorem Due.step {tasks : List Nat} (h : Due tasks s) (hstep : s.step e = some s') :
    Due tasks s' := by
  have hinOrder := h.inOrder.step hstep
  obtain ⟨hmoves, hqueued, hran⟩ := step_eq hstep
  refine ⟨hinOrder, hqueued ▸ h.queued.trans (List.prefix_append _ _), ?_⟩
  have hdue := h.ran
  -- outside of the batches, what is due has been run already
  have hkeep : ∀ {phase : LoopPhase}, beforeSwap s.loop.phase = false → batch s.loop.phase = [] →
      beforeSwap phase = true ∨ tasks <+: s.ran ++ batch phase := by
    intro phase hnot hnil
    rw [hnot, hnil, List.append_nil] at hdue
    exact .inr ((hdue.resolve_left Bool.false_ne_true).trans (List.prefix_append _ _))
  rw [hran]
  generalize s'.loop = loop at hmoves
  cases hmoves with
  | swap hphase =>
      right
      have hall := h.queued
      rw [h.inOrder, hphase] at hall
      simpa [ranBy, batch] using hall
  | task current t rest hphase =>
      rw [hphase] at hdue
      have hprefix := hdue.resolve_left Bool.false_ne_true
      right
      simpa [ranBy, batch, hphase] using hprefix
  | done current hphase =>
      rw [show ranBy s.loop .done = [] from rfl, List.append_nil]
      exact hkeep (by rw [hphase]; rfl) (by rw [hphase]; rfl)
  | enter hphase =>
      rw [show ranBy s.loop .enter = [] from rfl, List.append_nil]
      exact hkeep (by rw [hphase]; rfl) (by rw [hphase]; rfl)
  | drainEnds hphase _ =>
      rw [show ranBy s.loop .drain = [] from rfl, List.append_nil]
      exact hkeep (by rw [hphase]; rfl) (by rw [hphase]; rfl)
  | exchange hphase =>
      rw [show ranBy s.loop .exchange = [] from rfl, List.append_nil]
      exact hkeep (by rw [hphase]; rfl) (by rw [hphase]; rfl)
  | check hphase =>
      rw [show ranBy s.loop .check = [] from rfl, List.append_nil]
      exact hkeep (by rw [hphase]; rfl) (by rw [hphase]; rfl)
  | activate readable _ _ => exact .inl rfl
  | handleRead _ => exact .inl rfl
  | _ => simpa [ranBy] using hdue

open Lib.Machine

theorem inOrder_run (hrun : Run step (fun _ _ => True) {} es s) : InOrder s :=
  hrun.invariant (fun _ s => InOrder s) rfl fun h _ hstep => h.step hstep

/-- **Tasks run in the order in which they are queued, each once.** What has been queued when the
loop polls is run before `stop_` is tested again, and what a turn queues stays for the next. -/
theorem tasks_in_order (hrun : Run step (fun _ _ => True) {} es s) :
    s.queued = s.ran ++ (batch s.loop.phase ++ s.loop.pendingTasks) ∧
      (s.loop.phase = .polling → ∀ es' s', Run step (fun _ _ => True) s es' s' →
        s'.loop.phase = .atHead → s.queued <+: s'.ran) := by
  refine ⟨inOrder_run hrun, fun hpolling es' s' hturn hhead => ?_⟩
  have hstart : Due s.queued s := by
    refine ⟨inOrder_run hrun, List.prefix_refl _, ?_⟩
    rw [hpolling]
    exact .inl rfl
  have hdue : Due s.queued s' :=
    hturn.invariant (fun _ s' => Due s.queued s') hstart fun h _ hstep => h.step hstep
  have hran := hdue.ran
  rw [hhead] at hran
  simpa [beforeSwap, batch] using hran

/-- Task 1 is pushed before `poll` and queues task 2, which stays for the next turn. -/
theorem one_turn : ∃ s s' : LoopLedger, s.queued = [1] ∧ s.loop.phase = .polling ∧ s'.loop.phase = .atHead ∧
    s'.queued = [1, 2] ∧ s.queued <+: s'.ran := by
  obtain ⟨s, hs⟩ : ∃ s, exec step (fun _ _ => true) [.enter, .drain, .exchange, .check, .push 1,
      .wakeup] {} = some s := ⟨_, rfl⟩
  obtain ⟨s', hs'⟩ : ∃ s', exec step (fun _ _ => true) [.activate true, .handleRead, .swap, .task,
      .queue 2, .done] s = some s' := by
    cases hs
    exact ⟨_, rfl⟩
  have hrun : Run step (fun _ _ => True) {} _ s := run_of_exec (fun _ _ _ => trivial) hs
  have hturn : Run step (fun _ _ => True) s _ s' := run_of_exec (fun _ _ _ => trivial) hs'
  have hall := (tasks_in_order hrun).2
  cases hs
  cases hs'
  exact ⟨_, _, rfl, rfl, rfl, rfl, hall rfl _ _ hturn rfl⟩

end LoopLedger

end SolarDrive.Network
