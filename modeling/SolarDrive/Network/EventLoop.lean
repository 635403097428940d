import SolarDrive.Lib.Machine

/-!
# The event loop

The loop thread polls, dispatches the callbacks of the channels and runs the
pending tasks; other threads push a task and then write the eventfd. A wakeup is
lost when nobody is going to write for a pending task: the start-up drain reads
what was written for it, or a pending task queues another one.
-/

namespace SolarDrive.Network

/-- Where the loop thread is in `loop`. -/
inductive LoopPhase where
  /-- Before or after `loop`. -/
  | outside
  /-- At the reads before the loop. -/
  | draining
  /-- At the exchange of `stop_`. -/
  | starting
  /-- At the head of the loop. -/
  | atHead
  | polling
  /-- In the callbacks of the channels; the eventfd is one of them that has yet to run. -/
  | dispatching (readable : Bool)
  /-- In `do_pending_tasks`: the task being run and those after it. -/
  | running (current : Option Nat) (rest : List Nat)
deriving DecidableEq

structure EventLoop where
  phase : LoopPhase := .outside
  pendingTasks : List Nat := []
  stop : Bool := false
  /-- The count of the eventfd. -/
  wakeupFd : Nat := 0
  /-- Other threads between their push and their `wakeup`. -/
  pushing : Nat := 0
  /-- Other threads between setting `stop_` and their `wakeup`. -/
  stopping : Nat := 0
deriving DecidableEq

inductive LoopEvent where
  /-- `queue_in_loop` or `run_in_loop` on another thread pushes a task. -/
  | push (task : Nat)
  /-- And then writes the eventfd. -/
  | wakeup
  /-- `stop` on another thread sets `stop_`. -/
  | requestStop
  | wakeupStop
  /-- `loop` is called. -/
  | enter
  /-- One read of the drain, which ends with the read that finds nothing. -/
  | drain
  | exchange
  /-- `while (!stop_)`. -/
  | check
  /-- `poll` returns. -/
  | activate (readable : Bool)
  /-- The callback of the eventfd. -/
  | handleRead
  /-- `queue_in_loop` on the loop thread. -/
  | queue (task : Nat)
  /-- `stop` on the loop thread. -/
  | stopHere
  | swap
  /-- The next of the tasks is run. -/
  | task
  /-- `do_pending_tasks` returns. -/
  | done
deriving DecidableEq

namespace EventLoop

/-- The loop thread is in code that calls `queue_in_loop` or `stop`. -/
def calling : LoopPhase → Bool
  | .outside => true
  | .dispatching _ => true
  | .running (some _) _ => true
  | _ => false

def step (q : EventLoop) : LoopEvent → Option EventLoop
  | .push t => some { q with pendingTasks := q.pendingTasks ++ [t], pushing := q.pushing + 1 }
  | .wakeup =>
      if 0 < q.pushing then
        some { q with pushing := q.pushing - 1, wakeupFd := q.wakeupFd + 1 }
      else none
  | .requestStop => some { q with stop := true, stopping := q.stopping + 1 }
  | .wakeupStop =>
      if 0 < q.stopping then
        some { q with stopping := q.stopping - 1, wakeupFd := q.wakeupFd + 1 }
      else none
  | .enter => if q.phase = .outside then some { q with phase := .draining } else none
  | .drain =>
      if q.phase = .draining then
        if 0 < q.wakeupFd then some { q with wakeupFd := 0 }
        else some { q with phase := .starting }
      else none
  | .exchange =>
      if q.phase = .starting then
        some { q with stop := false, phase := if q.stop then .outside else .atHead }
      else none
  | .check =>
      if q.phase = .atHead then
        some { q with phase := if q.stop then .outside else .polling }
      else none
  | .activate readable =>
      if q.phase = .polling ∧ (readable = true → 0 < q.wakeupFd) then
        some { q with phase := .dispatching readable }
      else none
  | .handleRead =>
      if q.phase = .dispatching true then
        some { q with phase := .dispatching false, wakeupFd := 0 }
      else none
  | .queue t =>
      if calling q.phase then some { q with pendingTasks := q.pendingTasks ++ [t] } else none
  | .stopHere => if calling q.phase then some { q with stop := true } else none
  | .swap =>
      if q.phase = .dispatching false then
        some { q with pendingTasks := [], phase := .running none q.pendingTasks }
      else none
  | .task =>
      match q.phase with
      | .running _ (t :: rest) => some { q with phase := .running (some t) rest }
      | _ => none
  | .done =>
      match q.phase with
      | .running _ [] => some { q with phase := .atHead }
      | _ => none

/-- The eventfd has been written, or a thread that has pushed a task is going to. -/
def Announced (q : EventLoop) : Prop := 0 < q.wakeupFd ∨ 0 < q.pushing

instance (q : EventLoop) : Decidable q.Announced := inferInstanceAs (Decidable (_ ∨ _))

def dispatching : LoopPhase → Bool
  | .dispatching _ => true
  | _ => false

def queues : LoopEvent → Bool
  | .queue _ => true
  | _ => false

/-- The loop thread queues a task in a callback of a channel, or while a wakeup
is announced; and the drain does not read the wakeup of a task. -/
def Careful (q : EventLoop) (e : LoopEvent) : Prop :=
  (queues e = true → dispatching q.phase = true ∨ q.Announced) ∧
  (e = .drain → 0 < q.wakeupFd → q.pendingTasks = [] ∨ 0 < q.pushing)

instance (q : EventLoop) (e : LoopEvent) : Decidable (q.Careful e) :=
  inferInstanceAs (Decidable ((_ → _ ∨ _) ∧ (_ → _ → _ ∨ _)))

/-- What holds wherever the loop thread may go to `poll` before it takes the tasks. -/
def Awake (q : EventLoop) : Prop :=
  dispatching q.phase = true ∨ (q.pendingTasks ≠ [] → q.Announced)

theorem Awake.step {q q' : EventLoop} {e : LoopEvent} (h : Awake q) (hcond : Careful q e)
    (hstep : step q e = some q') : Awake q' := by
  have hkeep : ∀ {r : EventLoop}, dispatching q.phase = false →
      r.pendingTasks = q.pendingTasks → r.wakeupFd = q.wakeupFd → r.pushing = q.pushing →
      Awake r := by
    intro r hphase htasks hfd hpushing
    rcases h with hin | h
    · rw [hphase] at hin
      cases hin
    · right
      unfold Announced at h ⊢
      rwa [htasks, hfd, hpushing]
  cases e with
  | push t =>
      cases hstep
      exact Or.inr fun _ => Or.inr (Nat.succ_pos _)
  | wakeup =>
      unfold EventLoop.step at hstep
      simp only [Option.ite_none_right_eq_some, Option.some.injEq] at hstep
      obtain ⟨-, rfl⟩ := hstep
      exact Or.inr fun _ => Or.inl (Nat.succ_pos _)
  | requestStop =>
      cases hstep
      exact h
  | wakeupStop =>
      unfold EventLoop.step at hstep
      simp only [Option.ite_none_right_eq_some, Option.some.injEq] at hstep
      obtain ⟨-, rfl⟩ := hstep
      exact Or.inr fun _ => Or.inl (Nat.succ_pos _)
  | enter =>
      unfold EventLoop.step at hstep
      simp only [Option.ite_none_right_eq_some, Option.some.injEq] at hstep
      obtain ⟨hphase, rfl⟩ := hstep
      exact hkeep (by rw [hphase]; rfl) rfl rfl rfl
  | drain =>
      unfold EventLoop.step at hstep
      simp only [Option.ite_none_right_eq_some] at hstep
      obtain ⟨hphase, hstep⟩ := hstep
      split at hstep
      · -- the wakeup is read off: what is pending has a push that is about to write
        rename_i hpos
        cases hstep
        right
        intro hne
        rcases hcond.2 rfl hpos with hnone | hpushing
        · exact absurd hnone hne
        · exact Or.inr hpushing
      · cases hstep
        exact hkeep (by rw [hphase]; rfl) rfl rfl rfl
  | exchange =>
      unfold EventLoop.step at hstep
      simp only [Option.ite_none_right_eq_some, Option.some.injEq] at hstep
      obtain ⟨hphase, rfl⟩ := hstep
      exact hkeep (by rw [hphase]; rfl) rfl rfl rfl
  | check =>
      unfold EventLoop.step at hstep
      simp only [Option.ite_none_right_eq_some, Option.some.injEq] at hstep
      obtain ⟨hphase, rfl⟩ := hstep
      exact hkeep (by rw [hphase]; rfl) rfl rfl rfl
  | activate readable =>
      unfold EventLoop.step at hstep
      simp only [Option.ite_none_right_eq_some, Option.some.injEq] at hstep
      obtain ⟨-, rfl⟩ := hstep
      exact Or.inl rfl
  | handleRead =>
      unfold EventLoop.step at hstep
      simp only [Option.ite_none_right_eq_some, Option.some.injEq] at hstep
      obtain ⟨-, rfl⟩ := hstep
      exact Or.inl rfl
  | queue t =>
      unfold EventLoop.step at hstep
      simp only [Option.ite_none_right_eq_some, Option.some.injEq] at hstep
      obtain ⟨-, rfl⟩ := hstep
      rcases hcond.1 rfl with hphase | hannounced
      · exact Or.inl hphase
      · exact Or.inr fun _ => hannounced
  | stopHere =>
      unfold EventLoop.step at hstep
      simp only [Option.ite_none_right_eq_some, Option.some.injEq] at hstep
      obtain ⟨-, rfl⟩ := hstep
      exact h
  | swap =>
      unfold EventLoop.step at hstep
      simp only [Option.ite_none_right_eq_some, Option.some.injEq] at hstep
      obtain ⟨-, rfl⟩ := hstep
      exact Or.inr fun hne => absurd rfl hne
  | task =>
      unfold EventLoop.step at hstep
      dsimp only at hstep
      split at hstep
      · rename_i hphase
        cases hstep
        exact hkeep (by rw [hphase]; rfl) rfl rfl rfl
      · cases hstep
  | done =>
      unfold EventLoop.step at hstep
      dsimp only at hstep
      split at hstep
      · rename_i hphase
        cases hstep
        exact hkeep (by rw [hphase]; rfl) rfl rfl rfl
      · cases hstep

open Lib.Machine

/-- While the loop thread is careful, there is a wakeup for the tasks that are
pending when it polls, or one of the threads that pushed them is about to write it. -/
theorem no_lost_wakeup {es : List LoopEvent} {q : EventLoop} (hrun : Run step Careful {} es q)
    (hpoll : q.phase = .polling) (hpending : q.pendingTasks ≠ []) : q.Announced := by
  have hawake : Awake q := by
    apply hrun.invariant fun _ q => Awake q
    · exact Or.inr fun hne => absurd rfl hne
    · exact fun h hcond hstep => h.step hcond hstep
  rcases hawake with hphase | hannounced
  · rw [hpoll] at hphase
    cases hphase
  · exact hannounced hpending

/-- A task queues another one in a batch, and a second thread has pushed one as well. -/
theorem wakeup_announced : ∃ q, Run step Careful {}
    [.requestStop, .enter, .wakeupStop, .drain, .drain, .exchange, .enter, .drain, .exchange,
      .check, .push 1, .wakeup, .activate true, .handleRead, .queue 2, .swap, .task, .push 3,
      .queue 4, .task, .done, .check] q ∧
    q.phase = .polling ∧ q.pendingTasks ≠ [] ∧ q.Announced := by
  have hexec : exec step (fun q e => decide (q.Careful e))
      [.requestStop, .enter, .wakeupStop, .drain, .drain, .exchange, .enter, .drain, .exchange,
      .check, .push 1, .wakeup, .activate true, .handleRead, .queue 2, .swap, .task, .push 3,
      .queue 4, .task, .done, .check] {} =
      some { phase := .polling, pendingTasks := [3, 4], pushing := 1 } := by decide
  have hrun := run_of_exec (fun q e h => of_decide_eq_true h) hexec
  exact ⟨_, hrun, rfl, nofun, no_lost_wakeup hrun rfl nofun⟩

/-- A task that queues another one, and a task pushed before the loop is started:
each is pending in `poll`, with nothing to end it. -/
theorem wakeup_lost :
    (∃ q, Run step (fun _ _ => True) {}
      [.enter, .drain, .exchange, .check, .push 1, .wakeup, .activate true, .handleRead, .swap,
        .task, .queue 2, .done, .check] q ∧
      q.phase = .polling ∧ q.stop = false ∧ q.pendingTasks = [2] ∧ ¬ q.Announced) ∧
    ∃ q, Run step (fun _ _ => True) {}
      [.push 1, .wakeup, .enter, .drain, .drain, .exchange, .check] q ∧
      q.phase = .polling ∧ q.stop = false ∧ q.pendingTasks = [1] ∧ ¬ q.Announced := by
  constructor
  · have hexec : exec step (fun _ _ => true)
        [.enter, .drain, .exchange, .check, .push 1, .wakeup, .activate true, .handleRead, .swap,
        .task, .queue 2, .done, .check] {} =
        some { phase := .polling, pendingTasks := [2] } := by decide
    exact ⟨_, run_of_exec (fun _ _ _ => trivial) hexec, rfl, rfl, rfl, by decide⟩
  · have hexec : exec step (fun _ _ => true)
        [.push 1, .wakeup, .enter, .drain, .drain, .exchange, .check] {} =
        some { phase := .polling, pendingTasks := [1] } := by decide
    exact ⟨_, run_of_exec (fun _ _ _ => trivial) hexec, rfl, rfl, rfl, by decide⟩

end EventLoop

end SolarDrive.Network
