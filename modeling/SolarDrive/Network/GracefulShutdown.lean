import SolarDrive.Lib.Machine
import SolarDrive.Network.OutputStream

/-!
# Shutting down after sending

Other threads send and shut down through tasks of the loop; the state changes at
once, in the calling thread. A message is in flight from the check of `send` to
that of `send_in_loop`, and is dropped there when the state has changed between.
So the `FIN` follows everything that was accepted exactly when nothing is in
flight at the `compare_exchange` of `shutdown`.
-/

namespace SolarDrive.Network

open Lib Lib.Machine

/-- A message with the thread that sent it; the loop thread has no number. -/
abbrev Message : Type := Option Nat × Bytes

inductive SendTask where
  | send (message : Message)
  | shutdown

def SendTask.message : SendTask → Option Message
  | .send message => some message
  | .shutdown => none

structure Shutdown where
  conn : TcpConnection := .established
  /-- The tasks of the loop, in order. -/
  tasks : List SendTask := []
  /-- Messages of other threads, between the check and the push. -/
  sending : List Message := []
  /-- Other threads between the `compare_exchange` of `shutdown` and the push. -/
  shutting : Nat := 0
  /-- The message the loop thread is sending, before `send_in_loop` checks the state. -/
  current : Option Message := none
  /-- `handle_write` has called the completion callback and not returned. -/
  finishing : Bool := false
  /-- The messages that were sent while connected. -/
  accepted : List Message := []
  /-- The messages that were written or buffered. -/
  handed : List Message := []
  /-- What was in flight when `shutdown` changed the state. -/
  late : List Message := []

inductive ShutdownEvent where
  | send (thread : Nat) (bytes : Bytes)
  | push (thread : Nat)
  | shutdown
  | pushShutdown
  /-- `send` on the loop thread. -/
  | sendHere (bytes : Bytes)
  | shutdownHere
  /-- The next task. -/
  | task
  /-- `send_in_loop`, with what its write returns. -/
  | write (accepted : Option Nat)
  | writable (accepted : Option Nat)
  /-- The completion callback of `handle_write` returns. -/
  | finish

namespace Shutdown

/-- The messages whose second check is still to come. -/
def inFlight (q : Shutdown) : List Message :=
  q.current.toList ++ q.tasks.filterMap SendTask.message ++ q.sending

/-- `compare_exchange` from `kConnected` to `kDisconnecting`. -/
def exchange (q : Shutdown) : Shutdown :=
  { q with conn := { q.conn with state := .disconnecting }, late := q.inFlight }

def step (q : Shutdown) : ShutdownEvent → Option Shutdown
  | .send thread bytes =>
      if q.conn.isConnected then
        some { q with
          sending := q.sending ++ [(some thread, bytes)]
          accepted := q.accepted ++ [(some thread, bytes)] }
      else some q
  | .push thread =>
      match q.sending.find? (·.1 = some thread) with
      | some message =>
          some { q with
            sending := q.sending.eraseP (·.1 = some thread)
            tasks := q.tasks ++ [.send message] }
      | none => none
  | .shutdown =>
      if q.conn.isConnected then some { q.exchange with shutting := q.shutting + 1 } else some q
  | .pushShutdown =>
      if 0 < q.shutting then
        some { q with shutting := q.shutting - 1, tasks := q.tasks ++ [.shutdown] }
      else none
  | .sendHere bytes =>
      if q.current = none then
        if q.conn.isConnected then
          some { q with
            current := some (none, bytes), accepted := q.accepted ++ [(none, bytes)] }
        else some q
      else none
  | .shutdownHere =>
      if q.current = none then
        if q.conn.isConnected then
          some { q.exchange with conn := q.exchange.conn.shutdownInLoop }
        else some q
      else none
  | .task =>
      if q.current = none ∧ q.finishing = false then
        match q.tasks with
        | [] => none
        | .send message :: tasks =>
            some { q with
              tasks, current := if q.conn.isConnected then some message else none }
        | .shutdown :: tasks => some { q with tasks, conn := q.conn.shutdownInLoop }
      else none
  | .write accepted =>
      match q.current with
      | none => none
      | some message =>
          some { q with
            current := none
            conn := (q.conn.sendInLoop message.2 (.ofKernel accepted)).1
            handed := if q.conn.isConnected then q.handed ++ [message] else q.handed }
  | .writable accepted =>
      if q.current = none ∧ q.finishing = false then
        some { q with
          conn := (q.conn.handleWrite (.ofKernel accepted)).1
          finishing := (q.conn.handleWrite (.ofKernel accepted)).2 = .writeComplete }
      else none
  | .finish =>
      if q.current = none ∧ q.finishing = true then
        some { q with conn := q.conn.finishWrite, finishing := false }
      else none

/-- All that was accepted has been handed to the kernel, in the order of each thread. -/
def Delivered (q : Shutdown) : Prop :=
  q.conn.sent = (q.handed.map Prod.snd).flatten ∧
  ∀ thread, q.handed.filter (·.1 = thread) = q.accepted.filter (·.1 = thread)

structure Accounted (q : Shutdown) : Prop where
  flowing : q.conn.Flowing
  stream : q.conn.stream = (q.handed.map Prod.snd).flatten
  open_or : q.conn.state = .connected ∨ q.conn.state = .disconnecting
  connected : q.conn.state = .connected → q.conn.shutWr = false ∧
    ∀ thread, q.accepted.filter (·.1 = thread) =
      q.handed.filter (·.1 = thread) ++ q.inFlight.filter (·.1 = thread)
  disconnecting : q.conn.state = .disconnecting →
    (q.conn.shutWr = true → q.conn.outputBuffer.data = []) ∧
    ∀ thread, q.accepted.filter (·.1 = thread) =
      q.handed.filter (·.1 = thread) ++ q.late.filter (·.1 = thread)

/-- What waits in tasks and threads was not sent on the loop thread. -/
def Others (q : Shutdown) : Prop :=
  ∀ message ∈ q.tasks.filterMap SendTask.message ++ q.sending, message.1 ≠ none

section Steps

variable {q q' : Shutdown} {e : ShutdownEvent}

theorem Others.step (h : Others q) (hstep : step q e = some q') : Others q' := by
  have hkeep : ∀ {r : Shutdown}, r.tasks = q.tasks → r.sending = q.sending → Others r := by
    intro r htasks hsending
    unfold Others
    rw [htasks, hsending]
    exact h
  cases e with
  | send thread bytes =>
      unfold Shutdown.step at hstep
      dsimp only at hstep
      split at hstep
      · cases hstep
        intro message hmem
        rcases List.mem_append.mp hmem with hmem | hmem
        · exact h message (List.mem_append_left _ hmem)
        · rcases List.mem_append.mp hmem with hmem | hmem
          · exact h message (List.mem_append_right _ hmem)
          · rw [List.mem_singleton.mp hmem]
            nofun
      · cases hstep
        exact h
  | push thread =>
      unfold Shutdown.step at hstep
      dsimp only at hstep
      split at hstep
      · rename_i message hfind
        cases hstep
        intro other hmem
        rcases List.mem_append.mp hmem with hmem | hmem
        · rw [List.filterMap_append, List.mem_append] at hmem
          rcases hmem with hmem | hmem
          · exact h other (List.mem_append_left _ hmem)
          · have heq : other = message := by simpa [SendTask.message] using hmem
            rw [heq]
            exact h message (List.mem_append_right _ (List.mem_of_find?_eq_some hfind))
        · exact h other (List.mem_append_right _ (List.mem_of_mem_eraseP hmem))
      · cases hstep
  | shutdown =>
      unfold Shutdown.step at hstep
      dsimp only at hstep
      split at hstep
      · cases hstep
        exact hkeep rfl rfl
      · cases hstep
        exact h
  | pushShutdown =>
      simp only [Shutdown.step, Option.ite_none_right_eq_some, Option.some.injEq] at hstep
      obtain ⟨-, rfl⟩ := hstep
      unfold Others at h ⊢
      simpa [SendTask.message, List.filterMap_append] using h
  | sendHere bytes =>
      simp only [Shutdown.step, Option.ite_none_right_eq_some] at hstep
      obtain ⟨-, hstep⟩ := hstep
      split at hstep
      · cases hstep
        exact hkeep rfl rfl
      · cases hstep
        exact h
  | shutdownHere =>
      simp only [Shutdown.step, Option.ite_none_right_eq_some] at hstep
      obtain ⟨-, hstep⟩ := hstep
      split at hstep
      · cases hstep
        exact hkeep rfl rfl
      · cases hstep
        exact h
  | task =>
      simp only [Shutdown.step, Option.ite_none_right_eq_some] at hstep
      obtain ⟨-, hstep⟩ := hstep
      split at hstep
      · cases hstep
      · rename_i message tasks htasks
        cases hstep
        unfold Others at h ⊢
        rw [htasks] at h
        exact fun other hmem => h other (List.mem_cons_of_mem _ hmem)
      · rename_i tasks htasks
        cases hstep
        unfold Others at h ⊢
        rw [htasks] at h
        exact h
  | write accepted =>
      unfold Shutdown.step at hstep
      dsimp only at hstep
      split at hstep
      · cases hstep
      · cases hstep
        exact hkeep rfl rfl
  | writable accepted =>
      simp only [Shutdown.step, Option.ite_none_right_eq_some, Option.some.injEq] at hstep
      obtain ⟨-, rfl⟩ := hstep
      exact hkeep rfl rfl
  | finish =>
      simp only [Shutdown.step, Option.ite_none_right_eq_some, Option.some.injEq] at hstep
      obtain ⟨-, rfl⟩ := hstep
      exact hkeep rfl rfl

theorem filter_others (h : Others q) :
    (q.tasks.filterMap SendTask.message ++ q.sending).filter (·.1 = none) = [] := by
  rw [List.filter_eq_nil_iff]
  intro message hmem
  simpa using h message hmem

/-- The same connection, and the same messages in flight. -/
theorem Accounted.keep (h : Accounted q) (hconn : q'.conn = q.conn)
    (hhanded : q'.handed = q.handed) (haccepted : q'.accepted = q.accepted)
    (hlate : q'.late = q.late)
    (hflight : q.conn.state = .connected → ∀ thread,
      q'.inFlight.filter (·.1 = thread) = q.inFlight.filter (·.1 = thread)) : Accounted q' := by
  obtain ⟨hflowing, hstream, hopen, hconnected, hdisconnecting⟩ := h
  constructor
  · rwa [hconn]
  · rwa [hconn, hhanded]
  · rwa [hconn]
  · intro hstate
    rw [hconn] at hstate ⊢
    obtain ⟨hfin, haccounts⟩ := hconnected hstate
    refine ⟨hfin, fun thread => ?_⟩
    rw [haccepted, hhanded, hflight hstate]
    exact haccounts thread
  · intro hstate
    rw [hconn] at hstate ⊢
    rw [haccepted, hhanded, hlate]
    exact hdisconnecting hstate

theorem not_connected (hstate : q.conn.state = .disconnecting) : ¬ q.conn.isConnected = true := by
  simp [TcpConnection.isConnected, hstate]

theorem connected_of (hconn : q.conn.isConnected = true) : q.conn.state = .connected := by
  simpa [TcpConnection.isConnected] using hconn

/-- `shutdown_in_loop` performs `SHUT_WR` only when nothing is buffered. -/
theorem shutdownInLoop_frame (c : TcpConnection) :
    c.shutdownInLoop.state = c.state ∧ c.shutdownInLoop.stream = c.stream ∧
    (c.Flowing → c.shutdownInLoop.Flowing) ∧
    (c.shutdownInLoop.shutWr = true → c.shutWr = true ∨
      (c.state = .disconnecting ∧ c.outputBuffer.data = [])) ∧
    c.shutdownInLoop.outputBuffer = c.outputBuffer := by
  unfold TcpConnection.shutdownInLoop
  split
  · rename_i hdrained
    exact ⟨rfl, rfl, fun h => h,
      fun _ => Or.inr ⟨hdrained.1, TcpConnection.readableBytes_eq_zero.mp hdrained.2⟩, rfl⟩
  · exact ⟨rfl, rfl, fun h => h, fun h => Or.inl h, rfl⟩

theorem Accounted.shutdownInLoop (h : Accounted q) (hconn : q'.conn = q.conn.shutdownInLoop)
    (hhanded : q'.handed = q.handed) (haccepted : q'.accepted = q.accepted)
    (hlate : q'.late = q.late)
    (hflight : q.conn.state = .connected → ∀ thread,
      q'.inFlight.filter (·.1 = thread) = q.inFlight.filter (·.1 = thread)) : Accounted q' := by
  obtain ⟨hstate', hstream', hflowing', hfin', hbuffer'⟩ := shutdownInLoop_frame q.conn
  obtain ⟨hflowing, hstream, hopen, hconnected, hdisconnecting⟩ := h
  constructor
  · rw [hconn]
    exact hflowing' hflowing
  · rw [hconn, hhanded, hstream']
    exact hstream
  · rw [hconn, hstate']
    exact hopen
  · intro hstate
    rw [hconn, hstate'] at hstate
    obtain ⟨hfin, haccounts⟩ := hconnected hstate
    refine ⟨?_, fun thread => ?_⟩
    · rw [hconn]
      unfold TcpConnection.shutdownInLoop
      rw [if_neg fun hd => by rw [hd.1] at hstate; cases hstate]
      exact hfin
    · rw [haccepted, hhanded, hflight hstate]
      exact haccounts thread
  · intro hstate
    rw [hconn, hstate'] at hstate
    obtain ⟨hempty, haccounts⟩ := hdisconnecting hstate
    rw [hconn, haccepted, hhanded, hlate, hbuffer']
    refine ⟨fun hwr => ?_, haccounts⟩
    rcases hfin' hwr with hwr | ⟨-, hdrained⟩
    · exact hempty hwr
    · exact hdrained

theorem Accounted.exchange (h : Accounted q) (hconn : q.conn.isConnected = true) :
    Accounted q.exchange := by
  obtain ⟨hfin, haccounts⟩ := h.connected (connected_of hconn)
  refine ⟨h.flowing, h.stream, Or.inr rfl, nofun, fun _ => ⟨fun hwr => ?_, haccounts⟩⟩
  have hwr : q.conn.shutWr = true := hwr
  rw [hfin] at hwr
  cases hwr

/-- The same, by what the event does. -/
theorem Accounted.step (h : Accounted q) (ho : Others q) (hstep : step q e = some q') :
    Accounted q' := by
  cases e with
  | send thread bytes =>
      unfold Shutdown.step at hstep
      dsimp only at hstep
      split at hstep
      · rename_i hconn
        cases hstep
        obtain ⟨hfin, haccounts⟩ := h.connected (connected_of hconn)
        refine ⟨h.flowing, h.stream, h.open_or, fun hstate => ⟨hfin, fun thread' => ?_⟩,
          fun hstate => absurd hconn (not_connected hstate)⟩
        simp only [inFlight, ← List.append_assoc, List.filter_append, haccounts thread']
      · cases hstep
        exact h
  | push thread =>
      unfold Shutdown.step at hstep
      dsimp only at hstep
      split at hstep
      · rename_i message hfind
        cases hstep
        obtain ⟨hthread, front, back, hsending, hfront⟩ := List.find?_eq_some_iff_append.mp hfind
        have hthread : message.1 = some thread := of_decide_eq_true hthread
        have herase : q.sending.eraseP (·.1 = some thread) = front ++ back := by
          rw [hsending, List.eraseP_append_right _ (by simpa using hfront)]
          simp [hthread]
        -- the messages of this thread before the first one are none
        have hnone : ∀ thread', message.1 = thread' → front.filter (·.1 = thread') = [] := by
          rintro thread' rfl
          rw [List.filter_eq_nil_iff]
          intro other hmem
          rw [hthread]
          simpa using hfront other hmem
        refine h.keep rfl rfl rfl rfl fun _ thread' => ?_
        unfold inFlight
        dsimp only
        rw [herase, hsending]
        simp only [List.filterMap_append, List.filter_append, List.filterMap_cons, SendTask.message,
          List.filterMap_nil, List.filter_cons, List.filter_nil]
        by_cases heq : message.1 = thread'
        · simp [heq, hnone thread' heq]
        · simp [heq]
      · cases hstep
  | shutdown =>
      unfold Shutdown.step at hstep
      dsimp only at hstep
      split at hstep
      · rename_i hconn
        cases hstep
        exact (h.exchange hconn).keep rfl rfl rfl rfl fun _ _ => rfl
      · cases hstep
        exact h
  | pushShutdown =>
      simp only [Shutdown.step, Option.ite_none_right_eq_some, Option.some.injEq] at hstep
      obtain ⟨-, rfl⟩ := hstep
      refine h.keep rfl rfl rfl rfl fun _ thread => ?_
      simp [inFlight, SendTask.message, List.filterMap_append]
  | sendHere bytes =>
      simp only [Shutdown.step, Option.ite_none_right_eq_some] at hstep
      obtain ⟨hnone, hstep⟩ := hstep
      split at hstep
      · rename_i hconn
        cases hstep
        obtain ⟨hfin, haccounts⟩ := h.connected (connected_of hconn)
        refine ⟨h.flowing, h.stream, h.open_or, fun hstate => ⟨hfin, fun thread => ?_⟩,
          fun hstate => absurd hconn (not_connected hstate)⟩
        have hothers := filter_others ho
        have hold : q.inFlight = q.tasks.filterMap SendTask.message ++ q.sending := by
          simp [inFlight, hnone]
        have hnew : inFlight { q with
            current := some (none, bytes), accepted := q.accepted ++ [(none, bytes)] } =
            (none, bytes) :: q.inFlight := by
          rw [hold]
          rfl
        rw [hnew, List.filter_append, haccounts thread, hold]
        by_cases heq : thread = none
        · rw [heq, hothers]
          simp [hothers]
        · have hne : ¬ none = thread := fun h => heq h.symm
          simp [hne]
      · cases hstep
        exact h
  | shutdownHere =>
      simp only [Shutdown.step, Option.ite_none_right_eq_some] at hstep
      obtain ⟨hnone, hstep⟩ := hstep
      split at hstep
      · rename_i hconn
        cases hstep
        exact (h.exchange hconn).shutdownInLoop rfl rfl rfl rfl fun _ _ => rfl
      · cases hstep
        exact h
  | task =>
      simp only [Shutdown.step, Option.ite_none_right_eq_some] at hstep
      obtain ⟨⟨hnone, -⟩, hstep⟩ := hstep
      split at hstep
      · cases hstep
      · rename_i message tasks htasks
        cases hstep
        refine h.keep rfl rfl rfl rfl fun hstate thread => ?_
        have hconn : q.conn.isConnected = true := by simp [TcpConnection.isConnected, hstate]
        simp [inFlight, hnone, htasks, hconn, SendTask.message]
      · rename_i tasks htasks
        cases hstep
        refine h.shutdownInLoop rfl rfl rfl rfl fun _ thread => ?_
        simp only [inFlight, htasks]
        rfl
  | write accepted =>
      unfold Shutdown.step at hstep
      dsimp only at hstep
      split at hstep
      · cases hstep
      · rename_i message hcurrent
        cases hstep
        unfold TcpConnection.sendInLoop
        by_cases hconn : q.conn.isConnected = true
        · rw [if_pos hconn, if_pos hconn]
          obtain ⟨hstream, hflowing, -, -⟩ := TcpConnection.writeMessage_spec
            message.2 h.flowing (Sending.ofKernel_ne_error accepted)
          obtain ⟨hstate', hfin'⟩ :=
            TcpConnection.writeMessage_frame message.2 (.ofKernel accepted) q.conn
          obtain ⟨hfin, haccounts⟩ := h.connected (connected_of hconn)
          refine ⟨hflowing, ?_, Or.inl (hstate'.trans (connected_of hconn)),
            fun _ => ⟨hfin'.trans hfin, fun thread => ?_⟩, fun hstate => ?_⟩
          · dsimp only
            rw [hstream, h.stream, List.map_append, List.flatten_append]
            simp
          · have hflight : q.inFlight = [message] ++
                (q.tasks.filterMap SendTask.message ++ q.sending) := by
              simp [inFlight, hcurrent]
            rw [haccounts thread, hflight, List.filter_append, ← List.append_assoc,
              ← List.filter_append]
            rfl
          · have hstate : (q.conn.writeMessage message.2 (.ofKernel accepted)).1.state =
                .disconnecting := hstate
            rw [hstate', connected_of hconn] at hstate
            cases hstate
        · rw [if_neg hconn, if_neg hconn]
          refine h.keep rfl rfl rfl rfl fun hstate => absurd ?_ hconn
          simp [TcpConnection.isConnected, hstate]
  | writable accepted =>
      simp only [Shutdown.step, Option.ite_none_right_eq_some, Option.some.injEq] at hstep
      obtain ⟨-, rfl⟩ := hstep
      obtain ⟨hstream, hflowing, -, -⟩ :=
        TcpConnection.handleWrite_spec h.flowing (Sending.ofKernel_ne_error accepted)
      obtain ⟨hstate', hfin'⟩ := TcpConnection.handleWrite_frame (.ofKernel accepted) q.conn
      refine ⟨hflowing, hstream.trans h.stream, ?_, fun hstate => ?_, fun hstate => ?_⟩
      · rw [hstate']
        exact h.open_or
      · obtain ⟨hfin, haccounts⟩ := h.connected (hstate'.symm.trans hstate)
        exact ⟨hfin'.trans hfin, haccounts⟩
      · obtain ⟨hempty, haccounts⟩ := h.disconnecting (hstate'.symm.trans hstate)
        refine ⟨fun hwr => ?_, haccounts⟩
        have hdrained := hempty (hfin'.symm.trans hwr)
        dsimp only
        rw [TcpConnection.handleWrite_empty _ hdrained]
        exact hdrained
  | finish =>
      simp only [Shutdown.step, Option.ite_none_right_eq_some, Option.some.injEq] at hstep
      obtain ⟨-, rfl⟩ := hstep
      unfold TcpConnection.finishWrite
      split
      · exact h.shutdownInLoop rfl rfl rfl rfl fun _ _ => rfl
      · exact h.keep rfl rfl rfl rfl fun _ _ => rfl

end Steps

theorem accounted_run {es : List ShutdownEvent} {q : Shutdown}
    (hrun : Run step (fun _ _ => True) {} es q) : Accounted q := by
  have hinv : Accounted q ∧ Others q := by
    apply hrun.invariant fun _ q => Accounted q ∧ Others q
    · refine ⟨⟨⟨rfl, ?_⟩, ?_, Or.inl rfl, fun _ => ⟨rfl, fun _ => rfl⟩, nofun⟩, nofun⟩
      · simp [TcpConnection.established]
      · simp [TcpConnection.stream, TcpConnection.established]
    · exact fun h _ hstep => ⟨h.1.step h.2 hstep, h.2.step hstep⟩
  exact hinv.1

/-- `SHUT_WR` is performed after everything that was accepted exactly when nothing
was in flight at the `compare_exchange` of `shutdown`. -/
theorem delivered_exactly {es : List ShutdownEvent} {q : Shutdown}
    (hrun : Run step (fun _ _ => True) {} es q) (hfin : q.conn.shutWr = true) :
    Delivered q ↔ q.late = [] := by
  have h := accounted_run hrun
  have hstate : q.conn.state = .disconnecting := by
    rcases h.open_or with hstate | hstate
    · rw [(h.connected hstate).1] at hfin
      cases hfin
    · exact hstate
  obtain ⟨hempty, haccounts⟩ := h.disconnecting hstate
  constructor
  · rintro ⟨-, horder⟩
    rw [List.eq_nil_iff_forall_not_mem]
    intro message hmem
    have hall := haccounts message.1
    rw [horder message.1] at hall
    have hnone := List.append_right_eq_self.mp hall.symm
    have hin : message ∈ q.late.filter (·.1 = message.1) :=
      List.mem_filter.mpr ⟨hmem, by simp⟩
    rw [hnone] at hin
    cases hin
  · intro hlate
    refine ⟨?_, fun thread => ?_⟩
    · have hstream := h.stream
      unfold TcpConnection.stream at hstream
      rw [hempty hfin, List.append_nil] at hstream
      exact hstream
    · rw [haccounts thread, hlate, List.filter_nil, List.append_nil]

/-- Another thread sends and shuts down, and waits in between until its message is sent. -/
theorem delivered_in_turn : ∃ q, Run step (fun _ _ => True) {}
    [.send 1 [72, 73], .push 1, .sendHere [74], .write (some 0), .task, .write none, .shutdown,
      .writable (some 2), .pushShutdown, .task, .writable (some 5), .finish] q ∧
    q.conn.shutWr = true ∧ q.conn.sent = [74, 72, 73] ∧ Delivered q := by
  obtain ⟨q, hexec, hend⟩ := Option.map_eq_some_iff.mp
    (show (exec step (fun _ _ => true)
      [.send 1 [72, 73], .push 1, .sendHere [74], .write (some 0), .task, .write none, .shutdown,
      .writable (some 2), .pushShutdown, .task, .writable (some 5), .finish] {}).map
      (fun q => (q.conn.shutWr, q.conn.sent, q.late)) = some (true, [74, 72, 73], []) by decide +kernel)
  obtain ⟨hfin, hsent, hlate⟩ : q.conn.shutWr = true ∧ q.conn.sent = [74, 72, 73] ∧
      q.late = [] := by simpa using hend
  have hrun : Run step (fun _ _ => True) {} _ q := run_of_exec (fun _ _ _ => trivial) hexec
  exact ⟨q, hrun, hfin, hsent, (delivered_exactly hrun hfin).mpr hlate⟩

/-- Another thread sends a message and shuts down at once: the message is dropped
by its own task, and the `FIN` is sent without it. -/
theorem message_dropped : ∃ q, Run step (fun _ _ => True) {}
    [.send 1 [72, 73], .push 1, .shutdown, .pushShutdown, .task, .task] q ∧
    q.conn.shutWr = true ∧ q.accepted = [(some 1, [72, 73])] ∧ q.conn.stream = [] ∧
    ¬ Delivered q := by
  obtain ⟨q, hexec, hend⟩ := Option.map_eq_some_iff.mp
    (show (exec step (fun _ _ => true)
      [.send 1 [72, 73], .push 1, .shutdown, .pushShutdown, .task, .task] {}).map
      (fun q => (q.conn.shutWr && q.handed.isEmpty && q.conn.stream.isEmpty, q.accepted)) =
      some (true, [(some 1, [72, 73])]) by decide +kernel)
  obtain ⟨hfin, haccepted, hhanded, hstream⟩ : q.conn.shutWr = true ∧
      q.accepted = [(some 1, [72, 73])] ∧ q.handed = [] ∧ q.conn.stream = [] := by
    simp only [Prod.mk.injEq, Bool.and_eq_true, List.isEmpty_iff] at hend
    exact ⟨hend.1.1.1, hend.2, hend.1.1.2, hend.1.2⟩
  refine ⟨q, run_of_exec (fun _ _ _ => trivial) hexec, hfin, haccepted, hstream, ?_⟩
  rintro ⟨-, horder⟩
  have hone := horder (some 1)
  rw [hhanded, haccepted] at hone
  cases hone

end Shutdown

end SolarDrive.Network
