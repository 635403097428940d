import Mathlib.Logic.Function.Basic
import SolarDrive.Lib.Machine
import SolarDrive.Network.ConnectionState

/-!
# Stopping the server

The main loop accepts connections and removes them, the IO loops establish, close
and destroy them; each runs its tasks in order. A connection that closes goes to
the main loop and back before it is destroyed. `stop_in_loop` closes what it finds
in `connections_` and then destroys the IO loops, so what is on that way at the
time is destroyed twice, on a loop that is gone, or not at all.
-/

namespace SolarDrive.Network

inductive MainTask where
  /-- `remove_connection_in_loop`. -/
  | remove (conn : Nat)
  /-- `connection_destroyed`, of a connection of the main loop. -/
  | destroyed (conn : Nat)
deriving DecidableEq

def MainTask.isRemove : MainTask → Bool
  | .remove _ => true
  | .destroyed _ => false

inductive IoTask where
  | established (conn : Nat)
  | destroyed (conn : Nat)
  /-- What `stop_in_loop` runs on the loop of a connection. -/
  | stopClose (conn : Nat)
deriving DecidableEq

def IoTask.isDestroyed : IoTask → Bool
  | .destroyed _ => true
  | .established _ | .stopClose _ => false

/-- Where the main loop is. -/
inductive ServerPhase where
  | running
  /-- `stop_in_loop` waits for the connections. -/
  | stopping
  /-- It joins the IO threads in `thread_pool_.reset()`. -/
  | resetting
  /-- It has returned. -/
  | stopped
deriving DecidableEq

structure ServerConn where
  /-- The IO loop; none is the main loop. -/
  loop : Option Nat := none
  state : ConnState := .disconnected
  /-- The close callback is `remove_connection`. -/
  removes : Bool := true
  /-- How often `connection_destroyed` has run. -/
  destroyed : Nat := 0

/-- The state is one that a close starts from. -/
def ServerConn.isOpen (conn : ServerConn) : Bool :=
  conn.state = .connected || conn.state = .disconnecting

structure TcpServer where
  threads : Nat
  nextIndex : Nat := 0
  started : Bool := true
  phase : ServerPhase := .running
  /-- The connections accepted so far are numbered. -/
  accepted : Nat := 0
  conn : Nat → ServerConn := fun _ => {}
  connections : List Nat := []
  main : List MainTask := []
  /-- The tasks of the IO loops, with their loops, in the order they were posted. -/
  io : List (Nat × IoTask) := []
  /-- The connections whose promises are not set. -/
  waiting : List Nat := []
  /-- A task was posted to a loop that had been destroyed. -/
  fault : Bool := false

inductive ServerEvent where
  | accept
  /-- `handle_close` on the loop of the connection. -/
  | close (conn : Nat)
  | ioTask (loop : Nat)
  | mainTask
  | stop
  /-- All promises are set. -/
  | closed
  /-- The IO threads are joined. -/
  | joined
deriving DecidableEq

namespace TcpServer

/-- The main loop runs its own events and tasks. -/
def free (q : TcpServer) : Bool := q.phase = .running || q.phase = .stopped

/-- The loop of a connection can dispatch its events. -/
def alive (c : Nat) (q : TcpServer) : Bool :=
  match (q.conn c).loop with
  | some _ => q.phase ≠ .stopped
  | none => q.free

def setConn (c : Nat) (conn : ServerConn) (q : TcpServer) : TcpServer :=
  { q with conn := Function.update q.conn c conn }

/-- `queue_in_loop` on an IO loop. -/
def post (k : Nat) (task : IoTask) (q : TcpServer) : TcpServer :=
  if q.phase = .stopped then { q with fault := true }
  else { q with io := q.io ++ [(k, task)] }

def newConnection (q : TcpServer) : TcpServer :=
  let c := q.accepted
  let q := { q with accepted := c + 1, connections := q.connections ++ [c] }
  if q.threads = 0 then q.setConn c { loop := none, state := .connected }
  else
    { q.setConn c { loop := some q.nextIndex, state := .connecting } with
      nextIndex := (q.nextIndex + 1) % q.threads }.post q.nextIndex (.established c)

def removeConnectionInLoop (c : Nat) (q : TcpServer) : TcpServer :=
  let q := { q with connections := q.connections.erase c }
  match (q.conn c).loop with
  | some k => q.post k (.destroyed c)
  | none => { q with main := q.main ++ [.destroyed c] }

/-- `remove_connection`, which runs at once on the main loop. -/
def removeConnection (c : Nat) (q : TcpServer) : TcpServer :=
  match (q.conn c).loop with
  | some _ => { q with main := q.main ++ [.remove c] }
  | none => q.removeConnectionInLoop c

def handleClose (c : Nat) (q : TcpServer) : TcpServer :=
  let conn := q.conn c
  let q := q.setConn c { conn with state := .disconnected }
  if conn.isOpen ∧ conn.removes then q.removeConnection c else q

def connectionDestroyed (c : Nat) (q : TcpServer) : TcpServer :=
  q.setConn c { q.conn c with
    state := if (q.conn c).isOpen then .disconnected else (q.conn c).state
    destroyed := (q.conn c).destroyed + 1 }

/-- The task of `stop_in_loop`: the callback is replaced, and the connection closed
and destroyed. -/
def stopClose (c : Nat) (q : TcpServer) : TcpServer :=
  let q := q.setConn c { q.conn c with removes := false }
  (if (q.conn c).isOpen then q.handleClose c else q).connectionDestroyed c

def stopConn (q : TcpServer) (c : Nat) : TcpServer :=
  match (q.conn c).loop with
  | some k => { q.post k (.stopClose c) with waiting := q.waiting ++ [c] }
  | none => q.stopClose c

/-- `stop_in_loop` up to the wait: the connections of the main loop are closed at
once, and tasks posted for the others. -/
def stopInLoop (q : TcpServer) : TcpServer :=
  q.connections.foldl stopConn { q with started := false, phase := .stopping, connections := [] }

def runMain (task : MainTask) (q : TcpServer) : TcpServer :=
  match task with
  | .remove c => q.removeConnectionInLoop c
  | .destroyed c => q.connectionDestroyed c

def runIo (task : IoTask) (q : TcpServer) : TcpServer :=
  match task with
  | .established c =>
      if (q.conn c).state = .connecting then q.setConn c { q.conn c with state := .connected }
      else q
  | .destroyed c => q.connectionDestroyed c
  | .stopClose c => { q.stopClose c with waiting := q.waiting.erase c }

def step (q : TcpServer) : ServerEvent → Option TcpServer
  | .accept =>
      if q.free then some (if q.started then q.newConnection else q) else none
  | .close c =>
      if c < q.accepted ∧ (q.conn c).isOpen ∧ q.alive c then some (q.handleClose c)
      else none
  | .ioTask k =>
      match q.io.find? (·.1 = k) with
      | some (_, task) =>
          if q.phase ≠ .stopped then
            some ({ q with io := q.io.eraseP (·.1 = k) }.runIo task)
          else none
      | none => none
  | .mainTask =>
      match q.main with
      | [] => none
      | task :: tasks => if q.free then some ({ q with main := tasks }.runMain task) else none
  | .stop => if q.free then some (if q.started then q.stopInLoop else q) else none
  | .closed =>
      if q.phase = .stopping ∧ q.waiting = [] then some { q with phase := .resetting } else none
  | .joined =>
      if q.phase = .resetting then some { q with phase := .stopped, io := [] } else none

/-- No removal is queued on the main loop when `stop_in_loop` begins, no connection
closes by itself while it waits, and no loop ends with a `connection_destroyed`. -/
def Settled (q : TcpServer) : ServerEvent → Prop
  | .stop => q.started = true → ∀ task ∈ q.main, task.isRemove = false
  | .close _ => q.phase = .running
  | .joined => ∀ entry ∈ q.io, entry.2.isDestroyed = false
  | _ => True

instance (q : TcpServer) : (e : ServerEvent) → Decidable (q.Settled e)
  | .stop => inferInstanceAs (Decidable (_ → _))
  | .close _ => inferInstanceAs (Decidable (_ = _))
  | .joined => inferInstanceAs (Decidable (∀ entry ∈ q.io, entry.2.isDestroyed = false))
  | .accept | .ioTask _ | .mainTask | .closed => inferInstanceAs (Decidable True)

/-! ## What is left to do for a connection -/

def up (q : TcpServer) (c : Nat) : Nat := if (q.conn c).state = .disconnected then 0 else 1

def removals (q : TcpServer) (c : Nat) : Nat := q.main.count (.remove c)

def mainDestroys (q : TcpServer) (c : Nat) : Nat := q.main.count (.destroyed c)

def ioDestroys (q : TcpServer) (c : Nat) : Nat := (q.io.map Prod.snd).count (.destroyed c)

def stopCloses (q : TcpServer) (c : Nat) : Nat := (q.io.map Prod.snd).count (.stopClose c)

/-- A connection is in one of the stages from its acceptance to its destruction. -/
structure Staged (q : TcpServer) (c : Nat) : Prop where
  balance : c < q.accepted →
    q.up c + q.removals c + q.mainDestroys c + q.ioDestroys c + (q.conn c).destroyed = 1
  listed : c < q.accepted → q.connections.count c = q.up c + q.removals c
  removes : c < q.accepted → (q.conn c).removes = true
  stopCloses : q.stopCloses c = 0
  fresh : q.accepted ≤ c → q.connections.count c = 0 ∧ q.removals c = 0 ∧ q.mainDestroys c = 0 ∧
    q.ioDestroys c = 0

/-- After `stop_in_loop` has begun a connection is destroyed, or will be by a task. -/
structure Stopped (q : TcpServer) : Prop where
  balance : ∀ c < q.accepted, q.stopCloses c + q.mainDestroys c + q.ioDestroys c +
    (q.conn c).destroyed = 1
  removals : ∀ c, q.removals c = 0
  waiting : ∀ c, q.waiting.count c = q.stopCloses c
  closed : q.phase ≠ .stopping → q.waiting = []
  ended : q.phase = .stopped → q.io = []

structure Orderly (q : TcpServer) : Prop where
  fault : q.fault = false
  started : q.started = true ↔ q.phase = .running
  staged : q.phase = .running → q.waiting = [] ∧ ∀ c, Staged q c
  stopped : q.phase ≠ .running → Stopped q

section Steps

variable {q q' : TcpServer} {e : ServerEvent} {c d : Nat} {conn : ServerConn}

@[simp] theorem setConn_conn (c d : Nat) (conn : ServerConn) (q : TcpServer) :
    (q.setConn c conn).conn d = if d = c then conn else q.conn d := by
  simp only [setConn, Function.update_apply]

theorem setConn_setConn (c : Nat) (conn conn' : ServerConn) (q : TcpServer) :
    (q.setConn c conn).setConn c conn' = q.setConn c conn' := by
  simp only [setConn, Function.update_idem]

/-- With its callback replaced, a connection that closes is not removed. -/
theorem stopClose_eq (q : TcpServer) (c : Nat) : ∃ state, q.stopClose c =
    q.setConn c ⟨(q.conn c).loop, state, false, (q.conn c).destroyed + 1⟩ := by
  unfold stopClose
  by_cases hopen : (q.conn c).isOpen
  · refine ⟨.disconnected, ?_⟩
    have hopen' : ({ q.conn c with removes := false } : ServerConn).isOpen = true := hopen
    simp [handleClose, connectionDestroyed, setConn_setConn, hopen']
  · refine ⟨(q.conn c).state, ?_⟩
    have hopen' : ({ q.conn c with removes := false } : ServerConn).isOpen = false :=
      Bool.eq_false_iff.mpr hopen
    simp [connectionDestroyed, setConn_setConn, hopen']

/-- The counts of a connection's tasks after a task of it. -/
theorem count_snoc {α : Type} [DecidableEq α] (tasks : List α) (task other : α) :
    (tasks ++ [task]).count other = tasks.count other + if task = other then 1 else 0 := by
  simp [List.count_append, List.count_singleton]

/-- Taking the first task of a loop. -/
theorem count_eraseP {io : List (Nat × IoTask)} {k l : Nat} {task : IoTask}
    (h : io.find? (·.1 = k) = some (l, task)) (other : IoTask) :
    ((io.eraseP (·.1 = k)).map Prod.snd).count other + (if task = other then 1 else 0) =
      (io.map Prod.snd).count other := by
  obtain ⟨hkey, front, back, hsplit, hfront⟩ := List.find?_eq_some_iff_append.mp h
  have herase : io.eraseP (·.1 = k) = front ++ back := by
    rw [hsplit, List.eraseP_append_right _ (by simpa using hfront)]
    simp only [decide_eq_true_eq] at hkey
    simp [hkey]
  rw [herase, hsplit]
  simp only [List.map_append, List.map_cons, List.count_append, List.count_cons, beq_iff_eq]
  omega

/-- What closing the connections one by one does. -/
structure StopEffect (q q' : TcpServer) (conns : List Nat) : Prop where
  phase : q'.phase = q.phase
  started : q'.started = q.started
  fault : q'.fault = q.fault
  main : q'.main = q.main
  accepted : q'.accepted = q.accepted
  closes : ∀ c, q'.stopCloses c + (q'.conn c).destroyed =
    q.stopCloses c + (q.conn c).destroyed + conns.count c
  waiting : ∀ c, q'.waiting.count c + q.stopCloses c = q.waiting.count c + q'.stopCloses c
  ioDestroys : ∀ c, q'.ioDestroys c = q.ioDestroys c

theorem StopEffect.refl (q : TcpServer) : StopEffect q q [] :=
  ⟨rfl, rfl, rfl, rfl, rfl, fun _ => by simp, fun _ => rfl, fun _ => rfl⟩

theorem StopEffect.trans {q'' : TcpServer} {conns conns' : List Nat} (h : StopEffect q q' conns)
    (h' : StopEffect q' q'' conns') : StopEffect q q'' (conns ++ conns') where
  phase := h'.phase.trans h.phase
  started := h'.started.trans h.started
  fault := h'.fault.trans h.fault
  main := h'.main.trans h.main
  accepted := h'.accepted.trans h.accepted
  closes c := by
    have h₁ := h.closes c
    have h₂ := h'.closes c
    rw [List.count_append]
    omega
  waiting c := by
    have h₁ := h.waiting c
    have h₂ := h'.waiting c
    omega
  ioDestroys c := (h'.ioDestroys c).trans (h.ioDestroys c)

theorem StopEffect.stopConn (hphase : q.phase ≠ .stopped) (c : Nat) :
    StopEffect q (q.stopConn c) [c] := by
  unfold TcpServer.stopConn
  split
  · simp only [post, if_neg hphase]
    refine ⟨rfl, rfl, rfl, rfl, rfl, fun d => ?_, fun d => ?_, fun d => ?_⟩
    · simp only [stopCloses, List.map_append, List.map_cons, List.map_nil, count_snoc,
        IoTask.stopClose.injEq, List.count_singleton, beq_iff_eq]
      omega
    · simp only [stopCloses, List.map_append, List.map_cons, List.map_nil, count_snoc,
        IoTask.stopClose.injEq]
      omega
    · simp [TcpServer.ioDestroys]
  · obtain ⟨state, heq⟩ := q.stopClose_eq c
    rw [heq]
    refine ⟨rfl, rfl, rfl, rfl, rfl, fun d => ?_, fun d => rfl, fun d => rfl⟩
    change q.stopCloses d + _ = _
    rw [setConn_conn, List.count_singleton]
    by_cases hd : d = c
    · subst hd
      simp
      omega
    · simp [hd, Ne.symm hd]

theorem StopEffect.foldl {conns : List Nat} : ∀ {q : TcpServer}, q.phase ≠ .stopped →
    StopEffect q (conns.foldl TcpServer.stopConn q) conns := by
  induction conns with
  | nil => exact fun _ => .refl _
  | cons c conns ih =>
      intro q hphase
      have hfirst := StopEffect.stopConn hphase c
      exact hfirst.trans (ih (hfirst.phase ▸ hphase))

/-- When no removal is on its way, a connection has been destroyed, is about to be,
or is in `connections_`. -/
theorem stopInLoop_stopped (h : ∀ c, Staged q c) (hwaiting : q.waiting = [])
    (hmain : ∀ task ∈ q.main, task.isRemove = false) : Stopped q.stopInLoop := by
  have heffect : StopEffect { q with started := false, phase := .stopping, connections := [] }
    q.stopInLoop q.connections := StopEffect.foldl nofun
  have hremovals : ∀ c, q.removals c = 0 := by
    refine fun c => List.count_eq_zero.mpr fun hmem => ?_
    have := hmain _ hmem
    cases this
  refine ⟨fun c hc => ?_, fun c => ?_, fun c => ?_, fun hne => ?_, fun hphase => ?_⟩
  · rw [heffect.accepted] at hc
    have hbalance := (h c).balance hc
    have hlisted := (h c).listed hc
    have hcloses := heffect.closes c
    have hio := heffect.ioDestroys c
    have hstopCloses := (h c).stopCloses
    have hdestroys : q.stopInLoop.mainDestroys c = q.mainDestroys c := by
      rw [mainDestroys, heffect.main]
      rfl
    have hnone := hremovals c
    change q.stopInLoop.ioDestroys c = q.ioDestroys c at hio
    change _ = q.stopCloses c + (q.conn c).destroyed + _ at hcloses
    omega
  · rw [removals, heffect.main]
    exact hremovals c
  · have hcount := heffect.waiting c
    change _ + q.stopCloses c = q.waiting.count c + _ at hcount
    rw [(h c).stopCloses, hwaiting] at hcount
    simpa using hcount
  · exact absurd heffect.phase hne
  · rw [heffect.phase] at hphase
    cases hphase

theorem newConnection_staged (h : Staged q c) (hphase : q.phase ≠ .stopped) :
    Staged q.newConnection c := by
  obtain ⟨hbalance, hlisted, hremoves, hstop, hfresh⟩ := h
  unfold newConnection
  dsimp only
  split
  · constructor
    all_goals
      simp only [up, removals, mainDestroys, ioDestroys, stopCloses, setConn,
        Function.update_apply, count_snoc] at *
      grind
  · constructor
    all_goals
      simp only [up, removals, mainDestroys, ioDestroys, stopCloses, setConn, post, hphase, if_false,
        Function.update_apply, List.map_append, List.map_cons, List.map_nil, count_snoc] at *
      grind

theorem handleClose_staged (h : ∀ d, Staged q d) (hc : c < q.accepted)
    (hopen : (q.conn c).isOpen = true) : Staged (q.handleClose c) d := by
  have hremoves := (h c).removes hc
  have hstate : (q.conn c).state ≠ .disconnected := by
    intro heq
    simp [ServerConn.isOpen, heq] at hopen
  obtain ⟨hbalance, hlisted, hremoves', hstop, hfresh⟩ := h d
  unfold handleClose
  simp only [hopen, hremoves, and_self, if_true]
  unfold removeConnection
  split
  · constructor
    all_goals
      simp only [up, removals, mainDestroys, ioDestroys, stopCloses, setConn,
        Function.update_apply, count_snoc] at *
      grind
  · rename_i hloop
    unfold removeConnectionInLoop
    simp only [setConn_conn, if_true] at hloop
    simp only [setConn, Function.update_self, hloop]
    constructor
    all_goals
      simp only [up, removals, mainDestroys, ioDestroys, stopCloses,
        Function.update_apply, count_snoc, List.count_erase] at *
      grind

theorem removeTask_staged (h : Staged q d) {tasks : List MainTask} (hphase : q.phase ≠ .stopped)
    (hmain : q.main = .remove c :: tasks) :
    Staged ({ q with main := tasks }.removeConnectionInLoop c) d := by
  obtain ⟨hbalance, hlisted, hremoves, hstop, hfresh⟩ := h
  simp only [up, removals, mainDestroys, ioDestroys, hmain, List.count_cons] at hbalance hlisted hfresh
  unfold removeConnectionInLoop
  dsimp only
  split
  all_goals
    constructor
    all_goals
      simp only [up, removals, mainDestroys, ioDestroys, stopCloses, post, if_neg hphase,
        List.map_append, List.map_cons, List.map_nil, count_snoc, List.count_erase] at *
      grind

theorem destroyedTask_staged (h : Staged q d) {tasks : List MainTask}
    (hmain : q.main = .destroyed c :: tasks) :
    Staged ({ q with main := tasks }.connectionDestroyed c) d := by
  obtain ⟨hbalance, hlisted, hremoves, hstop, hfresh⟩ := h
  simp only [up, removals, mainDestroys, ioDestroys, hmain, List.count_cons] at hbalance hlisted hfresh
  unfold connectionDestroyed
  constructor
  all_goals
    simp only [up, removals, mainDestroys, ioDestroys, stopCloses, setConn, Function.update_apply,
      ServerConn.isOpen] at *
    grind

theorem ioTask_staged (h : Staged q d) {k l : Nat} {task : IoTask}
    (htask : q.io.find? (·.1 = k) = some (l, task)) (hne : ∀ c, task ≠ .stopClose c) :
    Staged ({ q with io := q.io.eraseP (·.1 = k) }.runIo task) d := by
  have hdestroyed := count_eraseP htask (.destroyed d)
  have hclose := count_eraseP htask (.stopClose d)
  obtain ⟨hbalance, hlisted, hremoves, hstop, hfresh⟩ := h
  cases task with
  | established c =>
      simp only [runIo]
      split
      all_goals
        constructor
        all_goals
          simp only [up, removals, mainDestroys, ioDestroys, stopCloses, setConn,
            Function.update_apply] at *
          grind
  | destroyed c =>
      simp only [runIo, connectionDestroyed]
      constructor
      all_goals
        simp only [up, removals, mainDestroys, ioDestroys, stopCloses, setConn, Function.update_apply,
          ServerConn.isOpen] at *
        grind
  | stopClose c => exact absurd rfl (hne c)

theorem orderly_of_staged (h : ∀ c, Staged q c) (hphase : q.phase = .running)
    (hstarted : q.started = true) (hfault : q.fault = false) (hwaiting : q.waiting = []) :
    Orderly q :=
  ⟨hfault, ⟨fun _ => hphase, fun _ => hstarted⟩, fun _ => ⟨hwaiting, h⟩,
    fun hne => absurd hphase hne⟩

/-- What the tasks and the events before the stop leave alone. -/
def SameServer (q q' : TcpServer) : Prop :=
  q'.phase = q.phase ∧ q'.started = q.started ∧ q'.fault = q.fault ∧ q'.waiting = q.waiting

theorem SameServer.orderly (hsame : SameServer q q') (h : Orderly q) (hphase : q.phase = .running)
    (hstaged : ∀ c, Staged q' c) : Orderly q' := by
  obtain ⟨hphase', hstarted', hfault', hwaiting'⟩ := hsame
  exact orderly_of_staged hstaged (hphase'.trans hphase)
    (hstarted'.trans (h.started.mpr hphase)) (hfault'.trans h.fault)
    (hwaiting'.trans (h.staged hphase).1)

theorem newConnection_same (hphase : q.phase ≠ .stopped) : SameServer q q.newConnection := by
  unfold newConnection
  dsimp only
  split
  · exact ⟨rfl, rfl, rfl, rfl⟩
  · simp [SameServer, post, setConn, hphase]

theorem removeConnectionInLoop_same (hphase : q.phase ≠ .stopped) (c : Nat) :
    SameServer q (q.removeConnectionInLoop c) := by
  unfold removeConnectionInLoop
  dsimp only
  split
  · simp [SameServer, post, hphase]
  · exact ⟨rfl, rfl, rfl, rfl⟩

theorem handleClose_same (hphase : q.phase ≠ .stopped) (c : Nat) :
    SameServer q (q.handleClose c) := by
  unfold handleClose
  dsimp only
  split
  · unfold removeConnection
    split
    · exact ⟨rfl, rfl, rfl, rfl⟩
    · exact removeConnectionInLoop_same (q := q.setConn c _) hphase c
  · exact ⟨rfl, rfl, rfl, rfl⟩

theorem runIo_same {task : IoTask} {io : List (Nat × IoTask)} (hne : ∀ c, task ≠ .stopClose c) :
    SameServer q ({ q with io := io }.runIo task) := by
  cases task with
  | established c =>
      unfold runIo
      dsimp only
      split
      all_goals exact ⟨rfl, rfl, rfl, rfl⟩
  | destroyed c => exact ⟨rfl, rfl, rfl, rfl⟩
  | stopClose c => exact absurd rfl (hne c)

theorem orderly_of_stopped (h : Stopped q) (hphase : q.phase ≠ .running)
    (hstarted : q.started = false) (hfault : q.fault = false) : Orderly q := by
  refine ⟨hfault, ⟨fun htrue => ?_, fun hrunning => absurd hrunning hphase⟩,
    fun hrunning => absurd hrunning hphase, fun _ => h⟩
  rw [hstarted] at htrue
  cases htrue

theorem staged_step (h : Orderly q) (hphase : q.phase = .running) (hcond : Settled q e)
    (hstep : step q e = some q') : Orderly q' := by
  obtain ⟨hwaiting, hstaged⟩ := h.staged hphase
  have hstarted := h.started.mpr hphase
  have hstopped : q.phase ≠ .stopped := by
    rw [hphase]
    nofun
  have hfree : q.free = true := by
    simp [free, hphase]
  cases e with
  | accept =>
      simp only [step, hfree, hstarted, if_true, Option.some.injEq] at hstep
      subst hstep
      exact (newConnection_same hstopped).orderly h hphase fun c =>
        newConnection_staged (hstaged c) hstopped
  | close c =>
      simp only [step, Option.ite_none_right_eq_some, Option.some.injEq] at hstep
      obtain ⟨⟨hc, hopen, -⟩, rfl⟩ := hstep
      exact (handleClose_same hstopped c).orderly h hphase fun _ =>
        handleClose_staged hstaged hc hopen
  | ioTask k =>
      unfold step at hstep
      dsimp only at hstep
      split at hstep
      · rename_i l task htask
        simp only [ne_eq, hstopped, not_false_eq_true, if_true, Option.some.injEq] at hstep
        subst hstep
        -- the closings of `stop` are queued by `stop` only
        have hne : ∀ c, task ≠ .stopClose c := by
          rintro c rfl
          have hmem := List.mem_map_of_mem (f := Prod.snd) (List.mem_of_find?_eq_some htask)
          exact List.count_eq_zero.mp (hstaged c).stopCloses hmem
        exact (runIo_same hne).orderly h hphase fun d => ioTask_staged (hstaged d) htask hne
      · cases hstep
  | mainTask =>
      unfold step at hstep
      dsimp only at hstep
      split at hstep
      · cases hstep
      · rename_i task tasks hmain
        simp only [hfree, if_true, Option.some.injEq] at hstep
        subst hstep
        cases task with
        | remove c =>
            have hsame := removeConnectionInLoop_same (q := { q with main := tasks }) hstopped c
            have hsame' : SameServer q ({ q with main := tasks }.removeConnectionInLoop c) := hsame
            exact hsame'.orderly h hphase fun d => removeTask_staged (hstaged d) hstopped hmain
        | destroyed c =>
            have hsame : SameServer q ({ q with main := tasks }.connectionDestroyed c) :=
              ⟨rfl, rfl, rfl, rfl⟩
            exact hsame.orderly h hphase fun d => destroyedTask_staged (hstaged d) hmain
  | stop =>
      simp only [step, hfree, hstarted, if_true, Option.some.injEq] at hstep
      subst hstep
      have heffect : StopEffect { q with started := false, phase := .stopping, connections := [] }
        q.stopInLoop q.connections := StopEffect.foldl nofun
      refine orderly_of_stopped (stopInLoop_stopped hstaged hwaiting (hcond hstarted)) ?_
        heffect.started (heffect.fault.trans h.fault)
      intro hrunning
      cases heffect.phase.symm.trans hrunning
  | closed =>
      simp [step, hphase] at hstep
  | joined =>
      simp [step, hphase] at hstep

/-- What a task of an IO loop changes once the server is stopping. -/
theorem runIo_stopping (q : TcpServer) (task : IoTask) (c : Nat) :
    (q.runIo task).main = q.main ∧ (q.runIo task).io = q.io ∧
    (q.runIo task).phase = q.phase ∧ (q.runIo task).started = q.started ∧
    (q.runIo task).fault = q.fault ∧ (q.runIo task).accepted = q.accepted ∧
    ((q.runIo task).conn c).destroyed = (q.conn c).destroyed +
      (if task = .destroyed c then 1 else 0) + (if task = .stopClose c then 1 else 0) ∧
    (q.runIo task).waiting.count c =
      q.waiting.count c - (if task = .stopClose c then 1 else 0) := by
  cases task with
  | established d =>
      unfold runIo
      dsimp only
      split
      · refine ⟨rfl, rfl, rfl, rfl, rfl, rfl, ?_, rfl⟩
        rw [setConn_conn]
        split
        · rename_i heq
          rw [heq]
          rfl
        · rfl
      · exact ⟨rfl, rfl, rfl, rfl, rfl, rfl, rfl, rfl⟩
  | destroyed d =>
      refine ⟨rfl, rfl, rfl, rfl, rfl, rfl, ?_, rfl⟩
      simp only [runIo, connectionDestroyed, setConn_conn]
      grind
  | stopClose d =>
      obtain ⟨state, heq⟩ := q.stopClose_eq d
      simp only [runIo, heq]
      refine ⟨rfl, rfl, rfl, rfl, rfl, rfl, ?_, ?_⟩
      · rw [setConn_conn]
        grind
      · rw [List.count_erase]
        simp

theorem ioTask_stopped (h : Stopped q) {k l : Nat} {task : IoTask} (hphase : q.phase ≠ .stopped)
    (htask : q.io.find? (·.1 = k) = some (l, task)) :
    Stopped ({ q with io := q.io.eraseP (·.1 = k) }.runIo task) := by
  have hcount := count_eraseP htask
  have heffect := runIo_stopping { q with io := q.io.eraseP (·.1 = k) } task
  obtain ⟨hmain, hio, hphase', -, -, haccepted, -⟩ := heffect 0
  have hwaiting : ∀ c, ({ q with io := q.io.eraseP (·.1 = k) }.runIo task).waiting.count c =
      ({ q with io := q.io.eraseP (·.1 = k) }.runIo task).stopCloses c := by
    intro c
    obtain ⟨-, -, -, -, -, -, -, hafter⟩ := heffect c
    have hbefore := h.waiting c
    have hclose := hcount (.stopClose c)
    rw [hafter, stopCloses, hio]
    dsimp only
    rw [stopCloses] at hbefore
    omega
  refine ⟨fun c hc => ?_, fun c => ?_, hwaiting, fun hne => ?_, fun hended => ?_⟩
  · obtain ⟨-, -, -, -, -, -, hdestroyed, -⟩ := heffect c
    have hbalance := h.balance c (haccepted ▸ hc)
    have hclose := hcount (.stopClose c)
    have hdestroy := hcount (.destroyed c)
    rw [hdestroyed, stopCloses, mainDestroys, ioDestroys, hmain, hio]
    simp only [stopCloses, mainDestroys, ioDestroys] at hbalance ⊢
    omega
  · rw [removals, hmain]
    exact h.removals c
  · have hnone := h.closed (hphase' ▸ hne)
    refine List.eq_nil_iff_forall_not_mem.mpr fun c hmem => ?_
    obtain ⟨-, -, -, -, -, -, -, hafter⟩ := heffect c
    have hpos := List.count_pos_iff.mpr hmem
    rw [hafter, hnone, List.count_nil] at hpos
    omega
  · exact absurd (hphase'.symm.trans hended) hphase

theorem stopped_step (h : Orderly q) (hphase : q.phase ≠ .running) (hcond : Settled q e)
    (hstep : step q e = some q') : Orderly q' := by
  have hstopped := h.stopped hphase
  have hstarted : q.started = false := by
    rw [← Bool.not_eq_true, h.started]
    exact hphase
  cases e with
  | accept =>
      simp only [step, hstarted, Bool.false_eq_true, if_false, Option.ite_none_right_eq_some,
        Option.some.injEq] at hstep
      exact hstep.2 ▸ h
  -- connections close by themselves only while the server runs
  | close c => exact absurd hcond hphase
  | ioTask k =>
      unfold step at hstep
      dsimp only at hstep
      split at hstep
      · rename_i l task htask
        simp only [Option.ite_none_right_eq_some, Option.some.injEq] at hstep
        obtain ⟨hne, rfl⟩ := hstep
        obtain ⟨-, -, hphase', hstarted', hfault', -⟩ :=
          runIo_stopping { q with io := q.io.eraseP (·.1 = k) } task 0
        exact orderly_of_stopped (ioTask_stopped hstopped hne htask)
          (fun hrunning => hphase (hphase'.symm.trans hrunning)) (hstarted'.trans hstarted)
          (hfault'.trans h.fault)
      · cases hstep
  | mainTask =>
      unfold step at hstep
      dsimp only at hstep
      split at hstep
      · cases hstep
      · rename_i task tasks hmain
        simp only [Option.ite_none_right_eq_some, Option.some.injEq] at hstep
        obtain ⟨-, rfl⟩ := hstep
        cases task with
        | remove c =>
            have hnone := hstopped.removals c
            simp [removals, hmain] at hnone
        | destroyed c =>
            refine orderly_of_stopped ⟨fun d hd => ?_, fun d => ?_, hstopped.waiting,
              hstopped.closed, hstopped.ended⟩ hphase hstarted h.fault
            · have hbalance := hstopped.balance d hd
              simp only [mainDestroys, hmain, List.count_cons] at hbalance
              simp only [runMain, connectionDestroyed, stopCloses, mainDestroys, ioDestroys, setConn,
                Function.update_apply] at hbalance ⊢
              grind
            · have hnone := hstopped.removals d
              rw [removals, hmain, List.count_cons] at hnone
              exact (Nat.add_eq_zero_iff.mp hnone).1
  | stop =>
      simp only [step, hstarted, Bool.false_eq_true, if_false, Option.ite_none_right_eq_some,
        Option.some.injEq] at hstep
      exact hstep.2 ▸ h
  | closed =>
      simp only [step, Option.ite_none_right_eq_some, Option.some.injEq] at hstep
      obtain ⟨⟨-, hwaiting⟩, rfl⟩ := hstep
      exact orderly_of_stopped ⟨hstopped.balance, hstopped.removals, hstopped.waiting,
        fun _ => hwaiting, nofun⟩ nofun hstarted h.fault
  | joined =>
      simp only [step, Option.ite_none_right_eq_some, Option.some.injEq] at hstep
      obtain ⟨hresetting, rfl⟩ := hstep
      have hwaiting := hstopped.closed (by rw [hresetting]; nofun)
      refine orderly_of_stopped ⟨fun c hc => ?_, hstopped.removals, fun c => ?_,
        fun _ => hwaiting, fun _ => rfl⟩ nofun hstarted h.fault
      · -- when the threads are joined no closing and no destruction is on its way
        have hbalance := hstopped.balance c hc
        have hclose := hstopped.waiting c
        have hdestroy : q.ioDestroys c = 0 := by
          refine List.count_eq_zero.mpr fun hmem => ?_
          obtain ⟨entry, hentry, heq⟩ := List.mem_map.mp hmem
          have hnot := hcond entry hentry
          rw [heq] at hnot
          cases hnot
        rw [hwaiting, List.count_nil] at hclose
        rw [← hclose, hdestroy] at hbalance
        exact hbalance
      · simp [hwaiting, stopCloses]

theorem Orderly.step (h : Orderly q) (hcond : Settled q e) (hstep : step q e = some q') :
    Orderly q' := by
  by_cases hphase : q.phase = .running
  · exact staged_step h hphase hcond hstep
  · exact stopped_step h hphase hcond hstep

end Steps

open Lib.Machine

/-- While the condition holds every connection is destroyed once, at the latest when
the main loop has run its tasks after `stop_in_loop`, which waits only for tasks that
are queued; and no task is posted to a loop that is gone. -/
theorem destroyed_once {threads : Nat} {es : List ServerEvent} {q : TcpServer}
    (hrun : Run step Settled { threads } es q) :
    q.fault = false ∧ (∀ c ∈ q.waiting, .stopClose c ∈ q.io.map Prod.snd) ∧
    ∀ c < q.accepted, (q.conn c).destroyed ≤ 1 ∧
      (q.phase = .stopped → .destroyed c ∉ q.main → (q.conn c).destroyed = 1) := by
  have h : Orderly q := by
    apply hrun.invariant fun _ q => Orderly q
    · refine ⟨rfl, ⟨fun _ => rfl, fun _ => rfl⟩, fun _ => ⟨rfl, fun _ => ?_⟩,
        fun hne => absurd rfl hne⟩
      exact ⟨nofun, nofun, nofun, rfl, fun _ => ⟨rfl, rfl, rfl, rfl⟩⟩
    · exact fun h hcond hstep => h.step hcond hstep
  refine ⟨h.fault, fun c hmem => ?_, fun c hc => ⟨?_, fun hphase hnot => ?_⟩⟩
  · by_cases hphase : q.phase = .running
    · rw [(h.staged hphase).1] at hmem
      cases hmem
    · apply List.count_pos_iff.mp
      change 0 < q.stopCloses c
      rw [← (h.stopped hphase).waiting c]
      exact List.count_pos_iff.mpr hmem
  · by_cases hphase : q.phase = .running
    · have hbalance := ((h.staged hphase).2 c).balance hc
      omega
    · have hbalance := (h.stopped hphase).balance c hc
      omega
  · have hne : q.phase ≠ .running := by
      rw [hphase]
      nofun
    have hstopped := h.stopped hne
    have hbalance := hstopped.balance c hc
    have hwaiting := hstopped.waiting c
    rw [hstopped.closed (by rw [hphase]; nofun)] at hwaiting
    have hmain : q.mainDestroys c = 0 := List.count_eq_zero.mpr hnot
    have hio : q.ioDestroys c = 0 := by
      rw [ioDestroys, hstopped.ended hphase]
      rfl
    rw [List.count_nil] at hwaiting
    omega

/-- Two connections on two loops: one is removed before the stop, one closed by it. -/
theorem destroyed_in_turn : ∃ es q, Run step Settled { threads := 2 } es q ∧ q.phase = .stopped ∧
    q.accepted = 2 ∧ ∀ c < 2, (q.conn c).destroyed = 1 := by
  let es : List ServerEvent := [.accept, .accept, .ioTask 0, .ioTask 1, .close 0, .mainTask,
    .ioTask 0, .stop, .ioTask 1, .closed, .joined]
  obtain ⟨q, hexec, hphase, haccepted, hmain⟩ :
      ∃ q, exec step (fun q e => decide (Settled q e)) es { threads := 2 } = some q ∧
        q.phase = .stopped ∧ q.accepted = 2 ∧ q.main = [] := ⟨_, rfl, rfl, rfl, rfl⟩
  have hrun := run_of_exec (fun _ _ => of_decide_eq_true) hexec
  obtain ⟨-, -, hdestroyed⟩ := destroyed_once hrun
  refine ⟨es, q, hrun, hphase, haccepted, fun c hc => (hdestroyed c ?_).2 hphase ?_⟩
  · rwa [haccepted]
  · rw [hmain]
    exact List.not_mem_nil

/-- The connection has closed when the server stops. With its removal still queued
`connection_destroyed` is posted to a loop that is gone; with the removal done the
loop can end before it has run `connection_destroyed`. -/
theorem closing_at_stop :
    (∃ q, Run step (fun _ _ => True) { threads := 1 } [.accept, .ioTask 0, .close 0, .stop,
      .ioTask 0, .closed, .joined, .mainTask] q ∧ q.fault = true) ∧
    ∃ q, Run step (fun _ _ => True) { threads := 1 } [.accept, .ioTask 0, .close 0, .mainTask,
      .stop, .closed, .joined] q ∧ q.phase = .stopped ∧ q.main = [] ∧ q.accepted = 1 ∧
      (q.conn 0).destroyed = 0 := by
  constructor
  · obtain ⟨q, hexec, hfault⟩ : ∃ q, exec step (fun _ _ => true) [.accept, .ioTask 0, .close 0, .stop,
        .ioTask 0, .closed, .joined, .mainTask] { threads := 1 } = some q ∧ q.fault = true :=
      ⟨_, rfl, rfl⟩
    exact ⟨q, run_of_exec (fun _ _ _ => trivial) hexec, hfault⟩
  · obtain ⟨q, hexec, hafter⟩ : ∃ q, exec step (fun _ _ => true) [.accept, .ioTask 0, .close 0,
        .mainTask, .stop, .closed, .joined] { threads := 1 } = some q ∧ q.phase = .stopped ∧
        q.main = [] ∧ q.accepted = 1 ∧ (q.conn 0).destroyed = 0 := ⟨_, rfl, rfl, rfl, rfl, rfl⟩
    exact ⟨q, run_of_exec (fun _ _ _ => trivial) hexec, hafter⟩

end TcpServer

end SolarDrive.Network
