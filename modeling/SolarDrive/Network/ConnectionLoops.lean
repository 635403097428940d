import Mathlib.Data.Int.CardIntervalMod
import SolarDrive.Network.TcpServer

/-!
# A connection and its loop

`get_next_loop` hands out the IO loops in turn, and a connection stays on the one it
gets: all its tasks are queued there, and `connection_established` comes first. Whatever
the connections and the main loop do, and also while the server stops, no loop has two
connections more than another, and none is torn down before it is established.
-/

namespace SolarDrive.Network

def IoTask.conn : IoTask → Nat
  | .established c => c
  | .destroyed c => c
  | .stopClose c => c

def MainTask.conn : MainTask → Nat
  | .remove c => c
  | .destroyed c => c

namespace TcpServer

/-- The queued tasks of a connection, in their order. -/
def tasksOf (q : TcpServer) (c : Nat) : List IoTask :=
  (q.io.map Prod.snd).filter fun t => t.conn = c

/-- How many connections have been put on a loop. -/
def load (q : TcpServer) (k : Nat) : Nat :=
  q.accepted.count fun c => (q.conn c).loop = some k

/-- The first task of a connection that is not established yet is to establish it, and
no other one is. -/
def EstablishedFirst (c : Nat) (state : ConnState) (tasks : List IoTask) : Prop :=
  if state = .connecting then ∃ rest, tasks = .established c :: rest ∧ .established c ∉ rest
  else .established c ∉ tasks

/-- Every connection is on the loop that was its turn, with its tasks. -/
structure Seated (n : Nat) (q : TcpServer) : Prop where
  threads : q.threads = n
  started : q.started = true → q.phase = .running
  next : n ≠ 0 → q.nextIndex = q.accepted % n
  loop : ∀ c < q.accepted, (q.conn c).loop = if n = 0 then none else some (c % n)
  listed : ∀ c ∈ q.connections, c < q.accepted
  main : ∀ task ∈ q.main, task.conn < q.accepted
  io : ∀ entry ∈ q.io, entry.2.conn < q.accepted ∧ (q.conn entry.2.conn).loop = some entry.1
  order : q.phase ≠ .stopped → ∀ c < q.accepted,
    EstablishedFirst c (q.conn c).state (q.tasksOf c)

/-! ## Tasks in their order -/

section Tasks

variable {c : Nat} {state state' : ConnState} {tasks : List IoTask} {task : IoTask}

theorem EstablishedFirst.same (h : EstablishedFirst c state tasks)
    (hstate : state' = .connecting ↔ state = .connecting) : EstablishedFirst c state' tasks := by
  unfold EstablishedFirst at *
  simp only [hstate]
  exact h

theorem EstablishedFirst.snoc (h : EstablishedFirst c state tasks) (htask : task ≠ .established c) :
    EstablishedFirst c state (tasks ++ [task]) := by
  unfold EstablishedFirst at *
  split
  · rename_i hconnecting
    rw [if_pos hconnecting] at h
    obtain ⟨rest, rfl, hrest⟩ := h
    refine ⟨rest ++ [task], rfl, ?_⟩
    simp [hrest, htask.symm]
  · rename_i hconnecting
    rw [if_neg hconnecting] at h
    simp [h, htask.symm]

/-- The task at the head establishes the connection exactly when it waits for that. -/
theorem EstablishedFirst.head (h : EstablishedFirst c state (task :: tasks)) :
    task = .established c ↔ state = .connecting := by
  unfold EstablishedFirst at h
  split at h
  · rename_i hconnecting
    obtain ⟨rest, heq, -⟩ := h
    exact ⟨fun _ => hconnecting, fun _ => (List.cons.inj heq).1⟩
  · rename_i hconnecting
    constructor
    · intro heq
      exact absurd (heq ▸ List.mem_cons_self) h
    · exact fun hstate => absurd hstate hconnecting

theorem EstablishedFirst.tail (h : EstablishedFirst c state (task :: tasks)) :
    .established c ∉ tasks := by
  unfold EstablishedFirst at h
  split at h
  · obtain ⟨rest, heq, hrest⟩ := h
    rw [(List.cons.inj heq).2]
    exact hrest
  · exact fun hmem => h (List.mem_cons_of_mem _ hmem)

theorem establishedFirst_of_not_mem (hstate : state ≠ .connecting)
    (h : .established c ∉ tasks) : EstablishedFirst c state tasks := by
  unfold EstablishedFirst
  rw [if_neg hstate]
  exact h

end Tasks

section Steps

variable {n : Nat} {q q' : TcpServer} {c k : Nat} {conn : ServerConn}

/-- Taking the first task of a loop takes the first task of its connection and leaves
the others theirs. -/
theorem tasksOf_eraseP (hio : ∀ entry ∈ q.io, (q.conn entry.2.conn).loop = some entry.1)
    {l : Nat} {task : IoTask} (h : q.io.find? (·.1 = k) = some (l, task)) (c : Nat) :
    q.tasksOf c = if task.conn = c then
        task :: ({ q with io := q.io.eraseP (·.1 = k) } : TcpServer).tasksOf c
      else ({ q with io := q.io.eraseP (·.1 = k) } : TcpServer).tasksOf c := by
  obtain ⟨hkey, front, back, hsplit, hfront⟩ := List.find?_eq_some_iff_append.mp h
  simp only [decide_eq_true_eq] at hkey
  have herase : q.io.eraseP (·.1 = k) = front ++ back := by
    rw [hsplit, List.eraseP_append_right _ (by simpa using hfront)]
    simp [hkey]
  unfold tasksOf
  rw [herase, hsplit]
  simp only [List.map_append, List.map_cons, List.filter_append, List.filter_cons]
  by_cases hc : task.conn = c
  · -- what is ahead of it is queued on other loops, so none of it is the connection's
    have hloop : (q.conn c).loop = some k := by
      have hmem : (l, task) ∈ q.io := by
        rw [hsplit]
        simp
      have hl := hio _ hmem
      rw [← hc, hl, hkey]
    have hnone : (front.map Prod.snd).filter (fun t => t.conn = c) = [] := by
      refine List.filter_eq_nil_iff.mpr fun t ht htc => ?_
      obtain ⟨entry, hentry, rfl⟩ := List.mem_map.mp ht
      simp only [decide_eq_true_eq] at htc
      have hother := hio entry (by rw [hsplit]; exact List.mem_append_left _ hentry)
      rw [htc, hloop, Option.some.injEq] at hother
      exact absurd hother.symm (by simpa using hfront entry hentry)
    simp [hnone, hc]
  · simp [hc]

theorem tasksOf_snoc (q : TcpServer) (k : Nat) (task : IoTask) (c : Nat) :
    ({ q with io := q.io ++ [(k, task)] } : TcpServer).tasksOf c =
      if task.conn = c then q.tasksOf c ++ [task] else q.tasksOf c := by
  unfold tasksOf
  rw [List.map_append, List.filter_append]
  split
  · rename_i heq
    simp [heq]
  · rename_i hne
    simp [hne]

theorem setConn_loop (q : TcpServer) {c : Nat} {conn : ServerConn}
    (hloop : conn.loop = (q.conn c).loop) (d : Nat) :
    ((q.setConn c conn).conn d).loop = (q.conn d).loop := by
  rw [setConn_conn]
  split
  · rename_i heq
    rw [heq, hloop]
  · rfl

theorem Seated.not_stopped (h : Seated n q) (hstarted : q.started = true) :
    q.phase ≠ .stopped := by
  rw [h.started hstarted]
  exact ServerPhase.noConfusion

theorem Seated.setConn (h : Seated n q) (hloop : conn.loop = (q.conn c).loop)
    (hstate : conn.state = .connecting ↔ (q.conn c).state = .connecting) :
    Seated n (q.setConn c conn) := by
  refine ⟨h.threads, h.started, h.next, fun d hd => ?_, h.listed, h.main, fun entry hentry => ?_,
    fun hphase d hd => ?_⟩
  · rw [setConn_loop q hloop]
    exact h.loop d hd
  · rw [setConn_loop q hloop]
    exact h.io entry hentry
  · refine (h.order hphase d hd).same ?_
    rw [setConn_conn]
    split
    · rename_i heq
      rw [heq, hstate]
    · rfl

/-- A task other than the first goes to the loop of its connection. -/
theorem Seated.post (h : Seated n q) {task : IoTask} (hconn : task.conn < q.accepted)
    (hloop : (q.conn task.conn).loop = some k) (htask : task ≠ .established task.conn) :
    Seated n (q.post k task) := by
  unfold TcpServer.post
  split
  · exact ⟨h.threads, h.started, h.next, h.loop, h.listed, h.main, h.io, h.order⟩
  · refine ⟨h.threads, h.started, h.next, h.loop, h.listed, h.main, fun entry hentry => ?_,
      fun hphase d hd => ?_⟩
    · rcases List.mem_append.mp hentry with hentry | hentry
      · exact h.io entry hentry
      · rw [List.mem_singleton.mp hentry]
        exact ⟨hconn, hloop⟩
    · have hbefore := h.order hphase d hd
      rw [tasksOf_snoc]
      split
      · rename_i heq
        exact hbefore.snoc (heq ▸ htask)
      · exact hbefore

theorem Seated.setWaiting (h : Seated n q) (waiting : List Nat) : Seated n { q with waiting } :=
  ⟨h.threads, h.started, h.next, h.loop, h.listed, h.main, h.io, h.order⟩

theorem Seated.postMain (h : Seated n q) {task : MainTask} (hconn : task.conn < q.accepted) :
    Seated n { q with main := q.main ++ [task] } := by
  refine ⟨h.threads, h.started, h.next, h.loop, h.listed, fun t ht => ?_, h.io, h.order⟩
  rcases List.mem_append.mp ht with ht | ht
  · exact h.main t ht
  · rw [List.mem_singleton.mp ht]
    exact hconn

theorem newConnection_single (hthreads : q.threads = 0) : q.newConnection = { q with
    accepted := q.accepted + 1
    connections := q.connections ++ [q.accepted]
    conn := Function.update q.conn q.accepted { loop := none, state := .connected } } :=
  if_pos hthreads

theorem newConnection_pooled (hthreads : q.threads ≠ 0) (hphase : q.phase ≠ .stopped) :
    q.newConnection = { q with
      accepted := q.accepted + 1
      connections := q.connections ++ [q.accepted]
      conn := Function.update q.conn q.accepted { loop := some q.nextIndex, state := .connecting }
      nextIndex := (q.nextIndex + 1) % q.threads
      io := q.io ++ [(q.nextIndex, .established q.accepted)] } := by
  unfold TcpServer.newConnection
  dsimp only
  rw [if_neg hthreads]
  exact if_neg hphase

/-- The new connection takes the loop whose turn it is. -/
theorem Seated.newConnection (h : Seated n q) (hstarted : q.started = true) :
    Seated n q.newConnection := by
  have hphase := h.not_stopped hstarted
  have hlisted : ∀ c ∈ q.connections ++ [q.accepted], c < q.accepted + 1 := by
    intro c hc
    rcases List.mem_append.mp hc with hc | hc
    · exact Nat.lt_succ_of_lt (h.listed c hc)
    · rw [List.mem_singleton.mp hc]
      exact Nat.lt_succ_self _
  have hmain : ∀ task ∈ q.main, task.conn < q.accepted + 1 := fun task htask =>
    Nat.lt_succ_of_lt (h.main task htask)
  have hold : ∀ entry ∈ q.io, entry.2.conn ≠ q.accepted := fun entry hentry =>
    Nat.ne_of_lt (h.io entry hentry).1
  have hbefore : ∀ c < q.accepted + 1, c ≠ q.accepted → c < q.accepted := fun c hc hne =>
    Nat.lt_of_le_of_ne (Nat.le_of_lt_succ hc) hne
  -- nothing is queued yet for the new connection
  have hnone : q.tasksOf q.accepted = [] := by
    refine List.filter_eq_nil_iff.mpr fun t ht htc => ?_
    obtain ⟨entry, hentry, rfl⟩ := List.mem_map.mp ht
    exact hold entry hentry (of_decide_eq_true htc)
  by_cases hthreads : q.threads = 0
  · have hn : n = 0 := h.threads.symm.trans hthreads
    rw [newConnection_single hthreads]
    refine ⟨h.threads, h.started, fun hne => absurd hn hne, fun c hc => ?_, hlisted, hmain,
      fun entry hentry => ?_, fun _ c hc => ?_⟩
    · dsimp only
      by_cases hnew : c = q.accepted
      · rw [hnew, Function.update_self, if_pos hn]
      · rw [Function.update_of_ne hnew]
        exact h.loop c (hbefore c hc hnew)
    · dsimp only
      rw [Function.update_of_ne (hold entry hentry)]
      exact ⟨Nat.lt_succ_of_lt (h.io entry hentry).1, (h.io entry hentry).2⟩
    · dsimp only
      by_cases hnew : c = q.accepted
      · rw [hnew, Function.update_self]
        refine establishedFirst_of_not_mem (by decide) ?_
        show IoTask.established q.accepted ∉ q.tasksOf q.accepted
        rw [hnone]
        exact List.not_mem_nil
      · rw [Function.update_of_ne hnew]
        exact h.order hphase c (hbefore c hc hnew)
  · have hn : n ≠ 0 := fun heq => hthreads (h.threads.trans heq)
    rw [newConnection_pooled hthreads hphase]
    refine ⟨h.threads, h.started, fun _ => ?_, fun c hc => ?_, hlisted, hmain,
      fun entry hentry => ?_, fun _ c hc => ?_⟩
    · dsimp only
      rw [h.threads, h.next hn, Nat.mod_add_mod]
    · dsimp only
      by_cases hnew : c = q.accepted
      · rw [hnew, Function.update_self, if_neg hn, h.next hn]
      · rw [Function.update_of_ne hnew]
        exact h.loop c (hbefore c hc hnew)
    · dsimp only at hentry ⊢
      rcases List.mem_append.mp hentry with hentry | hentry
      · rw [Function.update_of_ne (hold entry hentry)]
        exact ⟨Nat.lt_succ_of_lt (h.io entry hentry).1, (h.io entry hentry).2⟩
      · rw [List.mem_singleton.mp hentry]
        exact ⟨Nat.lt_succ_self _, by rw [IoTask.conn, Function.update_self]⟩
    · show EstablishedFirst c (Function.update q.conn q.accepted _ c).state
        (({ q with io := q.io ++ [(q.nextIndex, .established q.accepted)] } : TcpServer).tasksOf c)
      rw [tasksOf_snoc]
      by_cases hnew : c = q.accepted
      · rw [hnew, Function.update_self, IoTask.conn, if_pos rfl, hnone]
        exact ⟨[], rfl, List.not_mem_nil⟩
      · rw [Function.update_of_ne hnew, IoTask.conn, if_neg (Ne.symm hnew)]
        exact h.order hphase c (hbefore c hc hnew)

/-! ## Closing a connection -/

theorem not_connecting_of_isOpen (hopen : (q.conn c).isOpen = true) :
    (q.conn c).state ≠ .connecting := by
  intro hstate
  simp [ServerConn.isOpen, hstate] at hopen

theorem Seated.removeConnectionInLoop (h : Seated n q) (hc : c < q.accepted) :
    Seated n (q.removeConnectionInLoop c) := by
  have herased : Seated n { q with connections := q.connections.erase c } :=
    ⟨h.threads, h.started, h.next, h.loop, fun d hd => h.listed d (List.mem_of_mem_erase hd),
      h.main, h.io, h.order⟩
  unfold TcpServer.removeConnectionInLoop
  dsimp only
  split
  · rename_i k hloop
    have hposted : Seated n (TcpServer.post k (.destroyed c)
        { q with connections := q.connections.erase c }) :=
      herased.post hc hloop IoTask.noConfusion
    exact hposted
  · have hposted : Seated n { q with
        connections := q.connections.erase c, main := q.main ++ [.destroyed c] } :=
      herased.postMain hc
    exact hposted

theorem Seated.removeConnection (h : Seated n q) (hc : c < q.accepted) :
    Seated n (q.removeConnection c) := by
  unfold TcpServer.removeConnection
  split
  · have hposted : Seated n { q with main := q.main ++ [.remove c] } := h.postMain hc
    exact hposted
  · exact h.removeConnectionInLoop hc

theorem Seated.handleClose (h : Seated n q) (hc : c < q.accepted)
    (hopen : (q.conn c).isOpen = true) : Seated n (q.handleClose c) := by
  have hclosed : Seated n (q.setConn c { q.conn c with state := .disconnected }) := by
    refine h.setConn rfl ⟨fun hstate => ?_, fun hstate => ?_⟩
    · cases hstate
    · exact absurd hstate (not_connecting_of_isOpen hopen)
  unfold TcpServer.handleClose
  dsimp only
  split
  · exact hclosed.removeConnection hc
  · exact hclosed

theorem Seated.connectionDestroyed (h : Seated n q) (c : Nat) :
    Seated n (q.connectionDestroyed c) := by
  refine h.setConn rfl ?_
  dsimp only
  split
  · rename_i hopen
    refine ⟨fun hstate => ?_, fun hstate => ?_⟩
    · cases hstate
    · exact absurd hstate (not_connecting_of_isOpen hopen)
  · rfl

theorem Seated.stopClose (h : Seated n q) (hc : c < q.accepted) : Seated n (q.stopClose c) := by
  have hkept : Seated n (q.setConn c { q.conn c with removes := false }) := h.setConn rfl Iff.rfl
  unfold TcpServer.stopClose
  dsimp only
  split
  · rename_i hopen
    exact (hkept.handleClose hc hopen).connectionDestroyed c
  · exact hkept.connectionDestroyed c

theorem Seated.stopConn (h : Seated n q) (hc : c < q.accepted) : Seated n (q.stopConn c) := by
  unfold TcpServer.stopConn
  split
  · rename_i k hloop
    have hposted : Seated n (q.post k (.stopClose c)) := h.post hc hloop IoTask.noConfusion
    exact hposted.setWaiting (q.waiting ++ [c])
  · exact h.stopClose hc

theorem Seated.stopAll {conns : List Nat} : ∀ {q : TcpServer}, Seated n q → q.phase ≠ .stopped →
    (∀ c ∈ conns, c < q.accepted) → Seated n (conns.foldl TcpServer.stopConn q) := by
  induction conns with
  | nil => exact fun h _ _ => h
  | cons c conns ih =>
      intro q h hphase hconns
      have heffect := StopEffect.stopConn hphase c
      refine ih (h.stopConn (hconns c List.mem_cons_self)) ?_ fun d hd => ?_
      · rw [heffect.phase]
        exact hphase
      · rw [heffect.accepted]
        exact hconns d (List.mem_cons_of_mem c hd)

theorem Seated.stopInLoop (h : Seated n q) (hstarted : q.started = true) :
    Seated n q.stopInLoop := by
  have hphase := h.not_stopped hstarted
  have hbegun : Seated n { q with started := false, phase := .stopping, connections := [] } := by
    refine ⟨h.threads, fun hfalse => ?_, h.next, h.loop, fun c hc => ?_, h.main, h.io,
      fun _ => h.order hphase⟩
    · cases hfalse
    · cases hc
  exact hbegun.stopAll ServerPhase.noConfusion h.listed

/-! ## Steps and runs -/

theorem Seated.ioTask (h : Seated n q) (hphase : q.phase ≠ .stopped) {l : Nat} {task : IoTask}
    (hfind : q.io.find? (·.1 = k) = some (l, task)) :
    Seated n ({ q with io := q.io.eraseP (·.1 = k) }.runIo task) := by
  have htasks := fun c => tasksOf_eraseP (fun entry hentry => (h.io entry hentry).2) hfind c
  have hmem := List.mem_of_find?_eq_some hfind
  obtain ⟨hc, -⟩ := h.io _ hmem
  have hio : ∀ entry ∈ q.io.eraseP (·.1 = k), entry ∈ q.io := fun entry hentry =>
    List.mem_of_mem_eraseP hentry
  have hhead := h.order hphase task.conn hc
  rw [htasks, if_pos rfl] at hhead
  -- the other connections keep their tasks
  have hother : ∀ c < q.accepted, c ≠ task.conn → EstablishedFirst c (q.conn c).state
      (({ q with io := q.io.eraseP (·.1 = k) } : TcpServer).tasksOf c) := by
    intro c hlt hne
    have hbefore := h.order hphase c hlt
    rwa [htasks, if_neg (Ne.symm hne)] at hbefore
  -- any other task is not the first one
  have hdue : (∀ c, task ≠ .established c) → Seated n { q with io := q.io.eraseP (·.1 = k) } := by
    intro hne
    refine ⟨h.threads, h.started, h.next, h.loop, h.listed, h.main,
      fun entry hentry => h.io entry (hio entry hentry), fun _ c hlt => ?_⟩
    by_cases hown : c = task.conn
    · rw [hown]
      exact establishedFirst_of_not_mem (fun hstate => hne _ (hhead.head.mpr hstate)) hhead.tail
    · exact hother c hlt hown
  cases task with
  | established c =>
      have hconnecting : (q.conn c).state = .connecting := hhead.head.mp rfl
      have hrun : { q with io := q.io.eraseP (·.1 = k) }.runIo (.established c) =
          TcpServer.setConn c { q.conn c with state := .connected }
            { q with io := q.io.eraseP (·.1 = k) } := if_pos hconnecting
      have hloops : ∀ d, ((TcpServer.setConn c { q.conn c with state := .connected }
          { q with io := q.io.eraseP (·.1 = k) }).conn d).loop = (q.conn d).loop :=
        setConn_loop { q with io := q.io.eraseP (·.1 = k) } rfl
      rw [hrun]
      refine ⟨h.threads, h.started, h.next, fun d hd => ?_, h.listed, h.main,
        fun entry hentry => ?_, fun _ d hd => ?_⟩
      · rw [hloops]
        exact h.loop d hd
      · rw [hloops]
        exact h.io entry (hio entry hentry)
      · rw [setConn_conn]
        by_cases hd' : d = c
        · rw [if_pos hd', hd']
          exact establishedFirst_of_not_mem ConnState.noConfusion hhead.tail
        · rw [if_neg hd']
          exact hother d hd hd'
  | destroyed c => exact (hdue fun _ => IoTask.noConfusion).connectionDestroyed c
  | stopClose c =>
      have hstopped := (hdue fun _ => IoTask.noConfusion).stopClose hc
      exact hstopped.setWaiting _

theorem Seated.mainTask (h : Seated n q) {task : MainTask} {tasks : List MainTask}
    (hmain : q.main = task :: tasks) : Seated n ({ q with main := tasks }.runMain task) := by
  have hc : task.conn < q.accepted := by
    refine h.main task ?_
    rw [hmain]
    exact List.mem_cons_self
  have htaken : Seated n { q with main := tasks } := by
    refine ⟨h.threads, h.started, h.next, h.loop, h.listed, fun t ht => ?_, h.io, h.order⟩
    refine h.main t ?_
    rw [hmain]
    exact List.mem_cons_of_mem task ht
  cases task with
  | remove c => exact htaken.removeConnectionInLoop hc
  | destroyed c => exact htaken.connectionDestroyed c

theorem Seated.step (h : Seated n q) {e : ServerEvent} (hstep : q.step e = some q') :
    Seated n q' := by
  cases e with
  | accept =>
      simp only [TcpServer.step] at hstep
      split at hstep
      · cases hstep
        split
        · rename_i hstarted
          exact h.newConnection hstarted
        · exact h
      · cases hstep
  | close c =>
      simp only [TcpServer.step] at hstep
      split at hstep
      · rename_i hcan
        cases hstep
        exact h.handleClose hcan.1 hcan.2.1
      · cases hstep
  | ioTask k =>
      simp only [TcpServer.step] at hstep
      split at hstep
      · rename_i l task hfind
        split at hstep
        · rename_i hphase
          cases hstep
          exact h.ioTask hphase hfind
        · cases hstep
      · cases hstep
  | mainTask =>
      simp only [TcpServer.step] at hstep
      split at hstep
      · cases hstep
      · rename_i task tasks hmain
        split at hstep
        · cases hstep
          exact h.mainTask hmain
        · cases hstep
  | stop =>
      simp only [TcpServer.step] at hstep
      split at hstep
      · cases hstep
        split
        · rename_i hstarted
          exact h.stopInLoop hstarted
        · exact h
      · cases hstep
  | closed =>
      simp only [TcpServer.step] at hstep
      split at hstep
      · rename_i hready
        cases hstep
        have hphase : q.phase ≠ .stopped := by
          rw [hready.1]
          decide
        refine ⟨h.threads, fun hstarted => ?_, h.next, h.loop, h.listed, h.main, h.io,
          fun _ => h.order hphase⟩
        have hrunning := h.started hstarted
        rw [hready.1] at hrunning
        cases hrunning
      · cases hstep
  | joined =>
      simp only [TcpServer.step] at hstep
      split at hstep
      · rename_i hresetting
        cases hstep
        refine ⟨h.threads, fun hstarted => ?_, h.next, h.loop, h.listed, h.main,
          fun entry hentry => ?_, fun hphase => absurd rfl hphase⟩
        · have hrunning := h.started hstarted
          rw [hresetting] at hrunning
          cases hrunning
        · cases hentry
      · cases hstep

theorem seated_new (n : Nat) : Seated n { threads := n } := by
  refine ⟨rfl, fun _ => rfl, fun _ => (Nat.zero_mod n).symm, fun c hc => ?_, fun c hc => ?_,
    fun task htask => ?_, fun entry hentry => ?_, fun _ c hc => ?_⟩
  · exact absurd hc (Nat.not_lt_zero c)
  · cases hc
  · cases htask
  · cases hentry
  · exact absurd hc (Nat.not_lt_zero c)

/-- A loop has every `n`-th connection. -/
theorem Seated.load_eq (h : Seated n q) (hk : k < n) :
    q.load k = q.accepted / n + if k < q.accepted % n then 1 else 0 := by
  have hn : 0 < n := Nat.zero_lt_of_lt hk
  have hcount : q.load k = q.accepted.count (· ≡ k [MOD n]) := by
    unfold load Nat.count
    refine List.countP_congr fun c hc => ?_
    rw [decide_eq_true_eq, decide_eq_true_eq]
    show (q.conn c).loop = some k ↔ c ≡ k [MOD n]
    rw [h.loop c (List.mem_range.mp hc), if_neg (Nat.ne_of_gt hn), Option.some.injEq, Nat.ModEq,
      Nat.mod_eq_of_lt hk]
  rw [hcount, Nat.count_modEq_card _ hn, Nat.mod_eq_of_lt hk]

end Steps

open Lib.Machine

/-- **A connection has one loop, and is established there before anything else.** In every
run, also one in which the server stops, connection `c` is on IO loop `c` modulo their
number, or on the main loop if there are none; no loop gets two connections more than
another; and the next task of a loop is one of its own connections, which it establishes
exactly when that has not been done yet. -/
theorem loops_in_turn {threads : Nat} {es : List ServerEvent} {q : TcpServer}
    (hrun : Run step (fun _ _ => True) { threads } es q) :
    (∀ c < q.accepted, (q.conn c).loop = if threads = 0 then none else some (c % threads)) ∧
    (∀ j < threads, ∀ k < threads, q.load j ≤ q.load k + 1) ∧
    ∀ k entry, q.phase ≠ .stopped → q.io.find? (·.1 = k) = some entry →
      (q.conn entry.2.conn).loop = some k ∧
      (entry.2 = .established entry.2.conn ↔ (q.conn entry.2.conn).state = .connecting) := by
  have h : Seated threads q := by
    apply hrun.invariant fun _ q => Seated threads q
    · exact seated_new threads
    · exact fun h _ hstep => h.step hstep
  refine ⟨h.loop, fun j hj k hk => ?_, fun k entry hphase hfind => ?_⟩
  · rw [h.load_eq hj, h.load_eq hk]
    split
    · omega
    · omega
  · obtain ⟨l, task⟩ := entry
    have hio : ∀ entry ∈ q.io, (q.conn entry.2.conn).loop = some entry.1 :=
      fun entry hentry => (h.io entry hentry).2
    have hmem := List.mem_of_find?_eq_some hfind
    have hkey : l = k := by simpa using List.find?_some hfind
    have hfirst := h.order hphase task.conn (h.io _ hmem).1
    rw [tasksOf_eraseP hio hfind, if_pos rfl] at hfirst
    exact ⟨hkey ▸ hio _ hmem, hfirst.head⟩

/-- Three connections on two loops; the second is established and closed, and the server
stops before the first has been established. -/
theorem three_on_two : ∃ q, Run step (fun _ _ => True) { threads := 2 }
    [.accept, .accept, .accept, .ioTask 1, .close 1, .mainTask, .stop] q ∧
    q.load 0 ≤ q.load 1 + 1 ∧ (q.conn 2).loop = some 0 ∧ (q.conn 0).state = .connecting := by
  obtain ⟨q, hexec, haccepted, htask, hphase⟩ : ∃ q, exec step (fun _ _ => true)
      [.accept, .accept, .accept, .ioTask 1, .close 1, .mainTask, .stop] { threads := 2 } = some q ∧
      q.accepted = 3 ∧ q.io.find? (·.1 = 0) = some (0, .established 0) ∧ q.phase ≠ .stopped :=
    ⟨_, rfl, rfl, rfl, ServerPhase.noConfusion⟩
  have hrun := run_of_exec (fun _ _ _ => trivial) hexec
  obtain ⟨hloop, hload, hnext⟩ := loops_in_turn hrun
  refine ⟨q, hrun, hload 0 (by decide) 1 (by decide), hloop 2 ?_, ?_⟩
  · rw [haccepted]
    decide
  · exact (hnext 0 _ hphase htask).2.mp rfl

end TcpServer

end SolarDrive.Network
