import SolarDrive.Network.ConnectionState

/-!
# The channel of a connection

`handle_event` calls the handlers of what `epoll` reported, in a fixed order, and
the handlers change what the channel is interested in. A connection is watched
through all of its accesses here; what other threads do stays as it is there.

A peer that has closed its side is noticed by a read of nothing, which a
connection that is not `kConnected` does not make.
-/

namespace SolarDrive.Network

/-- The events that the kernel reports, `revents_`. -/
structure Revents where
  epollin : Bool := false
  epollpri : Bool := false
  epollout : Bool := false
  epollerr : Bool := false
  epollhup : Bool := false
deriving DecidableEq

/-- `events_`: `kReadEvent` and `kWriteEvent`. -/
structure Interest where
  reading : Bool := false
  writing : Bool := false
deriving DecidableEq

def Interest.isNoneEvent (events : Interest) : Bool := !events.reading && !events.writing

/-- The handlers that `handle_event_with_guard` calls. `alive` tells whether the
owner that the channel is tied to can still be locked. -/
def handleEvent (tied alive : Bool) (revents : Revents) : List Frame :=
  if tied && !alive then []
  else
    (if revents.epollerr then [.close] else []) ++
    (if revents.epollhup && !revents.epollin then [.close] else []) ++
    (if revents.epollin || revents.epollpri then [.read] else []) ++
    (if revents.epollout then [.write] else [])

structure Watched where
  conn : Connection := {}
  events : Interest := {}
  tied : Bool := false
deriving DecidableEq

inductive WatchedEvent where
  /-- `epoll` reports events of the socket to the loop thread. -/
  | ready (revents : Revents)
  | of (e : ConnEvent)
deriving DecidableEq

namespace Watched

/-- The handler writes only what the channel lets it: `handle_write` wants
`EPOLLOUT`, and `send_in_loop` leaves to it what is behind other output. -/
def written (p : Watched) (outcome : Outcome) : Frame → Outcome
  | .write => if p.events.writing then outcome else .partly
  | .sendInLoop => if p.events.isNoneEvent || p.events.writing then .partly else outcome
  | _ => outcome

def eventsAfter (p : Watched) (outcome : Outcome) : Frame → Interest
  | .establish =>
      if p.conn.state = .connecting then { p.events with reading := true } else p.events
  | .close => if p.conn.isOpen then {} else p.events
  | .destroyStore => {}
  | .write => if outcome = .complete then { p.events with writing := false } else p.events
  | .sendInLoop =>
      if p.conn.state = .connected ∧ outcome = .partly ∧ ¬ p.events.isNoneEvent then
        { p.events with writing := true }
      else p.events
  | _ => p.events

/-- An access by the frame on top of the stack, with what it does to the channel. -/
def act (p : Watched) (outcome : Outcome) (frame : Frame) : Option Watched :=
  (p.conn.step (.act (p.written outcome frame))).map fun q =>
    { conn := q
      events := p.eventsAfter (p.written outcome frame) frame
      tied := p.tied || (frame = .establish && p.conn.state = .connecting) }

def step (p : Watched) : WatchedEvent → Option Watched
  | .ready revents =>
      if p.conn.loop = [] then
        some { p with conn := { p.conn with loop := handleEvent p.tied true revents } }
      else none
  | .of (.act outcome) =>
      match p.conn.loop with
      | [] => none
      | frame :: _ => p.act outcome frame
  | .of e => (p.conn.step e).map fun q => { p with conn := q }

/-- What happens while the loop thread handles an event: the socket has nothing
left to read, and no other thread changes the state. -/
def AtEnd (p : Watched) : WatchedEvent → Prop
  | .of (.act outcome) => p.conn.loop.head? = some .read → outcome = .failure
  | .of (.call _) | .of .leave | .of .forceCloseLoad => True
  | .of .shutdown => p.conn.state ≠ .connected
  | _ => False

open Lib.Machine

instance (p : Watched) : (e : WatchedEvent) → Decidable (p.AtEnd e)
  | .of (.act _) => inferInstanceAs (Decidable (_ = _ → _ = _))
  | .of (.call _) | .of .leave | .of .forceCloseLoad => isTrue trivial
  | .of .shutdown => inferInstanceAs (Decidable (_ ≠ _))
  | .of (.begin _) | .of .shutdownTask | .of .forceCloseTask | .of .forceCloseStore
  | .ready _ => isFalse id

/-- `handle_event` has handled the events and returned. -/
def Handled (p : Watched) (revents : Revents) (p' : Watched) : Prop :=
  ∃ p₁ es, step p (.ready revents) = some p₁ ∧ Run step AtEnd p₁ es p' ∧ p'.conn.loop = []

/-- The events of a peer that has closed its side. -/
def PeerClosed (revents : Revents) : Prop :=
  revents = { epollin := true } ∨ revents = { epollin := true, epollhup := true }

structure Closed (p : Watched) : Prop where
  state : p.conn.state = .disconnected
  events : p.events = {}
  closeCalls : p.conn.closeCalls = 1

/-- The handling can end, and however it ends it leaves the connection closed. -/
def Closes (p : Watched) (revents : Revents) : Prop :=
  (∃ p', p.Handled revents p') ∧ ∀ p', p.Handled revents p' → p'.Closed

end Watched

namespace Connection

/-- The connection has not begun to close. -/
def Young (q : Connection) : Prop := q.state = .connecting ∨ q.state = .connected

/-- Frames that a disconnected connection can still be in the middle of, and that do
nothing more to it. -/
def spent : Frame → Bool
  | .callback | .callbackElse | .closeCallback | .user | .send | .shutdown | .forceClose => true
  | _ => false

section Closes

variable {q q' : Connection} {frame : Frame} {rest : List Frame} {outcome : Outcome}

/-- Only a close of an open connection adds a call of `close_cb_`. -/
theorem closes_run (hloop : q.loop = frame :: rest) (hnot : frame = .close → q.isOpen = false) :
    ({ q with loop := rest }.run outcome frame).closes = q.closes := by
  unfold closes
  rw [hloop]
  cases frame with
  | close =>
      have hclosed : isOpen { q with loop := rest } = false := hnot rfl
      simp [Connection.run, hclosed]
  | closeCallback =>
      simp only [Connection.run, List.count_cons_self]
      omega
  | read | sendInLoop => cases outcome <;> simp only [Connection.run] <;> split <;> simp
  | write => cases outcome <;> simp [Connection.run]
  | destroyStore | shutdownInLoop | forceCloseStore | user => simp [Connection.run]
  | _ =>
      simp only [Connection.run]
      split <;> simp

/-- A close of an open connection disconnects it, and nothing comes back from there
to where it was. -/
theorem young_run (h : Young ({ q with loop := rest }.run outcome frame)) :
    Young q ∧ (frame = .close → q.isOpen = false) := by
  unfold Young at h ⊢
  cases frame with
  | close =>
      simp only [Connection.run] at h
      split at h <;> simp at h
  | read | sendInLoop =>
      cases outcome <;> simp only [Connection.run] at h <;> split at h <;> exact ⟨h, by simp⟩
  | write => cases outcome <;> exact ⟨h, by simp⟩
  | establish | shutdown =>
      simp only [Connection.run] at h
      split at h <;> simp_all
  | destroyStore | forceCloseStore => simp [Connection.run] at h
  | closeCallback | shutdownInLoop | user => exact ⟨h, by simp⟩
  | _ =>
      simp only [Connection.run] at h
      split at h <;> exact ⟨h, by simp⟩

theorem unclosed_step {e : ConnEvent} (h : Young q → q.closes = 0) (hstep : step q e = some q')
    (hyoung : Young q') : q'.closes = 0 := by
  unfold Connection.step at hstep
  cases e with
  | act outcome =>
      dsimp only at hstep
      split at hstep
      · cases hstep
      · cases hstep
      · rename_i frame rest hnot hloop
        cases hstep
        obtain ⟨hbefore, hframe⟩ := young_run hyoung
        rw [closes_run hloop hframe]
        exact h hbefore
  | begin frame =>
      simp only [Option.ite_none_right_eq_some, Option.some.injEq] at hstep
      obtain ⟨⟨hloop, hbegins⟩, rfl⟩ := hstep
      have hnone := h hyoung
      cases frame <;> simp_all [closes, Frame.begins]
  | call frame =>
      dsimp only at hstep
      split at hstep
      · rename_i rest hloop
        simp only [Option.ite_none_right_eq_some, Option.some.injEq] at hstep
        obtain ⟨hcallable, rfl⟩ := hstep
        have hnone := h hyoung
        cases frame <;> simp_all [closes, Frame.callable]
      · cases hstep
  | leave =>
      dsimp only at hstep
      split at hstep
      · rename_i rest hloop
        cases hstep
        have hnone := h hyoung
        simp_all [closes]
      · cases hstep
  | shutdown =>
      dsimp only at hstep
      split at hstep
      · cases hstep
        simp [Young] at hyoung
      · cases hstep
        exact h hyoung
  | forceCloseLoad =>
      dsimp only at hstep
      split at hstep
      · cases hstep
        exact h hyoung
      · cases hstep
        exact h hyoung
  | forceCloseStore =>
      simp only [Option.ite_none_right_eq_some, Option.some.injEq] at hstep
      obtain ⟨-, rfl⟩ := hstep
      simp [Young] at hyoung
  | _ =>
      simp only [Option.ite_none_right_eq_some, Option.some.injEq] at hstep
      obtain ⟨⟨hloop, -⟩, rfl⟩ := hstep
      have hnone := h hyoung
      simp_all [closes]

/-- The spent frames leave a disconnected connection as it is. -/
theorem spent_run (hspent : spent frame = true) (hstate : q.state = .disconnected) :
    ({ q with loop := rest }.run outcome frame).state = .disconnected ∧
    ∀ f ∈ ({ q with loop := rest }.run outcome frame).loop, spent f = true ∨ f ∈ rest := by
  cases frame <;> simp_all [Connection.run, spent, isOpen]

end Closes

end Connection

namespace Watched

section Handling

variable {p p' : Watched} {frame : Frame} {rest : List Frame} {outcome : Outcome}

/-- An access, taken apart. -/
theorem act_eq_some (hstep : step p (.of (.act outcome)) = some p') :
    ∃ frame rest, p.conn.loop = frame :: rest ∧ frame ≠ .user ∧
      p'.conn = { p.conn with loop := rest }.run (p.written outcome frame) frame ∧
      p'.events = p.eventsAfter (p.written outcome frame) frame := by
  unfold step at hstep
  dsimp only at hstep
  split at hstep
  · cases hstep
  · rename_i frame rest hloop
    unfold act at hstep
    obtain ⟨q, hconn, rfl⟩ := Option.map_eq_some_iff.mp hstep
    refine ⟨frame, rest, hloop, ?_, ?_, rfl⟩
    · rintro rfl
      simp [Connection.step, hloop] at hconn
    · simp only [Connection.step, hloop] at hconn
      split at hconn
      · cases hconn
      · cases hconn
      · rename_i hnot heq
        cases heq
        cases hconn
        rfl

/-- What the connection does, whoever does it. -/
theorem conn_step {e : ConnEvent} (hstep : step p (.of e) = some p') :
    ∃ e', p.conn.step e' = some p'.conn := by
  cases e with
  | act outcome =>
      unfold step at hstep
      dsimp only at hstep
      split at hstep
      · cases hstep
      · obtain ⟨q, hconn, rfl⟩ := Option.map_eq_some_iff.mp hstep
        exact ⟨_, hconn⟩
  | _ =>
      obtain ⟨q, hconn, rfl⟩ := Option.map_eq_some_iff.mp hstep
      exact ⟨_, hconn⟩

theorem count_handleEvent (tied alive : Bool) (revents : Revents) :
    (handleEvent tied alive revents).count .closeCallback = 0 := by
  rw [List.count_eq_zero]
  intro hmem
  unfold handleEvent at hmem
  split at hmem <;> simp at hmem

open Lib.Machine

/-- Until it begins to close, a connection has not called `close_cb_` and is not going to. -/
theorem unclosed {es : List WatchedEvent} (hrun : Run step (fun _ _ => True) {} es p)
    (hyoung : p.conn.Young) : p.conn.closes = 0 := by
  refine hrun.invariant (fun _ p => p.conn.Young → p.conn.closes = 0) (fun _ => rfl) ?_ hyoung
  intro es p p' e h _ hstep hyoung'
  cases e with
  | ready revents =>
      simp only [step, Option.ite_none_right_eq_some, Option.some.injEq] at hstep
      obtain ⟨hloop, rfl⟩ := hstep
      have hnone := h hyoung'
      simp_all [Connection.closes, count_handleEvent]
  | of e =>
      obtain ⟨e', hconn⟩ := conn_step hstep
      exact Connection.unclosed_step h hconn hyoung'

/-- A connected connection while the end of its peer is handled: it reads nothing, it
closes, and it tells its callbacks. -/
def Closing (p : Watched) : Prop :=
  (p.conn.state = .connected ∧ p.conn.closes = 0 ∧
    (p.conn.loop = [.read] ∨ p.conn.loop = [.close])) ∨
  (p.conn.state = .disconnected ∧ p.events = {} ∧ p.conn.closes = 1 ∧
    ∀ f ∈ p.conn.loop, Connection.spent f = true)

theorem Closing.act (h : Closing p) (hcond : AtEnd p (.of (.act outcome)))
    (hstep : step p (.of (.act outcome)) = some p') : Closing p' := by
  obtain ⟨frame, rest, hloop, -, hconn, hevents⟩ := act_eq_some hstep
  rcases h with ⟨hstate, hcloses, htop⟩ | ⟨hstate, hnone, hcloses, hspent⟩
  · have hcount := hcloses
    unfold Connection.closes at hcount
    rcases htop with htop | htop
    · rw [htop] at hloop
      cases hloop
      have hfailure : outcome = .failure := hcond (by rw [htop]; rfl)
      rw [hfailure] at hconn
      refine Or.inl ⟨?_, ?_, Or.inr ?_⟩
      · simp [hconn, Connection.run, written, hstate]
      · simp_all [Connection.closes, Connection.run, written]
      · simp [hconn, Connection.run, written, hstate]
    · rw [htop] at hloop
      cases hloop
      refine Or.inr ⟨?_, ?_, ?_, ?_⟩
      · simp [hconn, Connection.run, Connection.isOpen, hstate]
      · simp [hevents, eventsAfter, Connection.isOpen, hstate]
      · simp_all [Connection.closes, Connection.run, Connection.isOpen]
      · simp [hconn, Connection.run, Connection.isOpen, hstate, Connection.spent]
  · rw [hloop] at hspent
    have hframe := hspent frame List.mem_cons_self
    have hopen : p.conn.isOpen = false := by simp [Connection.isOpen, hstate]
    have hrun := @Connection.spent_run p.conn frame rest (p.written outcome frame) hframe hstate
    refine Or.inr ⟨?_, ?_, ?_, ?_⟩
    · rw [hconn]
      exact hrun.1
    · rw [hevents, ← hnone]
      cases frame <;> simp_all [eventsAfter, Connection.spent]
    · rw [hconn, Connection.closes_run hloop fun _ => hopen, hcloses]
    · intro f hf
      rw [hconn] at hf
      rcases hrun.2 f hf with hf | hf
      · exact hf
      · exact hspent f (List.mem_cons_of_mem _ hf)

theorem Closing.step {e : WatchedEvent} (h : Closing p) (hcond : AtEnd p e)
    (hstep : step p e = some p') : Closing p' := by
  cases e with
  | ready revents => exact hcond.elim
  | of e =>
      cases e with
      | act outcome => exact h.act hcond hstep
      | call frame =>
          obtain ⟨q, hconn, rfl⟩ := Option.map_eq_some_iff.mp hstep
          unfold Connection.step at hconn
          dsimp only at hconn
          split at hconn
          · rename_i rest hloop
            simp only [Option.ite_none_right_eq_some, Option.some.injEq] at hconn
            obtain ⟨hcallable, rfl⟩ := hconn
            rcases h with ⟨-, -, htop⟩ | ⟨hstate, hnone, hcloses, hspent⟩
            · simp [hloop] at htop
            · refine Or.inr ⟨hstate, hnone, ?_, ?_⟩
              · cases frame <;> simp_all [Connection.closes, Frame.callable]
              · cases frame <;> simp_all [Connection.spent, Frame.callable]
          · cases hconn
      | leave =>
          obtain ⟨q, hconn, rfl⟩ := Option.map_eq_some_iff.mp hstep
          unfold Connection.step at hconn
          dsimp only at hconn
          split at hconn
          · rename_i rest hloop
            cases hconn
            rcases h with ⟨-, -, htop⟩ | ⟨hstate, hnone, hcloses, hspent⟩
            · simp [hloop] at htop
            · refine Or.inr ⟨hstate, hnone, ?_, ?_⟩
              · simp_all [Connection.closes]
              · simp_all
          · cases hconn
      | shutdown =>
          obtain ⟨q, hconn, rfl⟩ := Option.map_eq_some_iff.mp hstep
          unfold Connection.step at hconn
          have hstate : p.conn.state ≠ .connected := hcond
          rw [if_neg hstate] at hconn
          cases hconn
          exact h
      | forceCloseLoad =>
          obtain ⟨q, hconn, rfl⟩ := Option.map_eq_some_iff.mp hstep
          unfold Connection.step at hconn
          dsimp only at hconn
          split at hconn
          · cases hconn
            exact h
          · cases hconn
            exact h
      | _ => exact hcond.elim

theorem handleEvent_of_peerClosed {revents : Revents} (tied : Bool) (h : PeerClosed revents) :
    handleEvent tied true revents = [.read] := by
  rcases h with rfl | rfl
  · cases tied <;> rfl
  · cases tied <;> rfl

/-- The callbacks of a close that return at once. -/
theorem handled_of_connected {revents : Revents} (hpeer : PeerClosed revents)
    (hloop : p.conn.loop = []) (hstate : p.conn.state = .connected) :
    ∃ p', p.Handled revents p' := by
  have hexec : (exec step (fun p e => decide (p.AtEnd e))
      [.of (.act .failure), .of (.act .complete), .of (.act .complete), .of (.act .complete),
        .of .leave, .of (.act .complete)]
      { p with conn := { p.conn with loop := [.read] } }).map (·.conn.loop) = some [] := by
    simp [exec, AtEnd, step, act, Connection.step, Connection.run, Connection.isOpen, written,
      hstate]
    rfl
  obtain ⟨p', hexec, hend⟩ := Option.map_eq_some_iff.mp hexec
  refine ⟨p', _, _, ?_, run_of_exec (fun _ _ h => of_decide_eq_true h) hexec, hend⟩
  rw [step, if_pos hloop, handleEvent_of_peerClosed _ hpeer]

/-- A read that does not look at the socket is all there is. -/
theorem handled_of_not_connected {revents : Revents} (hpeer : PeerClosed revents)
    (hloop : p.conn.loop = []) (hstate : p.conn.state ≠ .connected) : p.Handled revents p := by
  have hexec : exec step (fun p e => decide (p.AtEnd e)) [.of (.act .failure)]
      { p with conn := { p.conn with loop := [.read] } } =
      some { p with conn := { p.conn with loop := [] } } := by
    simp [exec, AtEnd, step, act, Connection.step, Connection.run, eventsAfter, hstate]
  have hsame : { p with conn := { p.conn with loop := [] } } = p := by
    rw [← hloop]
  rw [hsame] at hexec
  refine ⟨_, _, ?_, run_of_exec (fun _ _ h => of_decide_eq_true h) hexec, hloop⟩
  rw [step, if_pos hloop, handleEvent_of_peerClosed _ hpeer]

theorem closed_of_handled {revents : Revents} (hpeer : PeerClosed revents)
    (hloop : p.conn.loop = []) (hstate : p.conn.state = .connected) (hcloses : p.conn.closes = 0)
    (hhandled : p.Handled revents p') : p'.Closed := by
  obtain ⟨p₁, es, hready, hrun, hend⟩ := hhandled
  rw [step, if_pos hloop, handleEvent_of_peerClosed _ hpeer] at hready
  cases hready
  have hbegin : Closing { p with conn := { p.conn with loop := [.read] } } := by
    refine Or.inl ⟨hstate, ?_, Or.inl rfl⟩
    simpa [Connection.closes, hloop] using hcloses
  have hclosing : Closing p' :=
    hrun.invariant (fun _ p => Closing p) hbegin fun h hcond hstep => h.step hcond hstep
  rcases hclosing with ⟨-, -, htop⟩ | ⟨hdisconnected, hevents, hone, -⟩
  · simp [hend] at htop
  · refine ⟨hdisconnected, hevents, ?_⟩
    simpa [Connection.closes, hend] using hone

/-- In every state that a connection reaches, whatever was sent, shut down and forced
before and is still to be written, the event of a peer that has closed its side closes
the connection if and only if it is still `kConnected`: after a `shutdown` it is not
looked at. -/
theorem closes_iff_connected {es : List WatchedEvent}
    (hrun : Run step (fun _ _ => True) {} es p) (hloop : p.conn.loop = [])
    (hopen : p.conn.isOpen = true) {revents : Revents} (hpeer : PeerClosed revents) :
    p.Closes revents ↔ p.conn.state = .connected := by
  constructor
  · intro hcloses
    by_cases hstate : p.conn.state = .connected
    · exact hstate
    · have hclosed := hcloses.2 p (handled_of_not_connected hpeer hloop hstate)
      simp [Connection.isOpen, hclosed.state] at hopen
  · intro hstate
    have hnone := unclosed hrun (Or.inr hstate)
    exact ⟨handled_of_connected hpeer hloop hstate,
      fun p' hhandled => closed_of_handled hpeer hloop hstate hnone hhandled⟩

/-- Established, and then a part of an answer is sent from a callback. -/
def answering : List WatchedEvent :=
  [.of (.begin .establish), .of (.act .complete), .of (.act .complete), .of .leave,
    .ready { epollin := true }, .of (.act .complete), .of (.call .send), .of (.act .complete),
    .of (.act .partly), .of .leave]

theorem answering_closes : ∃ p, Run step (fun _ _ => True) {} answering p ∧
    p.events = { reading := true, writing := true } ∧
    p.Closes { epollin := true, epollhup := true } := by
  have hexec : exec step (fun _ _ => true) answering {} =
      some { conn := { state := .connected, invoked := [.connected], active := 1 }
             events := { reading := true, writing := true }, tied := true } := by
    decide +kernel
  have hrun : Run step (fun _ _ => True) {} answering _ := run_of_exec (fun _ _ _ => trivial) hexec
  exact ⟨_, hrun, rfl, (closes_iff_connected hrun rfl rfl (Or.inr rfl)).mpr rfl⟩

/-- The server shuts the connection down, and then its peer closes: `handle_read`
returns, with the state and the interest as they were. -/
theorem shutdown_ignores_peer : ¬ ∀ es p, Run step (fun _ _ => True) {} es p →
    p.conn.loop = [] → p.conn.isOpen = true → ∀ revents, PeerClosed revents →
      p.Closes revents := by
  intro h
  have hexec : exec step (fun _ _ => true)
      [.of (.begin .establish), .of (.act .complete), .of (.act .complete), .of .leave,
        .of .shutdown, .of .shutdownTask, .of (.act .complete)] {} =
      some { conn := { state := .disconnecting, invoked := [.connected], active := 1 }
             events := { reading := true }, tied := true } := by
    decide +kernel
  have hcloses := h _ _ (run_of_exec (fun _ _ _ => trivial) hexec) rfl rfl _ (Or.inl rfl)
  have hclosed := hcloses.2 _ (handled_of_not_connected (Or.inl rfl) rfl nofun)
  exact nomatch hclosed.state

end Handling

end Watched

end SolarDrive.Network
