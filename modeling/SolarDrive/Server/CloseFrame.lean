import SolarDrive.Server.SessionLock

/-!
# Frames behind a Close frame

The handler answers a Close frame with one of its own and leaves the connection as it
is: connected, registered, and read. So more follows if the client goes on, if a push
finds the connection in the registry, or if a pushed frame was on its way to its loop
when the answer was sent. `Parting` says that none of this happens, and
`nothing_after_close` that then the answer stays the last frame.

The connections are seen from the end of their upgrade on. The handler runs on the
thread of the connection's loop, the pushes on any.
-/

namespace SolarDrive.Server

open Lib Network Ws Lib.Machine

/-- What `feed` sends for a Close frame. -/
def closeFrame : Bytes := encode kClose []

/-- The write of a message does not fail. -/
def Link.takes (text : Bytes) (result : WriteResult) (l : Link) : Bool :=
  l.conn.isConnected && (l.conn.sendInLoop text result).2 ≠ .error

namespace SessionManager

/-- A frame for the connection is on its way, in a call of a thread or in a queue. -/
def InFlight (q : SessionManager) (c : Nat) : Prop :=
  (∃ t text, Activation.send c text ∈ q.calls t) ∨ ∃ t text, (c, text) ∈ q.tasks t

/-- The connections that a call finds in the registry to send to. -/
def targets (q : SessionManager) : Op → List Nat
  | .pushProgress uploadId _ _ _ => (q.sessions.lookup uploadId).toList
  | .pushComplete uploadId _ => (q.sessions.lookup uploadId).toList
  | .broadcastMetrics _ => q.metricsSubscribers
  | _ => []

end SessionManager

structure WsServer where
  manager : SessionManager := {}
  inputBuffer : Nat → Bytes := fun _ => []
  /-- The frames of each connection that were written or buffered. -/
  sent : Nat → List Bytes := fun _ => []
  /-- An exception has left a loop. -/
  crashed : Bool := false

inductive WsEvent where
  /-- A read event of the connection brings so many bytes. -/
  | read (c : Nat) (bytes : Bytes)
  | manager (event : ManagerEvent)

/-- HTTP responses and the frames of an upgrade come before. -/
def ManagerEvent.upgraded : ManagerEvent → Bool
  | .send _ _ _ => false
  | .respond _ _ _ _ => false
  | _ => true

namespace WsServer

/-- Every connection's frames after an event. -/
def sentAfter (loopOf : Nat → Nat) (s : WsServer) : ManagerEvent → Nat → List Bytes
  | .step t result =>
      match s.manager.calls t with
      | .send c text :: _ =>
          if loopOf c = t ∧ (s.manager.link c).takes text result then
            Function.update s.sent c (s.sent c ++ [text])
          else s.sent
      | _ => s.sent
  | _ => s.sent

/-- The message callback, with `feed`. -/
def onMessage (loopOf : Nat → Nat) (c : Nat) (data : Bytes) (s : WsServer) : WsServer :=
  match decode data with
  | .incomplete => { s with inputBuffer := Function.update s.inputBuffer c data }
  | .frame f consumed =>
      { s with
        inputBuffer := Function.update s.inputBuffer c (data.drop consumed)
        manager := { s.manager with
          calls := Function.update s.manager.calls (loopOf c)
            ((replyTo f).map fun text => .send c text) } }
  | .lengthError => { s with crashed := true }

def step (loopOf : Nat → Nat) (s : WsServer) (event : WsEvent) : Option WsServer :=
  if s.crashed then none
  else
    match event with
    | .read c bytes =>
        if s.manager.deadlock = false ∧ s.manager.calls (loopOf c) = [] ∧ bytes ≠ [] then
          if (s.manager.link c).conn.isConnected then
            some (s.onMessage loopOf c (s.inputBuffer c ++ bytes))
          else some s
        else none
    | .manager event =>
        if event.upgraded then
          (s.manager.step loopOf event).map fun manager =>
            { s with manager, sent := s.sentAfter loopOf event }
        else none

/-- The answer to a Close frame has been sent, and the connection is still open. -/
def Closing (s : WsServer) (c : Nat) : Prop :=
  closeFrame ∈ s.sent c ∧ (s.manager.link c).conn.state = .connected

/-- On a connection that has been sent its Close frame the client completes no Ping and no
other Close; no push finds such a connection in the registry; and no other frame is on its
way to the connection when that frame is sent. -/
def Parting (s : WsServer) : WsEvent → Prop
  | .read c bytes => s.Closing c → ∀ f consumed,
      decode (s.inputBuffer c ++ bytes) = .frame f consumed → f.opcode ≠ kPing ∧ f.opcode ≠ kClose
  | .manager (.step t _) =>
      match s.manager.calls t with
      | .body op :: _ => ∀ c ∈ s.manager.targets op, ¬ s.Closing c
      | .send c text :: rest => text = closeFrame → (s.manager.link c).conn.state = .connected →
          ¬ { s.manager with calls := Function.update s.manager.calls t rest }.InFlight c
      | _ => True
  | .manager _ => True

end WsServer

/-! ## What the connections do -/

namespace Link

variable {l : Link} {text : Bytes} {result : WriteResult}

theorem stream_handleClose (l : Link) : l.handleClose.1.conn.stream = l.conn.stream := by
  rw [handleClose_eq]
  split <;> rfl

theorem stream_proceed (r : TcpConnection × Next) (l : Link) :
    (l.proceed r).1.conn.stream = r.1.stream := by
  obtain ⟨conn, next⟩ := r
  rw [proceed_eq]
  cases next with
  | nothing => rfl
  | writeComplete =>
      dsimp only
      split
      · rw [forceClose_eq]
        split
        · exact stream_handleClose
            { l with conn := { conn with state := .disconnecting } }
        · rfl
      · rfl
  | error => exact stream_handleClose { l with conn }

theorem handleClose_disconnected (l : Link) : l.handleClose.1.conn.state = .disconnected := by
  rw [handleClose_eq]
  split <;> rfl

/-- Whatever is written of the buffer, the stream stays, and no connection opens again. -/
theorem Sound.write_keeps (h : Sound l) (result : WriteResult) :
    (l.handleWrite result).1.conn.stream = l.conn.stream ∧
    ((l.handleWrite result).1.conn.state = .connected → l.conn.state = .connected) := by
  unfold Link.handleWrite
  rw [stream_proceed]
  rcases h.steady with ⟨hopen, hflow⟩ | ⟨hclosed, hnone⟩
  · refine ⟨?_, fun _ => hopen⟩
    rcases TcpConnection.handleWrite_cases result hflow with ⟨-, -, hstream, -⟩ | ⟨hfailed, -⟩
    · exact hstream
    · rw [TcpConnection.handleWrite_error hfailed]
  · rw [TcpConnection.handleWrite_none hnone]
    exact ⟨rfl, fun hopen => hopen⟩

/-- A message that is taken is added to the stream. -/
theorem Sound.send_keeps (h : Sound l) (text : Bytes) (result : WriteResult) :
    (l.sendInLoop text result).1.conn.stream =
        (if l.takes text result then l.conn.stream ++ text else l.conn.stream) ∧
      ((l.sendInLoop text result).1.conn.state = .connected → l.conn.state = .connected) := by
  rcases h.steady with ⟨hopen, hflow⟩ | ⟨hclosed, -⟩
  · refine ⟨?_, fun _ => hopen⟩
    unfold Link.sendInLoop
    rw [stream_proceed]
    by_cases herror : (l.conn.sendInLoop text result).2 = .error
    · have hnot : l.takes text result = false := by simp [takes, herror]
      rw [hnot, TcpConnection.sendInLoop_error herror]
      rfl
    · have htaken : l.takes text result = true := by
        simp [takes, herror, TcpConnection.isConnected, hopen]
      obtain ⟨-, -, hcases⟩ := TcpConnection.sendInLoop_cases text result hopen hflow
      rw [if_pos htaken]
      rcases hcases with ⟨-, hstream, -⟩ | ⟨-, hstream, -⟩ | ⟨hfailed, -⟩
      · exact hstream
      · exact hstream
      · exact absurd hfailed herror
  · have hnot : l.takes text result = false := by
      simp [takes, TcpConnection.isConnected, hclosed]
    rw [sendInLoop_of_disconnected hclosed, hnot]
    exact ⟨rfl, fun hopen => hopen⟩

end Link

/-! ## What is on its way -/

namespace SessionManager

variable {loopOf : Nat → Nat} {q q' : SessionManager} {c d t : Nat} {text : Bytes}

/-- The calls of one thread are replaced. -/
theorem InFlight.calls {calls : List Activation}
    (h : InFlight { q with calls := Function.update q.calls t calls } c) :
    (∃ text, Activation.send c text ∈ calls) ∨ q.InFlight c := by
  rcases h with ⟨u, text, hmem⟩ | htask
  · dsimp only at hmem
    by_cases hu : u = t
    · subst hu
      rw [Function.update_self] at hmem
      exact Or.inl ⟨text, hmem⟩
    · rw [Function.update_of_ne hu] at hmem
      exact Or.inr (Or.inl ⟨u, text, hmem⟩)
  · exact Or.inr (Or.inr htask)

/-- What a thread calls next is some of what it was to call. -/
theorem InFlight.fewer {calls : List Activation}
    (h : InFlight { q with calls := Function.update q.calls t calls } c)
    (hcalls : ∀ text, Activation.send c text ∈ calls → Activation.send c text ∈ q.calls t) :
    q.InFlight c := by
  rcases h.calls with ⟨text, hmem⟩ | hbefore
  · exact Or.inl ⟨t, text, hcalls text hmem⟩
  · exact hbefore

/-- A connection that does something may ask for the lock, and sends nothing else. -/
theorem InFlight.settle {r : Link × Bool} (h : (q.settle t c r).InFlight d) : q.InFlight d := by
  refine InFlight.fewer (q := q) (t := t) h fun text hmem => ?_
  rcases List.mem_append.mp hmem with hlock | hmem
  · split at hlock
    · simp at hlock
    · cases hlock
  · exact hmem

theorem InFlight.body {op : Op} (h : (q.body op).1.InFlight c) : q.InFlight c := by
  cases op <;> exact h

theorem mem_body {op : Op} (h : Activation.send c text ∈ (q.body op).2) : c ∈ q.targets op := by
  have hpush : ∀ uploadId frame, Activation.send c text ∈ q.pushTo uploadId frame →
      c ∈ (q.sessions.lookup uploadId).toList := by
    intro uploadId frame hmem
    unfold pushTo at hmem
    cases hsession : q.sessions.lookup uploadId with
    | none =>
        rw [hsession] at hmem
        cases hmem
    | some d =>
        rw [hsession] at hmem
        obtain ⟨rfl, -⟩ : c = d ∧ text = encode kText frame := by simpa using hmem
        simp
  cases op with
  | pushProgress uploadId percent bytesUploaded totalSize => exact hpush uploadId _ h
  | pushComplete uploadId fileId => exact hpush uploadId _ h
  | broadcastMetrics json =>
      obtain ⟨d, hd, heq⟩ := List.mem_map.mp h
      cases heq
      exact hd
  | registerSession uploadId c => cases h
  | registerMetrics c => cases h
  | removeSession c => cases h
  | removeSessionById uploadId => cases h

/-- The connections after a step that sends no frame. -/
structure Passes (q q' : SessionManager) : Prop where
  links : ∀ c, (q'.link c).Sound
  stream : ∀ c, (q'.link c).conn.stream = (q.link c).conn.stream
  opened : ∀ c, (q'.link c).conn.state = .connected → (q.link c).conn.state = .connected

theorem passes_same (hlinks : ∀ c, (q.link c).Sound) (h : q'.link = q.link) : Passes q q' := by
  refine ⟨?_, ?_, ?_⟩ <;> intro c <;> rw [h]
  · exact hlinks c
  · exact id

/-- One connection does something by itself. -/
theorem passes_settle {r : Link × Bool} (hlinks : ∀ c, (q.link c).Sound) (hsound : r.1.Sound)
    (hstream : r.1.conn.stream = (q.link c).conn.stream)
    (hopened : r.1.conn.state = .connected → (q.link c).conn.state = .connected) :
    Passes q (q.settle t c r) := by
  have hlink : ∀ d, ((q.settle t c r).link d = r.1 ∧ d = c) ∨ (q.settle t c r).link d = q.link d := by
    intro d
    by_cases hd : d = c
    · subst hd
      exact Or.inl ⟨Function.update_self .., rfl⟩
    · exact Or.inr (Function.update_of_ne hd ..)
  refine ⟨?_, ?_, ?_⟩ <;> intro d <;> rcases hlink d with ⟨heq, rfl⟩ | heq <;> rw [heq]
  · exact hsound
  · exact hlinks d
  · exact hstream
  · exact hopened
  · exact id

end SessionManager

/-! ## The answer stays the last -/

namespace WsServer

variable {loopOf : Nat → Nat} {s s' : WsServer} {q : SessionManager} {c t : Nat} {text : Bytes}

/-- The frames of a connection are its stream, a Close frame is the last of them, and then
none is on its way while the connection is open. -/
structure Settled (s : WsServer) : Prop where
  links : ∀ c, (s.manager.link c).Sound
  stream : ∀ c, (s.manager.link c).conn.stream = (s.sent c).flatten
  last : ∀ c before after, s.sent c = before ++ closeFrame :: after → after = []
  silent : ∀ c, s.Closing c → ¬ s.manager.InFlight c

/-- A step that sends nothing and puts nothing on its way to a connection that is closing. -/
theorem Settled.pass (h : Settled s) (hpass : s.manager.Passes s'.manager) (hsent : s'.sent = s.sent)
    (hflight : ∀ c, s.Closing c → s'.manager.InFlight c → s.manager.InFlight c) : Settled s' := by
  refine ⟨hpass.links, fun c => ?_, fun c => ?_, fun c hclosing hflies => ?_⟩
  · rw [hpass.stream, hsent, h.stream]
  · rw [hsent]
    exact h.last c
  · obtain ⟨hclose, hopen⟩ := hclosing
    rw [hsent] at hclose
    have hclosing : s.Closing c := ⟨hclose, hpass.opened c hopen⟩
    exact h.silent c hclosing (hflight c hclosing hflies)

theorem last_snoc {frames before after : List Bytes} (hnew : closeFrame ∉ frames)
    (h : frames ++ [text] = before ++ closeFrame :: after) : after = [] := by
  induction after using List.reverseRecOn with
  | nil => rfl
  | append_singleton after frame _ =>
      rw [← List.cons_append, ← List.append_assoc] at h
      obtain ⟨rfl, -⟩ := List.append_inj' h rfl
      exact absurd (List.mem_append_right before List.mem_cons_self) hnew

/-- A frame is sent on the connection's own loop. -/
theorem Settled.send {result : WriteResult} {rest : List Activation} (h : Settled s)
    (hcalls : s.manager.calls t = .send c text :: rest)
    (hpart : text = closeFrame → (s.manager.link c).conn.state = .connected →
      ¬ { s.manager with calls := Function.update s.manager.calls t rest }.InFlight c)
    (htakes : (s.manager.link c).takes text result = true) :
    Settled { s with
      manager := { s.manager with calls := Function.update s.manager.calls t rest }.settle t c
        ((s.manager.link c).sendInLoop text result)
      sent := Function.update s.sent c (s.sent c ++ [text]) } := by
  have hopen : (s.manager.link c).conn.state = .connected := by
    unfold Link.takes TcpConnection.isConnected at htakes
    simp only [Bool.and_eq_true, decide_eq_true_eq] at htakes
    exact htakes.1
  -- the frame was on its way, so no Close frame has been sent before it
  have hnew : closeFrame ∉ s.sent c := by
    intro hclose
    refine h.silent c ⟨hclose, hopen⟩ (Or.inl ⟨t, text, ?_⟩)
    rw [hcalls]
    exact List.mem_cons_self
  have hsound : ((s.manager.link c).sendInLoop text result).1.Sound := (h.links c).sendInLoop
  obtain ⟨hstream, -⟩ := (h.links c).send_keeps text result
  rw [if_pos htakes] at hstream
  have hflight : ∀ d, ({ s.manager with calls := Function.update s.manager.calls t rest }.settle t c
      ((s.manager.link c).sendInLoop text result)).InFlight d →
      { s.manager with calls := Function.update s.manager.calls t rest }.InFlight d :=
    fun d hflies => hflies.settle
  refine ⟨fun d => ?_, fun d => ?_, fun d before after => ?_, fun d hclosing hflies => ?_⟩
  · by_cases hd : d = c
    · subst hd
      simpa [SessionManager.settle] using hsound
    · simpa [SessionManager.settle, Function.update_of_ne hd] using h.links d
  · by_cases hd : d = c
    · subst hd
      simp [SessionManager.settle, hstream, h.stream]
    · simpa [SessionManager.settle, Function.update_of_ne hd] using h.stream d
  · by_cases hd : d = c
    · subst hd
      dsimp only
      rw [Function.update_self]
      exact last_snoc hnew
    · dsimp only
      rw [Function.update_of_ne hd]
      exact h.last d before after
  · obtain ⟨hclose, hstate⟩ := hclosing
    dsimp only at hclose hstate hflies
    by_cases hd : d = c
    · subst hd
      rw [Function.update_self] at hclose
      have htext : text = closeFrame := by
        rcases List.mem_append.mp hclose with hbefore | hlast
        · exact absurd hbefore hnew
        · exact (List.mem_singleton.mp hlast).symm
      exact hpart htext hopen (hflight d hflies)
    · rw [Function.update_of_ne hd] at hclose
      have hstate : (s.manager.link d).conn.state = .connected := by
        simpa [SessionManager.settle, Function.update_of_ne hd] using hstate
      refine h.silent d ⟨hclose, hstate⟩ ((hflight d hflies).fewer fun text' hmem => ?_)
      rw [hcalls]
      exact List.mem_cons_of_mem _ hmem

/-- The innermost call of a thread goes on. -/
theorem Settled.proceed {call : Activation} {result : WriteResult} {rest : List Activation}
    (h : Settled s) (hcalls : s.manager.calls t = call :: rest)
    (hpart : s.Parting (.manager (.step t result)))
    (hstep : s.manager.proceed loopOf t result rest call = some q) :
    Settled { s with manager := q, sent := s.sentAfter loopOf (.step t result) } := by
  unfold Parting at hpart
  simp only [hcalls] at hpart
  have hrest : ∀ {d text}, Activation.send d text ∈ rest →
      Activation.send d text ∈ s.manager.calls t := by
    intro d text hmem
    rw [hcalls]
    exact List.mem_cons_of_mem _ hmem
  cases call with
  | lock op =>
      have hsent : s.sentAfter loopOf (.step t result) = s.sent := by simp [sentAfter, hcalls]
      unfold SessionManager.proceed at hstep
      dsimp only at hstep
      split at hstep
      · cases hstep
        refine h.pass (SessionManager.passes_same h.links rfl) hsent fun d _ hflies => ?_
        exact SessionManager.InFlight.fewer (q := s.manager) hflies fun text hmem =>
          hrest (by simpa using hmem)
      · split at hstep
        · cases hstep
          exact h.pass (SessionManager.passes_same h.links rfl) hsent fun d _ hflies => hflies
        · cases hstep
  | body op =>
      have hsent : s.sentAfter loopOf (.step t result) = s.sent := by simp [sentAfter, hcalls]
      obtain ⟨-, hlink, hsame, -⟩ := SessionManager.body_frame s.manager op
      cases hstep
      refine h.pass (SessionManager.passes_same h.links hlink) hsent fun d hclosing hflies => ?_
      rcases SessionManager.InFlight.calls hflies with ⟨text, hmem⟩ | hbefore
      · rcases List.mem_append.mp hmem with hnew | hold
        · exact absurd hclosing (hpart d (SessionManager.mem_body hnew))
        · exact Or.inl ⟨t, text, hrest hold⟩
      · exact hbefore.body
  | unlock =>
      have hsent : s.sentAfter loopOf (.step t result) = s.sent := by simp [sentAfter, hcalls]
      cases hstep
      refine h.pass (SessionManager.passes_same h.links rfl) hsent fun d _ hflies => ?_
      exact SessionManager.InFlight.fewer (q := s.manager) hflies fun text hmem => hrest hmem
  | send c text =>
      unfold SessionManager.proceed at hstep
      dsimp only at hstep
      split at hstep
      · rename_i hclosed
        have hsent : s.sentAfter loopOf (.step t result) = s.sent := by
          simp only [Bool.not_eq_true'] at hclosed
          simp [sentAfter, hcalls, Link.takes, hclosed]
        cases hstep
        refine h.pass (SessionManager.passes_same h.links rfl) hsent fun d _ hflies => ?_
        exact SessionManager.InFlight.fewer (q := s.manager) hflies fun text hmem => hrest hmem
      · split at hstep
        · rename_i hown
          cases hstep
          cases htakes : (s.manager.link c).takes text result with
          | true =>
              have hsent : s.sentAfter loopOf (.step t result) =
                  Function.update s.sent c (s.sent c ++ [text]) := by
                simp [sentAfter, hcalls, hown, htakes]
              rw [hsent]
              exact h.send hcalls hpart htakes
          | false =>
              -- the write fails and the connection closes
              have hsent : s.sentAfter loopOf (.step t result) = s.sent := by
                simp [sentAfter, hcalls, htakes]
              obtain ⟨hstream, hopened⟩ := (h.links c).send_keeps text result
              rw [htakes] at hstream
              have hsound : ((s.manager.link c).sendInLoop text result).1.Sound :=
                (h.links c).sendInLoop
              have hpass := SessionManager.passes_settle (t := t) (c := c)
                (q := { s.manager with calls := Function.update s.manager.calls t rest })
                h.links hsound hstream hopened
              refine h.pass ⟨hpass.links, hpass.stream, hpass.opened⟩ hsent fun d _ hflies => ?_
              exact hflies.settle.fewer fun text hmem => hrest hmem
        · rename_i hother
          have hsent : s.sentAfter loopOf (.step t result) = s.sent := by
            simp [sentAfter, hcalls, hother]
          cases hstep
          refine h.pass (SessionManager.passes_same h.links rfl) hsent fun d _ hflies => ?_
          rcases hflies with ⟨u, text', hmem⟩ | ⟨u, text', hmem⟩
          · have hflies : { s.manager with
                calls := Function.update s.manager.calls t rest }.InFlight d :=
              Or.inl ⟨u, text', hmem⟩
            exact hflies.fewer fun text hmem => hrest hmem
          · -- the frame has moved from a call to the queue of its loop
            dsimp only at hmem
            by_cases hu : u = loopOf c
            · subst hu
              rw [Function.update_self] at hmem
              rcases List.mem_append.mp hmem with hold | hnew
              · exact Or.inr ⟨_, text', hold⟩
              · simp only [List.mem_singleton, Prod.mk.injEq] at hnew
                obtain ⟨rfl, rfl⟩ := hnew
                refine Or.inl ⟨t, text', ?_⟩
                rw [hcalls]
                exact List.mem_cons_self
            · rw [Function.update_of_ne hu] at hmem
              exact Or.inr ⟨u, text', hmem⟩

theorem Settled.manager {event : ManagerEvent} (h : Settled s) (hpart : s.Parting (.manager event))
    (hlater : event.upgraded = true) (hstep : s.manager.step loopOf event = some q) :
    Settled { s with manager := q, sent := s.sentAfter loopOf event } := by
  unfold SessionManager.step at hstep
  split at hstep
  · cases hstep
  · cases event with
    | send t c text => cases hlater
    | respond c text keepAlive result => cases hlater
    | call t op =>
        obtain ⟨-, hq⟩ := Option.ite_none_right_eq_some.mp hstep
        cases hq
        refine h.pass (SessionManager.passes_same h.links rfl) rfl fun d _ hflies => ?_
        exact SessionManager.InFlight.fewer (q := s.manager) hflies fun text hmem => by simp at hmem
    | writable c result =>
        obtain ⟨-, hq⟩ := Option.ite_none_right_eq_some.mp hstep
        cases hq
        obtain ⟨hstream, hopened⟩ := (h.links c).write_keeps result
        exact h.pass (SessionManager.passes_settle h.links (h.links c).handleWrite hstream hopened)
          rfl fun d _ hflies => hflies.settle
    | close c =>
        obtain ⟨-, hq⟩ := Option.ite_none_right_eq_some.mp hstep
        cases hq
        refine h.pass (SessionManager.passes_settle h.links (h.links c).handleClose
          (Link.stream_handleClose _) fun hopen => ?_) rfl fun d _ hflies => hflies.settle
        rw [Link.handleClose_disconnected] at hopen
        cases hopen
    | task t =>
        dsimp only at hstep
        split at hstep
        · rename_i c text tasks _ htasks
          cases hstep
          refine h.pass (SessionManager.passes_same h.links rfl) rfl fun d _ hflies => ?_
          -- what the thread takes up was in its queue
          rcases hflies with ⟨u, text', hmem⟩ | ⟨u, text', hmem⟩
          · have hflies : { s.manager with
                calls := Function.update s.manager.calls t [.send c text] }.InFlight d :=
              Or.inl ⟨u, text', hmem⟩
            rcases hflies.calls with ⟨text', hnew⟩ | hbefore
            · obtain ⟨rfl, rfl⟩ : d = c ∧ text' = text := by simpa using hnew
              refine Or.inr ⟨t, text', ?_⟩
              rw [htasks]
              exact List.mem_cons_self
            · exact hbefore
          · dsimp only at hmem
            by_cases hu : u = t
            · subst hu
              rw [Function.update_self] at hmem
              refine Or.inr ⟨u, text', ?_⟩
              rw [htasks]
              exact List.mem_cons_of_mem _ hmem
            · rw [Function.update_of_ne hu] at hmem
              exact Or.inr ⟨u, text', hmem⟩
        · cases hstep
    | step t result =>
        dsimp only at hstep
        split at hstep
        · cases hstep
        · rename_i call rest hcalls
          exact h.proceed hcalls hpart hstep

theorem Settled.onMessage {data : Bytes} (h : Settled s)
    (hpart : s.Closing c → ∀ f consumed, decode data = .frame f consumed →
      f.opcode ≠ kPing ∧ f.opcode ≠ kClose) : Settled (s.onMessage loopOf c data) := by
  unfold WsServer.onMessage
  split
  · exact ⟨h.links, h.stream, h.last, h.silent⟩
  · rename_i f consumed hdecode
    refine h.pass (SessionManager.passes_same h.links rfl) rfl fun d hclosing hflies => ?_
    rcases SessionManager.InFlight.calls hflies with ⟨text, hmem⟩ | hbefore
    · obtain ⟨reply, hreply, heq⟩ := List.mem_map.mp hmem
      cases heq
      -- only a Ping and a Close are answered
      obtain ⟨hping, hclose⟩ := hpart hclosing f consumed hdecode
      rw [replyTo, if_neg hping, if_neg hclose] at hreply
      cases hreply
    · exact hbefore
  · exact ⟨h.links, h.stream, h.last, h.silent⟩

theorem Settled.step {event : WsEvent} (h : Settled s) (hpart : s.Parting event)
    (hstep : s.step loopOf event = some s') : Settled s' := by
  unfold WsServer.step at hstep
  split at hstep
  · cases hstep
  · cases event with
    | read c bytes =>
        obtain ⟨-, hread⟩ := Option.ite_none_right_eq_some.mp hstep
        split at hread
        · cases hread
          exact h.onMessage hpart
        · cases hread
          exact h
    | manager event =>
        obtain ⟨hlater, hmanager⟩ := Option.ite_none_right_eq_some.mp hstep
        obtain ⟨q, hq, rfl⟩ := Option.map_eq_some_iff.mp hmanager
        exact h.manager hpart hlater hq

theorem settled_initial : Settled {} := by
  refine ⟨SessionManager.orderly_initial.links, fun c => rfl, fun c before after h => ?_,
    fun c h => ?_⟩
  · cases before <;> cases h
  · cases h.1

/-- **Nothing follows a Close frame** in a run in which the client goes quiet, the pushes
leave the connection alone and none was under way. The frames are all that was written or
waits to be. -/
theorem nothing_after_close {loopOf : Nat → Nat} {es : List WsEvent} {s : WsServer}
    (hrun : Run (step loopOf) Parting {} es s) :
    (∀ c before after, s.sent c = before ++ closeFrame :: after → after = []) ∧
    ∀ c, (s.manager.link c).conn.stream = (s.sent c).flatten := by
  have h : Settled s := hrun.invariant (fun _ s => Settled s) settled_initial
    fun h hpart hstep => h.step hpart hstep
  exact ⟨h.last, h.stream⟩

/-- A Close frame of a client, masked and without a payload. -/
def clientClose : Bytes := [0x88, 0x80, 1, 2, 3, 4]

/-- The answer waits to be sent by the loop. -/
def answering : WsServer where
  manager := { calls := Function.update (fun _ => []) 0 [.send 0 closeFrame] }
  inputBuffer := Function.update (fun _ => []) 0 []

/-- The client hangs up behind the answer, and the metrics are broadcast. -/
def hangUp : List WsEvent :=
  [.manager (.close 0), .manager (.step 0 .again), .manager (.step 0 .again),
    .manager (.step 0 .again), .manager (.call 0 (.broadcastMetrics (ascii "\x7b\x7d"))),
    .manager (.step 0 .again), .manager (.step 0 .again), .manager (.step 0 .again)]

theorem answered_and_gone : ∃ s, Run (step fun _ => 0) Parting {}
    ([.read 0 clientClose, .manager (.step 0 (.accepted 2))] ++ hangUp) s ∧
    s.sent 0 = [closeFrame] ∧ (s.manager.link 0).conn.stream = [0x88, 0x00] := by
  have hread : step (fun _ => 0) {} (.read 0 clientClose) = some answering := rfl
  -- nothing else is on its way to the connection
  have hquiet : Parting answering (.manager (.step 0 (.accepted 2))) := by
    rintro - - (⟨u, text, hmem⟩ | ⟨u, text, hmem⟩)
    · by_cases hu : u = 0
      · simp [hu] at hmem
      · simp [answering, hu] at hmem
    · simp [answering] at hmem
  let check : WsServer → WsEvent → Bool := fun s event =>
    match event with
    | .read _ _ => false
    | .manager (.step t _) =>
        match s.manager.calls t with
        | .body op :: _ => s.manager.targets op = []
        | .send _ _ :: _ => false
        | _ => true
    | .manager _ => true
  have hcheck : ∀ s event, check s event = true → Parting s event := by
    intro s event hok
    unfold Parting
    split
    · cases hok
    · rename_i t result
      dsimp only [check] at hok
      split
      · rename_i op rest hcalls
        rw [hcalls] at hok
        have hnone : s.manager.targets op = [] := by simpa using hok
        rw [hnone]
        exact fun c hc => absurd hc List.not_mem_nil
      · rename_i c text rest hcalls
        rw [hcalls] at hok
        cases hok
      · trivial
    · trivial
  have hrun : ((step (fun _ => 0) answering (.manager (.step 0 (.accepted 2)))).bind
      (exec (step fun _ => 0) check hangUp)).map (·.sent 0) = some [closeFrame] := by
    decide +kernel
  obtain ⟨s, hexec, hsent⟩ := Option.map_eq_some_iff.mp hrun
  obtain ⟨s₂, hsend, hrest⟩ := Option.bind_eq_some_iff.mp hexec
  have hopening : Run (step fun _ => 0) Parting {} ([] ++ [.read 0 clientClose] ++
      [.manager (.step 0 (.accepted 2))]) s₂ :=
    .snoc (.snoc .nil (fun hclosing => nomatch hclosing.1) hread) hquiet hsend
  have hall := hopening.append (run_of_exec hcheck hrest)
  refine ⟨s, hall, hsent, ?_⟩
  rw [(nothing_after_close hall).2 0, hsent]
  rfl

/-- A subscriber says good-bye and gets the next broadcast behind the answer. -/
def broadcastBehind : List WsEvent :=
  [.manager (.call 0 (.registerMetrics 0)), .manager (.step 0 .again), .manager (.step 0 .again),
    .manager (.step 0 .again), .read 0 clientClose, .manager (.step 0 (.accepted 2)),
    .manager (.call 0 (.broadcastMetrics (ascii "\x7b\x7d"))), .manager (.step 0 .again),
    .manager (.step 0 .again), .manager (.step 0 (.accepted 4))]

theorem frame_after_close : ¬ ∀ (loopOf : Nat → Nat) (es : List WsEvent) (s : WsServer),
    Run (step loopOf) (fun _ _ => True) {} es s →
    ∀ c before after, s.sent c = before ++ closeFrame :: after → after = [] := by
  intro h
  have hrun : (exec (step fun _ => 0) (fun _ _ => true) broadcastBehind {}).map (·.sent 0) =
      some [closeFrame, encode kText (ascii "\x7b\x7d")] := by decide +kernel
  obtain ⟨s, hexec, hsent⟩ := Option.map_eq_some_iff.mp hrun
  have hnone := h _ _ s (run_of_exec (fun _ _ _ => trivial) hexec) 0 [] _ hsent
  cases hnone

end WsServer

end SolarDrive.Server
