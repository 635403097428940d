import SolarDrive.Lib.Machine
import SolarDrive.Server.Session
import Mathlib.Logic.Function.Basic

/-!
# The lock of the session registry

`mtx_` is not recursive, and a push sends while it is held. A send to a connection of
another loop is queued there; one to a connection of the caller's own loop writes at
once, and if the write fails it closes the connection, whose callback asks for `mtx_`.
Threads are loops, and each has the calls it is in, the innermost first.
-/

namespace SolarDrive.Server

open Lib Network Ws Lib.Machine

/-! ## A connection and its callback -/

structure Link where
  conn : TcpConnection := .established
  writeComplete : WriteComplete := .none

namespace Link

/-- The connection of a server, of which only these fields are looked at. -/
def session (l : Link) : Session Unit :=
  { conn := l.conn, writeComplete := l.writeComplete, world := () }

/-- What is left of it, and whether the connection callback has run. -/
def ofSession (s : Session Unit) : Link × Bool :=
  ({ conn := s.conn, writeComplete := s.writeComplete }, decide (0 < s.disconnects))

/-- `handle_close`, and whether it runs the connection callback. -/
def handleClose (l : Link) : Link × Bool := ofSession l.session.handleClose

def forceClose (l : Link) : Link × Bool := ofSession l.session.forceClose

/-- After a write: what the connection calls. -/
def proceed (r : TcpConnection × Next) (l : Link) : Link × Bool := ofSession (l.session.proceed r)

theorem handleClose_eq (l : Link) : l.handleClose =
    if l.conn.state = .connected ∨ l.conn.state = .disconnecting then
      ({ l with conn := { l.conn with state := .disconnected, reading := false, writing := false } },
        true)
    else ({ l with conn := { l.conn with state := .disconnected } }, false) := by
  unfold handleClose Session.handleClose
  change ofSession (if l.conn.state = .connected ∨ l.conn.state = .disconnecting then _ else _) = _
  split <;> rfl

/-- Nothing else of a connection bears on how it closes. -/
theorem ofSession_handleClose {s : Session Unit} (h : s.disconnects = 0) :
    ofSession s.handleClose = handleClose { conn := s.conn, writeComplete := s.writeComplete } := by
  rw [handleClose_eq]
  unfold Session.handleClose
  split <;> simp [ofSession, h]

theorem forceClose_eq (l : Link) : l.forceClose =
    if l.conn.state = .connected ∨ l.conn.state = .disconnecting then
      { l with conn := { l.conn with state := .disconnecting } }.handleClose
    else (l, false) := by
  unfold forceClose Session.forceClose
  change ofSession (if l.conn.state = .connected ∨ l.conn.state = .disconnecting then _ else _) = _
  split <;> rfl

theorem ofSession_forceClose {s : Session Unit} (h : s.disconnects = 0) :
    ofSession s.forceClose = forceClose { conn := s.conn, writeComplete := s.writeComplete } := by
  rw [forceClose_eq]
  unfold Session.forceClose
  split
  · exact ofSession_handleClose h
  · simp [ofSession, h]

theorem proceed_eq (r : TcpConnection × Next) (l : Link) : l.proceed r =
    match r.2 with
    | .nothing => ({ l with conn := r.1 }, false)
    | .writeComplete =>
        if l.writeComplete = .forceClose then { l with conn := r.1 }.forceClose
        else ({ l with conn := r.1 }, false)
    | .error => { l with conn := r.1 }.handleClose := by
  obtain ⟨conn, next⟩ := r
  cases next with
  | nothing => rfl
  | writeComplete =>
      obtain ⟨conn', callback⟩ := l
      cases callback with
      | none => rfl
      | nothing => rfl
      | forceClose => exact ofSession_forceClose rfl
  | error => exact ofSession_handleClose rfl

def sendInLoop (text : Bytes) (result : WriteResult) (l : Link) : Link × Bool :=
  l.proceed (l.conn.sendInLoop text result)

def sendResponse (text : Bytes) (keepAlive : Bool) (result : WriteResult) (l : Link) : Link × Bool :=
  { l with writeComplete := if keepAlive then .nothing else .forceClose }.sendInLoop text result

/-- No `shutdown` waits for the end of it. -/
def handleWrite (result : WriteResult) (l : Link) : Link × Bool :=
  l.proceed (l.conn.handleWrite result)

/-- It is open, with output left if it is to be closed behind it, or it is closed. -/
structure Sound (l : Link) : Prop where
  steady : (l.conn.state = .connected ∧ l.conn.Flowing) ∨
    (l.conn.state = .disconnected ∧ l.conn.isNoneEvent = true)
  draining : l.conn.state = .connected → l.writeComplete = .forceClose →
    l.conn.outputBuffer.data ≠ []

section Sends

variable {l : Link} {text : Bytes} {result : WriteResult}

theorem handleClose_of_connected (h : l.conn.state = .connected) : l.handleClose =
    ({ l with conn := { l.conn with state := .disconnected, reading := false, writing := false } },
      true) := by
  rw [handleClose_eq, if_pos (.inl h)]

theorem forceClose_of_connected (h : l.conn.state = .connected) :
    l.forceClose = l.handleClose := by
  rw [handleClose_of_connected h, forceClose_eq, if_pos (.inl h), handleClose_eq,
    if_pos (.inr rfl)]

theorem sound_closed (h : l.conn.state = .connected) : Sound l.handleClose.1 := by
  rw [handleClose_of_connected h]
  exact ⟨.inr ⟨rfl, rfl⟩, nofun⟩

theorem Sound.handleClose (h : Sound l) : Sound l.handleClose.1 := by
  rcases h.steady with ⟨hopen, -⟩ | ⟨hclosed, hnone⟩
  · exact sound_closed hopen
  · have hconn : { l.conn with state := .disconnected } = l.conn := by rw [← hclosed]
    rw [handleClose_eq, if_neg (by rw [hclosed]; nofun), hconn]
    exact h

/-- After a write the connection is sound, if something is left where it must be. -/
theorem sound_proceed {r : TcpConnection × Next} (hopen : r.1.state = .connected)
    (hflow : r.1.Flowing)
    (hleft : r.2 = .nothing → l.writeComplete = .forceClose → r.1.outputBuffer.data ≠ []) :
    Sound (l.proceed r).1 := by
  obtain ⟨conn, next⟩ := r
  rw [proceed_eq]
  cases next with
  | nothing => exact ⟨.inl ⟨hopen, hflow⟩, fun _ => hleft rfl⟩
  | writeComplete =>
      dsimp only
      split
      · rw [forceClose_of_connected (l := { l with conn }) hopen]
        exact sound_closed (l := { l with conn }) hopen
      · rename_i hother
        exact ⟨.inl ⟨hopen, hflow⟩, fun _ hforce => absurd hforce hother⟩
  | error => exact sound_closed (l := { l with conn }) hopen

theorem sendInLoop_of_disconnected (h : l.conn.state = .disconnected) :
    l.sendInLoop text result = (l, false) := by
  unfold sendInLoop TcpConnection.sendInLoop
  rw [if_neg (by simp [TcpConnection.isConnected, h])]
  rfl

theorem sound_sendInLoop (hsteady : (l.conn.state = .connected ∧ l.conn.Flowing) ∨
      (l.conn.state = .disconnected ∧ l.conn.isNoneEvent = true))
    (hleft : l.conn.state = .connected → l.writeComplete = .forceClose →
      l.conn.outputBuffer.data ≠ [] ∨ text ≠ []) : Sound (l.sendInLoop text result).1 := by
  rcases hsteady with ⟨hopen, hflow⟩ | ⟨hclosed, hnone⟩
  · obtain ⟨hopen', hflow', hcases⟩ := TcpConnection.sendInLoop_cases text result hopen hflow
    refine sound_proceed hopen' hflow' fun hnext hforce => ?_
    rcases hcases with ⟨-, -, hwaits⟩ | ⟨hdone, -⟩ | ⟨hfailed, -⟩
    · exact hwaits (hleft hopen hforce)
    · rw [hnext] at hdone
      cases hdone
    · rw [hnext] at hfailed
      cases hfailed
  · rw [sendInLoop_of_disconnected hclosed]
    refine ⟨.inr ⟨hclosed, hnone⟩, fun hopen => ?_⟩
    rw [hclosed] at hopen
    cases hopen

/-- A sound connection is closed by a send only if its write fails. -/
theorem Sound.told (h : Sound l) (htold : (l.sendInLoop text result).2 = true) :
    l.conn.state = .connected ∧ l.conn.outputBuffer.data = [] ∧ result = .error := by
  rcases h.steady with ⟨hopen, hflow⟩ | ⟨hclosed, -⟩
  · obtain ⟨-, -, hcases⟩ := TcpConnection.sendInLoop_cases text result hopen hflow
    refine ⟨hopen, ?_⟩
    rw [Link.sendInLoop, proceed_eq] at htold
    rcases hcases with ⟨hnext, -⟩ | ⟨hnext, -, hempty, -⟩ | ⟨-, hempty, herror⟩
    · rw [hnext] at htold
      cases htold
    · rw [hnext] at htold
      dsimp only at htold
      rw [if_neg fun hforce => h.draining hopen hforce hempty] at htold
      cases htold
    · exact ⟨hempty, herror⟩
  · rw [sendInLoop_of_disconnected hclosed] at htold
    cases htold

theorem Sound.sendInLoop (h : Sound l) : Sound (l.sendInLoop text result).1 :=
  sound_sendInLoop h.steady fun hopen hforce => .inl (h.draining hopen hforce)

theorem Sound.handleWrite (h : Sound l) : Sound (l.handleWrite result).1 := by
  rcases h.steady with ⟨hopen, hflow⟩ | ⟨-, hnone⟩
  · have hopen' := (TcpConnection.handleWrite_frame result l.conn).1.trans hopen
    unfold Link.handleWrite
    rcases TcpConnection.handleWrite_cases result hflow with ⟨-, hflow', -⟩ | ⟨hfailed, -⟩
    · exact sound_proceed hopen' hflow' fun hnext hforce =>
        TcpConnection.handleWrite_left hnext (h.draining hopen hforce)
    · rw [proceed_eq, hfailed]
      exact sound_closed (l := { l with conn := (l.conn.handleWrite result).1 }) hopen'
  · unfold Link.handleWrite
    rw [TcpConnection.handleWrite_none hnone]
    exact h

end Sends

end Link

/-! ## The manager -/

/-- What is done with `mtx_` held. -/
inductive Op where
  | pushProgress (uploadId : Bytes) (percent bytesUploaded totalSize : Int)
  | pushComplete (uploadId fileId : Bytes)
  | broadcastMetrics (json : Bytes)
  | registerSession (uploadId : Bytes) (c : Nat)
  | registerMetrics (c : Nat)
  | removeSession (c : Nat)
  | removeSessionById (uploadId : Bytes)

/-- A call that a thread is in. -/
inductive Activation where
  /-- It is at the `lock_guard`. -/
  | lock (op : Op)
  /-- Behind it. -/
  | body (op : Op)
  | unlock
  | send (c : Nat) (text : Bytes)

/-- The call is not behind a `lock_guard` of its thread. -/
def Activation.outside : Activation → Bool
  | .lock _ => true
  | .send _ _ => true
  | _ => false

/-- The call is behind it. -/
def Activation.inside : Activation → Bool
  | .body _ => true
  | .send _ _ => true
  | _ => false

structure SessionManager where
  mtx : Option Nat := none
  sessions : List (Bytes × Nat) := []
  metricsSubscribers : List Nat := []
  link : Nat → Link := fun _ => {}
  /-- The calls of each loop's thread. -/
  calls : Nat → List Activation := fun _ => []
  /-- The sends queued in each loop. -/
  tasks : Nat → List (Nat × Bytes) := fun _ => []
  /-- A thread has asked for `mtx_` while it held it. -/
  deadlock : Bool := false

inductive ManagerEvent where
  /-- A callback of the loop calls the manager, or sends a frame by itself. -/
  | call (t : Nat) (op : Op)
  | send (t c : Nat) (text : Bytes)
  /-- `send_response` on the connection's loop. -/
  | respond (c : Nat) (text : Bytes) (keepAlive : Bool) (result : WriteResult)
  | writable (c : Nat) (result : WriteResult)
  /-- The peer has closed, there is an error, or `force_close`. -/
  | close (c : Nat)
  | task (t : Nat)
  /-- The thread goes on with its innermost call; a write there returns this. -/
  | step (t : Nat) (result : WriteResult)

def progressText (uploadId : Bytes) (percent bytesUploaded totalSize : Int) : Bytes :=
  ascii "\x7b\"type\":\"progress\",\"upload_id\":\"" ++ uploadId ++ ascii "\",\"percent\":" ++
    decimalInt percent ++ ascii ",\"bytes_uploaded\":" ++ decimalInt bytesUploaded ++
    ascii ",\"total_size\":" ++ decimalInt totalSize ++ ascii "\x7d"

def completeText (uploadId fileId : Bytes) : Bytes :=
  ascii "\x7b\"type\":\"complete\",\"upload_id\":\"" ++ uploadId ++ ascii "\",\"file_id\":\"" ++
    fileId ++ ascii "\",\"percent\":100\x7d"

namespace SessionManager

/-- The connection has run so far, and its callback calls the manager if it has closed. -/
def settle (t c : Nat) (r : Link × Bool) (q : SessionManager) : SessionManager :=
  { q with
    link := Function.update q.link c r.1
    calls := Function.update q.calls t
      ((if r.2 then [.lock (.removeSession c)] else []) ++ q.calls t) }

def pushTo (uploadId text : Bytes) (q : SessionManager) : List Activation :=
  match q.sessions.lookup uploadId with
  | none => []
  | some c => [.send c (encode kText text)]

/-- The body of a call: what it changes and the sends it makes. -/
def body (q : SessionManager) : Op → SessionManager × List Activation
  | .pushProgress uploadId percent bytesUploaded totalSize =>
      (q, q.pushTo uploadId (progressText uploadId percent bytesUploaded totalSize))
  | .pushComplete uploadId fileId => (q, q.pushTo uploadId (completeText uploadId fileId))
  | .broadcastMetrics json =>
      (q, q.metricsSubscribers.map fun c => .send c (encode kText json))
  | .registerSession uploadId c => ({ q with sessions := setKey uploadId c q.sessions }, [])
  | .registerMetrics c => ({ q with metricsSubscribers := q.metricsSubscribers ++ [c] }, [])
  | .removeSession c =>
      ({ q with
        sessions := q.sessions.filter fun s => s.2 ≠ c
        metricsSubscribers := q.metricsSubscribers.filter (· ≠ c) }, [])
  | .removeSessionById uploadId =>
      ({ q with sessions := q.sessions.filter fun s => s.1 ≠ uploadId }, [])

/-- The innermost call of a thread goes on; none while another thread holds `mtx_`. -/
def proceed (loopOf : Nat → Nat) (t : Nat) (result : WriteResult) (rest : List Activation)
    (q : SessionManager) : Activation → Option SessionManager
  | .lock op =>
      match q.mtx with
      | none => some { q with
          mtx := some t
          calls := Function.update q.calls t (.body op :: .unlock :: rest) }
      | some holder => if holder = t then some { q with deadlock := true } else none
  | .body op =>
      let (q, sends) := q.body op
      some { q with calls := Function.update q.calls t (sends ++ rest) }
  | .unlock => some { q with mtx := none, calls := Function.update q.calls t rest }
  | .send c text =>
      let q := { q with calls := Function.update q.calls t rest }
      if !(q.link c).conn.isConnected then some q
      else if loopOf c = t then some (q.settle t c ((q.link c).sendInLoop text result))
      else some { q with
        tasks := Function.update q.tasks (loopOf c) (q.tasks (loopOf c) ++ [(c, text)]) }

/-- A connection is placed on the loop `loopOf c`. A thread takes up something new when
it is in no call. -/
def step (loopOf : Nat → Nat) (q : SessionManager) (event : ManagerEvent) : Option SessionManager :=
  if q.deadlock then none
  else
    match event with
    | .call t op =>
        if q.calls t = [] then some { q with calls := Function.update q.calls t [.lock op] }
        else none
    | .send t c text =>
        if q.calls t = [] then some { q with calls := Function.update q.calls t [.send c text] }
        else none
    | .respond c text keepAlive result =>
        if q.calls (loopOf c) = [] ∧ text ≠ [] then
          some (q.settle (loopOf c) c ((q.link c).sendResponse text keepAlive result))
        else none
    | .writable c result =>
        if q.calls (loopOf c) = [] then
          some (q.settle (loopOf c) c ((q.link c).handleWrite result))
        else none
    | .close c =>
        if q.calls (loopOf c) = [] then some (q.settle (loopOf c) c (q.link c).handleClose)
        else none
    | .task t =>
        match q.calls t, q.tasks t with
        | [], (c, text) :: rest =>
            some { q with
              tasks := Function.update q.tasks t rest
              calls := Function.update q.calls t [.send c text] }
        | _, _ => none
    | .step t result =>
        match q.calls t with
        | [] => none
        | call :: rest => q.proceed loopOf t result rest call

/-- A frame that is pushed with `mtx_` held to a connection of the caller's own loop, and
is written at once because nothing waits there, is not met by an error. -/
def Unbroken (loopOf : Nat → Nat) (q : SessionManager) (event : ManagerEvent) : Prop :=
  match event with
  | .step t result =>
      match q.calls t with
      | .send c _ :: _ =>
          q.mtx = some t → loopOf c = t → (q.link c).conn.state = .connected →
            (q.link c).conn.outputBuffer.data = [] → result ≠ .error
      | _ => True
  | _ => True

/-! ## Who holds the lock -/

/-- The calls of the thread that holds `mtx_`: those behind the lock, its release, and
those around it. -/
def Holding (calls : List Activation) : Prop :=
  ∃ inner outer, calls = inner ++ .unlock :: outer ∧ (∀ f ∈ inner, f.inside = true) ∧
    ∀ f ∈ outer, f.outside = true

/-- Only the thread that holds `mtx_` is behind a lock, and it asks for no other. -/
structure Orderly (q : SessionManager) : Prop where
  links : ∀ c, (q.link c).Sound
  others : ∀ t, q.mtx ≠ some t → ∀ f ∈ q.calls t, f.outside = true
  holder : ∀ t, q.mtx = some t → Holding (q.calls t)
  free : q.deadlock = false

section Steps

variable {loopOf : Nat → Nat} {q q' : SessionManager} {t : Nat} {rest : List Activation}

/-- A thread that is not behind the lock gets other calls. -/
theorem Orderly.outer (h : Orderly q) {calls : List Activation} (ht : q.mtx ≠ some t)
    (hcalls : ∀ f ∈ calls, f.outside = true) :
    Orderly { q with calls := Function.update q.calls t calls } := by
  refine ⟨h.links, fun u hu => ?_, fun u hu => ?_, h.free⟩
  · dsimp only
    by_cases hsame : u = t
    · subst hsame
      rw [Function.update_self]
      exact hcalls
    · rw [Function.update_of_ne hsame]
      exact h.others u hu
  · have hsame : u ≠ t := by
      rintro rfl
      exact ht hu
    dsimp only
    rw [Function.update_of_ne hsame]
    exact h.holder u hu

/-- The thread that holds it gets others. -/
theorem Orderly.inner (h : Orderly q) {calls : List Activation} (ht : q.mtx = some t)
    (hcalls : Holding calls) : Orderly { q with calls := Function.update q.calls t calls } := by
  refine ⟨h.links, fun u hu => ?_, fun u hu => ?_, h.free⟩
  · have hsame : u ≠ t := by
      rintro rfl
      exact hu ht
    dsimp only
    rw [Function.update_of_ne hsame]
    exact h.others u hu
  · dsimp only
    by_cases hsame : u = t
    · subst hsame
      rw [Function.update_self]
      exact hcalls
    · rw [Function.update_of_ne hsame]
      exact h.holder u hu

theorem Orderly.link (h : Orderly q) (c : Nat) {l : Link} (hl : l.Sound) :
    Orderly { q with link := Function.update q.link c l } := by
  refine ⟨fun d => ?_, h.others, h.holder, h.free⟩
  dsimp only
  by_cases hsame : d = c
  · subst hsame
    rw [Function.update_self]
    exact hl
  · rw [Function.update_of_ne hsame]
    exact h.links d

/-- A thread in no call does not hold the lock. -/
theorem Orderly.idle (h : Orderly q) (hidle : q.calls t = []) : q.mtx ≠ some t := by
  intro ht
  obtain ⟨inner, outer, hcalls, -⟩ := h.holder t ht
  rw [hidle] at hcalls
  cases inner <;> cases hcalls

/-- A connection of an idle loop does something, and its callback may be called. -/
theorem Orderly.settle (h : Orderly q) (c : Nat) {r : Link × Bool} (hr : r.1.Sound)
    (ht : q.mtx ≠ some t) : Orderly (q.settle t c r) := by
  refine (h.link c hr).outer ht fun f hf => ?_
  rcases List.mem_append.mp hf with hnew | hold
  · split at hnew
    · rw [List.mem_singleton.mp hnew]
      rfl
    · cases hnew
  · exact h.others t ht f hold

theorem body_frame (q : SessionManager) (op : Op) :
    (q.body op).1.mtx = q.mtx ∧ (q.body op).1.link = q.link ∧ (q.body op).1.calls = q.calls ∧
    (q.body op).1.deadlock = q.deadlock ∧ ∀ f ∈ (q.body op).2, f.inside = true := by
  have hpush : ∀ uploadId text, ∀ f ∈ q.pushTo uploadId text, f.inside = true := by
    intro uploadId text f hf
    unfold pushTo at hf
    split at hf
    · cases hf
    · rw [List.mem_singleton.mp hf]
      rfl
  cases op with
  | pushProgress uploadId percent bytesUploaded totalSize =>
      exact ⟨rfl, rfl, rfl, rfl, hpush uploadId _⟩
  | pushComplete uploadId fileId => exact ⟨rfl, rfl, rfl, rfl, hpush uploadId _⟩
  | broadcastMetrics json =>
      refine ⟨rfl, rfl, rfl, rfl, fun f hf => ?_⟩
      obtain ⟨c, -, rfl⟩ := List.mem_map.mp hf
      rfl
  | registerSession uploadId c => exact ⟨rfl, rfl, rfl, rfl, nofun⟩
  | registerMetrics c => exact ⟨rfl, rfl, rfl, rfl, nofun⟩
  | removeSession c => exact ⟨rfl, rfl, rfl, rfl, nofun⟩
  | removeSessionById uploadId => exact ⟨rfl, rfl, rfl, rfl, nofun⟩

/-- Behind the lock the innermost call is not around it. -/
theorem Holding.cons {f : Activation} (h : Holding (f :: rest)) :
    f = .unlock ∧ (∀ g ∈ rest, g.outside = true) ∨ f.inside = true ∧ Holding rest := by
  obtain ⟨inner, outer, hcalls, hinner, houter⟩ := h
  cases inner with
  | nil =>
      cases hcalls
      exact .inl ⟨rfl, houter⟩
  | cons _ inner =>
      cases hcalls
      exact .inr ⟨hinner f List.mem_cons_self, inner, outer, rfl,
        fun g hg => hinner g (List.mem_cons_of_mem _ hg), houter⟩

theorem Orderly.lock {op : Op} {result : WriteResult} (h : Orderly q)
    (hcalls : q.calls t = .lock op :: rest)
    (hstep : q.proceed loopOf t result rest (.lock op) = some q') : Orderly q' := by
  unfold proceed at hstep
  dsimp only at hstep
  split at hstep
  · rename_i hfree
    cases hstep
    have hnot : ∀ u, q.mtx ≠ some u := fun u hu => by
      rw [hfree] at hu
      cases hu
    have houtside := h.others t (hnot t)
    rw [hcalls] at houtside
    refine ⟨h.links, fun u hu => ?_, fun u hu => ?_, h.free⟩
    · have hsame : u ≠ t := by
        rintro rfl
        exact hu rfl
      dsimp only
      rw [Function.update_of_ne hsame]
      exact h.others u (hnot u)
    · cases hu
      dsimp only
      rw [Function.update_self]
      refine ⟨[.body op], rest, rfl, fun f hf => ?_, fun f hf => ?_⟩
      · rw [List.mem_singleton.mp hf]
        rfl
      · exact houtside f (List.mem_cons_of_mem _ hf)
  · rename_i holder hheld
    split at hstep
    · rename_i hself
      -- the holder is behind its lock, and asks for no other
      subst hself
      have hholding := h.holder holder hheld
      rw [hcalls] at hholding
      rcases hholding.cons with ⟨hunlock, -⟩ | ⟨hinside, -⟩
      · cases hunlock
      · cases hinside
    · cases hstep

theorem Orderly.send {c : Nat} {text : Bytes} {result : WriteResult} (h : Orderly q)
    (hcalls : q.calls t = .send c text :: rest) (hunbroken : Unbroken loopOf q (.step t result))
    (hstep : q.proceed loopOf t result rest (.send c text) = some q') : Orderly q' := by
  -- what is left of the calls is in order without the send
  have hrest : Orderly { q with calls := Function.update q.calls t rest } := by
    by_cases ht : q.mtx = some t
    · have hholding := h.holder t ht
      rw [hcalls] at hholding
      rcases hholding.cons with ⟨hunlock, -⟩ | ⟨-, hrest⟩
      · cases hunlock
      · exact h.inner ht hrest
    · have houtside := h.others t ht
      rw [hcalls] at houtside
      exact h.outer ht fun f hf => houtside f (List.mem_cons_of_mem _ hf)
  unfold proceed at hstep
  dsimp only at hstep
  split at hstep
  · cases hstep
    exact hrest
  · split at hstep
    · rename_i hown
      cases hstep
      have hsound : ((q.link c).sendInLoop text result).1.Sound := (h.links c).sendInLoop
      by_cases ht : q.mtx = some t
      · have htold : ((q.link c).sendInLoop text result).2 = false := by
          rw [Bool.eq_false_iff]
          intro htold
          obtain ⟨hopen, hempty, herror⟩ := (h.links c).told htold
          simp only [Unbroken, hcalls] at hunbroken
          exact hunbroken ht hown hopen hempty herror
        unfold SessionManager.settle
        rw [htold]
        simpa using hrest.link c hsound
      · exact hrest.settle c hsound ht
    · cases hstep
      exact ⟨hrest.links, hrest.others, hrest.holder, hrest.free⟩

theorem Orderly.proceed {call : Activation} {result : WriteResult} (h : Orderly q)
    (hcalls : q.calls t = call :: rest) (hunbroken : Unbroken loopOf q (.step t result))
    (hstep : q.proceed loopOf t result rest call = some q') : Orderly q' := by
  cases call with
  | lock op => exact h.lock hcalls hstep
  | body op =>
      cases hstep
      obtain ⟨hmtx, hlink, hsame, hfree, hinside⟩ := body_frame q op
      have ht : q.mtx = some t := by
        by_contra ht
        cases h.others t ht (.body op) (hcalls ▸ List.mem_cons_self)
      have hholding := h.holder t ht
      rw [hcalls] at hholding
      -- the body runs while its thread holds the mutex and leaves the mutex alone
      have hbody : Orderly (q.body op).1 := by
        refine ⟨?_, ?_, ?_, hfree.trans h.free⟩
        · rw [hlink]
          exact h.links
        · rw [hmtx, hsame]
          exact h.others
        · rw [hmtx, hsame]
          exact h.holder
      rcases hholding.cons with ⟨hunlock, -⟩ | ⟨-, hrest⟩
      · cases hunlock
      · obtain ⟨inner, outer, rfl, hinner, houter⟩ := hrest
        have hcalls' : (q.body op).2 ++ (inner ++ .unlock :: outer) =
            (q.body op).2 ++ inner ++ .unlock :: outer := (List.append_assoc _ _ _).symm
        refine hbody.inner (hmtx.trans ht)
          ⟨(q.body op).2 ++ inner, outer, hcalls', fun f hf => ?_, houter⟩
        rcases List.mem_append.mp hf with hnew | hold
        · exact hinside f hnew
        · exact hinner f hold
  | unlock =>
      cases hstep
      have ht : q.mtx = some t := by
        by_contra ht
        cases h.others t ht .unlock (hcalls ▸ List.mem_cons_self)
      have hholding := h.holder t ht
      rw [hcalls] at hholding
      rcases hholding.cons with ⟨-, houtside⟩ | ⟨hinside, -⟩
      · refine ⟨h.links, fun u _ => ?_, nofun, h.free⟩
        dsimp only
        by_cases hsame : u = t
        · subst hsame
          rw [Function.update_self]
          exact houtside
        · rw [Function.update_of_ne hsame]
          refine h.others u fun hu => hsame ?_
          exact (Option.some_inj.mp (ht.symm.trans hu)).symm
      · cases hinside
  | send c text => exact h.send hcalls hunbroken hstep

theorem Orderly.step {event : ManagerEvent} (h : Orderly q) (hunbroken : Unbroken loopOf q event)
    (hstep : q.step loopOf event = some q') : Orderly q' := by
  unfold SessionManager.step at hstep
  rw [if_neg (by rw [h.free]; nofun)] at hstep
  cases event with
  | call t op =>
      obtain ⟨hidle, hq⟩ := Option.ite_none_right_eq_some.mp hstep
      cases hq
      exact h.outer (h.idle hidle) fun f hf => by rw [List.mem_singleton.mp hf]; rfl
  | send t c text =>
      obtain ⟨hidle, hq⟩ := Option.ite_none_right_eq_some.mp hstep
      cases hq
      exact h.outer (h.idle hidle) fun f hf => by rw [List.mem_singleton.mp hf]; rfl
  | respond c text keepAlive result =>
      obtain ⟨⟨hidle, htext⟩, hq⟩ := Option.ite_none_right_eq_some.mp hstep
      cases hq
      have hsound : ((q.link c).sendResponse text keepAlive result).1.Sound :=
        Link.sound_sendInLoop (h.links c).steady fun _ _ => .inr htext
      exact h.settle c hsound (h.idle hidle)
  | writable c result =>
      obtain ⟨hidle, hq⟩ := Option.ite_none_right_eq_some.mp hstep
      cases hq
      exact h.settle c (h.links c).handleWrite (h.idle hidle)
  | close c =>
      obtain ⟨hidle, hq⟩ := Option.ite_none_right_eq_some.mp hstep
      cases hq
      exact h.settle c (h.links c).handleClose (h.idle hidle)
  | task t =>
      dsimp only at hstep
      split at hstep
      · rename_i c text tasks hidle _
        cases hstep
        have hcalls : Orderly { q with calls := Function.update q.calls t [.send c text] } :=
          h.outer (h.idle hidle) fun f hf => by rw [List.mem_singleton.mp hf]; rfl
        exact ⟨hcalls.links, hcalls.others, hcalls.holder, hcalls.free⟩
      · cases hstep
  | step t result =>
      dsimp only at hstep
      split at hstep
      · cases hstep
      · rename_i call rest hcalls
        exact h.proceed hcalls hunbroken hstep

theorem step_relock {op : Op} {result : WriteResult} (hfree : q.deadlock = false)
    (ht : q.mtx = some t) (hcalls : q.calls t = .lock op :: rest) :
    q.step loopOf (.step t result) = some { q with deadlock := true } := by
  unfold SessionManager.step
  rw [if_neg (by rw [hfree]; nofun)]
  simp only [hcalls, SessionManager.proceed, ht, if_true]

/-- A write that fails with `mtx_` held closes the connection, and the thread asks for
`mtx_` next. -/
theorem Orderly.broken {event : ManagerEvent} (h : Orderly q)
    (hbroken : ¬ Unbroken loopOf q event) (hstep : q.step loopOf event = some q') :
    ∃ q'', q'.step loopOf event = some q'' ∧ q''.deadlock = true := by
  cases event with
  | step t result =>
      simp only [Unbroken] at hbroken
      split at hbroken
      · rename_i c text rest hcalls
        push Not at hbroken
        obtain ⟨ht, hown, hopen, hempty, rfl⟩ := hbroken
        have hflow : (q.link c).conn.Flowing := by
          rcases (h.links c).steady with ⟨-, hflow⟩ | ⟨hclosed, -⟩
          · exact hflow
          · rw [hopen] at hclosed
            cases hclosed
        have htold : ((q.link c).sendInLoop text .error).2 = true := by
          have herror : (q.link c).conn.sendInLoop text .error = ((q.link c).conn, .error) := by
            unfold TcpConnection.sendInLoop
            rw [if_pos (by simp [TcpConnection.isConnected, hopen]),
              TcpConnection.writeMessage_direct text .error hflow hempty]
          rw [Link.sendInLoop, Link.proceed_eq, herror]
          exact congrArg Prod.snd (Link.handleClose_of_connected (l := q.link c) hopen)
        unfold SessionManager.step at hstep
        rw [if_neg (by simp [h.free])] at hstep
        simp only [hcalls, SessionManager.proceed, TcpConnection.isConnected, hopen, hown,
          decide_true, Bool.not_true, Bool.false_eq_true, if_false, if_true] at hstep
        cases hstep
        have hasks : (SessionManager.settle t c ((q.link c).sendInLoop text .error)
            { q with calls := Function.update q.calls t rest }).calls t =
            .lock (.removeSession c) :: rest := by
          simp only [SessionManager.settle, htold, Function.update_self, if_true,
            List.singleton_append]
        exact ⟨_, step_relock h.free ht hasks, rfl⟩
      · exact absurd trivial hbroken
  | _ => exact absurd trivial hbroken

end Steps

theorem orderly_initial : Orderly {} :=
  ⟨fun _ => ⟨.inl ⟨rfl, by simp [TcpConnection.Flowing, TcpConnection.established]⟩, nofun⟩,
    fun _ _ => nofun, nofun, rfl⟩

/-- No thread asks for `mtx_` while it holds it, as long as the frames pushed with it held
are not met by an error on the caller's own loop. At the first that is, the caller does. -/
theorem no_self_deadlock {loopOf : Nat → Nat} {es : List ManagerEvent} {q : SessionManager}
    (hrun : Run (step loopOf) (Unbroken loopOf) {} es q) : q.deadlock = false ∧
    ∀ event q', q.step loopOf event = some q' → ¬ Unbroken loopOf q event →
      ∃ q'', q'.step loopOf event = some q'' ∧ q''.deadlock = true := by
  have h : Orderly q := hrun.invariant (fun _ q => Orderly q) orderly_initial Orderly.step
  exact ⟨h.free, fun event q' hstep hbroken => h.broken hbroken hstep⟩

/-- A connection subscribes, and its own loop pushes to it. -/
def pushed (result : WriteResult) : List ManagerEvent :=
  [.call 0 (.registerMetrics 0), .step 0 .again, .step 0 .again, .step 0 .again,
    .call 0 (.broadcastMetrics (ascii "\x7b\x7d")), .step 0 .again, .step 0 .again, .step 0 result]

/-- The kernel takes the frame. -/
theorem pushed_free : ∃ q, Run (step fun _ => 0) (Unbroken fun _ => 0) {}
    (pushed (.accepted 4)) q ∧ (q.link 0).conn.sent.length = 4 ∧ q.mtx = some 0 ∧
    q.deadlock = false := by
  let check : SessionManager → ManagerEvent → Bool := fun _ event =>
    match event with
    | .step _ .error => false
    | _ => true
  have hcheck : ∀ q event, check q event = true → Unbroken (fun _ => 0) q event := by
    intro q event hok
    cases event with
    | step t result =>
        unfold Unbroken
        dsimp only
        split
        · rintro - - - - rfl
          cases hok
        · trivial
    | _ => trivial
  have hrun : (exec (step fun _ => 0) check (pushed (.accepted 4)) {}).map
      (fun q => ((q.link 0).conn.sent.length, q.mtx)) = some (4, some 0) := by decide +kernel
  obtain ⟨q, hexec, hend⟩ := Option.map_eq_some_iff.mp hrun
  simp only [Prod.mk.injEq] at hend
  have h := run_of_exec hcheck hexec
  exact ⟨q, h, hend.1, hend.2, (no_self_deadlock h).1⟩

/-- The write of the frame fails, and the callback of the connection asks for `mtx_`. -/
theorem pushed_deadlocks : ¬ ∀ (loopOf : Nat → Nat) (es : List ManagerEvent)
    (q : SessionManager), Run (step loopOf) (fun _ _ => True) {} es q → q.deadlock = false := by
  intro h
  have hrun : (exec (step fun _ => 0) (fun _ _ => true)
      (pushed .error ++ [.step 0 .again]) {}).map (·.deadlock) = some true := by decide +kernel
  obtain ⟨q, hexec, hend⟩ := Option.map_eq_some_iff.mp hrun
  have hfree := h _ _ q (run_of_exec (fun _ _ _ => trivial) hexec)
  rw [hend] at hfree
  cases hfree

end SessionManager

end SolarDrive.Server
