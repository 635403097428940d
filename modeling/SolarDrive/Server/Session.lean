import SolarDrive.Http.HeaderCase
import SolarDrive.Network.TcpConnection
import SolarDrive.Server.Upgrade
import SolarDrive.Ws.Handler

/-!
# A connection of the server

The connection with what the server keeps for it: the parser, the context, the
write-complete callback, its entries in the session registry. The functions are
those of the loop thread and run through their callbacks; the `n`-th write returns
what `kernel n` says. `step` is the loop between two callbacks, so a read of
several requests is several steps.
-/

namespace SolarDrive.Server

open Lib Http Network Ws

/-- What writes return, by their number and the bytes asked for. -/
abbrev Kernel : Type := Nat → Nat → WriteResult

/-- Everything is written at once. -/
def takesAll : Kernel := fun _ asked => .accepted asked

/-- `write_complete_cb_`. -/
inductive WriteComplete where
  | none
  | nothing
  | forceClose
deriving DecidableEq

/-- `context_`. -/
inductive Context where
  | http
  | ws (uploadId : Bytes)
  | cleared
deriving DecidableEq

structure Session (σ : Type) where
  conn : TcpConnection := .established
  writeComplete : WriteComplete := .none
  context : Context := .http
  inputBuffer : Bytes := []
  /-- `HttpConnContext`. -/
  parser : HttpParser := .fresh
  requestCount : Nat := 0
  /-- The uploads whose session it is. -/
  sessions : List Bytes := []
  /-- How often it is among the metrics subscribers. -/
  metrics : Nat := 0
  world : σ
  /-- What `feed` hands over before it returns or throws. -/
  pending : Option (List HttpRequest × Option StoError) := none
  /-- An exception has left the loop. -/
  crashed : Bool := false
  writes : Nat := 0
  /-- How often the connection callback has run with `kDisconnected`. -/
  disconnects : Nat := 0
  /-- The requests passed to `try_handle_upgrade`, and the frames decoded. -/
  handled : List HttpRequest := []
  frames : List WsFrame := []
  /-- A response has been sent with `keep_alive` false. -/
  closing : Bool := false
  /-- The requests passed on since. -/
  late : List HttpRequest := []

inductive SessionEvent (σ : Type) where
  /-- `read` returns so many bytes. -/
  | read (bytes : Bytes)
  /-- The parser has completed the next request of the read. -/
  | request
  /-- `feed` ends. -/
  | fed
  | writable
  /-- A frame for the connection comes from elsewhere. -/
  | push (text : Bytes)
  /-- The peer has closed, or there is an error. -/
  | hangUp
  | forceClose
  | destroyed
  /-- Another upload session takes over, or `remove_session_by_id`. -/
  | unregistered (uploadId : Bytes)
  /-- The rest of the server goes on. -/
  | elsewhere (world : σ)

namespace Session

variable {σ : Type}

/-! ## Closing and sending -/

def handleClose (s : Session σ) : Session σ :=
  if s.conn.state = .connected ∨ s.conn.state = .disconnecting then
    { s with
      conn := { s.conn with state := .disconnected, reading := false, writing := false }
      disconnects := s.disconnects + 1
      sessions := []
      metrics := 0 }
  else { s with conn := { s.conn with state := .disconnected } }

def forceClose (s : Session σ) : Session σ :=
  if s.conn.state = .connected ∨ s.conn.state = .disconnecting then
    { s with conn := { s.conn with state := .disconnecting } }.handleClose
  else s

def runWriteComplete (s : Session σ) : Session σ :=
  match s.writeComplete with
  | .none => s
  | .nothing => s
  | .forceClose => s.forceClose

/-- After a write: what the connection calls. -/
def proceed (r : TcpConnection × Next) (s : Session σ) : Session σ :=
  let s := { s with conn := r.1, writes := s.writes + 1 }
  match r.2 with
  | .nothing => s
  | .writeComplete => s.runWriteComplete
  | .error => s.handleClose

def send (kernel : Kernel) (text : Bytes) (s : Session σ) : Session σ :=
  if s.conn.isConnected then
    s.proceed (s.conn.sendInLoop text (kernel s.writes text.length))
  else s

def handleWrite (kernel : Kernel) (s : Session σ) : Session σ :=
  let r := s.conn.handleWrite (kernel s.writes s.conn.outputBuffer.readableBytes)
  let s := s.proceed r
  if r.2 = .writeComplete then { s with conn := s.conn.finishWrite } else s

/-! ## Requests -/

/-- The callback of a response that is to be sent. -/
def answering (keepAlive : Bool) (s : Session σ) : Session σ :=
  { s with
    writeComplete := if keepAlive then .nothing else .forceClose
    closing := s.closing || !keepAlive }

def sendResponse (S : Site σ) (kernel : Kernel) (resp : HttpResponse) (keepAlive : Bool)
    (s : Session σ) : Session σ :=
  (s.answering keepAlive).send kernel (S.responseText resp keepAlive)

/-- The end of `try_handle_upgrade`. -/
def upgrade (S : Site σ) (kernel : Kernel) (key : Bytes) (session : Option Bytes)
    (s : Session σ) : Session σ :=
  let s := s.send kernel (S.buildUpgradeResponse key)
  match session with
  | none =>
      { s with metrics := s.metrics + 1, context := .ws [] }.send kernel
        (encode kText (S.metrics s.world).dumpJson)
  | some uploadId => { s with sessions := s.sessions.insert uploadId, context := .ws uploadId }

/-- The request callback. -/
def onRequest (S : Site σ) (kernel : Kernel) (req : HttpRequest) (s : Session σ) : Session σ :=
  let s := { s with
    handled := s.handled ++ [req]
    late := if s.closing then s.late ++ [req] else s.late }
  match S.reply req s.requestCount s.world with
  | (.upgrade key session, requestCount, world) =>
      { s with requestCount, world }.upgrade S kernel key session
  | (.response resp keepAlive, requestCount, world) =>
      { s with requestCount, world }.sendResponse S kernel resp keepAlive
  | (.exception, requestCount, world) => { s with requestCount, world, crashed := true }

/-! ## Reads -/

/-- The message callback of a WebSocket connection. -/
def onFrames (kernel : Kernel) (data : Bytes) (s : Session σ) : Session σ :=
  match decode data with
  | .incomplete => { s with inputBuffer := data }
  | .frame f consumed =>
      (replyTo f).foldl (fun s text => s.send kernel text)
        { s with inputBuffer := data.drop consumed, frames := s.frames ++ [f] }
  | .lengthError => { s with crashed := true }

/-- `handle_read` with some bytes: a frame is handled, or the parser starts. -/
def handleRead (kernel : Kernel) (bytes : Bytes) (s : Session σ) : Session σ :=
  if !s.conn.isConnected then s
  else
    let data := s.inputBuffer ++ bytes
    match s.context with
    | .ws _ => s.onFrames kernel data
    | .http =>
        { s with
          inputBuffer := []
          pending := some (s.parser.deliveries data)
          parser := match s.parser.feed data with
            | .ok (parser, _) => parser
            | .error _ => s.parser }
    -- `any_cast` throws
    | .cleared => { s with crashed := true }

/-- `feed` from here on, up to the exception if there is one. -/
def finishFeed (S : Site σ) (kernel : Kernel) (e : Option StoError) :
    List HttpRequest → Session σ → Session σ
  | [], s => { s with pending := none, crashed := e.isSome }
  | req :: rest, s =>
      let s := { s with pending := some (rest, e) }.onRequest S kernel req
      if s.crashed then s else finishFeed S kernel e rest s

/-- A whole read event. -/
def onRead (S : Site σ) (kernel : Kernel) (bytes : Bytes) (s : Session σ) : Session σ :=
  if s.crashed then s
  else
    let s := s.handleRead kernel bytes
    match s.pending with
    | none => s
    | some (reqs, e) => s.finishFeed S kernel e reqs

def step (S : Site σ) (kernel : Kernel) (s : Session σ) (event : SessionEvent σ) :
    Option (Session σ) :=
  if s.crashed then none
  else
    match event with
    | .read bytes =>
        if s.pending.isSome ∨ bytes = [] then none else some (s.handleRead kernel bytes)
    | .request =>
        match s.pending with
        | some (req :: rest, e) =>
            some ({ s with pending := some (rest, e) }.onRequest S kernel req)
        | _ => none
    | .fed =>
        match s.pending with
        | some ([], e) => some { s with pending := none, crashed := e.isSome }
        | _ => none
    | .writable => if s.pending.isSome then none else some (s.handleWrite kernel)
    | .push text => some (s.send kernel text)
    | .hangUp => if s.pending.isSome then none else some s.handleClose
    | .forceClose => if s.pending.isSome then none else some s.forceClose
    | .destroyed =>
        if s.pending.isSome ∨ s.conn.state ≠ .disconnected then none
        else some { s with context := .cleared }
    | .unregistered uploadId => some { s with sessions := s.sessions.erase uploadId }
    | .elsewhere world => some { s with world }

/-! ## What closing and sending do -/

/-- Between two steps a connection is open, and waits for the socket exactly while
bytes are left, or it is closed. -/
def Steady (s : Session σ) : Prop :=
  (s.conn.state = .connected ∧ s.conn.Flowing) ∨
    (s.conn.state = .disconnected ∧ s.conn.isNoneEvent = true)

section Sends

variable {s : Session σ} {kernel : Kernel} {text : Bytes}

theorem handleClose_of_connected (h : s.conn.state = .connected) : s.handleClose =
    { s with
      conn := { s.conn with state := .disconnected, reading := false, writing := false }
      disconnects := s.disconnects + 1
      sessions := []
      metrics := 0 } := by
  unfold handleClose
  rw [if_pos (.inl h)]

theorem handleClose_of_disconnected (h : s.conn.state = .disconnected) : s.handleClose = s := by
  have hconn : { s.conn with state := .disconnected } = s.conn := by rw [← h]
  unfold handleClose
  rw [if_neg (by rw [h]; nofun), hconn]

theorem forceClose_of_connected (h : s.conn.state = .connected) : s.forceClose = s.handleClose := by
  rw [handleClose_of_connected h]
  unfold forceClose handleClose
  rw [if_pos (.inl h), if_pos (.inr rfl)]

theorem forceClose_of_disconnected (h : s.conn.state = .disconnected) : s.forceClose = s := by
  unfold forceClose
  rw [if_neg (by rw [h]; nofun)]

theorem send_of_disconnected (h : s.conn.state = .disconnected) : s.send kernel text = s := by
  unfold send
  rw [if_neg (by simp [TcpConnection.isConnected, h])]

theorem runWriteComplete_of_ne (h : s.writeComplete ≠ .forceClose) : s.runWriteComplete = s := by
  unfold runWriteComplete
  split
  · rfl
  · rfl
  · rename_i hforce
    exact absurd hforce h

theorem runWriteComplete_of_force (h : s.writeComplete = .forceClose)
    (hopen : s.conn.state = .connected) : s.runWriteComplete = s.handleClose := by
  unfold runWriteComplete
  rw [h]
  exact forceClose_of_connected hopen

/-- `handle_write` has nothing to do after the callback. -/
theorem finishWrite_idle (h : s.conn.state ≠ .disconnecting) :
    { s with conn := s.conn.finishWrite } = s := by
  unfold TcpConnection.finishWrite
  rw [if_neg h]

theorem handleClose_frame (s : Session σ) : ∃ conn disconnects sessions metrics,
    s.handleClose = { s with conn, disconnects, sessions, metrics } := by
  unfold handleClose
  split
  · exact ⟨_, _, _, _, rfl⟩
  · exact ⟨_, _, _, _, rfl⟩

/-- Whatever a write calls, only the connection and its entries change. -/
theorem proceed_frame (r : TcpConnection × Next) (s : Session σ) :
    ∃ conn disconnects sessions metrics,
      s.proceed r = { s with conn, disconnects, sessions, metrics, writes := s.writes + 1 } := by
  have hforce : ∀ s : Session σ, ∃ conn disconnects sessions metrics,
      s.forceClose = { s with conn, disconnects, sessions, metrics } := by
    intro s
    unfold forceClose
    split
    · exact handleClose_frame { s with conn := { s.conn with state := .disconnecting } }
    · exact ⟨_, _, _, _, rfl⟩
  obtain ⟨conn, next⟩ := r
  unfold proceed
  cases next with
  | nothing => exact ⟨_, _, _, _, rfl⟩
  | writeComplete =>
      dsimp only
      unfold runWriteComplete
      split
      · exact ⟨_, _, _, _, rfl⟩
      · exact ⟨_, _, _, _, rfl⟩
      · exact hforce { s with conn, writes := s.writes + 1 }
  | error => exact handleClose_frame { s with conn, writes := s.writes + 1 }

theorem send_frame (kernel : Kernel) (text : Bytes) (s : Session σ) :
    ∃ conn disconnects sessions metrics writes,
      s.send kernel text = { s with conn, disconnects, sessions, metrics, writes } := by
  unfold send
  split
  · obtain ⟨conn, disconnects, sessions, metrics, h⟩ := proceed_frame
      (s.conn.sendInLoop text (kernel s.writes text.length)) s
    exact ⟨conn, disconnects, sessions, metrics, _, h⟩
  · exact ⟨_, _, _, _, _, rfl⟩

theorem handleWrite_frame (kernel : Kernel) (s : Session σ) :
    ∃ conn disconnects sessions metrics writes,
      s.handleWrite kernel = { s with conn, disconnects, sessions, metrics, writes } := by
  obtain ⟨conn, disconnects, sessions, metrics, h⟩ := proceed_frame
    (s.conn.handleWrite (kernel s.writes s.conn.outputBuffer.readableBytes)) s
  unfold handleWrite
  dsimp only
  rw [h]
  split
  · exact ⟨_, disconnects, sessions, metrics, _, rfl⟩
  · exact ⟨conn, disconnects, sessions, metrics, _, rfl⟩

/-- A message is put behind the others and the connection stays open; or nothing
was left to be written, and it is closed. -/
theorem send_cases (kernel : Kernel) (text : Bytes) (hopen : s.conn.state = .connected)
    (hflow : s.conn.Flowing) :
    (∃ conn, s.send kernel text = { s with conn, writes := s.writes + 1 } ∧
      conn.state = .connected ∧ conn.Flowing ∧ conn.stream = s.conn.stream ++ text ∧
      (s.conn.outputBuffer.data ≠ [] ∨ (s.writeComplete = .forceClose ∧ text ≠ []) →
        conn.outputBuffer.data ≠ [])) ∨
    (∃ conn, s.send kernel text = { s with conn, writes := s.writes + 1 }.handleClose ∧
      conn.state = .connected ∧ s.conn.outputBuffer.data = [] ∧
      (kernel s.writes text.length = .error ∨ s.writeComplete = .forceClose)) := by
  have hconnected : s.conn.isConnected = true := by simp [TcpConnection.isConnected, hopen]
  obtain ⟨hopen', hflow', hcases⟩ := TcpConnection.sendInLoop_cases text
    (kernel s.writes text.length) hopen hflow
  unfold send proceed
  rw [if_pos hconnected]
  generalize s.conn.sendInLoop text (kernel s.writes text.length) = r at *
  obtain ⟨conn, next⟩ := r
  rcases hcases with ⟨rfl, hstream, hleft⟩ | ⟨rfl, hstream, hempty, -⟩ | ⟨rfl, hempty, herror⟩
  · exact .inl ⟨conn, rfl, hopen', hflow', hstream, fun h => hleft (h.imp id And.right)⟩
  · by_cases hforce : s.writeComplete = .forceClose
    · refine .inr ⟨conn, ?_, hopen', hempty, .inr hforce⟩
      exact runWriteComplete_of_force (s := { s with conn, writes := s.writes + 1 }) hforce hopen'
    · refine .inl ⟨conn, runWriteComplete_of_ne (s := { s with conn, writes := s.writes + 1 }) hforce, hopen', hflow', hstream, ?_⟩
      rintro (hne | ⟨hf, -⟩)
      · exact absurd hempty hne
      · exact absurd hf hforce
  · exact .inr ⟨conn, rfl, hopen', hempty, .inl herror⟩

theorem handleWrite_of_disconnected (h : s.conn.isNoneEvent = true) :
    s.handleWrite kernel = { s with writes := s.writes + 1 } := by
  unfold handleWrite proceed
  rw [TcpConnection.handleWrite_none h]
  rfl

/-- The socket is writable: some bytes go out and the connection stays open, with
bytes left if it is to be closed behind them; or it is closed. -/
theorem handleWrite_cases (kernel : Kernel) (hopen : s.conn.state = .connected)
    (hflow : s.conn.Flowing) :
    (∃ conn, s.handleWrite kernel = { s with conn, writes := s.writes + 1 } ∧
      conn.state = .connected ∧ conn.Flowing ∧ conn.stream = s.conn.stream ∧
      (s.conn.outputBuffer.data ≠ [] → s.writeComplete = .forceClose →
        conn.outputBuffer.data ≠ [])) ∨
    (∃ conn, s.handleWrite kernel = { s with conn, writes := s.writes + 1 }.handleClose ∧
      conn.state = .connected ∧
      (kernel s.writes s.conn.outputBuffer.readableBytes = .error ∨
        s.writeComplete = .forceClose)) := by
  have hstate := (TcpConnection.handleWrite_frame
    (kernel s.writes s.conn.outputBuffer.readableBytes) s.conn).1.trans hopen
  have hcases := TcpConnection.handleWrite_cases
    (kernel s.writes s.conn.outputBuffer.readableBytes) hflow
  have hleft := @TcpConnection.handleWrite_left s.conn
    (kernel s.writes s.conn.outputBuffer.readableBytes)
  unfold handleWrite proceed
  dsimp only
  generalize s.conn.handleWrite (kernel s.writes s.conn.outputBuffer.readableBytes) = r at *
  obtain ⟨conn, next⟩ := r
  rcases hcases with ⟨hne, hflow', hstream, -⟩ | ⟨hfailed, herror⟩
  · cases next with
    | nothing =>
        exact .inl ⟨conn, rfl, hstate, hflow', hstream, fun hwait _ => hleft rfl hwait⟩
    | writeComplete =>
        by_cases hforce : s.writeComplete = .forceClose
        · refine .inr ⟨conn, ?_, hstate, .inr hforce⟩
          -- the callback has closed the connection, and nothing is left to do for `shutdown`
          have hclose := runWriteComplete_of_force (s := { s with conn, writes := s.writes + 1 })
            hforce hstate
          have hclosed := handleClose_of_connected (s := { s with conn, writes := s.writes + 1 })
            hstate
          rw [if_pos rfl, hclose]
          exact finishWrite_idle (by rw [hclosed]; nofun)
        · refine .inl ⟨conn, ?_, hstate, hflow', hstream, fun _ hf => absurd hf hforce⟩
          rw [if_pos rfl, runWriteComplete_of_ne (s := { s with conn, writes := s.writes + 1 }) hforce]
          refine finishWrite_idle ?_
          dsimp only
          rw [hstate]
          nofun
    | error => exact absurd rfl hne
  · refine .inr ⟨conn, ?_, hstate, .inl herror⟩
    cases hfailed
    rfl

end Sends

/-! ## Every step leaves a connection open or closed -/

/-- A connection that is to be closed behind its output has some left. -/
structure Sound (s : Session σ) : Prop where
  steady : Steady s
  draining : s.conn.state = .connected → s.writeComplete = .forceClose →
    s.conn.outputBuffer.data ≠ []

section Steps

variable {S : Site σ} {kernel : Kernel} {s s' : Session σ}

theorem Steady.handleClose (h : Steady s) : Sound s.handleClose := by
  rcases h with ⟨hopen, -⟩ | ⟨hclosed, hnone⟩
  · rw [handleClose_of_connected hopen]
    exact ⟨.inr ⟨rfl, rfl⟩, nofun⟩
  · rw [handleClose_of_disconnected hclosed]
    refine ⟨.inr ⟨hclosed, hnone⟩, fun hopen => ?_⟩
    rw [hclosed] at hopen
    cases hopen

theorem Steady.forceClose (h : Steady s) : Sound s.forceClose := by
  rcases h with ⟨hopen, hflow⟩ | ⟨hclosed, hnone⟩
  · rw [forceClose_of_connected hopen]
    exact Steady.handleClose (.inl ⟨hopen, hflow⟩)
  · rw [forceClose_of_disconnected hclosed]
    refine ⟨.inr ⟨hclosed, hnone⟩, fun hopen => ?_⟩
    rw [hclosed] at hopen
    cases hopen

/-- Closing leaves nothing to a connection, whatever was written last. -/
theorem sound_handleClose (h : s.conn.state = .connected) : Sound s.handleClose := by
  rw [handleClose_of_connected h]
  exact ⟨.inr ⟨rfl, rfl⟩, nofun⟩

/-- After a message that is not empty something is left or the connection is closed,
if it is to be closed. -/
theorem Steady.send {text : Bytes} (h : Steady s) (htext : text ≠ []) :
    Sound (s.send kernel text) := by
  rcases h with ⟨hopen, hflow⟩ | ⟨hclosed, hnone⟩
  · rcases send_cases kernel text hopen hflow with
      ⟨conn, hsend, hopen', hflow', -, hleft⟩ | ⟨conn, hsend, hopen', -⟩
    · rw [hsend]
      exact ⟨.inl ⟨hopen', hflow'⟩, fun _ hforce => hleft (.inr ⟨hforce, htext⟩)⟩
    · rw [hsend]
      exact sound_handleClose hopen'
  · rw [send_of_disconnected hclosed]
    refine ⟨.inr ⟨hclosed, hnone⟩, fun hopen => ?_⟩
    rw [hclosed] at hopen
    cases hopen

theorem Sound.send {text : Bytes} (h : Sound s) : Sound (s.send kernel text) := by
  rcases h.steady with ⟨hopen, hflow⟩ | ⟨hclosed, hnone⟩
  · rcases send_cases kernel text hopen hflow with
      ⟨conn, hsend, hopen', hflow', -, hleft⟩ | ⟨conn, hsend, hopen', -⟩
    · rw [hsend]
      exact ⟨.inl ⟨hopen', hflow'⟩, fun _ hforce => hleft (.inl (h.draining hopen hforce))⟩
    · rw [hsend]
      exact sound_handleClose hopen'
  · rw [send_of_disconnected hclosed]
    exact h

theorem Sound.handleWrite (h : Sound s) : Sound (s.handleWrite kernel) := by
  rcases h.steady with ⟨hopen, hflow⟩ | ⟨hclosed, hnone⟩
  · rcases handleWrite_cases kernel hopen hflow with
      ⟨conn, hwrite, hopen', hflow', -, hleft⟩ | ⟨conn, hwrite, hopen', -⟩
    · rw [hwrite]
      exact ⟨.inl ⟨hopen', hflow'⟩, fun _ hforce => hleft (h.draining hopen hforce) hforce⟩
    · rw [hwrite]
      exact sound_handleClose hopen'
  · rw [handleWrite_of_disconnected hnone]
    exact ⟨h.steady, h.draining⟩

theorem Sound.sendResponse {resp : HttpResponse} {keepAlive : Bool} (h : Sound s) :
    Sound (s.sendResponse S kernel resp keepAlive) :=
  Steady.send (s := s.answering keepAlive) h.steady (S.responseText_ne resp keepAlive)

theorem Sound.upgrade {key : Bytes} {session : Option Bytes} (h : Sound s) :
    Sound (s.upgrade S kernel key session) := by
  have hsend : Sound (s.send kernel (S.buildUpgradeResponse key)) := h.send
  unfold Session.upgrade
  cases session with
  | none => exact Sound.send ⟨hsend.steady, hsend.draining⟩
  | some uploadId => exact ⟨hsend.steady, hsend.draining⟩

theorem Sound.onRequest {req : HttpRequest} (h : Sound s) :
    Sound (s.onRequest S kernel req) := by
  unfold Session.onRequest
  dsimp only
  split
  · exact Sound.upgrade ⟨h.steady, h.draining⟩
  · exact Sound.sendResponse ⟨h.steady, h.draining⟩
  · exact ⟨h.steady, h.draining⟩

theorem Sound.onFrames {data : Bytes} (h : Sound s) : Sound (s.onFrames kernel data) := by
  have hreplies : ∀ (texts : List Bytes) {s : Session σ}, Sound s →
      Sound (texts.foldl (fun s text => s.send kernel text) s) := by
    intro texts
    induction texts with
    | nil => exact fun h => h
    | cons text texts ih => exact fun h => ih h.send
  unfold Session.onFrames
  split
  · exact ⟨h.steady, h.draining⟩
  · exact hreplies _ ⟨h.steady, h.draining⟩
  · exact ⟨h.steady, h.draining⟩

theorem Sound.handleRead {bytes : Bytes} (h : Sound s) : Sound (s.handleRead kernel bytes) := by
  unfold Session.handleRead
  split
  · exact h
  · dsimp only
    split
    · exact h.onFrames
    · exact ⟨h.steady, h.draining⟩
    · exact ⟨h.steady, h.draining⟩

/-- What each step can do. -/
theorem step_cases {event : SessionEvent σ} (hstep : step S kernel s event = some s') :
    s.crashed = false ∧
      match event with
      | .read bytes => s.pending = none ∧ bytes ≠ [] ∧ s' = s.handleRead kernel bytes
      | .request => ∃ req rest e, s.pending = some (req :: rest, e) ∧
          s' = { s with pending := some (rest, e) }.onRequest S kernel req
      | .fed => ∃ e, s.pending = some ([], e) ∧ s' = { s with pending := none, crashed := e.isSome }
      | .writable => s.pending = none ∧ s' = s.handleWrite kernel
      | .push text => s' = s.send kernel text
      | .hangUp => s.pending = none ∧ s' = s.handleClose
      | .forceClose => s.pending = none ∧ s' = s.forceClose
      | .destroyed => s.pending = none ∧ s.conn.state = .disconnected ∧
          s' = { s with context := .cleared }
      | .unregistered uploadId => s' = { s with sessions := s.sessions.erase uploadId }
      | .elsewhere world => s' = { s with world } := by
  unfold step at hstep
  split at hstep
  · cases hstep
  · rename_i hlive
    refine ⟨by simpa using hlive, ?_⟩
    cases event with
    | read bytes =>
        simp only [Option.ite_none_left_eq_some, Option.some.injEq, not_or] at hstep
        exact ⟨by simpa using hstep.1.1, hstep.1.2, hstep.2.symm⟩
    | request =>
        dsimp only at hstep ⊢
        split at hstep
        · rename_i req rest e hpending
          cases hstep
          exact ⟨req, rest, e, hpending, rfl⟩
        · cases hstep
    | fed =>
        dsimp only at hstep ⊢
        split at hstep
        · rename_i e hpending
          cases hstep
          exact ⟨e, hpending, rfl⟩
        · cases hstep
    | writable =>
        simp only [Option.ite_none_left_eq_some, Option.some.injEq] at hstep
        exact ⟨by simpa using hstep.1, hstep.2.symm⟩
    | push text => exact (Option.some.inj hstep).symm
    | hangUp =>
        simp only [Option.ite_none_left_eq_some, Option.some.injEq] at hstep
        exact ⟨by simpa using hstep.1, hstep.2.symm⟩
    | forceClose =>
        simp only [Option.ite_none_left_eq_some, Option.some.injEq] at hstep
        exact ⟨by simpa using hstep.1, hstep.2.symm⟩
    | destroyed =>
        simp only [Option.ite_none_left_eq_some, Option.some.injEq, not_or, not_not] at hstep
        exact ⟨by simpa using hstep.1.1, hstep.1.2, hstep.2.symm⟩
    | unregistered uploadId => exact (Option.some.inj hstep).symm
    | elsewhere world => exact (Option.some.inj hstep).symm

theorem Sound.step {event : SessionEvent σ} (h : Sound s)
    (hstep : step S kernel s event = some s') : Sound s' := by
  obtain ⟨-, hcase⟩ := step_cases hstep
  cases event with
  | read bytes =>
      obtain ⟨-, -, rfl⟩ := hcase
      exact h.handleRead
  | request =>
      obtain ⟨req, rest, e, -, rfl⟩ := hcase
      exact Sound.onRequest ⟨h.steady, h.draining⟩
  | fed =>
      obtain ⟨e, -, rfl⟩ := hcase
      exact ⟨h.steady, h.draining⟩
  | writable =>
      obtain ⟨-, rfl⟩ := hcase
      exact h.handleWrite
  | push text =>
      rw [hcase]
      exact h.send
  | hangUp =>
      obtain ⟨-, rfl⟩ := hcase
      exact h.steady.handleClose
  | forceClose =>
      obtain ⟨-, rfl⟩ := hcase
      exact h.steady.forceClose
  | destroyed =>
      obtain ⟨-, -, rfl⟩ := hcase
      exact ⟨h.steady, h.draining⟩
  | unregistered uploadId =>
      rw [hcase]
      exact ⟨h.steady, h.draining⟩
  | elsewhere world =>
      rw [hcase]
      exact ⟨h.steady, h.draining⟩

end Steps

/-! ## What sends leave alone -/

/-- A step that sends or closes keeps the callback and the requests of a read, and the
entries in the registry unless the connection has closed. -/
structure Follows (s s' : Session σ) : Prop where
  writeComplete : s'.writeComplete = s.writeComplete
  pending : s'.pending = s.pending
  closing : s'.closing = s.closing
  late : s'.late = s.late
  entries : (s'.conn.state = s.conn.state ∧ s'.disconnects = s.disconnects ∧
      s'.sessions = s.sessions ∧ s'.metrics = s.metrics) ∨
    (s'.conn.state = .disconnected ∧ s'.sessions = [] ∧ s'.metrics = 0)

section Frames

variable {S : Site σ} {kernel : Kernel} {s s' s'' : Session σ}

theorem Follows.refl (s : Session σ) : Follows s s :=
  ⟨rfl, rfl, rfl, rfl, .inl ⟨rfl, rfl, rfl, rfl⟩⟩

theorem Follows.trans (h : Follows s s') (h' : Follows s' s'') : Follows s s'' := by
  refine ⟨h'.writeComplete.trans h.writeComplete, h'.pending.trans h.pending,
    h'.closing.trans h.closing, h'.late.trans h.late, ?_⟩
  rcases h'.entries with ⟨hstate', hdisconnects', hsessions', hmetrics'⟩ | hclosed
  · rcases h.entries with ⟨hstate, hdisconnects, hsessions, hmetrics⟩ | ⟨hstate, hsessions, hmetrics⟩
    · exact .inl ⟨hstate'.trans hstate, hdisconnects'.trans hdisconnects,
        hsessions'.trans hsessions, hmetrics'.trans hmetrics⟩
    · exact .inr ⟨hstate'.trans hstate, hsessions'.trans hsessions, hmetrics'.trans hmetrics⟩
  · exact .inr hclosed

/-- A write leaves the connection open. -/
theorem follows_open {conn : TcpConnection} (hopen : s.conn.state = .connected)
    (hopen' : conn.state = .connected) : Follows s { s with conn, writes := s.writes + 1 } :=
  ⟨rfl, rfl, rfl, rfl, .inl ⟨hopen'.trans hopen.symm, rfl, rfl, rfl⟩⟩

/-- Or it closes it. -/
theorem follows_closed {conn : TcpConnection} (hopen' : conn.state = .connected) :
    Follows s { s with conn, writes := s.writes + 1 }.handleClose := by
  rw [handleClose_of_connected hopen']
  exact ⟨rfl, rfl, rfl, rfl, .inr ⟨rfl, rfl, rfl⟩⟩

theorem follows_handleClose (h : Steady s) : Follows s s.handleClose := by
  rcases h with ⟨hopen, -⟩ | ⟨hclosed, -⟩
  · rw [handleClose_of_connected hopen]
    exact ⟨rfl, rfl, rfl, rfl, .inr ⟨rfl, rfl, rfl⟩⟩
  · rw [handleClose_of_disconnected hclosed]
    exact .refl s

theorem follows_forceClose (h : Steady s) : Follows s s.forceClose := by
  rcases h with ⟨hopen, hflow⟩ | ⟨hclosed, -⟩
  · rw [forceClose_of_connected hopen]
    exact follows_handleClose (.inl ⟨hopen, hflow⟩)
  · rw [forceClose_of_disconnected hclosed]
    exact .refl s

theorem follows_send (h : Steady s) (text : Bytes) : Follows s (s.send kernel text) := by
  rcases h with ⟨hopen, hflow⟩ | ⟨hclosed, -⟩
  · rcases send_cases kernel text hopen hflow with
      ⟨conn, hsend, hopen', -⟩ | ⟨conn, hsend, hopen', -⟩
    · rw [hsend]
      exact follows_open hopen hopen'
    · rw [hsend]
      exact follows_closed hopen'
  · rw [send_of_disconnected hclosed]
    exact .refl s

theorem follows_handleWrite (h : Steady s) : Follows s (s.handleWrite kernel) := by
  rcases h with ⟨hopen, hflow⟩ | ⟨-, hnone⟩
  · rcases handleWrite_cases kernel hopen hflow with
      ⟨conn, hwrite, hopen', -⟩ | ⟨conn, hwrite, hopen', -⟩
    · rw [hwrite]
      exact follows_open hopen hopen'
    · rw [hwrite]
      exact follows_closed hopen'
  · rw [handleWrite_of_disconnected hnone]
    exact ⟨rfl, rfl, rfl, rfl, .inl ⟨rfl, rfl, rfl, rfl⟩⟩

theorem follows_onFrames (h : Sound s) (data : Bytes) : Follows s (s.onFrames kernel data) := by
  have hreplies : ∀ (texts : List Bytes) {s : Session σ}, Sound s →
      Follows s (texts.foldl (fun s text => s.send kernel text) s) := by
    intro texts
    induction texts with
    | nil => exact fun {s} _ => .refl s
    | cons text texts ih => exact fun h => (follows_send h.steady text).trans (ih h.send)
  unfold onFrames
  split
  · exact ⟨rfl, rfl, rfl, rfl, .inl ⟨rfl, rfl, rfl, rfl⟩⟩
  · rename_i f consumed _
    have hframe : Follows s { s with
        inputBuffer := data.drop consumed
        frames := s.frames ++ [f] } :=
      ⟨rfl, rfl, rfl, rfl, .inl ⟨rfl, rfl, rfl, rfl⟩⟩
    exact hframe.trans (hreplies _ ⟨h.steady, h.draining⟩)
  · exact ⟨rfl, rfl, rfl, rfl, .inl ⟨rfl, rfl, rfl, rfl⟩⟩

end Frames

theorem sound_established (world : σ) : Sound { world := world } := by
  refine ⟨.inl ⟨rfl, rfl, ?_⟩, nofun⟩
  simp [TcpConnection.established]

end Session

end SolarDrive.Server
