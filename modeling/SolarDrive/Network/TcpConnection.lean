import SolarDrive.Network.Buffer
import SolarDrive.Network.ConnectionState

/-!
# A connection on its loop

What the functions of a connection do on the loop thread, up to the point where
they call back: they return with what is to be called, and the caller goes on
from there. A write is given its result. No high-water callback is installed.
-/

namespace SolarDrive.Network

open Lib

/-- What a `write` of so many bytes returns. -/
inductive WriteResult where
  /-- At most so many bytes are accepted. -/
  | accepted (n : Nat)
  /-- `EAGAIN`. -/
  | again
  | error
deriving DecidableEq

/-- What a function of the connection calls before it returns. -/
inductive Next where
  | nothing
  | writeComplete
  /-- `handle_error`. -/
  | error
deriving DecidableEq

structure TcpConnection where
  state : ConnState
  /-- The channel is enabled for `EPOLLIN`. -/
  reading : Bool
  /-- And for `EPOLLOUT`. -/
  writing : Bool
  outputBuffer : Buffer
  /-- What the kernel has accepted. -/
  sent : Bytes
  /-- `SHUT_WR` has been performed. -/
  shutWr : Bool

namespace TcpConnection

/-- A connection for which `connection_established` has run. -/
def established : TcpConnection where
  state := .connected
  reading := true
  writing := false
  outputBuffer := .new 1024
  sent := []
  shutWr := false

def isConnected (c : TcpConnection) : Bool := c.state = .connected

def isNoneEvent (c : TcpConnection) : Bool := !c.reading && !c.writing

/-- `send_in_loop` after a write that left these bytes over. -/
def bufferRest (rest : Bytes) (c : TcpConnection) : TcpConnection :=
  if rest = [] then c
  else
    { c with
      outputBuffer := c.outputBuffer.append rest
      writing := c.writing || !c.isNoneEvent }

/-- `send_in_loop` after its check of the state. -/
def writeMessage (message : Bytes) (result : WriteResult) (c : TcpConnection) :
    TcpConnection × Next :=
  if !c.isNoneEvent && !c.writing && c.outputBuffer.readableBytes = 0 then
    match result with
    | .accepted n =>
        let c := { c with sent := c.sent ++ message.take n }
        if message.drop n = [] then (c, .writeComplete)
        else (c.bufferRest (message.drop n), .nothing)
    | .again => (c.bufferRest message, .nothing)
    | .error => (c, .error)
  else (c.bufferRest message, .nothing)

def sendInLoop (message : Bytes) (result : WriteResult) (c : TcpConnection) :
    TcpConnection × Next :=
  if c.isConnected then c.writeMessage message result else (c, .nothing)

/-- `handle_write` up to the callback; `finishWrite` is what comes after it. -/
def handleWrite (result : WriteResult) (c : TcpConnection) : TcpConnection × Next :=
  if c.isNoneEvent || !c.writing || c.outputBuffer.readableBytes = 0 then (c, .nothing)
  else
    match result with
    | .accepted 0 => (c, .nothing)
    | .accepted n =>
        let data := c.outputBuffer.data
        let c := { c with
          sent := c.sent ++ data.take n
          outputBuffer := c.outputBuffer.retrieve (min n data.length) }
        if c.outputBuffer.readableBytes = 0 then ({ c with writing := false }, .writeComplete)
        else (c, .nothing)
    | .again => (c, .nothing)
    | .error => (c, .error)

def shutdownInLoop (c : TcpConnection) : TcpConnection :=
  if c.state = .disconnecting ∧ c.outputBuffer.readableBytes = 0 then { c with shutWr := true }
  else c

def finishWrite (c : TcpConnection) : TcpConnection :=
  if c.state = .disconnecting then c.shutdownInLoop else c

/-! ## What is sent and what is left -/

/-- What the kernel has accepted, and what waits in the buffer. -/
def stream (c : TcpConnection) : Bytes := c.sent ++ c.outputBuffer.data

/-- The channel waits for the socket to be writable exactly while bytes wait. -/
def Flowing (c : TcpConnection) : Prop :=
  c.reading = true ∧ (c.writing = true ↔ c.outputBuffer.data ≠ [])

theorem readableBytes_eq_zero {b : Buffer} : b.readableBytes = 0 ↔ b.data = [] := by
  rw [← Buffer.length_data, List.length_eq_zero_iff]

section Writes

variable {c : TcpConnection} {message : Bytes} {result : WriteResult}

theorem stream_bufferRest (rest : Bytes) (c : TcpConnection) :
    (c.bufferRest rest).stream = c.stream ++ rest := by
  unfold bufferRest
  split
  · rename_i hnil
    rw [hnil, List.append_nil]
  · simp only [stream, Buffer.data_append, List.append_assoc]

theorem flowing_bufferRest (rest : Bytes) (h : Flowing c) : Flowing (c.bufferRest rest) := by
  unfold bufferRest
  split
  · exact h
  · rename_i hne
    refine ⟨h.1, fun _ => ?_, fun _ => ?_⟩
    · rw [Buffer.data_append]
      exact List.append_ne_nil_of_right_ne_nil _ hne
    · simp [isNoneEvent, h.1]

/-- A message is added to the stream, all of it, unless the write fails. -/
theorem writeMessage_spec (message : Bytes) (h : Flowing c) (hresult : result ≠ .error) :
    (c.writeMessage message result).1.stream = c.stream ++ message ∧
    Flowing (c.writeMessage message result).1 ∧
    (c.writeMessage message result).2 ≠ .error ∧
    ((c.writeMessage message result).2 = .writeComplete →
      (c.writeMessage message result).1.outputBuffer.data = []) := by
  unfold writeMessage
  split
  · rename_i hdirect
    have hempty : c.outputBuffer.data = [] := by
      rw [← readableBytes_eq_zero]
      simp only [Bool.and_eq_true, decide_eq_true_eq] at hdirect
      exact hdirect.2
    cases result with
    | accepted n =>
        -- the buffer is empty, so what is accepted follows what was sent
        have hstream : ({ c with sent := c.sent ++ message.take n } : TcpConnection).stream ++
            message.drop n = c.stream ++ message := by
          simp only [stream, hempty, List.append_nil, List.append_assoc, List.take_append_drop]
        dsimp only
        split
        · rename_i hall
          rw [hall, List.append_nil] at hstream
          exact ⟨hstream, h, nofun, fun _ => hempty⟩
        · refine ⟨?_, flowing_bufferRest _ h, nofun, nofun⟩
          rw [stream_bufferRest, hstream]
    | again => exact ⟨stream_bufferRest _ _, flowing_bufferRest _ h, nofun, nofun⟩
    | error => exact absurd rfl hresult
  · exact ⟨stream_bufferRest _ _, flowing_bufferRest _ h, nofun, nofun⟩

theorem bufferRest_frame (rest : Bytes) (c : TcpConnection) :
    (c.bufferRest rest).state = c.state ∧ (c.bufferRest rest).shutWr = c.shutWr := by
  unfold bufferRest
  split <;> exact ⟨rfl, rfl⟩

theorem writeMessage_frame (message : Bytes) (result : WriteResult) (c : TcpConnection) :
    (c.writeMessage message result).1.state = c.state ∧
    (c.writeMessage message result).1.shutWr = c.shutWr := by
  unfold writeMessage
  split
  · cases result with
    | accepted n =>
        dsimp only
        split
        · exact ⟨rfl, rfl⟩
        · exact bufferRest_frame _ _
    | again => exact bufferRest_frame _ _
    | error => exact ⟨rfl, rfl⟩
  · exact bufferRest_frame _ _

/-- A write of the buffer leaves the stream as it is. -/
theorem handleWrite_spec (h : Flowing c) (hresult : result ≠ .error) :
    (c.handleWrite result).1.stream = c.stream ∧ Flowing (c.handleWrite result).1 ∧
    (c.handleWrite result).2 ≠ .error ∧
    ((c.handleWrite result).2 = .writeComplete →
      (c.handleWrite result).1.outputBuffer.data = []) := by
  unfold handleWrite
  split
  · exact ⟨rfl, h, nofun, nofun⟩
  · rename_i hwriting
    split
    · exact ⟨rfl, h, nofun, nofun⟩
    · rename_i n hpos
      have hdrop : c.outputBuffer.data.drop (min n c.outputBuffer.data.length) =
          c.outputBuffer.data.drop n := by
        rcases Nat.le_total n c.outputBuffer.data.length with hle | hle
        · rw [Nat.min_eq_left hle]
        · rw [Nat.min_eq_right hle, List.drop_length, List.drop_eq_nil_of_le hle]
      have hstream : ({ c with
          sent := c.sent ++ c.outputBuffer.data.take n
          outputBuffer := c.outputBuffer.retrieve (min n c.outputBuffer.data.length) } :
            TcpConnection).stream = c.stream := by
        simp only [stream, Buffer.data_retrieve, hdrop, List.append_assoc, List.take_append_drop]
      dsimp only
      split
      · rename_i hzero
        refine ⟨hstream, ⟨h.1, ?_⟩, nofun, fun _ => readableBytes_eq_zero.mp hzero⟩
        simp [readableBytes_eq_zero.mp hzero]
      · rename_i hleft
        refine ⟨hstream, ⟨h.1, ?_⟩, nofun, nofun⟩
        have hwriting : c.writing = true := by
          simp only [Bool.or_eq_true, not_or, Bool.not_eq_true', Bool.not_eq_false] at hwriting
          simpa using hwriting.1.2
        rw [readableBytes_eq_zero] at hleft
        exact ⟨fun _ => hleft, fun _ => hwriting⟩
    · exact ⟨rfl, h, nofun, nofun⟩
    · exact absurd rfl hresult

theorem handleWrite_frame (result : WriteResult) (c : TcpConnection) :
    (c.handleWrite result).1.state = c.state ∧ (c.handleWrite result).1.shutWr = c.shutWr := by
  unfold handleWrite
  split
  · exact ⟨rfl, rfl⟩
  · split
    · exact ⟨rfl, rfl⟩
    · dsimp only
      split <;> exact ⟨rfl, rfl⟩
    · exact ⟨rfl, rfl⟩
    · exact ⟨rfl, rfl⟩

/-- While bytes wait a message is buffered behind them. -/
theorem writeMessage_waiting (message : Bytes) (result : WriteResult) (h : Flowing c)
    (hwait : c.outputBuffer.data ≠ []) :
    c.writeMessage message result = (c.bufferRest message, .nothing) := by
  have hwriting := h.2.mpr hwait
  unfold writeMessage
  rw [if_neg (by simp [hwriting])]

/-- Otherwise it is written at once, as far as the kernel takes it. -/
theorem writeMessage_direct (message : Bytes) (result : WriteResult) (h : Flowing c)
    (hempty : c.outputBuffer.data = []) : c.writeMessage message result =
      match result with
      | .accepted n =>
          let c := { c with sent := c.sent ++ message.take n }
          if message.drop n = [] then (c, .writeComplete)
          else (c.bufferRest (message.drop n), .nothing)
      | .again => (c.bufferRest message, .nothing)
      | .error => (c, .error) := by
  have hidle : c.writing = false := by
    rw [Bool.eq_false_iff]
    exact fun hwriting => h.2.mp hwriting hempty
  have hzero := readableBytes_eq_zero.mpr hempty
  unfold writeMessage
  rw [if_pos (by simp [isNoneEvent, h.1, hidle, hzero])]

theorem data_bufferRest (rest : Bytes) (c : TcpConnection) :
    (c.bufferRest rest).outputBuffer.data = c.outputBuffer.data ++ rest := by
  unfold bufferRest
  split
  · rename_i hnil
    rw [hnil, List.append_nil]
  · exact Buffer.data_append _ _

/-- What a message does to an open connection: it is put behind the rest, it is
written at once, or its write fails. -/
theorem sendInLoop_cases (message : Bytes) (result : WriteResult) (hopen : c.state = .connected)
    (h : Flowing c) :
    (c.sendInLoop message result).1.state = .connected ∧ Flowing (c.sendInLoop message result).1 ∧
    (((c.sendInLoop message result).2 = .nothing ∧
        (c.sendInLoop message result).1.stream = c.stream ++ message ∧
        (c.outputBuffer.data ≠ [] ∨ message ≠ [] →
          (c.sendInLoop message result).1.outputBuffer.data ≠ [])) ∨
      ((c.sendInLoop message result).2 = .writeComplete ∧
        (c.sendInLoop message result).1.stream = c.stream ++ message ∧
        c.outputBuffer.data = [] ∧ (c.sendInLoop message result).1.outputBuffer.data = []) ∨
      ((c.sendInLoop message result).2 = .error ∧ c.outputBuffer.data = [] ∧ result = .error)) := by
  have hbuffered : ∀ {c : TcpConnection} {rest : Bytes}, c.outputBuffer.data ≠ [] ∨ rest ≠ [] →
      (c.bufferRest rest).outputBuffer.data ≠ [] := by
    intro c rest hne hnil
    rw [data_bufferRest] at hnil
    obtain ⟨hold, hrest⟩ := List.append_eq_nil_iff.mp hnil
    exact hne.elim (fun h => h hold) (fun h => h hrest)
  unfold sendInLoop
  rw [if_pos (by simp [isConnected, hopen])]
  by_cases hempty : c.outputBuffer.data = []
  · rw [writeMessage_direct message result h hempty]
    cases result with
    | accepted n =>
        have hstream : ({ c with sent := c.sent ++ message.take n } : TcpConnection).stream ++
            message.drop n = c.stream ++ message := by
          simp only [stream, hempty, List.append_nil, List.append_assoc, List.take_append_drop]
        dsimp only
        split
        · rename_i hall
          rw [hall, List.append_nil] at hstream
          exact ⟨hopen, h, .inr (.inl ⟨rfl, hstream, hempty, hempty⟩)⟩
        · rename_i hleft
          refine ⟨(bufferRest_frame _ _).1.trans hopen, flowing_bufferRest _ h, .inl ⟨rfl, ?_, ?_⟩⟩
          · rw [stream_bufferRest, hstream]
          · exact fun _ => hbuffered (.inr hleft)
    | again =>
        exact ⟨(bufferRest_frame _ _).1.trans hopen, flowing_bufferRest _ h,
          .inl ⟨rfl, stream_bufferRest _ _, hbuffered⟩⟩
    | error => exact ⟨hopen, h, .inr (.inr ⟨rfl, hempty, rfl⟩)⟩
  · rw [writeMessage_waiting message result h hempty]
    exact ⟨(bufferRest_frame _ _).1.trans hopen, flowing_bufferRest _ h,
      .inl ⟨rfl, stream_bufferRest _ _, hbuffered⟩⟩

/-- What is left of the buffer, unless the write fails or completes. -/
theorem handleWrite_left (hnext : (c.handleWrite result).2 = .nothing)
    (hwait : c.outputBuffer.data ≠ []) : (c.handleWrite result).1.outputBuffer.data ≠ [] := by
  revert hnext
  unfold handleWrite
  split
  · exact fun _ => hwait
  · split
    · exact fun _ => hwait
    · dsimp only
      split
      · nofun
      · rename_i hleft
        exact fun _ => fun hnil => hleft (readableBytes_eq_zero.mpr hnil)
    · exact fun _ => hwait
    · nofun

theorem handleWrite_none (h : c.isNoneEvent = true) : c.handleWrite result = (c, .nothing) := by
  unfold handleWrite
  rw [h]
  rfl

/-- What the buffer's next write does: some of it goes out, all of it, or the write
fails. -/
theorem handleWrite_cases (result : WriteResult) (h : Flowing c) :
    ((c.handleWrite result).2 ≠ .error ∧ Flowing (c.handleWrite result).1 ∧
      (c.handleWrite result).1.stream = c.stream ∧
      ((c.handleWrite result).2 = .writeComplete →
        (c.handleWrite result).1.outputBuffer.data = [])) ∨
    ((c.handleWrite result).2 = .error ∧ result = .error) := by
  by_cases herror : result = .error
  · subst herror
    unfold handleWrite
    split
    · exact .inl ⟨nofun, h, rfl, nofun⟩
    · exact .inr ⟨rfl, rfl⟩
  · obtain ⟨hstream, hflow, hnext, hdone⟩ := handleWrite_spec h herror
    exact .inl ⟨hnext, hflow, hstream, hdone⟩

/-- A write that fails leaves the connection to `handle_error`. -/
theorem handleWrite_error (h : (c.handleWrite result).2 = .error) : (c.handleWrite result).1 = c := by
  revert h
  unfold handleWrite
  split
  · nofun
  · split
    · nofun
    · dsimp only
      split <;> nofun
    · nofun
    · exact fun _ => rfl

theorem sendInLoop_error (h : (c.sendInLoop message result).2 = .error) :
    (c.sendInLoop message result).1 = c := by
  revert h
  unfold sendInLoop writeMessage
  split
  · split
    · cases result with
      | accepted n =>
          dsimp only
          split <;> nofun
      | again => nofun
      | error => exact fun _ => rfl
    · nofun
  · nofun

theorem handleWrite_empty (result : WriteResult) (h : c.outputBuffer.data = []) :
    c.handleWrite result = (c, .nothing) := by
  unfold handleWrite
  rw [if_pos]
  simp [readableBytes_eq_zero.mpr h]

end Writes

end TcpConnection

end SolarDrive.Network
