import SolarDrive.Network.TcpConnection

/-!
# The output of a connection

Messages are sent and the socket becomes writable, in any order, and whenever
everything is written the completion callback may send again, to any depth. What
the kernel has accepted and what is buffered is always what was sent, in order.
-/

namespace SolarDrive.Network

open Lib

/-- The sends of a callback. Each has what its write returns, the bytes accepted or
`EAGAIN`, and the sends its own completion makes if it is called. -/
inductive Script where
  | done
  | send (message : Bytes) (accepted : Option Nat) (completion next : Script)

/-- A connection, and all that was sent on it. -/
structure Sending where
  conn : TcpConnection := .established
  asked : Bytes := []

inductive OutputEvent where
  | send (message : Bytes) (accepted : Option Nat) (completion : Script)
  | writable (accepted : Option Nat) (completion : Script)

def WriteResult.ofKernel : Option Nat → WriteResult
  | some n => .accepted n
  | none => .again

namespace Sending

/-- `send` on the loop thread. -/
def send (message : Bytes) (result : WriteResult) (writeComplete : Sending → Sending)
    (s : Sending) : Sending :=
  if s.conn.isConnected then
    match s.conn.sendInLoop message result with
    | (conn, .writeComplete) => writeComplete { conn, asked := s.asked ++ message }
    | (conn, _) => { conn, asked := s.asked ++ message }
  else s

def runScript : Script → Sending → Sending
  | .done, s => s
  | .send message accepted completion next, s =>
      runScript next (s.send message (.ofKernel accepted) (runScript completion))

def step (s : Sending) : OutputEvent → Sending
  | .send message accepted completion =>
      s.send message (.ofKernel accepted) (runScript completion)
  | .writable accepted completion =>
      match s.conn.handleWrite (.ofKernel accepted) with
      | (conn, .writeComplete) =>
          let s := runScript completion { s with conn }
          { s with conn := s.conn.finishWrite }
      | (conn, _) => { s with conn }

structure Conserved (s : Sending) : Prop where
  connected : s.conn.state = .connected
  flowing : s.conn.Flowing
  stream : s.conn.stream = s.asked

section Steps

variable {s : Sending}

theorem ofKernel_ne_error (accepted : Option Nat) : WriteResult.ofKernel accepted ≠ .error := by
  cases accepted <;> nofun

/-- A send conserves the stream when its completion callback does. -/
theorem Conserved.send (h : Conserved s) {writeComplete : Sending → Sending}
    (hcallback : ∀ s, Conserved s → Conserved (writeComplete s)) (message : Bytes)
    (accepted : Option Nat) :
    Conserved (s.send message (.ofKernel accepted) writeComplete) := by
  obtain ⟨hconnected, hflowing, hstream⟩ := h
  obtain ⟨hstream', hflowing', -, -⟩ := TcpConnection.writeMessage_spec message hflowing
    (ofKernel_ne_error accepted)
  obtain ⟨hstate, -⟩ := TcpConnection.writeMessage_frame message (.ofKernel accepted) s.conn
  have hopen : s.conn.isConnected = true := by simp [TcpConnection.isConnected, hconnected]
  have hnext : Conserved
      { conn := (s.conn.writeMessage message (.ofKernel accepted)).1
        asked := s.asked ++ message } :=
    ⟨hstate.trans hconnected, hflowing', by rw [← hstream]; exact hstream'⟩
  unfold Sending.send TcpConnection.sendInLoop
  rw [if_pos hopen, if_pos hopen]
  split
  · rename_i conn heq
    rw [heq] at hnext
    exact hcallback _ hnext
  · rename_i conn next hnot heq
    rw [heq] at hnext
    exact hnext

/-- So do the sends of a callback, by induction on how they are nested. -/
theorem Conserved.runScript (script : Script) : ∀ {s : Sending}, Conserved s →
    Conserved (runScript script s) := by
  induction script with
  | done => exact fun h => h
  | send message accepted completion next ihcompletion ihnext =>
      intro s h
      exact ihnext (h.send (fun s hs => ihcompletion hs) message accepted)

theorem Conserved.step (h : Conserved s) (e : OutputEvent) : Conserved (s.step e) := by
  cases e with
  | send message accepted completion =>
      exact h.send (fun s hs => hs.runScript completion) message accepted
  | writable accepted completion =>
      obtain ⟨hconnected, hflowing, hstream⟩ := h
      obtain ⟨hstream', hflowing', -, -⟩ :=
        TcpConnection.handleWrite_spec hflowing (ofKernel_ne_error accepted)
      obtain ⟨hstate, -⟩ := TcpConnection.handleWrite_frame (.ofKernel accepted) s.conn
      have hnext : Conserved { s with conn := (s.conn.handleWrite (.ofKernel accepted)).1 } :=
        ⟨hstate.trans hconnected, hflowing', hstream'.trans hstream⟩
      unfold Sending.step
      dsimp only
      split
      · rename_i conn heq
        rw [heq] at hnext
        have hcallback := hnext.runScript completion
        have hfinish : (Sending.runScript completion { s with conn }).conn.finishWrite =
            (Sending.runScript completion { s with conn }).conn := by
          unfold TcpConnection.finishWrite
          rw [hcallback.connected]
          rfl
        rw [hfinish]
        exact hcallback
      · rename_i conn next hnot heq
        rw [heq] at hnext
        exact hnext

end Steps

end Sending

end SolarDrive.Network
