import SolarDrive.Ws.Codec

/-!
# What is encoded is decoded

The encoder with its end flag, the masked form of what it writes, and the decoder
over both. A masked frame is the frame of a client that `ClientFrame` describes, and so
is an unmasked one, without a key: `Message.client` is the bridge, and the rest is
`decode_wire` and `decode_incomplete`.
-/

namespace SolarDrive.Ws

open Lib

/-- The values of the enumeration. -/
def opCodes : List OpCode := [kContinuation, kText, kBinary, kClose, kPing, kPong]

def firstByte (opcode : OpCode) (fin : Bool) : UInt8 :=
  (if fin then 0x80 else 0x00) ||| opcode

/-- `WsCodec::encode` with its end flag. -/
def encodeFrame (opcode : OpCode) (payload : Bytes) (fin : Bool) : Bytes :=
  firstByte opcode fin :: encodeLength false payload.length ++ payload

/-- The masked variant of a frame: the mask bit is set in its second byte, the key stands
behind the length, and the payload is combined with it. -/
def maskFrame (key : Bytes) (opcode : OpCode) (payload : Bytes) (fin : Bool) : Bytes :=
  let frame := encodeFrame opcode payload fin
  let headerLen := frame.length - payload.length
  frame.take 1 ++ [frame.getD 1 0 ||| 0x80] ++ (frame.take headerLen).drop 2 ++ key ++
    applyMask key payload

/-- The decoder over a whole input: a frame, and on behind it. What is left is not
a frame yet, or one that it throws on. -/
def decodeAll (data : Bytes) : List WsFrame × Bytes :=
  match h : decode data with
  | .frame f n =>
      have : data.length - n < data.length := by
        have := frameSize_le h
        omega
      let (fs, left) := decodeAll (data.drop n)
      (f :: fs, left)
  | _ => ([], data)
termination_by data.length
decreasing_by simpa using this

theorem decodeAll_frame {data : Bytes} {f : WsFrame} {n : Nat} (h : decode data = .frame f n) :
    decodeAll data = (f :: (decodeAll (data.drop n)).1, (decodeAll (data.drop n)).2) := by
  rw [decodeAll]
  split
  · rename_i f' n' h'
    rw [h, Decoded.frame.injEq] at h'
    obtain ⟨rfl, rfl⟩ := h'
    rfl
  · rename_i hnone
    exact absurd h (hnone f n)

theorem decodeAll_incomplete {data : Bytes} (h : decode data = .incomplete) :
    decodeAll data = ([], data) := by
  rw [decodeAll]
  split
  · rename_i f n h'
    rw [h] at h'
    cases h'
  · rfl

/-- What can be sent in a frame. -/
structure Message where
  opcode : OpCode
  fin : Bool
  payload : Bytes
  opcode_mem : opcode ∈ opCodes
  payload_fits : payload.length < 2 ^ 32

/-- The key of a masked frame. -/
structure MaskKey where
  bytes : Bytes
  length_bytes : bytes.length = 4

namespace Message

/-- The frame on the wire, plain or masked. -/
def wire (m : Message) : Option MaskKey → Bytes
  | none => encodeFrame m.opcode m.payload m.fin
  | some key => maskFrame key.bytes m.opcode m.payload m.fin

/-- What the other side is to see. -/
def frame (m : Message) (key : Option MaskKey) : WsFrame where
  opcode := m.opcode
  fin := m.fin
  masked := key.isSome
  payload := m.payload

/-- The same as a frame of a client. -/
def client (m : Message) (key : Option MaskKey) : ClientFrame where
  first := firstByte m.opcode m.fin
  key := key.map MaskKey.bytes
  payload := m.payload
  key_length := by
    intro k hk
    cases key with
    | none => cases hk
    | some key =>
        rw [Option.map_some, Option.mem_some_iff] at hk
        exact hk ▸ key.length_bytes
  payload_fits := lt_trans m.payload_fits (by decide)

end Message

/-! ## The bridge to the frames of a client -/

/-- The low bits of the first byte are the opcode and its high bit is the end flag. -/
theorem firstByte_fields {opcode : OpCode} (h : opcode ∈ opCodes) (fin : Bool) :
    firstByte opcode fin &&& 0x0F = opcode ∧
      decide (128 ≤ (firstByte opcode fin).toNat) = fin := by
  have hall : ∀ opcode ∈ opCodes, ∀ fin : Bool, firstByte opcode fin &&& 0x0F = opcode ∧
      decide (128 ≤ (firstByte opcode fin).toNat) = fin := by
    decide +kernel
  exact hall opcode h fin

/-- The masked length is the plain one with the bit set in its first byte. -/
theorem encodeLength_masked (n : Nat) : encodeLength true n =
    ((encodeLength false n).getD 0 0 ||| 0x80) :: (encodeLength false n).drop 1 := by
  unfold encodeLength
  dsimp only
  by_cases h125 : n ≤ 125
  · have hbit : ∀ k : Nat, k ≤ 125 → UInt8.ofNat (128 + k) = UInt8.ofNat (0 + k) ||| 0x80 := by
      decide +kernel
    rw [if_pos h125, if_pos h125]
    exact congrArg (· :: []) (hbit n h125)
  · by_cases hmedium : n ≤ 65535
    · have hbit : UInt8.ofNat (128 + 126) = UInt8.ofNat (0 + 126) ||| 0x80 := by decide +kernel
      rw [if_neg h125, if_neg h125, if_pos hmedium, if_pos hmedium]
      exact congrArg (· :: bigEndianBytes 2 n) hbit
    · have hbit : UInt8.ofNat (128 + 127) = UInt8.ofNat (0 + 127) ||| 0x80 := by decide +kernel
      rw [if_neg h125, if_neg h125, if_neg hmedium, if_neg hmedium]
      exact congrArg (· :: bigEndianBytes 8 n) hbit

theorem encodeFrame_split (opcode : OpCode) (payload : Bytes) (fin : Bool) :
    encodeFrame opcode payload fin = [firstByte opcode fin] ++
      ([(encodeLength false payload.length).getD 0 0] ++
        ((encodeLength false payload.length).drop 1 ++ payload)) := by
  unfold encodeFrame
  cases hlength : encodeLength false payload.length with
  | nil => exact absurd hlength (encodeLength_ne _ _)
  | cons b bs => rfl

/-- The masked variant has the masked length, the key and the masked payload. -/
theorem maskFrame_eq (key : Bytes) (opcode : OpCode) (payload : Bytes) (fin : Bool) :
    maskFrame key opcode payload fin =
      firstByte opcode fin :: encodeLength true payload.length ++ (key ++ applyMask key payload) := by
  have hsplit := encodeFrame_split opcode payload fin
  have hheader : (encodeFrame opcode payload fin).length - payload.length =
      2 + ((encodeLength false payload.length).drop 1).length := by
    rw [hsplit]
    simp only [List.length_append, List.length_cons, List.length_nil]
    omega
  have htake : ((encodeFrame opcode payload fin).take
      ((encodeFrame opcode payload fin).length - payload.length)).drop 2 =
      (encodeLength false payload.length).drop 1 := by
    rw [hheader, hsplit, ← List.append_assoc, ← List.append_assoc, List.take_left']
    · rfl
    · simp only [List.length_append, List.length_cons, List.length_nil]
  unfold maskFrame
  dsimp only
  rw [htake, hsplit, encodeLength_masked]
  simp only [List.append_assoc, List.cons_append, List.nil_append]
  rfl

namespace Message

variable (m : Message) (key : Option MaskKey)

theorem wire_client : (m.client key).wire = m.wire key := by
  cases key with
  | none => rfl
  | some key => exact (maskFrame_eq key.bytes m.opcode m.payload m.fin).symm

theorem frame_client : (m.client key).frame = m.frame key := by
  obtain ⟨hopcode, hfin⟩ := firstByte_fields m.opcode_mem m.fin
  unfold frame ClientFrame.frame client
  rw [WsFrame.mk.injEq]
  refine ⟨hopcode, hfin, ?_, rfl⟩
  cases key with
  | none => rfl
  | some key => rfl

theorem decode_wire (rest : Bytes) :
    decode (m.wire key ++ rest) = .frame (m.frame key) (m.wire key).length := by
  rw [← wire_client, ← frame_client]
  exact (m.client key).decode_wire rest

theorem decode_prefix {part : Bytes} (hpart : part <+: m.wire key) (hne : part ≠ m.wire key) :
    decode part = .incomplete := by
  have hlt : part.length < (m.wire key).length := by
    refine lt_of_le_of_ne hpart.length_le fun hlength => hne ?_
    exact hpart.eq_of_length hlength
  rw [← wire_client] at hpart hlt
  exact (m.client key).decode_incomplete hpart hlt

end Message

/-- Frame after frame the decoder takes what was sent, and leaves what is not one yet. -/
theorem decodeAll_wires (sent : List (Message × Option MaskKey)) {rest : Bytes}
    (hrest : decode rest = .incomplete) :
    decodeAll ((sent.flatMap fun s => s.1.wire s.2) ++ rest) =
      (sent.map fun s => s.1.frame s.2, rest) := by
  induction sent with
  | nil => exact decodeAll_incomplete hrest
  | cons s sent ih =>
      have hfirst := s.1.decode_wire s.2 ((sent.flatMap fun s => s.1.wire s.2) ++ rest)
      rw [List.flatMap_cons, List.append_assoc, decodeAll_frame hfirst, List.drop_left, ih]
      rfl

/-- Encoding and decoding, for one message and for any list of them. -/
theorem frames_round_trip :
    (∀ (m : Message) (rest : Bytes),
      decode (encodeFrame m.opcode m.payload m.fin ++ rest) =
        .frame { opcode := m.opcode, fin := m.fin, masked := false, payload := m.payload }
          (encodeFrame m.opcode m.payload m.fin).length) ∧
    (∀ (m : Message) (part : Bytes), part <+: encodeFrame m.opcode m.payload m.fin →
      part ≠ encodeFrame m.opcode m.payload m.fin → decode part = .incomplete) ∧
    (∀ (m : Message) (key : MaskKey) (rest : Bytes),
      decode (maskFrame key.bytes m.opcode m.payload m.fin ++ rest) =
        .frame { opcode := m.opcode, fin := m.fin, masked := true, payload := m.payload }
          (maskFrame key.bytes m.opcode m.payload m.fin).length) ∧
    ∀ sent : List (Message × Option MaskKey),
      decodeAll (sent.flatMap fun s => s.1.wire s.2) = (sent.map fun s => s.1.frame s.2, []) := by
  refine ⟨fun m rest => m.decode_wire none rest, fun m part => m.decode_prefix none,
    fun m key rest => m.decode_wire (some key) rest, fun sent => ?_⟩
  have hall := @decodeAll_wires sent [] rfl
  rwa [List.append_nil] at hall

end SolarDrive.Ws
