import SolarDrive.Lib.Bytes

/-!
# WebSocket frames

The codec of the server, and the frames a client writes: any first byte, any
payload, masked or not, with the length in its shortest form. `decode_wire` and
`decode_incomplete` are the two halves of what the decoder does with such a frame,
whole and in part; `frameSize_le` bounds what a frame of any form takes.
-/

namespace SolarDrive.Ws

open Lib

/-- An enumeration over `uint8_t`; a cast gives it any four bits. -/
abbrev OpCode : Type := UInt8

def kContinuation : OpCode := 0x0
def kText : OpCode := 0x1
def kBinary : OpCode := 0x2
def kClose : OpCode := 0x8
def kPing : OpCode := 0x9
def kPong : OpCode := 0xA

structure WsFrame where
  opcode : OpCode
  fin : Bool
  masked : Bool
  payload : Bytes
deriving DecidableEq

/-- The number a byte string stands for, the high byte first. -/
def bigEndian (bs : Bytes) : Nat := bs.foldl (fun n b => n * 256 + b.toNat) 0

/-- The low bytes of a number, so many of them, the high one first. -/
def bigEndianBytes : Nat → Nat → Bytes
  | 0, _ => []
  | k + 1, n => UInt8.ofNat (n / 256 ^ k) :: bigEndianBytes k n

/-- Every byte against the byte of the key at its place. -/
def applyMask (key payload : Bytes) : Bytes :=
  payload.mapIdx fun i b => b ^^^ key.getD (i % 4) 0

inductive Decoded where
  | incomplete
  | frame (frame : WsFrame) (consumed : Nat)
  /-- The length wraps around and `assign` throws. -/
  | lengthError
deriving DecidableEq

/-- The length of the payload and of the header before the key. -/
def decodeLength (data : Bytes) : Option (Nat × Nat) :=
  let payloadLen := (data.getD 1 0).toNat % 128
  if payloadLen = 126 then
    if data.length < 4 then none else some (bigEndian ((data.drop 2).take 2), 4)
  else if payloadLen = 127 then
    if data.length < 10 then none else some (bigEndian ((data.drop 2).take 8), 10)
  else some (payloadLen, 2)

def decode (data : Bytes) : Decoded :=
  if data.length < 2 then .incomplete
  else
    let fin := decide (128 ≤ (data.getD 0 0).toNat)
    let opcode := data.getD 0 0 &&& 0x0F
    let masked := decide (128 ≤ (data.getD 1 0).toNat)
    match decodeLength data with
    | none => .incomplete
    | some (payloadLen, headerLen) =>
        let headerLen := if masked then headerLen + 4 else headerLen
        if data.length < (headerLen + payloadLen) % 2 ^ 64 then .incomplete
        else if 2 ^ 64 ≤ headerLen + payloadLen then .lengthError
        else
          let payload := (data.drop headerLen).take payloadLen
          .frame
            { opcode, fin, masked
              payload :=
                if masked then applyMask ((data.drop (headerLen - 4)).take 4) payload
                else payload }
            (headerLen + payloadLen)

/-- The length and what stands for it in the second byte. -/
def encodeLength (masked : Bool) (n : Nat) : Bytes :=
  let bit := if masked then 128 else 0
  if n ≤ 125 then [UInt8.ofNat (bit + n)]
  else if n ≤ 65535 then UInt8.ofNat (bit + 126) :: bigEndianBytes 2 n
  else UInt8.ofNat (bit + 127) :: bigEndianBytes 8 n

/-- `encode` of a whole message; nothing is masked. -/
def encode (opcode : OpCode) (payload : Bytes) : Bytes :=
  (0x80 ||| opcode) :: encodeLength false payload.length ++ payload

/-! ## Frames of a client -/

structure ClientFrame where
  /-- The end flag, the reserved bits and the opcode. -/
  first : UInt8
  key : Option Bytes
  payload : Bytes
  key_length : ∀ k ∈ key, k.length = 4
  /-- The high bit of a length is zero. -/
  payload_fits : payload.length < 2 ^ 63

namespace ClientFrame

def wire (f : ClientFrame) : Bytes :=
  f.first :: encodeLength f.key.isSome f.payload.length ++
    match f.key with
    | none => f.payload
    | some key => key ++ applyMask key f.payload

/-- What the server is to see. -/
def frame (f : ClientFrame) : WsFrame where
  opcode := f.first &&& 0x0F
  fin := decide (128 ≤ f.first.toNat)
  masked := f.key.isSome
  payload := f.payload

end ClientFrame

/-- What a frame takes at least: its shortest header, the key and the payload. -/
def frameSize (f : WsFrame) : Nat :=
  (if f.payload.length ≤ 125 then 2 else if f.payload.length ≤ 65535 then 4 else 10) +
    (if f.masked then 4 else 0) + f.payload.length

/-! ## Numbers and keys -/

theorem length_bigEndianBytes (k n : Nat) : (bigEndianBytes k n).length = k := by
  induction k with
  | zero => rfl
  | succ k ih => rw [bigEndianBytes, List.length_cons, ih]

theorem bigEndian_bigEndianBytes (k n : Nat) : bigEndian (bigEndianBytes k n) = n % 256 ^ k := by
  have hfold : ∀ k m, (bigEndianBytes k n).foldl (fun n b => n * 256 + b.toNat) m =
      m * 256 ^ k + n % 256 ^ k := by
    intro k
    induction k with
    | zero => intro m; simp [bigEndianBytes, Nat.mod_one]
    | succ k ih =>
        intro m
        rw [bigEndianBytes, List.foldl_cons, ih]
        have hbyte : (UInt8.ofNat (n / 256 ^ k)).toNat = n / 256 ^ k % 256 := by simp
        have hsplit : n % 256 ^ (k + 1) = n % 256 ^ k + 256 ^ k * (n / 256 ^ k % 256) :=
          Nat.mod_pow_succ
        rw [hbyte, hsplit]
        ring
  rw [bigEndian, hfold k 0]
  simp

theorem bigEndian_lt (bs : Bytes) : bigEndian bs < 256 ^ bs.length := by
  have hfold : ∀ (bs : Bytes) m, bs.foldl (fun n b => n * 256 + b.toNat) m <
      (m + 1) * 256 ^ bs.length := by
    intro bs
    induction bs with
    | nil => intro m; simp
    | cons b bs ih =>
        intro m
        rw [List.foldl_cons, List.length_cons]
        refine lt_of_lt_of_le (ih _) ?_
        have hb := b.toNat_lt
        rw [Nat.pow_succ, Nat.mul_comm (256 ^ bs.length), ← Nat.mul_assoc]
        exact Nat.mul_le_mul_right _ (by omega)
  simpa [bigEndian] using hfold bs 0

@[simp] theorem length_applyMask (key payload : Bytes) :
    (applyMask key payload).length = payload.length := by simp [applyMask]

theorem applyMask_applyMask (key payload : Bytes) :
    applyMask key (applyMask key payload) = payload := by
  unfold applyMask
  apply List.ext_getElem
  · simp
  · intro i h₁ h₂
    simp only [List.getElem_mapIdx]
    rw [UInt8.xor_assoc, UInt8.xor_self, UInt8.xor_zero]

/-! ## Decoding what a client writes -/

theorem encodeLength_ne (masked : Bool) (n : Nat) : encodeLength masked n ≠ [] := by
  unfold encodeLength
  dsimp only
  split
  · nofun
  · split <;> nofun

/-- The second byte holds the mask bit and the short length. -/
theorem encodeLength_head (masked : Bool) (n : Nat) :
    ((encodeLength masked n).getD 0 0).toNat = (if masked then 128 else 0) +
      if n ≤ 125 then n else if n ≤ 65535 then 126 else 127 := by
  unfold encodeLength
  dsimp only
  split
  · cases masked <;> simp <;> omega
  · split
    · cases masked <;> rfl
    · cases masked <;> rfl

theorem length_encodeLength (masked : Bool) (n : Nat) : (encodeLength masked n).length =
    if n ≤ 125 then 1 else if n ≤ 65535 then 3 else 9 := by
  unfold encodeLength
  dsimp only
  split
  · rfl
  · split
    · rw [List.length_cons, length_bigEndianBytes]
    · rw [List.length_cons, length_bigEndianBytes]

/-- The decoder reads the length that was written. -/
theorem decodeLength_encodeLength (first : UInt8) (masked : Bool) {n : Nat} (hn : n < 2 ^ 64)
    (rest : Bytes) :
    decodeLength (first :: encodeLength masked n ++ rest) =
      some (n, 1 + (encodeLength masked n).length) := by
  have hhead := encodeLength_head masked n
  have hsecond : (first :: encodeLength masked n ++ rest).getD 1 0 =
      (encodeLength masked n).getD 0 0 := by
    cases hbytes : encodeLength masked n with
    | nil => exact absurd hbytes (encodeLength_ne masked n)
    | cons b bs => rfl
  -- the mask bit shares its byte with the short length
  have hbit : (if masked then 128 else 0) % 128 = 0 := by cases masked <;> rfl
  unfold decodeLength
  rw [hsecond, hhead, length_encodeLength]
  by_cases h125 : n ≤ 125
  · rw [if_pos h125, if_pos h125, Nat.add_mod, hbit, Nat.zero_add, Nat.mod_mod,
      Nat.mod_eq_of_lt (by omega)]
    dsimp only
    rw [if_neg (by omega), if_neg (by omega)]
  · by_cases hmedium : n ≤ 65535
    · have hbytes : ∃ b, encodeLength masked n = b :: bigEndianBytes 2 n := by
        unfold encodeLength
        dsimp only
        rw [if_neg h125, if_pos hmedium]
        exact ⟨_, rfl⟩
      obtain ⟨b, hbytes⟩ := hbytes
      have hdata : ((first :: encodeLength masked n ++ rest).drop 2).take 2 = bigEndianBytes 2 n := by
        rw [hbytes]
        exact List.take_left' (length_bigEndianBytes 2 n)
      have hlength : ¬ (first :: encodeLength masked n ++ rest).length < 4 := by
        rw [List.length_append, List.length_cons, length_encodeLength, if_neg h125, if_pos hmedium]
        omega
      rw [if_neg h125, if_pos hmedium, if_neg h125, if_pos hmedium, Nat.add_mod, hbit,
        hdata, bigEndian_bigEndianBytes, Nat.mod_eq_of_lt (by omega : n < 256 ^ 2)]
      dsimp only
      rw [if_pos (by decide), if_neg hlength]
    · have hbytes : ∃ b, encodeLength masked n = b :: bigEndianBytes 8 n := by
        unfold encodeLength
        dsimp only
        rw [if_neg h125, if_neg hmedium]
        exact ⟨_, rfl⟩
      obtain ⟨b, hbytes⟩ := hbytes
      have hdata : ((first :: encodeLength masked n ++ rest).drop 2).take 8 = bigEndianBytes 8 n := by
        rw [hbytes]
        exact List.take_left' (length_bigEndianBytes 8 n)
      have hlength : ¬ (first :: encodeLength masked n ++ rest).length < 10 := by
        rw [List.length_append, List.length_cons, length_encodeLength, if_neg h125, if_neg hmedium]
        omega
      have hpow : n < 256 ^ 8 := lt_of_lt_of_le hn (by decide)
      rw [if_neg h125, if_neg hmedium, if_neg h125, if_neg hmedium, Nat.add_mod, hbit,
        hdata, bigEndian_bigEndianBytes, Nat.mod_eq_of_lt hpow]
      dsimp only
      rw [if_neg (by decide), if_pos (by decide), if_neg hlength]

/-- What is decoded depends on the length and the mask bit that are found. -/
theorem decode_of_length {data : Bytes} {payloadLen headerLen : Nat} (h2 : 2 ≤ data.length)
    (hlength : decodeLength data = some (payloadLen, headerLen))
    (hfits : headerLen + 4 + payloadLen < 2 ^ 64) :
    decode data =
      let masked := decide (128 ≤ (data.getD 1 0).toNat)
      let headerLen := if masked then headerLen + 4 else headerLen
      if data.length < headerLen + payloadLen then .incomplete
      else
        .frame
          { opcode := data.getD 0 0 &&& 0x0F, fin := decide (128 ≤ (data.getD 0 0).toNat), masked
            payload :=
              if masked then applyMask ((data.drop (headerLen - 4)).take 4)
                ((data.drop headerLen).take payloadLen)
              else (data.drop headerLen).take payloadLen }
          (headerLen + payloadLen) := by
  unfold decode
  rw [if_neg (by omega), hlength]
  dsimp only
  have hsum : (if decide (128 ≤ (data.getD 1 0).toNat) then headerLen + 4 else headerLen) +
      payloadLen < 2 ^ 64 := by
    split <;> omega
  rw [Nat.mod_eq_of_lt hsum, if_neg (by omega : ¬ 2 ^ 64 ≤ _)]

theorem getD_append_left {bs : Bytes} {i : Nat} (rest : Bytes) (h : i < bs.length) :
    (bs ++ rest).getD i 0 = bs.getD i 0 := by
  rw [List.getD_eq_getElem?_getD, List.getD_eq_getElem?_getD, List.getElem?_append_left h]

/-- Part of the data gives the same length or none yet. -/
theorem decodeLength_part {pre data : Bytes} (hpre : pre <+: data) (h2 : 2 ≤ pre.length) :
    decodeLength pre = none ∨ decodeLength pre = decodeLength data := by
  obtain ⟨rest, rfl⟩ := hpre
  have hsecond : (pre ++ rest).getD 1 0 = pre.getD 1 0 := getD_append_left rest (by omega)
  unfold decodeLength
  rw [hsecond]
  dsimp only
  split
  · by_cases h4 : pre.length < 4
    · exact .inl (if_pos h4)
    · refine .inr ?_
      rw [if_neg h4, if_neg (by rw [List.length_append]; omega), List.drop_append_of_le_length h2,
        List.take_append_of_le_length (by rw [List.length_drop]; omega)]
  · split
    · by_cases h10 : pre.length < 10
      · exact .inl (if_pos h10)
      · refine .inr ?_
        rw [if_neg h10, if_neg (by rw [List.length_append]; omega),
          List.drop_append_of_le_length h2,
          List.take_append_of_le_length (by rw [List.length_drop]; omega)]
    · exact .inr rfl

namespace ClientFrame

variable (f : ClientFrame)

/-- The header: first byte, length and key. -/
def header : Bytes :=
  f.first :: encodeLength f.key.isSome f.payload.length ++ f.key.getD []

def body : Bytes :=
  match f.key with
  | none => f.payload
  | some key => applyMask key f.payload

theorem wire_eq : f.wire = f.header ++ f.body := by
  unfold wire header body
  cases f.key with
  | none => simp
  | some key => simp

theorem length_body : f.body.length = f.payload.length := by
  unfold body
  cases f.key with
  | none => rfl
  | some key => exact length_applyMask _ _

theorem length_header : f.header.length =
    1 + (encodeLength f.key.isSome f.payload.length).length + if f.key.isSome then 4 else 0 := by
  unfold header
  rw [List.length_append, List.length_cons]
  cases hkey : f.key with
  | none => simp; omega
  | some key =>
      have hlen := f.key_length key hkey
      simp [hlen]
      omega

theorem length_wire : f.wire.length = f.header.length + f.payload.length := by
  rw [wire_eq, List.length_append, length_body]

theorem masked_wire (rest : Bytes) :
    decide (128 ≤ ((f.wire ++ rest).getD 1 0).toNat) = f.key.isSome := by
  have hsecond : (f.wire ++ rest).getD 1 0 =
      (encodeLength f.key.isSome f.payload.length).getD 0 0 := by
    rw [wire_eq, header]
    cases hbytes : encodeLength f.key.isSome f.payload.length with
    | nil => exact absurd hbytes (encodeLength_ne _ _)
    | cons b bs => rfl
  rw [hsecond, encodeLength_head]
  have hshort : (if f.payload.length ≤ 125 then f.payload.length
      else if f.payload.length ≤ 65535 then 126 else 127) < 128 := by
    split
    · omega
    · split <;> omega
  cases f.key.isSome with
  | true => simp
  | false => simpa using hshort

theorem two_le_length_wire : 2 ≤ f.wire.length := by
  have hpos := List.length_pos_iff.mpr (encodeLength_ne f.key.isSome f.payload.length)
  rw [length_wire, length_header]
  omega

theorem length_header_le : f.header.length ≤ 14 := by
  rw [length_header, length_encodeLength]
  have hkey : (if f.key.isSome then 4 else 0) ≤ 4 := by split <;> omega
  split
  · omega
  · split <;> omega

theorem decodeLength_wire (rest : Bytes) : decodeLength (f.wire ++ rest) =
    some (f.payload.length, 1 + (encodeLength f.key.isSome f.payload.length).length) := by
  have hfits : f.payload.length < 2 ^ 64 := lt_trans f.payload_fits (by decide)
  have h := decodeLength_encodeLength f.first f.key.isSome hfits
    (f.key.getD [] ++ (f.body ++ rest))
  rw [wire_eq, header]
  simpa only [List.append_assoc, List.cons_append] using h

/-- Behind the header of a frame stands its body, and its key at the end of it. -/
theorem payload_wire (rest : Bytes) :
    (if f.key.isSome then
      applyMask (((f.wire ++ rest).drop (f.header.length - 4)).take 4)
        (((f.wire ++ rest).drop f.header.length).take f.payload.length)
    else ((f.wire ++ rest).drop f.header.length).take f.payload.length) = f.payload := by
  have hbody : ((f.wire ++ rest).drop f.header.length).take f.payload.length = f.body := by
    rw [wire_eq, List.append_assoc, List.drop_left, List.take_left' f.length_body]
  rw [hbody]
  cases hkey : f.key with
  | none => simp [body, hkey]
  | some key =>
      have hlen := f.key_length key hkey
      have htake : ((f.wire ++ rest).drop (f.header.length - 4)).take 4 = key := by
        have hsplit : f.header =
            (f.first :: encodeLength f.key.isSome f.payload.length) ++ key := by
          rw [header, hkey]
          rfl
        rw [wire_eq, hsplit, List.length_append, hlen, Nat.add_sub_cancel, List.append_assoc,
          List.append_assoc, List.drop_left, List.take_left' hlen]
      rw [htake]
      simp [body, hkey, applyMask_applyMask]

/-- A frame that has come whole is decoded, whatever follows. -/
theorem decode_wire (rest : Bytes) : decode (f.wire ++ rest) = .frame f.frame f.wire.length := by
  have h2 : 2 ≤ (f.wire ++ rest).length := by
    have := f.two_le_length_wire
    rw [List.length_append]
    omega
  have hheader : (if f.key.isSome then
      1 + (encodeLength f.key.isSome f.payload.length).length + 4
      else 1 + (encodeLength f.key.isSome f.payload.length).length) = f.header.length := by
    rw [length_header]
    split <;> omega
  have hfits := f.payload_fits
  have hshort := f.length_header_le
  rw [length_header] at hshort
  rw [decode_of_length h2 (f.decodeLength_wire rest) (by omega), f.masked_wire rest]
  dsimp only
  rw [hheader, ← length_wire, if_neg (by rw [List.length_append]; omega)]
  simp only [payload_wire, frame]
  rfl

/-- A frame that has come in part is not decoded yet. -/
theorem decode_incomplete {pre : Bytes} (hpre : pre <+: f.wire) (hlt : pre.length < f.wire.length) :
    decode pre = .incomplete := by
  by_cases h2 : 2 ≤ pre.length
  · rcases decodeLength_part hpre h2 with hnone | hsame
    · unfold decode
      rw [if_neg (by omega), hnone]
    · have hlength := f.decodeLength_wire []
      rw [List.append_nil] at hlength
      have hfits := f.payload_fits
      have hshort := f.length_header_le
      have hmasked : decide (128 ≤ (pre.getD 1 0).toNat) = f.key.isSome := by
        obtain ⟨rest, hrest⟩ := hpre
        rw [← getD_append_left rest (by omega), hrest]
        simpa using f.masked_wire []
      rw [length_header] at hshort
      rw [decode_of_length h2 (hsame.trans hlength) (by omega), hmasked]
      dsimp only
      rw [if_pos]
      rw [length_wire, length_header] at hlt
      split
      · rename_i hkey
        rw [if_pos hkey] at hlt
        omega
      · rename_i hkey
        rw [if_neg hkey] at hlt
        omega
  · unfold decode
    rw [if_pos (by omega)]

end ClientFrame

/-! ## What any frame takes -/

theorem decodeLength_some {data : Bytes} {payloadLen headerLen : Nat}
    (h : decodeLength data = some (payloadLen, headerLen)) :
    (if payloadLen ≤ 125 then 2 else if payloadLen ≤ 65535 then 4 else 10) ≤ headerLen ∧
      2 ≤ headerLen := by
  unfold decodeLength at h
  dsimp only at h
  split at h
  · split at h
    · cases h
    · simp only [Option.some.injEq, Prod.mk.injEq] at h
      obtain ⟨rfl, rfl⟩ := h
      have hlt := bigEndian_lt ((data.drop 2).take 2)
      rw [List.length_take_of_le (by rw [List.length_drop]; omega)] at hlt
      refine ⟨?_, by omega⟩
      split
      · omega
      · rw [if_pos (by omega)]
  · split at h
    · split at h
      · cases h
      · simp only [Option.some.injEq, Prod.mk.injEq] at h
        obtain ⟨-, rfl⟩ := h
        refine ⟨?_, by omega⟩
        split
        · omega
        · split <;> omega
    · simp only [Option.some.injEq, Prod.mk.injEq] at h
      obtain ⟨rfl, rfl⟩ := h
      refine ⟨?_, le_refl 2⟩
      rw [if_pos (by omega)]

/-- A frame that is decoded has its size, and takes no more than there is. -/
theorem frameSize_le {data : Bytes} {f : WsFrame} {n : Nat} (h : decode data = .frame f n) :
    frameSize f ≤ n ∧ n ≤ data.length ∧ 2 ≤ n := by
  unfold decode at h
  split at h
  · cases h
  · dsimp only at h
    split at h
    · cases h
    · rename_i payloadLen headerLen hlength
      obtain ⟨hmin, htwo⟩ := decodeLength_some hlength
      have hpayload : ∀ k, k + payloadLen ≤ data.length →
          ((data.drop k).take payloadLen).length = payloadLen := by
        intro k hk
        rw [List.length_take_of_le (by rw [List.length_drop]; omega)]
      generalize decide (128 ≤ (data.getD 1 0).toNat) = masked at h
      cases masked with
      | true =>
          simp only [if_true] at h
          split at h
          · cases h
          · rename_i hlong
            split at h
            · cases h
            · rename_i hfits
              rw [Nat.mod_eq_of_lt (Nat.lt_of_not_le hfits)] at hlong
              simp only [Decoded.frame.injEq] at h
              obtain ⟨rfl, rfl⟩ := h
              simp only [frameSize, length_applyMask, hpayload _ (Nat.le_of_not_lt hlong), if_true]
              omega
      | false =>
          simp only [Bool.false_eq_true, if_false] at h
          split at h
          · cases h
          · rename_i hlong
            split at h
            · cases h
            · rename_i hfits
              rw [Nat.mod_eq_of_lt (Nat.lt_of_not_le hfits)] at hlong
              simp only [Decoded.frame.injEq] at h
              obtain ⟨rfl, rfl⟩ := h
              simp only [frameSize, hpayload _ (Nat.le_of_not_lt hlong), Bool.false_eq_true,
                if_false]
              omega

/-- The frames of a client have the size of what is decoded. -/
theorem ClientFrame.frameSize_frame (f : ClientFrame) : frameSize f.frame = f.wire.length := by
  rw [f.length_wire, f.length_header, length_encodeLength]
  change (if f.payload.length ≤ 125 then 2 else if f.payload.length ≤ 65535 then 4 else 10) +
    (if f.key.isSome then 4 else 0) + f.payload.length = _
  by_cases h125 : f.payload.length ≤ 125
  · simp only [h125, if_true]
  · by_cases hmedium : f.payload.length ≤ 65535
    · simp only [h125, hmedium, if_true, if_false]
    · simp only [h125, hmedium, if_false]

end SolarDrive.Ws
