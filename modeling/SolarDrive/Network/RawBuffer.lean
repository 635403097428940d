import SolarDrive.Network.Buffer

/-!
# The buffer with its assertions

Here the buffer is what it is in memory: a vector and two indices of which nothing is
known. Sizes are of type `size_t` and wrap around, an assertion can fail, and a copy can
leave the vector. `Valid` is what holds between the operations, and each has one lemma that
says what it does to the readable bytes of a valid buffer.
-/

namespace SolarDrive.Network

open Lib

/-- `size_t` arithmetic. -/
def addSize (a b : Nat) : Nat := (a + b) % 2 ^ 64

def subSize (a b : Nat) : Nat := (a + 2 ^ 64 - b) % 2 ^ 64

/-- `std::vector<uint8_t>::max_size`. -/
def maxSize : Nat := 2 ^ 63 - 1

inductive BufferFault where
  /-- The vector is asked for more than it can hold, and throws. -/
  | lengthError
  | assertion
  /-- A copy from or to memory that is not of the vector, or over itself. -/
  | outside
deriving DecidableEq

/-! ## The vector -/

def assert (p : Prop) [Decidable p] : Except BufferFault Unit :=
  if p then .ok () else .error .assertion

def resize (vec : Bytes) (n : Nat) : Except BufferFault Bytes :=
  if maxSize < n then .error .lengthError
  else .ok (vec.take n ++ List.replicate (n - vec.length) 0)

/-- The bytes between two offsets. -/
def copyFrom (vec : Bytes) (first last : Nat) : Except BufferFault Bytes :=
  if first ≤ last ∧ last ≤ vec.length then .ok ((vec.take last).drop first) else .error .outside

/-- Bytes to an offset. -/
def copyTo (vec : Bytes) (dest : Nat) (bytes : Bytes) : Except BufferFault Bytes :=
  if dest + bytes.length ≤ vec.length then
    .ok (vec.take dest ++ bytes ++ vec.drop (dest + bytes.length))
  else .error .outside

/-- `std::copy` inside the vector; the destination must not begin in the source. -/
def move (vec : Bytes) (first last dest : Nat) : Except BufferFault Bytes :=
  if first ≤ dest ∧ dest < last then .error .outside
  else do copyTo vec dest (← copyFrom vec first last)

/-! ## The operations -/

structure RawBuffer where
  buffer : Bytes
  readIndex : Nat
  writeIndex : Nat
deriving DecidableEq

namespace RawBuffer

def new (initialSize : Nat) : Except BufferFault RawBuffer := do
  let buffer ← resize [] (addSize kCheapPrepend initialSize)
  return { buffer, readIndex := kCheapPrepend, writeIndex := kCheapPrepend }

def readableBytes (b : RawBuffer) : Nat := subSize b.writeIndex b.readIndex

def writableBytes (b : RawBuffer) : Nat := subSize b.buffer.length b.writeIndex

def prependableBytes (b : RawBuffer) : Nat := b.readIndex

def retrieveAll (b : RawBuffer) : RawBuffer :=
  { b with readIndex := kCheapPrepend, writeIndex := kCheapPrepend }

def shrink (b : RawBuffer) : Except BufferFault RawBuffer := do
  let newBuf ← resize [] (addSize kCheapPrepend b.readableBytes)
  let newBuf ← copyTo newBuf kCheapPrepend (← copyFrom b.buffer b.readIndex b.writeIndex)
  return { buffer := newBuf, readIndex := kCheapPrepend,
           writeIndex := addSize kCheapPrepend b.readableBytes }

def shrinkIfNeeded (b : RawBuffer) : Except BufferFault RawBuffer :=
  if b.buffer.length / 2 < b.readIndex ∧ b.readableBytes < b.buffer.length / 4 then b.shrink
  else .ok b

def retrieve (n : Nat) (b : RawBuffer) : Except BufferFault RawBuffer :=
  if n ≤ b.readableBytes then
    shrinkIfNeeded { b with readIndex := addSize b.readIndex n }
  else b.retrieveAll.shrinkIfNeeded

def retrieveAsString (n : Nat) (b : RawBuffer) : Except BufferFault (RawBuffer × Bytes) := do
  assert (n ≤ b.readableBytes)
  let result ← copyFrom b.buffer b.readIndex (addSize b.readIndex n)
  return (← b.retrieve n, result)

def makeSpace (len : Nat) (b : RawBuffer) : Except BufferFault RawBuffer :=
  if addSize b.writableBytes b.prependableBytes < addSize len kCheapPrepend then do
    let buffer ← resize b.buffer (addSize b.writeIndex len)
    return { b with buffer }
  else do
    let readable := b.readableBytes
    let buffer ← move b.buffer b.readIndex b.writeIndex kCheapPrepend
    let b : RawBuffer :=
      { buffer, readIndex := kCheapPrepend, writeIndex := addSize kCheapPrepend readable }
    assert (len ≤ b.writableBytes)
    return b

def ensureWritableBytes (len : Nat) (b : RawBuffer) : Except BufferFault RawBuffer := do
  let b ← if b.writableBytes < len then b.makeSpace len else .ok b
  assert (len ≤ b.writableBytes)
  return b

def hasWritten (len : Nat) (b : RawBuffer) : Except BufferFault RawBuffer := do
  assert (len ≤ b.writableBytes)
  return { b with writeIndex := addSize b.writeIndex len }

/-- The caller fills the start of the writable area and calls `has_written`. -/
def fill (bytes : Bytes) (b : RawBuffer) : Except BufferFault RawBuffer := do
  let buffer ← copyTo b.buffer b.writeIndex bytes
  hasWritten bytes.length { b with buffer }

def append (bytes : Bytes) (b : RawBuffer) : Except BufferFault RawBuffer := do
  fill bytes (← b.ensureWritableBytes bytes.length)

def unwrite (len : Nat) (b : RawBuffer) : Except BufferFault RawBuffer := do
  assert (len ≤ b.readableBytes)
  return { b with writeIndex := subSize b.writeIndex len }

def prepend (bytes : Bytes) (b : RawBuffer) : Except BufferFault RawBuffer := do
  assert (bytes.length ≤ b.prependableBytes)
  let readIndex := subSize b.readIndex bytes.length
  return { b with readIndex, buffer := ← copyTo b.buffer readIndex bytes }

def extrabufSize : Nat := 65536

/-- What is offered to `readv`: the stack area only when the writable one is smaller. -/
def offered (b : RawBuffer) : Nat :=
  b.writableBytes + if b.writableBytes < extrabufSize then extrabufSize else 0

/-- The bytes that `readv` brings, none of them when it fails. They go into the writable
area first and then into the area on the stack. -/
def readFromFd (result : Option Bytes) (b : RawBuffer) : Except BufferFault RawBuffer :=
  match result with
  | none => .ok b
  | some bytes => do
      let writable := b.writableBytes
      if bytes.length = 0 then return b
      let buffer ← copyTo b.buffer b.writeIndex (bytes.take writable)
      let b := { b with buffer }
      if bytes.length ≤ writable then b.hasWritten bytes.length
      else (← b.hasWritten writable).append (bytes.drop writable)

end RawBuffer

/-! ## Valid buffers -/

namespace RawBuffer

structure Valid (b : RawBuffer) : Prop where
  read_le : b.readIndex ≤ b.writeIndex
  write_le : b.writeIndex ≤ b.buffer.length
  prepend_le : kCheapPrepend ≤ b.buffer.length
  size_le : b.buffer.length ≤ maxSize

/-- The readable bytes. -/
def contents (b : RawBuffer) : Bytes := (b.buffer.take b.writeIndex).drop b.readIndex

/-- The operation completes, on a valid buffer with these bytes. -/
def Completes (r : Except BufferFault RawBuffer) (q : Bytes) : Prop :=
  ∃ b, r = .ok b ∧ b.Valid ∧ b.contents = q

end RawBuffer

theorem addSize_eq {a b : Nat} (h : a + b < 2 ^ 64) : addSize a b = a + b := Nat.mod_eq_of_lt h

theorem subSize_eq {a b : Nat} (hle : b ≤ a) (ha : a ≤ maxSize) : subSize a b = a - b := by
  unfold subSize
  unfold maxSize at ha
  omega

theorem ok_bind {α β : Type} (a : α) (f : α → Except BufferFault β) : (.ok a >>= f) = f a := rfl

theorem assert_ok {p : Prop} [Decidable p] (h : p) : assert p = .ok () := if_pos h

theorem assert_fails {p : Prop} [Decidable p] (h : ¬ p) : assert p = .error .assertion := if_neg h

theorem resize_ok {vec : Bytes} {n : Nat} (h : n ≤ maxSize) :
    resize vec n = .ok (vec.take n ++ List.replicate (n - vec.length) 0) :=
  if_neg (Nat.not_lt.mpr h)

theorem copyFrom_ok {vec : Bytes} {first last : Nat} (h : first ≤ last) (hlast : last ≤ vec.length) :
    copyFrom vec first last = .ok ((vec.take last).drop first) := if_pos ⟨h, hlast⟩

theorem copyTo_ok {vec bytes : Bytes} {dest : Nat} (h : dest + bytes.length ≤ vec.length) :
    copyTo vec dest bytes = .ok (vec.take dest ++ bytes ++ vec.drop (dest + bytes.length)) :=
  if_pos h

/-- What has been copied in is read back, with what stood before it. -/
theorem take_copyTo {vec bytes : Bytes} {dest : Nat} (h : dest + bytes.length ≤ vec.length) :
    (vec.take dest ++ bytes ++ vec.drop (dest + bytes.length)).take (dest + bytes.length) =
      vec.take dest ++ bytes := by
  refine List.take_left' ?_
  rw [List.length_append, List.length_take]
  omega

theorem length_copyTo {vec bytes : Bytes} {dest : Nat} (h : dest + bytes.length ≤ vec.length) :
    (vec.take dest ++ bytes ++ vec.drop (dest + bytes.length)).length = vec.length := by
  simp only [List.length_append, List.length_take, List.length_drop]
  omega

namespace RawBuffer

variable {b : RawBuffer}

namespace Valid

theorem readableBytes_eq (h : b.Valid) : b.readableBytes = b.writeIndex - b.readIndex :=
  subSize_eq h.read_le (le_trans h.write_le h.size_le)

theorem writableBytes_eq (h : b.Valid) : b.writableBytes = b.buffer.length - b.writeIndex :=
  subSize_eq h.write_le h.size_le

theorem length_contents (h : b.Valid) : b.contents.length = b.readableBytes := by
  have hwrite := h.write_le
  rw [h.readableBytes_eq]
  unfold contents
  rw [List.length_drop, List.length_take, Nat.min_eq_left hwrite]

/-- No size of a valid buffer comes near the end of the type. -/
theorem lt (h : b.Valid) : b.readIndex < 2 ^ 63 ∧ b.writeIndex < 2 ^ 63 ∧
    b.buffer.length < 2 ^ 63 := by
  have hread := h.read_le
  have hwrite := h.write_le
  have hsize := h.size_le
  unfold maxSize at hsize
  omega

end Valid

/-- Both indices at the start of the data: nothing is readable. -/
theorem retrieveAll_spec (h : b.Valid) : b.retrieveAll.Valid ∧ b.retrieveAll.contents = [] := by
  refine ⟨⟨le_refl _, h.prepend_le, h.prepend_le, h.size_le⟩, ?_⟩
  unfold contents retrieveAll
  refine List.drop_eq_nil_of_le ?_
  rw [List.length_take]
  exact Nat.min_le_left _ _

/-- A vector of its own for what is readable. -/
theorem shrink_eq (h : b.Valid) (hfits : kCheapPrepend + b.readableBytes ≤ maxSize) :
    b.shrink = .ok ⟨List.replicate kCheapPrepend 0 ++ b.contents, kCheapPrepend,
      kCheapPrepend + b.readableBytes⟩ := by
  have hlength := h.length_contents
  have hsize : addSize kCheapPrepend b.readableBytes = kCheapPrepend + b.readableBytes := by
    refine addSize_eq ?_
    unfold maxSize at hfits
    omega
  -- the new vector: eight bytes and the room
  have hnew : resize [] (kCheapPrepend + b.readableBytes) =
      .ok (List.replicate (kCheapPrepend + b.readableBytes) 0) := by
    rw [resize_ok hfits, List.take_nil, List.length_nil, Nat.sub_zero, List.nil_append]
  have hcopy : copyFrom b.buffer b.readIndex b.writeIndex = .ok b.contents :=
    copyFrom_ok h.read_le h.write_le
  have hplace : copyTo (List.replicate (kCheapPrepend + b.readableBytes) 0) kCheapPrepend
      b.contents = .ok (List.replicate kCheapPrepend 0 ++ b.contents) := by
    rw [copyTo_ok (by rw [List.length_replicate, hlength]), List.take_replicate,
      Nat.min_eq_left (Nat.le_add_right _ _), hlength, List.drop_eq_nil_of_le (by simp),
      List.append_nil]
  unfold shrink
  rw [hsize, hnew, ok_bind, hcopy, ok_bind, hplace, ok_bind]
  rfl

theorem shrink_ok (h : b.Valid) (hfits : kCheapPrepend + b.readableBytes ≤ maxSize) :
    Completes b.shrink b.contents := by
  have hlength := h.length_contents
  have hfront : (List.replicate kCheapPrepend (0 : UInt8)).length = kCheapPrepend :=
    List.length_replicate
  refine ⟨_, shrink_eq h hfits, ⟨?_, ?_, ?_, ?_⟩, ?_⟩
  · exact Nat.le_add_right _ _
  · rw [List.length_append, hfront, hlength]
  · rw [List.length_append, hfront]
    exact Nat.le_add_right _ _
  · rw [List.length_append, hfront, hlength]
    exact hfits
  · have hdrop := Buffer.drop_take_append b.contents [] hfront
    rw [List.append_nil, hlength] at hdrop
    exact hdrop

theorem shrinkIfNeeded_spec (h : b.Valid) : Completes b.shrinkIfNeeded b.contents := by
  unfold shrinkIfNeeded
  split
  · rename_i hsmall
    refine shrink_ok h ?_
    have hsize := h.size_le
    have hprepend := h.prepend_le
    unfold kCheapPrepend at hprepend ⊢
    unfold maxSize at hsize ⊢
    omega
  · exact ⟨b, rfl, h, rfl⟩

theorem retrieve_spec (h : b.Valid) (n : Nat) :
    Completes (b.retrieve n) (b.contents.drop n) := by
  have hreadable := h.readableBytes_eq
  unfold retrieve
  split
  · rename_i hn
    have hread := h.read_le
    have hlt := h.lt
    have hadd : addSize b.readIndex n = b.readIndex + n := addSize_eq (by omega)
    have hvalid : RawBuffer.Valid { b with readIndex := b.readIndex + n } :=
      ⟨show b.readIndex + n ≤ b.writeIndex by omega, h.write_le, h.prepend_le, h.size_le⟩
    have hcontents : contents { b with readIndex := b.readIndex + n } = b.contents.drop n := by
      unfold contents
      rw [List.drop_drop]
    rw [hadd, ← hcontents]
    exact shrinkIfNeeded_spec hvalid
  · rename_i hn
    obtain ⟨hvalid, hnone⟩ := retrieveAll_spec h
    rw [List.drop_eq_nil_of_le (by rw [h.length_contents]; omega), ← hnone]
    exact shrinkIfNeeded_spec hvalid

theorem retrieveAsString_spec (h : b.Valid) {n : Nat} (hn : n ≤ b.readableBytes) :
    ∃ b', b.retrieveAsString n = .ok (b', b.contents.take n) ∧ b'.Valid ∧
      b'.contents = b.contents.drop n := by
  obtain ⟨b', hretrieve, hvalid, hcontents⟩ := retrieve_spec h n
  refine ⟨b', ?_, hvalid, hcontents⟩
  have hreadable := h.readableBytes_eq
  have hread := h.read_le
  have hwrite := h.write_le
  have hlt := h.lt
  have hadd : addSize b.readIndex n = b.readIndex + n := addSize_eq (by omega)
  have hstring : (b.buffer.take (b.readIndex + n)).drop b.readIndex = b.contents.take n := by
    unfold contents
    rw [List.drop_take, List.drop_take, List.take_take]
    congr 1
    omega
  unfold retrieveAsString
  rw [assert_ok hn, hadd, copyFrom_ok (by omega) (by omega), hretrieve, hstring]
  rfl

theorem unwrite_spec (h : b.Valid) {n : Nat} (hn : n ≤ b.readableBytes) :
    Completes (b.unwrite n) (b.contents.take (b.contents.length - n)) := by
  have hreadable := h.readableBytes_eq
  have hread := h.read_le
  have hwrite := h.write_le
  have hsub : subSize b.writeIndex n = b.writeIndex - n :=
    subSize_eq (by omega) (le_trans hwrite h.size_le)
  refine ⟨{ b with writeIndex := b.writeIndex - n }, ?_, ⟨?_, ?_, h.prepend_le, h.size_le⟩, ?_⟩
  · unfold unwrite
    rw [assert_ok hn, hsub]
    rfl
  · show b.readIndex ≤ b.writeIndex - n
    omega
  · show b.writeIndex - n ≤ b.buffer.length
    omega
  · rw [h.length_contents]
    unfold contents
    dsimp only
    rw [List.drop_take, List.drop_take, List.take_take]
    congr 1
    omega

theorem prepend_spec (h : b.Valid) {bytes : Bytes} (hn : bytes.length ≤ b.prependableBytes) :
    Completes (b.prepend bytes) (bytes ++ b.contents) := by
  have hread := h.read_le
  have hwrite := h.write_le
  have hlength : bytes.length ≤ b.readIndex := hn
  have hsub : subSize b.readIndex bytes.length = b.readIndex - bytes.length :=
    subSize_eq hlength (le_trans hread (le_trans hwrite h.size_le))
  have hplace : b.readIndex - bytes.length + bytes.length = b.readIndex := by omega
  have hroom : b.readIndex - bytes.length + bytes.length ≤ b.buffer.length := by omega
  refine ⟨{ b with
      readIndex := b.readIndex - bytes.length
      buffer := b.buffer.take (b.readIndex - bytes.length) ++ bytes ++
        b.buffer.drop (b.readIndex - bytes.length + bytes.length) }, ?_, ⟨?_, ?_, ?_, ?_⟩, ?_⟩
  · unfold prepend
    rw [assert_ok hn, hsub]
    rw [ok_bind]
    dsimp only
    rw [copyTo_ok hroom]
    rfl
  · show b.readIndex - bytes.length ≤ b.writeIndex
    omega
  · rw [length_copyTo hroom]
    exact hwrite
  · rw [length_copyTo hroom]
    exact h.prepend_le
  · rw [length_copyTo hroom]
    exact h.size_le
  · have hfront : (b.buffer.take (b.readIndex - bytes.length)).length =
        b.readIndex - bytes.length := by
      rw [List.length_take]
      omega
    unfold contents
    dsimp only
    rw [hplace, List.append_assoc, List.take_append, hfront, List.take_of_length_le (by omega),
      List.drop_left' hfront, List.take_append, List.take_of_length_le (by omega),
      List.drop_take]
    congr 2
    omega

/-- The writable area is filled from its start on. -/
theorem fill_eq (h : b.Valid) {bytes : Bytes} (hn : bytes.length ≤ b.writableBytes) :
    b.fill bytes = .ok ⟨b.buffer.take b.writeIndex ++ bytes ++
      b.buffer.drop (b.writeIndex + bytes.length), b.readIndex, b.writeIndex + bytes.length⟩ := by
  have hwritable := h.writableBytes_eq
  have hwrite := h.write_le
  have hlt := h.lt
  have hroom : b.writeIndex + bytes.length ≤ b.buffer.length := by omega
  have hadd : addSize b.writeIndex bytes.length = b.writeIndex + bytes.length :=
    addSize_eq (by omega)
  have hcopy := copyTo_ok hroom
  have hlength := length_copyTo hroom
  generalize b.buffer.take b.writeIndex ++ bytes ++
    b.buffer.drop (b.writeIndex + bytes.length) = filled at hcopy hlength ⊢
  have hstill : bytes.length ≤ writableBytes { b with buffer := filled } := by
    unfold writableBytes
    dsimp only
    rw [hlength]
    exact hn
  unfold fill hasWritten
  rw [hcopy, ok_bind, assert_ok hstill, ok_bind, hadd]
  rfl

theorem fill_spec (h : b.Valid) {bytes : Bytes} (hn : bytes.length ≤ b.writableBytes) :
    ∃ b', b.fill bytes = .ok b' ∧ b'.Valid ∧ b'.contents = b.contents ++ bytes ∧
      b'.buffer.length = b.buffer.length := by
  have hwritable := h.writableBytes_eq
  have hread := h.read_le
  have hwrite := h.write_le
  have hroom : b.writeIndex + bytes.length ≤ b.buffer.length := by omega
  have hlength := length_copyTo hroom
  refine ⟨_, fill_eq h hn, ⟨?_, ?_, ?_, ?_⟩, ?_, hlength⟩
  · exact le_trans hread (Nat.le_add_right _ _)
  · rw [hlength]
    exact hroom
  · rw [hlength]
    exact h.prepend_le
  · rw [hlength]
    exact h.size_le
  · have hfront : (b.buffer.take b.writeIndex).length = b.writeIndex := by
      rw [List.length_take]
      exact Nat.min_eq_left hwrite
    unfold contents
    dsimp only
    rw [take_copyTo hroom, List.drop_append_of_le_length (by rw [hfront]; exact hread)]

/-- What `ensure_writable_bytes` makes of a buffer while no size wraps around: the vector
grows behind the data, or the data are moved to the front. -/
def reserved (len : Nat) (b : RawBuffer) : RawBuffer :=
  if b.buffer.length - b.writeIndex < len then
    if b.buffer.length - b.writeIndex + b.readIndex < len + kCheapPrepend then
      { b with
        buffer := b.buffer ++ List.replicate (b.writeIndex + len - b.buffer.length) 0 }
    else
      ⟨b.buffer.take kCheapPrepend ++ b.contents ++
        b.buffer.drop (kCheapPrepend + b.contents.length), kCheapPrepend,
        kCheapPrepend + b.contents.length⟩
  else b

/-- The same data, with room behind them. -/
theorem reserved_spec (h : b.Valid) {len : Nat}
    (hfits : b.buffer.length - b.writeIndex + b.readIndex < len + kCheapPrepend →
      b.writeIndex + len ≤ maxSize) :
    (reserved len b).Valid ∧ (reserved len b).contents = b.contents ∧
      len ≤ (reserved len b).writableBytes := by
  have hsize := h.length_contents
  have hreadable := h.readableBytes_eq
  have hread := h.read_le
  have hwrite := h.write_le
  unfold reserved
  split
  · split
    · -- the vector grows at its end
      rename_i hgrows
      have hlength : (b.buffer ++
          List.replicate (b.writeIndex + len - b.buffer.length) 0).length =
          b.writeIndex + len := by
        rw [List.length_append, List.length_replicate]
        omega
      have hvalid : RawBuffer.Valid { b with
          buffer := b.buffer ++ List.replicate (b.writeIndex + len - b.buffer.length) 0 } := by
        refine ⟨hread, ?_, ?_, ?_⟩
        · rw [hlength]
          exact Nat.le_add_right _ _
        · rw [hlength]
          exact le_trans h.prepend_le (by omega)
        · rw [hlength]
          exact hfits hgrows
      refine ⟨hvalid, ?_, ?_⟩
      · unfold contents
        dsimp only
        rw [List.take_append_of_le_length hwrite]
      · rw [hvalid.writableBytes_eq]
        dsimp only
        omega
    · -- the data move to the front
      have hroom : kCheapPrepend + b.contents.length ≤ b.buffer.length := by omega
      have hmoved := length_copyTo hroom
      have hvalid : RawBuffer.Valid ⟨b.buffer.take kCheapPrepend ++ b.contents ++
          b.buffer.drop (kCheapPrepend + b.contents.length), kCheapPrepend,
          kCheapPrepend + b.contents.length⟩ := by
        refine ⟨Nat.le_add_right _ _, ?_, ?_, ?_⟩
        · rw [hmoved]
          exact hroom
        · rw [hmoved]
          exact h.prepend_le
        · rw [hmoved]
          exact h.size_le
      refine ⟨hvalid, ?_, ?_⟩
      · have hfront : (b.buffer.take kCheapPrepend).length = kCheapPrepend := by
          rw [List.length_take]
          exact Nat.min_eq_left h.prepend_le
        exact Buffer.drop_take_append b.contents _ hfront
      · rw [hvalid.writableBytes_eq]
        dsimp only
        omega
  · refine ⟨h, rfl, ?_⟩
    rw [h.writableBytes_eq]
    omega

/-- There is room, or the vector cannot grow so far. When the data are moved the read index
is behind the front, so the copy runs in the right direction. -/
theorem ensureWritableBytes_spec (h : b.Valid) {len : Nat}
    (hfits : b.writableBytes < len → b.writeIndex + len < 2 ^ 64 ∧ len + kCheapPrepend < 2 ^ 64) :
    (b.ensureWritableBytes len = .ok (reserved len b) ∧ (reserved len b).Valid ∧
      (reserved len b).contents = b.contents ∧ len ≤ (reserved len b).writableBytes) ∨
    (b.ensureWritableBytes len = .error .lengthError ∧ maxSize < b.writeIndex + len) := by
  have hwritable := h.writableBytes_eq
  have hreadable := h.readableBytes_eq
  have hread := h.read_le
  have hwrite := h.write_le
  have hlt := h.lt
  have hroom : addSize b.writableBytes b.prependableBytes =
      b.buffer.length - b.writeIndex + b.readIndex := by
    unfold prependableBytes
    rw [addSize_eq (by omega), hwritable]
  have hassert : ∀ b' : RawBuffer, len ≤ b'.writableBytes →
      (assert (len ≤ b'.writableBytes) >>= fun _ => pure b') = .ok b' := by
    intro b' henough
    rw [assert_ok henough]
    rfl
  by_cases hmore : b.writableBytes < len
  · -- without a wrap the sums are the ones `reserved` compares
    obtain ⟨hsum, hlen⟩ := hfits hmore
    by_cases hgrows : b.buffer.length - b.writeIndex + b.readIndex < len + kCheapPrepend
    · by_cases hmax : b.writeIndex + len ≤ maxSize
      · have hspec := reserved_spec h (fun _ => hmax)
        have henough := hspec.2.2
        refine .inl ⟨?_, hspec⟩
        unfold reserved at henough ⊢
        rw [← hwritable, if_pos hmore, hwritable, if_pos hgrows] at henough ⊢
        have htake : b.buffer.take (b.writeIndex + len) = b.buffer :=
          List.take_of_length_le (by omega)
        unfold ensureWritableBytes makeSpace
        rw [if_pos hmore, hroom, addSize_eq hlen, addSize_eq hsum, if_pos hgrows,
          resize_ok hmax, htake, ok_bind, pure_bind]
        exact hassert _ henough
      · refine .inr ⟨?_, Nat.lt_of_not_le hmax⟩
        unfold ensureWritableBytes makeSpace
        rw [if_pos hmore, hroom, addSize_eq hlen, addSize_eq hsum, if_pos hgrows]
        unfold resize
        rw [if_pos (Nat.lt_of_not_le hmax)]
        rfl
    · have hspec := reserved_spec h (fun hgrow => absurd hgrow hgrows)
      have henough := hspec.2.2
      refine .inl ⟨?_, hspec⟩
      unfold reserved at henough ⊢
      rw [← hwritable, if_pos hmore, hwritable, if_neg hgrows] at henough ⊢
      have hfront : kCheapPrepend + b.contents.length ≤ b.buffer.length := by
        rw [h.length_contents]
        omega
      have hadd : addSize kCheapPrepend b.readableBytes = kCheapPrepend + b.contents.length := by
        rw [h.length_contents]
        refine addSize_eq ?_
        unfold kCheapPrepend
        omega
      have hmove : move b.buffer b.readIndex b.writeIndex kCheapPrepend =
          .ok (b.buffer.take kCheapPrepend ++ b.contents ++
            b.buffer.drop (kCheapPrepend + b.contents.length)) := by
        unfold move
        rw [if_neg (by omega), copyFrom_ok hread hwrite, ok_bind]
        exact copyTo_ok hfront
      unfold ensureWritableBytes makeSpace
      rw [if_pos hmore, hroom, addSize_eq hlen, if_neg hgrows]
      dsimp only
      rw [hmove, ok_bind, hadd, hassert _ henough, ok_bind]
      exact hassert _ henough
  · have hsame : reserved len b = b := by
      unfold reserved
      rw [← hwritable, if_neg hmore]
    rw [hsame]
    refine .inl ⟨?_, h, rfl, Nat.le_of_not_lt hmore⟩
    unfold ensureWritableBytes
    rw [if_neg hmore, ok_bind]
    exact hassert b (Nat.le_of_not_lt hmore)

/-- A length that wraps around: the vector is cut off before the write index, or an
assertion or a copy fails. -/
theorem ensureWritableBytes_wraps (h : b.Valid) {len : Nat} (hlen : len < 2 ^ 64)
    (hmore : b.writableBytes < len)
    (hwraps : ¬ (b.writeIndex + len < 2 ^ 64 ∧ len + kCheapPrepend < 2 ^ 64)) :
    (∃ b', b.ensureWritableBytes len = .ok b' ∧ ¬ b'.Valid) ∨
    b.ensureWritableBytes len = .error .assertion ∨
    b.ensureWritableBytes len = .error .outside := by
  have hwritable := h.writableBytes_eq
  have hreadable := h.readableBytes_eq
  have hread := h.read_le
  have hwrite := h.write_le
  have hlt := h.lt
  have hprepend := h.prepend_le
  unfold ensureWritableBytes
  rw [if_pos hmore]
  unfold makeSpace
  have hroom : addSize b.writableBytes b.prependableBytes =
      b.buffer.length - b.writeIndex + b.readIndex := by
    unfold prependableBytes
    rw [addSize_eq (by omega), hwritable]
  rw [hroom]
  by_cases hresize : b.buffer.length - b.writeIndex + b.readIndex < addSize len kCheapPrepend
  · -- the new size wraps around to `n`: the vector is cut off before the write index
    have hsum : 2 ^ 64 ≤ b.writeIndex + len := by
      unfold addSize kCheapPrepend at hresize
      unfold kCheapPrepend at hwraps hprepend
      omega
    obtain ⟨n, hn⟩ := Nat.exists_eq_add_of_le hsum
    have hadd : addSize b.writeIndex len = n := by
      unfold addSize
      omega
    have hsmall : n ≤ maxSize := by
      unfold maxSize
      omega
    have hcut : (b.buffer.take n ++ List.replicate (n - b.buffer.length) 0).length = n := by
      rw [List.length_append, List.length_take, List.length_replicate]
      omega
    have hresized := @resize_ok b.buffer n hsmall
    generalize b.buffer.take n ++ List.replicate (n - b.buffer.length) 0 = vec at hcut hresized
    refine .inl ⟨{ b with buffer := vec }, ?_, fun hvalid => ?_⟩
    · have henough : len ≤ writableBytes { b with buffer := vec } := by
        unfold writableBytes subSize
        dsimp only
        rw [hcut]
        omega
      rw [if_pos hresize, hadd, hresized, ok_bind]
      rw [pure_bind]
      dsimp only
      rw [assert_ok henough]
      rfl
    · have hend := hvalid.write_le
      dsimp only at hend
      rw [hcut] at hend
      omega
  · -- the wanted size wraps around, so that the data are moved and there is still no room
    have hover : 2 ^ 64 ≤ len + kCheapPrepend := by
      unfold addSize kCheapPrepend at hresize
      unfold kCheapPrepend at hwraps ⊢
      omega
    rw [if_neg hresize]
    refine .inr ?_
    unfold move
    by_cases hoverlap : b.readIndex ≤ kCheapPrepend ∧ kCheapPrepend < b.writeIndex
    · rw [if_pos hoverlap]
      exact .inr rfl
    · rw [if_neg hoverlap, copyFrom_ok hread hwrite, ok_bind]
      change ((copyTo b.buffer kCheapPrepend b.contents >>= _) >>= _) = _ ∨
        ((copyTo b.buffer kCheapPrepend b.contents >>= _) >>= _) = _
      by_cases hfits : kCheapPrepend + b.contents.length ≤ b.buffer.length
      · rw [copyTo_ok hfits, ok_bind]
        rw [h.length_contents] at hfits
        have hadd : addSize kCheapPrepend b.readableBytes = kCheapPrepend + b.readableBytes :=
          addSize_eq (by omega)
        have hshort : ¬ len ≤ writableBytes ⟨b.buffer.take kCheapPrepend ++ b.contents ++
            b.buffer.drop (kCheapPrepend + b.contents.length), kCheapPrepend,
            addSize kCheapPrepend b.readableBytes⟩ := by
          unfold writableBytes
          dsimp only
          rw [length_copyTo (by rwa [h.length_contents]), hadd, subSize_eq hfits h.size_le]
          unfold kCheapPrepend at hover
          omega
        refine .inl ?_
        dsimp only
        rw [assert_fails hshort]
        rfl
      · unfold copyTo
        rw [if_neg hfits]
        exact .inr rfl

theorem append_spec (h : b.Valid) {bytes : Bytes} (hbytes : bytes.length ≤ maxSize) :
    Completes (b.append bytes) (b.contents ++ bytes) ∨
    (b.append bytes = .error .lengthError ∧ maxSize < b.writeIndex + bytes.length) := by
  have hlt := h.lt
  have hfits : b.writeIndex + bytes.length < 2 ^ 64 ∧
      bytes.length + kCheapPrepend < 2 ^ 64 := by
    unfold maxSize at hbytes
    unfold kCheapPrepend
    omega
  unfold append
  rcases ensureWritableBytes_spec h (fun _ => hfits) with
    ⟨hensure, hvalid, hcontents, henough⟩ | ⟨hthrows, hmax⟩
  · refine .inl ?_
    obtain ⟨filled, hfill, hfilled, happended, -⟩ := fill_spec hvalid henough
    exact ⟨filled, by rw [hensure, ok_bind, hfill], hfilled, by rw [happended, hcontents]⟩
  · refine .inr ⟨?_, hmax⟩
    rw [hthrows]
    rfl

/-- What `readv` brings is in the buffer, from both areas and in order. -/
theorem readFromFd_spec (h : b.Valid) {result : Option Bytes}
    (hoffered : (result.getD []).length ≤ b.offered) :
    Completes (b.readFromFd result) (b.contents ++ result.getD []) ∨
    (b.readFromFd result = .error .lengthError ∧
      maxSize < b.buffer.length + (result.getD []).length) := by
  cases result with
  | none =>
      refine .inl ⟨b, rfl, h, ?_⟩
      rw [Option.getD_none, List.append_nil]
  | some bytes =>
      rw [Option.getD_some] at hoffered ⊢
      have hwritable := h.writableBytes_eq
      have hwrite := h.write_le
      have hlt := h.lt
      by_cases hnone : bytes.length = 0
      · refine .inl ⟨b, ?_, h, ?_⟩
        · unfold readFromFd
          dsimp only
          rw [if_pos hnone]
          rfl
        · rw [List.eq_nil_of_length_eq_zero hnone, List.append_nil]
      · have htake : (bytes.take b.writableBytes).length ≤ b.writableBytes := by
          rw [List.length_take]
          exact Nat.min_le_left _ _
        obtain ⟨filled, hfill, hvalid, hcontents, hlength⟩ := fill_spec h htake
        unfold fill at hfill
        have hroom : b.writeIndex + (bytes.take b.writableBytes).length ≤ b.buffer.length := by
          omega
        rw [copyTo_ok hroom, ok_bind] at hfill
        unfold readFromFd
        dsimp only
        rw [if_neg hnone, copyTo_ok hroom, ok_bind]
        -- what does not fit is read onto the stack and appended
        by_cases hinside : bytes.length ≤ b.writableBytes
        · refine .inl ⟨filled, ?_, hvalid, ?_⟩
          · rw [if_pos hinside, ← hfill, List.take_of_length_le hinside]
          · rw [hcontents, List.take_of_length_le hinside]
        · rw [if_neg hinside]
          have hall : (bytes.take b.writableBytes).length = b.writableBytes :=
            List.length_take_of_le (by omega)
          rw [hall] at hfill hroom
          rw [hall, hfill, ok_bind]
          have hoffer : (bytes.drop b.writableBytes).length ≤ extrabufSize := by
            unfold offered at hoffered
            rw [List.length_drop]
            split at hoffered
            · omega
            · omega
          have hstack : (bytes.drop b.writableBytes).length ≤ maxSize :=
            le_trans hoffer (by unfold extrabufSize maxSize; omega)
          rcases append_spec hvalid hstack with hdone | ⟨hthrows, hmax⟩
          · refine .inl ?_
            rwa [hcontents, List.append_assoc, List.take_append_drop] at hdone
          · refine .inr ⟨hthrows, ?_⟩
            have hindex := hvalid.write_le
            rw [List.length_drop] at hmax
            omega

end RawBuffer

/-! ## The buffer of the connections -/

namespace Buffer

/-- A `Buffer`, without what is known of it. -/
def raw (b : Buffer) : RawBuffer := ⟨b.buffer, b.readIndex, b.writeIndex⟩

variable {b : Buffer}

theorem valid_raw (h : b.buffer.length ≤ maxSize) : b.raw.Valid :=
  ⟨b.read_le, b.write_le, le_trans b.prepend_le (le_trans b.read_le b.write_le), h⟩

theorem raw_shrinkIfNeeded (h : b.buffer.length ≤ maxSize) :
    b.raw.shrinkIfNeeded = .ok b.shrinkIfNeeded.raw := by
  have hvalid := valid_raw h
  have hreadable : b.raw.readableBytes = b.readableBytes := hvalid.readableBytes_eq
  have hprepend := hvalid.prepend_le
  unfold RawBuffer.shrinkIfNeeded shrinkIfNeeded
  rw [hreadable]
  change (if b.buffer.length / 2 < b.readIndex ∧ b.readableBytes < b.buffer.length / 4 then _
    else _) = _
  split
  · have hfits : kCheapPrepend + b.raw.readableBytes ≤ maxSize := by
      change kCheapPrepend ≤ b.buffer.length at hprepend
      unfold kCheapPrepend at hprepend ⊢
      unfold maxSize at h ⊢
      omega
    rw [RawBuffer.shrink_eq hvalid hfits, hreadable]
    rfl
  · rfl

/-- The two models of `retrieve` are one. -/
theorem raw_retrieve (h : b.buffer.length ≤ maxSize) (n : Nat) :
    b.raw.retrieve n = .ok (b.retrieve n).raw := by
  have hvalid := valid_raw h
  have hreadable : b.raw.readableBytes = b.readableBytes := hvalid.readableBytes_eq
  unfold RawBuffer.retrieve retrieve
  rw [hreadable]
  split
  · rename_i hn
    have hlt := hvalid.lt
    have hadd : addSize b.raw.readIndex n = b.readIndex + n := by
      refine addSize_eq ?_
      have hread := b.read_le
      unfold readableBytes at hn
      change b.readIndex < _ ∧ b.writeIndex < _ ∧ _ at hlt
      change b.readIndex + n < _
      omega
    rw [hadd]
    exact raw_shrinkIfNeeded (b := ⟨b.buffer, b.readIndex + n, b.writeIndex, _, _, _⟩) h
  · exact raw_shrinkIfNeeded (b := b.retrieveAll) h

/-- And so are those of `append`, as long as the vector can grow. -/
theorem raw_append (h : b.buffer.length ≤ maxSize) {bytes : Bytes}
    (hfits : b.writeIndex + bytes.length ≤ maxSize) :
    b.raw.append bytes = .ok (b.append bytes).raw := by
  have hvalid := valid_raw h
  have hlt := hvalid.lt
  have hsize : b.data.length = b.readableBytes := b.length_data
  have hsum : b.writeIndex + bytes.length < 2 ^ 64 ∧ bytes.length + kCheapPrepend < 2 ^ 64 := by
    unfold maxSize at hfits
    unfold kCheapPrepend
    omega
  have hreserved : RawBuffer.reserved bytes.length b.raw =
      (b.ensureWritableBytes bytes.length).raw := by
    unfold RawBuffer.reserved ensureWritableBytes makeSpace writableBytes prependableBytes
    change (if b.buffer.length - b.writeIndex < bytes.length then
      if b.buffer.length - b.writeIndex + b.readIndex < bytes.length + kCheapPrepend then _ else _
      else _) = _
    split
    · split
      · rfl
      · change RawBuffer.mk (b.buffer.take kCheapPrepend ++ b.data ++
          b.buffer.drop (kCheapPrepend + b.data.length)) _ (kCheapPrepend + b.data.length) = _
        rw [hsize]
        rfl
    · rfl
  rcases RawBuffer.ensureWritableBytes_spec hvalid (fun _ => hsum) with
    ⟨hensure, hroom, -, henough⟩ | ⟨-, hmax⟩
  · unfold RawBuffer.append
    rw [hensure, ok_bind, RawBuffer.fill_eq hroom henough, hreserved]
    rfl
  · exact absurd hmax (Nat.not_lt.mpr hfits)

end Buffer

end SolarDrive.Network
