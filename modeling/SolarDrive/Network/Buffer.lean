import SolarDrive.Lib.Bytes

/-!
# The byte buffer

A vector with a read and a write index, and eight bytes in front. The buffer is
used as a queue of bytes: `append` adds to the readable bytes and `retrieve`
takes from them, wherever growing, moving and shrinking put them.
-/

namespace SolarDrive.Network

open Lib

def kCheapPrepend : Nat := 8

structure Buffer where
  buffer : Bytes
  readIndex : Nat
  writeIndex : Nat
  prepend_le : kCheapPrepend ≤ readIndex
  read_le : readIndex ≤ writeIndex
  write_le : writeIndex ≤ buffer.length

namespace Buffer

def new (initialSize : Nat) : Buffer where
  buffer := List.replicate (kCheapPrepend + initialSize) 0
  readIndex := kCheapPrepend
  writeIndex := kCheapPrepend
  prepend_le := le_refl _
  read_le := le_refl _
  write_le := by simp

def readableBytes (b : Buffer) : Nat := b.writeIndex - b.readIndex

/-- The readable bytes, from `data()` on. -/
def data (b : Buffer) : Bytes := (b.buffer.take b.writeIndex).drop b.readIndex

def writableBytes (b : Buffer) : Nat := b.buffer.length - b.writeIndex

def prependableBytes (b : Buffer) : Nat := b.readIndex

theorem length_data (b : Buffer) : b.data.length = b.readableBytes := by
  have hwrite := b.write_le
  unfold data readableBytes
  rw [List.length_drop, List.length_take, Nat.min_eq_left hwrite]

def shrink (b : Buffer) : Buffer where
  buffer := List.replicate kCheapPrepend 0 ++ b.data
  readIndex := kCheapPrepend
  writeIndex := kCheapPrepend + b.readableBytes
  prepend_le := le_refl _
  read_le := Nat.le_add_right _ _
  write_le := by rw [List.length_append, List.length_replicate, length_data]

def shrinkIfNeeded (b : Buffer) : Buffer :=
  if b.buffer.length / 2 < b.readIndex ∧ b.readableBytes < b.buffer.length / 4 then b.shrink else b

def retrieveAll (b : Buffer) : Buffer where
  buffer := b.buffer
  readIndex := kCheapPrepend
  writeIndex := kCheapPrepend
  prepend_le := le_refl _
  read_le := le_refl _
  write_le := le_trans b.prepend_le (le_trans b.read_le b.write_le)

def retrieve (n : Nat) (b : Buffer) : Buffer :=
  if h : n ≤ b.readableBytes then
    shrinkIfNeeded
      { b with
        readIndex := b.readIndex + n
        prepend_le := le_trans b.prepend_le (Nat.le_add_right _ _)
        read_le := by
          have hread := b.read_le
          unfold readableBytes at h
          omega }
  else b.retrieveAll.shrinkIfNeeded

/-- `buffer_.resize(write_index_ + len)`. -/
def grow (len : Nat) (b : Buffer) : Buffer :=
  { b with
    buffer := b.buffer ++ List.replicate (b.writeIndex + len - b.buffer.length) 0
    write_le := by
      have hwrite := b.write_le
      rw [List.length_append]
      omega }

/-- The readable bytes are copied to the front. -/
def compact (b : Buffer) : Buffer where
  buffer := b.buffer.take kCheapPrepend ++ b.data ++
    b.buffer.drop (kCheapPrepend + b.readableBytes)
  readIndex := kCheapPrepend
  writeIndex := kCheapPrepend + b.readableBytes
  prepend_le := le_refl _
  read_le := Nat.le_add_right _ _
  write_le := by
    have hprepend := b.prepend_le
    have hread := b.read_le
    have hwrite := b.write_le
    simp only [List.length_append, List.length_take, length_data]
    omega

def makeSpace (len : Nat) (b : Buffer) : Buffer :=
  if b.writableBytes + b.prependableBytes < len + kCheapPrepend then b.grow len else b.compact

def ensureWritableBytes (len : Nat) (b : Buffer) : Buffer :=
  if b.writableBytes < len then b.makeSpace len else b

/-- `make_space` makes enough. -/
theorem ensureWritableBytes_le (len : Nat) (b : Buffer) :
    len ≤ (b.ensureWritableBytes len).writableBytes := by
  have hread := b.read_le
  have hwrite := b.write_le
  unfold ensureWritableBytes makeSpace
  split
  · split
    · simp only [writableBytes, grow, List.length_append, List.length_replicate]
      omega
    · rename_i hroom
      unfold writableBytes prependableBytes at hroom
      simp only [writableBytes, compact, List.length_append, List.length_take, List.length_drop,
        length_data, readableBytes]
      omega
  · omega

/-- `std::copy` to the write index, and `has_written`. -/
def put (bytes : Bytes) (b : Buffer) (h : bytes.length ≤ b.writableBytes) : Buffer where
  buffer := b.buffer.take b.writeIndex ++ bytes ++ b.buffer.drop (b.writeIndex + bytes.length)
  readIndex := b.readIndex
  writeIndex := b.writeIndex + bytes.length
  prepend_le := b.prepend_le
  read_le := le_trans b.read_le (Nat.le_add_right _ _)
  write_le := by
    have hwrite := b.write_le
    have hroom : bytes.length ≤ b.buffer.length - b.writeIndex := h
    simp only [List.length_append, List.length_take]
    omega

def append (bytes : Bytes) (b : Buffer) : Buffer :=
  (b.ensureWritableBytes bytes.length).put bytes (ensureWritableBytes_le bytes.length b)

/-! ## The buffer as a queue of bytes -/

@[simp] theorem data_new (initialSize : Nat) : (new initialSize).data = [] := by
  apply List.eq_nil_of_length_eq_zero
  rw [length_data]
  exact Nat.sub_self _

/-- What stands between a front of eight bytes and a rest is readable. -/
theorem drop_take_append {front : Bytes} (bytes rest : Bytes) (h : front.length = kCheapPrepend) :
    ((front ++ bytes ++ rest).take (kCheapPrepend + bytes.length)).drop kCheapPrepend = bytes := by
  rw [← h, ← List.length_append, List.take_left, List.drop_left]

@[simp] theorem data_shrink (b : Buffer) : b.shrink.data = b.data := by
  have hfront : (List.replicate kCheapPrepend (0 : UInt8)).length = kCheapPrepend :=
    List.length_replicate
  have hdrop := drop_take_append b.data [] hfront
  rw [List.append_nil, length_data] at hdrop
  exact hdrop

@[simp] theorem data_shrinkIfNeeded (b : Buffer) : b.shrinkIfNeeded.data = b.data := by
  unfold shrinkIfNeeded
  split
  · exact data_shrink b
  · rfl

@[simp] theorem data_retrieve (n : Nat) (b : Buffer) : (b.retrieve n).data = b.data.drop n := by
  unfold retrieve
  split
  · rw [data_shrinkIfNeeded]
    unfold data
    rw [List.drop_drop]
  · rename_i hmore
    rw [data_shrinkIfNeeded, List.drop_eq_nil_of_le (by rw [length_data]; omega)]
    apply List.eq_nil_of_length_eq_zero
    rw [length_data]
    exact Nat.sub_self _

@[simp] theorem data_ensureWritableBytes (len : Nat) (b : Buffer) :
    (b.ensureWritableBytes len).data = b.data := by
  unfold ensureWritableBytes makeSpace
  split
  · split
    · unfold data grow
      dsimp only
      rw [List.take_append_of_le_length b.write_le]
    · have hfront : (b.buffer.take kCheapPrepend).length = kCheapPrepend := by
        rw [List.length_take]
        exact Nat.min_eq_left (le_trans b.prepend_le (le_trans b.read_le b.write_le))
      have hdrop := drop_take_append b.data
        (b.buffer.drop (kCheapPrepend + b.readableBytes)) hfront
      rw [length_data] at hdrop
      exact hdrop
  · rfl

@[simp] theorem data_append (bytes : Bytes) (b : Buffer) :
    (b.append bytes).data = b.data ++ bytes := by
  have hput : ∀ (b : Buffer) (h : bytes.length ≤ b.writableBytes),
      (b.put bytes h).data = b.data ++ bytes := by
    intro b h
    have hlength : (b.buffer.take b.writeIndex).length = b.writeIndex := by
      rw [List.length_take]
      exact Nat.min_eq_left b.write_le
    unfold data put
    dsimp only
    conv_lhs => rw [show b.writeIndex + bytes.length =
      (b.buffer.take b.writeIndex ++ bytes).length by rw [List.length_append, hlength]]
    rw [List.take_left, List.drop_append_of_le_length (by rw [hlength]; exact b.read_le)]
  unfold append
  rw [hput, data_ensureWritableBytes]

end Buffer

end SolarDrive.Network
