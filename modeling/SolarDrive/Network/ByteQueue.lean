import SolarDrive.Lib.Machine
import SolarDrive.Network.RawBuffer
import Mathlib.Logic.Function.Basic

/-!
# Buffers are queues of bytes

Any number of buffers, of any initial sizes, under any sequence of operations, `swap`
among them. The abstract side is a queue of bytes for each. As long as no size that is
asked for wraps around, every operation completes on valid buffers and does to the
queues what it should (`buffers_are_queues`); one that does wrap breaks the buffer, so
the condition is exact.
-/

namespace SolarDrive.Network

open Lib

inductive BufferOp where
  | append (bytes : Bytes)
  | retrieve (n : Nat)
  | retrieveAll
  | retrieveAsString (n : Nat)
  | prepend (bytes : Bytes)
  | unwrite (n : Nat)
  | ensureWritableBytes (len : Nat)
  | fill (bytes : Bytes)
  | shrink
  | readFromFd (result : Option Bytes)

namespace BufferOp

/-- The operation and the text that it returns, if it returns one. -/
def exec : BufferOp → RawBuffer → Except BufferFault (RawBuffer × Bytes)
  | append bytes, b => do return (← b.append bytes, [])
  | retrieve n, b => do return (← b.retrieve n, [])
  | retrieveAll, b => .ok (b.retrieveAll, [])
  | retrieveAsString n, b => b.retrieveAsString n
  | prepend bytes, b => do return (← b.prepend bytes, [])
  | unwrite n, b => do return (← b.unwrite n, [])
  | ensureWritableBytes len, b => do return (← b.ensureWritableBytes len, [])
  | fill bytes, b => do return (← b.fill bytes, [])
  | shrink, b => do return (← b.shrink, [])
  | readFromFd result, b => do return (← b.readFromFd result, [])

/-- The same on a queue of bytes. -/
def onQueue : BufferOp → Bytes → Bytes × Bytes
  | append bytes, q => (q ++ bytes, [])
  | retrieve n, q => (q.drop (min n q.length), [])
  | retrieveAll, _ => ([], [])
  | retrieveAsString n, q => (q.drop n, q.take n)
  | prepend bytes, q => (bytes ++ q, [])
  | unwrite n, q => (q.take (q.length - n), [])
  | ensureWritableBytes _, q => (q, [])
  | fill bytes, q => (q ++ bytes, [])
  | shrink, q => (q, [])
  | readFromFd result, q => (q ++ result.getD [], [])

/-- The asserted preconditions, and what memory and the kernel give: an array has at most
`maxSize` bytes, and `readv` brings no more than it was offered. -/
def Allowed (b : RawBuffer) : BufferOp → Prop
  | append bytes => bytes.length ≤ maxSize
  | retrieveAsString n => n ≤ b.readableBytes
  | prepend bytes => bytes.length ≤ b.prependableBytes
  | unwrite n => n ≤ b.readableBytes
  | ensureWritableBytes len => len < 2 ^ 64
  | fill bytes => bytes.length ≤ b.writableBytes
  | readFromFd result => (result.getD []).length ≤ b.offered
  | retrieve n => n < 2 ^ 64
  | retrieveAll => True
  | shrink => True

/-- No size that has to be made wraps around. -/
def Fits (b : RawBuffer) : BufferOp → Prop
  | ensureWritableBytes len =>
      b.writableBytes < len → b.writeIndex + len < 2 ^ 64 ∧ len + kCheapPrepend < 2 ^ 64
  | _ => True

/-- The length that an operation names. -/
def size : BufferOp → Nat
  | append bytes => bytes.length
  | ensureWritableBytes len => len
  | readFromFd result => (result.getD []).length
  | _ => 0

end BufferOp

namespace BufferOp

variable {b : RawBuffer} {op : BufferOp}

instance (b : RawBuffer) (op : BufferOp) : Decidable (op.Allowed b) := by
  cases op <;> unfold Allowed <;> infer_instance

instance (b : RawBuffer) (op : BufferOp) : Decidable (op.Fits b) := by
  cases op <;> unfold Fits <;> infer_instance

/-- The operation completes as it does on a queue, and leaves a valid buffer; or the vector
throws, near its limit. No assertion fails and no copy leaves the vector. -/
def Sound (b : RawBuffer) (op : BufferOp) : Prop :=
  (∃ b', op.exec b = .ok (b', (op.onQueue b.contents).2) ∧ b'.Valid ∧
    b'.contents = (op.onQueue b.contents).1) ∨
  (op.exec b = .error .lengthError ∧ maxSize < b.buffer.length + kCheapPrepend + op.size)

open RawBuffer in
/-- An operation that returns nothing. -/
theorem sound_of_completes {r : Except BufferFault RawBuffer}
    (hexec : op.exec b = r >>= fun b' => .ok (b', [])) (hout : (op.onQueue b.contents).2 = [])
    (h : Completes r (op.onQueue b.contents).1) : op.Sound b := by
  obtain ⟨b', hr, hvalid, hcontents⟩ := h
  refine .inl ⟨b', ?_, hvalid, hcontents⟩
  rw [hexec, hr, ok_bind, hout]

theorem sound_of_throws {r : Except BufferFault RawBuffer}
    (hexec : op.exec b = r >>= fun b' => .ok (b', [])) (hr : r = .error .lengthError)
    (hmax : maxSize < b.buffer.length + kCheapPrepend + op.size) : op.Sound b := by
  refine .inr ⟨?_, hmax⟩
  rw [hexec, hr]
  rfl

/-- An operation that is allowed is sound exactly when no size wraps around. -/
theorem sound_iff (h : b.Valid) (hallowed : op.Allowed b) : op.Sound b ↔ op.Fits b := by
  have hwrite := h.write_le
  cases op with
  | append bytes =>
      refine iff_of_true ?_ trivial
      rcases b.append_spec h hallowed with hdone | ⟨hthrows, hmax⟩
      · exact sound_of_completes rfl rfl hdone
      · exact sound_of_throws rfl hthrows (by simp only [size]; omega)
  | retrieve n =>
      refine iff_of_true (sound_of_completes rfl rfl ?_) trivial
      have hmin : b.contents.drop (min n b.contents.length) = b.contents.drop n := by
        rcases Nat.le_total n b.contents.length with hle | hle
        · rw [Nat.min_eq_left hle]
        · rw [Nat.min_eq_right hle, List.drop_length, List.drop_eq_nil_of_le hle]
      change RawBuffer.Completes _ (b.contents.drop (min n b.contents.length))
      rw [hmin]
      exact b.retrieve_spec h n
  | retrieveAll =>
      refine iff_of_true ?_ trivial
      exact .inl ⟨b.retrieveAll, rfl, b.retrieveAll_spec h⟩
  | retrieveAsString n => exact iff_of_true (.inl (b.retrieveAsString_spec h hallowed)) trivial
  | prepend bytes =>
      exact iff_of_true (sound_of_completes rfl rfl (b.prepend_spec h hallowed)) trivial
  | unwrite n =>
      exact iff_of_true (sound_of_completes rfl rfl (b.unwrite_spec h hallowed)) trivial
  -- the only operation whose size is neither bounded nor that of bytes in memory
  | ensureWritableBytes len =>
      constructor
      · intro hsound hmore
        by_contra hwraps
        have hexec : exec (ensureWritableBytes len) b =
            b.ensureWritableBytes len >>= fun b' => .ok (b', []) := rfl
        rcases b.ensureWritableBytes_wraps h hallowed hmore hwraps with
          ⟨b', hok, hinvalid⟩ | hassert | houtside
        · rcases hsound with ⟨b'', hdone, hvalid, -⟩ | ⟨hthrows, -⟩
          · rw [hexec, hok, ok_bind, Except.ok.injEq, Prod.mk.injEq] at hdone
            exact hinvalid (hdone.1 ▸ hvalid)
          · rw [hexec, hok, ok_bind] at hthrows
            cases hthrows
        · rcases hsound with ⟨b'', hdone, -⟩ | ⟨hthrows, -⟩
          · rw [hexec, hassert] at hdone
            cases hdone
          · rw [hexec, hassert] at hthrows
            cases hthrows
        · rcases hsound with ⟨b'', hdone, -⟩ | ⟨hthrows, -⟩
          · rw [hexec, houtside] at hdone
            cases hdone
          · rw [hexec, houtside] at hthrows
            cases hthrows
      · intro hfits
        rcases b.ensureWritableBytes_spec h hfits with
          ⟨hok, hvalid, hcontents, -⟩ | ⟨hthrows, hmax⟩
        · exact sound_of_completes rfl rfl ⟨_, hok, hvalid, hcontents⟩
        · exact sound_of_throws rfl hthrows (by simp only [size]; omega)
  | fill bytes =>
      obtain ⟨b', hok, hvalid, hcontents, -⟩ := b.fill_spec h hallowed
      exact iff_of_true (sound_of_completes rfl rfl ⟨b', hok, hvalid, hcontents⟩) trivial
  | shrink =>
      refine iff_of_true ?_ trivial
      by_cases hfits : kCheapPrepend + b.readableBytes ≤ maxSize
      · exact sound_of_completes rfl rfl (b.shrink_ok h hfits)
      · have hreadable := h.readableBytes_eq
        have hlt := h.lt
        refine sound_of_throws (r := b.shrink) rfl ?_ (by simp only [size]; omega)
        unfold RawBuffer.shrink resize
        rw [addSize_eq (by unfold kCheapPrepend; omega), if_pos (Nat.lt_of_not_le hfits)]
        rfl
  | readFromFd result =>
      refine iff_of_true ?_ trivial
      rcases b.readFromFd_spec h hallowed with hdone | ⟨hthrows, hmax⟩
      · exact sound_of_completes rfl rfl hdone
      · exact sound_of_throws rfl hthrows (by simp only [size]; omega)

end BufferOp

/-! ## Any number of buffers -/

/-- An operation on one of the buffers, or the exchange of two. -/
inductive BufferAct (ι : Type) where
  | on (i : ι) (op : BufferOp)
  | swap (i j : ι)

namespace BufferAct

variable {ι : Type} [DecidableEq ι]

/-- The values of two places exchanged. -/
def exchange {α : Type} (f : ι → α) (i j : ι) : ι → α :=
  Function.update (Function.update f i (f j)) j (f i)

def step (s : ι → RawBuffer) : BufferAct ι → Except BufferFault ((ι → RawBuffer) × Bytes)
  | on i op => do
      let (b, out) ← op.exec (s i)
      return (Function.update s i b, out)
  | swap i j => .ok (exchange s i j, [])

/-- The same on queues. -/
def onQueues (q : ι → Bytes) : BufferAct ι → (ι → Bytes) × Bytes
  | on i op => (Function.update q i (op.onQueue (q i)).1, (op.onQueue (q i)).2)
  | swap i j => (exchange q i j, [])

def Allowed (s : ι → RawBuffer) : BufferAct ι → Prop
  | on i op => op.Allowed (s i)
  | swap _ _ => True

def Fits (s : ι → RawBuffer) : BufferAct ι → Prop
  | on i op => op.Fits (s i)
  | swap _ _ => True

instance (s : ι → RawBuffer) (act : BufferAct ι) : Decidable (act.Allowed s) := by
  cases act <;> unfold Allowed <;> infer_instance

instance (s : ι → RawBuffer) (act : BufferAct ι) : Decidable (act.Fits s) := by
  cases act <;> unfold Fits <;> infer_instance

/-- The queues after a sequence of operations. -/
def queuesOf (acts : List (BufferAct ι)) : ι → Bytes :=
  acts.foldl (fun q act => (act.onQueues q).1) fun _ => []

/-- All buffers are valid and hold the bytes of their queues. -/
def Holds (s : ι → RawBuffer) (q : ι → Bytes) : Prop :=
  ∀ i, (s i).Valid ∧ (s i).contents = q i

/-- The step is the one of the queues, with what it returns, or the vector throws. -/
def Sound (s : ι → RawBuffer) (q : ι → Bytes) (act : BufferAct ι) : Prop :=
  (∃ s', act.step s = .ok (s', (act.onQueues q).2) ∧ Holds s' (act.onQueues q).1) ∨
  (act.step s = .error .lengthError ∧ ∃ i op, act = on i op ∧
    maxSize < (s i).buffer.length + kCheapPrepend + op.size)

variable {s s' : ι → RawBuffer} {q : ι → Bytes} {act : BufferAct ι}

theorem holds_update (h : Holds s q) {i : ι} {b : RawBuffer} {bytes : Bytes} (hvalid : b.Valid)
    (hcontents : b.contents = bytes) : Holds (Function.update s i b) (Function.update q i bytes) := by
  intro k
  by_cases hk : k = i
  · subst hk
    rw [Function.update_self, Function.update_self]
    exact ⟨hvalid, hcontents⟩
  · rw [Function.update_of_ne hk, Function.update_of_ne hk]
    exact h k

/-- The members of the two objects are exchanged, and so are their readable bytes. -/
theorem holds_exchange (h : Holds s q) (i j : ι) : Holds (exchange s i j) (exchange q i j) :=
  holds_update (holds_update h (h j).1 (h j).2) (h i).1 (h i).2

theorem sound_iff (h : Holds s q) (hallowed : act.Allowed s) :
    act.Sound s q ↔ act.Fits s := by
  cases act with
  | swap i j => exact iff_of_true (.inl ⟨_, rfl, holds_exchange h i j⟩) trivial
  | on i op =>
      have hop := BufferOp.sound_iff (h i).1 hallowed
      have hstep : (on i op).step s =
          op.exec (s i) >>= fun p => .ok (Function.update s i p.1, p.2) := rfl
      rw [show (on i op).Fits s = op.Fits (s i) from rfl, ← hop]
      constructor
      · rintro (⟨s', hdone, hholds⟩ | ⟨hthrows, k, op', heq, hmax⟩)
        · cases hexec : op.exec (s i) with
          | error e =>
              rw [hstep, hexec] at hdone
              cases hdone
          | ok p =>
              rw [hstep, hexec, ok_bind, Except.ok.injEq, Prod.mk.injEq] at hdone
              obtain ⟨rfl, hout⟩ := hdone
              have hi := hholds i
              rw [Function.update_self] at hi
              change _ ∧ _ = Function.update q i (op.onQueue (q i)).1 i at hi
              rw [Function.update_self, ← (h i).2] at hi
              refine .inl ⟨p.1, ?_, hi.1, hi.2⟩
              rw [hexec, (h i).2, show (op.onQueue (q i)).2 = p.2 from hout.symm]
        · cases heq
          cases hexec : op.exec (s i) with
          | error e =>
              rw [hstep, hexec] at hthrows
              cases hthrows
              exact .inr ⟨hexec, hmax⟩
          | ok p =>
              rw [hstep, hexec] at hthrows
              cases hthrows
      · rintro (⟨b', hexec, hvalid, hcontents⟩ | ⟨hthrows, hmax⟩)
        · rw [(h i).2] at hexec hcontents
          refine .inl ⟨Function.update s i b', ?_, holds_update h hvalid hcontents⟩
          rw [hstep, hexec, ok_bind]
          rfl
        · refine .inr ⟨?_, i, op, rfl, hmax⟩
          rw [hstep, hthrows]
          rfl

/-- A step that completes, as a step of the machine. -/
def next (s : ι → RawBuffer) (act : BufferAct ι) : Option (ι → RawBuffer) :=
  match act.step s with
  | .ok (s', _) => some s'
  | .error _ => none

theorem next_holds (h : Holds s q) (hallowed : act.Allowed s) (hfits : act.Fits s)
    (hnext : next s act = some s') : Holds s' (act.onQueues q).1 := by
  unfold next at hnext
  rcases (sound_iff h hallowed).mpr hfits with ⟨s'', hstep, hholds⟩ | ⟨hthrows, -⟩
  · rw [hstep, Option.some.injEq] at hnext
    exact hnext ▸ hholds
  · rw [hthrows] at hnext
    cases hnext

end BufferAct

/-- A new buffer is valid and empty, unless its size wraps around. -/
theorem new_iff {n : Nat} (hn : n < 2 ^ 64) :
    (RawBuffer.Completes (RawBuffer.new n) [] ∨
      (RawBuffer.new n = .error .lengthError ∧ maxSize < kCheapPrepend + n)) ↔
    kCheapPrepend + n < 2 ^ 64 := by
  have hlength : ∀ k : Nat, k ≤ maxSize → resize [] k = .ok (List.replicate k 0) := by
    intro k hk
    rw [resize_ok hk, List.take_nil, List.length_nil, Nat.sub_zero, List.nil_append]
  constructor
  · intro h
    by_contra hwraps
    -- the size wraps around to `k`, which is less than the prepend
    obtain ⟨k, hk⟩ := Nat.exists_eq_add_of_le (Nat.le_of_not_lt hwraps)
    have hsmall : k < kCheapPrepend := by omega
    have hadd : addSize kCheapPrepend n = k := by
      unfold addSize
      unfold kCheapPrepend at hk hsmall ⊢
      omega
    have hnew : RawBuffer.new n =
        .ok { buffer := List.replicate k 0, readIndex := kCheapPrepend,
              writeIndex := kCheapPrepend } := by
      unfold RawBuffer.new
      rw [hadd, hlength k (by unfold kCheapPrepend at hsmall; unfold maxSize; omega)]
      rfl
    rcases h with ⟨b, hb, hvalid, -⟩ | ⟨hthrows, -⟩
    · rw [hnew, Except.ok.injEq] at hb
      subst hb
      have hend := hvalid.write_le
      rw [List.length_replicate] at hend
      exact Nat.not_le.mpr hsmall hend
    · rw [hnew] at hthrows
      cases hthrows
  · intro hfits
    unfold RawBuffer.new
    rw [addSize_eq hfits]
    by_cases hmax : kCheapPrepend + n ≤ maxSize
    · rw [hlength _ hmax]
      refine .inl ⟨_, rfl, ⟨le_refl _, ?_, ?_, ?_⟩, ?_⟩
      · rw [List.length_replicate]
        exact Nat.le_add_right _ _
      · rw [List.length_replicate]
        exact Nat.le_add_right _ _
      · rw [List.length_replicate]
        exact hmax
      · unfold RawBuffer.contents
        refine List.drop_eq_nil_of_le ?_
        rw [List.length_take]
        exact Nat.min_le_left _ _
    · refine .inr ⟨?_, Nat.lt_of_not_le hmax⟩
      unfold resize
      rw [if_pos (Nat.lt_of_not_le hmax)]
      rfl

open BufferAct in
/-- **A buffer is a queue of bytes** as long as no size wraps around. After any such
sequence of operations all buffers are valid and hold what their queues hold, and the next
operation does on them what it does on the queues exactly when its size does not wrap. -/
theorem buffers_are_queues {ι : Type} [DecidableEq ι] :
    (∀ n < 2 ^ 64, (RawBuffer.Completes (RawBuffer.new n) [] ∨
        (RawBuffer.new n = .error .lengthError ∧ maxSize < kCheapPrepend + n)) ↔
      kCheapPrepend + n < 2 ^ 64) ∧
    ∀ (sizes : ι → Nat) (start s : ι → RawBuffer) (acts : List (BufferAct ι)),
      (∀ i, kCheapPrepend + sizes i < 2 ^ 64) →
      (∀ i, RawBuffer.new (sizes i) = .ok (start i)) →
      Machine.Run next (fun s act => act.Allowed s ∧ act.Fits s) start acts s →
      (∀ i, (s i).Valid ∧ (s i).contents = queuesOf acts i) ∧
        ∀ act : BufferAct ι, act.Allowed s → (act.Sound s (queuesOf acts) ↔ act.Fits s) := by
  refine ⟨fun n hn => new_iff hn, fun sizes start s acts hsizes hstart hrun => ?_⟩
  have hholds : Holds s (queuesOf acts) := by
    refine hrun.invariant (fun acts s => Holds s (queuesOf acts)) ?_ ?_
    · intro i
      have hn : sizes i < 2 ^ 64 := lt_of_le_of_lt (Nat.le_add_left _ _) (hsizes i)
      rcases (new_iff hn).mpr (hsizes i) with ⟨b, hb, hvalid, hempty⟩ | ⟨hthrows, -⟩
      · rw [hstart i, Except.ok.injEq] at hb
        exact hb ▸ ⟨hvalid, hempty⟩
      · rw [hstart i] at hthrows
        cases hthrows
    · intro acts s s' act h hcond hnext
      have hlast := next_holds h hcond.1 hcond.2 hnext
      rwa [queuesOf, List.foldl_append]
  exact ⟨hholds, fun act hallowed => sound_iff hholds hallowed⟩

def emptyFour : RawBuffer := ⟨List.replicate 12 0, kCheapPrepend, kCheapPrepend⟩

/-- Two buffers of four bytes: the data of the first are moved to the front to make room,
and end up in the second behind three bytes that are put before them. -/
def twoBuffers : List (BufferAct Bool) :=
  [.on false (.append (ascii "abcd")), .on false (.retrieve 3), .on false (.append (ascii "ef")),
    .on false (.unwrite 1), .swap false true, .on true (.prepend (ascii "xyz")),
    .on false (.readFromFd (some (ascii "0123456789")))]

/-- The condition of a run, checked. -/
def runnable (s : Bool → RawBuffer) (act : BufferAct Bool) : Bool :=
  decide (act.Allowed s ∧ act.Fits s)

open BufferAct in
theorem two_buffers_hold : ∃ s, Machine.exec next runnable twoBuffers (fun _ => emptyFour) = some s ∧
    (s false).contents = ascii "0123456789" ∧ (s true).contents = ascii "xyzde" := by
  have hsome : (Machine.exec next runnable twoBuffers (fun _ => emptyFour)).isSome = true := by
    decide +kernel
  obtain ⟨s, hs⟩ := Option.isSome_iff_exists.mp hsome
  have hcheck : ∀ (s : Bool → RawBuffer) (act : BufferAct Bool), runnable s act = true →
      act.Allowed s ∧ act.Fits s := fun _ _ h => of_decide_eq_true h
  have hholds := (buffers_are_queues.2 (fun _ => 4) (fun _ => emptyFour) s twoBuffers
    (fun _ => by unfold kCheapPrepend; omega) (fun _ => by decide +kernel)
    (Machine.run_of_exec hcheck hs)).1
  exact ⟨s, hs, (hholds false).2.trans (by decide +kernel), (hholds true).2.trans (by decide +kernel)⟩

/-- On a new buffer the largest length is asked for: `len + kCheapPrepend` is 7, the data
are moved to make room, and the assertion fails that there is enough. -/
theorem largest_length_fails : ¬ ∀ (n : Nat) (b : RawBuffer) (op : BufferOp), n < 2 ^ 64 →
    RawBuffer.new n = .ok b → op.Allowed b → op.Sound b := by
  intro h
  have hexec : (BufferOp.ensureWritableBytes (2 ^ 64 - 1)).exec emptyFour = .error .assertion := by
    decide +kernel
  rcases h 4 emptyFour (.ensureWritableBytes (2 ^ 64 - 1)) (by omega) (by decide +kernel)
    (show 2 ^ 64 - 1 < 2 ^ 64 by omega) with ⟨b, hdone, -⟩ | ⟨hthrows, -⟩
  · rw [hexec] at hdone
    cases hdone
  · rw [hexec] at hthrows
    cases hthrows

/-! ## The buffer of the connections -/

namespace Buffer

/-- Bytes are appended, while the vector can grow, and retrieved. -/
inductive Uses : Buffer → List BufferOp → Buffer → Prop
  | nil (b : Buffer) : Uses b [] b
  | append {b b' : Buffer} {bytes : Bytes} {ops : List BufferOp}
      (hfits : b.writeIndex + bytes.length ≤ maxSize) (huses : Uses (b.append bytes) ops b') :
      Uses b (.append bytes :: ops) b'
  | retrieve {b b' : Buffer} {n : Nat} {ops : List BufferOp}
      (huses : Uses (b.retrieve n) ops b') : Uses b (.retrieve n :: ops) b'

/-- In any use of a buffer by a connection, the vector and its indices complete every
operation and go through the same states. -/
theorem raw_uses {b b' : Buffer} {ops : List BufferOp} (h : b.buffer.length ≤ maxSize)
    (huses : Uses b ops b') :
    ops.foldlM (fun r op => Prod.fst <$> op.exec r) b.raw = .ok b'.raw := by
  induction huses with
  | nil b => rfl
  | @append b b' bytes ops hfits _ ih =>
      have hraw := raw_append h hfits
      have hlength : (b.append bytes).buffer.length ≤ maxSize := by
        have hbytes : bytes.length ≤ maxSize := le_trans (Nat.le_add_left _ _) hfits
        rcases b.raw.append_spec (valid_raw h) hbytes with ⟨r, hok, hvalid, -⟩ | ⟨hthrows, -⟩
        · obtain rfl := Except.ok.inj (hok.symm.trans hraw)
          exact hvalid.size_le
        · rw [hraw] at hthrows
          cases hthrows
      rw [List.foldlM_cons, BufferOp.exec, hraw]
      exact ih hlength
  | @retrieve b b' n ops _ ih =>
      have hraw := raw_retrieve h n
      have hlength : (b.retrieve n).buffer.length ≤ maxSize := by
        obtain ⟨r, hok, hvalid, -⟩ := b.raw.retrieve_spec (valid_raw h) n
        obtain rfl := Except.ok.inj (hok.symm.trans hraw)
        exact hvalid.size_le
      rw [List.foldlM_cons, BufferOp.exec, hraw]
      exact ih hlength

end Buffer

end SolarDrive.Network
