import SolarDrive.Ws.Codec

/-!
# What the decoder copies

`assignRange` is the pair of offsets that `decode` gives to `assign`, in arithmetic
modulo 2^64, and `decode_eq` is the decoder in terms of it. The sum of the two
lengths is not checked, so a client can have the range end before it starts:
`inside_iff` says for which bytes.
-/

namespace SolarDrive.Ws

open Lib

/-- The payload that is declared and the header before it, with the key. -/
def declared (data : Bytes) : Option (Nat × Nat) :=
  if data.length < 2 then none
  else
    match decodeLength data with
    | none => none
    | some (payloadLen, headerLen) =>
        some (payloadLen, if 128 ≤ (data.getD 1 0).toNat then headerLen + 4 else headerLen)

/-- The range of the payload; none when the decoder returns before it is formed. -/
def assignRange (data : Bytes) : Option (Nat × Nat) :=
  match declared data with
  | none => none
  | some (payloadLen, headerLen) =>
      let last := (headerLen + payloadLen) % 2 ^ 64
      if data.length < last then none else some (headerLen, last)

/-- The bytes of a range, with the key before them taken off if there is one. -/
def unmasked (data : Bytes) (first last : Nat) : Bytes :=
  let payload := (data.drop first).take (last - first)
  if 128 ≤ (data.getD 1 0).toNat then applyMask ((data.drop (first - 4)).take 4) payload
  else payload

/-- A long length that wraps around, with so many bytes buffered that it passes for
short: the first byte behind such a payload is one of the header. -/
def Wraps (data : Bytes) : Prop :=
  (data.getD 1 0).toNat % 128 = 127 ∧ 10 ≤ data.length ∧
    let last := (if 128 ≤ (data.getD 1 0).toNat then 14 else 10) + bigEndian ((data.drop 2).take 8)
    2 ^ 64 ≤ last ∧ last - 2 ^ 64 ≤ data.length

instance (data : Bytes) : Decidable (Wraps data) := by
  unfold Wraps
  infer_instance

/-- What a decoder of untrusted bytes owes: a range that is one, within the input,
and either nothing yet or the bytes of that range. -/
structure Inside (data : Bytes) : Prop where
  range : ∀ {first last}, assignRange data = some (first, last) →
    first ≤ last ∧ last ≤ data.length
  result : decode data = .incomplete ∨ ∃ f c payloadLen headerLen,
    decode data = .frame f c ∧ declared data = some (payloadLen, headerLen) ∧
      2 ≤ c ∧ c ≤ data.length ∧ headerLen ≤ c ∧ f.payload.length = c - headerLen ∧
      f.payload = unmasked data headerLen c

section Declared

variable {data : Bytes} {payloadLen headerLen first last : Nat}

/-- Of the lengths that are declared only a long one can be near the end of the type. -/
theorem declared_bounds (h : declared data = some (payloadLen, headerLen)) :
    2 ≤ headerLen ∧ headerLen ≤ 14 ∧ payloadLen < 2 ^ 64 ∧
      (65536 ≤ payloadLen → (data.getD 1 0).toNat % 128 = 127 ∧ 10 ≤ data.length ∧
        headerLen = (if 128 ≤ (data.getD 1 0).toNat then 14 else 10) ∧
        payloadLen = bigEndian ((data.drop 2).take 8)) := by
  unfold declared decodeLength at h
  dsimp only at h
  by_cases hshort : data.length < 2
  · rw [if_pos hshort] at h
    cases h
  rw [if_neg hshort] at h
  by_cases h126 : (data.getD 1 0).toNat % 128 = 126
  · rw [if_pos h126] at h
    by_cases h4 : data.length < 4
    · rw [if_pos h4] at h
      cases h
    · rw [if_neg h4, Option.some.injEq, Prod.mk.injEq] at h
      obtain ⟨rfl, rfl⟩ := h
      have hlt := bigEndian_lt ((data.drop 2).take 2)
      rw [List.length_take_of_le (by rw [List.length_drop]; omega)] at hlt
      refine ⟨?_, ?_, by omega, fun hlong => by omega⟩
      · split <;> omega
      · split <;> omega
  · rw [if_neg h126] at h
    by_cases h127 : (data.getD 1 0).toNat % 128 = 127
    · rw [if_pos h127] at h
      by_cases h10 : data.length < 10
      · rw [if_pos h10] at h
        cases h
      · rw [if_neg h10, Option.some.injEq, Prod.mk.injEq] at h
        obtain ⟨rfl, rfl⟩ := h
        have hlt := bigEndian_lt ((data.drop 2).take 8)
        rw [List.length_take_of_le (by rw [List.length_drop]; omega)] at hlt
        refine ⟨?_, ?_, by omega, fun _ => ⟨h127, by omega, rfl, rfl⟩⟩
        · split <;> omega
        · split <;> omega
    · rw [if_neg h127, Option.some.injEq, Prod.mk.injEq] at h
      obtain ⟨rfl, rfl⟩ := h
      refine ⟨?_, ?_, by omega, fun hlong => by omega⟩
      · split <;> omega
      · split <;> omega

/-- A long length of ten bytes is found. -/
theorem declared_long (h127 : (data.getD 1 0).toNat % 128 = 127) (h10 : 10 ≤ data.length) :
    declared data = some (bigEndian ((data.drop 2).take 8),
      if 128 ≤ (data.getD 1 0).toNat then 14 else 10) := by
  unfold declared decodeLength
  dsimp only
  rw [if_neg (by omega), if_neg (by omega), if_pos h127, if_neg (by omega)]

theorem assignRange_of_declared (h : declared data = some (payloadLen, headerLen)) :
    assignRange data =
      if data.length < (headerLen + payloadLen) % 2 ^ 64 then none
      else some (headerLen, (headerLen + payloadLen) % 2 ^ 64) := by
  unfold assignRange
  rw [h]

theorem assignRange_some (h : assignRange data = some (first, last)) :
    ∃ payloadLen, declared data = some (payloadLen, first) ∧
      last = (first + payloadLen) % 2 ^ 64 ∧ last ≤ data.length := by
  unfold assignRange at h
  cases hdeclared : declared data with
  | none =>
      rw [hdeclared] at h
      cases h
  | some p =>
      rw [hdeclared] at h
      dsimp only at h
      split at h
      · cases h
      · rename_i hlong
        rw [Option.some.injEq, Prod.mk.injEq] at h
        obtain ⟨rfl, rfl⟩ := h
        exact ⟨p.1, rfl, rfl, Nat.le_of_not_lt hlong⟩

/-- The range ends before it starts exactly when the sum of the lengths wraps. -/
theorem wrapped_iff (h : declared data = some (payloadLen, headerLen)) :
    (headerLen + payloadLen) % 2 ^ 64 < headerLen ↔ 2 ^ 64 ≤ headerLen + payloadLen := by
  obtain ⟨htwo, hshort, hfits, -⟩ := declared_bounds h
  omega

theorem wraps_iff : Wraps data ↔ ∃ first last, assignRange data = some (first, last) ∧
    last < first := by
  constructor
  · rintro ⟨h127, h10, hwrap, hbuffered⟩
    have hdeclared := declared_long h127 h10
    obtain ⟨-, hshort, hfits, -⟩ := declared_bounds hdeclared
    refine ⟨_, _, ?_, (wrapped_iff hdeclared).mpr hwrap⟩
    rw [assignRange_of_declared hdeclared, if_neg (by omega)]
  · rintro ⟨first, last, hrange, hlt⟩
    obtain ⟨payloadLen, hdeclared, rfl, hbuffered⟩ := assignRange_some hrange
    have hwrap := (wrapped_iff hdeclared).mp hlt
    obtain ⟨-, hshort, hfits, hlong⟩ := declared_bounds hdeclared
    obtain ⟨h127, h10, rfl, rfl⟩ := hlong (by omega)
    exact ⟨h127, h10, hwrap, by omega⟩

end Declared

/-- The decoder from the range: a frame takes all up to its end. -/
theorem decode_eq (data : Bytes) : decode data =
    match assignRange data with
    | none => .incomplete
    | some (first, last) =>
        if last < first then .lengthError
        else .frame
          { opcode := data.getD 0 0 &&& 0x0F, fin := decide (128 ≤ (data.getD 0 0).toNat)
            masked := decide (128 ≤ (data.getD 1 0).toNat), payload := unmasked data first last }
          last := by
  cases hdeclared : declared data with
  | none =>
      have hrange : assignRange data = none := by
        unfold assignRange
        rw [hdeclared]
      rw [hrange]
      unfold declared at hdeclared
      unfold decode
      split at hdeclared
      · rename_i hshort
        rw [if_pos hshort]
      · rename_i hshort
        rw [if_neg hshort]
        cases hlength : decodeLength data with
        | none => rfl
        | some p =>
            rw [hlength] at hdeclared
            cases hdeclared
  | some p =>
      obtain ⟨payloadLen, headerLen⟩ := p
      have hwrap := wrapped_iff hdeclared
      rw [assignRange_of_declared hdeclared]
      unfold declared at hdeclared
      unfold decode
      split at hdeclared
      · cases hdeclared
      · rename_i hshort
        rw [if_neg hshort]
        cases hlength : decodeLength data with
        | none =>
            rw [hlength] at hdeclared
            cases hdeclared
        | some q =>
            rw [hlength] at hdeclared
            simp only [Option.some.injEq, Prod.mk.injEq] at hdeclared
            obtain ⟨hpayload, hheader⟩ := hdeclared
            simp only [decide_eq_true_eq, hheader, hpayload]
            by_cases hmore : data.length < (headerLen + payloadLen) % 2 ^ 64
            · rw [if_pos hmore, if_pos hmore]
            · rw [if_neg hmore, if_neg hmore]
              dsimp only
              -- only a sum that wraps around puts the end before the start
              by_cases hover : 2 ^ 64 ≤ headerLen + payloadLen
              · rw [if_pos hover, if_pos (hwrap.mpr hover)]
              · rw [if_neg hover, if_neg (fun h => hover (hwrap.mp h))]
                have hlast : (headerLen + payloadLen) % 2 ^ 64 = headerLen + payloadLen :=
                  Nat.mod_eq_of_lt (Nat.lt_of_not_le hover)
                rw [hlast]
                unfold unmasked
                rw [Nat.add_sub_cancel_left]

theorem length_unmasked {data : Bytes} {first last : Nat} (hlast : last ≤ data.length) :
    (unmasked data first last).length = last - first := by
  have htake : ((data.drop first).take (last - first)).length = last - first :=
    List.length_take_of_le (by rw [List.length_drop]; omega)
  unfold unmasked
  dsimp only
  split
  · rw [length_applyMask, htake]
  · exact htake

/-- The decoder stays inside its input exactly when no length wraps around. -/
theorem inside_iff (data : Bytes) : Inside data ↔ ¬ Wraps data := by
  constructor
  · intro h hwraps
    obtain ⟨first, last, hrange, hlt⟩ := wraps_iff.mp hwraps
    exact absurd (h.range hrange).1 (Nat.not_le.mpr hlt)
  · intro hwraps
    have hrange : ∀ {first last}, assignRange data = some (first, last) →
        first ≤ last ∧ last ≤ data.length := by
      intro first last hsome
      obtain ⟨payloadLen, -, -, hbuffered⟩ := assignRange_some hsome
      refine ⟨?_, hbuffered⟩
      by_contra hlt
      exact hwraps (wraps_iff.mpr ⟨first, last, hsome, Nat.lt_of_not_le hlt⟩)
    refine ⟨hrange, ?_⟩
    have hdecode := decode_eq data
    cases hsome : assignRange data with
    | none =>
        rw [hsome] at hdecode
        exact .inl hdecode
    | some r =>
        obtain ⟨first, last⟩ := r
        obtain ⟨hle, hlast⟩ := hrange hsome
        obtain ⟨payloadLen, hdeclared, -, -⟩ := assignRange_some hsome
        have htwo := (declared_bounds hdeclared).1
        rw [hsome] at hdecode
        dsimp only at hdecode
        rw [if_neg (Nat.not_lt.mpr hle)] at hdecode
        exact .inr ⟨_, last, payloadLen, first, hdecode, hdeclared, by omega, hlast, hle,
          length_unmasked hlast, rfl⟩

/-- Ten bytes that declare 2^64 - 10 more. -/
def wrappingHeader : Bytes := [0x82, 127, 0xFF, 0xFF, 0xFF, 0xFF, 0xFF, 0xFF, 0xFF, 0xF6]

theorem wrappingHeader_outside : ¬ ∀ data : Bytes, data.length < 2 ^ 63 → Inside data := by
  intro h
  have hrange : assignRange wrappingHeader = some (10, 0) := by decide +kernel
  exact absurd ((h wrappingHeader (by decide)).range hrange).1 (by decide)

end SolarDrive.Ws
