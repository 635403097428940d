import SolarDrive.Auth.Malleability

/-!
# What is encoded comes back

The encoder is right for every byte string: its text has only url-safe characters,
as few as the bits need, and no two strings share it. The decoder gives the string
back unless one of the groups is 62 or 63.
-/

namespace SolarDrive.Auth

open Lib

/-- `A-Z a-z 0-9 - _`. -/
def isUrlSafe (c : UInt8) : Bool :=
  (65 ≤ c && c ≤ 90) || (97 ≤ c && c ≤ 122) || isDigit c || c == DASH || c == 95

/-- What `base64url_encode` and `base64url_decode` promise for a byte string. -/
structure Restored (data : Bytes) : Prop where
  alphabet : ∀ c ∈ base64urlEncode data, isUrlSafe c = true
  /-- The third of `4 * n`, rounded up. -/
  length : (base64urlEncode data).length = (4 * data.length + 2) / 3
  distinct : ∀ other, other ≠ data → base64urlEncode other ≠ base64urlEncode data
  decoded : base64urlDecode (base64urlEncode data) = some data

section Encoder

variable {data : Bytes}

theorem urlSafe_stdChar : ∀ v < 64, isUrlSafe (toUrlSafe (stdChar v)) = true := by
  simp only [stdChar, stdTable_eq]
  decide +kernel

theorem urlSafe_of_mem_encode {c : UInt8} (h : c ∈ base64urlEncode data) : isUrlSafe c = true := by
  rw [base64urlEncode_eq] at h
  obtain ⟨v, hv, rfl⟩ := List.mem_map.mp h
  exact urlSafe_stdChar v (sextet_lt data v hv)

theorem length_sextets (data : Bytes) : (sextets data).length = (4 * data.length + 2) / 3 := by
  induction data using sextets.induct with
  | case1 => rfl
  | case2 b0 => simp [sextets]
  | case3 b0 b1 => simp [sextets]
  | case4 b0 b1 b2 rest ih =>
      -- three bytes more make four groups more
      simp only [sextets, List.length_cons]
      rw [ih]
      omega

theorem length_base64urlEncode (data : Bytes) :
    (base64urlEncode data).length = (4 * data.length + 2) / 3 := by
  rw [base64urlEncode_eq, List.length_map]
  exact length_sextets data

end Encoder

/-- **Decoding undoes encoding** exactly if no 6-bit group is 62 or 63, the last group
filled up with zeros; the rest of the promise is kept by every string. -/
theorem restored_iff (data : Bytes) : Restored data ↔ Readable data := by
  constructor
  · intro h
    have hdecoded := h.decoded
    rw [base64urlDecode_encode] at hdecoded
    by_contra hunread
    rw [if_neg hunread] at hdecoded
    cases hdecoded
  · intro hread
    refine ⟨?_, length_base64urlEncode data, ?_, ?_⟩
    · intro c hc
      exact urlSafe_of_mem_encode hc
    · intro other hne heq
      exact hne (base64urlEncode_injective heq)
    · rw [base64urlDecode_encode, if_pos hread]

/-- The text of one byte `FF` is `_w`, which is not decoded. -/
theorem all_ones_lost : ¬ ∀ data, Restored data := by
  intro h
  have hlost : base64urlDecode (base64urlEncode [255]) = none := by decide +kernel
  have hdecoded := (h [255]).decoded
  rw [hlost] at hdecoded
  cases hdecoded

end SolarDrive.Auth
