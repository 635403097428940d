import SolarDrive.Api.Upload
import SolarDrive.Lib.QueryText

/-!
# File names on their way from the client

The front end puts the name through `encodeURIComponent` into `X-File-Name`, and
`url_decode` takes it back. A percent sign is an escape if two hex digits follow it,
and stands for itself otherwise; two lemmas, one for either case, are all that is
used of the loop.
-/

namespace SolarDrive.Api

open Lib Http

/-- Two hex digits come first. -/
def startsWithHexPair : Bytes → Bool
  | h :: l :: _ => (hexPair h l).isSome
  | _ => false

section Decoding

variable {c h l b : UInt8} {text encoded : Bytes}

/-! ## One step of the loop -/

theorem urlDecode_escape (hpair : hexPair h l = some b) :
    urlDecode (PERCENT :: h :: l :: text) = b :: urlDecode text := by
  have hcond : PERCENT = 37 ∧ (hexPair h l).isSome = true := ⟨rfl, by rw [hpair]; rfl⟩
  rw [urlDecode, if_pos hcond, hpair]
  rfl

theorem urlDecode_literal (hnot : c = PERCENT → startsWithHexPair text = false) :
    urlDecode (c :: text) = plusToBlank c :: urlDecode text := by
  match text with
  | [] => rfl
  | [d] => rfl
  | h :: l :: rest =>
      rw [urlDecode, if_neg]
      rintro ⟨rfl, hpair⟩
      have hnone : (hexPair h l).isSome = false := hnot rfl
      rw [hnone] at hpair
      cases hpair

/-! ## Digits -/

theorem hexValue_of_digit : ∀ d < 16,
    hexValue (hexDigit d) = some d ∧ hexValue (upperHexDigit d) = some d := by decide +kernel

theorem hexValue_digit {d : Nat} (hd : d < 16) (hc : IsHexDigitOf d c) : hexValue c = some d := by
  rcases hc with rfl | rfl
  · exact (hexValue_of_digit d hd).1
  · exact (hexValue_of_digit d hd).2

/-- The digits of a byte, in either case, stand for it. -/
theorem hexPair_digits (hh : IsHexDigitOf (c.toNat / 16) h) (hl : IsHexDigitOf (c.toNat % 16) l) :
    hexPair h l = some c := by
  have hc := c.toNat_lt
  have hjoin : c.toNat / 16 * 16 + c.toNat % 16 = c.toNat := by omega
  unfold hexPair
  rw [hexValue_digit (by omega) hh, hexValue_digit (by omega) hl]
  simp only [hjoin, UInt8.ofNat_toNat]

/-- What is not escaped is neither a percent sign nor a plus sign. -/
theorem unreserved_special : isUriUnreserved PERCENT = false ∧ isUriUnreserved PLUS = false := by
  decide

/-! ## Whole texts -/

theorem urlDecode_percentEncodes (h : PercentEncodes text encoded) : urlDecode encoded = text := by
  induction h with
  | nil => rfl
  | @plain c text encoded hc _ ih =>
      have hpercent : c ≠ PERCENT := by
        rintro rfl
        rw [unreserved_special.1] at hc
        cases hc
      have hplus : c ≠ PLUS := by
        rintro rfl
        rw [unreserved_special.2] at hc
        cases hc
      rw [urlDecode_literal fun h => absurd h hpercent, ih, plusToBlank, if_neg hplus]
  | escaped _ hh hl _ ih => rw [urlDecode_escape (hexPair_digits hh hl), ih]

theorem length_urlDecode_le (text : Bytes) : (urlDecode text).length ≤ text.length := by
  induction text using urlDecode.induct with
  | case1 => exact Nat.le_refl 0
  | case2 c => exact Nat.le_refl 1
  | case3 c d => exact Nat.le_refl 2
  | case4 c h l rest hcond ih =>
      rw [urlDecode, if_pos hcond]
      simp only [List.length_cons]
      omega
  | case5 c h l rest hcond ih =>
      rw [urlDecode, if_neg hcond]
      simp only [List.length_cons] at ih ⊢
      omega

/-- A percent sign is no digit, so no escape reaches over one. -/
theorem noPair_percent (text : Bytes) : startsWithHexPair (PERCENT :: text) = false ∧
    startsWithHexPair (c :: PERCENT :: text) = false := by
  have hpercent : hexValue PERCENT = none := by decide
  constructor
  · cases text with
    | nil => rfl
    | cons l text => simp [startsWithHexPair, hexPair, hpercent]
  · simp [startsWithHexPair, hexPair, hpercent]

/-- A percent sign that begins no escape is kept, whatever stands before it. -/
theorem urlDecode_percent (before : Bytes) {after : Bytes} (hnot : startsWithHexPair after = false) :
    urlDecode (before ++ PERCENT :: after) = urlDecode before ++ PERCENT :: urlDecode after := by
  have hpercent : urlDecode (PERCENT :: after) = PERCENT :: urlDecode after :=
    urlDecode_literal fun _ => hnot
  induction before using urlDecode.induct with
  | case1 => exact hpercent
  | case2 c =>
      show urlDecode (c :: PERCENT :: after) = plusToBlank c :: PERCENT :: urlDecode after
      rw [urlDecode_literal fun _ => (noPair_percent (c := c) after).1, hpercent]
  | case3 c d =>
      show urlDecode (c :: d :: PERCENT :: after) =
        plusToBlank c :: plusToBlank d :: PERCENT :: urlDecode after
      rw [urlDecode_literal fun _ => (noPair_percent after).2,
        urlDecode_literal fun _ => (noPair_percent (c := c) after).1, hpercent]
  | case4 c h l rest hcond ih =>
      obtain ⟨rfl, hpair⟩ := hcond
      obtain ⟨b, hb⟩ := Option.isSome_iff_exists.mp hpair
      show urlDecode (PERCENT :: h :: l :: (rest ++ PERCENT :: after)) =
        urlDecode (PERCENT :: h :: l :: rest) ++ PERCENT :: urlDecode after
      rw [urlDecode_escape hb, urlDecode_escape hb, ih]
      rfl
  | case5 c h l rest hcond ih =>
      have hnone : c = PERCENT → (hexPair h l).isSome = false := by
        intro hc
        rw [← Bool.not_eq_true]
        exact fun hpair => hcond ⟨hc, hpair⟩
      show urlDecode (c :: h :: l :: (rest ++ PERCENT :: after)) =
        urlDecode (c :: h :: l :: rest) ++ PERCENT :: urlDecode after
      have hshort : urlDecode (c :: h :: l :: rest) = plusToBlank c :: urlDecode (h :: l :: rest) :=
        urlDecode_literal hnone
      rw [urlDecode_literal hnone, hshort, List.cons_append, ← ih]
      rfl

end Decoding

/-- **The client's names come back**, with the digits of an escape in either case; no text
grows, and a percent sign without two digits behind it stays. -/
theorem file_names_decoded :
    (∀ name encoded, PercentEncodes name encoded → urlDecode encoded = name) ∧
    (∀ text, (urlDecode text).length ≤ text.length) ∧
    ∀ before after, startsWithHexPair after = false →
      urlDecode (before ++ PERCENT :: after) = urlDecode before ++ PERCENT :: urlDecode after :=
  ⟨fun _ _ h => urlDecode_percentEncodes h, length_urlDecode_le,
    fun before _ h => urlDecode_percent before h⟩

/-- A name `%+é.` whose escapes mix the cases, and percent signs at the end of a text. -/
theorem mixed_case_decoded :
    urlDecode (ascii "%25%2b%c3%A9.") = [PERCENT, PLUS, 0xC3, 0xA9, DOT] ∧
    urlDecode (ascii "50%%4") = ascii "50%%4" := by
  constructor
  · apply file_names_decoded.1
    refine .escaped (by decide) (Or.inl rfl) (Or.inl rfl) ?_
    refine .escaped (by decide) (Or.inl rfl) (Or.inl rfl) ?_
    refine .escaped (by decide) (Or.inl rfl) (Or.inl rfl) ?_
    refine .escaped (by decide) (Or.inr rfl) (Or.inl rfl) ?_
    exact .plain (by decide) .nil
  · exact file_names_decoded.2.2 (ascii "50%") (ascii "4") (by decide)

end SolarDrive.Api
