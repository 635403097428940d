import SolarDrive.Lib.Bytes
import Mathlib.Data.List.DropRight
import Mathlib.Data.List.GetD

/-!
# base64url, as `JwtUtil` implements it

The encoder indexes the standard table and then swaps `+`, `/` for `-`, `_`.
The decoder swaps them back to `+`, `/` and then looks the characters up in a
reverse table built from the url-safe alphabet, where `+` and `/` are missing:
the two characters that stand for 62 and 63 are never decoded. So decoding
undoes encoding exactly on the texts none of whose 6-bit groups is 62 or 63
(`base64urlDecode_encode`).

Indices and shifts are those of C++ `int`, written on `Nat`.
-/

namespace SolarDrive.Auth

open Lib

def stdTable : Bytes := ascii "ABCDEFGHIJKLMNOPQRSTUVWXYZabcdefghijklmnopqrstuvwxyz0123456789+/"

def b64Table : Bytes := ascii "ABCDEFGHIJKLMNOPQRSTUVWXYZabcdefghijklmnopqrstuvwxyz0123456789-_"

/-- The 6-bit groups the encoder's loop indexes the table with. -/
def sextets : Bytes → List Nat
  | [] => []
  | [b0] => [b0.toNat >>> 2, (b0.toNat &&& 3) <<< 4 ||| 0 >>> 4]
  | [b0, b1] =>
      [b0.toNat >>> 2, (b0.toNat &&& 3) <<< 4 ||| b1.toNat >>> 4,
        (b1.toNat &&& 15) <<< 2 ||| 0 >>> 6]
  | b0 :: b1 :: b2 :: rest =>
      b0.toNat >>> 2 :: ((b0.toNat &&& 3) <<< 4 ||| b1.toNat >>> 4) ::
        ((b1.toNat &&& 15) <<< 2 ||| b2.toNat >>> 6) :: (b2.toNat &&& 63) :: sextets rest

/-- `+` to `-` and `/` to `_`. -/
def toUrlSafe (c : UInt8) : UInt8 :=
  if c = PLUS then DASH else if c = SLASH then 95 else c

/-- `-` to `+` and `_` to `/`. -/
def fromUrlSafe (c : UInt8) : UInt8 :=
  if c = DASH then PLUS else if c = 95 then SLASH else c

def base64urlEncode (data : Bytes) : Bytes :=
  (((sextets data).map fun v => stdTable.getD v 0).rdropWhile (· == EQUALS)).map toUrlSafe

/-- The reverse table: 255 off the alphabet. -/
def dec (c : UInt8) : Nat :=
  if c ∈ b64Table then b64Table.idxOf c else 255

/-- `=` until the length is a multiple of four. -/
def padded (input : Bytes) : Bytes :=
  input ++ List.replicate ((4 - input.length % 4) % 4) EQUALS

/-- One block of four characters. -/
def decodeBlock (a b c d : UInt8) : Option Bytes :=
  if dec a = 255 ∨ dec b = 255 then none
  else
    let o0 := UInt8.ofNat (dec a <<< 2 ||| dec b >>> 4)
    if c = EQUALS then some [o0]
    else if dec c = 255 then none
    else
      let o1 := UInt8.ofNat ((dec b &&& 15) <<< 4 ||| dec c >>> 2)
      if d = EQUALS then some [o0, o1]
      else if dec d = 255 then none
      else some [o0, o1, UInt8.ofNat ((dec c &&& 3) <<< 6 ||| dec d)]

def decodeBlocks : Bytes → Option Bytes
  | a :: b :: c :: d :: rest =>
      match decodeBlock a b c d with
      | none => none
      | some out => (decodeBlocks rest).map (out ++ ·)
  | _ => some []

def base64urlDecode (str : Bytes) : Option Bytes :=
  decodeBlocks (padded (str.map fromUrlSafe))

/-! ## Bit groups as arithmetic -/

theorem or_join {i y : Nat} (h : y < 2 ^ i) (x : Nat) : x <<< i ||| y = x * 2 ^ i + y := by
  rw [← Nat.shiftLeft_add_eq_or_of_lt h, Nat.shiftLeft_eq]

theorem sextet_first (x : Nat) : x >>> 2 = x / 4 := Nat.shiftRight_eq_div_pow x 2

theorem sextet_second (x : Nat) {y : Nat} (hy : y < 256) :
    (x &&& 3) <<< 4 ||| y >>> 4 = x % 4 * 16 + y / 16 := by
  have h : y >>> 4 < 2 ^ 4 := by rw [Nat.shiftRight_eq_div_pow]; omega
  rw [or_join h, Nat.and_two_pow_sub_one_eq_mod x 2, Nat.shiftRight_eq_div_pow]
  rfl

theorem sextet_third (y : Nat) {z : Nat} (hz : z < 256) :
    (y &&& 15) <<< 2 ||| z >>> 6 = y % 16 * 4 + z / 64 := by
  have h : z >>> 6 < 2 ^ 2 := by rw [Nat.shiftRight_eq_div_pow]; omega
  rw [or_join h, Nat.and_two_pow_sub_one_eq_mod y 4, Nat.shiftRight_eq_div_pow]
  rfl

theorem sextet_fourth (z : Nat) : z &&& 63 = z % 64 := Nat.and_two_pow_sub_one_eq_mod z 6

theorem octet_first (u : Nat) {v : Nat} (hv : v < 64) : u <<< 2 ||| v >>> 4 = u * 4 + v / 16 := by
  have h : v >>> 4 < 2 ^ 2 := by rw [Nat.shiftRight_eq_div_pow]; omega
  rw [or_join h, Nat.shiftRight_eq_div_pow]
  rfl

theorem octet_second (v : Nat) {w : Nat} (hw : w < 64) :
    (v &&& 15) <<< 4 ||| w >>> 2 = v % 16 * 16 + w / 4 := by
  have h : w >>> 2 < 2 ^ 4 := by rw [Nat.shiftRight_eq_div_pow]; omega
  rw [or_join h, Nat.and_two_pow_sub_one_eq_mod v 4, Nat.shiftRight_eq_div_pow]
  rfl

theorem octet_third (w : Nat) {x : Nat} (hx : x < 64) :
    (w &&& 3) <<< 6 ||| x = w % 4 * 64 + x := by
  rw [or_join (show x < 2 ^ 6 from hx), Nat.and_two_pow_sub_one_eq_mod w 2]
  rfl

theorem sextets_one (b0 : UInt8) :
    sextets [b0] = [b0.toNat / 4, b0.toNat % 4 * 16] := by
  have h := sextet_second b0.toNat (y := 0) (by omega)
  rw [sextets, sextet_first, h]
  rfl

theorem sextets_two (b0 b1 : UInt8) :
    sextets [b0, b1] =
      [b0.toNat / 4, b0.toNat % 4 * 16 + b1.toNat / 16, b1.toNat % 16 * 4] := by
  have h := sextet_third b1.toNat (z := 0) (by omega)
  rw [sextets, sextet_first, sextet_second _ b1.toNat_lt, h]
  rfl

theorem sextets_three (b0 b1 b2 : UInt8) (rest : Bytes) :
    sextets (b0 :: b1 :: b2 :: rest) =
      b0.toNat / 4 :: (b0.toNat % 4 * 16 + b1.toNat / 16) ::
        (b1.toNat % 16 * 4 + b2.toNat / 64) :: b2.toNat % 64 :: sextets rest := by
  rw [sextets, sextet_first, sextet_second _ b1.toNat_lt, sextet_third _ b2.toNat_lt,
    sextet_fourth]

theorem sextet_lt : ∀ (data : Bytes), ∀ v ∈ sextets data, v < 64
  | [], v, h => by simp [sextets] at h
  | [b0], v, h => by
      have h0 := b0.toNat_lt
      simp only [sextets_one, List.mem_cons, List.not_mem_nil, or_false] at h
      omega
  | [b0, b1], v, h => by
      have h0 := b0.toNat_lt
      have h1 := b1.toNat_lt
      simp only [sextets_two, List.mem_cons, List.not_mem_nil, or_false] at h
      omega
  | b0 :: b1 :: b2 :: rest, v, h => by
      have h0 := b0.toNat_lt
      have h1 := b1.toNat_lt
      have h2 := b2.toNat_lt
      rw [sextets_three] at h
      simp only [List.mem_cons] at h
      rcases h with h | h | h | h | h
      · omega
      · omega
      · omega
      · omega
      · exact sextet_lt rest v h

/-! ## The two tables -/

/-- What the encoder writes for a 6-bit group before the swap. -/
def stdChar (v : Nat) : UInt8 := stdTable.getD v 0

/-- `A` to `Z`, `a` to `z` and `0` to `9`. -/
def alphanumerics : Bytes :=
  (List.range' 65 26 ++ List.range' 97 26 ++ List.range' 48 10).map UInt8.ofNat

theorem stdTable_eq : stdTable = alphanumerics ++ [PLUS, SLASH] := (ascii_ofList _).trans rfl

theorem b64Table_eq : b64Table = alphanumerics ++ [DASH, 95] := (ascii_ofList _).trans rfl

theorem nodup_tables : stdTable.Nodup ∧ b64Table.Nodup := by
  have hcodes : (stdTable.map UInt8.toNat).Nodup ∧ (b64Table.map UInt8.toNat).Nodup := by
    rw [stdTable_eq, b64Table_eq]
    decide +kernel
  exact ⟨hcodes.1.of_map, hcodes.2.of_map⟩

/-- No character is written as `=` or as a dot, and the swaps undo each other. -/
theorem stdChar_spec : ∀ v < 64, stdChar v ≠ EQUALS ∧
    fromUrlSafe (toUrlSafe (stdChar v)) = stdChar v ∧ toUrlSafe (stdChar v) ≠ DOT := by
  simp only [stdChar, stdTable_eq]
  decide +kernel

theorem stdChar_ne_equals (v : Nat) (hv : v < 64) : stdChar v ≠ EQUALS := (stdChar_spec v hv).1

theorem fromUrlSafe_toUrlSafe (v : Nat) (hv : v < 64) :
    fromUrlSafe (toUrlSafe (stdChar v)) = stdChar v := (stdChar_spec v hv).2.1

theorem urlSafe_ne_dot (v : Nat) (hv : v < 64) : toUrlSafe (stdChar v) ≠ DOT :=
  (stdChar_spec v hv).2.2

/-- Below 62 the two tables agree. -/
theorem stdChar_of_lt {v : Nat} (hv : v < 62) :
    ∃ h : v < b64Table.length, stdChar v = b64Table[v] := by
  have hlen : v < alphanumerics.length := hv
  have hboth : v < b64Table.length := by
    rw [b64Table_eq, List.length_append]
    exact Nat.lt_add_right 2 hlen
  refine ⟨hboth, ?_⟩
  rw [stdChar, stdTable_eq, List.getD_append _ _ _ _ hlen, List.getD_eq_getElem _ _ hlen]
  simp only [b64Table_eq, List.getElem_append_left hlen]

/-- The reverse table undoes the forward one below 62 only. -/
theorem dec_stdChar : ∀ v < 64, dec (stdChar v) = if v < 62 then v else 255 := by
  intro v hv
  unfold dec
  by_cases hlow : v < 62
  · obtain ⟨hlen, hchar⟩ := stdChar_of_lt hlow
    rw [if_pos hlow, hchar, if_pos (List.getElem_mem hlen), nodup_tables.2.idxOf_getElem v hlen]
  · have hlast : stdChar 62 ∉ b64Table ∧ stdChar 63 ∉ b64Table := by
      simp only [stdChar, stdTable_eq, b64Table_eq]
      decide +kernel
    rw [if_neg hlow]
    obtain rfl | rfl : v = 62 ∨ v = 63 := by omega
    · exact if_neg hlast.1
    · exact if_neg hlast.2

theorem base64urlEncode_eq (data : Bytes) :
    base64urlEncode data = (sextets data).map fun v => toUrlSafe (stdChar v) := by
  have hpad : ((sextets data).map stdChar).rdropWhile (· == EQUALS) =
      (sextets data).map stdChar := by
    apply List.rdropWhile_eq_self_iff.mpr
    intro hne
    obtain ⟨v, hv, he⟩ := List.mem_map.mp (List.getLast_mem hne)
    rw [← he]
    simpa using stdChar_ne_equals v (sextet_lt data v hv)
  show (((sextets data).map stdChar).rdropWhile (· == EQUALS)).map toUrlSafe = _
  rw [hpad, List.map_map, Function.comp_def]

/-- Encoded text has no dot, so it survives the splitting of a token. -/
theorem dot_not_mem_base64urlEncode (data : Bytes) : DOT ∉ base64urlEncode data := by
  rw [base64urlEncode_eq]
  intro h
  obtain ⟨v, hv, he⟩ := List.mem_map.mp h
  exact urlSafe_ne_dot v (sextet_lt data v hv) he

/-! ## Decoding what was encoded -/

theorem padded_cons4 (a b c d : UInt8) (s : Bytes) :
    padded (a :: b :: c :: d :: s) = a :: b :: c :: d :: padded s := by
  have hlen : (a :: b :: c :: d :: s).length % 4 = s.length % 4 := by
    simp only [List.length_cons]
    omega
  simp only [padded, hlen, List.cons_append]

theorem ofNat_toNat_eq {n : Nat} {b : UInt8} (h : n = b.toNat) : UInt8.ofNat n = b := by
  rw [h, UInt8.ofNat_toNat]

/-- The groups of a text that the reverse table can read. -/
def Readable (data : Bytes) : Prop := ∀ v ∈ sextets data, v < 62

instance (data : Bytes) : Decidable (Readable data) :=
  inferInstanceAs (Decidable (∀ v ∈ sextets data, v < 62))

/-- A character of the alphabet, as the decoder's guards see it. -/
theorem dec_stdChar_eq_255 {v : Nat} (hv : v < 64) : dec (stdChar v) = 255 ↔ ¬ v < 62 := by
  rw [dec_stdChar v hv]
  split <;> omega

theorem dec_stdChar_of_lt {v : Nat} (hv : v < 62) : dec (stdChar v) = v := by
  rw [dec_stdChar v (by omega), if_pos hv]

theorem decodeBlock_three {b0 b1 b2 : UInt8} :
    decodeBlock (stdChar (b0.toNat / 4)) (stdChar (b0.toNat % 4 * 16 + b1.toNat / 16))
        (stdChar (b1.toNat % 16 * 4 + b2.toNat / 64)) (stdChar (b2.toNat % 64)) =
      if b0.toNat / 4 < 62 ∧ b0.toNat % 4 * 16 + b1.toNat / 16 < 62 ∧
          b1.toNat % 16 * 4 + b2.toNat / 64 < 62 ∧ b2.toNat % 64 < 62
      then some [b0, b1, b2] else none := by
  have h0 := b0.toNat_lt
  have h1 := b1.toNat_lt
  have h2 := b2.toNat_lt
  generalize hu : b0.toNat / 4 = u
  generalize hv : b0.toNat % 4 * 16 + b1.toNat / 16 = v
  generalize hw : b1.toNat % 16 * 4 + b2.toNat / 64 = w
  generalize hx : b2.toNat % 64 = x
  have hu' : u < 64 := by omega
  have hv' : v < 64 := by omega
  have hw' : w < 64 := by omega
  have hx' : x < 64 := by omega
  unfold decodeBlock
  simp only [dec_stdChar_eq_255 hu', dec_stdChar_eq_255 hv', dec_stdChar_eq_255 hw',
    dec_stdChar_eq_255 hx', if_neg (stdChar_ne_equals w hw'), if_neg (stdChar_ne_equals x hx')]
  by_cases hab : ¬ u < 62 ∨ ¬ v < 62
  · rw [if_pos hab, if_neg (by tauto)]
  · rw [if_neg hab]
    by_cases hc : w < 62
    · by_cases hd : x < 62
      · rw [if_neg (not_not.mpr hc), if_neg (not_not.mpr hd), if_pos (by tauto),
          dec_stdChar_of_lt (by tauto), dec_stdChar_of_lt (by tauto), dec_stdChar_of_lt hc,
          dec_stdChar_of_lt hd, octet_first _ hv', octet_second _ hw', octet_third _ hx',
          ofNat_toNat_eq (b := b0) (by omega), ofNat_toNat_eq (b := b1) (by omega),
          ofNat_toNat_eq (b := b2) (by omega)]
      · rw [if_neg (not_not.mpr hc), if_pos hd, if_neg (by tauto)]
    · rw [if_pos hc, if_neg (by tauto)]

theorem decodeBlock_two {b0 b1 : UInt8} :
    decodeBlock (stdChar (b0.toNat / 4)) (stdChar (b0.toNat % 4 * 16 + b1.toNat / 16))
        (stdChar (b1.toNat % 16 * 4)) EQUALS =
      if b0.toNat / 4 < 62 ∧ b0.toNat % 4 * 16 + b1.toNat / 16 < 62 ∧ b1.toNat % 16 * 4 < 62
      then some [b0, b1] else none := by
  have h0 := b0.toNat_lt
  have h1 := b1.toNat_lt
  generalize hu : b0.toNat / 4 = u
  generalize hv : b0.toNat % 4 * 16 + b1.toNat / 16 = v
  generalize hw : b1.toNat % 16 * 4 = w
  have hu' : u < 64 := by omega
  have hv' : v < 64 := by omega
  have hw' : w < 64 := by omega
  unfold decodeBlock
  simp only [dec_stdChar_eq_255 hu', dec_stdChar_eq_255 hv', dec_stdChar_eq_255 hw',
    if_neg (stdChar_ne_equals w hw'), if_true]
  by_cases hab : ¬ u < 62 ∨ ¬ v < 62
  · rw [if_pos hab, if_neg (by tauto)]
  · rw [if_neg hab]
    by_cases hc : w < 62
    · rw [if_neg (not_not.mpr hc), if_pos (by tauto), dec_stdChar_of_lt (by tauto),
        dec_stdChar_of_lt (by tauto), dec_stdChar_of_lt hc, octet_first _ hv', octet_second _ hw',
        ofNat_toNat_eq (b := b0) (by omega), ofNat_toNat_eq (b := b1) (by omega)]
    · rw [if_pos hc, if_neg (by tauto)]

theorem decodeBlock_one {b0 : UInt8} :
    decodeBlock (stdChar (b0.toNat / 4)) (stdChar (b0.toNat % 4 * 16)) EQUALS EQUALS =
      if b0.toNat / 4 < 62 ∧ b0.toNat % 4 * 16 < 62 then some [b0] else none := by
  have h0 := b0.toNat_lt
  generalize hu : b0.toNat / 4 = u
  generalize hv : b0.toNat % 4 * 16 = v
  have hu' : u < 64 := by omega
  have hv' : v < 64 := by omega
  unfold decodeBlock
  simp only [dec_stdChar_eq_255 hu', dec_stdChar_eq_255 hv', if_true]
  by_cases hab : ¬ u < 62 ∨ ¬ v < 62
  · rw [if_pos hab, if_neg (by tauto)]
  · obtain ⟨hu62, hv62⟩ : u < 62 ∧ v < 62 := by tauto
    rw [if_neg hab, if_pos ⟨hu62, hv62⟩, dec_stdChar_of_lt hu62, dec_stdChar_of_lt hv62,
      octet_first _ hv', ofNat_toNat_eq (b := b0) (by omega)]

theorem decodeBlocks_padded_sextets : ∀ data : Bytes,
    decodeBlocks (padded ((sextets data).map stdChar)) =
      if Readable data then some data else none
  | [] => by rfl
  -- the last one or two bytes make a block with padding
  | [b0] => by
      have hpad : padded ((sextets [b0]).map stdChar) =
          [stdChar (b0.toNat / 4), stdChar (b0.toNat % 4 * 16), EQUALS, EQUALS] := by
        rw [sextets_one]
        rfl
      have hread : Readable [b0] ↔ b0.toNat / 4 < 62 ∧ b0.toNat % 4 * 16 < 62 := by
        simp [Readable, sextets_one]
      rw [hpad, decodeBlocks, decodeBlock_one]
      simp only [hread]
      by_cases h : b0.toNat / 4 < 62 ∧ b0.toNat % 4 * 16 < 62
      · simp only [if_pos h]
        rfl
      · simp only [if_neg h]
  | [b0, b1] => by
      have hpad : padded ((sextets [b0, b1]).map stdChar) =
          [stdChar (b0.toNat / 4), stdChar (b0.toNat % 4 * 16 + b1.toNat / 16),
            stdChar (b1.toNat % 16 * 4), EQUALS] := by
        rw [sextets_two]
        rfl
      have hread : Readable [b0, b1] ↔ b0.toNat / 4 < 62 ∧
          b0.toNat % 4 * 16 + b1.toNat / 16 < 62 ∧ b1.toNat % 16 * 4 < 62 := by
        simp [Readable, sextets_two]
      rw [hpad, decodeBlocks, decodeBlock_two]
      simp only [hread]
      by_cases h : b0.toNat / 4 < 62 ∧ b0.toNat % 4 * 16 + b1.toNat / 16 < 62 ∧
          b1.toNat % 16 * 4 < 62
      · simp only [if_pos h]
        rfl
      · simp only [if_neg h]
  | b0 :: b1 :: b2 :: rest => by
      have hread : Readable (b0 :: b1 :: b2 :: rest) ↔
          (b0.toNat / 4 < 62 ∧ b0.toNat % 4 * 16 + b1.toNat / 16 < 62 ∧
            b1.toNat % 16 * 4 + b2.toNat / 64 < 62 ∧ b2.toNat % 64 < 62) ∧ Readable rest := by
        simp only [Readable, sextets_three, List.forall_mem_cons]
        tauto
      have ih := decodeBlocks_padded_sextets rest
      rw [sextets_three, List.map_cons, List.map_cons, List.map_cons, List.map_cons,
        padded_cons4, decodeBlocks, decodeBlock_three, ih]
      simp only [hread]
      by_cases h : b0.toNat / 4 < 62 ∧ b0.toNat % 4 * 16 + b1.toNat / 16 < 62 ∧
          b1.toNat % 16 * 4 + b2.toNat / 64 < 62 ∧ b2.toNat % 64 < 62
      · by_cases hr : Readable rest
        · simp only [if_pos h, if_pos hr, if_pos (And.intro h hr)]
          rfl
        · simp only [if_pos h, if_neg hr, if_neg (fun hc : _ ∧ _ => hr hc.2)]
          rfl
      · simp only [if_neg h, if_neg (fun hc : _ ∧ _ => h hc.1)]

/-- **What decoding makes of an encoding**: the bytes back when every 6-bit
group is below 62, nothing otherwise. -/
theorem base64urlDecode_encode (data : Bytes) :
    base64urlDecode (base64urlEncode data) = if Readable data then some data else none := by
  have hmap : (base64urlEncode data).map fromUrlSafe = (sextets data).map stdChar := by
    rw [base64urlEncode_eq, List.map_map]
    refine List.map_congr_left fun v hv => ?_
    rw [Function.comp_apply]
    exact fromUrlSafe_toUrlSafe v (sextet_lt data v hv)
  rw [base64urlDecode, hmap, decodeBlocks_padded_sextets]

end SolarDrive.Auth
