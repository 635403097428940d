import Mathlib.Data.Nat.Digits.Lemmas
import Mathlib.Data.List.TakeWhile

/-!
# Byte strings

A C++ `std::string` is a list of bytes. This file holds the character
classes, the decimal conversions (`std::to_string`, `std::stoull` and its
siblings) and the association lists that stand for `unordered_map`.
-/

namespace Lib

abbrev Bytes : Type := List UInt8

/-- An ASCII literal as bytes. -/
def ascii (s : String) : Bytes := s.toList.map fun c => UInt8.ofNat c.toNat

theorem ascii_append (s t : String) : ascii (s ++ t) = ascii s ++ ascii t := by
  rw [ascii, String.toList_append, List.map_append]
  rfl

/-- A literal read off its characters, which the kernel does not do by itself in good time. -/
theorem ascii_ofList (l : List Char) :
    ascii (String.ofList l) = l.map fun c => UInt8.ofNat c.toNat := by
  rw [ascii, String.toList_ofList]

abbrev NUL : UInt8 := 0
abbrev HTAB : UInt8 := 9
abbrev LF : UInt8 := 10
abbrev CR : UInt8 := 13
abbrev SP : UInt8 := 32
abbrev PLUS : UInt8 := 43
abbrev DASH : UInt8 := 45
abbrev DOT : UInt8 := 46
abbrev SLASH : UInt8 := 47
abbrev COLON : UInt8 := 58
abbrev EQUALS : UInt8 := 61
abbrev QMARK : UInt8 := 63

/-- `isspace` in the C locale. -/
def isSpace (c : UInt8) : Bool := c == SP || (9 ≤ c && c ≤ 13)

def isDigit (c : UInt8) : Bool := 48 ≤ c && c ≤ 57

/-- `tolower` in the C locale. -/
def toLower (c : UInt8) : UInt8 := if 65 ≤ c ∧ c ≤ 90 then c + 32 else c

/-- What `c_str()` shows of a string: everything before its first NUL. -/
def cstr (s : Bytes) : Bytes := s.takeWhile (· != NUL)

/-- Split at the first occurrence of `c`, which belongs to neither part. -/
def cutAt (c : UInt8) : Bytes → Option (Bytes × Bytes)
  | [] => none
  | x :: xs =>
      if x = c then some ([], xs)
      else (cutAt c xs).map fun p => (x :: p.1, p.2)

/-- `find`: what follows the first occurrence of `pat`. -/
def afterFirst (pat : Bytes) : Bytes → Option Bytes
  | [] => if pat = [] then some [] else none
  | c :: cs => if pat.isPrefixOf (c :: cs) then some ((c :: cs).drop pat.length) else afterFirst pat cs

/-- Lower-case hexadecimal, two digits a byte. -/
def hexDigit (d : Nat) : UInt8 := UInt8.ofNat (if d < 10 then 48 + d else 87 + d)

def hexBytes (bs : Bytes) : Bytes :=
  bs.flatMap fun b => [hexDigit (b.toNat / 16), hexDigit (b.toNat % 16)]

theorem hexDigit_toNat {d : Nat} (h : d < 16) :
    (hexDigit d).toNat = if d < 10 then 48 + d else 87 + d := by
  unfold hexDigit
  rw [UInt8.toNat_ofNat']
  split <;> omega

theorem hexDigit_injective {d e : Nat} (hd : d < 16) (he : e < 16) (h : hexDigit d = hexDigit e) :
    d = e := by
  have hnat := congrArg UInt8.toNat h
  rw [hexDigit_toNat hd, hexDigit_toNat he] at hnat
  split at hnat <;> split at hnat <;> omega

theorem hexBytes_cons (b : UInt8) (bs : Bytes) : hexBytes (b :: bs) =
    hexDigit (b.toNat / 16) :: hexDigit (b.toNat % 16) :: hexBytes bs := rfl

theorem length_hexBytes : ∀ bs : Bytes, (hexBytes bs).length = 2 * bs.length
  | [] => rfl
  | b :: bs => by
      rw [hexBytes_cons, List.length_cons, List.length_cons, length_hexBytes bs, List.length_cons]
      omega

theorem nibble_lt (b : UInt8) : b.toNat / 16 < 16 ∧ b.toNat % 16 < 16 := by
  have := b.toNat_lt
  omega

/-- Two byte strings with one hexadecimal text are equal. -/
theorem hexBytes_injective : Function.Injective hexBytes := by
  intro as
  induction as with
  | nil =>
      intro bs h
      cases bs with
      | nil => rfl
      | cons b bs => cases h
  | cons a as ih =>
      intro bs h
      cases bs with
      | nil => cases h
      | cons b bs =>
          rw [hexBytes_cons, hexBytes_cons, List.cons.injEq, List.cons.injEq] at h
          obtain ⟨hhi, hlo, hrest⟩ := h
          have hdiv := hexDigit_injective (nibble_lt a).1 (nibble_lt b).1 hhi
          have hmod := hexDigit_injective (nibble_lt a).2 (nibble_lt b).2 hlo
          have hab : a = b := by
            apply UInt8.toNat_inj.mp
            omega
          rw [hab, ih hrest]

theorem mem_hexBytes {c : UInt8} : ∀ {bs : Bytes}, c ∈ hexBytes bs → c ≠ NUL ∧ c < 0x80
  | [], h => by cases h
  | b :: bs, h => by
      have hdigit : ∀ d, d < 16 → hexDigit d ≠ NUL ∧ hexDigit d < 0x80 := by
        decide
      rw [hexBytes_cons, List.mem_cons, List.mem_cons] at h
      rcases h with rfl | rfl | h
      · exact hdigit _ (nibble_lt b).1
      · exact hdigit _ (nibble_lt b).2
      · exact mem_hexBytes h

theorem cutAt_append {c : UInt8} : ∀ {xs : Bytes} (ys : Bytes), c ∉ xs →
    cutAt c (xs ++ c :: ys) = some (xs, ys)
  | [], _, _ => by simp [cutAt]
  | x :: xs, ys, h => by
      have hx : x ≠ c := fun e => h (e ▸ List.mem_cons_self)
      have hxs : c ∉ xs := fun hm => h (List.mem_cons_of_mem _ hm)
      simp [cutAt, hx, cutAt_append ys hxs]

theorem cutAt_sound {c : UInt8} : ∀ {s l r : Bytes}, cutAt c s = some (l, r) → s = l ++ c :: r
  | [], _, _, h => by simp [cutAt] at h
  | x :: xs, l, r, h => by
      rw [cutAt] at h
      split at h
      · rename_i hx
        cases h
        rw [hx]
        rfl
      · obtain ⟨⟨l', r'⟩, hcut, heq⟩ := Option.map_eq_some_iff.mp h
        cases heq
        rw [cutAt_sound hcut]
        rfl

/-- An occurrence anywhere is found. -/
theorem afterFirst_isSome {pat : Bytes} : ∀ {s : Bytes}, pat <:+: s → (afterFirst pat s).isSome = true
  | [], h => by
      have hp : pat = [] := List.infix_nil.mp h
      rw [afterFirst, if_pos hp]
      rfl
  | c :: cs, h => by
      rw [afterFirst]
      split
      · rfl
      · rename_i hp
        rcases List.infix_cons_iff.mp h with h | h
        · exact absurd (List.isPrefixOf_iff_prefix.mpr h) hp
        · exact afterFirst_isSome h

/-- What is found stands behind an occurrence, and no occurrence starts before it. -/
theorem afterFirst_eq_some {pat : Bytes} (hpat : pat ≠ []) : ∀ {s rest : Bytes},
    afterFirst pat s = some rest ↔
      ∃ before, s = before ++ pat ++ rest ∧ ∀ k < before.length, ¬ pat <+: s.drop k
  | [], rest => by
      rw [afterFirst, if_neg hpat]
      constructor
      · intro h
        cases h
      · rintro ⟨before, hs, -⟩
        have : pat = [] := by simp_all
        exact absurd this hpat
  | c :: cs, rest => by
      rw [afterFirst]
      by_cases hp : pat.isPrefixOf (c :: cs) = true
      · rw [if_pos hp]
        obtain ⟨tail, htail⟩ := List.isPrefixOf_iff_prefix.mp hp
        rw [← htail, List.drop_left]
        constructor
        · intro h
          cases h
          exact ⟨[], rfl, fun k hk => absurd hk (Nat.not_lt_zero k)⟩
        · rintro ⟨before, hs, hfirst⟩
          cases before with
          | nil => rw [List.append_cancel_left hs]
          | cons b bs =>
              refine absurd ?_ (hfirst 0 (Nat.zero_lt_succ _))
              exact List.prefix_append pat tail
      · rw [if_neg hp, afterFirst_eq_some hpat]
        constructor
        · rintro ⟨before, hs, hfirst⟩
          refine ⟨c :: before, by rw [hs]; rfl, fun k hk hpre => ?_⟩
          cases k with
          | zero => exact hp (List.isPrefixOf_iff_prefix.mpr hpre)
          | succ k => exact hfirst k (Nat.lt_of_succ_lt_succ hk) hpre
        · rintro ⟨before, hs, hfirst⟩
          cases before with
          | nil => exact absurd (List.isPrefixOf_iff_prefix.mpr ⟨rest, hs.symm⟩) hp
          | cons b bs =>
              have htail : cs = bs ++ pat ++ rest := by simpa using (List.cons.inj hs).2
              exact ⟨bs, htail, fun k hk hpre => hfirst (k + 1) (Nat.succ_lt_succ hk) hpre⟩

theorem not_mem_cstr (s : Bytes) : NUL ∉ cstr s := by
  intro h
  have := List.mem_takeWhile_imp h
  simp at this

theorem cstr_of_not_mem {s : Bytes} (h : NUL ∉ s) : cstr s = s := by
  apply List.takeWhile_eq_self_iff.mpr
  intro x hx
  have : x ≠ NUL := fun e => h (e ▸ hx)
  simpa using this

@[simp] theorem cstr_cstr (s : Bytes) : cstr (cstr s) = cstr s :=
  cstr_of_not_mem (not_mem_cstr s)

theorem cstr_head (s : Bytes) : cstr s <+: s := List.takeWhile_prefix _

/-! ## Decimal text -/

/-- `std::to_string` of an unsigned value. -/
def decimal (n : Nat) : Bytes :=
  if n = 0 then [48] else (Nat.digits 10 n).reverse.map fun d => UInt8.ofNat (48 + d)

/-- `std::to_string` of a signed value. -/
def decimalInt : Int → Bytes
  | .ofNat n => decimal n
  | .negSucc n => DASH :: decimal (n + 1)

/-- The value of a run of digits. -/
def digitsValue (ds : Bytes) : Nat := ds.foldl (fun a c => a * 10 + (c.toNat - 48)) 0

theorem digit_toNat {d : Nat} (h : d < 10) : (UInt8.ofNat (48 + d)).toNat - 48 = d := by
  rw [UInt8.toNat_ofNat']
  omega

theorem isDigit_digit {d : Nat} (h : d < 10) : isDigit (UInt8.ofNat (48 + d)) = true := by
  interval_cases d <;> decide

theorem decimal_ne_nil (n : Nat) : decimal n ≠ [] := by
  unfold decimal
  split
  · simp
  · rename_i h
    simpa using Nat.digits_ne_nil_iff_ne_zero.mpr h

theorem isDigit_of_mem_decimal {n : Nat} {c : UInt8} (h : c ∈ decimal n) :
    isDigit c = true := by
  unfold decimal at h
  split at h
  · simp only [List.mem_singleton] at h
    subst h
    decide
  · obtain ⟨d, hd, rfl⟩ := List.mem_map.mp h
    exact isDigit_digit (Nat.digits_lt_base (by omega) (List.mem_reverse.mp hd))

theorem foldl_digits (ds : List Nat) (h : ∀ d ∈ ds, d < 10) :
    digitsValue (ds.reverse.map fun d => UInt8.ofNat (48 + d)) = Nat.ofDigits 10 ds := by
  unfold digitsValue
  rw [List.foldl_map, List.foldl_reverse]
  induction ds with
  | nil => rfl
  | cons d ds ih =>
      have hd : d < 10 := h d List.mem_cons_self
      rw [List.foldr_cons, ih fun x hx => h x (List.mem_cons_of_mem _ hx), digit_toNat hd,
        Nat.ofDigits_cons]
      ring

theorem digitsValue_decimal (n : Nat) : digitsValue (decimal n) = n := by
  unfold decimal
  split
  · rename_i h
    subst h
    rfl
  · rw [foldl_digits _ fun d hd => Nat.digits_lt_base (by omega) hd, Nat.ofDigits_digits]

theorem length_decimal {n k : Nat} (hlow : 10 ^ k ≤ n) (hhigh : n < 10 ^ (k + 1)) :
    (decimal n).length = k + 1 := by
  have hpow : 0 < 10 ^ k := Nat.pow_pos (by omega)
  have hn : n ≠ 0 := by omega
  rw [decimal, if_neg hn, List.length_map, List.length_reverse]
  have hle := (Nat.digits_length_le_iff (b := 10) (by omega) n).mpr hhigh
  have hlt := (Nat.lt_digits_length_iff (b := 10) (by omega) n).mpr hlow
  omega

theorem decimal_injective : Function.Injective decimal := by
  intro m n h
  rw [← digitsValue_decimal m, h, digitsValue_decimal n]

/-- The two failures of the `std::sto*` family. -/
inductive StoError where
  | invalidArgument
  | outOfRange
deriving DecidableEq, Repr

/-- `strtoull`'s reading of a text: blanks, an optional sign, a run of digits;
what follows the digits is ignored. `none` when there is no digit. -/
def strto (s : Bytes) : Option (Bool × Nat) :=
  let t := s.dropWhile isSpace
  let signed : Bool × Bytes :=
    match t with
    | [] => (false, [])
    | c :: r => if c = DASH then (true, r) else if c = PLUS then (false, r) else (false, c :: r)
  let ds := signed.2.takeWhile isDigit
  if ds = [] then none else some (signed.1, digitsValue ds)

/-- `std::stoull`: a minus sign is accepted and negates modulo `2 ^ 64`. -/
def stoull (s : Bytes) : Except StoError Nat :=
  match strto s with
  | none => .error .invalidArgument
  | some (neg, n) =>
      if 2 ^ 64 ≤ n then .error .outOfRange
      else .ok (if neg then (2 ^ 64 - n) % 2 ^ 64 else n)

/-- A signed conversion with `bits` bits: `std::stoll` at 64, `std::stoi` at 32. -/
def stoSigned (bits : Nat) (s : Bytes) : Except StoError Int :=
  match strto s with
  | none => .error .invalidArgument
  | some (neg, n) =>
      let v : Int := if neg then -(n : Int) else n
      if v < -(2 ^ (bits - 1) : Int) ∨ (2 ^ (bits - 1) : Int) ≤ v then .error .outOfRange
      else .ok v

def stoll : Bytes → Except StoError Int := stoSigned 64

def stoi : Bytes → Except StoError Int := stoSigned 32

theorem isSpace_of_isDigit {c : UInt8} (h : isDigit c = true) : isSpace c = false := by
  have hc : 48 ≤ c.toNat ∧ c.toNat ≤ 57 := by
    simpa [isDigit, UInt8.le_iff_toNat_le] using h
  simp only [isSpace, UInt8.le_iff_toNat_le, Bool.or_eq_false_iff, beq_eq_false_iff_ne, ne_eq,
    ← UInt8.toNat_inj, Bool.and_eq_false_iff, decide_eq_false_iff_not, not_le]
  have h9 : (9 : UInt8).toNat = 9 := rfl
  have h13 : (13 : UInt8).toNat = 13 := rfl
  have h32 : SP.toNat = 32 := rfl
  omega

theorem sign_of_isDigit {c : UInt8} (h : isDigit c = true) : c ≠ DASH ∧ c ≠ PLUS := by
  constructor <;> rintro rfl <;> exact absurd h (by decide)

/-- Reading back a decimal text, whatever non-digit follows it. -/
theorem strto_decimal (n : Nat) : strto (decimal n) = some (false, n) := by
  cases hd : decimal n with
  | nil => exact absurd hd (decimal_ne_nil n)
  | cons c r =>
      have hc : isDigit c = true := isDigit_of_mem_decimal (n := n) (by rw [hd]; exact List.mem_cons_self)
      have hall : (decimal n).takeWhile isDigit = decimal n :=
        List.takeWhile_eq_self_iff.mpr fun x hx => isDigit_of_mem_decimal hx
      rw [hd] at hall
      have hv : digitsValue (c :: r) = n := by rw [← hd]; exact digitsValue_decimal n
      obtain ⟨h1, h2⟩ := sign_of_isDigit hc
      simp [strto, isSpace_of_isDigit hc, h1, h2, hall, hv]

theorem stoull_decimal {n : Nat} (h : n < 2 ^ 64) : stoull (decimal n) = .ok n := by
  have hn : ¬ 2 ^ 64 ≤ n := Nat.not_le.mpr h
  simp only [stoull, strto_decimal, if_neg hn]
  rfl

theorem stoi_decimal {n : Nat} (h : n < 2 ^ 31) : stoi (decimal n) = .ok n := by
  have hn : ¬ ((n : Int) < -(2 ^ (32 - 1) : Int) ∨ (2 ^ (32 - 1) : Int) ≤ n) := by omega
  simp only [stoi, stoSigned, strto_decimal, Bool.false_eq_true, if_false, if_neg hn]

theorem stoSigned_lt {bits : Nat} {t : Bytes} {m : Int} (h : stoSigned bits t = .ok m) :
    -(2 ^ (bits - 1) : Int) ≤ m ∧ m < 2 ^ (bits - 1) := by
  unfold stoSigned at h
  split at h
  · cases h
  · rename_i neg n _
    dsimp only at h
    generalize (if neg then -(n : Int) else n) = v at h
    split at h
    · cases h
    · obtain rfl := Except.ok.inj h
      omega

/-- A number in range is read back from its text. -/
theorem stoSigned_decimalInt {bits : Nat} {v : Int} (hlow : -(2 ^ (bits - 1) : Int) ≤ v)
    (hhigh : v < 2 ^ (bits - 1)) : stoSigned bits (decimalInt v) = .ok v := by
  have hrange : ¬ (v < -(2 ^ (bits - 1) : Int) ∨ (2 ^ (bits - 1) : Int) ≤ v) := by omega
  cases v with
  | ofNat n =>
      have hread : strto (decimalInt (.ofNat n)) = some (false, n) := strto_decimal n
      simp only [stoSigned, hread, Bool.false_eq_true, if_false]
      exact if_neg hrange
  | negSucc n =>
      have hread : strto (decimalInt (.negSucc n)) = some (true, n + 1) := by
        have hall : (decimal (n + 1)).takeWhile isDigit = decimal (n + 1) :=
          List.takeWhile_eq_self_iff.mpr fun x hx => isDigit_of_mem_decimal hx
        have hblank : isSpace DASH = false := by decide
        simp [strto, decimalInt, hblank, hall, decimal_ne_nil, digitsValue_decimal]
      simp only [stoSigned, hread, if_true]
      exact if_neg hrange

theorem nul_not_mem_decimal (n : Nat) : NUL ∉ decimal n := fun h =>
  absurd (isDigit_of_mem_decimal h) (by decide)

theorem nul_not_mem_decimalInt (v : Int) : NUL ∉ decimalInt v := by
  cases v with
  | ofNat n => exact nul_not_mem_decimal n
  | negSucc n =>
      intro h
      rcases List.mem_cons.mp h with h | h
      · exact absurd h (by decide)
      · exact nul_not_mem_decimal (n + 1) h

/-! ## Association lists as maps -/

section Assoc

variable {α β : Type} [DecidableEq α]

/-- `m[k] = v`: overwrite the entry of `k`, or append one. -/
def setKey (k : α) (v : β) : List (α × β) → List (α × β)
  | [] => [(k, v)]
  | (k', v') :: ps => if k' = k then (k, v) :: ps else (k', v') :: setKey k v ps

/-- A key that is not there yet goes to the end. -/
theorem setKey_of_not_mem {k : α} (v : β) : ∀ {m : List (α × β)}, k ∉ m.map Prod.fst →
    setKey k v m = m ++ [(k, v)]
  | [], _ => rfl
  | (a, b) :: ps, h => by
      have ha : a ≠ k := fun e => h (by simp [e])
      have hps : k ∉ ps.map Prod.fst := fun hm => h (List.mem_cons_of_mem _ hm)
      simp [setKey, ha, setKey_of_not_mem v hps]

theorem map_fst_setKey (k : α) (v : β) : ∀ m : List (α × β),
    (setKey k v m).map Prod.fst =
      if k ∈ m.map Prod.fst then m.map Prod.fst else m.map Prod.fst ++ [k]
  | [] => by simp [setKey]
  | (a, b) :: ps => by
      have ih := map_fst_setKey k v ps
      by_cases h : a = k
      · simp [setKey, h]
      · have hk : ¬ k = a := fun e => h e.symm
        by_cases hp : k ∈ ps.map Prod.fst
        · rw [if_pos hp] at ih
          rw [setKey, if_neg h, List.map_cons, ih, List.map_cons, if_pos (List.mem_cons_of_mem _ hp)]
        · rw [if_neg hp] at ih
          rw [setKey, if_neg h, List.map_cons, ih, List.map_cons, if_neg (by simp [hk, hp])]
          rfl

theorem nodup_setKey {k : α} {v : β} {m : List (α × β)} (h : (m.map Prod.fst).Nodup) :
    ((setKey k v m).map Prod.fst).Nodup := by
  rw [map_fst_setKey]
  split
  · exact h
  · rename_i hk
    rw [List.nodup_append]
    refine ⟨h, List.nodup_singleton k, ?_⟩
    rintro a ha b hb rfl
    exact hk (List.mem_singleton.mp hb ▸ ha)

theorem mem_keys_setKey {k k' : α} {v : β} {m : List (α × β)} :
    k' ∈ (setKey k v m).map Prod.fst ↔ k' = k ∨ k' ∈ m.map Prod.fst := by
  rw [map_fst_setKey]
  split
  · rename_i hk
    exact ⟨Or.inr, fun h => h.elim (fun e => e ▸ hk) id⟩
  · rw [List.mem_append, List.mem_singleton]
    exact Or.comm

variable [BEq α] [LawfulBEq α]

theorem lookup_setKey_self (k : α) (v : β) : ∀ m : List (α × β),
    (setKey k v m).lookup k = some v
  | [] => by simp [setKey]
  | (k', v') :: ps => by
      by_cases h : k' = k
      · simp [setKey, h]
      · have hk : (k == k') = false := by simpa using fun e => h e.symm
        simp [setKey, h, List.lookup_cons, hk, lookup_setKey_self k v ps]

theorem lookup_setKey_ne {k k' : α} (hne : k' ≠ k) (v : β) : ∀ m : List (α × β),
    (setKey k v m).lookup k' = m.lookup k'
  | [] => by
      have hk : (k' == k) = false := by simpa using hne
      simp [setKey, List.lookup_cons, hk]
  | (a, b) :: ps => by
      by_cases h : a = k
      · have hk : (k' == k) = false := by simpa using hne
        simp [setKey, h, List.lookup_cons, hk]
      · simp [setKey, h, List.lookup_cons, lookup_setKey_ne hne v ps]

/-- With distinct keys, a key has one entry. -/
theorem filter_key {k : α} {v : β} : ∀ {m : List (α × β)}, (m.map Prod.fst).Nodup →
    m.lookup k = some v → m.filter (fun p => p.1 = k) = [(k, v)]
  | [], _, h => by simp at h
  | (a, b) :: ps, hnd, h => by
      rw [List.map_cons, List.nodup_cons] at hnd
      by_cases ha : k = a
      · subst ha
        have hb : b = v := by simpa using h
        have hnone : ps.filter (fun p => p.1 = k) = [] := by
          rw [List.filter_eq_nil_iff]
          rintro ⟨x, y⟩ hm he
          have hx : x = k := by simpa using he
          exact hnd.1 (List.mem_map.mpr ⟨(x, y), hm, hx⟩)
        simp [hb, hnone]
      · have hk : (k == a) = false := by simpa using ha
        have ha' : ¬ a = k := fun e => ha e.symm
        rw [List.lookup_cons, hk] at h
        simp [ha', filter_key hnd.2 h]

end Assoc

end Lib
