import SolarDrive.Lib.Json

/-!
# JSON texts

A lawful instance of `JsonLib`. `write` is the library's compact writer: no
blanks, keys in order, control characters escaped, everything else copied
byte for byte, and a string that is not UTF-8 refused with the library's text.
`parse` reads back what `write` writes for a flat document and refuses every
other text.
-/

namespace Lib.JsonText

abbrev QUOTE : UInt8 := 34
abbrev COMMA : UInt8 := 44
abbrev BACKSLASH : UInt8 := 92
abbrev LBRACKET : UInt8 := 91
abbrev RBRACKET : UInt8 := 93
abbrev LBRACE : UInt8 := 123
abbrev RBRACE : UInt8 := 125

/-! ## Writing -/

/-- The short escapes. -/
def shortEscape (c : UInt8) : Option UInt8 :=
  if c = QUOTE then some QUOTE
  else if c = BACKSLASH then some BACKSLASH
  else if c = 8 then some 98
  else if c = 12 then some 102
  else if c = LF then some 110
  else if c = CR then some 114
  else if c = HTAB then some 116
  else none

def escapeByte (c : UInt8) : Bytes :=
  match shortEscape c with
  | some e => [BACKSLASH, e]
  | none =>
      if c < 32 then
        [BACKSLASH, 117, 48, 48, hexDigit (c.toNat / 16), hexDigit (c.toNat % 16)]
      else [c]

/-- Position and value of the byte at which the UTF-8 automaton stops. -/
def utf8Fault : Utf8State → Nat → Bytes → Option (Nat × UInt8)
  | _, _, [] => none
  | st, i, c :: cs =>
      match st.next c with
      | none => some (i, c)
      | some st' => utf8Fault st' (i + 1) cs

def upperHex (c : UInt8) : Bytes :=
  let digit (d : Nat) : UInt8 := UInt8.ofNat (if d < 10 then 48 + d else 55 + d)
  [digit (c.toNat / 16), digit (c.toNat % 16)]

/-- `type_error.316`. -/
def badString (s : Bytes) : Bytes :=
  match utf8Fault .start 0 s with
  | some (i, c) =>
      ascii "[json.exception.type_error.316] invalid UTF-8 byte at index " ++ decimal i ++
        ascii ": 0x" ++ upperHex c
  | none =>
      ascii "[json.exception.type_error.316] incomplete UTF-8 string; last byte: 0x" ++
        upperHex (s.getLastD 0)

def quote (s : Bytes) : Except Bytes Bytes :=
  if validUtf8 s then .ok (QUOTE :: (s.flatMap escapeByte ++ [QUOTE])) else .error (badString s)

def commaJoin : List Bytes → Bytes
  | [] => []
  | [t] => t
  | t :: u :: ts => t ++ COMMA :: commaJoin (u :: ts)

mutual

def write : Json → Except Bytes Bytes
  | .null => .ok (ascii "null")
  | .bool b => .ok (if b then ascii "true" else ascii "false")
  | .int i => .ok (decimalInt i)
  | .float t => .ok (decimalInt t ++ ascii ".0")
  | .str s => quote s
  | .arr xs => (writeItems xs).map fun ts => LBRACKET :: (commaJoin ts ++ [RBRACKET])
  | .obj kvs => (writeMembers kvs).map fun ts => LBRACE :: (commaJoin ts ++ [RBRACE])

def writeItems : List Json → Except Bytes (List Bytes)
  | [] => .ok []
  | x :: xs => do
      let t ← write x
      let ts ← writeItems xs
      return t :: ts

def writeMembers : List (Bytes × Json) → Except Bytes (List Bytes)
  | [] => .ok []
  | (k, v) :: kvs => do
      let kt ← quote k
      let t ← write v
      let ts ← writeMembers kvs
      return (kt ++ COLON :: t) :: ts

end

/-! ## Reading -/

/-- Inside a string: plain text, after a backslash, or in a `\u` escape with
its digits so far. -/
inductive StrState where
  | plain
  | escape
  | hex (digits : List Nat)
deriving DecidableEq, Repr

def unescape (e : UInt8) : Option UInt8 :=
  if e = QUOTE then some QUOTE
  else if e = BACKSLASH then some BACKSLASH
  else if e = SLASH then some SLASH
  else if e = 98 then some 8
  else if e = 102 then some 12
  else if e = 110 then some LF
  else if e = 114 then some CR
  else if e = 116 then some HTAB
  else none

def hexValue (c : UInt8) : Option Nat :=
  if isDigit c then some (c.toNat - 48)
  else if 97 ≤ c ∧ c ≤ 102 then some (c.toNat - 87)
  else if 65 ≤ c ∧ c ≤ 70 then some (c.toNat - 55)
  else none

/-- A string up to its closing quote, and what follows. `\u` escapes are read
up to U+007F; the writer emits none beyond. -/
def readString : StrState → Bytes → Option (Bytes × Bytes)
  | _, [] => none
  | .plain, c :: cs =>
      if c = QUOTE then some ([], cs)
      else if c = BACKSLASH then readString .escape cs
      else if c < 32 then none
      else (readString .plain cs).map fun p => (c :: p.1, p.2)
  | .escape, c :: cs =>
      if c = 117 then readString (.hex []) cs
      else
        match unescape c with
        | none => none
        | some b => (readString .plain cs).map fun p => (b :: p.1, p.2)
  | .hex ds, c :: cs =>
      match hexValue c with
      | none => none
      | some d =>
          if ds.length < 3 then readString (.hex (ds ++ [d])) cs
          else
            let v := (ds ++ [d]).foldl (fun a x => a * 16 + x) 0
            if v < 128 then (readString .plain cs).map fun p => (UInt8.ofNat v :: p.1, p.2)
            else none

def readNat (cs : Bytes) : Option (Nat × Bytes) :=
  if cs.takeWhile isDigit = [] then none
  else some (digitsValue (cs.takeWhile isDigit), cs.dropWhile isDigit)

def readScalar : Bytes → Option (Json × Bytes)
  | [] => none
  | c :: cs =>
      if c = QUOTE then (readString .plain cs).map fun p => (.str p.1, p.2)
      else if c = DASH then (readNat cs).map fun p => (.int (-(p.1 : Int)), p.2)
      else if isDigit c then (readNat (c :: cs)).map fun p => (.int p.1, p.2)
      else if (c :: cs).take 4 = ascii "null" then some (.null, cs.drop 3)
      else if (c :: cs).take 4 = ascii "true" then some (.bool true, cs.drop 3)
      else if (c :: cs).take 5 = ascii "false" then some (.bool false, cs.drop 4)
      else none

def readMember : Bytes → Option ((Bytes × Json) × Bytes)
  | [] => none
  | c :: cs =>
      if c ≠ QUOTE then none
      else
        match readString .plain cs with
        | some (k, d :: r) =>
            if d = COLON then (readScalar r).map fun p => ((k, p.1), p.2) else none
        | _ => none

/-- Items separated by commas up to `close`, which ends the text. -/
def readItems {α : Type} (item : Bytes → Option (α × Bytes)) (close : UInt8) :
    Nat → Bytes → Option (List α)
  | 0, _ => none
  | n + 1, s =>
      match item s with
      | some (x, c :: r) =>
          if c = close then (if r = [] then some [x] else none)
          else if c = COMMA then (readItems item close n r).map (x :: ·)
          else none
      | _ => none

def readGroup {α : Type} (item : Bytes → Option (α × Bytes)) (close : UInt8) (s : Bytes) :
    Option (List α) :=
  if s = [close] then some [] else readItems item close s.length s

def readDocument : Bytes → Option Json
  | [] => none
  | c :: cs =>
      if c = LBRACKET then (readGroup readScalar RBRACKET cs).map .arr
      else if c = LBRACE then (readGroup readMember RBRACE cs).map .obj
      else
        match readScalar (c :: cs) with
        | some (j, []) => some j
        | _ => none

def parse (s : Bytes) : Except Bytes Json :=
  match readDocument s with
  | some j =>
      if j.isFlat ∧ j.texts.all validUtf8 then .ok j
      else .error (ascii "[json.exception.parse_error.101] parse error: unexpected input")
  | none => .error (ascii "[json.exception.parse_error.101] parse error: unexpected input")

/-! ## Strings read back -/

theorem hexValue_hexDigit : ∀ d < 16, hexValue (hexDigit d) = some d := by decide

theorem unescape_shortEscape : ∀ c e : UInt8, shortEscape c = some e →
    unescape e = some c ∧ e ≠ 117 := by
  intro c e h
  unfold shortEscape at h
  split_ifs at h with h1 h2 h3 h4 h5 h6 h7 <;> cases h <;> subst_vars <;> decide

theorem readString_escapeByte (c : UInt8) (rest : Bytes) :
    readString .plain (escapeByte c ++ rest) =
      (readString .plain rest).map fun p => (c :: p.1, p.2) := by
  have hbq : BACKSLASH ≠ QUOTE := by decide
  unfold escapeByte
  cases he : shortEscape c with
  | some e =>
      obtain ⟨hu, hne⟩ := unescape_shortEscape c e he
      simp [readString, hbq, hne, hu]
  | none =>
      have hq : c ≠ QUOTE := by rintro rfl; exact absurd he (by decide)
      have hb : c ≠ BACKSLASH := by rintro rfl; exact absurd he (by decide)
      by_cases hc : c < 32
      · have hlt : c.toNat < 32 := hc
        have h0 : hexValue 48 = some 0 := rfl
        have hv : (c.toNat / 16) * 16 + c.toNat % 16 = c.toNat := Nat.div_add_mod' _ _
        have hd1 := hexValue_hexDigit (c.toNat / 16) (by omega)
        have hd2 := hexValue_hexDigit (c.toNat % 16) (by omega)
        have h128 : c.toNat < 128 := by omega
        simp [hc, readString, hbq, h0, hd1, hd2, hv, h128]
      · simp [hc, readString, hq, hb]

theorem readString_escaped (rest : Bytes) : ∀ s : Bytes,
    readString .plain (s.flatMap escapeByte ++ QUOTE :: rest) = some (s, rest)
  | [] => by simp [readString]
  | c :: s => by
      rw [List.flatMap_cons, List.append_assoc, readString_escapeByte,
        readString_escaped rest s]
      rfl

theorem nul_not_mem_escapeByte (c : UInt8) : NUL ∉ escapeByte c := by
  unfold escapeByte
  cases he : shortEscape c with
  | some e =>
      have hne : NUL ≠ e := by
        rintro rfl
        obtain ⟨hu, -⟩ := unescape_shortEscape c NUL he
        have hnone : unescape NUL = none := rfl
        rw [hnone] at hu
        cases hu
      have hb : NUL ≠ BACKSLASH := by decide
      simp [hb, hne]
  | none =>
      by_cases hc : c < 32
      · have hlt : c.toNat < 32 := hc
        have hz : ∀ d < 16, NUL ≠ hexDigit d := by decide
        have hconst : NUL ∉ [BACKSLASH, 117, 48, 48] := by decide
        simp only [List.mem_cons, not_or] at hconst
        simp [hc, hconst, hz (c.toNat / 16) (by omega), hz (c.toNat % 16) (by omega)]
      · have hne : NUL ≠ c := by rintro rfl; exact hc (by decide)
        simpa [hc] using hne

theorem quote_ok {s : Bytes} (h : validUtf8 s = true) :
    quote s = .ok (QUOTE :: (s.flatMap escapeByte ++ [QUOTE])) := by
  rw [quote, if_pos h]

theorem nul_not_mem_quoted (s : Bytes) : NUL ∉ QUOTE :: (s.flatMap escapeByte ++ [QUOTE]) := by
  simp only [List.mem_cons, List.mem_append, List.mem_flatMap, List.not_mem_nil, or_false, not_or,
    not_exists, not_and]
  exact ⟨by decide, fun c _ => nul_not_mem_escapeByte c, by decide⟩

/-! ## Scalars read back -/

/-- What may follow a number. -/
def Stop (rest : Bytes) : Prop := ∀ c ∈ rest.head?, isDigit c = false

theorem readNat_decimal (n : Nat) {rest : Bytes} (h : Stop rest) :
    readNat (decimal n ++ rest) = some (n, rest) := by
  have hall : ∀ c ∈ decimal n, isDigit c = true := fun c hc => isDigit_of_mem_decimal hc
  have hrest : rest.takeWhile isDigit = [] ∧ rest.dropWhile isDigit = rest := by
    cases rest with
    | nil => exact ⟨rfl, rfl⟩
    | cons c r =>
        have hc : isDigit c = false := h c rfl
        simp [hc]
  have htake : (decimal n ++ rest).takeWhile isDigit = decimal n := by
    rw [List.takeWhile_append_of_pos hall, hrest.1, List.append_nil]
  have hdrop : (decimal n ++ rest).dropWhile isDigit = rest := by
    rw [List.dropWhile_append_of_pos hall, hrest.2]
  rw [readNat, htake, hdrop, if_neg (decimal_ne_nil n), digitsValue_decimal]

/-- A text the scalar reader turns into `j`, wherever it stands. -/
structure ScalarText (j : Json) (t : Bytes) : Prop where
  read : ∀ rest, Stop rest → readScalar (t ++ rest) = some (j, rest)
  nul : NUL ∉ t
  head : ∃ c r, t = c :: r ∧ c ≠ LBRACKET ∧ c ≠ LBRACE

theorem ScalarText.ne_nil {j : Json} {t : Bytes} (h : ScalarText j t) : t ≠ [] := by
  obtain ⟨c, r, rfl, -⟩ := h.head
  exact List.cons_ne_nil c r

theorem isDigit_ne {c d : UInt8} (hc : isDigit c = true) (hd : isDigit d = false) : c ≠ d := by
  rintro rfl
  rw [hc] at hd
  cases hd

theorem nul_not_mem_decimal (n : Nat) : NUL ∉ decimal n := fun h =>
  isDigit_ne (isDigit_of_mem_decimal h) (by decide : isDigit NUL = false) rfl

theorem scalarText_nat (n : Nat) : ScalarText (.int n) (decimal n) := by
  cases hd : decimal n with
  | nil => exact absurd hd (decimal_ne_nil n)
  | cons c r =>
      have hc : isDigit c = true :=
        isDigit_of_mem_decimal (n := n) (by rw [hd]; exact List.mem_cons_self)
      have hq : c ≠ QUOTE := isDigit_ne hc rfl
      have hm : c ≠ DASH := isDigit_ne hc rfl
      refine ⟨?_, hd ▸ nul_not_mem_decimal n, c, r, rfl, isDigit_ne hc rfl, isDigit_ne hc rfl⟩
      intro rest hrest
      have hn := readNat_decimal n hrest
      rw [hd] at hn
      rw [List.cons_append] at hn ⊢
      simp [readScalar, hq, hm, hc, hn]

theorem scalarText_neg (n : Nat) : ScalarText (.int (-(n : Int))) (DASH :: decimal n) := by
  refine ⟨?_, ?_, DASH, decimal n, rfl, by decide, by decide⟩
  · intro rest hrest
    have hq : DASH ≠ QUOTE := by decide
    simp [readScalar, hq, readNat_decimal n hrest]
  · have : NUL ≠ DASH := by decide
    simpa [this] using nul_not_mem_decimal n

theorem scalarText_str (s : Bytes) :
    ScalarText (.str s) (QUOTE :: (s.flatMap escapeByte ++ [QUOTE])) := by
  refine ⟨?_, nul_not_mem_quoted s, QUOTE, _, rfl, by decide, by decide⟩
  intro rest _
  simp [readScalar, readString_escaped rest s]

/-- **Every scalar of UTF-8 text is written, and read back in place.** -/
theorem write_scalar {j : Json} (hj : j.isScalar = true)
    (hu : ∀ s ∈ j.scalarText, validUtf8 s = true) : ∃ t, write j = .ok t ∧ ScalarText j t := by
  cases j with
  | null =>
      exact ⟨_, rfl, fun rest _ => rfl, by decide, _, _, rfl, by decide, by decide⟩
  | bool b =>
      cases b
      · exact ⟨_, rfl, fun rest _ => rfl, by decide, _, _, rfl, by decide, by decide⟩
      · exact ⟨_, rfl, fun rest _ => rfl, by decide, _, _, rfl, by decide, by decide⟩
  | int i =>
      cases i with
      | ofNat n => exact ⟨_, rfl, scalarText_nat n⟩
      | negSucc n => exact ⟨_, rfl, scalarText_neg (n + 1)⟩
  | float t => cases hj
  | str s =>
      have hs : validUtf8 s = true := hu s (List.mem_singleton.mpr rfl)
      exact ⟨_, by rw [write, quote_ok hs], scalarText_str s⟩
  | arr xs => cases hj
  | obj kvs => cases hj

/-! ## Groups and documents read back -/

/-- A text the item reader turns into `x`, wherever it stands. -/
def ItemText {α : Type} (item : Bytes → Option (α × Bytes)) (x : α) (t : Bytes) : Prop :=
  t ≠ [] ∧ ∀ rest, Stop rest → item (t ++ rest) = some (x, rest)

theorem length_le_commaJoin : ∀ {ts : List Bytes}, (∀ t ∈ ts, t ≠ []) →
    ts.length ≤ (commaJoin ts).length
  | [], _ => by simp [commaJoin]
  | [t], h => by
      have ht : 0 < t.length := List.length_pos_iff.mpr (h t List.mem_cons_self)
      simpa [commaJoin] using Nat.succ_le_of_lt ht
  | t :: u :: ts, h => by
      have ih := length_le_commaJoin fun x hx => h x (List.mem_cons_of_mem t hx)
      simp only [commaJoin, List.length_append, List.length_cons] at ih ⊢
      omega

section Group

variable {α : Type} {item : Bytes → Option (α × Bytes)} {close : UInt8}

/-- One item and the separator or the bracket after it, per step. -/
theorem readItems_commaJoin (hd : isDigit close = false) (hne : close ≠ COMMA) :
    ∀ {xs : List α} {ts : List Bytes} (n : Nat), List.Forall₂ (ItemText item) xs ts → xs ≠ [] →
      xs.length ≤ n → readItems item close n (commaJoin ts ++ [close]) = some xs := by
  have hstop : Stop [close] := by
    rintro c ⟨⟩
    exact hd
  have hcomma : isDigit COMMA = false := rfl
  intro xs ts n h
  induction h generalizing n with
  | nil => exact fun hnil => absurd rfl hnil
  | @cons x t xs ts hx hrest ih =>
      intro _ hn
      cases n with
      | zero => exact absurd hn (by simp)
      | succ n =>
          cases hrest with
          | nil => simp [commaJoin, readItems, hx.2 _ hstop]
          | @cons y u ys us hy hys =>
              have hs : Stop (COMMA :: (commaJoin (u :: us) ++ [close])) := by
                rintro c ⟨⟩
                exact hcomma
              have htail := ih n (List.cons_ne_nil _ _) (Nat.le_of_succ_le_succ hn)
              rw [commaJoin, List.append_assoc, List.cons_append, readItems, hx.2 _ hs]
              simp only [hne.symm, if_false, if_true, htail, Option.map_some]

theorem readGroup_commaJoin (hd : isDigit close = false) (hne : close ≠ COMMA)
    {xs : List α} {ts : List Bytes} (h : List.Forall₂ (ItemText item) xs ts) :
    readGroup item close (commaJoin ts ++ [close]) = some xs := by
  cases h with
  | nil => simp [readGroup, commaJoin]
  | @cons x t xs ts hx hrest =>
      have hall : List.Forall₂ (ItemText item) (x :: xs) (t :: ts) := .cons hx hrest
      have hlen : (x :: xs).length = (t :: ts).length := hall.length_eq
      have hts : ∀ u ∈ t :: ts, u ≠ [] := by
        intro u hu
        obtain ⟨i, hi, rfl⟩ := List.getElem_of_mem hu
        exact ((List.forall₂_iff_get.mp hall).2 i (by omega) hi).1
      have hjoin := length_le_commaJoin hts
      have hone : commaJoin (t :: ts) ++ [close] ≠ [close] := by
        intro e
        have := congrArg List.length e
        simp only [List.length_append, List.length_cons, List.length_nil] at this hjoin
        omega
      rw [readGroup, if_neg hone]
      apply readItems_commaJoin hd hne _ hall (List.cons_ne_nil _ _)
      rw [hlen, List.length_append]
      omega

end Group

theorem nul_not_mem_commaJoin : ∀ {ts : List Bytes}, (∀ t ∈ ts, NUL ∉ t) → NUL ∉ commaJoin ts
  | [], _ => by simp [commaJoin]
  | [t], h => by simpa [commaJoin] using h t List.mem_cons_self
  | t :: u :: ts, h => by
      have ih := nul_not_mem_commaJoin fun x hx => h x (List.mem_cons_of_mem t hx)
      have hc : NUL ≠ COMMA := by decide
      simp [commaJoin, h t List.mem_cons_self, hc, ih]

theorem writeItems_flat : ∀ {xs : List Json}, (∀ j ∈ xs, j.isScalar = true) →
    (∀ j ∈ xs, ∀ s ∈ j.scalarText, validUtf8 s = true) →
    ∃ ts, writeItems xs = .ok ts ∧ List.Forall₂ (ItemText readScalar) xs ts ∧ ∀ t ∈ ts, NUL ∉ t
  | [], _, _ => ⟨[], by rw [writeItems], .nil, by simp⟩
  | j :: xs, hs, hu => by
      obtain ⟨t, hw, ht⟩ := write_scalar (hs j List.mem_cons_self) (hu j List.mem_cons_self)
      obtain ⟨ts, hws, hts, hnul⟩ := writeItems_flat
        (fun x hx => hs x (List.mem_cons_of_mem j hx)) fun x hx => hu x (List.mem_cons_of_mem j hx)
      refine ⟨t :: ts, ?_, .cons ⟨ht.ne_nil, ht.read⟩ hts, ?_⟩
      · rw [writeItems, hw, hws]
        rfl
      · exact List.forall_mem_cons.mpr ⟨ht.nul, hnul⟩

theorem itemText_member {k t : Bytes} {j : Json} (h : ScalarText j t) :
    ItemText readMember (k, j) (QUOTE :: (k.flatMap escapeByte ++ [QUOTE]) ++ COLON :: t) := by
  refine ⟨by simp, fun rest hrest => ?_⟩
  have hk : QUOTE :: (k.flatMap escapeByte ++ [QUOTE]) ++ COLON :: t ++ rest =
      QUOTE :: (k.flatMap escapeByte ++ QUOTE :: (COLON :: (t ++ rest))) := by simp
  rw [hk]
  simp [readMember, readString_escaped, h.read rest hrest]

theorem writeMembers_flat : ∀ {kvs : List (Bytes × Json)}, (∀ p ∈ kvs, p.2.isScalar = true) →
    (∀ p ∈ kvs, ∀ s ∈ p.1 :: p.2.scalarText, validUtf8 s = true) →
    ∃ ts, writeMembers kvs = .ok ts ∧ List.Forall₂ (ItemText readMember) kvs ts ∧
      ∀ t ∈ ts, NUL ∉ t
  | [], _, _ => ⟨[], by rw [writeMembers], .nil, by simp⟩
  | (k, j) :: kvs, hs, hu => by
      have hkj := List.forall_mem_cons.mp (hu (k, j) List.mem_cons_self)
      obtain ⟨t, hw, ht⟩ := write_scalar (hs (k, j) List.mem_cons_self) hkj.2
      obtain ⟨ts, hws, hts, hnul⟩ := writeMembers_flat
        (fun x hx => hs x (List.mem_cons_of_mem _ hx)) fun x hx => hu x (List.mem_cons_of_mem _ hx)
      refine ⟨_ :: ts, ?_, .cons (itemText_member ht) hts, ?_⟩
      · rw [writeMembers, quote_ok hkj.1, hw, hws]
        rfl
      · have hc : NUL ≠ COLON := by decide
        have hq := nul_not_mem_quoted k
        refine List.forall_mem_cons.mpr ⟨fun hmem => ?_, hnul⟩
        rcases List.mem_append.mp hmem with hmem | hmem
        · exact hq hmem
        · rcases List.mem_cons.mp hmem with e | hmem
          · exact hc e
          · exact ht.nul hmem

theorem parse_of_readDocument {j : Json} {t : Bytes} (h : readDocument t = some j)
    (hj : j.isFlat = true) (hu : ∀ s ∈ j.texts, validUtf8 s = true) : parse t = .ok j := by
  have hall : j.texts.all validUtf8 = true := List.all_eq_true.mpr hu
  rw [parse, h]
  simp [hj, hall]

theorem write_flat {j : Json} (hj : j.isFlat = true) (hu : ∀ s ∈ j.texts, validUtf8 s = true) :
    ∃ t, write j = .ok t ∧ NUL ∉ t ∧ readDocument t = some j := by
  have scalar : ∀ {j : Json}, j.isScalar = true → (∀ s ∈ j.scalarText, validUtf8 s = true) →
      ∃ t, write j = .ok t ∧ NUL ∉ t ∧ readDocument t = some j := by
    intro j hj hu
    obtain ⟨t, hw, ht⟩ := write_scalar hj hu
    obtain ⟨c, r, rfl, h1, h2⟩ := ht.head
    have hread := ht.read [] (by rintro _ ⟨⟩)
    rw [List.append_nil] at hread
    exact ⟨c :: r, hw, ht.nul, by simp [readDocument, h1, h2, hread]⟩
  cases j with
  | arr xs =>
      have hs : ∀ x ∈ xs, x.isScalar = true := List.all_eq_true.mp hj
      obtain ⟨ts, hw, hts, hnul⟩ := writeItems_flat hs
        fun x hx s hsx => hu s (List.mem_flatMap.mpr ⟨x, hx, hsx⟩)
      refine ⟨_, by rw [write, hw]; rfl, ?_, ?_⟩
      · have hb : NUL ≠ LBRACKET ∧ NUL ≠ RBRACKET := by decide
        simp [hb.1, hb.2, nul_not_mem_commaJoin hnul]
      · rw [readDocument, if_pos rfl, readGroup_commaJoin rfl (by decide) hts]
        rfl
  | obj kvs =>
      have hs : ∀ p ∈ kvs, p.2.isScalar = true :=
        List.all_eq_true.mp (Bool.and_eq_true_iff.mp hj).1
      obtain ⟨ts, hw, hts, hnul⟩ := writeMembers_flat hs
        fun p hp s hsp => hu s (List.mem_flatMap.mpr ⟨p, hp, hsp⟩)
      refine ⟨_, by rw [write, hw]; rfl, ?_, ?_⟩
      · have hb : NUL ≠ LBRACE ∧ NUL ≠ RBRACE := by decide
        simp [hb.1, hb.2, nul_not_mem_commaJoin hnul]
      · rw [readDocument, if_neg (by decide), if_pos rfl,
          readGroup_commaJoin rfl (by decide) hts]
        rfl
  | null => exact scalar hj hu
  | bool b => exact scalar hj hu
  | int i => exact scalar hj hu
  | float t => exact scalar hj hu
  | str s => exact scalar hj hu

/-! ## Refusals -/

theorem upperHex_ascii (c : UInt8) : ∀ x ∈ upperHex c, x < 0x80 := by
  have h : ∀ d < 16, UInt8.ofNat (if d < 10 then 48 + d else 55 + d) < 0x80 := by decide
  have hc : c.toNat < 256 := c.toNat_lt
  intro x hx
  simp only [upperHex, List.mem_cons, List.not_mem_nil, or_false] at hx
  rcases hx with rfl | rfl
  · exact h _ (by omega)
  · exact h _ (by omega)

theorem decimal_ascii (n : Nat) : ∀ x ∈ decimal n, x < 0x80 := by
  intro x hx
  have h : 48 ≤ x ∧ x ≤ 57 := by simpa [isDigit] using isDigit_of_mem_decimal hx
  exact UInt8.lt_of_le_of_lt h.2 (by decide)

theorem badString_utf8 (s : Bytes) : validUtf8 (badString s) = true := by
  unfold badString
  split
  · rename_i i c _
    rw [List.append_assoc, List.append_assoc, validUtf8_append_ascii (ascii_of_all (by decide)),
      validUtf8_append_ascii (decimal_ascii i), validUtf8_append_ascii (ascii_of_all (by decide))]
    exact validUtf8_of_ascii (upperHex_ascii c)
  · rw [validUtf8_append_ascii (ascii_of_all (by decide))]
    exact validUtf8_of_ascii (upperHex_ascii _)

theorem quote_error {s w : Bytes} (h : quote s = .error w) : validUtf8 w = true := by
  unfold quote at h
  split at h
  · cases h
  · cases h
    exact badString_utf8 s

mutual

theorem write_error : ∀ (j : Json) {w : Bytes}, write j = .error w → validUtf8 w = true
  | .null, w, h => by simp [write] at h
  | .bool b, w, h => by simp [write] at h
  | .int i, w, h => by simp [write] at h
  | .float t, w, h => by simp [write] at h
  | .str s, w, h => by
      rw [write] at h
      exact quote_error h
  | .arr xs, w, h => by
      rw [write] at h
      cases hx : writeItems xs with
      | ok ts => rw [hx] at h; cases h
      | error e => rw [hx] at h; cases h; exact writeItems_error xs hx
  | .obj kvs, w, h => by
      rw [write] at h
      cases hx : writeMembers kvs with
      | ok ts => rw [hx] at h; cases h
      | error e => rw [hx] at h; cases h; exact writeMembers_error kvs hx

theorem writeItems_error : ∀ (xs : List Json) {w : Bytes}, writeItems xs = .error w →
    validUtf8 w = true
  | [], w, h => by simp [writeItems] at h
  | x :: xs, w, h => by
      rw [writeItems] at h
      cases hx : write x with
      | error e => rw [hx] at h; cases h; exact write_error x hx
      | ok t =>
          cases hxs : writeItems xs with
          | error e => rw [hx, hxs] at h; cases h; exact writeItems_error xs hxs
          | ok ts => rw [hx, hxs] at h; cases h

theorem writeMembers_error : ∀ (kvs : List (Bytes × Json)) {w : Bytes},
    writeMembers kvs = .error w → validUtf8 w = true
  | [], w, h => by simp [writeMembers] at h
  | (k, v) :: kvs, w, h => by
      rw [writeMembers] at h
      cases hk : quote k with
      | error e => rw [hk] at h; cases h; exact quote_error hk
      | ok kt =>
          cases hv : write v with
          | error e => rw [hk, hv] at h; cases h; exact write_error v hv
          | ok t =>
              cases hkvs : writeMembers kvs with
              | error e => rw [hk, hv, hkvs] at h; cases h; exact writeMembers_error kvs hkvs
              | ok ts => rw [hk, hv, hkvs] at h; cases h

end

theorem validUtf8_of_quote {s t : Bytes} (h : quote s = .ok t) : validUtf8 s = true := by
  unfold quote at h
  split at h
  · assumption
  · cases h

theorem validUtf8_of_write_scalar {j : Json} {t : Bytes} (h : write j = .ok t) :
    ∀ s ∈ j.scalarText, validUtf8 s = true := by
  cases j with
  | str s =>
      rw [write] at h
      intro s' hs'
      rw [List.mem_singleton.mp hs']
      exact validUtf8_of_quote h
  | _ => exact fun s hs => by simp [Json.scalarText] at hs

theorem validUtf8_of_writeItems : ∀ {xs : List Json} {ts : List Bytes}, writeItems xs = .ok ts →
    ∀ j ∈ xs, ∀ s ∈ j.scalarText, validUtf8 s = true
  | [], _, _ => by simp
  | x :: xs, ts, h => by
      rw [writeItems] at h
      cases hx : write x with
      | error e => rw [hx] at h; cases h
      | ok t =>
          cases hxs : writeItems xs with
          | error e => rw [hx, hxs] at h; cases h
          | ok ts =>
              intro j hj
              rcases List.mem_cons.mp hj with rfl | hj
              · exact validUtf8_of_write_scalar hx
              · exact validUtf8_of_writeItems hxs j hj

theorem validUtf8_of_writeMembers : ∀ {kvs : List (Bytes × Json)} {ts : List Bytes},
    writeMembers kvs = .ok ts → ∀ p ∈ kvs, ∀ s ∈ p.1 :: p.2.scalarText, validUtf8 s = true
  | [], _, _ => by simp
  | (k, v) :: kvs, ts, h => by
      rw [writeMembers] at h
      cases hk : quote k with
      | error e => rw [hk] at h; cases h
      | ok kt =>
          cases hv : write v with
          | error e => rw [hk, hv] at h; cases h
          | ok t =>
              cases hkvs : writeMembers kvs with
              | error e => rw [hk, hv, hkvs] at h; cases h
              | ok ts =>
                  intro p hp
                  rcases List.mem_cons.mp hp with rfl | hp
                  · exact List.forall_mem_cons.mpr
                      ⟨validUtf8_of_quote hk, validUtf8_of_write_scalar hv⟩
                  · exact validUtf8_of_writeMembers hkvs p hp

theorem validUtf8_of_write {j : Json} {t : Bytes} (h : write j = .ok t) :
    ∀ s ∈ j.texts, validUtf8 s = true := by
  cases j with
  | arr xs =>
      rw [write] at h
      cases hx : writeItems xs with
      | error e => rw [hx] at h; cases h
      | ok ts =>
          intro s hs
          obtain ⟨x, hxm, hsx⟩ := List.mem_flatMap.mp hs
          exact validUtf8_of_writeItems hx x hxm s hsx
  | obj kvs =>
      rw [write] at h
      cases hx : writeMembers kvs with
      | error e => rw [hx] at h; cases h
      | ok ts =>
          intro s hs
          obtain ⟨p, hp, hsp⟩ := List.mem_flatMap.mp hs
          exact validUtf8_of_writeMembers hx p hp s hsp
  | _ => exact validUtf8_of_write_scalar h

/-! ## The instance -/

def lib : JsonLib where
  parse := parse
  dump := write

theorem lib_lawful : lib.Lawful where
  dump_flat := by
    intro j hj hu
    obtain ⟨t, hw, hn, hr⟩ := write_flat hj hu
    exact ⟨t, hw, hn, parse_of_readDocument hr hj hu⟩
  dump_bad := by
    intro j _ hbad
    cases hw : write j with
    | error w => exact ⟨w, hw⟩
    | ok t => exact absurd (validUtf8_of_write hw) hbad
  dump_what := fun j _ h => write_error j h
  parse_nil := by
    rintro j ⟨⟩

theorem escapeByte_ascii {c : UInt8} (hc : c < 0x80) : ∀ x ∈ escapeByte c, x < 0x80 := by
  have hall : ∀ n : Fin 128, (escapeByte (UInt8.ofNat n)).all (· < 0x80) = true := by
    decide +kernel
  have hchar := hall ⟨c.toNat, UInt8.lt_iff_toNat_lt.mp hc⟩
  rw [UInt8.ofNat_toNat] at hchar
  intro x hx
  exact of_decide_eq_true (List.all_eq_true.mp hchar x hx)

theorem quote_ascii {s t : Bytes} (hs : ∀ c ∈ s, c < 0x80) (h : quote s = .ok t) :
    ∀ x ∈ t, x < 0x80 := by
  unfold quote at h
  split at h
  · cases h
    have hquote : QUOTE < 0x80 := by decide
    intro x hx
    rcases List.mem_cons.mp hx with rfl | hx
    · exact hquote
    rcases List.mem_append.mp hx with hx | hx
    · obtain ⟨c, hc, hxc⟩ := List.mem_flatMap.mp hx
      exact escapeByte_ascii (hs c hc) x hxc
    · rwa [List.mem_singleton.mp hx]
  · cases h

theorem commaJoin_ascii : ∀ {ts : List Bytes}, (∀ t ∈ ts, ∀ x ∈ t, x < 0x80) →
    ∀ x ∈ commaJoin ts, x < 0x80
  | [], _ => nofun
  | [t], h => h t List.mem_cons_self
  | t :: u :: ts, h => by
      have hcomma : COMMA < 0x80 := by decide
      intro x hx
      rcases List.mem_append.mp hx with hx | hx
      · exact h t List.mem_cons_self x hx
      rcases List.mem_cons.mp hx with rfl | hx
      · exact hcomma
      · exact commaJoin_ascii (fun t' ht' => h t' (List.mem_cons_of_mem _ ht')) x hx

theorem writeItems_ascii : ∀ {ss ts : List Bytes}, (∀ s ∈ ss, ∀ c ∈ s, c < 0x80) →
    writeItems (ss.map .str) = .ok ts → ∀ t ∈ ts, ∀ x ∈ t, x < 0x80
  | [], ts, _, h => by
      cases h
      exact nofun
  | s :: ss, ts, hss, h => by
      rw [List.map_cons, writeItems, write] at h
      cases ht : quote s with
      | error e => rw [ht] at h; cases h
      | ok t =>
      rw [ht] at h
      cases hrest : writeItems (ss.map .str) with
      | error e => rw [hrest] at h; cases h
      | ok rest =>
      rw [hrest] at h
      cases h
      intro t' ht'
      rcases List.mem_cons.mp ht' with rfl | ht'
      · exact quote_ascii (hss s List.mem_cons_self) ht
      · exact writeItems_ascii (fun s' hs' => hss s' (List.mem_cons_of_mem _ hs')) hrest t' ht'

theorem lib_writesAscii : lib.WritesAscii := by
  intro ss t hss h
  have hwrite : (writeItems (ss.map .str)).map (fun ts => LBRACKET :: (commaJoin ts ++ [RBRACKET])) =
      .ok t := h
  cases hitems : writeItems (ss.map .str) with
  | error e => rw [hitems] at hwrite; cases hwrite
  | ok ts =>
      rw [hitems] at hwrite
      cases hwrite
      have hbrackets : LBRACKET < 0x80 ∧ RBRACKET < 0x80 := by decide
      intro x hx
      rcases List.mem_cons.mp hx with rfl | hx
      · exact hbrackets.1
      rcases List.mem_append.mp hx with hx | hx
      · exact commaJoin_ascii (writeItems_ascii hss hitems) x hx
      · rw [List.mem_singleton.mp hx]
        exact hbrackets.2

end Lib.JsonText
