import SolarDrive.Lib.Bytes

/-!
# UTF-8 validity

The shortest-form, surrogate-free UTF-8 of RFC 3629, as a byte automaton. A
text is valid when the automaton ends between characters.
-/

namespace Lib

/-- What the automaton expects next: a new character, or one to three
continuation bytes, the first of them restricted after four of the leads. -/
inductive Utf8State where
  | start
  | tail1
  | tail2
  | tail3
  | afterE0
  | afterED
  | afterF0
  | afterF4
deriving DecidableEq, Repr

def Utf8State.next : Utf8State → UInt8 → Option Utf8State
  | .start, c =>
      if c < 0x80 then some .start
      else if 0xC2 ≤ c ∧ c ≤ 0xDF then some .tail1
      else if c = 0xE0 then some .afterE0
      else if c = 0xED then some .afterED
      else if 0xE1 ≤ c ∧ c ≤ 0xEF then some .tail2
      else if c = 0xF0 then some .afterF0
      else if 0xF1 ≤ c ∧ c ≤ 0xF3 then some .tail3
      else if c = 0xF4 then some .afterF4
      else none
  | .tail1, c => if 0x80 ≤ c ∧ c ≤ 0xBF then some .start else none
  | .tail2, c => if 0x80 ≤ c ∧ c ≤ 0xBF then some .tail1 else none
  | .tail3, c => if 0x80 ≤ c ∧ c ≤ 0xBF then some .tail2 else none
  | .afterE0, c => if 0xA0 ≤ c ∧ c ≤ 0xBF then some .tail1 else none
  | .afterED, c => if 0x80 ≤ c ∧ c ≤ 0x9F then some .tail1 else none
  | .afterF0, c => if 0x90 ≤ c ∧ c ≤ 0xBF then some .tail2 else none
  | .afterF4, c => if 0x80 ≤ c ∧ c ≤ 0x8F then some .tail2 else none

def utf8Run : Utf8State → Bytes → Bool
  | st, [] => st = .start
  | st, c :: cs =>
      match st.next c with
      | none => false
      | some st' => utf8Run st' cs

def validUtf8 (s : Bytes) : Bool := utf8Run .start s

theorem validUtf8_cons_ascii {a : UInt8} (h : a < 0x80) (s : Bytes) :
    validUtf8 (a :: s) = validUtf8 s := by
  simp only [validUtf8, utf8Run, Utf8State.next, if_pos h]

/-- A literal is ASCII when its characters are, which evaluates faster than its bytes. -/
theorem ascii_of_all {l : List Char} (h : (l.all fun c => c.toNat < 0x80) = true) :
    ∀ c ∈ ascii (String.ofList l), c < 0x80 := by
  rw [ascii_ofList]
  intro c hc
  obtain ⟨x, hx, rfl⟩ := List.mem_map.mp hc
  have hlow : x.toNat < 0x80 := of_decide_eq_true (List.all_eq_true.mp h x hx)
  rw [UInt8.lt_iff_toNat_lt, UInt8.toNat_ofNat']
  exact Nat.lt_of_le_of_lt (Nat.mod_le _ _) hlow

/-- An ASCII prefix does not matter for validity. -/
theorem validUtf8_append_ascii {s : Bytes} : ∀ {p : Bytes}, (∀ c ∈ p, c < 0x80) →
    validUtf8 (p ++ s) = validUtf8 s
  | [], _ => rfl
  | c :: p, h => by
      rw [List.cons_append, validUtf8_cons_ascii (h c List.mem_cons_self),
        validUtf8_append_ascii fun x hx => h x (List.mem_cons_of_mem _ hx)]

/-- A text that ends between characters can be continued. -/
theorem utf8Run_append {t : Bytes} : ∀ {st : Utf8State} {s : Bytes}, utf8Run st s = true →
    utf8Run st (s ++ t) = validUtf8 t
  | st, [], h => by
      obtain rfl : st = .start := of_decide_eq_true h
      rfl
  | st, c :: s, h => by
      rw [List.cons_append, utf8Run]
      rw [utf8Run] at h
      cases hnext : st.next c with
      | none =>
          rw [hnext] at h
          cases h
      | some st' =>
          rw [hnext] at h
          exact utf8Run_append h

theorem validUtf8_append {s t : Bytes} (hs : validUtf8 s = true) :
    validUtf8 (s ++ t) = validUtf8 t :=
  utf8Run_append hs

/-- An ASCII character is expected between characters only. -/
theorem utf8_next_ascii {a : UInt8} (ha : a < 0x80) {st st' : Utf8State}
    (h : st.next a = some st') : st = .start ∧ st' = .start := by
  have hnot : ∀ b c : UInt8, 0x80 ≤ b → ¬ (b ≤ a ∧ a ≤ c) :=
    fun b _ hb hle => UInt8.not_lt.mpr (UInt8.le_trans hb hle.1) ha
  cases st with
  | start =>
      rw [Utf8State.next, if_pos ha] at h
      exact ⟨rfl, (Option.some.inj h).symm⟩
  | _ =>
      rw [Utf8State.next, if_neg (hnot _ _ (by decide))] at h
      cases h

/-- So a text can be cut at one. -/
theorem utf8Run_cut {a : UInt8} (ha : a < 0x80) {t : Bytes} : ∀ {st : Utf8State} {s : Bytes},
    utf8Run st (s ++ a :: t) = true → utf8Run st s = true ∧ validUtf8 t = true
  | st, [], h => by
      rw [List.nil_append, utf8Run] at h
      cases hnext : st.next a with
      | none =>
          rw [hnext] at h
          cases h
      | some st' =>
          rw [hnext] at h
          obtain ⟨rfl, rfl⟩ := utf8_next_ascii ha hnext
          exact ⟨rfl, h⟩
  | st, c :: s, h => by
      rw [List.cons_append, utf8Run] at h
      rw [utf8Run]
      cases hnext : st.next c with
      | none =>
          rw [hnext] at h
          cases h
      | some st' =>
          rw [hnext] at h
          exact utf8Run_cut ha h

theorem validUtf8_of_ascii {s : Bytes} (h : ∀ c ∈ s, c < 0x80) : validUtf8 s = true := by
  have hs := validUtf8_append_ascii (s := []) h
  rw [List.append_nil] at hs
  rw [hs]
  rfl

end Lib
