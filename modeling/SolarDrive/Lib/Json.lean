import SolarDrive.Lib.Utf8

/-!
# JSON values and the JSON library

`Json` is a parsed document. `JsonLib` is the library that reads and writes
texts, kept abstract: `parse` and `dump` fail with the text of their exception
(`what()`). `JsonLib.Lawful` is what is relied on: a flat document (scalars
under at most one array or object) is written exactly when its strings are
UTF-8 and is read back, escapes keep NUL out of the text, and the library's own
complaint about bad UTF-8 is itself UTF-8.

The accessors follow the library: `operator[]`, `value`, `contains` and the
typed `get`, with the library's exception texts.
-/

namespace Lib

/-- A JSON document. A fractional number only matters through its truncation
to an integer, which is what it carries. -/
inductive Json where
  | null
  | bool (b : Bool)
  | int (i : Int)
  | float (trunc : Int)
  | str (s : Bytes)
  | arr (xs : List Json)
  | obj (kvs : List (Bytes × Json))
deriving Repr

namespace Json

/-- Not an array and not an object, and no number outside the 64-bit ranges. -/
def isScalar : Json → Bool
  | .null => true
  | .bool _ => true
  | .int i => -(2 ^ 63) ≤ i && i < 2 ^ 64
  | .str _ => true
  | _ => false

/-- Lexicographic order of keys, as `std::map` keeps them. -/
def keyLt : Bytes → Bytes → Bool
  | [], [] => false
  | [], _ :: _ => true
  | _ :: _, [] => false
  | a :: as, b :: bs => a < b || (a == b && keyLt as bs)

def keysSorted : List (Bytes × Json) → Bool
  | [] => true
  | [_] => true
  | p :: q :: rest => keyLt p.1 q.1 && keysSorted (q :: rest)

/-- Scalars, arrays of scalars, objects of scalars. -/
def isFlat : Json → Bool
  | .arr xs => xs.all isScalar
  | .obj kvs => kvs.all (fun p => isScalar p.2) && keysSorted kvs
  | j => isScalar j

def scalarText : Json → List Bytes
  | .str s => [s]
  | _ => []

/-- The strings a flat document holds, keys included. -/
def texts : Json → List Bytes
  | .arr xs => xs.flatMap scalarText
  | .obj kvs => kvs.flatMap fun p => p.1 :: scalarText p.2
  | j => scalarText j

def typeName : Json → Bytes
  | .null => ascii "null"
  | .bool _ => ascii "boolean"
  | .int _ => ascii "number"
  | .float _ => ascii "number"
  | .str _ => ascii "string"
  | .arr _ => ascii "array"
  | .obj _ => ascii "object"

/-! ### Accessors

The error of each is the exception text. -/

def typeError302 (want : String) (j : Json) : Bytes :=
  ascii "[json.exception.type_error.302] type must be " ++ ascii want ++ ascii ", but is " ++
    j.typeName

/-- `get<std::string>()`. -/
def getString : Json → Except Bytes Bytes
  | .str s => .ok s
  | j => .error (typeError302 "string" j)

/-- `get<int64_t>()`: any number. -/
def getInt64 : Json → Except Bytes Int
  | .int i => .ok (Int.bmod i (2 ^ 64))
  | .float t => .ok t
  | j => .error (typeError302 "number" j)

/-- `get<int>()`: any number or boolean, narrowed to 32 bits. -/
def getInt : Json → Except Bytes Int
  | .int i => .ok (Int.bmod i (2 ^ 32))
  | .float t => .ok (Int.bmod t (2 ^ 32))
  | .bool b => .ok (if b then 1 else 0)
  | j => .error (typeError302 "number" j)

def getBool : Json → Except Bytes Bool
  | .bool b => .ok b
  | j => .error (typeError302 "boolean" j)

/-- `get<std::vector<T>>()`. -/
def getArray {α : Type} (elem : Json → Except Bytes α) : Json → Except Bytes (List α)
  | .arr xs => xs.mapM elem
  | j => .error (typeError302 "array" j)

/-- `j[key]` on a mutable value: a missing key (or a null value) yields null. -/
def index (j : Json) (key : Bytes) : Except Bytes Json :=
  match j with
  | .obj kvs => .ok ((kvs.lookup key).getD .null)
  | .null => .ok .null
  | j => .error (ascii "[json.exception.type_error.305] cannot use operator[] with a string argument with " ++
      j.typeName)

/-- `j.value(key, default)` with the getter of the default's type. -/
def value {α : Type} (j : Json) (key : Bytes) (get : Json → Except Bytes α) (default : α) :
    Except Bytes α :=
  match j with
  | .obj kvs =>
      match kvs.lookup key with
      | some v => get v
      | none => .ok default
  | j => .error (ascii "[json.exception.type_error.306] cannot use value() with " ++ j.typeName)

def contains (j : Json) (key : Bytes) : Bool :=
  match j with
  | .obj kvs => (kvs.lookup key).isSome
  | _ => false

def isNull : Json → Bool
  | .null => true
  | _ => false

end Json

/-- The JSON library: reading and writing texts. -/
structure JsonLib where
  parse : Bytes → Except Bytes Json
  dump : Json → Except Bytes Bytes

/-- What is relied on of the JSON library. -/
structure JsonLib.Lawful (L : JsonLib) : Prop where
  /-- A flat document of UTF-8 strings is written, without NUL, and read back. -/
  dump_flat : ∀ j, j.isFlat = true → (∀ s ∈ j.texts, validUtf8 s = true) →
    ∃ t, L.dump j = .ok t ∧ NUL ∉ t ∧ L.parse t = .ok j
  /-- A flat document with any other string is refused. -/
  dump_bad : ∀ j, j.isFlat = true → ¬ (∀ s ∈ j.texts, validUtf8 s = true) →
    ∃ w, L.dump j = .error w
  /-- The refusal names a byte position in ASCII. -/
  dump_what : ∀ j w, L.dump j = .error w → validUtf8 w = true
  /-- The empty text is not a document. -/
  parse_nil : ∀ j, L.parse [] ≠ .ok j

/-- An array of ASCII strings is written in ASCII. -/
def JsonLib.WritesAscii (L : JsonLib) : Prop :=
  ∀ (ss : List Bytes) (t : Bytes), (∀ s ∈ ss, ∀ c ∈ s, c < 0x80) →
    L.dump (.arr (ss.map .str)) = .ok t → ∀ c ∈ t, c < 0x80

theorem JsonLib.Lawful.parse_dump {L : JsonLib} (h : L.Lawful) {j : Json} {t : Bytes}
    (hj : j.isFlat = true) (ht : L.dump j = .ok t) : NUL ∉ t ∧ L.parse t = .ok j := by
  by_cases hu : ∀ s ∈ j.texts, validUtf8 s = true
  · obtain ⟨t', hd, hn, hp⟩ := h.dump_flat j hj hu
    rw [hd] at ht
    cases ht
    exact ⟨hn, hp⟩
  · obtain ⟨w, hw⟩ := h.dump_bad j hj hu
    rw [hw] at ht
    cases ht

theorem JsonLib.Lawful.dump_ne_nil {L : JsonLib} (h : L.Lawful) {j : Json} {t : Bytes}
    (hj : j.isFlat = true) (ht : L.dump j = .ok t) : t ≠ [] := by
  rintro rfl
  exact h.parse_nil j (h.parse_dump hj ht).2

/-- Two flat documents with one text are equal. -/
theorem JsonLib.Lawful.dump_injective {L : JsonLib} (h : L.Lawful) {j j' : Json} {t : Bytes}
    (hj : j.isFlat = true) (hj' : j'.isFlat = true) (ht : L.dump j = .ok t)
    (ht' : L.dump j' = .ok t) : j = j' := by
  have hp := (h.parse_dump hj ht).2
  rw [(h.parse_dump hj' ht').2] at hp
  exact (Except.ok.inj hp).symm

end Lib
