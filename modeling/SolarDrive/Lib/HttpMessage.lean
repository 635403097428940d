import SolarDrive.Lib.Bytes

/-!
# The HTTP/1.1 response grammar

A reader of response messages: status line, field lines, an empty line, and a
body delimited by `Content-Length` (or by the end of the stream without one).
Optional blanks around a field value are not part of the value; a line feed
never occurs inside a line.

Two facts carry the proofs about writers. A header block of clean fields is
read back field by field (`parseFields_lines`), and the number of line feeds a
message uses is fixed by its number of fields (`count_lf_parseMessage`), so a
writer that slips an extra line into the head cannot be read as if it had not.
-/

namespace Lib.HttpMessage

/-- Visible characters, blanks and bytes above ASCII. -/
def isFieldByte (c : UInt8) : Bool := c == HTAB || (32 ≤ c && c != 127)

def isOws (c : UInt8) : Bool := c == SP || c == HTAB

/-- The characters of a field name. -/
def isTchar (c : UInt8) : Bool :=
  isDigit c || (65 ≤ c && c ≤ 90) || (97 ≤ c && c ≤ 122) ||
    (ascii "!#$%&*+-.^_|~").contains c || c == 39 || c == 96

/-- Split at the first CRLF. -/
def cutCrlf : Bytes → Option (Bytes × Bytes)
  | [] => none
  | c :: cs =>
      match cs with
      | [] => none
      | d :: ds =>
          if c = CR ∧ d = LF then some ([], ds)
          else (cutCrlf cs).map fun p => (c :: p.1, p.2)

def trimOws (s : Bytes) : Bytes :=
  ((s.dropWhile isOws).reverse.dropWhile isOws).reverse

structure Message where
  statusCode : Nat
  reason : Bytes
  fields : List (Bytes × Bytes)
  body : Bytes
deriving DecidableEq, Repr

/-- `HTTP-version SP 3DIGIT SP [ reason-phrase ]`. -/
def parseStatusLine : Bytes → Option (Nat × Bytes)
  | h :: t :: t' :: p :: s :: major :: dot :: minor :: sp :: a :: b :: c :: sp' :: reason =>
      if [h, t, t', p, s] = ascii "HTTP/" ∧ isDigit major ∧ dot = DOT ∧ isDigit minor ∧ sp = SP ∧
          [a, b, c].all isDigit ∧ sp' = SP ∧ reason.all isFieldByte then
        some (digitsValue [a, b, c], reason)
      else none
  | _ => none

/-- `field-name ":" OWS field-value OWS`. -/
def parseFieldLine (line : Bytes) : Option (Bytes × Bytes) :=
  match cutAt COLON line with
  | none => none
  | some (name, rest) =>
      if name ≠ [] ∧ name.all isTchar ∧ (trimOws rest).all isFieldByte then
        some (name, trimOws rest)
      else none

/-- The field lines up to the empty line; the first argument is fuel. -/
def parseFields : Nat → Bytes → Option (List (Bytes × Bytes) × Bytes)
  | 0, _ => none
  | n + 1, s =>
      match cutCrlf s with
      | none => none
      | some (line, rest) =>
          if line = [] then some ([], rest)
          else
            match parseFieldLine line with
            | none => none
            | some f => (parseFields n rest).map fun p => (f :: p.1, p.2)

/-- The values of a field, whatever the case of its name. -/
def valuesOf (name : Bytes) (fields : List (Bytes × Bytes)) : List Bytes :=
  (fields.filter fun f => f.1.map toLower = name).map Prod.snd

/-- A message and what follows it on the stream. A transfer coding is not
read; interim, 204 and 304 responses have no body. -/
def parseMessage (s : Bytes) : Option (Message × Bytes) :=
  match cutCrlf s with
  | none => none
  | some (line, rest) =>
      match parseStatusLine line, parseFields rest.length rest with
      | some (statusCode, reason), some (fields, tail) =>
          if valuesOf (ascii "transfer-encoding") fields ≠ [] then none
          else if statusCode < 200 ∨ statusCode = 204 ∨ statusCode = 304 then
            some ({ statusCode, reason, fields, body := [] }, tail)
          else
            match valuesOf (ascii "content-length") fields with
            | [] => some ({ statusCode, reason, fields, body := tail }, [])
            | [v] =>
                if v ≠ [] ∧ v.all isDigit ∧ digitsValue v ≤ tail.length then
                  some ({ statusCode, reason, fields, body := tail.take (digitsValue v) },
                    tail.drop (digitsValue v))
                else none
            | _ => none
      | _, _ => none

/-! ## Lines -/

theorem cutCrlf_sound : ∀ {s l r : Bytes}, cutCrlf s = some (l, r) → s = l ++ CR :: LF :: r
  | [], _, _, h => by simp [cutCrlf] at h
  | [c], _, _, h => by simp [cutCrlf] at h
  | c :: d :: ds, l, r, h => by
      rw [cutCrlf] at h
      split at h
      · rename_i hc
        obtain ⟨rfl, rfl⟩ := hc
        cases h
        rfl
      · obtain ⟨⟨l', r'⟩, hcut, heq⟩ := Option.map_eq_some_iff.mp h
        cases heq
        rw [cutCrlf_sound hcut]
        rfl

/-- Without a line feed in front, the first CRLF is the one in sight. -/
theorem cutCrlf_append (r : Bytes) : ∀ {l : Bytes}, LF ∉ l →
    cutCrlf (l ++ CR :: LF :: r) = some (l, r)
  | [], _ => by simp [cutCrlf]
  | [c], h => by
      have hcr : ¬ (c = CR ∧ CR = LF) := by
        rintro ⟨-, h⟩
        exact absurd h (by decide)
      simp [cutCrlf, hcr]
  | c :: d :: l, h => by
      have hd : d ≠ LF := fun e => h (by simp [e])
      have ih := cutCrlf_append r (l := d :: l) fun hm => h (List.mem_cons_of_mem c hm)
      rw [List.cons_append, List.cons_append, cutCrlf, if_neg fun hc => hd hc.2]
      rw [List.cons_append] at ih
      rw [ih]
      rfl

theorem isFieldByte_ne_lf {c : UInt8} (h : isFieldByte c = true) : c ≠ LF := by
  rintro rfl
  exact absurd h (by decide)

theorem isTchar_ne_lf {c : UInt8} (h : isTchar c = true) : c ≠ LF := by
  rintro rfl
  exact absurd h (by decide)

theorem lf_not_mem_of_all {p : UInt8 → Bool} (hp : ∀ {c}, p c = true → c ≠ LF) {s : Bytes}
    (h : s.all p = true) : LF ∉ s := fun hm => hp (List.all_eq_true.mp h LF hm) rfl

theorem not_mem_of_dropWhile {p : UInt8 → Bool} {x : UInt8} (hp : p x = false) {s : Bytes}
    (h : x ∉ s.dropWhile p) : x ∉ s := by
  intro hx
  rw [← List.takeWhile_append_dropWhile (p := p) (l := s)] at hx
  rcases List.mem_append.mp hx with hx | hx
  · rw [List.mem_takeWhile_imp hx] at hp
    cases hp
  · exact h hx

theorem lf_not_mem_of_trimOws {s : Bytes} (h : LF ∉ trimOws s) : LF ∉ s := by
  have hl : isOws LF = false := rfl
  apply not_mem_of_dropWhile hl
  intro hm
  exact not_mem_of_dropWhile hl (fun hx => h (List.mem_reverse.mpr hx)) (List.mem_reverse.mpr hm)

/-! ## Values -/

/-- A text that is its own field value: printable, no blank at either end. -/
def FieldValue (v : Bytes) : Prop :=
  v.all isFieldByte = true ∧ (∀ c ∈ v.head?, isOws c = false) ∧ ∀ c ∈ v.getLast?, isOws c = false

instance (v : Bytes) : Decidable (FieldValue v) :=
  inferInstanceAs (Decidable (_ ∧ (∀ c ∈ v.head?, _) ∧ ∀ c ∈ v.getLast?, _))

theorem dropWhile_eq_self {p : UInt8 → Bool} {s : Bytes} (h : ∀ c ∈ s.head?, p c = false) :
    s.dropWhile p = s := by
  cases s with
  | nil => rfl
  | cons c r =>
      have hc : p c = false := h c rfl
      simp [hc]

theorem head?_dropWhile {p : UInt8 → Bool} : ∀ (s : Bytes), ∀ c ∈ (s.dropWhile p).head?, p c = false
  | [], c, h => by simp at h
  | x :: xs, c, h => by
      rw [List.dropWhile_cons] at h
      split at h
      · exact head?_dropWhile xs c h
      · rename_i hx
        obtain rfl : x = c := by simpa using h
        simpa using hx

theorem trimOws_of_fieldValue {v : Bytes} (h : FieldValue v) : trimOws (SP :: v) = v := by
  have h1 : (SP :: v).dropWhile isOws = v := by
    rw [List.dropWhile_cons, if_pos (by decide), dropWhile_eq_self h.2.1]
  have h2 : v.reverse.dropWhile isOws = v.reverse := by
    apply dropWhile_eq_self
    intro c hc
    rw [List.head?_reverse] at hc
    exact h.2.2 c hc
  rw [trimOws, h1, h2, List.reverse_reverse]

/-- Trimming leaves no blank at either end. -/
theorem fieldValue_trimOws {s : Bytes} (h : (trimOws s).all isFieldByte = true) :
    FieldValue (trimOws s) := by
  refine ⟨h, ?_, ?_⟩
  · intro c hc
    -- the first byte left is the first byte after the leading blanks
    unfold trimOws at hc
    rw [List.head?_reverse] at hc
    have hsuffix : (s.dropWhile isOws).reverse.dropWhile isOws <:+ (s.dropWhile isOws).reverse :=
      List.dropWhile_suffix _
    obtain ⟨pre, hpre⟩ := hsuffix
    have hlast : ((s.dropWhile isOws).reverse).getLast? = some c := by
      rw [← hpre, List.getLast?_append, hc]
      rfl
    rw [List.getLast?_reverse] at hlast
    exact head?_dropWhile s c hlast
  · intro c hc
    unfold trimOws at hc
    rw [List.getLast?_reverse] at hc
    exact head?_dropWhile _ c hc

theorem parseFieldLine_sound {line name value : Bytes}
    (h : parseFieldLine line = some (name, value)) : LF ∉ line ∧ FieldValue value := by
  unfold parseFieldLine at h
  cases hc : cutAt COLON line with
  | none => rw [hc] at h; cases h
  | some p =>
      obtain ⟨l, r⟩ := p
      rw [hc] at h
      simp only at h
      split at h
      · rename_i hok
        obtain ⟨-, hname, hval⟩ := hok
        cases h
        refine ⟨?_, fieldValue_trimOws hval⟩
        rw [cutAt_sound hc]
        intro hm
        rcases List.mem_append.mp hm with hm | hm
        · exact lf_not_mem_of_all isTchar_ne_lf hname hm
        · rcases List.mem_cons.mp hm with e | hm
          · exact absurd e (by decide)
          · exact lf_not_mem_of_trimOws (lf_not_mem_of_all isFieldByte_ne_lf hval) hm
      · cases h

/-! ## Header blocks -/

/-- A field as it is written. -/
def fieldLine (f : Bytes × Bytes) : Bytes := f.1 ++ ascii ": " ++ f.2 ++ [CR, LF]

/-- A name and a value that read back as themselves. -/
structure CleanField (f : Bytes × Bytes) : Prop where
  name : f.1 ≠ [] ∧ f.1.all isTchar = true
  value : FieldValue f.2

theorem colon_not_mem_of_tchar {s : Bytes} (h : s.all isTchar = true) : COLON ∉ s := fun hm =>
  absurd (List.all_eq_true.mp h COLON hm) (by decide)

theorem parseFieldLine_clean {f : Bytes × Bytes} (h : CleanField f) :
    parseFieldLine (f.1 ++ ascii ": " ++ f.2) = some f := by
  have hcut : cutAt COLON (f.1 ++ ascii ": " ++ f.2) = some (f.1, SP :: f.2) := by
    rw [List.append_assoc]
    exact cutAt_append (SP :: f.2) (colon_not_mem_of_tchar h.name.2)
  rw [parseFieldLine, hcut]
  simp only [trimOws_of_fieldValue h.value]
  rw [if_pos ⟨h.name.1, h.name.2, h.value.1⟩]

/-- **A block of clean fields is read back.** -/
theorem parseFields_lines (body : Bytes) : ∀ {fs : List (Bytes × Bytes)} {n : Nat},
    (∀ f ∈ fs, CleanField f) → fs.length < n →
    parseFields n (fs.flatMap fieldLine ++ CR :: LF :: body) = some (fs, body)
  | [], n + 1, _, _ => by simp [parseFields, cutCrlf]
  | f :: fs, n + 1, h, hn => by
      have hf : CleanField f := h f List.mem_cons_self
      have ih := parseFields_lines body (fun x hx => h x (List.mem_cons_of_mem f hx))
        (Nat.lt_of_succ_lt_succ hn)
      have hline : parseFieldLine (f.1 ++ ascii ": " ++ f.2) = some f := parseFieldLine_clean hf
      have hlf : LF ∉ f.1 ++ ascii ": " ++ f.2 := (parseFieldLine_sound hline).1
      have hne : f.1 ++ ascii ": " ++ f.2 ≠ [] := by
        simp [hf.name.1]
      have hsplit : (f :: fs).flatMap fieldLine ++ CR :: LF :: body =
          (f.1 ++ ascii ": " ++ f.2) ++ CR :: LF :: (fs.flatMap fieldLine ++ CR :: LF :: body) := by
        simp [fieldLine]
      rw [hsplit, parseFields, cutCrlf_append _ hlf]
      simp only [if_neg hne, hline, ih, Option.map_some]

/-- One line feed per field, one for the empty line. -/
theorem parseFields_sound : ∀ {n : Nat} {s : Bytes} {fs : List (Bytes × Bytes)} {rest : Bytes},
    parseFields n s = some (fs, rest) →
    (∀ f ∈ fs, FieldValue f.2) ∧ s.count LF = fs.length + 1 + rest.count LF
  | 0, s, fs, rest, h => by simp [parseFields] at h
  | n + 1, s, fs, rest, h => by
      have hcr : (CR == LF) = false := rfl
      rw [parseFields] at h
      cases hc : cutCrlf s with
      | none => rw [hc] at h; cases h
      | some p =>
          obtain ⟨line, tail⟩ := p
          have hs := cutCrlf_sound hc
          rw [hc] at h
          simp only at h
          split at h
          · rename_i hnil
            cases h
            rw [hs, hnil]
            simp [List.count_cons, hcr]
            omega
          · cases hl : parseFieldLine line with
            | none => rw [hl] at h; cases h
            | some f =>
                rw [hl] at h
                obtain ⟨⟨fs', rest'⟩, hrec, heq⟩ := Option.map_eq_some_iff.mp h
                cases heq
                obtain ⟨hvals, hcount⟩ := parseFields_sound hrec
                obtain ⟨hlf, hval⟩ := parseFieldLine_sound hl
                refine ⟨List.forall_mem_cons.mpr ⟨hval, hvals⟩, ?_⟩
                have hline : line.count LF = 0 := List.count_eq_zero.mpr hlf
                rw [hs, List.count_append, hline, List.count_cons, List.count_cons, hcount]
                simp [hcr]
                omega

/-! ## Messages -/

theorem parseStatusLine_sound {line reason : Bytes} {code : Nat}
    (h : parseStatusLine line = some (code, reason)) : LF ∉ line ∧ reason.all isFieldByte = true := by
  unfold parseStatusLine at h
  split at h
  · split at h
    · rename_i hok
      obtain ⟨hver, hmaj, rfl, hmin, rfl, hcode, rfl, hreason⟩ := hok
      cases h
      have hd : ∀ {c : UInt8}, isDigit c = true → c ≠ LF := by
        rintro c hc rfl
        exact absurd hc (by decide)
      have hv : LF ∉ ascii "HTTP/" := by decide
      rw [← hver] at hv
      have hc := lf_not_mem_of_all hd hcode
      have hr := lf_not_mem_of_all isFieldByte_ne_lf hreason
      have h1 := (hd hmaj).symm
      have h2 := (hd hmin).symm
      have h3 : LF ≠ DOT ∧ LF ≠ SP := by decide
      refine ⟨?_, hreason⟩
      simp only [List.mem_cons, List.not_mem_nil, or_false, not_or] at hv hc ⊢
      simp only [h1, h2, h3.1, h3.2, hr, hv, hc, not_false_eq_true, and_self]
    · cases h
  · cases h

/-- What a fully read message says about the text it was read from. -/
theorem parseMessage_sound {s : Bytes} {m : Message} (h : parseMessage s = some (m, [])) :
    ∃ line rest, cutCrlf s = some (line, rest) ∧
      parseStatusLine line = some (m.statusCode, m.reason) ∧
      (∀ f ∈ m.fields, FieldValue f.2) ∧
      rest.count LF = m.fields.length + 1 + m.body.count LF := by
  unfold parseMessage at h
  cases hc : cutCrlf s with
  | none => rw [hc] at h; cases h
  | some p =>
      obtain ⟨line, rest⟩ := p
      rw [hc] at h
      simp only at h
      cases hl : parseStatusLine line with
      | none => rw [hl] at h; cases h
      | some q =>
          cases hf : parseFields rest.length rest with
          | none => rw [hl, hf] at h; cases h
          | some r =>
              obtain ⟨code, reason⟩ := q
              obtain ⟨fields, tail⟩ := r
              obtain ⟨hvals, hcount⟩ := parseFields_sound hf
              rw [hl, hf] at h
              simp only at h
              split at h
              · cases h
              · split at h
                · cases h
                  exact ⟨line, rest, rfl, hl, hvals, hcount⟩
                · split at h
                  · cases h
                    exact ⟨line, rest, rfl, hl, hvals, hcount⟩
                  · rename_i v _
                    split at h
                    · obtain ⟨hm, hdrop⟩ := Prod.mk.inj (Option.some.inj h)
                      rw [← hm]
                      refine ⟨line, rest, rfl, hl, hvals, ?_⟩
                      have htake : tail.take (digitsValue v) = tail := by
                        apply List.take_of_length_le
                        exact List.drop_eq_nil_iff.mp hdrop
                      rw [hcount, htake]
                    · cases h
                  · cases h

/-- A written message is read back: a status line the grammar knows, clean
fields without a transfer coding, one `Content-Length` that counts the body. -/
theorem parseMessage_written {line reason body : Bytes} {code : Nat} {fs : List (Bytes × Bytes)}
    (hline : parseStatusLine line = some (code, reason))
    (hcode : ¬ (code < 200 ∨ code = 204 ∨ code = 304)) (hfs : ∀ f ∈ fs, CleanField f)
    (hte : valuesOf (ascii "transfer-encoding") fs = [])
    (hcl : valuesOf (ascii "content-length") fs = [decimal body.length]) :
    parseMessage (line ++ CR :: LF :: (fs.flatMap fieldLine ++ CR :: LF :: body)) =
      some ({ statusCode := code, reason, fields := fs, body }, []) := by
  have hlf := (parseStatusLine_sound hline).1
  have hfuel : fs.length < (fs.flatMap fieldLine ++ CR :: LF :: body).length := by
    have hlen : ∀ gs : List (Bytes × Bytes), gs.length ≤ (gs.flatMap fieldLine).length := by
      intro gs
      induction gs with
      | nil => simp
      | cons g gs ih =>
          simp only [List.flatMap_cons, List.length_append, List.length_cons, fieldLine]
          omega
    have := hlen fs
    simp only [List.length_append, List.length_cons]
    omega
  have hdig : decimal body.length ≠ [] ∧ (decimal body.length).all isDigit = true :=
    ⟨decimal_ne_nil _, List.all_eq_true.mpr fun c hc => isDigit_of_mem_decimal hc⟩
  rw [parseMessage, cutCrlf_append _ hlf]
  simp only [hline, parseFields_lines body hfs hfuel, hte, hcl, hcode, ne_eq, not_true_eq_false,
    if_false, digitsValue_decimal, hdig, not_false_eq_true, le_refl, and_self, if_true,
    List.take_length, List.drop_length]

end Lib.HttpMessage
