import SolarDrive.Http.ParserExact
import SolarDrive.Http.HeaderCase

/-!
# Header values as they are stored

A request in which header values may be empty and names may repeat. The state that skips
the blanks before a value takes the first other byte as part of it, and does not look
whether it is the end of the line: an empty value is stored as a carriage return
(`stored`), and everything else is as it should be (`moves_line`). So the parser delivers the
values faithfully exactly when none is empty.
-/

namespace SolarDrive.Http

open Lib

/-! ## Requests with any header values -/

/-- The versions that a request line can name. -/
inductive WireVersion where
  | http10
  | http11
deriving DecidableEq

def WireVersion.text : WireVersion → Bytes
  | .http10 => ascii "HTTP/1.0"
  | .http11 => ascii "HTTP/1.1"

/-- A header line: the name, and all that stands behind the colon. -/
structure HeaderText where
  name : Bytes
  text : Bytes
  name_clean : name ≠ [] ∧ COLON ∉ name ∧ CR ∉ name ∧ LF ∉ name
  text_clean : CR ∉ text ∧ LF ∉ text

namespace HeaderText

def line (h : HeaderText) : Bytes := h.name ++ COLON :: (h.text ++ [CR, LF])

/-- The value: the text without the blanks before it. -/
def value (h : HeaderText) : Bytes := h.text.dropWhile (· == SP)

/-- What the parser takes for the value. -/
def stored (h : HeaderText) : Bytes := if h.value = [] then [CR] else h.value

end HeaderText

/-- The map of some headers that are added one after the other. -/
def headerMap (hs : List (Bytes × Bytes)) : List (Bytes × Bytes) :=
  hs.foldl (fun m h => setKey h.1 h.2 m) []

/-- A request as a client writes it. The body is framed by the last `Content-Length`; none, or an
empty one, means that there is no body. -/
structure RequestText where
  method : HttpMethod
  path : Bytes
  query : Option Bytes
  version : WireVersion
  headers : List HeaderText
  body : Bytes
  method_known : method ≠ .UNKNOWN
  path_slash : path.head? = some SLASH
  path_clean : SP ∉ path ∧ QMARK ∉ path
  query_clean : ∀ q ∈ query, SP ∉ q
  framed : HttpRequest.bodyLength
    { headers := headerMap (headers.map fun h => (h.name, h.value)) } = .ok body.length

namespace RequestText

/-- The request line and the header lines. -/
def head (m : RequestText) : Bytes :=
  methodText m.method ++ SP :: (HttpParser.targetText m.path m.query ++ SP ::
    (m.version.text ++ ([CR, LF] ++ m.headers.flatMap HeaderText.line)))

def wire (m : RequestText) : Bytes := m.head ++ CR :: LF :: m.body

/-- The headers that the text has. -/
def pairs (m : RequestText) : List (Bytes × Bytes) := m.headers.map fun h => (h.name, h.value)

/-- The request that the text stands for. -/
def requested (m : RequestText) : HttpRequest where
  method := m.method
  path := m.path
  query := m.query.getD []
  version := m.version.text
  headers := headerMap m.pairs
  body := m.body

end RequestText

namespace HttpParser

/-- The pairs that are passed to `add_header` while a text is read, in order. -/
def added (p : HttpParser) : Bytes → List (Bytes × Bytes)
  | [] => []
  | c :: cs =>
      (if p.endsLine c then [(p.curHeaderField, p.curHeaderValue)] else []) ++
        match p.feedByte c with
        | .ok (q, _) => added q cs
        | .error _ => []

/-- A text moves the parser, hands nothing over and adds these headers. -/
structure Moves (p : HttpParser) (xs : Bytes) (q : HttpParser) (log : List (Bytes × Bytes)) :
    Prop where
  feed_eq : p.feed xs = .ok (q, [])
  added_eq : p.added xs = log

section Moves

variable {p q r : HttpParser} {xs ys : Bytes} {log log' : List (Bytes × Bytes)}

theorem added_append (h : p.feed xs = .ok (q, [])) (ys : Bytes) :
    p.added (xs ++ ys) = p.added xs ++ q.added ys := by
  induction xs generalizing p with
  | nil =>
      cases h
      rfl
  | cons c cs ih =>
      rw [feed] at h
      rw [List.cons_append, added, added]
      cases hbyte : p.feedByte c with
      | error e =>
          rw [hbyte] at h
          cases h
      | ok s =>
          obtain ⟨s, out⟩ := s
          rw [hbyte] at h
          dsimp only at h ⊢
          cases hrest : s.feed cs with
          | error e =>
              rw [hrest] at h
              cases h
          | ok t =>
              obtain ⟨t, out'⟩ := t
              rw [hrest] at h
              simp only [Except.ok.injEq, Prod.mk.injEq, List.append_eq_nil_iff] at h
              obtain ⟨rfl, -, rfl⟩ := h
              rw [ih hrest, List.append_assoc]

theorem Moves.nil (p : HttpParser) : Moves p [] p [] := ⟨rfl, rfl⟩

theorem Moves.append (h : Moves p xs q log) (h' : Moves q ys r log') :
    Moves p (xs ++ ys) r (log ++ log') where
  feed_eq := by rw [feed_silent h.feed_eq, h'.feed_eq]
  added_eq := by rw [added_append h.feed_eq, h.added_eq, h'.added_eq]

/-- One byte that does not complete the request. -/
theorem Moves.byte {c : UInt8} (h : p.parseChar c = .ok q) (hq : q.complete = false) :
    Moves p [c] q (if p.endsLine c then [(p.curHeaderField, p.curHeaderValue)] else []) := by
  have hbyte : p.feedByte c = .ok (q, []) := by
    unfold feedByte
    rw [h]
    dsimp only
    rw [hq]
    rfl
  constructor
  · rw [feed, hbyte]
    rfl
  · rw [added, hbyte]
    exact List.append_nil _

/-- Only in a value can a byte end a line. -/
theorem Moves.quiet {c : UInt8} {s : State} (h : p.parseChar c = .ok q) (hq : q.complete = false)
    (hst : p.state = s) (hne : s ≠ .headerValue) : Moves p [c] q [] := by
  have hline : p.endsLine c = false := decide_eq_false fun hends => hne (hst ▸ hends.1)
  have hbyte := Moves.byte h hq
  rw [hline] at hbyte
  exact hbyte

/-- A run of bytes that a state collects, or skips. -/
theorem Moves.absorb (f : Bytes → HttpParser) (ok : UInt8 → Prop)
    (hstep : ∀ acc c, ok c → (f acc).parseChar c = .ok (f (acc ++ [c])))
    (hinc : ∀ acc, (f acc).complete = false)
    (hline : ∀ acc c, ok c → (f acc).endsLine c = false) :
    ∀ (xs acc : Bytes), (∀ c ∈ xs, ok c) → Moves (f acc) xs (f (acc ++ xs)) [] := by
  intro xs
  induction xs with
  | nil =>
      intro acc _
      rw [List.append_nil]
      exact .nil _
  | cons c cs ih =>
      intro acc hok
      have hc := hok c List.mem_cons_self
      have hfirst := Moves.byte (hstep acc c hc) (hinc _)
      rw [hline acc c hc] at hfirst
      have hrest := ih (acc ++ [c]) fun x hx => hok x (List.mem_cons_of_mem _ hx)
      rw [List.append_assoc] at hrest
      exact hfirst.append hrest

end Moves

/-! ## One line -/

section Line

variable {p : HttpParser}

theorem endsLine_of_state {s : State} (hst : p.state = s) (hne : s ≠ .headerValue) (c : UInt8) :
    p.endsLine c = false := decide_eq_false fun hline => hne (hst ▸ hline.1)

/-- From the first byte of the name to the colon and the blanks behind it. -/
theorem moves_name {name blanks : Bytes} (hst : p.state = .headerLF) (hinc : p.complete = false)
    (hname : name ≠ [] ∧ COLON ∉ name ∧ CR ∉ name ∧ LF ∉ name) (hblanks : ∀ c ∈ blanks, c = SP) :
    Moves p (name ++ COLON :: blanks)
      { p with curHeaderField := name, state := .headerBeforeValue } [] := by
  obtain ⟨hne, hcolon, hcr, hlf⟩ := hname
  cases name with
  | nil => exact absurd rfl hne
  | cons n ns =>
      rw [List.mem_cons, not_or] at hcolon hcr hlf
      have hn : p.parseChar n = .ok { p with curHeaderField := [n], state := .headerField } := by
        simp only [parseChar, hst, if_neg (Ne.symm hcr.1), if_neg (Ne.symm hlf.1)]
      have hfirst := Moves.quiet hn hinc hst (by decide)
      have hrest := Moves.absorb
        (fun acc => { p with curHeaderField := acc, state := .headerField }) (fun c => c ≠ COLON)
        (fun acc c hc => by simp only [parseChar, if_neg hc]) (fun _ => hinc)
        (fun acc c _ => endsLine_of_state (s := .headerField) rfl (by decide) c) ns [n]
        (fun c hc e => hcolon.2 (e ▸ hc))
      have hend := Moves.quiet (s := .headerField)
        (p := { p with curHeaderField := n :: ns, state := .headerField })
        (q := { p with curHeaderField := n :: ns, state := .headerBeforeValue }) (c := COLON)
        rfl hinc rfl (by decide)
      have hskip := Moves.absorb
        (fun _ => { p with curHeaderField := n :: ns, state := .headerBeforeValue })
        (fun c => c = SP) (fun acc c hc => by simp only [parseChar, if_pos hc]) (fun _ => hinc)
        (fun acc c _ => endsLine_of_state (s := .headerBeforeValue) rfl (by decide) c) blanks []
        hblanks
      have hall := ((hfirst.append hrest).append hend).append hskip
      rwa [List.append_assoc, List.append_assoc] at hall

/-- A value that is not empty, to the end of its line. -/
theorem moves_value {value : Bytes} (hst : p.state = .headerBeforeValue) (hinc : p.complete = false)
    (hne : value ≠ []) (hsp : value.head? ≠ some SP) (hcr : CR ∉ value) (hlf : LF ∉ value) :
    Moves p (value ++ [CR, LF])
      { p with curHeaderValue := value, state := .headerLF
               curReq := p.curReq.addHeader p.curHeaderField value }
      [(p.curHeaderField, value)] := by
  cases value with
  | nil => exact absurd rfl hne
  | cons v vs =>
      rw [List.mem_cons, not_or] at hcr hlf
      have hv : p.parseChar v = .ok { p with curHeaderValue := [v], state := .headerValue } := by
        have hblank : v ≠ SP := fun e => hsp (by rw [e]; rfl)
        simp only [parseChar, hst, if_neg hblank]
      have hfirst := Moves.quiet hv hinc hst (by decide)
      have hrest := Moves.absorb
        (fun acc => { p with curHeaderValue := acc, state := .headerValue })
        (fun c => c ≠ CR ∧ c ≠ LF)
        (fun acc c hc => by simp only [parseChar, if_neg hc.1, if_neg hc.2]) (fun _ => hinc)
        (fun acc c hc => decide_eq_false (by rintro ⟨-, h | h⟩; exacts [hc.1 h, hc.2 h])) vs [v]
        (fun c hc => ⟨fun e => hcr.2 (e ▸ hc), fun e => hlf.2 (e ▸ hc)⟩)
      have hreturn := Moves.byte (p := { p with curHeaderValue := v :: vs, state := .headerValue })
        (q := { p with curHeaderValue := v :: vs, state := .headerValueLF
                       curReq := p.curReq.addHeader p.curHeaderField (v :: vs) }) (c := CR)
        rfl hinc
      have hend := Moves.byte (p := { p with
          curHeaderValue := v :: vs, state := .headerValueLF
          curReq := p.curReq.addHeader p.curHeaderField (v :: vs) })
        (q := { p with curHeaderValue := v :: vs, state := .headerLF
                       curReq := p.curReq.addHeader p.curHeaderField (v :: vs) }) (c := LF)
        rfl hinc
      exact (hfirst.append hrest).append (hreturn.append hend)

/-- An empty value: the carriage return becomes the value, and the line feed ends it. -/
theorem moves_emptyValue (hst : p.state = .headerBeforeValue) (hinc : p.complete = false) :
    Moves p [CR, LF]
      { p with curHeaderValue := [CR], state := .headerLF
               curReq := p.curReq.addHeader p.curHeaderField [CR] }
      [(p.curHeaderField, [CR])] := by
  have hcr : p.parseChar CR = .ok { p with curHeaderValue := [CR], state := .headerValue } := by
    have hblank : CR ≠ SP := by decide
    simp only [parseChar, hst, if_neg hblank]
  have hfirst := Moves.quiet hcr hinc hst (by decide)
  have hend := Moves.byte (p := { p with curHeaderValue := [CR], state := .headerValue })
    (q := { p with curHeaderValue := [CR], state := .headerLF
                   curReq := p.curReq.addHeader p.curHeaderField [CR] }) (c := LF) rfl hinc
  exact hfirst.append hend

/-- A header line is read to its end, whatever its value, and what is stored is added. -/
theorem moves_line (h : HeaderText) (hst : p.state = .headerLF) (hinc : p.complete = false) :
    Moves p h.line
      { p with curHeaderField := h.name, curHeaderValue := h.stored
               curReq := p.curReq.addHeader h.name h.stored }
      [(h.name, h.stored)] := by
  have hsplit : h.line = (h.name ++ COLON :: h.text.takeWhile (· == SP)) ++ (h.value ++ [CR, LF]) := by
    unfold HeaderText.line HeaderText.value
    rw [List.append_assoc, List.cons_append, ← List.append_assoc (h.text.takeWhile _),
      List.takeWhile_append_dropWhile]
  have hblanks : ∀ c ∈ h.text.takeWhile (· == SP), c = SP := by
    intro c hc
    have hblank := List.mem_takeWhile_imp hc
    exact eq_of_beq hblank
  have hname := moves_name hst hinc h.name_clean hblanks
  have hmem : ∀ c, c ∈ h.value → c ∈ h.text := fun c hc => (List.dropWhile_sublist _).subset hc
  have hstate : { p with curHeaderField := h.name, curHeaderValue := h.stored
                         curReq := p.curReq.addHeader h.name h.stored } =
      { p with curHeaderField := h.name, curHeaderValue := h.stored, state := .headerLF
               curReq := p.curReq.addHeader h.name h.stored } := by
    rw [← hst]
  rw [hsplit, hstate]
  unfold HeaderText.stored
  by_cases hempty : h.value = []
  · rw [if_pos hempty, hempty]
    exact hname.append (moves_emptyValue rfl hinc)
  · rw [if_neg hempty]
    refine hname.append (moves_value rfl hinc hempty ?_ (fun hc => h.text_clean.1 (hmem _ hc))
      (fun hc => h.text_clean.2 (hmem _ hc)))
    intro hhead
    have hfirst := List.head?_dropWhile_not (· == SP) h.text
    unfold HeaderText.value at hhead
    rw [hhead] at hfirst
    exact absurd hfirst (by decide)

end Line

/-! ## The whole text -/

/-- The parser behind a header block. -/
def behind (p : HttpParser) (field val : Bytes) (hs : List (Bytes × Bytes)) : HttpParser :=
  { p with curHeaderField := field, curHeaderValue := val, curReq := { p.curReq with headers := hs } }

/-- The lines of a header block, each stored as it is read. -/
theorem moves_lines (hs : List HeaderText) : ∀ {p : HttpParser}, p.state = .headerLF →
    p.complete = false → ∃ field val, Moves p (hs.flatMap HeaderText.line)
      (p.behind field val ((hs.map fun h => (h.name, h.stored)).foldl
        (fun m h => setKey h.1 h.2 m) p.curReq.headers))
      (hs.map fun h => (h.name, h.stored)) := by
  induction hs with
  | nil => exact fun _ _ => ⟨_, _, Moves.nil _⟩
  | cons h hs ih =>
      intro p hst hinc
      obtain ⟨field, val, hrest⟩ := @ih (p.behind h.name h.stored
        (setKey h.name h.stored p.curReq.headers)) hst hinc
      exact ⟨field, val, (moves_line h hst hinc).append hrest⟩

/-- The version states: whichever version the text has, the request gets `HTTP/1.1`. -/
theorem moves_version {p : HttpParser} (v : WireVersion) (hst : p.state = .versionH)
    (hinc : p.complete = false) : ∃ buf, Moves p (v.text ++ [CR, LF])
      { p with state := .headerLF, versionBuf := buf
               curReq := { p.curReq with version := ascii "HTTP/1.1" } } [] := by
  obtain ⟨st, req, hf, hv, bb, rem, comp, mb, pb, qb, vb⟩ := p
  obtain rfl : st = .versionH := hst
  obtain rfl : comp = false := hinc
  cases v with
  | http10 => exact ⟨ascii "HT/1.0\r", rfl, rfl⟩
  | http11 => exact ⟨ascii "HT/1.1\r", rfl, rfl⟩

/-- The method, the path and the query. -/
theorem moves_target {m : HttpMethod} {path : Bytes} {query : Option Bytes} (hm : m ≠ .UNKNOWN)
    (hslash : path.head? = some SLASH) (hclean : SP ∉ path ∧ QMARK ∉ path)
    (hquery : ∀ q ∈ query, SP ∉ q) :
    Moves fresh (methodText m ++ SP :: (targetText path query ++ [SP]))
      { state := .versionH, curReq := { method := m, path := path, query := query.getD [] }
        methodBuf := methodText m, pathBuf := path, queryBuf := query.getD [] } [] := by
  have hmethod : Moves fresh (methodText m ++ [SP])
      { state := .beforePath, curReq := { method := m }, methodBuf := methodText m } [] := by
    cases m with
    | UNKNOWN => exact absurd rfl hm
    | GET => exact ⟨rfl, rfl⟩
    | POST => exact ⟨rfl, rfl⟩
    | PUT => exact ⟨rfl, rfl⟩
    | DELETE => exact ⟨rfl, rfl⟩
  -- the slash is taken by the state before the path, the rest by the path itself
  obtain ⟨xs, rfl⟩ : ∃ xs, path = SLASH :: xs := by
    cases path with
    | nil => cases hslash
    | cons x xs =>
        simp only [List.head?_cons, Option.some.injEq] at hslash
        exact ⟨xs, by rw [hslash]⟩
  rw [List.mem_cons, not_or, List.mem_cons, not_or] at hclean
  have hfirst := Moves.quiet (s := .beforePath) (c := SLASH)
    (p := { state := .beforePath, curReq := { method := m }, methodBuf := methodText m })
    (q := { state := .path, curReq := { method := m }, methodBuf := methodText m
            pathBuf := [SLASH] }) rfl rfl rfl (by decide)
  have hrest := Moves.absorb
    (fun acc => { state := .path, curReq := { method := m }, methodBuf := methodText m
                  pathBuf := acc })
    (fun c => c ≠ SP ∧ c ≠ QMARK)
    (fun acc c hc => by simp only [parseChar, if_neg hc.1, if_neg hc.2]) (fun _ => rfl)
    (fun acc c _ => endsLine_of_state (s := .path) rfl (by decide) c) xs [SLASH]
    (fun c hc => ⟨fun e => hclean.1.2 (e ▸ hc), fun e => hclean.2.2 (e ▸ hc)⟩)
  have hpath := (hmethod.append hfirst).append hrest
  cases query with
  | none =>
      have hend := Moves.quiet (s := .path) (c := SP)
        (p := { state := .path, curReq := { method := m }, methodBuf := methodText m
                pathBuf := SLASH :: xs })
        (q := { state := .versionH, curReq := { method := m, path := SLASH :: xs }
                methodBuf := methodText m, pathBuf := SLASH :: xs }) rfl rfl rfl (by decide)
      have hall := hpath.append hend
      simpa [targetText] using hall
  | some q =>
      have hmark := Moves.quiet (s := .path) (c := QMARK)
        (p := { state := .path, curReq := { method := m }, methodBuf := methodText m
                pathBuf := SLASH :: xs })
        (q := { state := .query, curReq := { method := m }, methodBuf := methodText m
                pathBuf := SLASH :: xs }) rfl rfl rfl (by decide)
      have hquery := Moves.absorb
        (fun acc => { state := .query, curReq := { method := m }, methodBuf := methodText m
                      pathBuf := SLASH :: xs, queryBuf := acc })
        (fun c => c ≠ SP) (fun acc c hc => by simp only [parseChar, if_neg hc]) (fun _ => rfl)
        (fun acc c _ => endsLine_of_state (s := .query) rfl (by decide) c) q []
        (fun c hc e => hquery q rfl (e ▸ hc))
      have hend := Moves.quiet (s := .query) (c := SP)
        (p := { state := .query, curReq := { method := m }, methodBuf := methodText m
                pathBuf := SLASH :: xs, queryBuf := q })
        (q := { state := .versionH, curReq := { method := m, path := SLASH :: xs, query := q }
                methodBuf := methodText m, pathBuf := SLASH :: xs, queryBuf := q })
        rfl rfl rfl (by decide)
      have hall := ((hpath.append hmark).append hquery).append hend
      simpa [targetText] using hall

/-- The headers as they are stored. -/
def storedPairs (m : RequestText) : List (Bytes × Bytes) :=
  m.headers.map fun h => (h.name, h.stored)

/-- The request line and the header lines: all headers are stored as they are read. -/
theorem moves_head (m : RequestText) : ∃ p, Moves fresh m.head p (storedPairs m) ∧
    p.state = .headerLF ∧ p.complete = false ∧
    p.curReq = { m.requested with
      version := ascii "HTTP/1.1", headers := headerMap (storedPairs m), body := [] } := by
  have htarget := moves_target m.method_known m.path_slash m.path_clean m.query_clean
  obtain ⟨buf, hversion⟩ := moves_version (p := {
    state := .versionH
    curReq := { method := m.method, path := m.path, query := m.query.getD [] }
    methodBuf := methodText m.method, pathBuf := m.path, queryBuf := m.query.getD [] })
    m.version rfl rfl
  obtain ⟨field, val, hlines⟩ := moves_lines m.headers (p := {
    state := .headerLF
    curReq := { method := m.method, path := m.path, query := m.query.getD []
                version := ascii "HTTP/1.1" }
    methodBuf := methodText m.method, pathBuf := m.path, queryBuf := m.query.getD []
    versionBuf := buf }) rfl rfl
  have hall := (htarget.append hversion).append hlines
  have hhead : m.head = methodText m.method ++ SP :: (targetText m.path m.query ++ [SP]) ++
      (m.version.text ++ [CR, LF]) ++ m.headers.flatMap HeaderText.line := by
    unfold RequestText.head
    simp only [List.append_assoc, List.cons_append, List.nil_append]
  rw [hhead]
  exact ⟨_, hall, rfl, rfl, rfl⟩

/-- A length that cannot be converted ends the parse. -/
theorem feed_end_error {p : HttpParser} {body : Bytes} {e : StoError} (hst : p.state = .headerLF)
    (hinc : p.complete = false) (hlength : p.curReq.bodyLength = .error e) :
    p.feed (CR :: LF :: body) = .error e := by
  have hreturn : p.parseChar CR = .ok { p with state := .headerFieldStart } := by
    simp only [parseChar, hst, if_true]
  rw [feed_cons hreturn hinc]
  unfold HttpRequest.bodyLength at hlength
  dsimp only at hlength
  by_cases hcl : p.curReq.getHeader (ascii "Content-Length") = []
  · rw [if_pos hcl] at hlength
    cases hlength
  · rw [if_neg hcl] at hlength
    have hblank : parseChar { p with state := .headerFieldStart } LF = .error e := by
      simp only [parseChar, if_true, transitionToBody, if_neg hcl, hlength]
    unfold feed feedByte
    rw [hblank]

end HttpParser

/-- What the parser owes to a text: every header is added as it was written, in order, and the
request is handed over with these headers and its body. -/
structure Delivered (m : RequestText) : Prop where
  added : HttpParser.fresh.added m.head = m.pairs
  handed : ∃ version, HttpParser.fresh.feed m.wire =
    .ok (HttpParser.fresh, [{ m.requested with version }])

/-- **Header values are delivered faithfully exactly when none is empty.** -/
theorem delivered_iff (m : RequestText) : Delivered m ↔ ∀ h ∈ m.headers, h.value ≠ [] := by
  obtain ⟨p, hmoves, hst, hinc, hreq⟩ := HttpParser.moves_head m
  constructor
  · intro h hd hmem hempty
    have hlog : HttpParser.storedPairs m = m.pairs := hmoves.added_eq.symm.trans h.added
    have hvalue := (List.map_inj_left.mp hlog) hd hmem
    rw [Prod.mk.injEq] at hvalue
    unfold HeaderText.stored at hvalue
    rw [if_pos hempty, hempty] at hvalue
    cases hvalue.2
  · intro hfull
    have hlog : HttpParser.storedPairs m = m.pairs := by
      refine List.map_congr_left fun h hmem => ?_
      unfold HeaderText.stored
      rw [if_neg (hfull h hmem)]
    refine ⟨hmoves.added_eq.trans hlog, ascii "HTTP/1.1", ?_⟩
    have hlength : p.curReq.bodyLength = .ok m.body.length := by
      rw [hreq, hlog]
      exact m.framed
    unfold RequestText.wire
    rw [HttpParser.feed_silent hmoves.feed_eq,
      HttpParser.feed_blankLine hst hinc (by rw [hreq]) hlength, hreq, hlog]
    rfl

theorem get_known : HttpMethod.GET ≠ .UNKNOWN := by decide

theorem slash_slash : (ascii "/").head? = some SLASH := by decide

theorem slash_clean : SP ∉ ascii "/" ∧ QMARK ∉ ascii "/" := by decide

theorem noQuery_clean : ∀ q ∈ (none : Option Bytes), SP ∉ q := by simp

/-- A request with an empty value in its only header. -/
def emptyAccept : RequestText where
  method := .GET
  path := ascii "/"
  query := none
  version := .http11
  headers := [{ name := ascii "Accept", text := ascii " ", name_clean := by decide
                text_clean := by decide }]
  body := []
  method_known := get_known
  path_slash := slash_slash
  path_clean := slash_clean
  query_clean := noQuery_clean
  framed := by decide

/-- Its value is stored as a carriage return. -/
theorem emptyAccept_stored : ¬ ∀ m : RequestText, Delivered m := by
  intro h
  have hadded := (h emptyAccept).added
  have hstored : HttpParser.fresh.added emptyAccept.head = [(ascii "Accept", [CR])] := by
    decide +kernel
  rw [hstored] at hadded
  exact absurd hadded (by decide)

end SolarDrive.Http
