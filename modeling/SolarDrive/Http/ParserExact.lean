import SolarDrive.Http.Parser

/-!
# Pipelined requests are parsed exactly

A canonical request is one a well-behaved client writes: known method, clean
request line, distinct header names, a body framed by `Content-Length`. The
result of this file is that the parser turns the concatenated texts of any
list of canonical requests, however the stream is cut, into exactly those
requests and ends up as a fresh parser.

The proof walks through the machine once: each scratch buffer absorbs a run of
bytes (`feed_absorb`), each phase of a request is silent (it hands nothing
over), and the blank line with the body hands the request over and resets.
-/

namespace SolarDrive.Http

open Lib

/-! ## Canonical requests -/

def methodText : HttpMethod → Bytes
  | .GET => ascii "GET"
  | .POST => ascii "POST"
  | .PUT => ascii "PUT"
  | .DELETE => ascii "DELETE"
  | .UNKNOWN => []

/-- A request in the form clients write it, with the conditions that make its
text unambiguous. `body_fits` is the range of the machine's `size_t`. -/
structure Canonical where
  method : HttpMethod
  path : Bytes
  query : Option Bytes
  headers : List (Bytes × Bytes)
  body : Bytes
  method_known : method ≠ .UNKNOWN
  path_slash : path.head? = some SLASH
  path_clean : SP ∉ path ∧ QMARK ∉ path
  query_clean : ∀ q ∈ query, SP ∉ q
  names_distinct : (headers.map Prod.fst).Nodup
  names_clean : ∀ h ∈ headers, h.1 ≠ [] ∧ COLON ∉ h.1 ∧ CR ∉ h.1 ∧ LF ∉ h.1
  values_clean : ∀ h ∈ headers, h.2 ≠ [] ∧ CR ∉ h.2 ∧ LF ∉ h.2 ∧ h.2.head? ≠ some SP
  framed : headers.lookup (ascii "Content-Length") =
    if body = [] then none else some (decimal body.length)
  body_fits : body.length < 2 ^ 64

def headerLine (h : Bytes × Bytes) : Bytes := h.1 ++ COLON :: SP :: (h.2 ++ [CR, LF])

namespace Canonical

/-- The path with its query, as the request line carries them. -/
def target (r : Canonical) : Bytes :=
  match r.query with
  | none => r.path
  | some q => r.path ++ QMARK :: q

/-- The CRLF text of a request. -/
def wire (r : Canonical) : Bytes :=
  methodText r.method ++ SP :: (r.target ++ SP :: (ascii "HTTP/1.1\r\n" ++
    (r.headers.flatMap headerLine ++ CR :: LF :: r.body)))

/-- The request the callback must see. -/
def toRequest (r : Canonical) : HttpRequest :=
  { method := r.method
    path := r.path
    query := r.query.getD []
    version := ascii "HTTP/1.1"
    headers := r.headers
    body := r.body }

end Canonical

namespace HttpParser

/-! ## Silent runs and the absorption rule -/

/-- A run that hands nothing over just moves the parser. -/
theorem feed_silent {p q : HttpParser} {xs : Bytes} (h : p.feed xs = .ok (q, []))
    (ys : Bytes) : p.feed (xs ++ ys) = q.feed ys := by
  rw [feed_append_ok ys h]
  cases q.feed ys <;> simp

theorem feed_cons {p q : HttpParser} {c : UInt8} (h : p.parseChar c = .ok q)
    (hq : q.complete = false) (cs : Bytes) : p.feed (c :: cs) = q.feed cs := by
  have hb : p.feed [c] = .ok (q, []) := by simp [feed, feedByte, h, hq]
  exact feed_silent hb cs

/-- **Absorption.** A state that stays put and collects every byte of a class
collects a whole run of such bytes. -/
theorem feed_absorb (f : Bytes → HttpParser) (ok : UInt8 → Prop)
    (hstep : ∀ acc c, ok c → (f acc).parseChar c = .ok (f (acc ++ [c])))
    (hinc : ∀ acc, (f acc).complete = false) :
    ∀ (xs acc ys : Bytes), (∀ c ∈ xs, ok c) →
      (f acc).feed (xs ++ ys) = (f (acc ++ xs)).feed ys := by
  intro xs
  induction xs with
  | nil => intro acc ys _; simp
  | cons c cs ih =>
      intro acc ys hok
      rw [List.cons_append, feed_cons (hstep acc c (hok c List.mem_cons_self)) (hinc _)]
      rw [ih (acc ++ [c]) ys fun x hx => hok x (List.mem_cons_of_mem _ hx)]
      simp

/-! ## The request line -/

theorem feed_method (m : HttpMethod) (hm : m ≠ .UNKNOWN) (ys : Bytes) :
    fresh.feed (methodText m ++ SP :: ys) =
      feed { state := .beforePath, curReq := { method := m }, methodBuf := methodText m } ys := by
  have h : fresh.feed (methodText m ++ [SP]) =
      .ok ({ state := .beforePath, curReq := { method := m }, methodBuf := methodText m }, []) := by
    cases m with
    | UNKNOWN => exact absurd rfl hm
    | GET => rfl
    | POST => rfl
    | PUT => rfl
    | DELETE => rfl
  rw [show methodText m ++ SP :: ys = (methodText m ++ [SP]) ++ ys by simp]
  exact feed_silent h ys

theorem feed_path {p : HttpParser} {x : UInt8} {xs : Bytes} (hst : p.state = .beforePath)
    (hinc : p.complete = false) (hx : x ≠ SP) (hsp : SP ∉ xs) (hq : QMARK ∉ xs) (ys : Bytes) :
    p.feed (x :: xs ++ ys) = feed { p with state := .path, pathBuf := x :: xs } ys := by
  have h1 : p.parseChar x = .ok { p with pathBuf := [x], state := .path } := by
    simp only [parseChar, hst, if_neg hx]
  rw [List.cons_append, feed_cons h1 hinc]
  refine feed_absorb (fun acc => { p with state := .path, pathBuf := acc })
    (fun c => c ≠ SP ∧ c ≠ QMARK) ?_ (fun _ => hinc) xs [x] ys ?_
  · intro acc c hc
    simp only [parseChar, if_neg hc.1, if_neg hc.2]
  · intro c hc
    exact ⟨fun e => hsp (e ▸ hc), fun e => hq (e ▸ hc)⟩

theorem feed_query {p : HttpParser} {q : Bytes} (hst : p.state = .query)
    (hinc : p.complete = false) (hsp : SP ∉ q) (ys : Bytes) :
    p.feed (q ++ ys) = feed { p with queryBuf := p.queryBuf ++ q } ys := by
  have hp : p = { p with state := .query, queryBuf := p.queryBuf } := by rw [← hst]
  rw [hp]
  refine feed_absorb (fun acc => { p with state := .query, queryBuf := acc })
    (fun c => c ≠ SP) ?_ (fun _ => hinc) q p.queryBuf ys ?_
  · intro acc c hc
    simp only [parseChar, if_neg hc]
  · intro c hc e
    exact hsp (e ▸ hc)

/-- The parser after a request line. The version states skip the second `T`
and the `P`, so those two letters are missing from `versionBuf`. -/
def afterRequestLine (r : Canonical) : HttpParser :=
  { state := .headerLF
    curReq := { method := r.method, path := r.path, query := r.query.getD [],
                version := ascii "HTTP/1.1" }
    methodBuf := methodText r.method
    pathBuf := r.path
    queryBuf := r.query.getD []
    versionBuf := ascii "HT/1.1\r" }

theorem feed_version {p : HttpParser} (hst : p.state = .versionH) (hinc : p.complete = false)
    (ys : Bytes) :
    p.feed (ascii "HTTP/1.1\r\n" ++ ys) =
      feed { p with state := .headerLF, versionBuf := ascii "HT/1.1\r",
                    curReq := { p.curReq with version := ascii "HTTP/1.1" } } ys := by
  refine feed_silent ?_ ys
  obtain ⟨st, req, hf, hv, bb, rem, comp, mb, pb, qb, vb⟩ := p
  obtain rfl : st = .versionH := hst
  obtain rfl : comp = false := hinc
  rfl

/-- The text of a path with its query, as the request line carries them. -/
def targetText (path : Bytes) : Option Bytes → Bytes
  | none => path
  | some q => path ++ QMARK :: q

/-- Up to the version the parser has collected the method, the path and the query. -/
theorem feed_target {m : HttpMethod} {path : Bytes} {query : Option Bytes} (hm : m ≠ .UNKNOWN)
    (hslash : path.head? = some SLASH) (hclean : SP ∉ path ∧ QMARK ∉ path)
    (hquery : ∀ q ∈ query, SP ∉ q) (ys : Bytes) :
    fresh.feed (methodText m ++ SP :: (targetText path query ++ SP :: ys)) =
      feed { state := .versionH
             curReq := { method := m, path := path, query := query.getD [] }
             methodBuf := methodText m, pathBuf := path, queryBuf := query.getD [] } ys := by
  rw [feed_method m hm]
  obtain ⟨xs, rfl⟩ : ∃ xs, path = SLASH :: xs := by
    cases path with
    | nil => cases hslash
    | cons x xs =>
        simp only [List.head?_cons, Option.some.injEq] at hslash
        exact ⟨xs, by rw [hslash]⟩
  have hsp : SP ∉ xs := fun hmem => hclean.1 (List.mem_cons_of_mem _ hmem)
  have hqm : QMARK ∉ xs := fun hmem => hclean.2 (List.mem_cons_of_mem _ hmem)
  cases query with
  | none =>
      rw [targetText, feed_path rfl rfl (by decide) hsp hqm, feed_cons rfl rfl]
      rfl
  | some q =>
      rw [targetText, List.append_assoc, feed_path rfl rfl (by decide) hsp hqm, List.cons_append,
        feed_cons rfl rfl, feed_query rfl rfl (hquery q rfl), feed_cons rfl rfl]
      rfl

theorem feed_requestLine (r : Canonical) (ys : Bytes) :
    fresh.feed (methodText r.method ++ SP :: (r.target ++ SP :: (ascii "HTTP/1.1\r\n" ++ ys))) =
      (afterRequestLine r).feed ys := by
  have htarget : r.target = targetText r.path r.query := by
    unfold Canonical.target targetText
    cases r.query <;> rfl
  rw [htarget, feed_target r.method_known r.path_slash r.path_clean r.query_clean,
    feed_version rfl rfl]
  rfl

/-! ## Header lines -/

theorem feed_headerLine {p : HttpParser} {h : Bytes × Bytes} (hst : p.state = .headerLF)
    (hinc : p.complete = false)
    (hname : h.1 ≠ [] ∧ COLON ∉ h.1 ∧ CR ∉ h.1 ∧ LF ∉ h.1)
    (hval : h.2 ≠ [] ∧ CR ∉ h.2 ∧ LF ∉ h.2 ∧ h.2.head? ≠ some SP) (ys : Bytes) :
    p.feed (headerLine h ++ ys) =
      feed { p with curHeaderField := h.1, curHeaderValue := h.2,
                    curReq := p.curReq.addHeader h.1 h.2 } ys := by
  obtain ⟨name, value⟩ := h
  obtain ⟨hn0, hncol, hncr, hnlf⟩ := hname
  obtain ⟨hv0, hvcr, hvlf, hvsp⟩ := hval
  cases name with
  | nil => exact absurd rfl hn0
  | cons n ns =>
  cases value with
  | nil => exact absurd rfl hv0
  | cons v vs =>
  simp only [List.mem_cons, not_or] at hncol hncr hnlf hvcr hvlf
  have hnext : v ≠ SP := fun e => hvsp (by simp [e])
  -- first byte of the name
  have h1 : p.parseChar n = .ok { p with curHeaderField := [n], state := .headerField } := by
    simp only [parseChar, hst, if_neg (Ne.symm hncr.1), if_neg (Ne.symm hnlf.1)]
  have h2 := feed_absorb (fun acc => { p with curHeaderField := acc, state := .headerField })
    (fun c => c ≠ COLON) (fun acc c hc => by simp only [parseChar, if_neg hc]) (fun _ => hinc)
    ns [n] (COLON :: SP :: (v :: vs ++ [CR, LF]) ++ ys) (fun c hc e => hncol.2 (e ▸ hc))
  have h3 := feed_absorb
    (fun acc => { p with curHeaderField := n :: ns, curHeaderValue := acc, state := .headerValue })
    (fun c => c ≠ CR ∧ c ≠ LF)
    (fun acc c hc => by simp only [parseChar, if_neg hc.1, if_neg hc.2]) (fun _ => hinc)
    vs [v] (CR :: LF :: ys) (fun c hc => ⟨fun e => hvcr.2 (e ▸ hc), fun e => hvlf.2 (e ▸ hc)⟩)
  have h4 : parseChar { p with curHeaderField := n :: ns, state := .headerBeforeValue } v =
      .ok { p with curHeaderField := n :: ns, curHeaderValue := [v], state := .headerValue } := by
    simp only [parseChar, if_neg hnext]
  have h5 : parseChar { p with curHeaderField := n :: ns, state := .headerField } COLON =
      .ok { p with curHeaderField := n :: ns, state := .headerBeforeValue } := rfl
  have h6 : parseChar { p with curHeaderField := n :: ns, state := .headerBeforeValue } SP =
      .ok { p with curHeaderField := n :: ns, state := .headerBeforeValue } := rfl
  have h7 : parseChar { p with curHeaderField := n :: ns, curHeaderValue := v :: vs,
                               state := .headerValue } CR =
      .ok { p with curHeaderField := n :: ns, curHeaderValue := v :: vs, state := .headerValueLF,
                   curReq := p.curReq.addHeader (n :: ns) (v :: vs) } := rfl
  have h8 : parseChar { p with curHeaderField := n :: ns, curHeaderValue := v :: vs,
                               state := .headerValueLF,
                               curReq := p.curReq.addHeader (n :: ns) (v :: vs) } LF =
      .ok { p with curHeaderField := n :: ns, curHeaderValue := v :: vs, state := .headerLF,
                   curReq := p.curReq.addHeader (n :: ns) (v :: vs) } := rfl
  simp only [List.singleton_append] at h2 h3
  rw [show headerLine (n :: ns, v :: vs) ++ ys =
    n :: (ns ++ (COLON :: SP :: (v :: vs ++ [CR, LF]) ++ ys)) by simp [headerLine]]
  rw [feed_cons h1 hinc, h2]
  rw [List.cons_append, feed_cons h5 hinc, List.cons_append, feed_cons h6 hinc]
  rw [show v :: vs ++ [CR, LF] ++ ys = v :: (vs ++ CR :: LF :: ys) by simp]
  rw [feed_cons h4 hinc, h3, feed_cons h7 hinc, feed_cons h8 hinc, ← hst]

theorem headers_addHeader {r : HttpRequest} {k : Bytes} (v : Bytes)
    (h : k ∉ r.headers.map Prod.fst) :
    r.addHeader k v = { r with headers := r.headers ++ [(k, v)] } := by
  rw [HttpRequest.addHeader, setKey_of_not_mem v h]

/-- The header block: the parser ends where it started, with the headers
added; only the two scratch buffers remember the last line. -/
theorem feed_headers (hs : List (Bytes × Bytes)) : ∀ {p : HttpParser}, p.state = .headerLF →
    p.complete = false →
    (∀ h ∈ hs, h.1 ≠ [] ∧ COLON ∉ h.1 ∧ CR ∉ h.1 ∧ LF ∉ h.1) →
    (∀ h ∈ hs, h.2 ≠ [] ∧ CR ∉ h.2 ∧ LF ∉ h.2 ∧ h.2.head? ≠ some SP) →
    ((p.curReq.headers ++ hs).map Prod.fst).Nodup →
    ∃ f v, ∀ ys, p.feed (hs.flatMap headerLine ++ ys) =
      feed { p with curHeaderField := f, curHeaderValue := v,
                    curReq := { p.curReq with headers := p.curReq.headers ++ hs } } ys := by
  induction hs with
  | nil =>
      intro p _ _ _ _ _
      exact ⟨p.curHeaderField, p.curHeaderValue, fun ys => by simp⟩
  | cons h hs ih =>
      intro p hst hinc hn hv hnd
      have hfresh : h.1 ∉ p.curReq.headers.map Prod.fst := by
        rw [List.map_append, List.map_cons] at hnd
        intro hm
        exact (List.nodup_append.mp hnd).2.2 _ hm _ List.mem_cons_self rfl
      have hadd := headers_addHeader h.2 hfresh
      have hnd' : ((p.curReq.headers ++ [h] ++ hs).map Prod.fst).Nodup := by
        simpa [List.append_assoc] using hnd
      obtain ⟨f, v, hrest⟩ := ih
        (p := { p with curHeaderField := h.1, curHeaderValue := h.2,
                       curReq := { p.curReq with headers := p.curReq.headers ++ [h] } })
        hst hinc (fun x hx => hn x (List.mem_cons_of_mem _ hx))
        (fun x hx => hv x (List.mem_cons_of_mem _ hx)) hnd'
      refine ⟨f, v, fun ys => ?_⟩
      rw [List.flatMap_cons, List.append_assoc,
        feed_headerLine hst hinc (hn h List.mem_cons_self) (hv h List.mem_cons_self), hadd,
        hrest ys]
      simp only [List.append_assoc, List.singleton_append]

/-! ## The blank line and the body -/

/-- The body state collects bytes until the announced length and then hands
the request over. -/
theorem feed_body {p : HttpParser} (hst : p.state = .body) (hinc : p.complete = false) :
    ∀ {xs : Bytes}, xs ≠ [] → p.bodyBuf.length + xs.length = p.bodyBytesRemaining →
      p.feed xs = .ok (fresh,
        [{ p.curReq with body := p.curReq.body ++ (p.bodyBuf ++ xs) }]) := by
  intro xs
  induction xs generalizing p with
  | nil => intro h; exact absurd rfl h
  | cons c cs ih =>
      intro _ hlen
      cases cs with
      | nil =>
          have hfull : p.bodyBytesRemaining ≤ (p.bodyBuf ++ [c]).length := by
            simp only [List.length_append, List.length_cons, List.length_nil] at hlen ⊢
            omega
          simp only [feed, feedByte, parseChar, hst, if_pos hfull, if_true]
          rfl
      | cons d ds =>
          have hmore : ¬ p.bodyBytesRemaining ≤ (p.bodyBuf ++ [c]).length := by
            simp only [List.length_append, List.length_cons, List.length_nil] at hlen ⊢
            omega
          have h1 : p.parseChar c = .ok { p with bodyBuf := p.bodyBuf ++ [c] } := by
            simp only [parseChar, hst, if_neg hmore]
          rw [feed_cons h1 hinc, ih (p := { p with bodyBuf := p.bodyBuf ++ [c] }) hst hinc
            (List.cons_ne_nil d ds)]
          · simp
          · simp only [List.length_append, List.length_cons, List.length_nil] at hlen ⊢
            omega

/-- The blank line and the body, as the length that is found frames it. -/
theorem feed_blankLine {p : HttpParser} {body : Bytes} (hst : p.state = .headerLF)
    (hinc : p.complete = false) (hbody : p.curReq.body = [])
    (hlength : (if p.curReq.getHeader (ascii "Content-Length") = [] then .ok 0
      else stoull (p.curReq.getHeader (ascii "Content-Length"))) = .ok body.length) :
    p.feed (CR :: LF :: body) = .ok (fresh, [{ p.curReq with body := body }]) := by
  have hreturn : p.parseChar CR = .ok { p with state := .headerFieldStart } := by
    simp only [parseChar, hst, if_true]
  rw [feed_cons hreturn hinc]
  by_cases hpos : 0 < body.length
  · have hcl : p.curReq.getHeader (ascii "Content-Length") ≠ [] := by
      intro hnone
      rw [if_pos hnone, Except.ok.injEq] at hlength
      omega
    rw [if_neg hcl] at hlength
    have hblank : parseChar { p with state := .headerFieldStart } LF =
        .ok { p with bodyBytesRemaining := body.length, bodyBuf := [], state := .body } := by
      simp only [parseChar, if_true, transitionToBody, if_neg hcl, hlength, if_pos hpos]
    rw [feed_cons hblank hinc]
    rw [feed_body (p := { p with bodyBytesRemaining := body.length, bodyBuf := [], state := .body })
      rfl hinc (List.length_pos_iff.mp hpos) (Nat.zero_add _), hbody]
    rfl
  · -- a length of 0 completes the request as a missing one does
    have hnil : body = [] := List.eq_nil_of_length_eq_zero (by omega)
    subst hnil
    have hblank : ∃ n, parseChar { p with state := .headerFieldStart } LF =
        .ok { p with bodyBytesRemaining := n, state := .headerFieldStart, complete := true } := by
      by_cases hcl : p.curReq.getHeader (ascii "Content-Length") = []
      · exact ⟨p.bodyBytesRemaining, by
          simp only [parseChar, if_true, transitionToBody, if_pos hcl]⟩
      · rw [if_neg hcl] at hlength
        exact ⟨0, by simp [parseChar, transitionToBody, if_neg hcl, hlength]⟩
    obtain ⟨n, hblank⟩ := hblank
    have hreq : { p.curReq with body := [] } = p.curReq := by rw [← hbody]
    rw [hreq]
    unfold feed feedByte
    rw [hblank]
    rfl

/-! ## Requests and streams -/

theorem feed_wire (r : Canonical) : fresh.feed r.wire = .ok (fresh, [r.toRequest]) := by
  rw [Canonical.wire, feed_requestLine]
  obtain ⟨f, v, hh⟩ := feed_headers r.headers (p := afterRequestLine r) rfl rfl
    r.names_clean r.values_clean (by simpa [afterRequestLine] using r.names_distinct)
  rw [hh]
  refine (feed_blankLine rfl rfl rfl ?_).trans rfl
  have hframe : r.headers.lookup (ascii "Content-Length") =
      if r.body = [] then none else some (decimal r.body.length) := r.framed
  by_cases hb : r.body = []
  · rw [if_pos hb] at hframe
    simp [HttpRequest.getHeader, afterRequestLine, hframe, hb]
  · rw [if_neg hb] at hframe
    simp [HttpRequest.getHeader, afterRequestLine, hframe, decimal_ne_nil, stoull_decimal r.body_fits]

theorem feed_wires (rs : List Canonical) :
    fresh.feed (rs.map Canonical.wire).flatten = .ok (fresh, rs.map Canonical.toRequest) := by
  induction rs with
  | nil => rfl
  | cons r rs ih =>
      rw [List.map_cons, List.flatten_cons, feed_append_ok _ (feed_wire r), ih]
      rfl

/-- **Pipelined requests are parsed exactly.** However the texts of a list of
canonical requests are cut into `feed` calls, the callback sees exactly those
requests, once each and in order, and the parser is back in its initial
state. -/
theorem feedAll_wires (rs : List Canonical) (cuts : List Bytes)
    (hcut : cuts.flatten = (rs.map Canonical.wire).flatten) :
    fresh.feedAll cuts = .ok (fresh, rs.map Canonical.toRequest) := by
  rw [feedAll_eq_feed, hcut]
  exact feed_wires rs

/-- A bodiless request and one with a query and a body. -/
def listRequest : Canonical where
  method := .GET
  path := ascii "/api/v1/files"
  query := none
  headers := [(ascii "Host", ascii "localhost")]
  body := []
  method_known := by decide
  path_slash := by decide
  path_clean := by decide
  query_clean := by simp
  names_distinct := by decide
  names_clean := by decide
  values_clean := by decide
  framed := by decide
  body_fits := by decide

@[inherit_doc listRequest]
def loginRequest : Canonical where
  method := .POST
  path := ascii "/login"
  query := some (ascii "next=/?a")
  headers := [(ascii "Content-Length", ascii "2"), (ascii "Host", ascii "localhost")]
  body := [CR, LF]
  method_known := by decide
  path_slash := by decide
  path_clean := by decide
  query_clean := by decide
  names_distinct := by decide
  names_clean := by decide
  values_clean := by decide
  framed := by decide
  body_fits := by decide

theorem feedAll_two_requests_in_two_cuts :
    fresh.feedAll [(listRequest.wire ++ loginRequest.wire).take 50,
        (listRequest.wire ++ loginRequest.wire).drop 50] =
      .ok (fresh, [listRequest.toRequest, loginRequest.toRequest]) :=
  feedAll_wires [listRequest, loginRequest] _ (by
    rw [List.flatten_cons, List.flatten_cons, List.flatten_nil, List.append_nil,
      List.take_append_drop]
    rfl)

end HttpParser

end SolarDrive.Http
