import SolarDrive.Http.Request

/-!
# The HTTP/1.1 request parser

`HttpParser` is a byte machine: `parseChar` consumes one byte, `feed` a
buffer, and every completed request is handed to the callback before the
machine resets itself. The model returns the requests handed over instead of
calling back. The one thing that can go wrong is the conversion of
`Content-Length` (`std::stoull`), whose exception leaves `feed`.
-/

namespace SolarDrive.Http

open Lib

inductive State where
  | start
  | method
  | beforePath
  | path
  | query
  | versionH
  | versionT1
  | versionSlash
  | versionMajor
  | versionDot
  | versionMinor
  | afterVersion
  | headerLF
  | headerFieldStart
  | headerField
  | headerBeforeValue
  | headerValue
  | headerValueLF
  | body
  | done
deriving DecidableEq, Repr

structure HttpParser where
  state : State := .start
  curReq : HttpRequest := {}
  curHeaderField : Bytes := []
  curHeaderValue : Bytes := []
  bodyBuf : Bytes := []
  bodyBytesRemaining : Nat := 0
  complete : Bool := false
  methodBuf : Bytes := []
  pathBuf : Bytes := []
  queryBuf : Bytes := []
  versionBuf : Bytes := []
deriving DecidableEq, Repr

/-- Methods are recognised ignoring case. -/
def parseMethod (m : Bytes) : HttpMethod :=
  let low := m.map toLower
  if low = ascii "get" then .GET
  else if low = ascii "post" then .POST
  else if low = ascii "put" then .PUT
  else if low = ascii "delete" then .DELETE
  else .UNKNOWN

namespace HttpParser

/-- A newly constructed parser. -/
def fresh : HttpParser := {}

/-- `reset` puts every field back to its initial value (`curReq` and the
header name through `reset_request`). -/
def reset (_ : HttpParser) : HttpParser :=
  { state := .start
    complete := false
    bodyBytesRemaining := 0
    methodBuf := []
    pathBuf := []
    queryBuf := []
    versionBuf := []
    curHeaderValue := []
    bodyBuf := []
    curReq := {}
    curHeaderField := [] }

/-- The header block has ended: a positive `Content-Length` leads to the body,
anything else completes the request. -/
def transitionToBody (p : HttpParser) : Except StoError HttpParser :=
  let cl := p.curReq.getHeader (ascii "Content-Length")
  if cl = [] then .ok { p with complete := true }
  else
    match stoull cl with
    | .error e => .error e
    | .ok n =>
        if 0 < n then .ok { p with bodyBytesRemaining := n, bodyBuf := [], state := .body }
        else .ok { p with bodyBytesRemaining := n, complete := true }

/-- One input byte. -/
def parseChar (p : HttpParser) (c : UInt8) : Except StoError HttpParser :=
  match p.state with
  | .start =>
      if isSpace c then .ok p
      else .ok { p with methodBuf := [c], state := .method }
  | .method =>
      if c = SP then
        .ok { p with curReq := { p.curReq with method := parseMethod p.methodBuf }, state := .beforePath }
      else .ok { p with methodBuf := p.methodBuf ++ [c] }
  | .beforePath =>
      if c = SP then .ok p
      else .ok { p with pathBuf := [c], state := .path }
  | .path =>
      if c = QMARK then .ok { p with state := .query }
      else if c = SP then
        .ok { p with curReq := { p.curReq with path := p.pathBuf }, state := .versionH }
      else .ok { p with pathBuf := p.pathBuf ++ [c] }
  | .query =>
      if c = SP then
        .ok { p with curReq := { p.curReq with path := p.pathBuf, query := p.queryBuf }, state := .versionH }
      else .ok { p with queryBuf := p.queryBuf ++ [c] }
  | .versionH =>
      -- anything before the `H` is skipped
      if c = 72 then .ok { p with versionBuf := [c], state := .versionT1 }
      else .ok p
  | .versionT1 =>
      if c = 84 then .ok { p with versionBuf := p.versionBuf ++ [c], state := .versionSlash }
      else .ok p
  | .versionSlash =>
      if c = SLASH then .ok { p with versionBuf := p.versionBuf ++ [c], state := .versionMajor }
      else .ok p
  | .versionMajor =>
      if c = DOT then .ok { p with versionBuf := p.versionBuf ++ [c], state := .versionMinor }
      else .ok { p with versionBuf := p.versionBuf ++ [c] }
  | .versionMinor =>
      if c = CR then .ok { p with versionBuf := p.versionBuf ++ [c], state := .afterVersion }
      else if c = LF then
        .ok { p with curReq := { p.curReq with version := ascii "HTTP/1.1" }, state := .headerLF }
      else .ok { p with versionBuf := p.versionBuf ++ [c] }
  | .afterVersion =>
      if c = LF then
        .ok { p with curReq := { p.curReq with version := ascii "HTTP/1.1" }, state := .headerLF }
      else .ok p
  | .headerLF =>
      if c = CR then .ok { p with state := .headerFieldStart }
      else if c = LF then p.transitionToBody
      else .ok { p with curHeaderField := [c], state := .headerField }
  | .headerFieldStart =>
      if c = LF then p.transitionToBody
      else .ok { p with curHeaderField := [c], state := .headerField }
  | .headerField =>
      if c = COLON then .ok { p with state := .headerBeforeValue }
      else .ok { p with curHeaderField := p.curHeaderField ++ [c] }
  | .headerBeforeValue =>
      if c = SP then .ok p
      else .ok { p with curHeaderValue := [c], state := .headerValue }
  | .headerValue =>
      if c = CR then
        .ok { p with curReq := p.curReq.addHeader p.curHeaderField p.curHeaderValue, state := .headerValueLF }
      else if c = LF then
        .ok { p with curReq := p.curReq.addHeader p.curHeaderField p.curHeaderValue, state := .headerLF }
      else .ok { p with curHeaderValue := p.curHeaderValue ++ [c] }
  | .headerValueLF =>
      if c = LF then .ok { p with state := .headerLF }
      else .ok p
  | .body =>
      let buf := p.bodyBuf ++ [c]
      if p.bodyBytesRemaining ≤ buf.length then
        .ok { p with bodyBuf := buf, curReq := { p.curReq with body := p.curReq.body ++ buf }, complete := true }
      else .ok { p with bodyBuf := buf }
  | .versionDot => .ok p
  | .done => .ok p

/-- One byte of `feed`: parse it, and hand a completed request over. -/
def feedByte (p : HttpParser) (c : UInt8) : Except StoError (HttpParser × List HttpRequest) :=
  match p.parseChar c with
  | .error e => .error e
  | .ok p' => if p'.complete then .ok (p'.reset, [p'.curReq]) else .ok (p', [])

/-- `feed`: the parser after a buffer and the requests handed to the callback,
in order. -/
def feed (p : HttpParser) : Bytes → Except StoError (HttpParser × List HttpRequest)
  | [] => .ok (p, [])
  | c :: cs =>
      match p.feedByte c with
      | .error e => .error e
      | .ok (p₁, out₁) =>
          match feed p₁ cs with
          | .error e => .error e
          | .ok (p₂, out₂) => .ok (p₂, out₁ ++ out₂)

/-- Successive `feed` calls. -/
def feedAll (p : HttpParser) : List Bytes → Except StoError (HttpParser × List HttpRequest)
  | [] => .ok (p, [])
  | buf :: bufs =>
      match p.feed buf with
      | .error e => .error e
      | .ok (p₁, out₁) =>
          match feedAll p₁ bufs with
          | .error e => .error e
          | .ok (p₂, out₂) => .ok (p₂, out₁ ++ out₂)

/-! ## Feeding is independent of the cut -/

theorem feed_append_ok {p p₁ : HttpParser} {out₁ : List HttpRequest} :
    ∀ {xs : Bytes} (ys : Bytes), p.feed xs = .ok (p₁, out₁) →
      p.feed (xs ++ ys) =
        match p₁.feed ys with
        | .error e => .error e
        | .ok (p₂, out₂) => .ok (p₂, out₁ ++ out₂) := by
  intro xs
  induction xs generalizing p out₁ with
  | nil =>
      intro ys h
      simp only [feed, Except.ok.injEq, Prod.mk.injEq] at h
      obtain ⟨rfl, rfl⟩ := h
      simp only [List.nil_append]
      cases p.feed ys <;> rfl
  | cons c cs ih =>
      intro ys h
      simp only [feed, List.cons_append] at h ⊢
      cases hc : p.feedByte c with
      | error e => simp [hc] at h
      | ok q =>
          obtain ⟨q, o⟩ := q
          simp only [hc] at h ⊢
          cases hq : q.feed cs with
          | error e => simp [hq] at h
          | ok r =>
              obtain ⟨r, o'⟩ := r
              simp only [hq, Except.ok.injEq, Prod.mk.injEq] at h
              obtain ⟨rfl, rfl⟩ := h
              rw [ih ys hq]
              cases r.feed ys <;> simp

theorem feed_append_error {p : HttpParser} {e : StoError} :
    ∀ {xs : Bytes} (ys : Bytes), p.feed xs = .error e → p.feed (xs ++ ys) = .error e := by
  intro xs
  induction xs generalizing p with
  | nil => intro ys h; simp [feed] at h
  | cons c cs ih =>
      intro ys h
      simp only [feed, List.cons_append] at h ⊢
      cases hc : p.feedByte c with
      | error e' => simpa [hc] using h
      | ok q =>
          obtain ⟨q, o⟩ := q
          simp only [hc] at h ⊢
          cases hq : q.feed cs with
          | error e' =>
              simp only [hq, Except.error.injEq] at h
              subst h
              rw [ih ys hq]
          | ok r => simp [hq] at h

/-- **Segmentation independence.** Any way of cutting a stream into `feed`
calls does what one call on the whole stream does. -/
theorem feedAll_eq_feed (p : HttpParser) : ∀ bufs : List Bytes,
    p.feedAll bufs = p.feed bufs.flatten := by
  intro bufs
  induction bufs generalizing p with
  | nil => rfl
  | cons buf bufs ih =>
      simp only [feedAll, List.flatten_cons]
      cases hb : p.feed buf with
      | error e => rw [feed_append_error _ hb]
      | ok q =>
          obtain ⟨q, o⟩ := q
          rw [feed_append_ok _ hb]
          simp only [ih q]

end HttpParser

end SolarDrive.Http
