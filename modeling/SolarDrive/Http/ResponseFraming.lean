import SolarDrive.Lib.HttpMessage
import SolarDrive.Lib.JsonText
import SolarDrive.Http.Response

/-!
# Response framing

`HandlerBuilt` is what handlers can make of a response with its setters. A
built response is read back from the wire by the HTTP/1.1 grammar, with its
status code, its fields and its body, exactly when its status text and its
header values are clean (`serialize_framed_iff`). The setters put in any text:
a line break in a stored file name, in a MIME type or in an error message goes
out as it is.
-/

namespace SolarDrive.Http

open Lib HttpMessage

/-- The header names handlers set. -/
def handlerHeaders : List Bytes :=
  [ascii "Content-Length", ascii "Content-Type", ascii "Content-Disposition",
    ascii "X-Share-Auth", ascii "Location", ascii "Cache-Control", ascii "Retry-After"]

/-- A final status with a body. -/
def BodyStatus (code : Int) : Prop := 200 ≤ code ∧ code ≤ 999 ∧ code ≠ 204 ∧ code ≠ 304

/-- The setters, called in any order on a new response. -/
inductive Draft (json : JsonLib) : HttpResponse → Prop
  | new : Draft json {}
  | setStatus {r : HttpResponse} {code : Int} {text : Bytes} :
      Draft json r → BodyStatus code → Draft json (r.setStatus code text)
  | setHeader {r : HttpResponse} {key val : Bytes} :
      Draft json r → key ∈ handlerHeaders → key ≠ ascii "Content-Length" →
      Draft json (r.setHeader key val)
  | setBody {r : HttpResponse} {body : Bytes} : Draft json r → Draft json (r.setBody body)
  | setJson {r : HttpResponse} {text : Bytes} : Draft json r → Draft json (r.setJson text)
  | setBinary {r : HttpResponse} {data mime : Bytes} :
      Draft json r → Draft json (r.setBinary data mime)
  | setError {r r' : HttpResponse} {code : Int} {msg : Bytes} :
      Draft json r → BodyStatus code → r.setError json code msg = .ok r' → Draft json r'
  | setDownloadHeaders {r : HttpResponse} {filename : Bytes} :
      Draft json r → Draft json (r.setDownloadHeaders filename r.body.length)
  | setCloseConnection {r : HttpResponse} {close : Bool} :
      Draft json r → Draft json (r.setCloseConnection close)

/-- A response a handler returns: a draft that was given a body. -/
def HandlerBuilt (json : JsonLib) (r : HttpResponse) : Prop :=
  Draft json r ∧ (r.headers.lookup (ascii "Content-Length")).isSome

/-- No control character in the status text, and every header value is its own
field value. -/
def Clean (r : HttpResponse) : Prop :=
  r.statusText.all isFieldByte = true ∧ ∀ f ∈ r.headers, FieldValue f.2

/-! ## The invariant of the setters -/

/-- Names from the list, each once; the length counts the body. -/
structure Sound (r : HttpResponse) : Prop where
  status : BodyStatus r.statusCode
  names : ∀ k ∈ r.headers.map Prod.fst, k ∈ handlerHeaders
  nodup : (r.headers.map Prod.fst).Nodup
  length : ∀ v, r.headers.lookup (ascii "Content-Length") = some v → v = decimal r.body.length

namespace Sound

variable {r : HttpResponse}

theorem setStatus {code : Int} {text : Bytes} (h : Sound r) (hc : BodyStatus code) :
    Sound (r.setStatus code text) :=
  ⟨hc, h.names, h.nodup, h.length⟩

theorem setHeader (key : Bytes) {val : Bytes} (h : Sound r) (hk : key ∈ handlerHeaders)
    (hne : key ≠ ascii "Content-Length") : Sound (r.setHeader key val) where
  status := h.status
  names := fun k hm => (mem_keys_setKey.mp hm).elim (fun e => e ▸ hk) (h.names k)
  nodup := nodup_setKey h.nodup
  length := fun v hv => h.length v ((lookup_setKey_ne hne.symm val r.headers).symm.trans hv)

/-- Writing the length with the body it counts. -/
theorem setLength {body : Bytes} (h : Sound r) : Sound (r.setBody body) where
  status := h.status
  names := fun k hm => (mem_keys_setKey.mp hm).elim (fun e => e ▸ List.mem_cons_self) (h.names k)
  nodup := nodup_setKey h.nodup
  length := fun v hv => by
    have hl := lookup_setKey_self (ascii "Content-Length") (decimal body.length) r.headers
    exact Option.some.inj (hv.symm.trans hl)

theorem setJson {text : Bytes} (h : Sound r) : Sound (r.setJson text) :=
  h.setLength.setHeader _ (by decide) (by decide)

theorem setBinary {data mime : Bytes} (h : Sound r) : Sound (r.setBinary data mime) :=
  (h.setHeader (ascii "Content-Type") (by decide) (by decide)).setLength

theorem setDownloadHeaders {filename : Bytes} (h : Sound r) :
    Sound (r.setDownloadHeaders filename r.body.length) :=
  (h.setHeader (ascii "Content-Disposition") (by decide) (by decide)).setLength

end Sound

/-- Every setter keeps the invariant. -/
theorem sound_of_draft {json : JsonLib} {r : HttpResponse} (h : Draft json r) : Sound r := by
  induction h with
  | new => exact ⟨by unfold BodyStatus; decide, by simp, by simp, by simp⟩
  | setStatus _ hc ih => exact ih.setStatus hc
  | setHeader _ hk hne ih => exact ih.setHeader _ hk hne
  | setBody _ ih => exact ih.setLength
  | setJson _ ih => exact ih.setJson
  | setBinary _ ih => exact ih.setBinary
  | @setError r r' code msg _ hc he ih =>
      unfold HttpResponse.setError at he
      cases hd : json.dump (HttpResponse.errorDocument msg) with
      | error w => rw [hd] at he; cases he
      | ok t =>
          rw [hd] at he
          cases he
          exact (ih.setStatus hc).setJson
  | setDownloadHeaders _ ih => exact ih.setDownloadHeaders
  | setCloseConnection _ ih => exact ⟨ih.status, ih.names, ih.nodup, ih.length⟩

/-! ## The wire -/

theorem decimal_three {n : Nat} (h1 : 100 ≤ n) (h2 : n ≤ 999) :
    ∃ a b c, decimal n = [a, b, c] := by
  have hne : n ≠ 0 := by omega
  have hd : Nat.digits 10 n = [n % 10, n / 10 % 10, n / 10 / 10 % 10] := by
    rw [Nat.digits_def' (by omega) (by omega), Nat.digits_def' (by omega) (by omega),
      Nat.digits_def' (by omega) (by omega)]
    have : n / 10 / 10 / 10 = 0 := by omega
    rw [this, Nat.digits_zero]
  rw [decimal, if_neg hne, hd]
  exact ⟨_, _, _, rfl⟩

/-- The status line, which the grammar reads when the text is printable. -/
def statusLine (r : HttpResponse) : Bytes :=
  ascii "HTTP/1.1 " ++ decimalInt r.statusCode ++ ascii " " ++ r.statusText

theorem parseStatusLine_statusLine {r : HttpResponse} (h : BodyStatus r.statusCode) :
    parseStatusLine (statusLine r) =
      if r.statusText.all isFieldByte = true then some (r.statusCode.toNat, r.statusText)
      else none := by
  obtain ⟨h1, h2, -, -⟩ := h
  obtain ⟨n, hn⟩ := Int.eq_ofNat_of_zero_le (by omega : 0 ≤ r.statusCode)
  obtain ⟨a, b, c, hd⟩ := decimal_three (n := n) (by omega) (by omega)
  have hdig : [a, b, c].all isDigit = true := by
    rw [← hd]
    exact List.all_eq_true.mpr fun x hx => isDigit_of_mem_decimal hx
  have hval : digitsValue [a, b, c] = n := by
    rw [← hd, digitsValue_decimal]
  have hline : statusLine r = 72 :: 84 :: 84 :: 80 :: 47 :: 49 :: 46 :: 49 :: 32 :: a :: b :: c ::
      32 :: r.statusText := by
    rw [statusLine, hn]
    show ascii "HTTP/1.1 " ++ decimal n ++ ascii " " ++ r.statusText = _
    rw [hd]
    rfl
  have hver : ([72, 84, 84, 80, 47] : Bytes) = ascii "HTTP/" := by decide
  have hone : isDigit 49 = true := rfl
  rw [hline, parseStatusLine]
  simp only [hver, hone, hdig, hval, true_and, hn, Int.toNat_natCast]

theorem serialize_eq (r : HttpResponse) (hs : List (Bytes × Bytes)) :
    r.serialize hs = statusLine r ++
      CR :: LF :: ((r.generatedFields ++ hs).flatMap fieldLine ++ CR :: LF :: r.body) := by
  have hcrlf : ascii "\r\n" = [CR, LF] := by decide
  have hline : (fun f : Bytes × Bytes => f.1 ++ ascii ": " ++ f.2 ++ ascii "\r\n") = fieldLine := by
    funext f
    rw [fieldLine, hcrlf]
  rw [HttpResponse.serialize, hline, hcrlf, statusLine]
  simp

theorem cleanField_generated (r : HttpResponse) : ∀ f ∈ r.generatedFields, CleanField f := by
  intro f hf
  have hmem : f ∈ [(ascii "Connection", ascii "close"), (ascii "Connection", ascii "keep-alive"),
      (ascii "Keep-Alive", ascii "timeout=60, max=1000")] := by
    unfold HttpResponse.generatedFields at hf
    rcases List.mem_append.mp hf with hf | hf
    · split at hf
      · cases hcc : r.closeConnection
        · rw [hcc] at hf
          rw [List.mem_singleton.mp hf]
          exact List.mem_cons_of_mem _ List.mem_cons_self
        · rw [hcc] at hf
          rw [List.mem_singleton.mp hf]
          exact List.mem_cons_self
      · cases hf
    · split at hf
      · rw [List.mem_singleton.mp hf]
        exact List.mem_cons_of_mem _ (List.mem_cons_of_mem _ List.mem_cons_self)
      · cases hf
  have hall : ∀ g ∈ [(ascii "Connection", ascii "close"), (ascii "Connection", ascii "keep-alive"),
      (ascii "Keep-Alive", ascii "timeout=60, max=1000")],
      (g.1 ≠ [] ∧ g.1.all isTchar = true) ∧ FieldValue g.2 := by decide +kernel
  exact ⟨(hall f hmem).1, (hall f hmem).2⟩

theorem valuesOf_append (name : Bytes) (fs gs : List (Bytes × Bytes)) :
    valuesOf name (fs ++ gs) = valuesOf name fs ++ valuesOf name gs := by
  simp [valuesOf]

theorem valuesOf_generated (r : HttpResponse) {name : Bytes}
    (h1 : name ≠ ascii "connection") (h2 : name ≠ ascii "keep-alive") :
    valuesOf name r.generatedFields = [] := by
  have hc : (ascii "Connection").map toLower = ascii "connection" := by decide
  have hk : (ascii "Keep-Alive").map toLower = ascii "keep-alive" := by decide
  rw [valuesOf, List.map_eq_nil_iff, List.filter_eq_nil_iff]
  intro f hf he
  have he' : f.1.map toLower = name := by simpa using he
  unfold HttpResponse.generatedFields at hf
  rcases List.mem_append.mp hf with hf | hf
  · split at hf
    · rw [List.mem_singleton.mp hf, hc] at he'
      exact h1 he'.symm
    · cases hf
  · split at hf
    · rw [List.mem_singleton.mp hf, hk] at he'
      exact h2 he'.symm
    · cases hf

/-- Among the names handlers set, no two differ only in case. -/
theorem handlerHeaders_lower : ∀ k ∈ handlerHeaders,
    (k.map toLower = ascii "content-length" ↔ k = ascii "Content-Length") ∧
      k.map toLower ≠ ascii "transfer-encoding" ∧ k ≠ [] ∧ k.all isTchar = true := by
  decide

section Built

variable {json : JsonLib} {r : HttpResponse} {hs : List (Bytes × Bytes)}

theorem valuesOf_headers (h : Sound r) (hp : hs.Perm r.headers)
    (hl : (r.headers.lookup (ascii "Content-Length")).isSome) :
    valuesOf (ascii "transfer-encoding") hs = [] ∧
      valuesOf (ascii "content-length") hs = [decimal r.body.length] := by
  have hnames : ∀ f ∈ hs, f.1 ∈ handlerHeaders := fun f hf =>
    h.names f.1 (List.mem_map.mpr ⟨f, hp.mem_iff.mp hf, rfl⟩)
  constructor
  · rw [valuesOf, List.map_eq_nil_iff, List.filter_eq_nil_iff]
    intro f hf he
    exact (handlerHeaders_lower f.1 (hnames f hf)).2.1 (by simpa using he)
  · obtain ⟨v, hv⟩ := Option.isSome_iff_exists.mp hl
    have hfilter : hs.filter (fun f => f.1.map toLower = ascii "content-length") =
        hs.filter fun f => f.1 = ascii "Content-Length" := by
      apply List.filter_congr
      intro f hf
      exact decide_eq_decide.mpr (handlerHeaders_lower f.1 (hnames f hf)).1
    have hone : hs.filter (fun f => f.1 = ascii "Content-Length") =
        [(ascii "Content-Length", v)] := by
      apply List.perm_singleton.mp
      rw [← filter_key h.nodup hv]
      exact hp.filter _
    rw [valuesOf, hfilter, hone, h.length v hv]
    rfl

/-- The header block has at least one line feed per field. -/
theorem length_le_count_lines (fs : List (Bytes × Bytes)) :
    fs.length ≤ (fs.flatMap fieldLine).count LF := by
  induction fs with
  | nil => simp
  | cons f fs ih =>
      have hone : 1 ≤ (fieldLine f).count LF := by
        rw [fieldLine, List.count_append]
        exact Nat.le_add_left _ _
      rw [List.flatMap_cons, List.count_append, List.length_cons]
      omega

/-- What a reader of the stream gets to see: one message, nothing after it,
with the status code, the fields and the body of the response. -/
def Framed (r : HttpResponse) (hs : List (Bytes × Bytes)) : Prop :=
  ∃ m, parseMessage (r.serialize hs) = some (m, []) ∧ (m.statusCode : Int) = r.statusCode ∧
    m.fields = r.generatedFields ++ hs ∧ m.body = r.body

theorem framed_of_clean (h : HandlerBuilt json r) (hp : hs.Perm r.headers) (hc : Clean r) :
    Framed r hs := by
  have hsound := sound_of_draft h.1
  obtain ⟨hte, hcl⟩ := valuesOf_headers hsound hp h.2
  have hline := parseStatusLine_statusLine hsound.status
  rw [if_pos hc.1] at hline
  have hfields : ∀ f ∈ r.generatedFields ++ hs, CleanField f := by
    intro f hf
    rcases List.mem_append.mp hf with hf | hf
    · exact cleanField_generated r f hf
    · have hmem : f ∈ r.headers := hp.mem_iff.mp hf
      have hname := handlerHeaders_lower f.1
        (hsound.names f.1 (List.mem_map.mpr ⟨f, hmem, rfl⟩))
      exact ⟨hname.2.2, hc.2 f hmem⟩
  obtain ⟨h1, h2, h3, h4⟩ := hsound.status
  refine ⟨{ statusCode := r.statusCode.toNat, reason := r.statusText,
            fields := r.generatedFields ++ hs, body := r.body }, ?_, ?_, rfl, rfl⟩
  · rw [serialize_eq]
    apply parseMessage_written hline (by omega) hfields
    · rw [valuesOf_append, hte, valuesOf_generated r (by decide) (by decide)]
      rfl
    · rw [valuesOf_append, hcl, valuesOf_generated r (by decide) (by decide)]
      rfl
  · exact Int.toNat_of_nonneg (by omega)

theorem clean_of_framed (h : HandlerBuilt json r) (hp : hs.Perm r.headers) (hf : Framed r hs) :
    Clean r := by
  have hsound := sound_of_draft h.1
  obtain ⟨m, hparse, -, hfields, hbody⟩ := hf
  obtain ⟨line, rest, hcut, hstatus, hvals, hcount⟩ := parseMessage_sound hparse
  refine ⟨?_, fun f hf => hvals f ?_⟩
  · -- a line feed in the status text would be one more than the message can hold
    have hserial := cutCrlf_sound hcut
    rw [serialize_eq] at hserial
    have htotal := congrArg (List.count LF) hserial
    have hline : line.count LF = 0 :=
      List.count_eq_zero.mpr (parseStatusLine_sound hstatus).1
    have hmin := length_le_count_lines (r.generatedFields ++ hs)
    have hcr : (CR == LF) = false := rfl
    simp only [List.count_append, List.count_cons, hcr, hline, hcount, hfields, hbody,
      Bool.false_eq_true, if_false, beq_self_eq_true, if_true] at htotal
    have hnone : LF ∉ statusLine r := by
      apply List.count_eq_zero.mp
      omega
    rw [serialize_eq, cutCrlf_append _ hnone] at hcut
    cases hcut
    rw [parseStatusLine_statusLine hsound.status] at hstatus
    by_contra hbad
    rw [if_neg hbad] at hstatus
    cases hstatus
  · rw [hfields]
    exact List.mem_append_right _ (hp.mem_iff.mpr hf)

/-- **A built response is framed exactly when it is clean.** -/
theorem serialize_framed_iff (h : HandlerBuilt json r) (hp : hs.Perm r.headers) :
    Framed r hs ↔ Clean r :=
  ⟨clean_of_framed h hp, framed_of_clean h hp⟩

end Built

/-- A download answered with the stored name `filename`. -/
def sampleDownload (filename : Bytes) : HttpResponse :=
  (HttpResponse.setBinary {} (ascii "hi") (ascii "text/plain")).setDownloadHeaders filename 2

theorem sampleDownload_built (filename : Bytes) :
    HandlerBuilt JsonText.lib (sampleDownload filename) := by
  refine ⟨.setDownloadHeaders (.setBinary .new), ?_⟩
  rw [Option.isSome_iff_exists]
  exact ⟨_, lookup_setKey_self _ _ _⟩

theorem serialize_plain_name :
    Framed (sampleDownload (ascii "notes.txt")) (sampleDownload (ascii "notes.txt")).headers := by
  refine (serialize_framed_iff (sampleDownload_built _) (List.Perm.refl _)).mpr ⟨by decide, ?_⟩
  decide +kernel

/-- A file uploaded as `a%0d%0aSet-Cookie: s=1` downloads with an extra header
field. -/
theorem serialize_name_with_line_break :
    HandlerBuilt JsonText.lib (sampleDownload (ascii "a\r\nSet-Cookie: s=1")) ∧
      parseMessage ((sampleDownload (ascii "a\r\nSet-Cookie: s=1")).serialize
          (sampleDownload (ascii "a\r\nSet-Cookie: s=1")).headers) =
        some ({ statusCode := 200
                reason := ascii "OK"
                fields := [(ascii "Connection", ascii "close"),
                  (ascii "Content-Type", ascii "text/plain"), (ascii "Content-Length", ascii "2"),
                  (ascii "Content-Disposition", ascii "attachment; filename=\"a"),
                  (ascii "Set-Cookie", ascii "s=1\"")]
                body := ascii "hi" }, []) ∧
      ¬ Framed (sampleDownload (ascii "a\r\nSet-Cookie: s=1"))
        (sampleDownload (ascii "a\r\nSet-Cookie: s=1")).headers := by
  refine ⟨sampleDownload_built _, by decide +kernel, fun h => ?_⟩
  have hclean := clean_of_framed (sampleDownload_built _) (List.Perm.refl _) h
  have hvalue := hclean.2 (ascii "Content-Disposition",
    HttpResponse.attachment (ascii "a\r\nSet-Cookie: s=1")) (by decide +kernel)
  exact absurd hvalue.1 (by decide +kernel)

end SolarDrive.Http
