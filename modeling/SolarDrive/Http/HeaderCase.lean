import Mathlib.Data.List.Forall2
import SolarDrive.Http.Parser
import SolarDrive.Http.ParserTotal

/-!
# Letter case in header names

A client may write its header names in either case; the parser looks up
`Content-Length` by its exact spelling. Two texts that differ only in the case of
header names drive two parsers side by side (`Alike`), until a header block ends
with another body length in one of them: there the one that misses the length hands
a request over whose body the other one is still reading (`deliveries_alike_iff`).
-/

namespace SolarDrive.Http

open Lib

/-- Equal up to the case of letters. -/
def SameLetters (a b : Bytes) : Prop := a.map toLower = b.map toLower

instance (a b : Bytes) : Decidable (SameLetters a b) :=
  inferInstanceAs (Decidable (a.map toLower = b.map toLower))

/-- The same headers under names that differ in case only. -/
def Renamed : List (Bytes × Bytes) → List (Bytes × Bytes) → Prop :=
  List.Forall₂ fun h k => SameLetters h.1 k.1 ∧ h.2 = k.2

/-- The names differ in more than case. -/
def DistinctNames (headers : List (Bytes × Bytes)) : Prop :=
  headers.Pairwise fun h k => ¬ SameLetters h.1 k.1

/-- The same request but for the case of its header names. -/
def SameRequest (r r' : HttpRequest) : Prop :=
  ∃ hs, r' = { r with headers := hs } ∧ Renamed r.headers hs

/-- The length `transition_to_body` finds. -/
def HttpRequest.bodyLength (r : HttpRequest) : Except StoError Nat :=
  let cl := r.getHeader (ascii "Content-Length")
  if cl = [] then .ok 0 else stoull cl

namespace HttpParser

/-- The byte is one of a header name. -/
def inName (p : HttpParser) (c : UInt8) : Bool :=
  match p.state with
  | .headerLF => c ≠ CR ∧ c ≠ LF
  | .headerFieldStart => c ≠ LF
  | .headerField => c ≠ COLON
  | _ => false

/-- The second text is the first with letters of its header names in the other case. -/
def Recased (p : HttpParser) : Bytes → Bytes → Prop
  | [], [] => True
  | c :: cs, d :: ds =>
      (c = d ∨ p.inName c = true ∧ toLower c = toLower d) ∧
        match p.feedByte c with
        | .ok (q, _) => Recased q cs ds
        | .error _ => cs = ds
  | _, _ => False

instance decRecased : (bs bs' : Bytes) → (p : HttpParser) → Decidable (p.Recased bs bs')
  | [], [], _ => isTrue trivial
  | [], _ :: _, _ => isFalse id
  | _ :: _, [], _ => isFalse id
  | c :: cs, d :: ds, p =>
      have : Decidable (match p.feedByte c with
        | .ok (q, _) => Recased q cs ds
        | .error _ => cs = ds) :=
        match p.feedByte c with
        | .ok (q, _) => decRecased cs ds q
        | .error _ => inferInstanceAs (Decidable (cs = ds))
      inferInstanceAs (Decidable ((c = d ∨ p.inName c = true ∧ toLower c = toLower d) ∧ _))

/-- The byte ends a header line, and with it the name and the value are stored. -/
def endsLine (p : HttpParser) (c : UInt8) : Bool := p.state = .headerValue ∧ (c = CR ∨ c = LF)

/-- No header is stored under a name that is there already, in whatever case. -/
def NamesDiffer (p : HttpParser) : Bytes → Prop
  | [] => True
  | c :: cs =>
      (p.endsLine c = true → ∀ h ∈ p.curReq.headers, ¬ SameLetters h.1 p.curHeaderField) ∧
        match p.feedByte c with
        | .ok (q, _) => NamesDiffer q cs
        | .error _ => True

instance decNamesDiffer : (bs : Bytes) → (p : HttpParser) → Decidable (p.NamesDiffer bs)
  | [], _ => isTrue trivial
  | c :: cs, p =>
      have : Decidable (match p.feedByte c with
        | .ok (q, _) => NamesDiffer q cs
        | .error _ => True) :=
        match p.feedByte c with
        | .ok (q, _) => decNamesDiffer cs q
        | .error _ => isTrue trivial
      inferInstanceAs (Decidable ((p.endsLine c = true →
        ∀ h ∈ p.curReq.headers, ¬ SameLetters h.1 p.curHeaderField) ∧ _))

/-- The byte ends a header block. -/
def endsBlock (p : HttpParser) (c : UInt8) : Bool :=
  c = LF ∧ (p.state = .headerLF ∨ p.state = .headerFieldStart)

/-- The requests of a text as they are when their header blocks end. -/
def blocks (p : HttpParser) : Bytes → List HttpRequest
  | [] => []
  | c :: cs =>
      (if p.endsBlock c then [p.curReq] else []) ++
        match p.feedByte c with
        | .ok (q, _) => blocks q cs
        | .error _ => []

/-- The requests that are handed over, up to the exception if there is one. -/
def deliveries (p : HttpParser) : Bytes → List HttpRequest × Option StoError
  | [] => ([], none)
  | c :: cs =>
      match p.feedByte c with
      | .ok (q, out) => (out ++ (deliveries q cs).1, (deliveries q cs).2)
      | .error e => ([], some e)

/-- What `feed` returns is what was handed over, unless it throws. -/
theorem feed_eq_deliveries (p : HttpParser) (bs : Bytes) :
    (∀ q out, p.feed bs = .ok (q, out) → p.deliveries bs = (out, none)) ∧
      ∀ e, p.feed bs = .error e → (p.deliveries bs).2 = some e := by
  induction bs generalizing p with
  | nil =>
      refine ⟨fun q out h => ?_, fun e h => ?_⟩
      · cases h
        rfl
      · cases h
  | cons c cs ih =>
      simp only [feed, deliveries]
      cases hbyte : p.feedByte c with
      | error e =>
          refine ⟨fun q out h => ?_, fun e' h => ?_⟩
          · cases h
          · cases h
            rfl
      | ok r =>
          obtain ⟨q, out⟩ := r
          obtain ⟨hok, herror⟩ := ih q
          dsimp only
          cases hrest : q.feed cs with
          | error e =>
              refine ⟨fun q' out' h => ?_, fun e' h => ?_⟩
              · cases h
              · cases h
                exact herror e hrest
          | ok r' =>
              obtain ⟨q', out'⟩ := r'
              refine ⟨fun q'' out'' h => ?_, fun e' h => ?_⟩
              · cases h
                rw [hok q' out' hrest]
              · cases h

/-! ## One byte -/

/-- The parser with other header names. -/
def withNames (p : HttpParser) (field : Bytes) (hs : List (Bytes × Bytes)) : HttpParser :=
  { p with curReq := { p.curReq with headers := hs }, curHeaderField := field }

/-- Two parsers that have read texts which differ in the case of header names. -/
def Alike (p q : HttpParser) : Prop :=
  ∃ field hs, q = p.withNames field hs ∧ SameLetters p.curHeaderField field ∧
    Renamed p.curReq.headers hs

/-- What holds of a parser between two bytes. -/
structure Sound (p : HttpParser) : Prop where
  incomplete : p.complete = false
  body : p.curReq.body = []
  names : DistinctNames p.curReq.headers
  short : p.state = .body → p.bodyBuf.length < p.bodyBytesRemaining

theorem sameLetters_snoc {a b : Bytes} {c d : UInt8} (h : SameLetters a b)
    (hc : toLower c = toLower d) : SameLetters (a ++ [c]) (b ++ [d]) := by
  simp only [SameLetters, List.map_append, List.map_cons, List.map_nil] at h ⊢
  rw [h, hc]

/-- Case changes letters into letters. -/
theorem toLower_special {c d : UInt8} (h : toLower c = toLower d) :
    (c = CR ↔ d = CR) ∧ (c = LF ↔ d = LF) ∧ (c = COLON ↔ d = COLON) := by
  unfold toLower at h
  grind

theorem renamed_of_mem {hs ks : List (Bytes × Bytes)} (h : Renamed hs ks) {k : Bytes × Bytes}
    (hk : k ∈ ks) : ∃ entry ∈ hs, SameLetters entry.1 k.1 := by
  induction h with
  | nil => cases hk
  | cons hfirst _ ih =>
      rcases List.mem_cons.mp hk with rfl | hk
      · exact ⟨_, List.mem_cons_self, hfirst.1⟩
      · obtain ⟨entry, hentry, hsame⟩ := ih hk
        exact ⟨entry, List.mem_cons_of_mem _ hentry, hsame⟩

theorem distinctNames_renamed {hs ks : List (Bytes × Bytes)} (h : Renamed hs ks)
    (hnames : DistinctNames hs) : DistinctNames ks := by
  induction h with
  | nil => exact .nil
  | cons hfirst hrest ih =>
      obtain ⟨hnew, hnames⟩ := List.pairwise_cons.mp hnames
      refine .cons (fun entry hentry hsame => ?_) (ih hnames)
      obtain ⟨other, hother, hsame'⟩ := renamed_of_mem hrest hentry
      exact hnew other hother (hfirst.1.trans (hsame.trans hsame'.symm))

/-- A name that is not there under any spelling is added at the end. -/
theorem setKey_renamed {hs ks : List (Bytes × Bytes)} {field field' : Bytes}
    (val : Bytes) (h : Renamed hs ks) (hfield : SameLetters field field')
    (hnew : ∀ h ∈ hs, ¬ SameLetters h.1 field) :
    setKey field val hs = hs ++ [(field, val)] ∧ setKey field' val ks = ks ++ [(field', val)] := by
  constructor
  · refine setKey_of_not_mem val fun hmem => ?_
    obtain ⟨entry, hentry, rfl⟩ := List.mem_map.mp hmem
    exact hnew entry hentry rfl
  · refine setKey_of_not_mem val fun hmem => ?_
    obtain ⟨entry, hentry, rfl⟩ := List.mem_map.mp hmem
    obtain ⟨other, hother, hsame⟩ := renamed_of_mem h hentry
    exact hnew other hother (hsame.trans hfield.symm)

theorem endsBlock_alike {p q : HttpParser} {c d : UInt8} (h : Alike p q)
    (hc : c = d ∨ p.inName c = true ∧ toLower c = toLower d) :
    q.endsBlock d = p.endsBlock c := by
  obtain ⟨field, hs, rfl, -, -⟩ := h
  have hiff : c = LF ↔ d = LF := by
    rcases hc with rfl | ⟨-, hc⟩
    · rfl
    · exact (toLower_special hc).2.1
  simp only [endsBlock, withNames, hiff]
  rfl

/-- A byte that ends no block is parsed alike. -/
theorem parseChar_alike {p q : HttpParser} {c d : UInt8} (h : Alike p q)
    (hc : c = d ∨ p.inName c = true ∧ toLower c = toLower d) (hend : p.endsBlock c = false)
    (hline : p.endsLine c = true → ∀ h ∈ p.curReq.headers, ¬ SameLetters h.1 p.curHeaderField) :
    ∃ p' q', p.parseChar c = .ok p' ∧ q.parseChar d = .ok q' ∧ Alike p' q' := by
  obtain ⟨field, hs, rfl, hfield, hhs⟩ := h
  have hlower : toLower c = toLower d := by
    rcases hc with rfl | ⟨-, hc⟩
    · rfl
    · exact hc
  obtain ⟨hcr, hlf, hcolon⟩ := toLower_special hlower
  have hstate : (p.withNames field hs).state = p.state := rfl
  -- only inside a name may the two bytes differ
  cases hst : p.state
  case headerLF =>
    have hne : c ≠ LF := by
      rintro rfl
      simp [endsBlock, hst] at hend
    simp only [parseChar, hst, hstate, if_neg hne, if_neg (mt hlf.mpr hne), ← hcr]
    split
    · exact ⟨_, _, rfl, rfl, field, hs, rfl, hfield, hhs⟩
    · refine ⟨_, _, rfl, rfl, [d], hs, rfl, ?_, hhs⟩
      simp only [SameLetters, List.map_cons, List.map_nil, hlower]
  case headerFieldStart =>
    have hne : c ≠ LF := by
      rintro rfl
      simp [endsBlock, hst] at hend
    simp only [parseChar, hst, hstate, if_neg hne, if_neg (mt hlf.mpr hne)]
    refine ⟨_, _, rfl, rfl, [d], hs, rfl, ?_, hhs⟩
    simp only [SameLetters, List.map_cons, List.map_nil, hlower]
  case headerField =>
    simp only [parseChar, hst, hstate, ← hcolon]
    split
    · exact ⟨_, _, rfl, rfl, field, hs, rfl, hfield, hhs⟩
    · exact ⟨_, _, rfl, rfl, field ++ [d], hs, rfl, sameLetters_snoc hfield hlower, hhs⟩
  case headerValue =>
    have heq : c = d := by simpa [inName, hst] using hc
    subst heq
    -- a new name replaces no entry on either side
    have hadd : c = CR ∨ c = LF → Renamed
        (p.curReq.addHeader p.curHeaderField p.curHeaderValue).headers
        ((p.withNames field hs).curReq.addHeader field p.curHeaderValue).headers := by
      intro hc
      obtain ⟨hkey, hkey'⟩ := setKey_renamed p.curHeaderValue hhs hfield
        (hline (by simp [endsLine, hst, hc]))
      simp only [HttpRequest.addHeader, withNames, hkey, hkey']
      exact List.rel_append hhs (.cons ⟨hfield, rfl⟩ .nil)
    simp only [parseChar, hst, hstate]
    split
    · rename_i hc
      exact ⟨_, _, rfl, rfl, field, _, rfl, hfield, hadd (.inl hc)⟩
    · split
      · rename_i hc
        exact ⟨_, _, rfl, rfl, field, _, rfl, hfield, hadd (.inr hc)⟩
      · exact ⟨_, _, rfl, rfl, field, hs, rfl, hfield, hhs⟩
  case body =>
    have heq : c = d := by simpa [inName, hst] using hc
    subst heq
    have hbuf : (p.withNames field hs).bodyBuf = p.bodyBuf := rfl
    have hremaining : (p.withNames field hs).bodyBytesRemaining = p.bodyBytesRemaining := rfl
    simp only [parseChar, hst, hstate, hbuf, hremaining]
    split
    all_goals exact ⟨_, _, rfl, rfl, field, hs, rfl, hfield, hhs⟩
  all_goals
    have heq : c = d := by simpa [inName, hst] using hc
    subst heq
    simp only [parseChar, hst, hstate]
    repeat' split
    all_goals exact ⟨_, _, rfl, rfl, field, hs, rfl, hfield, hhs⟩

theorem transitionToBody_eq (p : HttpParser) :
    (∀ e, p.curReq.bodyLength = .error e → p.transitionToBody = .error e) ∧
    (p.curReq.bodyLength = .ok 0 → ∃ k, p.transitionToBody =
      .ok { p with bodyBytesRemaining := k, complete := true }) ∧
    ∀ n, p.curReq.bodyLength = .ok (n + 1) → p.transitionToBody =
      .ok { p with bodyBytesRemaining := n + 1, bodyBuf := [], state := .body } := by
  unfold HttpRequest.bodyLength transitionToBody
  dsimp only
  split
  · refine ⟨nofun, fun _ => ⟨p.bodyBytesRemaining, rfl⟩, fun n h => ?_⟩
    cases h
  · cases stoull (p.curReq.getHeader (ascii "Content-Length")) with
    | error e =>
        refine ⟨fun e h => ?_, nofun, nofun⟩
        cases h
        rfl
    | ok n =>
        refine ⟨nofun, fun h => ?_, fun m h => ?_⟩
        · cases h
          exact ⟨0, rfl⟩
        · cases h
          rfl

theorem parseChar_block {p : HttpParser} {c : UInt8} (h : p.endsBlock c = true) :
    p.parseChar c = p.transitionToBody := by
  simp only [endsBlock, decide_eq_true_eq] at h
  obtain ⟨rfl, hst | hst⟩ := h
  · simp only [parseChar, hst, if_true, if_neg (show LF ≠ CR by decide)]
  · simp only [parseChar, hst, if_true]

/-- What a byte that ends a header block does, by the length that is found. -/
theorem feedByte_block {p : HttpParser} {c : UInt8} (hsound : Sound p)
    (h : p.endsBlock c = true) :
    (∀ e, p.curReq.bodyLength = .error e → p.feedByte c = .error e) ∧
    (p.curReq.bodyLength = .ok 0 → p.feedByte c = .ok (fresh, [p.curReq])) ∧
    ∀ n, p.curReq.bodyLength = .ok (n + 1) → p.feedByte c =
      .ok ({ p with bodyBytesRemaining := n + 1, bodyBuf := [], state := .body }, []) := by
  obtain ⟨herror, hzero, hmore⟩ := transitionToBody_eq p
  unfold feedByte
  rw [parseChar_block h]
  refine ⟨fun e he => ?_, fun hlen => ?_, fun n hlen => ?_⟩
  · rw [herror e he]
  · obtain ⟨k, hk⟩ := hzero hlen
    rw [hk]
    rfl
  · rw [hmore n hlen]
    simp [hsound.incomplete]

theorem distinctNames_add {r : HttpRequest} {field val : Bytes} (h : DistinctNames r.headers)
    (hnew : ∀ entry ∈ r.headers, ¬ SameLetters entry.1 field) :
    DistinctNames (r.addHeader field val).headers := by
  have hmem : field ∉ r.headers.map Prod.fst := by
    intro hmem
    obtain ⟨entry, hentry, rfl⟩ := List.mem_map.mp hmem
    exact hnew entry hentry rfl
  simp only [HttpRequest.addHeader, setKey_of_not_mem val hmem]
  refine List.pairwise_append.mpr ⟨h, List.pairwise_singleton _ _, ?_⟩
  intro entry hentry last hlast
  rw [List.mem_singleton.mp hlast]
  exact hnew entry hentry

/-- A byte completes the request or leaves the parser between two bytes. -/
theorem parseChar_sound {p p' : HttpParser} {c : UInt8} (hsound : Sound p)
    (hline : p.endsLine c = true → ∀ h ∈ p.curReq.headers, ¬ SameLetters h.1 p.curHeaderField)
    (hend : p.endsBlock c = false) (hparse : p.parseChar c = .ok p') :
    DistinctNames p'.curReq.headers ∧ (p'.complete = false → Sound p') := by
  obtain ⟨-, hbody, hnames, hshort⟩ := hsound
  cases hst : p.state
  case headerLF =>
    have hne : c ≠ LF := by
      rintro rfl
      simp [endsBlock, hst] at hend
    simp only [parseChar, hst, if_neg hne] at hparse
    split at hparse
    all_goals
      cases hparse
      exact ⟨hnames, fun hincomplete => ⟨hincomplete, hbody, hnames, by simp⟩⟩
  case headerFieldStart =>
    have hne : c ≠ LF := by
      rintro rfl
      simp [endsBlock, hst] at hend
    simp only [parseChar, hst, if_neg hne] at hparse
    cases hparse
    exact ⟨hnames, fun hincomplete => ⟨hincomplete, hbody, hnames, by simp⟩⟩
  case headerValue =>
    have hadd : c = CR ∨ c = LF →
        DistinctNames (p.curReq.addHeader p.curHeaderField p.curHeaderValue).headers :=
      fun hc => distinctNames_add hnames (hline (by simp [endsLine, hst, hc]))
    simp only [parseChar, hst] at hparse
    split at hparse
    · rename_i hc
      cases hparse
      exact ⟨hadd (.inl hc), fun hincomplete => ⟨hincomplete, hbody, hadd (.inl hc), by simp⟩⟩
    · split at hparse
      · rename_i hc
        cases hparse
        exact ⟨hadd (.inr hc), fun hincomplete => ⟨hincomplete, hbody, hadd (.inr hc), by simp⟩⟩
      · cases hparse
        exact ⟨hnames, fun hincomplete => ⟨hincomplete, hbody, hnames, by simp⟩⟩
  case body =>
    simp only [parseChar, hst] at hparse
    split at hparse
    · cases hparse
      exact ⟨hnames, by simp⟩
    · rename_i hshort'
      cases hparse
      exact ⟨hnames, fun hincomplete =>
        ⟨hincomplete, hbody, hnames, fun _ => Nat.lt_of_not_le hshort'⟩⟩
  all_goals
    simp only [parseChar, hst] at hparse
    repeat' split at hparse
    all_goals
      cases hparse
      refine ⟨hnames, fun hincomplete => ⟨hincomplete, hbody, hnames, fun hbodyState => ?_⟩⟩
      first
        | cases hbodyState
        | cases hst.symm.trans hbodyState

theorem sound_fresh : Sound fresh := ⟨rfl, rfl, List.Pairwise.nil, nofun⟩

/-- In a body no request is handed over but with that body. -/
theorem deliveries_body {bs : Bytes} : ∀ {p : HttpParser}, Sound p → p.state = .body →
    ∀ r rest, (p.deliveries bs).1 = r :: rest → r.body ≠ [] := by
  induction bs with
  | nil =>
      intro p hsound hst r rest h
      cases h
  | cons c cs ih =>
      intro p hsound hst r rest h
      simp only [deliveries, feedByte, parseChar, hst] at h
      by_cases hlast : p.bodyBytesRemaining ≤ (p.bodyBuf ++ [c]).length
      · simp only [hlast, if_true, List.cons_append, List.nil_append, List.cons.injEq] at h
        rw [← h.1]
        simp
      · simp only [hlast, if_false, hsound.incomplete, Bool.false_eq_true, List.nil_append] at h
        have hshort : (p.bodyBuf ++ [c]).length < p.bodyBytesRemaining := Nat.lt_of_not_le hlast
        exact ih (p := { p with state := .body, bodyBuf := p.bodyBuf ++ [c], complete := false })
          ⟨rfl, hsound.body, hsound.names, fun _ => hshort⟩ rfl r rest h

/-! ## Two parsers side by side -/

theorem sound_alike {p q : HttpParser} (h : Alike p q) (hsound : Sound p) : Sound q := by
  obtain ⟨field, hs, rfl, -, hhs⟩ := h
  exact ⟨hsound.incomplete, hsound.body, distinctNames_renamed hhs hsound.names, hsound.short⟩

theorem alike_sameRequest {p q : HttpParser} (h : Alike p q) : SameRequest p.curReq q.curReq := by
  obtain ⟨field, hs, rfl, -, hhs⟩ := h
  exact ⟨hs, rfl, hhs⟩

theorem lookup_cons_eq (key : Bytes) (h : Bytes × Bytes) (hs : List (Bytes × Bytes)) :
    (h :: hs).lookup key = if h.1 = key then some h.2 else hs.lookup key := by
  rw [List.lookup_cons]
  split
  · rename_i heq
    rw [if_pos (eq_of_beq heq).symm]
  · rename_i hne
    rw [if_neg fun heq => ?_]
    simp [heq] at hne

theorem lookup_eq_none {hs : List (Bytes × Bytes)} {key : Bytes}
    (h : ∀ entry ∈ hs, entry.1 ≠ key) : hs.lookup key = none := by
  refine List.lookup_eq_none_iff.mpr fun entry hentry => ?_
  exact bne_iff_ne.mpr (h entry hentry).symm

theorem lookup_renamed {hs ks : List (Bytes × Bytes)} (h : Renamed hs ks)
    (hnames : DistinctNames hs) (key : Bytes) :
    hs.lookup key = ks.lookup key ∨ hs.lookup key = none ∨ ks.lookup key = none := by
  induction h with
  | nil => exact .inl rfl
  | @cons h k hs ks hfirst hrest ih =>
      obtain ⟨hnew, hnames⟩ := List.pairwise_cons.mp hnames
      rw [lookup_cons_eq, lookup_cons_eq]
      by_cases hh : h.1 = key
      · by_cases hk : k.1 = key
        · rw [if_pos hh, if_pos hk, hfirst.2]
          exact .inl rfl
        · rw [if_neg hk]
          refine .inr (.inr (lookup_eq_none fun entry hentry heq => ?_))
          obtain ⟨other, hother, hsame⟩ := renamed_of_mem hrest hentry
          rw [heq, ← hh] at hsame
          exact hnew other hother hsame.symm
      · rw [if_neg hh]
        by_cases hk : k.1 = key
        · refine .inr (.inl (lookup_eq_none fun entry hentry heq => hnew entry hentry ?_))
          rw [heq, ← hk]
          exact hfirst.1
        · rw [if_neg hk]
          exact ih hnames

/-- Of two requests whose names differ in case a header of a given spelling is
missing in one, or they agree on it. -/
theorem getHeader_renamed {r r' : HttpRequest} (h : SameRequest r r')
    (hnames : DistinctNames r.headers) (key : Bytes) :
    r.getHeader key = r'.getHeader key ∨ r.getHeader key = [] ∨ r'.getHeader key = [] := by
  obtain ⟨hs, rfl, hhs⟩ := h
  unfold HttpRequest.getHeader
  rcases lookup_renamed hhs hnames key with heq | hnone | hnone
  · exact .inl (congrArg (Option.getD · []) heq)
  · exact .inr (.inl (by rw [hnone]; rfl))
  · exact .inr (.inr (by rw [hnone]; rfl))

theorem alike_refl (p : HttpParser) : Alike p p :=
  ⟨p.curHeaderField, p.curReq.headers, rfl, rfl, List.forall₂_same.mpr fun _ _ => ⟨rfl, rfl⟩⟩

theorem bodyLength_of_none {r : HttpRequest} (h : r.getHeader (ascii "Content-Length") = []) :
    r.bodyLength = .ok 0 := by
  rw [HttpRequest.bodyLength, h]
  rfl

/-- A parser that finds a length hands nothing over at the end of the block, and
nothing without a body next. -/
theorem deliveries_withheld {cs : Bytes} {c : UInt8} {p : HttpParser} (hsound : Sound p)
    (hend : p.endsBlock c = true) (hlen : p.curReq.bodyLength ≠ .ok 0) {r : HttpRequest}
    {rest : List HttpRequest} (h : (p.deliveries (c :: cs)).1 = r :: rest) : r.body ≠ [] := by
  obtain ⟨herror, -, hmore⟩ := feedByte_block hsound hend
  cases hl : p.curReq.bodyLength with
  | error e =>
      rw [deliveries, herror e hl] at h
      cases h
  | ok n =>
      cases n with
      | zero => exact absurd hl hlen
      | succ n =>
          rw [deliveries, hmore n hl] at h
          exact deliveries_body (p := { p with bodyBytesRemaining := n + 1, bodyBuf := [], state := .body })
            ⟨hsound.incomplete, hsound.body, hsound.names, fun _ => Nat.succ_pos n⟩ rfl r rest h

/-- Without a length the request is handed over at the end of its block. -/
theorem deliveries_bodiless {cs : Bytes} {c : UInt8} {p : HttpParser} (hsound : Sound p)
    (hend : p.endsBlock c = true) (hlen : p.curReq.bodyLength = .ok 0) :
    p.deliveries (c :: cs) = (p.curReq :: (fresh.deliveries cs).1, (fresh.deliveries cs).2) := by
  rw [deliveries, (feedByte_block hsound hend).2.1 hlen]
  rfl

/-- At the end of blocks whose body lengths differ the two hand over different requests:
the header is missing on one side, which hands its request over at once, without a body. -/
theorem deliveries_differ {cs ds : Bytes} {c d : UInt8} {p q : HttpParser}
    (hsame : SameRequest p.curReq q.curReq) (hsound : Sound p) (hsoundq : Sound q)
    (hend : p.endsBlock c = true) (hendq : q.endsBlock d = true)
    (hlen : p.curReq.bodyLength ≠ q.curReq.bodyLength) :
    ¬ List.Forall₂ SameRequest (p.deliveries (c :: cs)).1 (q.deliveries (d :: ds)).1 := by
  intro hforall
  rcases getHeader_renamed hsame hsound.names (ascii "Content-Length") with heq | hnone | hnone
  · exact hlen (by simp only [HttpRequest.bodyLength, heq])
  · have hzero := bodyLength_of_none hnone
    rw [deliveries_bodiless hsound hend hzero] at hforall
    cases hq : (q.deliveries (d :: ds)).1 with
    | nil =>
        rw [hq] at hforall
        cases hforall
    | cons r rest =>
        have hbody := deliveries_withheld hsoundq hendq (fun h => hlen (hzero.trans h.symm)) hq
        rw [hq] at hforall
        obtain ⟨⟨hs, rfl, -⟩, -⟩ := List.forall₂_cons.mp hforall
        exact hbody hsound.body
  · have hzero := bodyLength_of_none hnone
    rw [deliveries_bodiless hsoundq hendq hzero] at hforall
    cases hp : (p.deliveries (c :: cs)).1 with
    | nil =>
        rw [hp] at hforall
        cases hforall
    | cons r rest =>
        have hbody := deliveries_withheld hsound hend (fun h => hlen (h.trans hzero.symm)) hp
        rw [hp] at hforall
        obtain ⟨⟨hs, heq, -⟩, -⟩ := List.forall₂_cons.mp hforall
        have hbody' := hsoundq.body
        rw [heq] at hbody'
        exact hbody hbody'

/-- The requests handed over are the same exactly when the header blocks give the
same body lengths. -/
theorem deliveries_alike_iff {bs : Bytes} : ∀ {bs' : Bytes} {p q : HttpParser}, Alike p q → Sound p →
    p.Recased bs bs' → p.NamesDiffer bs →
    ((List.Forall₂ SameRequest (p.deliveries bs).1 (q.deliveries bs').1 ∧
      (p.deliveries bs).2 = (q.deliveries bs').2) ↔
    ∀ b ∈ (p.blocks bs).zip (q.blocks bs'), b.1.bodyLength = b.2.bodyLength) := by
  induction bs with
  | nil =>
      intro bs' p q halike hsound hre hdiffer
      cases bs' with
      | nil => simp [deliveries, blocks]
      | cons d ds => cases hre
  | cons c cs ih =>
      intro bs' p q halike hsound hre hdiffer
      cases bs' with
      | nil => cases hre
      | cons d ds =>
      obtain ⟨hc, hre⟩ := hre
      obtain ⟨hline, hdiffer⟩ := hdiffer
      have hendq := endsBlock_alike halike hc
      -- only the end of a header block looks a header up
      by_cases hend : p.endsBlock c = true
      · rw [hend] at hendq
        have hsoundq : Sound q := sound_alike halike hsound
        have hsame := alike_sameRequest halike
        by_cases hlen : p.curReq.bodyLength = q.curReq.bodyLength
        · obtain ⟨herror, hzero, hmore⟩ := feedByte_block hsound hend
          obtain ⟨herrorq, hzeroq, hmoreq⟩ := feedByte_block hsoundq hendq
          rw [← hlen] at herrorq hzeroq hmoreq
          cases hl : p.curReq.bodyLength with
          | error e =>
              simp [deliveries, blocks, herror e hl, herrorq e hl, hend, hendq, hlen]
          | ok n =>
              cases n with
              | zero =>
                  rw [hzero hl] at hre hdiffer
                  have hrest := ih (alike_refl fresh) sound_fresh hre hdiffer
                  simp only [deliveries, blocks, hzero hl, hzeroq hl, hend, hendq, if_true,
                    List.cons_append, List.nil_append, List.forall₂_cons, List.zip_cons_cons,
                    List.forall_mem_cons, hlen, hsame, true_and]
                  exact hrest
              | succ n =>
                  rw [hmore n hl] at hre hdiffer
                  obtain ⟨field, hs, rfl, hfield, hhs⟩ := halike
                  have hsound' : Sound { p with
                      bodyBytesRemaining := n + 1, bodyBuf := [], state := .body } :=
                    ⟨hsound.incomplete, hsound.body, hsound.names, fun _ => Nat.succ_pos n⟩
                  have hrest := ih (q := { p.withNames field hs with
                      bodyBytesRemaining := n + 1, bodyBuf := [], state := .body })
                    (p := { p with bodyBytesRemaining := n + 1, bodyBuf := [], state := .body })
                    ⟨field, hs, rfl, hfield, hhs⟩ hsound' hre hdiffer
                  simp only [deliveries, blocks, hmore n hl, hmoreq n hl, hend, hendq, if_true,
                    List.cons_append, List.nil_append, List.zip_cons_cons, List.forall_mem_cons,
                    hlen, true_and]
                  exact hrest
        · refine iff_of_false ?_ ?_
          · rintro ⟨hforall, -⟩
            exact deliveries_differ hsame hsound hsoundq hend hendq hlen hforall
          · intro h
            refine hlen (h (p.curReq, q.curReq) ?_)
            simp [blocks, hend, hendq]
      · -- elsewhere both parsers take the same step
        rw [Bool.not_eq_true] at hend
        obtain ⟨p', q', hparse, hparse', halike'⟩ := parseChar_alike halike hc hend hline
        have hcomplete : q'.complete = p'.complete := by
          obtain ⟨field, hs, rfl, -, -⟩ := halike'
          rfl
        have hsame := alike_sameRequest halike'
        simp only [deliveries, blocks, feedByte, hparse, hparse', hendq, hend, hcomplete] at hre hdiffer ⊢
        by_cases hdone : p'.complete = true
        · simp only [hdone, if_true] at hre hdiffer ⊢
          have hrest := ih (alike_refl fresh) sound_fresh hre hdiffer
          refine Iff.trans ⟨fun ⟨h, hlast⟩ => ?_, fun ⟨h, hlast⟩ => ?_⟩ hrest
          · exact ⟨(List.forall₂_cons.mp h).2, hlast⟩
          · exact ⟨.cons hsame h, hlast⟩
        · simp only [hdone] at hre hdiffer ⊢
          refine ih halike' ?_ hre hdiffer
          exact (parseChar_sound hsound hline hend hparse).2 (Bool.eq_false_iff.mpr hdone)

/-- The names of a request that is handed over are distinct. -/
theorem deliveries_distinct {bs : Bytes} : ∀ {p : HttpParser}, Sound p → p.NamesDiffer bs →
    ∀ r ∈ (p.deliveries bs).1, DistinctNames r.headers := by
  induction bs with
  | nil => exact fun _ _ r hr => absurd hr List.not_mem_nil
  | cons c cs ih =>
      intro p hsound hdiffer r hr
      obtain ⟨hline, hdiffer⟩ := hdiffer
      by_cases hend : p.endsBlock c = true
      · obtain ⟨herror, hzero, hmore⟩ := feedByte_block hsound hend
        cases hl : p.curReq.bodyLength with
        | error e =>
            rw [deliveries, herror e hl] at hr
            cases hr
        | ok n =>
            cases n with
            | zero =>
                rw [hzero hl] at hdiffer
                rw [deliveries, hzero hl] at hr
                rcases List.mem_cons.mp hr with rfl | hr
                · exact hsound.names
                · exact ih sound_fresh hdiffer r hr
            | succ n =>
                rw [hmore n hl] at hdiffer
                rw [deliveries, hmore n hl] at hr
                exact ih (p := { p with
                    bodyBytesRemaining := n + 1, bodyBuf := [], state := .body })
                  ⟨hsound.incomplete, hsound.body, hsound.names, fun _ => Nat.succ_pos n⟩
                  hdiffer r hr
      · rw [Bool.not_eq_true] at hend
        obtain ⟨p', -, hparse, -, -⟩ := parseChar_alike (alike_refl p) (.inl rfl) hend hline
        obtain ⟨hnames, hsound'⟩ := parseChar_sound hsound hline hend hparse
        simp only [deliveries, feedByte, hparse] at hdiffer hr
        by_cases hdone : p'.complete = true
        · simp only [hdone, if_true] at hdiffer hr
          rcases List.mem_cons.mp hr with rfl | hr
          · exact hnames
          · exact ih sound_fresh hdiffer r hr
        · simp only [hdone] at hdiffer hr
          exact ih (hsound' (Bool.eq_false_iff.mpr hdone)) hdiffer r hr

end HttpParser

end SolarDrive.Http
