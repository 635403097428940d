import SolarDrive.Http.HeaderValues
import SolarDrive.Server.Upgrade

/-!
# Keep-alive and the version on the wire

The parser reads the version of a request line and then sets `HTTP/1.1`, whatever it
read, and `wants_keep_alive` decides by the version of the request when `Connection`
does not say. A request of HTTP/1.0 therefore comes out as one of HTTP/1.1, and is kept alive.
-/

namespace SolarDrive.Http

open Lib

namespace HttpRequest

/-- The values of the headers of a name, ignoring case. -/
def valuesIc (headers : List (Bytes × Bytes)) (key : Bytes) : List Bytes :=
  (headers.filter fun h => h.1.map toLower == key.map toLower).map Prod.snd

def saysClose (value : Bytes) : Bool := headerContainsToken value (ascii "close")

end HttpRequest

namespace RequestText

/-- The values of the `Connection` lines of a text. -/
def connections (m : RequestText) : List Bytes :=
  HttpRequest.valuesIc m.pairs (ascii "Connection")

/-- What keep-alive should be for a text: what its `Connection` lines say, or else its version. -/
def keepAlive (m : RequestText) : Bool :=
  if m.connections.any HttpRequest.saysClose then false
  else if m.connections.any fun v => HttpRequest.headerContainsToken v (ascii "keep-alive") then true
  else decide (m.version = .http11)

/-- There is no `Content-Length` without a value. -/
def LengthGiven (m : RequestText) : Prop :=
  m.requested.headers.lookup (ascii "Content-Length") ≠ some []

/-- If a `Connection` line says `close`, then the last line of every spelling of the name does. -/
def OneVoice (m : RequestText) : Prop :=
  ∀ v ∈ m.connections, HttpRequest.saysClose v = true →
    ∀ w ∈ HttpRequest.valuesIc m.requested.headers (ascii "Connection"),
      HttpRequest.saysClose w = true

end RequestText

/-! ## From the headers of the text to those that are stored -/

/-- What is stored for a value. -/
def storedValue (v : Bytes) : Bytes := if v = [] then [CR] else v

section Stored

variable {hs : List (Bytes × Bytes)} {key : Bytes}

theorem setKey_stored (k v : Bytes) : ∀ hs : List (Bytes × Bytes),
    setKey k (storedValue v) (hs.map fun h => (h.1, storedValue h.2)) =
      (setKey k v hs).map fun h => (h.1, storedValue h.2)
  | [] => rfl
  | (k', v') :: hs => by
      rw [List.map_cons, setKey, setKey]
      by_cases hk : k' = k
      · rw [if_pos hk, if_pos hk]
        rfl
      · rw [if_neg hk, if_neg hk, setKey_stored k v hs]
        rfl

theorem headerMap_stored (hs : List (Bytes × Bytes)) :
    headerMap (hs.map fun h => (h.1, storedValue h.2)) =
      (headerMap hs).map fun h => (h.1, storedValue h.2) := by
  unfold headerMap
  rw [List.foldl_map]
  have hfold : ∀ (hs m : List (Bytes × Bytes)),
      hs.foldl (fun m h => setKey h.1 (storedValue h.2) m)
        (m.map fun h => (h.1, storedValue h.2)) =
      (hs.foldl (fun m h => setKey h.1 h.2 m) m).map fun h => (h.1, storedValue h.2) := by
    intro hs
    induction hs with
    | nil => exact fun m => rfl
    | cons h hs ih =>
        intro m
        rw [List.foldl_cons, List.foldl_cons, setKey_stored, ih]
  exact hfold hs []

theorem lookup_stored : (hs.map fun h => (h.1, storedValue h.2)).lookup key =
    (hs.lookup key).map storedValue := by
  induction hs with
  | nil => rfl
  | cons h hs ih =>
      rw [List.map_cons, List.lookup_cons, List.lookup_cons, ih]
      cases key == h.1 <;> rfl

theorem valuesIc_stored : HttpRequest.valuesIc (hs.map fun h => (h.1, storedValue h.2)) key =
    (HttpRequest.valuesIc hs key).map storedValue := by
  unfold HttpRequest.valuesIc
  rw [List.filter_map, List.map_map, List.map_map]
  rfl

theorem mem_setKey {k v : Bytes} {h : Bytes × Bytes} : ∀ {hs : List (Bytes × Bytes)},
    h ∈ setKey k v hs → h = (k, v) ∨ h ∈ hs
  | [], hmem => .inl (List.mem_singleton.mp hmem)
  | (k', v') :: hs, hmem => by
      rw [setKey] at hmem
      split at hmem
      · exact (List.mem_cons.mp hmem).imp_right (List.mem_cons_of_mem _)
      · rcases List.mem_cons.mp hmem with hmem | hmem
        · exact .inr (hmem ▸ List.mem_cons_self)
        · exact (mem_setKey hmem).imp_right (List.mem_cons_of_mem _)

/-- The header map has the names that were added, each with a value it was added with. -/
theorem headerMap_names (hs : List (Bytes × Bytes)) : headerMap hs ⊆ hs ∧
    hs.map Prod.fst ⊆ (headerMap hs).map Prod.fst := by
  induction hs using List.reverseRecOn with
  | nil => exact ⟨List.Subset.refl _, List.Subset.refl _⟩
  | append_singleton hs last ih =>
      have hlast : headerMap (hs ++ [last]) = setKey last.1 last.2 (headerMap hs) := by
        unfold headerMap
        rw [List.foldl_append, List.foldl_cons, List.foldl_nil]
      rw [hlast]
      constructor
      · intro h hmem
        rcases mem_setKey hmem with hmem | hmem
        · exact List.mem_append_right _ (List.mem_singleton.mpr hmem)
        · exact List.mem_append_left _ (ih.1 hmem)
      · intro name hmem
        rw [List.map_append, List.mem_append, List.map_singleton, List.mem_singleton] at hmem
        exact mem_keys_setKey.mpr (hmem.symm.imp_right fun hmem => ih.2 hmem)

end Stored

/-- A carriage return does not say `close`. -/
theorem saysClose_storedValue (v : Bytes) :
    HttpRequest.saysClose (storedValue v) = HttpRequest.saysClose v := by
  unfold storedValue
  split
  · rename_i hempty
    rw [hempty]
    decide
  · rfl

/-! ## `Connection` in the map, in whatever order it is walked -/

namespace HttpRequest

theorem mem_valuesIc {headers : List (Bytes × Bytes)} {key v : Bytes} :
    v ∈ valuesIc headers key ↔
      ∃ name, (name, v) ∈ headers ∧ (name.map toLower == key.map toLower) = true := by
  unfold valuesIc
  rw [List.mem_map]
  constructor
  · rintro ⟨h, hmem, rfl⟩
    exact ⟨h.1, List.mem_filter.mp hmem⟩
  · rintro ⟨name, hmem⟩
    exact ⟨(name, v), List.mem_filter.mpr hmem, rfl⟩

theorem valuesIc_perm {headers headers' : List (Bytes × Bytes)} (h : headers.Perm headers')
    (key : Bytes) : (valuesIc headers key).Perm (valuesIc headers' key) :=
  (h.filter _).map _

theorem getHeaderIc_eq (r : HttpRequest) (key : Bytes) :
    r.getHeaderIc key = (valuesIc r.headers key).head?.getD [] := by
  unfold getHeaderIc valuesIc
  rw [List.head?_map, List.head?_filter]

/-- Any value of a name can be the one that is met first. -/
theorem exists_order {headers : List (Bytes × Bytes)} {key v : Bytes}
    (hmem : v ∈ valuesIc headers key) :
    ∃ walked : List (Bytes × Bytes), walked.Perm headers ∧ (valuesIc walked key).head? = some v := by
  obtain ⟨name, hmem, hname⟩ := mem_valuesIc.mp hmem
  refine ⟨(name, v) :: headers.erase (name, v), (List.perm_cons_erase hmem).symm, ?_⟩
  unfold valuesIc
  rw [List.filter_cons, if_pos hname]
  rfl

/-- Without the text `1.0` in the version, only `close` ends the connection. -/
theorem wantsKeepAlive_eq (r : HttpRequest)
    (hversion : containsText (r.version.map toLower) (ascii "1.0") = false) :
    r.wantsKeepAlive = !saysClose (r.getHeaderIc (ascii "Connection")) := by
  unfold wantsKeepAlive saysClose
  dsimp only
  rw [hversion]
  cases headerContainsToken (r.getHeaderIc (ascii "Connection")) (ascii "close") with
  | true => rfl
  | false => exact ite_self true

end HttpRequest

namespace RequestText

variable {m : RequestText}

theorem connection_of_stored {v : Bytes}
    (hmem : v ∈ HttpRequest.valuesIc m.requested.headers (ascii "Connection")) :
    v ∈ m.connections := by
  obtain ⟨name, hmem, hname⟩ := HttpRequest.mem_valuesIc.mp hmem
  exact HttpRequest.mem_valuesIc.mpr ⟨name, (headerMap_names m.pairs).1 hmem, hname⟩

/-- Where a line is named `Connection`, the map has a header of that name. -/
theorem stored_of_connection {v : Bytes} (hmem : v ∈ m.connections) :
    ∃ w, w ∈ HttpRequest.valuesIc m.requested.headers (ascii "Connection") := by
  obtain ⟨name, hmem, hname⟩ := HttpRequest.mem_valuesIc.mp hmem
  obtain ⟨h, hstored, hkey⟩ := List.mem_map.mp
    ((headerMap_names m.pairs).2 (List.mem_map_of_mem hmem))
  exact ⟨h.2, HttpRequest.mem_valuesIc.mpr ⟨h.1, hstored, hkey ▸ hname⟩⟩

theorem keepAlive_http11 (hversion : m.version = .http11) :
    m.keepAlive = !m.connections.any HttpRequest.saysClose := by
  unfold keepAlive
  rw [decide_eq_true hversion]
  cases m.connections.any HttpRequest.saysClose with
  | true => rfl
  | false => exact ite_self true

end RequestText

namespace HttpParser

theorem storedPairs_eq (m : RequestText) :
    storedPairs m = m.pairs.map fun h => (h.1, storedValue h.2) := by
  unfold storedPairs RequestText.pairs
  rw [List.map_map]
  rfl

/-- The request that is handed over, if it is. -/
def handedOver (m : RequestText) : HttpRequest :=
  { m.requested with
    version := ascii "HTTP/1.1"
    headers := m.requested.headers.map fun h => (h.1, storedValue h.2) }

/-- The length of the body is found, unless its header has no value. -/
theorem bodyLength_handedOver (m : RequestText) : (m.LengthGiven →
      (handedOver m).bodyLength = .ok m.body.length) ∧
    (¬ m.LengthGiven → ∃ e, (handedOver m).bodyLength = .error e) := by
  have hframed : (if (m.requested.headers.lookup (ascii "Content-Length")).getD [] = [] then .ok 0
      else stoull ((m.requested.headers.lookup (ascii "Content-Length")).getD [])) =
      .ok m.body.length := m.framed
  have hheader : (handedOver m).getHeader (ascii "Content-Length") =
      ((m.requested.headers.lookup (ascii "Content-Length")).map storedValue).getD [] :=
    congrArg (fun v => Option.getD v []) lookup_stored
  unfold HttpRequest.bodyLength RequestText.LengthGiven
  rw [hheader]
  cases hlookup : m.requested.headers.lookup (ascii "Content-Length") with
  | none =>
      rw [hlookup] at hframed
      exact ⟨fun _ => hframed, fun h => absurd (fun hsome => by cases hsome) h⟩
  | some v =>
      rw [hlookup] at hframed
      by_cases hv : v = []
      · subst hv
        exact ⟨fun h => absurd rfl h, fun _ => ⟨.invalidArgument, by decide⟩⟩
      · have hsame : storedValue v = v := if_neg hv
        rw [Option.map_some, hsame]
        refine ⟨fun _ => hframed, fun h => absurd ?_ h⟩
        intro hsome
        exact hv (Option.some.inj hsome)

theorem feed_handedOver (m : RequestText) :
    (m.LengthGiven → fresh.feed m.wire = .ok (fresh, [handedOver m])) ∧
    (¬ m.LengthGiven → ∃ e, fresh.feed m.wire = .error e) := by
  obtain ⟨p, hmoves, hst, hinc, hreq⟩ := moves_head m
  rw [storedPairs_eq, headerMap_stored] at hreq
  have hlength : p.curReq.bodyLength = (handedOver m).bodyLength := by
    rw [hreq]
    rfl
  obtain ⟨hgiven, hnone⟩ := bodyLength_handedOver m
  unfold RequestText.wire
  rw [feed_silent hmoves.feed_eq]
  constructor
  · intro h
    rw [feed_blankLine hst hinc (by rw [hreq]) (hlength.trans (hgiven h)), hreq]
    rfl
  · intro h
    obtain ⟨e, he⟩ := hnone h
    exact ⟨e, feed_end_error hst hinc (hlength.trans he)⟩

/-- Keep-alive of what is handed over, by the first `Connection` of the order in which its
headers are walked. -/
theorem wantsKeepAlive_handedOver (m : RequestText) (walked : List (Bytes × Bytes)) :
    ({ handedOver m with headers := walked } : HttpRequest).wantsKeepAlive =
      !HttpRequest.saysClose ((HttpRequest.valuesIc walked (ascii "Connection")).head?.getD []) := by
  have hversion : HttpRequest.containsText ((ascii "HTTP/1.1").map toLower) (ascii "1.0") =
      false := by decide
  rw [HttpRequest.wantsKeepAlive_eq _ hversion, HttpRequest.getHeaderIc_eq]

theorem valuesIc_handedOver (m : RequestText) : HttpRequest.valuesIc (handedOver m).headers
    (ascii "Connection") =
      (HttpRequest.valuesIc m.requested.headers (ascii "Connection")).map storedValue :=
  valuesIc_stored

/-- In every order of the map the first `Connection` says what the lines say together, exactly
if they have one voice. -/
theorem keepAlive_handedOver_iff (m : RequestText) (hversion : m.version = .http11) :
    (∀ walked : List (Bytes × Bytes), walked.Perm (handedOver m).headers →
      ({ handedOver m with headers := walked } : HttpRequest).wantsKeepAlive = m.keepAlive) ↔
      m.OneVoice := by
  rw [RequestText.keepAlive_http11 hversion]
  constructor
  · intro h v hv hclose w hw
    have hstored : storedValue w ∈
        HttpRequest.valuesIc (handedOver m).headers (ascii "Connection") := by
      rw [valuesIc_handedOver]
      exact List.mem_map_of_mem hw
    obtain ⟨walked, hperm, hfirst⟩ := HttpRequest.exists_order hstored
    have hkept := h walked hperm
    have hany : m.connections.any HttpRequest.saysClose = true :=
      List.any_eq_true.mpr ⟨v, hv, hclose⟩
    rw [wantsKeepAlive_handedOver, hfirst, hany, Option.getD_some, saysClose_storedValue] at hkept
    exact Bool.not_inj hkept
  · intro h walked hperm
    rw [wantsKeepAlive_handedOver]
    have hsame := (HttpRequest.valuesIc_perm hperm (ascii "Connection")).trans
      (.of_eq (valuesIc_handedOver m))
    cases hfirst : (HttpRequest.valuesIc walked (ascii "Connection")).head? with
    | none =>
        rw [List.head?_eq_none_iff.mp hfirst] at hsame
        have hnone : m.connections.any HttpRequest.saysClose = false := by
          rw [List.any_eq_false]
          intro v hv
          obtain ⟨w, hw⟩ := RequestText.stored_of_connection hv
          rw [List.map_eq_nil_iff.mp hsame.nil_eq.symm] at hw
          cases hw
        rw [hnone]
        decide
    | some first =>
        obtain ⟨w, hw, rfl⟩ := List.mem_map.mp (hsame.mem_iff.mp (List.mem_of_head? hfirst))
        rw [Option.getD_some, saysClose_storedValue]
        congr 1
        cases hany : m.connections.any HttpRequest.saysClose with
        | true =>
            obtain ⟨v, hv, hclose⟩ := List.any_eq_true.mp hany
            exact h v hv hclose w hw
        | false =>
            rw [List.any_eq_false] at hany
            exact Bool.eq_false_iff.mpr (hany w (RequestText.connection_of_stored hw))

end HttpParser

/-- What the parser and the policy together owe to a text, in whatever order the map of the
headers is walked. -/
structure KeptByVersion (m : RequestText) (r : HttpRequest) : Prop where
  version : r.version = m.version.text
  keepAlive : ∀ walked : List (Bytes × Bytes), walked.Perm r.headers →
    ({ r with headers := walked } : HttpRequest).wantsKeepAlive = m.keepAlive

/-- **Keep-alive follows the version exactly for the texts of HTTP/1.1** whose `Connection`
lines have one voice, of those whose `Content-Length` can be read at all. -/
theorem kept_by_version_iff (m : RequestText) :
    (∃ r, HttpParser.fresh.feed m.wire = .ok (HttpParser.fresh, [r]) ∧ KeptByVersion m r) ↔
      m.version = .http11 ∧ m.LengthGiven ∧ m.OneVoice := by
  obtain ⟨hgiven, hnone⟩ := HttpParser.feed_handedOver m
  constructor
  · rintro ⟨r, hfeed, hkept⟩
    have hlength : m.LengthGiven := by
      by_contra h
      obtain ⟨e, he⟩ := hnone h
      rw [hfeed] at he
      cases he
    rw [hgiven hlength, Except.ok.injEq, Prod.mk.injEq, List.cons.injEq] at hfeed
    obtain ⟨-, rfl, -⟩ := hfeed
    have hversion : m.version = .http11 := by
      cases hv : m.version with
      | http11 => rfl
      | http10 =>
          have htext := hkept.version
          rw [hv] at htext
          have hdiffer : ascii "HTTP/1.1" ≠ ascii "HTTP/1.0" := by decide
          exact absurd htext hdiffer
    exact ⟨hversion, hlength, (HttpParser.keepAlive_handedOver_iff m hversion).mp hkept.keepAlive⟩
  · rintro ⟨hversion, hlength, hvoice⟩
    refine ⟨_, hgiven hlength, ?_, (HttpParser.keepAlive_handedOver_iff m hversion).mpr hvoice⟩
    rw [hversion]
    rfl

/-- A request of HTTP/1.0 without headers. -/
def plainHttp10 : RequestText where
  method := .GET
  path := ascii "/"
  query := none
  version := .http10
  headers := []
  body := []
  method_known := get_known
  path_slash := slash_slash
  path_clean := slash_clean
  query_clean := noQuery_clean
  framed := by decide

/-- It comes out with another version, and its connection is kept. -/
theorem plainHttp10_kept : ¬ ∀ m : RequestText, m.LengthGiven →
    ∃ r, HttpParser.fresh.feed m.wire = .ok (HttpParser.fresh, [r]) ∧ KeptByVersion m r := by
  intro h
  obtain ⟨r, hfeed, hkept⟩ := h plainHttp10 (by unfold RequestText.LengthGiven; decide)
  have hr : HttpParser.fresh.feed plainHttp10.wire = .ok (HttpParser.fresh,
      [{ method := .GET, path := ascii "/", version := ascii "HTTP/1.1" }]) := by decide +kernel
  rw [hr, Except.ok.injEq, Prod.mk.injEq, List.cons.injEq] at hfeed
  have hpolicy := hkept.keepAlive _ (.refl _)
  rw [← hfeed.2.1] at hpolicy
  exact absurd hpolicy (by decide)

end SolarDrive.Http
