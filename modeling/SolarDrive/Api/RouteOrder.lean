import SolarDrive.Api.Routes
import SolarDrive.Http.RouterSegments
import Mathlib.Data.List.Find
import Mathlib.Data.List.Perm.Basic

/-!
# The order of the routes

`dispatch` takes the first route that matches, so the order of the `add_route`
calls could matter. It does not here: two of the registered patterns of one
method have different lengths, or literals that differ in one place, and no
path is taken by both.
-/

namespace SolarDrive.Http

open Lib

/-! ## Reading a pattern -/

/-- A part of a pattern text; a parameter stands in braces. -/
def Segment.ofText : Bytes → Segment
  | [] => .literal []
  | c :: cs =>
      if c = LBRACE ∧ cs.getLast? = some RBRACE then .param cs.dropLast else .literal (c :: cs)

def segmentsOf (text : Bytes) : List Segment := (text.splitOn SLASH).map Segment.ofText

/-- A pattern text that its segments stand for. -/
def ReadablePattern (text : Bytes) : Prop :=
  (∀ s ∈ segmentsOf text, s.WellFormed) ∧
    ((segmentsOf text).flatMap Segment.names).Nodup ∧
    [SLASH].intercalate ((segmentsOf text).map Segment.text) = text

instance (text : Bytes) : Decidable (ReadablePattern text) :=
  inferInstanceAs (Decidable (_ ∧ _ ∧ _))

def RoutePattern.ofText (text : Bytes) (h : ReadablePattern text) : RoutePattern where
  segments := segmentsOf text
  nonempty := by
    unfold segmentsOf
    exact fun e => List.splitOn_ne_nil SLASH text (List.map_eq_nil_iff.mp e)
  wellFormed := h.1
  distinct := h.2.1

theorem RoutePattern.text_ofText {text : Bytes} (h : ReadablePattern text) :
    (RoutePattern.ofText text h).text = text := h.2.2

/-! ## Patterns that share no path -/

/-- No part is accepted by both. -/
def Segment.Apart : Segment → Segment → Prop
  | .literal t, .literal u => t ≠ u
  | .literal t, .param _ => t = []
  | .param _, .literal u => u = []
  | .param _, .param _ => False

instance : ∀ s s' : Segment, Decidable (s.Apart s')
  | .literal t, .literal u => inferInstanceAs (Decidable (t ≠ u))
  | .literal t, .param _ => inferInstanceAs (Decidable (t = []))
  | .param _, .literal u => inferInstanceAs (Decidable (u = []))
  | .param _, .param _ => inferInstanceAs (Decidable False)

/-- Different lengths, or segments that are apart in one place. -/
def SegmentsApart : List Segment → List Segment → Prop
  | [], [] => False
  | s :: ss, s' :: ss' => s.Apart s' ∨ SegmentsApart ss ss'
  | _, _ => True

instance decidableSegmentsApart : ∀ ss ss' : List Segment, Decidable (SegmentsApart ss ss')
  | [], [] => inferInstanceAs (Decidable False)
  | [], _ :: _ => inferInstanceAs (Decidable True)
  | _ :: _, [] => inferInstanceAs (Decidable True)
  | s :: ss, s' :: ss' =>
      have := decidableSegmentsApart ss ss'
      inferInstanceAs (Decidable (s.Apart s' ∨ SegmentsApart ss ss'))

theorem Segment.Apart.not_accepts {s s' : Segment} (h : s.Apart s') {part : Bytes}
    (hs : s.Accepts part) : ¬s'.Accepts part := by
  cases s with
  | literal t =>
      cases s' with
      | literal u => exact fun hs' => h (hs.symm.trans hs')
      | param name => exact fun hs' => hs' (hs.trans h)
  | param name =>
      cases s' with
      | literal u => exact fun hs' => hs (hs'.trans h)
      | param name' => exact h.elim

theorem SegmentsApart.not_accepts : ∀ {ss ss' : List Segment} {parts : List Bytes},
    SegmentsApart ss ss' → List.Forall₂ Segment.Accepts ss parts →
    ¬List.Forall₂ Segment.Accepts ss' parts
  | [], [], _, h, _ => h.elim
  | [], _ :: _, [], _, _ => by rintro ⟨⟩
  | _ :: _, [], _ :: _, _, _ => by rintro ⟨⟩
  | s :: ss, s' :: ss', part :: parts, h, hall => by
      intro hall'
      obtain ⟨hs, hss⟩ := List.forall₂_cons.mp hall
      obtain ⟨hs', hss'⟩ := List.forall₂_cons.mp hall'
      rcases h with h | h
      · exact h.not_accepts hs hs'
      · exact SegmentsApart.not_accepts h hss hss'

/-! ## Registering a table -/

section Tables

variable {η : Type}

/-- `add_route` for each entry of a table of methods, patterns and handlers. -/
def registerTable (table : List (HttpMethod × Bytes × η)) : Option (HttpRouter η) :=
  table.foldlM (fun router r => router.addRoute r.1 r.2.1 r.2.2) []

def ReadableEntry (e : HttpMethod × Bytes × η) : Prop := ReadablePattern e.2.1

/-- The route of an entry. -/
def PatternRoute.ofEntry (e : HttpMethod × Bytes × η) (h : ReadableEntry e) : PatternRoute η where
  method := e.1
  pattern := .ofText e.2.1 h
  handler := e.2.2

/-- Two entries no request is taken by both of. -/
def EntriesApart (e e' : HttpMethod × Bytes × η) : Prop :=
  e.1 ≠ e'.1 ∨ SegmentsApart (segmentsOf e.2.1) (segmentsOf e'.2.1)

instance (e e' : HttpMethod × Bytes × η) : Decidable (EntriesApart e e') :=
  inferInstanceAs (Decidable (_ ∨ _))

/-- The entry's method is the request's and its segments accept the path, as
far as the path goes before a NUL. -/
def Takes (e : HttpMethod × Bytes × η) (req : HttpRequest) : Prop :=
  e.1 = req.method ∧
    List.Forall₂ Segment.Accepts (segmentsOf e.2.1) ((cstr req.path).splitOn SLASH)

instance (e : HttpMethod × Bytes × η) (req : HttpRequest) : Decidable (Takes e req) :=
  inferInstanceAs (Decidable (_ ∧ _))

theorem registerTable_eq {table : List (HttpMethod × Bytes × η)}
    (h : ∀ e ∈ table, ReadableEntry e) :
    registerTable table = some ((table.pmap PatternRoute.ofEntry h).map PatternRoute.compiled) := by
  rw [← registerAll_eq]
  unfold registerTable registerAll
  generalize ([] : HttpRouter η) = router
  induction table generalizing router with
  | nil => rfl
  | cons e es ih =>
      rw [List.foldlM_cons, List.pmap_cons, List.foldlM_cons]
      have he : ReadableEntry e := h e List.mem_cons_self
      have htext : (PatternRoute.ofEntry e he).pattern.text = e.2.1 := RoutePattern.text_ofText he
      rw [htext]
      exact bind_congr fun router' => ih (fun e' he' => h e' (List.mem_cons_of_mem e he')) router'

/-! ## Dispatch over a table -/

/-- Each parameter of the entry with the part it stands at. -/
def boundParams (e : HttpMethod × Bytes × η) (req : HttpRequest) : List (Bytes × Bytes) :=
  (List.zipWith Segment.bind (segmentsOf e.2.1) ((cstr req.path).splitOn SLASH)).flatten

theorem findRoute_cstr (method : HttpMethod) (path : Bytes) : ∀ router : HttpRouter η,
    router.findRoute method (cstr path) = router.findRoute method path
  | [] => rfl
  | r :: rs => by
      rw [HttpRouter.findRoute, HttpRouter.findRoute, cstr_cstr, findRoute_cstr method path rs]

theorem find?_pmap_ofEntry (req : HttpRequest) : ∀ {table : List (HttpMethod × Bytes × η)}
    (h : ∀ e ∈ table, ReadableEntry e),
    ((table.pmap PatternRoute.ofEntry h).find? fun r =>
        r.method = req.method ∧ r.pattern.Matches (cstr req.path)).map
      (fun r => (r.handler, r.pattern.values (cstr req.path))) =
    (table.find? fun e => Takes e req).map fun e => (e.2.2, boundParams e req)
  | [], _ => rfl
  | e :: es, h => by
      have ih := find?_pmap_ofEntry req fun e' he' => h e' (List.mem_cons_of_mem e he')
      have he : ReadableEntry e := h e List.mem_cons_self
      have hsame : decide ((PatternRoute.ofEntry e he).method = req.method ∧
          (PatternRoute.ofEntry e he).pattern.Matches (cstr req.path)) = decide (Takes e req) := rfl
      rw [List.pmap_cons, List.find?_cons, List.find?_cons, hsame]
      cases decide (Takes e req) with
      | true => rfl
      | false => exact ih

/-- No two parameters of one name: each is bound to its own part. -/
theorem setPathParams_boundParams {e : HttpMethod × Bytes × η} (he : ReadableEntry e)
    {req : HttpRequest} (htakes : Takes e req) :
    HttpRouter.setPathParams req (boundParams e req) =
      { req with pathParams := boundParams e req } := by
  have hnames : (boundParams e req).map Prod.fst = (segmentsOf e.2.1).flatMap Segment.names :=
    map_fst_values (.ofText e.2.1 he) htakes.2
  refine setPathParams_eq ?_ req
  rw [hnames]
  exact he.2.1

/-- The first entry that takes the request. -/
theorem dispatch_table {table : List (HttpMethod × Bytes × η)}
    (h : ∀ e ∈ table, ReadableEntry e) {router : HttpRouter η}
    (hrouter : registerTable table = some router) (req : HttpRequest) :
    router.dispatch req = (table.find? fun e => Takes e req).map fun e =>
      (e.2.2, { req with pathParams := boundParams e req }) := by
  have hcompiled : router = (table.pmap PatternRoute.ofEntry h).map PatternRoute.compiled :=
    Option.some.inj (hrouter.symm.trans (registerTable_eq h))
  unfold HttpRouter.dispatch
  rw [hcompiled, ← findRoute_cstr, findRoute_compiled (not_mem_cstr req.path),
    find?_pmap_ofEntry req h]
  cases hfind : table.find? fun e => Takes e req with
  | none => rfl
  | some e =>
      have htakes : Takes e req := by simpa using List.find?_some hfind
      have he : ReadableEntry e := h e (List.mem_of_find?_eq_some hfind)
      simp only [Option.map_some, setPathParams_boundParams he htakes]

/-! ## Tables without overlap -/

theorem EntriesApart.not_takes {e e' : HttpMethod × Bytes × η} (h : EntriesApart e e')
    {req : HttpRequest} (he : Takes e req) : ¬Takes e' req := by
  intro he'
  rcases h with h | h
  · exact h (he.1.trans he'.1.symm)
  · exact h.not_accepts he.2 he'.2

/-- At most one entry takes a request. -/
theorem takes_unique {table : List (HttpMethod × Bytes × η)} (h : table.Pairwise EntriesApart)
    {req : HttpRequest} : ∀ {e e' : HttpMethod × Bytes × η}, e ∈ table → e' ∈ table →
    Takes e req → Takes e' req → e = e' := by
  induction h with
  | nil => exact fun he => absurd he List.not_mem_nil
  | @cons x xs hx _ ih =>
      intro e e' he he' htakes htakes'
      rcases List.mem_cons.mp he with rfl | hxs
      · rcases List.mem_cons.mp he' with rfl | hxs'
        · rfl
        · exact ((hx e' hxs').not_takes htakes htakes').elim
      · rcases List.mem_cons.mp he' with rfl | hxs'
        · exact ((hx e hxs).not_takes htakes' htakes).elim
        · exact ih hxs hxs' htakes htakes'

/-- Without overlap the entry that takes the request is the one found, wherever
it stands. -/
theorem find?_of_takes {table : List (HttpMethod × Bytes × η)} (h : table.Pairwise EntriesApart)
    {req : HttpRequest} {e : HttpMethod × Bytes × η} (he : e ∈ table) (htakes : Takes e req) :
    (table.find? fun e => Takes e req) = some e := by
  cases hfind : table.find? fun e => Takes e req with
  | none => exact (List.find?_eq_none.mp hfind e he (decide_eq_true htakes)).elim
  | some e' =>
      have htakes' : Takes e' req := by simpa using List.find?_some hfind
      rw [takes_unique h (List.mem_of_find?_eq_some hfind) he htakes' htakes]

theorem find?_of_perm {table table' : List (HttpMethod × Bytes × η)}
    (h : table.Pairwise EntriesApart) (hperm : table'.Perm table) (req : HttpRequest) :
    (table'.find? fun e => Takes e req) = table.find? fun e => Takes e req := by
  refine List.find?_eq_find?_of_perm hperm ?_
  rintro e ⟨he, htakes⟩ e' ⟨he', htakes'⟩
  exact takes_unique h (hperm.subset he) (hperm.subset he') (of_decide_eq_true htakes)
    (of_decide_eq_true htakes')

end Tables

end SolarDrive.Http

namespace SolarDrive.Api

open Lib Http

theorem routeTable_readable : ∀ e ∈ routeTable, ReadableEntry e := by
  show ∀ e ∈ routeTable, ReadablePattern e.2.1
  unfold routeTable
  repeat rw [ascii_ofList]
  decide +kernel

/-- Two routes of one method never take one path. -/
theorem routeTable_apart : routeTable.Pairwise EntriesApart := by
  unfold routeTable
  repeat rw [ascii_ofList]
  decide +kernel

/-- **The order of registration is free:** whatever the order of the
`add_route` calls, a request gets the handler of the one route that takes it,
with each parameter bound to its part, and without one there is no handler. -/
theorem dispatch_any_order {table : List (HttpMethod × Bytes × RouteName)}
    (hperm : table.Perm routeTable) :
    ∃ router, registerTable table = some router ∧ ∀ req : HttpRequest,
      router.dispatch req = apiRouter.dispatch req ∧
      (∀ e ∈ routeTable, Takes e req →
        router.dispatch req = some (e.2.2, { req with pathParams := boundParams e req })) ∧
      (router.dispatch req = none ↔ ∀ e ∈ routeTable, ¬Takes e req) := by
  have htable : ∀ e ∈ table, ReadableEntry e :=
    fun e he => routeTable_readable e (hperm.subset he)
  have hrouter := registerTable_eq htable
  have happi : registerTable routeTable = some apiRouter := registerApiRoutes_eq
  refine ⟨_, hrouter, fun req => ?_⟩
  have hdispatch := dispatch_table htable hrouter req
  rw [find?_of_perm routeTable_apart hperm] at hdispatch
  refine ⟨?_, fun e he htakes => ?_, ?_⟩
  · rw [hdispatch, dispatch_table routeTable_readable happi]
  · rw [hdispatch, find?_of_takes routeTable_apart he htakes]
    rfl
  · rw [hdispatch, Option.map_eq_none_iff, List.find?_eq_none]
    simp only [decide_eq_true_eq]

theorem dispatch_reversed :
    ∃ router, registerTable routeTable.reverse = some router ∧ ∀ req : HttpRequest,
      router.dispatch req = apiRouter.dispatch req ∧
      (∀ e ∈ routeTable, Takes e req →
        router.dispatch req = some (e.2.2, { req with pathParams := boundParams e req })) ∧
      (router.dispatch req = none ↔ ∀ e ∈ routeTable, ¬Takes e req) :=
  dispatch_any_order (List.reverse_perm routeTable)

end SolarDrive.Api
