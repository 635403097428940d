import SolarDrive.Http.Response
import SolarDrive.Http.Router
import SolarDrive.Lib.JsonText
import SolarDrive.Lib.LexicalPath

/-!
# Routing by segments

What the compiled expressions mean. A pattern is a list of segments, each a
literal text or a parameter; a path is accepted part by part. The compiler loop
and the matcher are followed segment by segment, and `dispatch` comes out as the
first route of the right method whose segments accept the parts of the path.
-/

namespace SolarDrive.Http

open Lib

inductive Segment where
  | literal (text : Bytes)
  | param (name : Bytes)
deriving DecidableEq, Repr

namespace Segment

/-- The segment as it stands in the pattern. -/
def text : Segment → Bytes
  | .literal t => t
  | .param name => LBRACE :: name ++ [RBRACE]

def WellFormed : Segment → Prop
  | .literal t => NUL ∉ t ∧ SLASH ∉ t ∧ LBRACE ∉ t ∧ RBRACE ∉ t
  | .param name => SLASH ∉ name ∧ RBRACE ∉ name

instance : ∀ s : Segment, Decidable s.WellFormed
  | .literal t => inferInstanceAs (Decidable (NUL ∉ t ∧ SLASH ∉ t ∧ LBRACE ∉ t ∧ RBRACE ∉ t))
  | .param name => inferInstanceAs (Decidable (SLASH ∉ name ∧ RBRACE ∉ name))

def names : Segment → List Bytes
  | .literal _ => []
  | .param name => [name]

/-- A literal is equal to the part of the path, a parameter takes any part that
is not empty. -/
def Accepts : Segment → Bytes → Prop
  | .literal t, part => part = t
  | .param _, part => part ≠ []

instance : ∀ (s : Segment) (part : Bytes), Decidable (s.Accepts part)
  | .literal t, part => inferInstanceAs (Decidable (part = t))
  | .param _, part => inferInstanceAs (Decidable (part ≠ []))

/-- What the segment binds when it takes a part. -/
def bind : Segment → Bytes → List (Bytes × Bytes)
  | .literal _, _ => []
  | .param name, part => [(name, part)]

/-- The text of the segment's expression. -/
def regexText : Segment → Bytes
  | .literal t => t.flatMap fun c => if regexSpecial.contains c then [BACKSLASH, c] else [c]
  | .param _ => ascii "([^/]+)"

def atoms : Segment → List RegexAtom
  | .literal t => t.map .lit
  | .param _ => [.segment]

end Segment

/-- A pattern: at least one segment, and no two parameters of one name. -/
structure RoutePattern where
  segments : List Segment
  nonempty : segments ≠ []
  wellFormed : ∀ s ∈ segments, s.WellFormed
  distinct : (segments.flatMap Segment.names).Nodup

namespace RoutePattern

def text (p : RoutePattern) : Bytes := [SLASH].intercalate (p.segments.map Segment.text)

/-- As many parts as segments, each accepted by its own. -/
def Matches (p : RoutePattern) (path : Bytes) : Prop :=
  List.Forall₂ Segment.Accepts p.segments (path.splitOn SLASH)

instance (p : RoutePattern) (path : Bytes) : Decidable (p.Matches path) :=
  inferInstanceAs (Decidable (List.Forall₂ Segment.Accepts p.segments (path.splitOn SLASH)))

/-- Each parameter with the part it stands at. -/
def values (p : RoutePattern) (path : Bytes) : List (Bytes × Bytes) :=
  (List.zipWith Segment.bind p.segments (path.splitOn SLASH)).flatten

end RoutePattern

/-! ## The compiler loop -/

theorem patternToRegexFrom_literal {t : Bytes} (ht : LBRACE ∉ t) (rest : Bytes) (n : Nat) :
    patternToRegexFrom (t.length + n) (t ++ rest) =
      ((Segment.literal t).regexText ++ (patternToRegexFrom n rest).1,
        (patternToRegexFrom n rest).2) := by
  induction t with
  | nil =>
      rw [List.length_nil, Nat.zero_add]
      rfl
  | cons c cs ih =>
      have hc : c ≠ LBRACE := fun e => ht (e ▸ List.mem_cons_self)
      have hcs : LBRACE ∉ cs := fun hm => ht (List.mem_cons_of_mem c hm)
      rw [List.length_cons, Nat.add_right_comm, List.cons_append, patternToRegexFrom, if_neg hc,
        ih hcs]
      by_cases hspecial : c ∈ regexSpecial
      · simp [Segment.regexText, hspecial]
      · simp [Segment.regexText, hspecial]

theorem patternToRegexFrom_param {name : Bytes} (hname : RBRACE ∉ name) (rest : Bytes) (n : Nat) :
    patternToRegexFrom (n + 1) ((Segment.param name).text ++ rest) =
      ((Segment.param name).regexText ++ (patternToRegexFrom n rest).1,
        name :: (patternToRegexFrom n rest).2) := by
  have hcut : cutAt RBRACE (name ++ [RBRACE] ++ rest) = some (name, rest) := by
    rw [List.append_assoc]
    exact cutAt_append rest hname
  show patternToRegexFrom (n + 1) (LBRACE :: (name ++ [RBRACE] ++ rest)) = _
  rw [patternToRegexFrom, if_pos rfl, hcut]
  rfl

/-- One segment of the pattern, whatever follows it. -/
theorem patternToRegexFrom_segment {s : Segment} (hs : s.WellFormed) (rest : Bytes) {n : Nat}
    (hn : (s.text ++ rest).length ≤ n) :
    ∃ m, rest.length ≤ m ∧ patternToRegexFrom n (s.text ++ rest) =
      (s.regexText ++ (patternToRegexFrom m rest).1, s.names ++ (patternToRegexFrom m rest).2) := by
  rw [List.length_append] at hn
  cases s with
  | literal t =>
      have hfuel : n = t.length + (n - t.length) := by
        have : t.length + rest.length ≤ n := hn
        omega
      refine ⟨n - t.length, Nat.le_sub_of_add_le' hn, ?_⟩
      have h := patternToRegexFrom_literal hs.2.2.1 rest (n - t.length)
      rw [← hfuel] at h
      exact h
  | param name =>
      have hlen : (Segment.param name).text.length = name.length + 2 := by
        simp [Segment.text]
      rw [hlen] at hn
      have hfuel : n = n - 1 + 1 := by omega
      refine ⟨n - 1, by omega, ?_⟩
      have h := patternToRegexFrom_param hs.2 rest (n - 1)
      rw [← hfuel] at h
      exact h

/-- The first of several texts, a slash, and the others. -/
theorem intercalate_segments {α : Type} (sep : α) (f : Segment → List α) (s s' : Segment)
    (ss : List Segment) : [sep].intercalate ((s :: s' :: ss).map f) =
      f s ++ sep :: [sep].intercalate ((s' :: ss).map f) := by
  rw [List.map_cons, List.intercalate_cons_of_ne_nil (by simp), List.append_assoc]
  rfl

/-- The loop over a whole pattern. -/
theorem patternToRegexFrom_segments : ∀ {segments : List Segment} {n : Nat},
    (∀ s ∈ segments, s.WellFormed) →
    ([SLASH].intercalate (segments.map Segment.text)).length ≤ n →
    patternToRegexFrom n ([SLASH].intercalate (segments.map Segment.text)) =
      ([SLASH].intercalate (segments.map Segment.regexText), segments.flatMap Segment.names)
  | [], n, _, _ => by cases n <;> rfl
  | [s], n, hwf, hn => by
      have hn' : (s.text ++ []).length ≤ n := by simpa using hn
      obtain ⟨m, -, hseg⟩ := patternToRegexFrom_segment (hwf s List.mem_cons_self) [] hn'
      have hend : patternToRegexFrom m [] = ([], []) := by cases m <;> rfl
      rw [hend] at hseg
      simpa using hseg
  | s :: s' :: ss, n, hwf, hn => by
      rw [intercalate_segments] at hn ⊢
      obtain ⟨m, hm, hseg⟩ := patternToRegexFrom_segment (hwf s List.mem_cons_self) _ hn
      rw [List.length_cons] at hm
      -- the slash between two segments is a literal of one character
      have hslash := patternToRegexFrom_literal (t := [SLASH]) (by decide)
        ([SLASH].intercalate ((s' :: ss).map Segment.text)) (m - 1)
      have hfuel : [SLASH].length + (m - 1) = m := by
        rw [List.length_singleton]
        omega
      rw [hfuel, patternToRegexFrom_segments (fun t ht => hwf t (List.mem_cons_of_mem s ht))
        (Nat.le_sub_one_of_lt hm)] at hslash
      rw [List.singleton_append] at hslash
      rw [hseg, hslash, intercalate_segments]
      rfl

/-! ## The compiled expression -/

theorem compileRegex_literal (rest : Bytes) : ∀ t : Bytes,
    compileRegex ((Segment.literal t).regexText ++ rest) =
      (compileRegex rest).map ((Segment.literal t).atoms ++ ·)
  | [] => by
      show compileRegex rest = (compileRegex rest).map fun as => as
      rw [Option.map_id']
  | c :: cs => by
      have ih := compileRegex_literal rest cs
      have hmap : (compileRegex ((Segment.literal cs).regexText ++ rest)).map (RegexAtom.lit c :: ·) =
          (compileRegex rest).map ((Segment.literal (c :: cs)).atoms ++ ·) := by
        rw [ih, Option.map_map]
        rfl
      by_cases hspecial : regexSpecial.contains c = true
      · -- escaped: the backslash is read with the character behind it
        have htext : (Segment.literal (c :: cs)).regexText ++ rest =
            BACKSLASH :: c :: ((Segment.literal cs).regexText ++ rest) := by
          simp only [Segment.regexText, List.flatMap_cons, if_pos hspecial, List.cons_append,
            List.nil_append]
        rw [htext, compileRegex, if_pos rfl]
        exact hmap
      · have htext : (Segment.literal (c :: cs)).regexText ++ rest =
            c :: ((Segment.literal cs).regexText ++ rest) := by
          simp only [Segment.regexText, List.flatMap_cons, if_neg hspecial, List.cons_append,
            List.nil_append]
        have hback : c ≠ BACKSLASH := fun e => hspecial (by rw [e]; decide)
        have hparen : c ≠ LPAREN := fun e => hspecial (by rw [e]; decide)
        rw [htext, compileRegex.eq_def]
        dsimp only
        rw [if_neg hback, if_neg hparen, if_neg hspecial]
        exact hmap

theorem compileRegex_segment (s : Segment) (rest : Bytes) :
    compileRegex (s.regexText ++ rest) = (compileRegex rest).map (s.atoms ++ ·) := by
  cases s with
  | literal t => exact compileRegex_literal rest t
  | param name =>
      show compileRegex (ascii "([^/]+)" ++ rest) = _
      have htext : ascii "([^/]+)" = [40, 91, 94, 47, 93, 43, 41] := by decide
      rw [htext]
      simp only [List.cons_append, List.nil_append, compileRegex]
      rw [if_neg (by decide), if_pos (by decide), if_pos (by decide)]
      rfl

theorem compileRegex_segments : ∀ segments : List Segment,
    compileRegex ([SLASH].intercalate (segments.map Segment.regexText)) =
      some ([RegexAtom.lit SLASH].intercalate (segments.map Segment.atoms))
  | [] => rfl
  | [s] => by
      have h := compileRegex_segment s []
      rw [List.append_nil] at h
      simpa [compileRegex] using h
  | s :: s' :: ss => by
      have hslash := compileRegex_literal
        ([SLASH].intercalate ((s' :: ss).map Segment.regexText)) [SLASH]
      rw [intercalate_segments, intercalate_segments, compileRegex_segment]
      have hslash : compileRegex (SLASH :: [SLASH].intercalate ((s' :: ss).map Segment.regexText)) =
          some (.lit SLASH :: [.lit SLASH].intercalate ((s' :: ss).map Segment.atoms)) := by
        refine hslash.trans ?_
        rw [compileRegex_segments (s' :: ss)]
        rfl
      rw [hslash]
      rfl

/-! ## Matching -/

/-- An expression that takes nothing but the end or a slash first. -/
def StopsAtSlash (as : List RegexAtom) : Prop :=
  ∀ (c : UInt8) (cs : Bytes), c ≠ SLASH → regexMatch as (c :: cs) = none

/-- The end of the path or a slash. -/
def EndsPart (rest : Bytes) : Prop := ∀ c ∈ rest.head?, c = SLASH

theorem regexMatch_literal {as : List RegexAtom} {rest : Bytes} (has : StopsAtSlash as)
    (hrest : EndsPart rest) : ∀ {t part : Bytes}, SLASH ∉ t → SLASH ∉ part →
    regexMatch ((Segment.literal t).atoms ++ as) (part ++ rest) =
      if part = t then regexMatch as rest else none
  | [], [], _, _ => by
      rw [if_pos rfl]
      rfl
  | [], x :: xs, _, hpart => by
      rw [if_neg (List.cons_ne_nil x xs)]
      exact has x _ fun e => hpart (e ▸ List.mem_cons_self)
  | c :: cs, [], ht, _ => by
      rw [if_neg (List.cons_ne_nil c cs).symm]
      cases rest with
      | nil => rfl
      | cons x xs =>
          have hx : x = SLASH := hrest x rfl
          have hne : x ≠ c := fun e => ht (by rw [← hx, e]; exact List.mem_cons_self)
          exact if_neg hne
  | c :: cs, x :: xs, ht, hpart => by
      have hcs : SLASH ∉ cs := fun hm => ht (List.mem_cons_of_mem c hm)
      have hxs : SLASH ∉ xs := fun hm => hpart (List.mem_cons_of_mem x hm)
      have ih := regexMatch_literal has hrest hcs hxs
      show (if x = c then regexMatch ((Segment.literal cs).atoms ++ as) (xs ++ rest) else none) = _
      rw [ih]
      by_cases hx : x = c
      · simp [hx]
      · simp [hx]

/-- The group takes the whole part: giving a character back leaves one that is no slash. -/
theorem regexMatch_param {as : List RegexAtom} {part rest : Bytes} (has : StopsAtSlash as)
    (hrest : EndsPart rest) (hpart : SLASH ∉ part) :
    regexMatch (.segment :: as) (part ++ rest) =
      if part ≠ [] then (regexMatch as rest).map (part :: ·) else none := by
  have htake : (part ++ rest).takeWhile (· != SLASH) = part := by
    rw [List.takeWhile_append_of_pos]
    · cases rest with
      | nil => rw [List.takeWhile_nil, List.append_nil]
      | cons x xs =>
          rw [List.takeWhile_cons_of_neg (by rw [hrest x rfl]; decide), List.append_nil]
    · intro c hc
      have hcs : c ≠ SLASH := fun e => hpart (e ▸ hc)
      simpa using hcs
  rw [regexMatch, htake]
  rcases List.eq_nil_or_concat part with rfl | ⟨init, last, hlast⟩
  · rfl
  · have hne : part ≠ [] := by
      rw [hlast]
      simp
    have hlen : part.length = init.length + 1 := by
      rw [hlast]
      simp
    rw [if_pos hne, hlen, List.range_succ, List.reverse_append, List.reverse_singleton,
      List.singleton_append, List.findSome?_cons, ← hlen, List.drop_left, List.take_left]
    cases hm : regexMatch as rest with
    | some groups => rfl
    | none =>
        refine List.findSome?_eq_none_iff.mpr fun k hk => ?_
        have hk' : k + 1 < part.length := by
          have := List.mem_range.mp (List.mem_reverse.mp hk)
          omega
        have hdrop : (part ++ rest).drop (k + 1) = part[k + 1] :: (part.drop (k + 2) ++ rest) := by
          rw [List.drop_append_of_le_length hk'.le, List.drop_eq_getElem_cons hk']
          rfl
        have hnone := has part[k + 1] (part.drop (k + 2) ++ rest)
          fun e => hpart (e ▸ List.getElem_mem hk')
        rw [hdrop, hnone]
        rfl

/-- What follows a segment in the expression stops at a slash. -/
theorem stopsAtSlash_tail (as : List RegexAtom) : StopsAtSlash (.lit SLASH :: as) :=
  fun _ _ hc => if_neg hc

theorem stopsAtSlash_nil : StopsAtSlash [] := fun _ _ _ => rfl

theorem regexMatch_segment {s : Segment} (hs : s.WellFormed) {as : List RegexAtom}
    (part rest : Bytes) (has : StopsAtSlash as) (hrest : EndsPart rest) (hpart : SLASH ∉ part) :
    regexMatch (s.atoms ++ as) (part ++ rest) =
      if s.Accepts part then (regexMatch as rest).map ((s.bind part).map Prod.snd ++ ·)
      else none := by
  cases s with
  | literal t =>
      rw [regexMatch_literal has hrest hs.2.1 hpart]
      show _ = if part = t then (regexMatch as rest).map fun groups => groups else none
      rw [Option.map_id']
  | param name => exact regexMatch_param has hrest hpart

/-- **The matcher on a whole pattern:** segment by segment and part by part. -/
theorem regexMatch_segments : ∀ {segments : List Segment} {parts : List Bytes},
    segments ≠ [] → parts ≠ [] → (∀ s ∈ segments, s.WellFormed) → (∀ p ∈ parts, SLASH ∉ p) →
    regexMatch ([RegexAtom.lit SLASH].intercalate (segments.map Segment.atoms))
        ([SLASH].intercalate parts) =
      if List.Forall₂ Segment.Accepts segments parts then
        some ((List.zipWith Segment.bind segments parts).flatten.map Prod.snd)
      else none
  | [s], [p], _, _, hwf, hparts => by
      have h := regexMatch_segment (hwf s List.mem_cons_self) p [] stopsAtSlash_nil
        (fun c hc => by cases hc) (hparts p List.mem_cons_self)
      rw [List.append_nil, List.append_nil] at h
      rw [List.map_singleton, List.intercalate_singleton, List.intercalate_singleton, h]
      simp [regexMatch]
  | [s], p :: p' :: ps, _, _, hwf, hparts => by
      -- the expression ends where the path goes on
      have h := regexMatch_segment (hwf s List.mem_cons_self) p
        (SLASH :: [SLASH].intercalate (p' :: ps)) stopsAtSlash_nil (fun c hc => by cases hc; rfl)
        (hparts p List.mem_cons_self)
      rw [List.append_nil] at h
      rw [List.map_singleton, List.intercalate_singleton, List.intercalate_cons_of_ne_nil (by simp),
        List.append_assoc, List.singleton_append, h]
      simp [regexMatch]
  | s :: s' :: ss, [p], _, _, hwf, hparts => by
      have h := regexMatch_segment (hwf s List.mem_cons_self) p []
        (stopsAtSlash_tail ([RegexAtom.lit SLASH].intercalate ((s' :: ss).map Segment.atoms)))
        (fun c hc => by cases hc) (hparts p List.mem_cons_self)
      rw [List.append_nil] at h
      rw [intercalate_segments, List.intercalate_singleton, h]
      simp [regexMatch]
  | s :: s' :: ss, p :: p' :: ps, _, _, hwf, hparts => by
      have h := regexMatch_segment (hwf s List.mem_cons_self) p
        (SLASH :: [SLASH].intercalate (p' :: ps))
        (stopsAtSlash_tail ([RegexAtom.lit SLASH].intercalate ((s' :: ss).map Segment.atoms)))
        (fun c hc => by cases hc; rfl) (hparts p List.mem_cons_self)
      have ih := regexMatch_segments (List.cons_ne_nil s' ss) (List.cons_ne_nil p' ps)
        (fun t ht => hwf t (List.mem_cons_of_mem s ht))
        (fun q hq => hparts q (List.mem_cons_of_mem p hq))
      have hslash : regexMatch
          (.lit SLASH :: [RegexAtom.lit SLASH].intercalate ((s' :: ss).map Segment.atoms))
          (SLASH :: [SLASH].intercalate (p' :: ps)) =
          if List.Forall₂ Segment.Accepts (s' :: ss) (p' :: ps) then
            some ((List.zipWith Segment.bind (s' :: ss) (p' :: ps)).flatten.map Prod.snd)
          else none := by
        rw [regexMatch, if_pos rfl, ih]
      rw [intercalate_segments, List.intercalate_cons_of_ne_nil (by simp), List.append_assoc,
        List.singleton_append, h, hslash]
      by_cases hs : s.Accepts p
      · by_cases hrest : List.Forall₂ Segment.Accepts (s' :: ss) (p' :: ps)
        · rw [if_pos hs, if_pos hrest, if_pos (List.Forall₂.cons hs hrest)]
          simp only [Option.map_some, List.zipWith_cons_cons, List.flatten_cons, List.map_append]
        · rw [if_pos hs, if_neg hrest, if_neg fun hall => hrest (List.forall₂_cons.mp hall).2]
          rfl
      · rw [if_neg hs, if_neg fun hall => hs (List.forall₂_cons.mp hall).1]

theorem regexMatch_pattern (p : RoutePattern) (path : Bytes) :
    regexMatch ([RegexAtom.lit SLASH].intercalate (p.segments.map Segment.atoms)) path =
      if p.Matches path then some ((p.values path).map Prod.snd) else none := by
  have h := regexMatch_segments p.nonempty (List.splitOn_ne_nil SLASH path) p.wellFormed
    fun _ => not_mem_of_mem_splitOn
  rw [List.intercalate_splitOn] at h
  exact h

/-! ## Dispatch -/

/-- A route as it is registered. -/
structure PatternRoute (η : Type) where
  method : HttpMethod
  pattern : RoutePattern
  handler : η

/-- `add_route` for one route after the other. -/
def registerAll {η : Type} (routes : List (PatternRoute η)) : Option (HttpRouter η) :=
  routes.foldlM (fun router r => router.addRoute r.method r.pattern.text r.handler) []

/-- The route `add_route` keeps. -/
def PatternRoute.compiled {η : Type} (r : PatternRoute η) : Route η where
  method := r.method
  regex := [RegexAtom.lit SLASH].intercalate (r.pattern.segments.map Segment.atoms)
  paramNames := r.pattern.segments.flatMap Segment.names
  handler := r.handler

theorem addRoute_pattern {η : Type} (router : HttpRouter η) (r : PatternRoute η) :
    router.addRoute r.method r.pattern.text r.handler = some (router ++ [r.compiled]) := by
  have htext : patternToRegex r.pattern.text = _ :=
    patternToRegexFrom_segments r.pattern.wellFormed le_rfl
  unfold HttpRouter.addRoute
  rw [htext]
  dsimp only
  rw [compileRegex_segments]
  rfl

/-- Every pattern compiles. -/
theorem registerAll_eq {η : Type} (routes : List (PatternRoute η)) :
    registerAll routes = some (routes.map PatternRoute.compiled) := by
  have hfrom : ∀ (rs : List (PatternRoute η)) (router : HttpRouter η),
      rs.foldlM (fun router r => router.addRoute r.method r.pattern.text r.handler) router =
        some (router ++ rs.map PatternRoute.compiled) := by
    intro rs
    induction rs with
    | nil => exact fun router => by rw [List.map_nil, List.append_nil]; rfl
    | cons r rs ih =>
        intro router
        rw [List.foldlM_cons, addRoute_pattern]
        show rs.foldlM _ (router ++ [r.compiled]) = _
        rw [ih, List.append_assoc]
        rfl
  exact hfrom routes []

/-- The first route of the request's method whose segments accept the path. -/
def firstMatch {η : Type} (routes : List (PatternRoute η)) (req : HttpRequest) :
    Option (PatternRoute η) :=
  routes.find? fun r => r.method = req.method ∧ r.pattern.Matches req.path

/-- Each name of the pattern is bound once, in the order of the pattern. -/
theorem map_fst_values (p : RoutePattern) {path : Bytes} (h : p.Matches path) :
    (p.values path).map Prod.fst = p.segments.flatMap Segment.names := by
  have hparts : ∀ {segments : List Segment} {parts : List Bytes},
      List.Forall₂ Segment.Accepts segments parts →
      (List.zipWith Segment.bind segments parts).flatten.map Prod.fst =
        segments.flatMap Segment.names := by
    intro segments parts hall
    induction hall with
    | nil => rfl
    | @cons s part ss ps _ _ ih =>
        rw [List.zipWith_cons_cons, List.flatten_cons, List.map_append, ih, List.flatMap_cons]
        cases s <;> rfl
  exact hparts h

theorem findRoute_compiled {η : Type} {path : Bytes} (hpath : NUL ∉ path) (method : HttpMethod) :
    ∀ routes : List (PatternRoute η),
    HttpRouter.findRoute (routes.map PatternRoute.compiled) method path =
      (routes.find? fun r => r.method = method ∧ r.pattern.Matches path).map fun r =>
        (r.handler, r.pattern.values path)
  | [] => rfl
  | r :: rs => by
      have ih := findRoute_compiled hpath method rs
      have hregex : r.compiled.regex =
          [RegexAtom.lit SLASH].intercalate (r.pattern.segments.map Segment.atoms) := rfl
      have hkept : r.compiled.method = r.method := rfl
      rw [List.map_cons, HttpRouter.findRoute, cstr_of_not_mem hpath, hregex, hkept,
        regexMatch_pattern]
      by_cases hmethod : r.method = method
      · by_cases hmatch : r.pattern.Matches path
        · have hzip := List.zip_of_prod (map_fst_values r.pattern hmatch) rfl
          rw [if_neg (not_not_intro hmethod), if_pos hmatch,
            List.find?_cons_of_pos (by simp [hmethod, hmatch])]
          show some (r.handler, (r.pattern.segments.flatMap Segment.names).zip _) = _
          rw [← hzip]
          rfl
        · rw [if_neg (not_not_intro hmethod), if_neg hmatch,
            List.find?_cons_of_neg (by simp [hmatch])]
          exact ih
      · rw [if_pos hmethod, List.find?_cons_of_neg (by simp [hmethod])]
        exact ih

/-- Setting distinct parameters one by one leaves exactly them. -/
theorem setPathParams_eq {params : List (Bytes × Bytes)} (h : (params.map Prod.fst).Nodup)
    (req : HttpRequest) : HttpRouter.setPathParams req params = { req with pathParams := params } := by
  have hfold : ∀ (before after : List (Bytes × Bytes)), ((before ++ after).map Prod.fst).Nodup →
      after.foldl (fun r p => r.setPathParam p.1 p.2) { req with pathParams := before } =
        { req with pathParams := before ++ after } := by
    intro before after
    induction after generalizing before with
    | nil =>
        intro _
        rw [List.append_nil]
        rfl
    | cons p ps ih =>
        intro hnd
        have hnew : p.1 ∉ before.map Prod.fst := by
          intro hm
          rw [List.map_append, List.nodup_append] at hnd
          exact hnd.2.2 p.1 hm p.1 List.mem_cons_self rfl
        have hset : HttpRequest.setPathParam { req with pathParams := before } p.1 p.2 =
            { req with pathParams := before ++ [p] } := by
          show { req with pathParams := setKey p.1 p.2 before } = _
          rw [setKey_of_not_mem p.2 hnew]
        rw [List.foldl_cons, hset, ih (before ++ [p]) (by rwa [List.append_assoc]),
          List.append_assoc]
        rfl
  exact hfold [] params h

/-- `dispatch` finds the first match and binds its parameters. -/
theorem dispatch_registered {η : Type} (routes : List (PatternRoute η)) {req : HttpRequest}
    (hpath : NUL ∉ req.path) :
    HttpRouter.dispatch (routes.map PatternRoute.compiled) req =
      (firstMatch routes req).map fun r =>
        (r.handler, { req with pathParams := r.pattern.values req.path }) := by
  unfold HttpRouter.dispatch
  rw [findRoute_compiled hpath]
  show (Option.map _ (Option.map _ (firstMatch routes req))) = _
  cases hfind : firstMatch routes req with
  | none => rfl
  | some r =>
      have hmatch : r.method = req.method ∧ r.pattern.Matches req.path := by
        simpa using List.find?_some hfind
      have hnd : ((r.pattern.values req.path).map Prod.fst).Nodup := by
        rw [map_fst_values r.pattern hmatch.2]
        exact r.pattern.distinct
      show some (r.handler, HttpRouter.setPathParams req (r.pattern.values req.path)) = _
      rw [setPathParams_eq hnd]
      rfl

/-- What a handler does: it fills in the response, and whatever else it changes. -/
abbrev HttpHandler (σ : Type) : Type :=
  HttpRequest → HttpResponse → σ → Except Bytes HttpResponse × σ

/-- `HttpRouter::dispatch` with the handlers run. -/
def HttpRouter.run {σ : Type} (json : JsonLib) (router : HttpRouter (HttpHandler σ))
    (req : HttpRequest) (resp : HttpResponse) (w : σ) : Except Bytes HttpResponse × σ :=
  match router.dispatch req with
  | none => (resp.setError json 404 (ascii "Not Found"), w)
  | some (handler, req') => handler req' resp w

/-- **Routing equals segment matching:** the handler of the first route that
accepts the path runs, with each parameter bound to its part; without one the
answer is 404 and no handler runs. -/
theorem routing_is_segment_matching {σ : Type} {json : JsonLib} (hjson : json.Lawful)
    (routes : List (PatternRoute (HttpHandler σ))) {req : HttpRequest} (hpath : NUL ∉ req.path)
    (resp : HttpResponse) (w : σ) :
    ∃ router, registerAll routes = some router ∧
      (∀ r, firstMatch routes req = some r →
        router.run json req resp w =
          r.handler { req with pathParams := r.pattern.values req.path } resp w) ∧
      (firstMatch routes req = none → ∃ text,
        router.run json req resp w =
          (.ok ((resp.setStatus 404 (ascii "Not Found")).setJson text), w)) := by
  refine ⟨_, registerAll_eq routes, fun r hfirst => ?_, fun hnone => ?_⟩
  · unfold HttpRouter.run
    rw [dispatch_registered routes hpath, hfirst]
    rfl
  · have hreadable : validUtf8 (ascii "Not Found") = true := by decide
    obtain ⟨resp', hresp⟩ := (setError_ok_iff hjson resp 404 (ascii "Not Found")).mpr hreadable
    unfold HttpRouter.run
    rw [dispatch_registered routes hpath, hnone]
    show ∃ text, (resp.setError json 404 (ascii "Not Found"), w) = _
    unfold HttpResponse.setError at hresp ⊢
    cases hdump : json.dump (HttpResponse.errorDocument (ascii "Not Found")) with
    | error what =>
        rw [hdump] at hresp
        cases hresp
    | ok text => exact ⟨text, rfl⟩

/-- `/files/{id}`, with a handler that counts its calls and answers the parameter. -/
def sampleRoute : PatternRoute (HttpHandler Nat) where
  method := .GET
  pattern :=
    { segments := [.literal [], .literal (ascii "files"), .param (ascii "id")]
      nonempty := by decide
      wellFormed := by decide
      distinct := by decide }
  handler := fun req resp calls => (.ok (resp.setBody (req.getPathParam (ascii "id"))), calls + 1)

example : sampleRoute.pattern.text = ascii "/files/\x7bid\x7d" := by decide

theorem sampleRoute_dispatched :
    ∃ router, registerAll [sampleRoute] = some router ∧
      router.run JsonText.lib { method := .GET, path := ascii "/files/a.b" } {} 0 =
        (.ok (HttpResponse.setBody {} (ascii "a.b")), 1) ∧
      ∃ text, router.run JsonText.lib { method := .GET, path := ascii "/files/a/b" } {} 0 =
        (.ok ((HttpResponse.setStatus {} 404 (ascii "Not Found")).setJson text), 0) := by
  have haccepted : NUL ∉ (⟨.GET, ascii "/files/a.b", [], [], [], [], [], [], []⟩ : HttpRequest).path := by
    decide
  have hrefused : NUL ∉ (⟨.GET, ascii "/files/a/b", [], [], [], [], [], [], []⟩ : HttpRequest).path := by
    decide
  obtain ⟨router, hrouter, hmatch, -⟩ := routing_is_segment_matching JsonText.lib_lawful
    [sampleRoute] haccepted {} 0
  obtain ⟨router', hrouter', -, hnone⟩ := routing_is_segment_matching JsonText.lib_lawful
    [sampleRoute] hrefused {} 0
  obtain rfl : router' = router := Option.some.inj (hrouter'.symm.trans hrouter)
  exact ⟨router', hrouter, (hmatch sampleRoute (by rfl)).trans (by decide), hnone (by rfl)⟩

end SolarDrive.Http
