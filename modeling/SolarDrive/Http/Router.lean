import SolarDrive.Http.Request

/-!
# Routing

A route pattern is turned into the text of a regular expression
(`patternToRegex`), the text is compiled, and the NUL-terminated path is matched
against each route in registration order. Of `std::regex` only what
`patternToRegex` emits is compiled: literal characters, escaped or not, and
the group `([^/]+)`. Matching is the ECMAScript one, greedy with backtracking.
-/

namespace SolarDrive.Http

open Lib

abbrev LBRACE : UInt8 := 123
abbrev RBRACE : UInt8 := 125
abbrev BACKSLASH : UInt8 := 92
abbrev LPAREN : UInt8 := 40

/-- The characters `pattern_to_regex` escapes. -/
def regexSpecial : Bytes := ascii ".+*?^$|()\\[]\x7b\x7d"

/-- The regex text and the parameter names; the first argument is fuel. -/
def patternToRegexFrom : Nat → Bytes → Bytes × List Bytes
  | 0, _ => ([], [])
  | _ + 1, [] => ([], [])
  | n + 1, c :: cs =>
      if c = LBRACE then
        match cutAt RBRACE cs with
        | none =>
            let (text, names) := patternToRegexFrom n cs
            (c :: text, names)
        | some (name, rest) =>
            let (text, names) := patternToRegexFrom n rest
            (ascii "([^/]+)" ++ text, name :: names)
      else
        let (text, names) := patternToRegexFrom n cs
        (if regexSpecial.contains c then BACKSLASH :: c :: text else c :: text, names)

def patternToRegex (pattern : Bytes) : Bytes × List Bytes :=
  patternToRegexFrom pattern.length pattern

/-- The pieces of a compiled expression. -/
inductive RegexAtom where
  | lit (c : UInt8)
  | segment
deriving DecidableEq, Repr

/-- `std::regex(text)`, on the texts `pattern_to_regex` writes. -/
def compileRegex : Bytes → Option (List RegexAtom)
  | [] => some []
  | c :: cs =>
      if c = BACKSLASH then
        match cs with
        | [] => none
        | d :: rest => (compileRegex rest).map (.lit d :: ·)
      else if c = LPAREN then
        match cs with
        | a :: b :: d :: e :: f :: g :: rest =>
            if [a, b, d, e, f, g] = ascii "[^/]+)" then (compileRegex rest).map (.segment :: ·)
            else none
        | _ => none
      else if regexSpecial.contains c then none
      else (compileRegex cs).map (.lit c :: ·)

/-- `std::regex_match`: the captured groups. A group takes as many characters
as it can and gives them back one by one. -/
def regexMatch : List RegexAtom → Bytes → Option (List Bytes)
  | [], s => if s = [] then some [] else none
  | .lit c :: as, s =>
      match s with
      | [] => none
      | x :: xs => if x = c then regexMatch as xs else none
  | .segment :: as, s =>
      (List.range (s.takeWhile (· != SLASH)).length).reverse.findSome? fun k =>
        (regexMatch as (s.drop (k + 1))).map (s.take (k + 1) :: ·)

structure Route (η : Type) where
  method : HttpMethod
  regex : List RegexAtom
  paramNames : List Bytes
  handler : η

abbrev HttpRouter (η : Type) : Type := List (Route η)

namespace HttpRouter

variable {η : Type}

/-- `none` when the expression does not compile. -/
def addRoute (router : HttpRouter η) (method : HttpMethod) (pattern : Bytes) (handler : η) :
    Option (HttpRouter η) :=
  let (text, paramNames) := patternToRegex pattern
  (compileRegex text).map fun regex => router ++ [{ method, regex, paramNames, handler }]

def setPathParams (req : HttpRequest) (params : List (Bytes × Bytes)) : HttpRequest :=
  params.foldl (fun r p => r.setPathParam p.1 p.2) req.clearPathParams

/-- The first route that matches: its handler and the path parameters. -/
def findRoute : HttpRouter η → HttpMethod → Bytes → Option (η × List (Bytes × Bytes))
  | [], _, _ => none
  | r :: rs, method, path =>
      if r.method ≠ method then findRoute rs method path
      else
        match regexMatch r.regex (cstr path) with
        | none => findRoute rs method path
        | some groups => some (r.handler, r.paramNames.zip groups)

/-- The handler `dispatch` calls and the request it is given; `none` for 404. -/
def dispatch (router : HttpRouter η) (req : HttpRequest) : Option (η × HttpRequest) :=
  (router.findRoute req.method req.path).map fun p => (p.1, setPathParams req p.2)

end HttpRouter

/-! ## What a match tells about the path -/

/-- The literal text an expression starts with. -/
def literalPrefix : List RegexAtom → Bytes
  | .lit c :: as => c :: literalPrefix as
  | _ => []

theorem literalPrefix_of_match : ∀ {as : List RegexAtom} {s : Bytes} {groups : List Bytes},
    regexMatch as s = some groups → literalPrefix as <+: s
  | [], s, _, _ => List.nil_prefix
  | .segment :: _, s, _, _ => List.nil_prefix
  | .lit c :: as, [], _, h => by simp [regexMatch] at h
  | .lit c :: as, x :: xs, _, h => by
      rw [regexMatch] at h
      split at h
      · rename_i hx
        subst hx
        exact List.cons_prefix_cons.mpr ⟨rfl, literalPrefix_of_match h⟩
      · cases h

/-- A route is found because its expression matches the path. -/
theorem findRoute_some {η : Type} {method : HttpMethod} {path : Bytes} {handler : η}
    {params : List (Bytes × Bytes)} :
    ∀ {router : HttpRouter η}, router.findRoute method path = some (handler, params) →
      ∃ r ∈ router, r.handler = handler ∧ ∃ groups,
        regexMatch r.regex (cstr path) = some groups
  | [], h => by simp [HttpRouter.findRoute] at h
  | r :: rs, h => by
      rw [HttpRouter.findRoute] at h
      split at h
      · obtain ⟨r', hr', hrest⟩ := findRoute_some h
        exact ⟨r', List.mem_cons_of_mem r hr', hrest⟩
      · cases hm : regexMatch r.regex (cstr path) with
        | none =>
            rw [hm] at h
            obtain ⟨r', hr', hrest⟩ := findRoute_some h
            exact ⟨r', List.mem_cons_of_mem r hr', hrest⟩
        | some groups =>
            rw [hm] at h
            cases h
            exact ⟨r, List.mem_cons_self, rfl, groups, hm⟩

theorem dispatch_some {η : Type} {router : HttpRouter η} {req req' : HttpRequest} {handler : η}
    (h : router.dispatch req = some (handler, req')) :
    ∃ params, router.findRoute req.method req.path = some (handler, params) ∧
      req' = HttpRouter.setPathParams req params := by
  obtain ⟨⟨handler', params⟩, hfind, heq⟩ := Option.map_eq_some_iff.mp h
  cases heq
  exact ⟨params, hfind, rfl⟩

/-- Path parameters leave the authenticated user alone. -/
theorem setPathParams_authUser (params : List (Bytes × Bytes)) (req : HttpRequest) :
    (HttpRouter.setPathParams req params).authUserId = req.authUserId ∧
      (HttpRouter.setPathParams req params).authUsername = req.authUsername := by
  have hfold : ∀ (ps : List (Bytes × Bytes)) (r : HttpRequest),
      (ps.foldl (fun r p => r.setPathParam p.1 p.2) r).authUserId = r.authUserId ∧
        (ps.foldl (fun r p => r.setPathParam p.1 p.2) r).authUsername = r.authUsername := by
    intro ps
    induction ps with
    | nil => exact fun r => ⟨rfl, rfl⟩
    | cons p ps ih => exact fun r => ih (r.setPathParam p.1 p.2)
  exact hfold params req.clearPathParams

end SolarDrive.Http
