import SolarDrive.Api.Services
import SolarDrive.Lib.QueryText

/-!
# Parameters of a query

`query_param` looks for `key=` anywhere in the query, so it stops in the first parameter
that contains it, under whatever name or in whatever value. `FoundByName` says when that
does no harm.
-/

namespace SolarDrive.Api

open Lib

/-- A parameter, with the separators where they belong. -/
structure QueryPair where
  name : Bytes
  value : Bytes
  name_clean : AMP ∉ name ∧ EQUALS ∉ name
  value_clean : AMP ∉ value

/-- `name=value`. -/
def QueryPair.text (p : QueryPair) : Bytes := p.name ++ EQUALS :: p.value

def queryText (params : List QueryPair) : Bytes := [AMP].intercalate (params.map QueryPair.text)

/-- The value of the first parameter of that name, or nothing. -/
def valueOf (key : Bytes) (params : List QueryPair) : Bytes :=
  match params.find? (·.name = key) with
  | some p => p.value
  | none => []

/-- The first parameter that contains `key=` is named `key`, or it happens to have behind
its first `key=` what is looked for. A key with an ampersand names no parameter, so
behind its first `key=` in the query nothing may stand but the next ampersand. -/
def FoundByName (key : Bytes) (params : List QueryPair) : Prop :=
  if AMP ∈ key then
    ∀ rest, afterFirst (key ++ [EQUALS]) (queryText params) = some rest →
      ∀ c ∈ rest.head?, c = AMP
  else
    ∀ p, params.find? (fun p => key ++ [EQUALS] <:+: p.text) = some p →
      p.name = key ∨ afterFirst (key ++ [EQUALS]) p.text = some (valueOf key params)

section Lookup

variable {key : Bytes} {p : QueryPair} {params : List QueryPair}

theorem amp_not_mem_text (p : QueryPair) : AMP ∉ p.text := by
  intro hmem
  rcases List.mem_append.mp hmem with hname | hvalue
  · exact p.name_clean.1 hname
  · rcases List.mem_cons.mp hvalue with hequals | hvalue
    · exact absurd hequals (by decide)
    · exact p.value_clean hvalue

theorem pattern_ne_nil (key : Bytes) : key ++ [EQUALS] ≠ [] := by simp

theorem amp_not_mem_pattern (hkey : AMP ∉ key) : AMP ∉ key ++ [EQUALS] := by
  intro hmem
  rcases List.mem_append.mp hmem with hmem | hmem
  · exact hkey hmem
  · exact absurd (List.mem_singleton.mp hmem) (by decide)

/-- A parameter of that name has its value behind the pattern. -/
theorem afterFirst_text (hname : p.name = key) :
    afterFirst (key ++ [EQUALS]) p.text = some p.value := by
  rw [afterFirst_eq_some (pattern_ne_nil key)]
  refine ⟨[], ?_, fun k hk => absurd hk (Nat.not_lt_zero k)⟩
  rw [QueryPair.text, hname]
  simp

/-- What is returned stands in the first parameter that has the pattern. -/
theorem queryParam_eq (hkey : AMP ∉ key) (params : List QueryPair) :
    queryParam (queryText params) key =
      ((params.findSome? fun p => afterFirst (key ++ [EQUALS]) p.text).getD []) := by
  have hfound := afterFirst_intercalate (amp_not_mem_pattern hkey) (pattern_ne_nil key)
    (params.map QueryPair.text) (List.forall_mem_map.mpr fun p _ => amp_not_mem_text p)
  rw [List.findSome?_map] at hfound
  change _ = params.findSome? fun p => afterFirst (key ++ [EQUALS]) p.text at hfound
  rw [← hfound]
  unfold queryParam queryText
  cases afterFirst (key ++ [EQUALS]) ([AMP].intercalate (params.map QueryPair.text)) with
  | none => rfl
  | some rest => rfl

theorem valueOf_of_amp (hkey : AMP ∈ key) (params : List QueryPair) : valueOf key params = [] := by
  have hnone : params.find? (·.name = key) = none := by
    rw [List.find?_eq_none]
    intro p _ hname
    have hname : p.name = key := by simpa using hname
    exact p.name_clean.1 (hname ▸ hkey)
  rw [valueOf, hnone]

theorem queryParam_nil_iff (query key : Bytes) : queryParam query key = [] ↔
    ∀ rest, afterFirst (key ++ [EQUALS]) query = some rest → ∀ c ∈ rest.head?, c = AMP := by
  unfold queryParam
  cases afterFirst (key ++ [EQUALS]) query with
  | none => simp
  | some rest =>
      cases rest with
      | nil => simp
      | cons c rest =>
          simp [List.takeWhile_cons, AMP]

/-- For a key without an ampersand, parameter by parameter. -/
theorem found_iff (params : List QueryPair) :
    (params.findSome? fun p => afterFirst (key ++ [EQUALS]) p.text).getD [] = valueOf key params ↔
      ∀ p, params.find? (fun p => key ++ [EQUALS] <:+: p.text) = some p →
        p.name = key ∨ afterFirst (key ++ [EQUALS]) p.text = some (valueOf key params) := by
  induction params with
  | nil => simp [valueOf]
  | cons p params ih =>
      cases hfirst : afterFirst (key ++ [EQUALS]) p.text with
      | none =>
          -- nothing in this parameter, so neither the search nor the name stops at it
          have hname : p.name ≠ key := by
            intro hname
            rw [afterFirst_text hname] at hfirst
            cases hfirst
          have hnot : ¬ key ++ [EQUALS] <:+: p.text := by
            intro hinfix
            have hsome := afterFirst_isSome hinfix
            rw [hfirst] at hsome
            cases hsome
          have hvalue : valueOf key (p :: params) = valueOf key params := by
            simp [valueOf, hname]
          rw [List.findSome?_cons, hfirst, hvalue, List.find?_cons_of_neg (by simpa using hnot)]
          exact ih
      | some rest =>
          have hinfix : key ++ [EQUALS] <:+: p.text := by
            obtain ⟨before, htext, -⟩ := (afterFirst_eq_some (pattern_ne_nil key)).mp hfirst
            exact ⟨before, rest, htext.symm⟩
          rw [List.findSome?_cons, hfirst, List.find?_cons_of_pos (by simpa using hinfix)]
          simp only [Option.getD_some, Option.some.injEq, forall_eq', hfirst]
          constructor
          · intro h
            exact Or.inr h
          · rintro (hname | h)
            · rw [afterFirst_text hname, Option.some.injEq] at hfirst
              simp [valueOf, hname, hfirst]
            · exact h

end Lookup

/-- Where the first parameter with `key=` in it is named `key`, it is the one. -/
theorem queryParam_of_named (hkey : AMP ∉ key)
    (h : ∀ p, params.find? (fun p => key ++ [EQUALS] <:+: p.text) = some p → p.name = key) :
    queryParam (queryText params) key = valueOf key params := by
  rw [queryParam_eq hkey]
  exact (found_iff params).mpr fun p hp => .inl (h p hp)

/-- **A parameter is looked up by its name** exactly if the first one with `key=` in it is the
one, up to parameters with the same text behind it. -/
theorem looked_up_by_name_iff (params : List QueryPair) (key : Bytes) :
    queryParam (queryText params) key = valueOf key params ↔ FoundByName key params := by
  unfold FoundByName
  by_cases hkey : AMP ∈ key
  · rw [if_pos hkey, valueOf_of_amp hkey]
    exact queryParam_nil_iff _ _
  · rw [if_neg hkey, queryParam_eq hkey]
    exact found_iff params

/-- The token of a WebSocket request behind a parameter whose name ends in `token`. -/
def shadowedToken : List QueryPair :=
  [{ name := ascii "xtoken", value := ascii "1", name_clean := by decide, value_clean := by decide },
    { name := ascii "token", value := ascii "2", name_clean := by decide, value_clean := by decide }]

theorem token_shadowed : ¬ ∀ (params : List QueryPair) (key : Bytes),
    queryParam (queryText params) key = valueOf key params := by
  intro h
  have hshadowed : queryParam (queryText shadowedToken) (ascii "token") ≠
      valueOf (ascii "token") shadowedToken := by decide +kernel
  exact hshadowed (h shadowedToken (ascii "token"))

end SolarDrive.Api
