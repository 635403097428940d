import SolarDrive.Lib.Bytes

/-!
# Query components

`encodeURIComponent`, on the UTF-8 bytes of a text, and parameters that are
joined by ampersands. A pattern without an ampersand is found where one of the
parameters has it. `PercentEncodes` leaves the case of every hex digit open.
-/

namespace Lib

def AMP : UInt8 := 38
def PERCENT : UInt8 := 37

/-- Letters, digits and the marks that are not escaped. -/
def isUriUnreserved (c : UInt8) : Bool :=
  isDigit c || (65 ≤ c && c ≤ 90) || (97 ≤ c && c ≤ 122) || c == 39 || (ascii "-_.!~*()").contains c

def upperHexDigit (d : Nat) : UInt8 := UInt8.ofNat (if d < 10 then 48 + d else 55 + d)

def escapeByte (c : UInt8) : Bytes :=
  [PERCENT, upperHexDigit (c.toNat / 16), upperHexDigit (c.toNat % 16)]

def encodeURIComponent (text : Bytes) : Bytes :=
  text.flatMap fun c => if isUriUnreserved c then [c] else escapeByte c

/-- A digit of either case. -/
def IsHexDigitOf (d : Nat) (c : UInt8) : Prop := c = hexDigit d ∨ c = upperHexDigit d

/-- A text, byte by byte, and one of its encodings. -/
inductive PercentEncodes : Bytes → Bytes → Prop
  | nil : PercentEncodes [] []
  | plain {c : UInt8} {text encoded : Bytes} : isUriUnreserved c = true →
      PercentEncodes text encoded → PercentEncodes (c :: text) (c :: encoded)
  | escaped {c h l : UInt8} {text encoded : Bytes} : isUriUnreserved c = false →
      IsHexDigitOf (c.toNat / 16) h → IsHexDigitOf (c.toNat % 16) l →
      PercentEncodes text encoded → PercentEncodes (c :: text) (PERCENT :: h :: l :: encoded)

section Encoding

variable {text plain : Bytes}

theorem length_encodeURIComponent : ∀ text : Bytes,
    (encodeURIComponent text).length = text.length + 2 * text.countP fun c => !isUriUnreserved c
  | [] => rfl
  | c :: cs => by
      have ih := length_encodeURIComponent cs
      unfold encodeURIComponent at ih ⊢
      rw [List.flatMap_cons, List.length_append, ih, List.countP_cons, List.length_cons]
      cases isUriUnreserved c with
      | true => simp; omega
      | false => simp [escapeByte]; omega

theorem encodeURIComponent_of_unreserved (h : ∀ c ∈ text, isUriUnreserved c = true) :
    encodeURIComponent text = text := by
  induction text with
  | nil => rfl
  | cons c cs ih =>
      have hrest := ih fun x hx => h x (List.mem_cons_of_mem _ hx)
      unfold encodeURIComponent at hrest ⊢
      rw [List.flatMap_cons, if_pos (h c List.mem_cons_self), hrest]
      rfl

/-- A text is its own encoding exactly if it has nothing to escape. -/
theorem encodeURIComponent_eq_self_iff :
    encodeURIComponent text = text ↔ ∀ c ∈ text, isUriUnreserved c = true := by
  constructor
  · intro h
    have hlen := congrArg List.length h
    rw [length_encodeURIComponent] at hlen
    have hnone : (text.countP fun c => !isUriUnreserved c) = 0 := by omega
    simpa using hnone
  · exact encodeURIComponent_of_unreserved

theorem percent_mem_encodeURIComponent {c : UInt8} (hc : c ∈ text)
    (hreserved : isUriUnreserved c = false) : PERCENT ∈ encodeURIComponent text := by
  refine List.mem_flatMap.mpr ⟨c, hc, ?_⟩
  rw [hreserved]
  exact List.mem_cons_self

/-- Only a plain text itself is encoded as it. -/
theorem encodeURIComponent_eq_plain_iff (hplain : ∀ c ∈ plain, isUriUnreserved c = true) :
    encodeURIComponent text = plain ↔ text = plain := by
  constructor
  · intro h
    have hall : ∀ c ∈ text, isUriUnreserved c = true := by
      intro c hc
      cases hu : isUriUnreserved c with
      | true => rfl
      | false =>
          have hmem := percent_mem_encodeURIComponent hc hu
          rw [h] at hmem
          exact absurd (hplain _ hmem) (by decide)
    rwa [encodeURIComponent_of_unreserved hall] at h
  · rintro rfl
    exact encodeURIComponent_of_unreserved hplain

end Encoding

/-! ## Parameters -/

/-- The text of the parameters that stand before another. -/
def paramsBefore (params : List Bytes) : Bytes := params.flatMap (· ++ [AMP])

def paramsAfter (params : List Bytes) : Bytes := params.flatMap (AMP :: ·)

section Params

variable {pat t : Bytes}

/-- A pattern that does not contain the separator ends before it. -/
theorem prefix_of_prefix_append_cons {sep : UInt8} {u v : Bytes} (hsep : sep ∉ pat)
    (h : pat <+: u ++ sep :: v) : pat <+: u := by
  by_cases hlen : pat.length ≤ u.length
  · exact List.prefix_of_prefix_length_le h (List.prefix_append u _) hlen
  · have hlonger : u ++ [sep] <+: pat := by
      refine List.prefix_of_prefix_length_le ⟨v, ?_⟩ h ?_
      · rw [List.append_assoc, List.singleton_append]
      · rw [List.length_append, List.length_singleton]
        omega
    exact absurd (hlonger.subset (List.mem_append_right u List.mem_cons_self)) hsep

/-- No occurrence starts in the parameters exactly if none of them contains one. -/
theorem no_earlier_iff (hpat : AMP ∉ pat) : ∀ params : List Bytes,
    (∀ k < (paramsBefore params).length, ¬ pat <+: (paramsBefore params ++ t).drop k) ↔
      ∀ x ∈ params, ¬ pat <:+: x
  | [] => ⟨fun _ => nofun, fun _ k hk => absurd hk (Nat.not_lt_zero k)⟩
  | x :: params => by
      have ih := @no_earlier_iff hpat params
      have hcons : paramsBefore (x :: params) ++ t = x ++ AMP :: (paramsBefore params ++ t) := by
        simp [paramsBefore]
      have hlen : (paramsBefore (x :: params)).length =
          x.length + 1 + (paramsBefore params).length := by
        simp [paramsBefore]
        omega
      have hskip : ∀ k, (x ++ AMP :: (paramsBefore params ++ t)).drop (x.length + 1 + k) =
          (paramsBefore params ++ t).drop k := by
        intro k
        rw [Nat.add_assoc, List.drop_length_add_append, Nat.add_comm, List.drop_succ_cons]
      rw [hcons, hlen]
      constructor
      · intro h y hy
        rcases List.mem_cons.mp hy with rfl | hy
        · rintro ⟨u, v, rfl⟩
          refine h u.length ?_ ?_
          · simp only [List.length_append]
            omega
          · rw [List.append_assoc, List.append_assoc, List.drop_left]
            exact List.prefix_append _ _
        · refine ih.mp (fun k hk => ?_) y hy
          rw [← hskip k]
          exact h _ (by omega)
      · intro h k hk hmatch
        by_cases hin : k ≤ x.length
        · rw [List.drop_append_of_le_length hin] at hmatch
          have hprefix := prefix_of_prefix_append_cons hpat hmatch
          have hinto : pat <:+: x.drop k := List.IsPrefix.isInfix hprefix
          have hpart : x.drop k <:+: x := List.IsSuffix.isInfix (List.drop_suffix k x)
          exact h x List.mem_cons_self (hinto.trans hpart)
        · obtain ⟨j, rfl⟩ : ∃ j, k = x.length + 1 + j := ⟨k - (x.length + 1), by omega⟩
          rw [hskip j] at hmatch
          exact ih.mpr (fun y hy => h y (List.mem_cons_of_mem _ hy)) j (by omega) hmatch

/-- A pattern without the separator is looked for before it, and then behind it. -/
theorem afterFirst_append_cons {sep : UInt8} (hsep : sep ∉ pat) (hne : pat ≠ []) (u v : Bytes) :
    afterFirst pat (u ++ sep :: v) =
      match afterFirst pat u with
      | some rest => some (rest ++ sep :: v)
      | none => afterFirst pat v := by
  induction u with
  | nil =>
      have hfirst : ¬ pat.isPrefixOf (sep :: v) = true := by
        intro hprefix
        have hnil := prefix_of_prefix_append_cons (u := []) hsep (List.isPrefixOf_iff_prefix.mp hprefix)
        exact hne (List.prefix_nil.mp hnil)
      have hnil : afterFirst pat [] = none := if_neg hne
      rw [hnil, List.nil_append]
      show afterFirst pat (sep :: v) = afterFirst pat v
      rw [afterFirst, if_neg hfirst]
  | cons c cs ih =>
      rw [List.cons_append, afterFirst, afterFirst]
      by_cases hprefix : pat.isPrefixOf (c :: cs) = true
      · obtain ⟨rest, hrest⟩ := List.isPrefixOf_iff_prefix.mp hprefix
        have hlonger : pat.isPrefixOf (c :: (cs ++ sep :: v)) = true := by
          rw [List.isPrefixOf_iff_prefix, ← List.cons_append, ← hrest, List.append_assoc]
          exact List.prefix_append _ _
        rw [if_pos hprefix, if_pos hlonger, ← List.cons_append, ← hrest, List.append_assoc,
          List.drop_left, List.drop_left]
      · have hlonger : ¬ pat.isPrefixOf (c :: (cs ++ sep :: v)) = true := by
          intro hlonger
          apply hprefix
          rw [List.isPrefixOf_iff_prefix] at hlonger ⊢
          exact prefix_of_prefix_append_cons hsep hlonger
        rw [if_neg hprefix, if_neg hlonger]
        exact ih

theorem afterFirst_suffix (hne : pat ≠ []) {rest : Bytes} (h : afterFirst pat t = some rest) :
    rest <:+ t := by
  obtain ⟨before, rfl, -⟩ := (afterFirst_eq_some hne).mp h
  exact List.suffix_append _ _

/-- What follows a pattern, up to the next ampersand, follows it in the first of the
parameters that has it. -/
theorem afterFirst_intercalate (hpat : AMP ∉ pat) (hne : pat ≠ []) (params : List Bytes)
    (hclean : ∀ x ∈ params, AMP ∉ x) :
    (afterFirst pat ([AMP].intercalate params)).map (List.takeWhile (· != AMP)) =
      params.findSome? (afterFirst pat) := by
  have hwhole : ∀ {x rest : Bytes}, AMP ∉ x → afterFirst pat x = some rest →
      ∀ c ∈ rest, (c != AMP) = true := by
    intro x rest hx hrest c hc
    rw [bne_iff_ne]
    rintro rfl
    exact hx ((afterFirst_suffix hne hrest).subset hc)
  induction params with
  | nil => simp [afterFirst, hne]
  | cons x params ih =>
      have hx := hclean x List.mem_cons_self
      cases params with
      | nil =>
          rw [List.intercalate_singleton]
          cases hfirst : afterFirst pat x with
          | none => simp [hfirst]
          | some rest => simp [hfirst, List.takeWhile_eq_self_iff.mpr (hwhole hx hfirst)]
      | cons y params =>
          have hrest := ih fun z hz => hclean z (List.mem_cons_of_mem _ hz)
          rw [List.intercalate_cons_cons, List.append_assoc, List.singleton_append,
            afterFirst_append_cons hpat hne, List.findSome?_cons]
          cases hfirst : afterFirst pat x with
          | none => exact hrest
          | some rest =>
              simp [List.takeWhile_append_of_pos (hwhole hx hfirst)]

/-- Among other parameters a text that is no longer than the value of a key is found after the
key only if it is the value, the value comes last and nothing before it contains the key. -/
theorem afterFirst_params_iff {key value plain : Bytes} (hkey : AMP ∉ key) (hne : key ≠ [])
    {before after : List Bytes} (hlen : plain.length ≤ value.length) :
    afterFirst key (paramsBefore before ++ (key ++ (value ++ paramsAfter after))) = some plain ↔
      value = plain ∧ after = [] ∧ ∀ x ∈ before, ¬ key <:+: x := by
  have hlater : (∀ k < (paramsBefore before).length,
      ¬ key <+: (paramsBefore before ++ (key ++ (value ++ paramsAfter after))).drop k) ↔
        ∀ x ∈ before, ¬ key <:+: x := no_earlier_iff hkey before
  rw [afterFirst_eq_some hne, ← hlater]
  constructor
  · rintro ⟨front, hsplit, hfirst⟩
    have hle : front.length ≤ (paramsBefore before).length := by
      by_contra hgt
      refine hfirst (paramsBefore before).length (by omega) ?_
      rw [List.drop_left]
      exact List.prefix_append _ _
    have hsizes := congrArg List.length hsplit
    simp only [List.length_append] at hsizes
    have hnone : (paramsAfter after).length = 0 := by omega
    have hafter : after = [] := by
      cases after with
      | nil => rfl
      | cons x after => simp [paramsAfter] at hnone
    subst hafter
    rw [List.append_assoc] at hsplit
    obtain ⟨rfl, hrest⟩ := List.append_inj hsplit (by omega)
    have hvalue := List.append_cancel_left hrest
    rw [paramsAfter, List.flatMap_nil, List.append_nil] at hvalue
    exact ⟨hvalue, rfl, hfirst⟩
  · rintro ⟨rfl, rfl, hfirst⟩
    refine ⟨paramsBefore before, ?_, hfirst⟩
    rw [paramsAfter, List.flatMap_nil, List.append_nil, List.append_assoc]

end Params

end Lib
