import SolarDrive.Lib.Bytes

/-!
# Paths read as text

A path is split at its slashes. `normalise` reads it the way a system without
symbolic links does: up to the first NUL, an empty part and `.` are skipped,
and `..` takes back the part before it. A relative path keeps the `..` it
cannot take back; an absolute one drops them.
-/

namespace Lib

/-- A part never contains the character it was split at. -/
theorem not_mem_of_mem_splitOn {c : UInt8} : ∀ {s part : Bytes}, part ∈ s.splitOn c → c ∉ part
  | [], part, h => by
      rw [List.splitOn_nil, List.mem_singleton] at h
      rw [h]
      exact List.not_mem_nil
  | x :: xs, part, h => by
      rw [List.splitOn_cons_eq_if_modifyHead] at h
      split at h
      · rcases List.mem_cons.mp h with rfl | h
        · exact List.not_mem_nil
        · exact not_mem_of_mem_splitOn h
      · rename_i hx
        have hxc : ¬ c = x := fun e => hx (by rw [e]; exact beq_self_eq_true x)
        cases hs : xs.splitOn c with
        | nil => exact absurd hs (List.splitOn_ne_nil c xs)
        | cons p ps =>
            have ih : ∀ q ∈ xs.splitOn c, c ∉ q := fun q hq => not_mem_of_mem_splitOn hq
            rw [hs] at h ih
            rcases List.mem_cons.mp h with rfl | h
            · exact fun hm => (List.mem_cons.mp hm).elim hxc (ih p List.mem_cons_self)
            · exact ih part (List.mem_cons_of_mem _ h)

theorem infix_intercalate (sep : Bytes) {part : Bytes} : ∀ {parts : List Bytes}, part ∈ parts →
    part <:+: sep.intercalate parts
  | [], h => absurd h List.not_mem_nil
  | [p], h => by
      rw [List.mem_singleton.mp h]
      exact ⟨[], [], by simp⟩
  | p :: q :: ps, h => by
      rw [List.intercalate_cons_cons]
      rcases List.mem_cons.mp h with rfl | h
      · exact ⟨[], sep ++ sep.intercalate (q :: ps), by simp⟩
      · obtain ⟨before, after, hin⟩ := infix_intercalate sep h
        exact ⟨p ++ sep ++ before, after, by rw [← hin]; simp⟩

/-- A part is a piece of the text. -/
theorem infix_of_mem_splitOn {c : UInt8} {s part : Bytes} (h : part ∈ s.splitOn c) : part <:+: s := by
  have hin := infix_intercalate [c] h
  rwa [List.intercalate_splitOn] at hin

/-- The name of the directory above. -/
abbrev DOTS : Bytes := [DOT, DOT]

/-- A path with nothing left to resolve. -/
structure LexicalPath where
  absolute : Bool
  parts : List Bytes
deriving DecidableEq, Repr

namespace LexicalPath

/-- One part of the text; the parts resolved so far are kept last first. -/
def push (absolute : Bool) (stack : List Bytes) (part : Bytes) : List Bytes :=
  if part = [] ∨ part = [DOT] then stack
  else if part = DOTS then
    match stack with
    | [] => if absolute then [] else [DOTS]
    | top :: below => if top = DOTS then DOTS :: top :: below else below
  else part :: stack

/-- The text up to its first NUL, resolved from left to right. -/
def normalise (text : Bytes) : LexicalPath where
  absolute := (cstr text).head? = some SLASH
  parts := (((cstr text).splitOn SLASH).foldl
    (push ((cstr text).head? = some SLASH)) []).reverse

/-- A path is the root itself or is reached from it without going up. -/
def Below (root path : LexicalPath) : Prop :=
  path.absolute = root.absolute ∧ ∃ rest, path.parts = root.parts ++ rest ∧ DOTS ∉ rest

theorem below_refl (p : LexicalPath) : Below p p :=
  ⟨rfl, [], (List.append_nil p.parts).symm, List.not_mem_nil⟩

/-- A NUL in the text hides what is written behind it. -/
theorem normalise_append_of_mem {text : Bytes} (h : NUL ∈ text) (rest : Bytes) :
    normalise (text ++ rest) = normalise text := by
  have hcut : cstr (text ++ rest) = cstr text := by
    unfold cstr
    rw [List.takeWhile_append, if_neg]
    intro hlen
    have hall : cstr text = text := (List.takeWhile_prefix _).eq_of_length hlen
    exact not_mem_cstr text (hall.symm ▸ h)
  unfold normalise
  rw [hcut]

/-- A part other than `..` adds at most itself. -/
theorem push_of_ne_dots (absolute : Bool) (stack : List Bytes) {part : Bytes} (h : part ≠ DOTS) :
    push absolute stack part = stack ∨ push absolute stack part = part :: stack := by
  unfold push
  rw [if_neg h]
  split
  · exact .inl rfl
  · exact .inr rfl

/-- **Parts without `..` only go down:** they leave what was resolved before. -/
theorem foldl_push (absolute : Bool) : ∀ {parts : List Bytes} (stack : List Bytes), DOTS ∉ parts →
    ∃ added, parts.foldl (push absolute) stack = added ++ stack ∧ DOTS ∉ added
  | [], stack, _ => ⟨[], rfl, List.not_mem_nil⟩
  | part :: parts, stack, h => by
      have hpart : part ≠ DOTS := fun e => h (e ▸ List.mem_cons_self)
      have hparts : DOTS ∉ parts := fun hm => h (List.mem_cons_of_mem _ hm)
      obtain ⟨added, hfold, hadded⟩ := foldl_push absolute (push absolute stack part) hparts
      rw [List.foldl_cons, hfold]
      rcases push_of_ne_dots absolute stack hpart with hp | hp
      · exact ⟨added, by rw [hp], hadded⟩
      · refine ⟨added ++ [part], by rw [hp, List.append_assoc]; rfl, fun hm => ?_⟩
        rcases List.mem_append.mp hm with hm | hm
        · exact hadded hm
        · exact hpart (List.mem_singleton.mp hm).symm

theorem cstr_append_slash {dir : Bytes} (hdir : NUL ∉ dir) (rel : Bytes) :
    cstr (dir ++ SLASH :: rel) = dir ++ SLASH :: cstr rel := by
  unfold cstr
  rw [List.takeWhile_append_of_pos, List.takeWhile_cons_of_pos]
  · decide
  · intro c hc
    have hcn : c ≠ NUL := fun e => hdir (e ▸ hc)
    simpa using hcn

/-- A directory's text, a slash and more: the directory is resolved first. -/
theorem parts_append_slash {dir : Bytes} (hdir : NUL ∉ dir) (rel : Bytes) :
    (normalise (dir ++ SLASH :: rel)).parts =
      (((cstr rel).splitOn SLASH).foldl (push ((dir ++ [SLASH]).head? = some SLASH))
        ((dir.splitOn SLASH).foldl (push ((dir ++ [SLASH]).head? = some SLASH)) [])).reverse := by
  show ((List.splitOn SLASH (cstr (dir ++ SLASH :: rel))).foldl _ []).reverse = _
  rw [cstr_append_slash hdir, List.splitOn_append_cons_self, List.foldl_append]
  cases dir <;> rfl

/-- A slash at the end of a directory's text is nothing. -/
theorem normalise_append_slash {dir : Bytes} (hdir : NUL ∉ dir) (hne : dir ≠ []) :
    normalise (dir ++ [SLASH]) = normalise dir := by
  have hhead : (dir ++ [SLASH]).head? = dir.head? := by
    cases dir with
    | nil => exact absurd rfl hne
    | cons c cs => rfl
  -- the empty part behind the slash is skipped
  have hparts : (normalise (dir ++ [SLASH])).parts = (normalise dir).parts := by
    rw [parts_append_slash hdir, hhead]
    show _ = ((List.splitOn SLASH (cstr dir)).foldl (push ((cstr dir).head? = some SLASH)) []).reverse
    rw [cstr_of_not_mem hdir]
    rfl
  have habsolute : (normalise (dir ++ [SLASH])).absolute = (normalise dir).absolute := by
    show decide ((cstr (dir ++ [SLASH])).head? = some SLASH) = _
    rw [cstr_append_slash hdir []]
    show decide ((dir ++ [SLASH]).head? = some SLASH) = decide ((cstr dir).head? = some SLASH)
    rw [hhead, cstr_of_not_mem hdir]
  cases hl : normalise (dir ++ [SLASH]) with
  | mk absolute parts =>
      rw [hl] at hparts habsolute
      dsimp only at hparts habsolute
      rw [hparts, habsolute]

/-- **What is written behind a directory and a slash lies below it**, unless
one of its parts is `..`. -/
theorem below_append {dir rel : Bytes} (hdir : NUL ∉ dir) (hrel : DOTS ∉ (cstr rel).splitOn SLASH) :
    Below (normalise (dir ++ [SLASH])) (normalise (dir ++ SLASH :: rel)) := by
  obtain ⟨added, hadded, hdots⟩ := foldl_push ((dir ++ [SLASH]).head? = some SLASH)
    ((dir.splitOn SLASH).foldl (push ((dir ++ [SLASH]).head? = some SLASH)) []) hrel
  refine ⟨?_, added.reverse, ?_, fun hm => hdots (List.mem_reverse.mp hm)⟩
  · show decide ((cstr (dir ++ SLASH :: rel)).head? = some SLASH)
      = decide ((cstr (dir ++ [SLASH])).head? = some SLASH)
    rw [cstr_append_slash hdir, cstr_append_slash hdir []]
    cases dir <;> rfl
  · rw [parts_append_slash hdir rel, parts_append_slash hdir [], hadded, List.reverse_append]
    rfl

end LexicalPath

end Lib
