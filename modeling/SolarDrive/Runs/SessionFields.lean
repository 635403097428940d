import SolarDrive.Runs.UploadParts

/-!
# The two arrays of a session

`part_hashes` and `uploaded` describe the same parts in two fields, which are
written by two commands and read by two commands, the hashes first. Their lengths
always agree. A part can be flagged as uploaded in what a load puts together, and have no hash.

`arrays_agree` shows what it takes: if no request writes the hashes back from a copy that lacks
one that Redis has, and the flags change only while nobody is between its two reads with hashes
that Redis has no more (`InStep`), every load has a hash for each part that it has as uploaded.
-/

namespace SolarDrive.Runs

open Lib Http Api Metadata Prog

/-! ## The hashes come first -/

section Order

variable {svc : Services} {uploadId : Bytes} {log : Log}

def Unread (uploadId : Bytes) (log : Log) : Prop := ∀ t, ¬ ReadIn uploadId log "uploaded" t

/-- The flags are read once and after the hashes, and not written before them. -/
structure HashesFirst (uploadId : Bytes) (log : Log) (c : Call) : Prop where
  reads : c = .hget (sessionKey uploadId) (ascii "part_hashes") ∨
    c = .hget (sessionKey uploadId) (ascii "uploaded") → Unread uploadId log
  writes : ∀ v, c = .hset (sessionKey uploadId) (ascii "uploaded") v →
    WrittenIn uploadId log "part_hashes"

abbrev ordered (uploadId : Bytes) : Interface Call Call.Resp Exn Log :=
  logInterface (HashesFirst uploadId) fun _ _ => True

theorem Unread.append (h : Unread uploadId log) {c : Call} (r : Except Exn c.Resp)
    (hc : c ≠ .hget (sessionKey uploadId) (ascii "uploaded")) : Unread uploadId (log ++ [⟨c, r⟩]) := by
  intro t hread
  rcases List.mem_append.mp hread with hold | hnew
  · exact h t hold
  · cases List.mem_singleton.mp hnew
    exact hc rfl

/-- Not the calls that have an order. -/
structure Unordered (uploadId : Bytes) (c : Call) : Prop where
  hashes : c ≠ .hget (sessionKey uploadId) (ascii "part_hashes")
  flags : c ≠ .hget (sessionKey uploadId) (ascii "uploaded")
  writes : ∀ v, c ≠ .hset (sessionKey uploadId) (ascii "uploaded") v

theorem Unordered.first {c : Call} (hc : Unordered uploadId c) : HashesFirst uploadId log c :=
  ⟨fun heq => absurd heq (not_or.mpr ⟨hc.hashes, hc.flags⟩), fun v heq => absurd heq (hc.writes v)⟩

theorem unordered_hget {key : Bytes} {field : String} (hne : ascii field ≠ ascii "part_hashes")
    (hne' : ascii field ≠ ascii "uploaded") : Unordered uploadId (.hget key (ascii field)) :=
  ⟨fun heq => hne (Call.hget.inj heq).2, fun heq => hne' (Call.hget.inj heq).2, fun _ => nofun⟩

theorem ordered_before {α : Type} {p : App α} (h : Unread uploadId log)
    (hp : p.CallsOnly (Unordered uploadId)) :
    p.wp (ordered uploadId) (fun _ log' => Unread uploadId log') log := by
  refine wp_of_callsOnly (Unread uploadId) (fun log' c hc hlog => ⟨hc.first, ?_⟩) hp h
  rintro r _ ⟨-, rfl⟩
  exact hlog.append r hc.flags

theorem ordered_after {α : Type} {p : App α} (hp : p.CallsOnly (Unordered uploadId)) :
    p.wp (ordered uploadId) (fun _ _ => True) log :=
  wp_of_callsOnly (fun _ => True) (fun _ _ hc _ => ⟨hc.first, fun _ _ _ => trivial⟩) hp trivial

/-- Before the flags are read, an array may be read; after it they are unread if it was not the
flags. -/
theorem ordered_arrayField {α : Type} {field : String} {elem : Json → Except Bytes α}
    (h : Unread uploadId log) : (arrayField (sessionKey uploadId) field elem).wp (ordered uploadId)
      (fun _ log' => ascii field ≠ ascii "uploaded" → Unread uploadId log') log := by
  have hother : ascii field ≠ ascii "uploaded" →
      Call.hget (sessionKey uploadId) (ascii field) ≠
        .hget (sessionKey uploadId) (ascii "uploaded") :=
    fun hne heq => hne (Call.hget.inj heq).2
  refine wp_request_bind ⟨fun _ => h, fun _ => nofun⟩ ?_ ?_
  · rintro text _ ⟨-, rfl⟩
    refine wp_of_callsOnly (S := Unordered uploadId)
      (fun log' => ascii field ≠ ascii "uploaded" → Unread uploadId log')
      (fun log' c hc hlog => ⟨hc.first, ?_⟩) ?_ fun hne => h.append (.ok text) (hother hne)
    · rintro r _ ⟨-, rfl⟩ hne
      exact (hlog hne).append r hc.flags
    · cases text with
      | none => exact callsOnly_pure _
      | some t =>
          dsimp only
          split
          · exact callsOnly_pure _
          · exact callsOnly_bind (callsOnly_request ⟨nofun, nofun, fun _ => nofun⟩) fun _ =>
              callsOnly_ofJson _
  · rintro e _ ⟨-, rfl⟩ hne
    exact h.append (.error e) (hother hne)

theorem ordered_loadFromRedis (h : Unread uploadId log) :
    (loadFromRedis svc uploadId).wp (ordered uploadId) (fun _ _ => True) log := by
  unfold loadFromRedis
  split
  swap
  · trivial
  have hnext : ∀ {α β : Type} {p : App α} {f : α → App β} {log : Log}, Unread uploadId log →
      p.CallsOnly (Unordered uploadId) →
      (∀ a log, Unread uploadId log → (f a).wp (ordered uploadId) (fun _ _ => True) log) →
      (p >>= f).wp (ordered uploadId) (fun _ _ => True) log :=
    fun hlog hp hf => wp_seq (ordered_before hlog hp) hf fun _ _ _ => trivial
  have hask : ∀ field : String, ascii field ≠ ascii "part_hashes" →
      ascii field ≠ ascii "uploaded" →
      (ask (.hget (sessionKey uploadId) (ascii field))).CallsOnly (Unordered uploadId) :=
    fun field hne hne' => callsOnly_request (unordered_hget hne hne')
  refine hnext h (hask "file_name" (by decide) (by decide)) fun fileName log₁ h₁ => ?_
  cases fileName with
  | none => trivial
  | some name =>
      refine hnext h₁ (hask "mime_type" (by decide) (by decide)) fun mime log₂ h₂ => ?_
      refine hnext h₂ (hask "user_id" (by decide) (by decide)) fun user log₃ h₃ => ?_
      refine hnext h₃ (hask "folder_id" (by decide) (by decide)) fun folder log₄ h₄ => ?_
      refine hnext h₄ (callsOnly_numberField (unordered_hget (by decide) (by decide)) _ _ _)
        fun total log₅ h₅ => ?_
      refine hnext h₅ (callsOnly_numberField (unordered_hget (by decide) (by decide)) _ _ _)
        fun size log₆ h₆ => ?_
      refine hnext h₆ (callsOnly_numberField (unordered_hget (by decide) (by decide)) _ _ _)
        fun count log₇ h₇ => ?_
      refine wp_seq (ordered_arrayField h₇) (fun hs log₈ h₈ => ?_) fun _ _ _ => trivial
      exact wp_seq (ordered_arrayField (h₈ (by decide))) (fun _ _ _ => trivial) fun _ _ _ => trivial

theorem ordered_loadRequest : (loadRequest svc uploadId).wp (ordered uploadId)
    (fun _ _ => True) [] :=
  wp_seq (ordered_loadFromRedis fun _ hread => absurd hread List.not_mem_nil)
    (fun _ _ _ => trivial) fun _ _ _ => trivial

/-- Fields are written in an order that has the hashes before the flags, or the hashes have
been written before. -/
theorem ordered_hsetAll {key : Bytes} : ∀ (fields : List (Bytes × Bytes)) {log : Log},
    (key = sessionKey uploadId → WrittenIn uploadId log "part_hashes" ∨
      ascii "uploaded" ∉ (fields.map Prod.fst).takeWhile fun f => f ≠ ascii "part_hashes") →
    (hsetAll key fields).wp (ordered uploadId) (fun _ _ => True) log
  | [], _, _ => trivial
  | (field, value) :: rest, log, h => by
      have hfirst : field ≠ ascii "part_hashes" → ascii "uploaded" ∉
          ((field :: rest.map Prod.fst).takeWhile fun f => f ≠ ascii "part_hashes") →
          field ≠ ascii "uploaded" ∧ ascii "uploaded" ∉
            (rest.map Prod.fst).takeWhile fun f => f ≠ ascii "part_hashes" := by
        intro hne hnone
        rw [List.takeWhile_cons_of_pos (by simpa using hne), List.mem_cons, not_or] at hnone
        exact ⟨Ne.symm hnone.1, hnone.2⟩
      have hpre : HashesFirst uploadId log (.hset key field value) := by
        refine ⟨fun heq => ?_, fun v heq => ?_⟩
        · rcases heq with heq | heq <;> cases heq
        obtain ⟨hkey, rfl, -⟩ := Call.hset.inj heq
        exact (h hkey).resolve_right fun hnone => (hfirst (by decide) hnone).1 rfl
      refine wp_request_bind hpre ?_ fun _ _ _ => trivial
      rintro ok _ ⟨-, rfl⟩
      refine ordered_hsetAll rest fun hkey => ?_
      by_cases hfield : field = ascii "part_hashes"
      · subst hfield hkey
        exact .inl ⟨value, .ok ok, List.mem_append_right log List.mem_cons_self⟩
      · rcases h hkey with ⟨v, r, hmem⟩ | hnone
        · exact .inl ⟨v, r, List.mem_append_left _ hmem⟩
        · exact .inr (hfirst hfield hnone).2

/-- A request for a part, after it has loaded the session. -/
theorem ordered_storePart (session : MultipartSession) (partNum : Int) (body : Bytes) :
    (storePart svc session partNum body).wp (ordered uploadId) (fun _ _ => True) log := by
  have hany : ∀ {α β : Type} {p : App α} {f : α → App β} {log : Log},
      p.wp (ordered uploadId) (fun _ _ => True) log →
      (∀ a log, (f a).wp (ordered uploadId) (fun _ _ => True) log) →
      (p >>= f).wp (ordered uploadId) (fun _ _ => True) log :=
    fun hp hf => wp_seq hp (fun a log _ => hf a log) fun _ _ _ => trivial
  have hcall : ∀ {c : Call} {log : Log}, Unordered uploadId c →
      (ask c).wp (ordered uploadId) (fun _ _ => True) log :=
    fun hc => ordered_after (callsOnly_request hc)
  refine hany (hcall ⟨nofun, nofun, fun _ => nofun⟩) fun hash log₁ => ?_
  refine hany ?_ fun _ log₂ => ?_
  · unfold saveToRedis
    split
    swap
    · trivial
    refine hany (ordered_after (callsOnly_ofJson _)) fun hashes log₂ => ?_
    refine hany (ordered_after (callsOnly_ofJson _)) fun flags log₃ => ?_
    have hkeys : ascii "uploaded" ∉ ((sessionFields (session.record partNum hash) hashes
        flags).map Prod.fst).takeWhile (fun f => f ≠ ascii "part_hashes") := by
      unfold sessionFields
      simp only [List.map_cons, List.map_nil]
      decide
    refine hany (ordered_hsetAll _ fun _ => .inr hkeys) fun _ log₄ => ?_
    exact hany (hcall ⟨nofun, nofun, fun _ => nofun⟩) fun _ log₅ => trivial
  · exact hany (hcall ⟨nofun, nofun, fun _ => nofun⟩) fun _ log₃ =>
      ordered_after (callsOnly_bind (callsOnly_ofJson _) fun _ => callsOnly_pure _)

theorem ordered_partRequest {req : HttpRequest}
    (hid : req.getPathParam (ascii "upload_id") = uploadId) :
    (partRequest svc req).wp (ordered uploadId) (fun _ _ => True) [] := by
  have hempty : Unread uploadId [] := fun _ hread => absurd hread List.not_mem_nil
  have hrefused : ∀ {log : Log} (code : Int) (msg : Bytes),
      (svc.setError code msg).wp (ordered uploadId) (fun _ _ => True) log :=
    fun code msg => ordered_after (callsOnly_ofJson _)
  refine wp_seq (M := fun _ _ => True) ?_ (fun _ _ _ => trivial) fun _ _ _ => trivial
  refine wp_catch (M := fun _ _ => True) ?_ (fun _ _ _ => trivial) fun _ _ _ => hrefused _ _
  split
  · exact hrefused _ _
  dsimp only
  rw [hid]
  split
  · exact hrefused _ _
  cases stoi (req.getPathParam (ascii "part_num")) with
  | error e => trivial
  | ok n =>
      show (if req.body = [] then _ else _ : App HttpResponse).wp _ _ _
      split
      · exact hrefused _ _
      refine wp_seq (M := fun _ _ => True) ?_ (fun found _ _ => ?_) fun _ _ _ => trivial
      · refine wp_seq (ordered_loadFromRedis hempty) (fun session _ _ => ?_) fun _ _ _ => trivial
        split
        · exact wp_seq (hrefused _ _) (fun _ _ _ => trivial) fun _ _ _ => trivial
        · split
          · exact wp_seq (hrefused _ _) (fun _ _ _ => trivial) fun _ _ _ => trivial
          · trivial
      cases found with
      | error resp => trivial
      | ok session =>
          dsimp only
          split
          · exact hrefused _ _
          · split
            · exact hrefused _ _
            · exact ordered_storePart session n req.body

end Order

/-! ## The run -/

section Run

variable {ι : Type} (svc : Services) (uploadId : Bytes) (count : Nat) (reqs : ι → HttpRequest)

/-- The process is between its two reads. -/
def Between (log : Log) (t : Bytes) : Prop :=
  ReadIn uploadId log "part_hashes" t ∧ Unread uploadId log

/-- What may be written to the arrays of the session. -/
structure InStep (w : World) (P : Pool ι Call Call.Resp Exn Reply) (j : ι) (c : Call)
    (_ : World) : Prop where
  /-- The hashes are written back from a copy that has the other hashes that Redis has. -/
  hashes : ∀ v, c = .hset (sessionKey uploadId) (ascii "part_hashes") v → ∀ now t old t',
    HashText svc now t → hget w (sessionKey uploadId) (ascii "part_hashes") = some t →
    HashText svc old t' → ReadIn uploadId (P j).log "part_hashes" t' →
    ∀ i, i ≠ partIndex (reqs j) → now.getD i [] ≠ [] → old.getD i [] ≠ []
  /-- While the flags change, nobody is between its two reads, unless Redis still has the
  hashes that it has read. -/
  flags : ∀ v, c = .hset (sessionKey uploadId) (ascii "uploaded") v →
    hget w (sessionKey uploadId) (ascii "uploaded") ≠ some v →
    ∀ l t, Between uploadId (P l).log t →
      hget w (sessionKey uploadId) (ascii "part_hashes") = some t

/-- Each part with a flag has a hash. -/
def Agree (hs : List Bytes) (fs : List Bool) : Prop :=
  ∀ i, fs.getD i false = true → hs.getD i [] ≠ []

/-- What a load puts together. -/
def LoadEnds (r : Except Exn Reply) (log : Log) : Prop :=
  ∀ session, r = .ok (.loaded session) → session.uploadId = [] ∨
    Loaded svc uploadId count session log

/-- The invariant: the hashes in Redis have every part that is flagged there or in a copy of
the flags, and so have those of a process between its two reads. -/
structure FieldsSafe (w : World) (P : Pool ι Call Call.Resp Exn Reply) (hs : List Bytes)
    (fs : List Bool) : Prop where
  session : SessionSound svc uploadId count w hs fs
  agree : Agree hs fs
  written : ∀ j, WrittenIn uploadId (P j).log "part_hashes" → hs.getD (partIndex (reqs j)) [] ≠ []
  flagged : ∀ j fs' t, FlagText svc fs' t → ReadIn uploadId (P j).log "uploaded" t → Agree hs fs'
  between : ∀ j hs' t, HashText svc hs' t → Between uploadId (P j).log t → Agree hs' fs
  copies : ∀ j hs' t fs' t', HashText svc hs' t → ReadIn uploadId (P j).log "part_hashes" t →
    FlagText svc fs' t' → ReadIn uploadId (P j).log "uploaded" t' → Agree hs' fs'
  follows : ∀ j, Follows (partDisciplined svc uploadId count (partIndex (reqs j)) (reqs j).body)
    (PartExpected svc uploadId count) (LoadEnds svc uploadId count) (P j)
  order : ∀ j, Follows (HashesFirst uploadId) (fun _ _ => True) (fun _ _ => True) (P j)

variable {svc uploadId count reqs} {pg : Postgres} {w w' : World}
  {P : Pool ι Call Call.Resp Exn Reply} {hs : List Bytes} {fs : List Bool} [DecidableEq ι]

/-- Hashes that are written back from a copy with the other ones of Redis lose none. -/
theorem setHash_keeps {old : List Bytes} {n : Nat} {hash : Bytes} (hlt : n < old.length)
    (hhash : hash ≠ []) (hold : ∀ i, i ≠ n → hs.getD i [] ≠ [] → old.getD i [] ≠ []) (i : Nat)
    (hi : hs.getD i [] ≠ []) : (old.set n hash).getD i [] ≠ [] := by
  by_cases hin : i = n
  · rw [hin, getD_set_self hlt]
    exact hhash
  · rw [getD_set_ne hin]
    exact hold i hin hi

theorem Agree.mono {hs' : List Bytes} (h : Agree hs fs)
    (hkeep : ∀ i, hs.getD i [] ≠ [] → hs'.getD i [] ≠ []) : Agree hs' fs :=
  fun i hi => hkeep i (h i hi)

theorem Agree.setFlag {old : List Bool} {n : Nat} (h : Agree hs old) (hn : hs.getD n [] ≠ []) :
    Agree hs (old.set n true) := by
  intro i hi
  by_cases hin : i = n
  · rw [hin]
    exact hn
  · rw [getD_set_ne hin] at hi
    exact h i hi

/-- The processes go on as their programs say. -/
theorem FieldsSafe.advance {i : ι} {c : Call} {k : Except Exn c.Resp → App Reply}
    {r : Except Exn c.Resp} (hsafe : FieldsSafe svc uploadId count reqs w P hs fs)
    (hp : (P i).prog = .call c k) (hexec : exec svc pg c w = (r, w')) :
    (∀ j, Follows (partDisciplined svc uploadId count (partIndex (reqs j)) (reqs j).body)
      (PartExpected svc uploadId count) (LoadEnds svc uploadId count) (P.advance i c r (k r) j)) ∧
    ∀ j, Follows (HashesFirst uploadId) (fun _ _ => True) (fun _ _ => True)
      (P.advance i c r (k r) j) :=
  ⟨Follows.advance hsafe.follows hp (partExpected_of_exec hsafe.session hexec),
    Follows.advance hsafe.order hp trivial⟩

/-- The arrays that Redis has after a step, where the copies of the processes are as before. -/
theorem FieldsSafe.write {i : ι} {c : Call} {k : Except Exn c.Resp → App Reply}
    {r : Except Exn c.Resp} {hs' : List Bytes} {fs' : List Bool}
    (hsafe : FieldsSafe svc uploadId count reqs w P hs fs)
    (hp : (P i).prog = .call c k) (hexec : exec svc pg c w = (r, w'))
    (hread : ∀ field, c ≠ .hget (sessionKey uploadId) field)
    (hsession : SessionSound svc uploadId count w' hs' fs') (hagree : Agree hs' fs')
    (hkeep : ∀ x, hs.getD x [] ≠ [] → hs'.getD x [] ≠ [])
    (hown : ∀ v, c = .hset (sessionKey uploadId) (ascii "part_hashes") v →
      hs'.getD (partIndex (reqs i)) [] ≠ [])
    (hbetween : ∀ j hs₁ t, HashText svc hs₁ t → Between uploadId (P j).log t → Agree hs₁ fs') :
    FieldsSafe svc uploadId count reqs w' (P.advance i c r (k r)) hs' fs' := by
  obtain ⟨hfollows, horder⟩ := hsafe.advance hp hexec
  have hold : ∀ {j f t}, ReadIn uploadId (P.advance i c r (k r) j).log f t →
      ReadIn uploadId (P j).log f t := by
    intro j f t hmem
    rcases Pool.mem_log_advance.mp hmem with hold | ⟨-, heq⟩
    · exact hold
    · cases heq
      exact absurd rfl (hread _)
  refine ⟨hsession, hagree, ?_, ?_, ?_, ?_, hfollows, horder⟩
  · rintro j ⟨v, r', hmem⟩
    rcases Pool.mem_log_advance.mp hmem with hmem | ⟨rfl, heq⟩
    · exact hkeep _ (hsafe.written j ⟨v, r', hmem⟩)
    · cases heq
      exact hown v rfl
  · exact fun j fs₁ t hf hr => (hsafe.flagged j fs₁ t hf (hold hr)).mono hkeep
  · rintro j hs₁ t hh ⟨hr, hunread⟩
    refine hbetween j hs₁ t hh ⟨hold hr, fun t' ht' => hunread t' ?_⟩
    exact Pool.mem_log_advance.mpr (.inl ht')
  · exact fun j hs₁ t fs₁ t' hh hr hf hr' => hsafe.copies j hs₁ t fs₁ t' hh (hold hr) hf (hold hr')

theorem fieldsSafe_hset {i : ι} {field value : Bytes} {k : Except Exn Bool → App Reply}
    {r : Except Exn Bool} (hjson : svc.json.Lawful) (hne : ∀ d, svc.sha256 d ≠ [])
    (hsafe : FieldsSafe svc uploadId count reqs w P hs fs)
    (hp : (P i).prog = .call (.hset (sessionKey uploadId) field value) k)
    (hexec : exec svc pg (.hset (sessionKey uploadId) field value) w = (r, w'))
    (hcond : InStep svc uploadId reqs w P i (.hset (sessionKey uploadId) field value) w') :
    ∃ hs' fs', FieldsSafe svc uploadId count reqs w'
      (P.advance i (.hset (sessionKey uploadId) field value) r (k r)) hs' fs' := by
  have hexec' := hexec
  obtain rfl : (Metadata.hset (sessionKey uploadId) field value w).2 = w' := congrArg Prod.snd hexec
  have hread : ∀ f, Call.hset (sessionKey uploadId) field value ≠ .hget (sessionKey uploadId) f :=
    fun _ => nofun
  have hself : ∀ v, Call.hset (sessionKey uploadId) field value =
      .hset (sessionKey uploadId) (ascii "part_hashes") v → field = ascii "part_hashes" :=
    fun v heq => (Call.hset.inj heq).2.1
  obtain ⟨-, -, ⟨-, t, ht, htext⟩, -, t', ht', htext'⟩ := id hsafe.session
  rcases hsafe.session.hset hjson ((hsafe.follows i).pre_call hp) with
    ⟨old, told, rfl, -, hold, hreadold, hlt, hsession⟩ |
    ⟨old, told, rfl, hold, hreadold, -, hvalue, hsession⟩ | ⟨hother, -, hsession⟩
  · -- the hashes: none of those of Redis is lost
    have hkeep := setHash_keeps hlt (hne (reqs i).body)
      (hcond.hashes value rfl hs t old told ht htext hold hreadold)
    refine ⟨_, fs, hsafe.write hp hexec' hread hsession (hsafe.agree.mono hkeep) hkeep ?_
      hsafe.between⟩
    intro _ _
    rw [getD_set_self hlt]
    exact hne _
  · -- the flags: its own part and those of its copy have their hashes
    have hown := hsafe.written i (((hsafe.order i).pre_call hp).writes value rfl)
    have hagree := (hsafe.flagged i old told hold hreadold).setFlag hown
    refine ⟨hs, _, hsafe.write hp hexec' hread hsession hagree (fun _ hx => hx)
      (fun v heq => absurd (hself v heq) (by decide)) ?_⟩
    intro j hs₁ t₁ hh hbetween
    by_cases hsame : hget w (sessionKey uploadId) (ascii "uploaded") = some value
    · rw [htext', Option.some.injEq] at hsame
      subst hsame
      rw [flagText_injective hjson hvalue ht']
      exact hsafe.between j hs₁ t₁ hh hbetween
    · have hnow := hcond.flags value rfl hsame j t₁ hbetween
      rw [htext, Option.some.injEq] at hnow
      subst hnow
      rw [hashText_injective hjson hh ht]
      exact hagree
  · exact ⟨hs, fs, hsafe.write hp hexec' hread hsession hsafe.agree (fun _ hx => hx)
      (fun v heq => absurd (hself v heq) hother) hsafe.between⟩

/-- What is read is what Redis has. -/
theorem FieldsSafe.read {i : ι} {field : Bytes} {k : Except Exn (Option Bytes) → App Reply}
    {r : Except Exn (Option Bytes)} (hjson : svc.json.Lawful)
    (hsafe : FieldsSafe svc uploadId count reqs w P hs fs)
    (hp : (P i).prog = .call (.hget (sessionKey uploadId) field) k)
    (hexec : exec svc pg (.hget (sessionKey uploadId) field) w = (r, w')) :
    FieldsSafe svc uploadId count reqs w'
      (P.advance i (.hget (sessionKey uploadId) field) r (k r)) hs fs := by
  obtain ⟨hfollows, horder⟩ := hsafe.advance hp hexec
  obtain rfl : w = w' := congrArg Prod.snd hexec
  have hnow : ∀ {f : String} {t}, field = ascii f → r = .ok (some t) →
      hget w (sessionKey uploadId) (ascii f) = some t := by
    rintro f t rfl rfl
    exact Except.ok.inj (congrArg Prod.fst hexec)
  obtain ⟨-, -, ⟨-, u, hu, htext⟩, -, u', hu', htext'⟩ := id hsafe.session
  have hhash : ∀ {hs₁ t}, HashText svc hs₁ t → field = ascii "part_hashes" → r = .ok (some t) →
      hs₁ = hs := by
    intro hs₁ t hh hfield hr
    have hsame := hnow hfield hr
    rw [htext, Option.some.injEq] at hsame
    subst hsame
    exact hashText_injective hjson hh hu
  have hflag : ∀ {fs₁ t}, FlagText svc fs₁ t → field = ascii "uploaded" → r = .ok (some t) →
      fs₁ = fs := by
    intro fs₁ t hf hfield hr
    have hsame := hnow hfield hr
    rw [htext', Option.some.injEq] at hsame
    subst hsame
    exact flagText_injective hjson hf hu'
  have hunread : ∀ {j t}, Unread uploadId
      (P.advance i (.hget (sessionKey uploadId) field) r (k r) j).log →
      ¬ ReadIn uploadId (P j).log "uploaded" t :=
    fun h hmem => h _ (Pool.mem_log_advance.mpr (.inl hmem))
  refine ⟨hsafe.session, hsafe.agree, ?_, ?_, ?_, ?_, hfollows, horder⟩
  · rintro j ⟨v, r', hmem⟩
    rcases Pool.mem_log_advance.mp hmem with hmem | ⟨-, heq⟩
    · exact hsafe.written j ⟨v, r', hmem⟩
    · cases heq
  · intro j fs₁ t hf hr
    rcases Pool.mem_log_advance.mp hr with hold | ⟨-, heq⟩
    · exact hsafe.flagged j fs₁ t hf hold
    · cases heq
      rw [hflag hf rfl rfl]
      exact hsafe.agree
  · rintro j hs₁ t hh ⟨hr, hlater⟩
    rcases Pool.mem_log_advance.mp hr with hold | ⟨-, heq⟩
    · exact hsafe.between j hs₁ t hh ⟨hold, fun t' => hunread hlater⟩
    · cases heq
      rw [hhash hh rfl rfl]
      exact hsafe.agree
  · intro j hs₁ t fs₁ t' hh hr hf hr'
    rcases Pool.mem_log_advance.mp hr with hold | ⟨rfl, heq⟩
    · rcases Pool.mem_log_advance.mp hr' with hold' | ⟨rfl, heq⟩
      · exact hsafe.copies j hs₁ t fs₁ t' hh hold hf hold'
      · -- the flags are read: until now the process was between its reads
        cases heq
        rw [hflag hf rfl rfl]
        exact hsafe.between j hs₁ t hh ⟨hold, ((hsafe.order j).pre_call hp).reads (.inr rfl)⟩
    · -- the hashes are read: then the flags are not read yet
      cases heq
      have hnone := ((hsafe.order j).pre_call hp).reads (.inl rfl)
      rcases Pool.mem_log_advance.mp hr' with hold' | ⟨-, heq⟩
      · exact absurd hold' (hnone t')
      · cases heq

/-- The other calls touch neither array. -/
theorem FieldsSafe.keep {i : ι} {c : Call} {k : Except Exn c.Resp → App Reply}
    {r : Except Exn c.Resp} (hsafe : FieldsSafe svc uploadId count reqs w P hs fs)
    (hp : (P i).prog = .call c k) (hexec : exec svc pg c w = (r, w')) (hc : touchesRedis c = false)
    (hread : ∀ field, c ≠ .hget (sessionKey uploadId) field)
    (hwrite : ∀ v, c ≠ .hset (sessionKey uploadId) (ascii "part_hashes") v) :
    FieldsSafe svc uploadId count reqs w' (P.advance i c r (k r)) hs fs :=
  hsafe.write hp hexec hread (hsafe.session.congr (exec_redis hc hexec)) hsafe.agree
    (fun _ hx => hx) (fun v heq => absurd heq (hwrite v)) hsafe.between

theorem fieldsSafe_step {i : ι} {c : Call} {k : Except Exn c.Resp → App Reply}
    {r : Except Exn c.Resp} (hjson : svc.json.Lawful) (hne : ∀ d, svc.sha256 d ≠ [])
    (hsafe : ∃ hs fs, FieldsSafe svc uploadId count reqs w P hs fs)
    (hp : (P i).prog = .call c k) (hexec : exec svc pg c w = (r, w'))
    (hcond : InStep svc uploadId reqs w P i c w') :
    ∃ hs fs, FieldsSafe svc uploadId count reqs w' (P.advance i c r (k r)) hs fs := by
  obtain ⟨hs, fs, hsafe⟩ := hsafe
  have hdis := (hsafe.follows i).pre_call hp
  cases c with
  | hset key field value =>
      obtain rfl : key = sessionKey uploadId := hdis.1
      exact fieldsSafe_hset hjson hne hsafe hp hexec hcond
  | hget key field =>
      by_cases hkey : key = sessionKey uploadId
      · subst hkey
        exact ⟨hs, fs, hsafe.read hjson hp hexec⟩
      · exact ⟨hs, fs, hsafe.keep hp hexec rfl (fun _ heq => hkey (Call.hget.inj heq).1)
          fun _ => nofun⟩
  | redisSet key value ttl => exact absurd hdis id
  | redisDel key => exact absurd hdis id
  | _ => exact ⟨hs, fs, hsafe.keep hp hexec rfl (fun _ => nofun) fun _ => nofun⟩

omit [DecidableEq ι] in
theorem fieldsSafe_start (hjson : svc.json.Lawful) (hcount : count < 2 ^ 31)
    (hsession : SessionSound svc uploadId count w hs fs) (hagree : Agree hs fs)
    (hstart : ∀ i, (P i).log = [] ∧ ((P i).prog = loadRequest svc uploadId ∨
      (P i).prog = partRequest svc (reqs i) ∧
        (reqs i).getPathParam (ascii "upload_id") = uploadId)) :
    FieldsSafe svc uploadId count reqs w P hs fs := by
  have hempty : ∀ j e, e ∉ (P j).log := by
    intro j e he
    rw [(hstart j).1] at he
    exact List.not_mem_nil he
  refine ⟨hsession, hagree, ?_, ?_, ?_, ?_, fun j => ?_, fun j => ?_⟩
  · rintro j ⟨v, r, hmem⟩
    exact absurd hmem (hempty j _)
  · exact fun j _ _ _ hread => absurd hread (hempty j _)
  · exact fun j _ _ _ hbetween => absurd hbetween.1 (hempty j _)
  · exact fun j _ _ _ _ _ hread => absurd hread (hempty j _)
  · obtain ⟨hlog, hload | ⟨hpart, hid⟩⟩ := hstart j
    · rw [Follows, hlog, hload]
      refine wp_seq (grows_loadFromRedis hjson hcount) ?_ fun e _ _ _ h => (by cases h)
      rintro session log ⟨-, hsession⟩ _ ⟨⟩
      exact hsession session rfl
    · rw [Follows, hlog, hpart]
      exact wp_seq (grows_handleUploadPart hjson hcount hid) (fun _ _ _ _ h => (by cases h))
        fun _ _ _ _ h => (by cases h)
  · obtain ⟨hlog, hload | ⟨hpart, hid⟩⟩ := hstart j
    · rw [Follows, hlog, hload]
      exact ordered_loadRequest
    · rw [Follows, hlog, hpart]
      exact ordered_partRequest hid

/-- A session with a hash for each of its parts passes the check of `handle_complete`
without an empty hash to read. -/
theorem hashes_of_complete {session : MultipartSession}
    (hlen : (session.partHashes.length : Int) = session.chunkCount)
    (hagree : Agree session.partHashes session.uploaded) (hall : firstMissing session = none) :
    [] ∉ session.partHashes := by
  intro hmem
  obtain ⟨i, hi, hget⟩ := List.mem_iff_getElem.mp hmem
  have hrange : i ∈ List.range session.chunkCount.toNat := by
    rw [List.mem_range, ← hlen]
    exact hi
  have hflag := List.find?_eq_none.mp hall i hrange
  rw [Bool.not_eq_true, Bool.not_eq_false'] at hflag
  refine hagree i hflag ?_
  rw [List.getD_eq_getElem?_getD, List.getElem?_eq_getElem hi, hget]
  rfl

/-- **The arrays of a session agree** in a run of requests for its parts that keep in step:
what a load puts together has two arrays of the length it says and a hash for each part it
has as uploaded, so a completion has no empty hash to read. The same holds of the arrays
that a request for a part has read. -/
theorem arrays_agree (hjson : svc.json.Lawful) (hdigest : ∀ d, svc.digest d ≠ [])
    (hcount : count < 2 ^ 31) {w₀ : World} {P₀ : Pool ι Call Call.Resp Exn Reply}
    (hsession : SessionSound svc uploadId count w₀ hs fs) (hagree : Agree hs fs)
    (hstart : ∀ i, (P₀ i).log = [] ∧ ((P₀ i).prog = loadRequest svc uploadId ∨
      (P₀ i).prog = partRequest svc (reqs i) ∧
        (reqs i).getPathParam (ascii "upload_id") = uploadId))
    (hrun : Pool.Run (exec svc pg) (InStep svc uploadId reqs) w₀ P₀ w P) :
    (∀ l session, (P l).prog = .ret (.loaded session) → session.uploadId ≠ [] →
      session.partHashes.length = session.chunkCount ∧
      session.uploaded.length = session.chunkCount ∧
      Agree session.partHashes session.uploaded ∧
      (firstMissing session = none → [] ∉ session.partHashes)) ∧
    ∀ j hs' t fs' t', HashText svc hs' t → ReadIn uploadId (P j).log "part_hashes" t →
      FlagText svc fs' t' → ReadIn uploadId (P j).log "uploaded" t' → Agree hs' fs' := by
  have hne : ∀ d, svc.sha256 d ≠ [] := fun d => sha256_ne_nil hdigest d
  obtain ⟨hs₁, fs₁, hsafe⟩ : ∃ hs fs, FieldsSafe svc uploadId count reqs w P hs fs :=
    hrun.invariant (fun w P => ∃ hs fs, FieldsSafe svc uploadId count reqs w P hs fs)
      ⟨hs, fs, fieldsSafe_start hjson hcount hsession hagree hstart⟩
      fun hinv hcall hexec hcond => fieldsSafe_step hjson hne hinv hcall hexec hcond
  refine ⟨fun l session hdone hexists => ?_, hsafe.copies⟩
  obtain ⟨-, -, hchunks, ⟨hlen, t, ht, hread⟩, hlen', t', ht', hread'⟩ :=
    ((hsafe.follows l).done hdone session rfl).resolve_left hexists
  have hboth := hsafe.copies l session.partHashes t session.uploaded t' ht hread ht' hread'
  have hlength : (session.partHashes.length : Int) = session.chunkCount := by rw [hlen, hchunks]
  exact ⟨hlength, by rw [hlen', hchunks], hboth, hashes_of_complete hlength hboth⟩

end Run

/-! ### A load between two commands -/

/-- The texts a process has read of a field. -/
def readTexts (log : Log) (field : String) : List Bytes :=
  log.filterMap fun e =>
    match e with
    | ⟨.hget key field', .ok (some t)⟩ =>
        if key = sessionKey (ascii "s") ∧ field' = ascii field then some t else none
    | _ => none

theorem mem_readTexts {log : Log} {field : String} {t : Bytes} :
    t ∈ readTexts log field ↔ ReadIn (ascii "s") log field t := by
  unfold readTexts
  rw [List.mem_filterMap]
  constructor
  · rintro ⟨e, hmem, he⟩
    split at he
    · split at he
      · rename_i heq
        cases he
        obtain ⟨rfl, rfl⟩ := heq
        exact hmem
      · cases he
    · cases he
  · exact fun h => ⟨_, h, if_pos ⟨rfl, rfl⟩⟩

/-- What has been read of a field is what Redis has. -/
def readsCurrent (w : World) (log : Log) (field : String) : Bool :=
  (readTexts log field).all fun t => hget w (sessionKey (ascii "s")) (ascii field) == some t

theorem current_of_reads {w : World} {log : Log} {t : Bytes} (field : String)
    (h : readsCurrent w log field = true) (hread : ReadIn (ascii "s") log field t) :
    hget w (sessionKey (ascii "s")) (ascii field) = some t :=
  beq_iff_eq.mp (List.all_eq_true.mp h t (mem_readTexts.mpr hread))

def keepsInStep (w : World) (P : Pool (Fin 3) Call Call.Resp Exn Reply) (i : Fin 3) (c : Call) :
    Bool :=
  match c with
  | .hset _ field _ =>
      if field = ascii "part_hashes" then readsCurrent w (P i).log "part_hashes"
      else if field = ascii "uploaded" then
        (List.finRange 3).all fun l =>
          !(readTexts (P l).log "uploaded").isEmpty || readsCurrent w (P l).log "part_hashes"
      else true
  | _ => true

theorem inStep_of_keeps {w w' : World} {P : Pool (Fin 3) Call Call.Resp Exn Reply} {i : Fin 3}
    {c : Call} (hcheck : keepsInStep w P i c = true) :
    InStep sampleServices (ascii "s") partBody w P i c w' := by
  refine ⟨?_, ?_⟩
  · rintro v rfl now t old t' hnow ht hold hread x - hx
    have hcurrent := current_of_reads "part_hashes" hcheck hread
    rw [ht, Option.some.injEq] at hcurrent
    subst hcurrent
    rwa [hashText_injective sampleServices_lawful hold hnow]
  · rintro v rfl - l t ⟨hread, hunread⟩
    have hflags : keepsInStep w P i (.hset (sessionKey (ascii "s")) (ascii "uploaded") v) =
      (List.finRange 3).all fun l =>
        !(readTexts (P l).log "uploaded").isEmpty || readsCurrent w (P l).log "part_hashes" := rfl
    rw [hflags] at hcheck
    rcases Bool.or_eq_true_iff.mp (List.all_eq_true.mp hcheck l (List.mem_finRange l)) with h | h
    · rw [Bool.not_eq_true', List.isEmpty_eq_false_iff_exists_mem] at h
      obtain ⟨t', ht'⟩ := h
      exact absurd (mem_readTexts.mp ht') (hunread t')
    · exact current_of_reads _ h hread

def loadedSession (p : Worker) : Option MultipartSession :=
  match p.prog with
  | .ret (.loaded session) => if session.uploadId = [] then none else some session
  | _ => none

theorem loadedSession_sound {p : Worker} {session : MultipartSession}
    (h : loadedSession p = some session) :
    p.prog = .ret (.loaded session) ∧ session.uploadId ≠ [] := by
  unfold loadedSession at h
  split at h
  · rename_i found hp
    split at h
    · cases h
    · rename_i hid
      cases h
      exact ⟨hp, hid⟩
  · cases h

/-- A load that begins before part 0 is recorded reads the hashes between the two commands that
record it, and the flags after both: it has the flag and the hash. -/
theorem fields_agree_after_part : ∃ w P session,
    Pool.Run (exec sampleServices samplePostgres) (InStep sampleServices (ascii "s") partBody)
      openSession twoRequests w P ∧
    (P 2).prog = .ret (.loaded session) ∧ session.uploaded.getD 0 false = true ∧
    session.partHashes.length = session.chunkCount ∧
    session.uploaded.length = session.chunkCount ∧
    Agree session.partHashes session.uploaded := by
  have hrun : ((Pool.runSchedule (exec sampleServices samplePostgres) keepsInStep
      (List.replicate 7 2 ++ List.replicate 20 0 ++ List.replicate 2 2 ++ List.replicate 3 0 ++
        List.replicate 2 2) openSession twoRequests).any fun p =>
        (loadedSession (p.2 2)).any fun session => session.uploaded.getD 0 false) = true := by
    decide +kernel
  obtain ⟨⟨w, P⟩, hsched, hload⟩ := (Option.any_eq_true _ _).mp hrun
  obtain ⟨session, hsession, hflag⟩ := (Option.any_eq_true _ _).mp hload
  obtain ⟨hprog, hid⟩ := loadedSession_sound hsession
  have hr := Pool.run_of_schedule (fun w P i c w' => @inStep_of_keeps w w' P i c) hsched
  have hempty : Agree [[], []] [false, false] := by
    rintro (_ | _ | i) hi <;> cases hi
  obtain ⟨hlen, hlen', hagree, -⟩ := (arrays_agree sampleServices_lawful sampleServices_digest_ne_nil (by decide)
    openSession_sound hempty twoRequests_start hr).1 2 session hprog hid
  exact ⟨w, P, session, hr, hprog, hflag, hlen, hlen', hagree⟩

/-- The load reads the hashes, the two requests record their parts, and the load reads
the flags: no part is missing, and there is no hash. -/
theorem flags_without_hashes : ∃ w P session,
    Pool.Run (exec sampleServices samplePostgres) (fun _ _ _ _ _ => True)
      openSession twoRequests w P ∧
    (P 2).prog = .ret (.loaded session) ∧ session.uploadId ≠ [] ∧
    ¬ Agree session.partHashes session.uploaded ∧
    firstMissing session = none ∧ [] ∈ session.partHashes := by
  have hrun : ((Pool.runSchedule (exec sampleServices samplePostgres) (fun _ _ _ _ => true)
      (List.replicate 9 2 ++ List.replicate 23 0 ++ List.replicate 23 1 ++ List.replicate 2 2)
        openSession twoRequests).any fun p => (loadedSession (p.2 2)).any fun session =>
          session.uploaded.getD 0 false && session.partHashes.getD 0 [] == [] &&
            (firstMissing session).isNone && session.partHashes.contains []) = true := by
    decide +kernel
  obtain ⟨⟨w, P⟩, hsched, hload⟩ := (Option.any_eq_true _ _).mp hrun
  obtain ⟨session, hsession, hfields⟩ := (Option.any_eq_true _ _).mp hload
  obtain ⟨hprog, hid⟩ := loadedSession_sound hsession
  rw [Bool.and_eq_true, Bool.and_eq_true, Bool.and_eq_true] at hfields
  obtain ⟨⟨⟨hflag, hhash⟩, hmissing⟩, hmem⟩ := hfields
  exact ⟨w, P, session, Pool.run_of_schedule (fun _ _ _ _ _ _ => trivial) hsched, hprog, hid,
    fun hagree => hagree 0 hflag (beq_iff_eq.mp hhash), Option.isNone_iff_eq_none.mp hmissing,
    by simpa using hmem⟩

end SolarDrive.Runs
