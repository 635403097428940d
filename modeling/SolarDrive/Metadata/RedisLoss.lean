import SolarDrive.Api.Effects
import SolarDrive.Metadata.Lookups

/-!
# Redis out of reach

`execLossy` answers the calls of a handler as `exec` does, but for a fate that
each command to Redis meets: its reply comes, or the command never arrives, or
it is carried out and the reply is lost. A method of `RedisClient` tells of the
last two only by the value it returns; none of them throws.

Then what a load puts together from the replies that come, and what a save
leaves in Redis of the commands that arrive.
-/

namespace SolarDrive.Metadata

open Lib Http Api Prog

inductive Fate where
  | answered
  | lost
  | unanswered
deriving DecidableEq

/-- A world, and the fates of the commands to come. -/
structure Lossy where
  world : World
  fates : Nat → Fate

/-- The commands of `RedisClient`. -/
def isRedis : Call → Bool
  | .redisGet _ | .redisSet _ _ _ | .redisDel _ | .hget _ _ | .hset _ _ _ | .expire _ _ => true
  | _ => false

/-- What the client returns when it has no reply. -/
def noReply : (c : Call) → Except Exn c.Resp
  | .redisGet _ => .ok none
  | .redisSet _ _ _ => .ok false
  | .redisDel _ => .ok false
  | .hget _ _ => .ok none
  | .hset _ _ _ => .ok false
  | .expire _ _ => .ok false
  | _ => .error { kind := .std, what := [] }

namespace Lossy

def skip (s : Lossy) (n : Nat) : Lossy := { s with fates := fun m => s.fates (m + n) }

/-- Redis in reach. -/
def calm (w : World) : Lossy := ⟨w, fun _ => .answered⟩

/-- What the `n`th command to come gets to see of a field. -/
def sees (s : Lossy) (n : Nat) (key : Bytes) (field : String) : Option Bytes :=
  if s.fates n = .answered then hget s.world key (ascii field) else none

/-- The `n`th command to come, an `HSET`, is carried out. -/
def Writes (s : Lossy) (n : Nat) (key : Bytes) : Prop := s.fates n ≠ .lost ∧ HashKey s.world key

@[simp] theorem skip_world (s : Lossy) (n : Nat) : (s.skip n).world = s.world := rfl

@[simp] theorem skip_skip (s : Lossy) (n m : Nat) : (s.skip n).skip m = s.skip (n + m) := by
  simp only [skip, Nat.add_assoc, Nat.add_comm m n]

@[simp] theorem skip_sees (s : Lossy) (n m : Nat) (key : Bytes) (field : String) :
    (s.skip n).sees m key field = s.sees (m + n) key field := rfl

@[simp] theorem calm_sees (w : World) (n : Nat) (key : Bytes) (field : String) :
    (calm w).sees n key field = hget w key (ascii field) := rfl

end Lossy

def execLossy (svc : Services) (pg : Postgres) (c : Call) (s : Lossy) : Except Exn c.Resp × Lossy :=
  if isRedis c then
    match s.fates 0 with
    | .answered =>
        ((exec svc pg c s.world).1, { s.skip 1 with world := (exec svc pg c s.world).2 })
    | .lost => (noReply c, s.skip 1)
    | .unanswered => (noReply c, { s.skip 1 with world := (exec svc pg c s.world).2 })
  else ((exec svc pg c s.world).1, { s with world := (exec svc pg c s.world).2 })

section Loss

variable {svc : Services} {pg : Postgres} {s s' : Lossy} {w : World}

/-- In reach of Redis nothing is different. -/
theorem run_calm {α : Type} (p : App α) (w : World) :
    (p.run (exec svc pg) w).1 = (p.run (execLossy svc pg) (.calm w)).1 := by
  have hsame : Simulates (exec svc pg) (execLossy svc pg) (fun w s => s = .calm w) p p := by
    refine simulates_self ?_ (callsOnly_true p)
    rintro c - w _ rfl
    have heq : execLossy svc pg c (.calm w) = ((exec svc pg c w).1, .calm (exec svc pg c w).2) := by
      unfold execLossy
      split <;> rfl
    rw [heq]
    exact ⟨rfl, rfl⟩
  exact (hsame w (.calm w) rfl).1

/-- What is not a command to Redis meets no fate, and leaves Redis alone. -/
theorem lossy_others {α : Type} {p : App α} (hp : p.CallsOnly fun c => isRedis c = false) :
    p.wp (ofExec (execLossy svc pg))
      (fun _ (s' : Lossy) => s'.world.redis = s.world.redis ∧ s'.fates = s.fates) s := by
  refine wp_of_callsOnly (fun s' : Lossy => s'.world.redis = s.world.redis ∧ s'.fates = s.fates) ?_ hp
    ⟨rfl, rfl⟩
  rintro s₁ c hc ⟨hredis, hfates⟩
  refine ⟨trivial, fun r s' hexec => ?_⟩
  have hs : execLossy svc pg c s₁ =
      ((exec svc pg c s₁.world).1, { s₁ with world := (exec svc pg c s₁.world).2 }) :=
    if_neg (Bool.eq_false_iff.mp hc)
  obtain rfl : (execLossy svc pg c s₁).2 = s' := congrArg Prod.snd
    (show execLossy svc pg c s₁ = (r, s') from hexec)
  rw [hs]
  refine ⟨?_, hfates⟩
  rw [← hredis]
  refine exec_redis ?_ rfl
  cases c with
  | redisSet key value ttl => cases hc
  | redisDel key => cases hc
  | hset key field value => cases hc
  | _ => rfl

/-! ### Reading a session -/

/-- A text field, with what stands for it when it is missing. -/
def readsText (missing : Option Bytes) (value : Bytes) (text : Option Bytes) : Prop :=
  text.or missing = some value

def readsNumber (read : Bytes → Except StoError Int) (missing value : Int) :
    Option Bytes → Prop
  | some t => read t = .ok value
  | none => missing = value

def readsArray {α : Type} (svc : Services) (elem : Json → Except Bytes α) (xs : List α) :
    Option Bytes → Prop
  | some t => if t = [] then xs = [] else ∃ j, svc.json.parse t = .ok j ∧ j.getArray elem = .ok xs
  | none => xs = []

theorem run_hget {key : Bytes} {field : String} {text : Option Bytes} :
    (ask (.hget key (ascii field))).run (execLossy svc pg) s = (.ok text, s') ↔
      text = s.sees 0 key field ∧ s' = s.skip 1 := by
  have hexec : execLossy svc pg (.hget key (ascii field)) s = (.ok (s.sees 0 key field), s.skip 1) := by
    unfold execLossy Lossy.sees
    cases s.fates 0 <;> rfl
  have hrun : (ask (.hget key (ascii field))).run (execLossy svc pg) s =
      (.ok (s.sees 0 key field), s.skip 1) := (run_request _ _ _).trans hexec
  rw [hrun]
  constructor
  · rintro ⟨⟩
    exact ⟨rfl, rfl⟩
  · rintro ⟨rfl, rfl⟩
    rfl

theorem run_numberField {key : Bytes} {field : String} {read : Bytes → Except StoError Int}
    {name : String} {missing value : Int} :
    (numberField key field read name missing).run (execLossy svc pg) s = (.ok value, s') ↔
      readsNumber read missing value (s.sees 0 key field) ∧ s' = s.skip 1 := by
  rw [numberField, run_bind_ok]
  constructor
  · rintro ⟨_, _, hget, hrest⟩
    obtain ⟨rfl, rfl⟩ := run_hget.mp hget
    cases htext : s.sees 0 key field with
    | none =>
        rw [htext] at hrest
        cases hrest
        exact ⟨rfl, rfl⟩
    | some t =>
        rw [htext] at hrest
        dsimp only at hrest
        cases hread : read t with
        | error e => rw [hread] at hrest; cases hrest
        | ok v =>
            rw [hread] at hrest
            cases hrest
            exact ⟨hread, rfl⟩
  · rintro ⟨hreads, rfl⟩
    refine ⟨_, _, run_hget.mpr ⟨rfl, rfl⟩, ?_⟩
    cases htext : s.sees 0 key field with
    | none =>
        rw [htext] at hreads
        cases hreads
        rfl
    | some t =>
        rw [htext] at hreads
        dsimp only
        rw [show read t = .ok value from hreads]
        rfl

theorem run_jsonParse {text : Bytes} {j : Json} :
    (ask (.jsonParse text)).run (execLossy svc pg) s = (.ok j, s') ↔
      svc.json.parse text = .ok j ∧ s' = s := by
  have hexec : execLossy svc pg (.jsonParse text) s =
      ((exec svc pg (.jsonParse text) s.world).1, s) := rfl
  have hrun : (ask (.jsonParse text)).run (execLossy svc pg) s = _ :=
    (run_request _ _ _).trans hexec
  rw [hrun, exec]
  cases svc.json.parse text with
  | error what => simp
  | ok j' =>
      constructor
      · rintro ⟨⟩
        exact ⟨rfl, rfl⟩
      · rintro ⟨⟨⟩, rfl⟩
        rfl

theorem run_arrayField {α : Type} {key : Bytes} {field : String} {elem : Json → Except Bytes α}
    {xs : List α} : (arrayField key field elem).run (execLossy svc pg) s = (.ok xs, s') ↔
      readsArray svc elem xs (s.sees 0 key field) ∧ s' = s.skip 1 := by
  rw [arrayField, run_bind_ok]
  constructor
  · rintro ⟨_, _, hget, hrest⟩
    obtain ⟨rfl, rfl⟩ := run_hget.mp hget
    cases htext : s.sees 0 key field with
    | none =>
        rw [htext] at hrest
        cases hrest
        exact ⟨rfl, rfl⟩
    | some t =>
        rw [htext] at hrest
        dsimp only at hrest
        unfold readsArray
        dsimp only
        split at hrest
        · cases hrest
          exact ⟨if_pos ‹_› ▸ rfl, rfl⟩
        · rw [run_bind_ok] at hrest
          obtain ⟨j, _, hask, hrest⟩ := hrest
          obtain ⟨hparse, rfl⟩ := run_jsonParse.mp hask
          cases helem : j.getArray elem with
          | error e => rw [helem] at hrest; cases hrest
          | ok ys =>
              rw [helem] at hrest
              cases hrest
              rw [if_neg ‹_›]
              exact ⟨⟨j, hparse, helem⟩, rfl⟩
  · rintro ⟨hreads, rfl⟩
    refine ⟨_, _, run_hget.mpr ⟨rfl, rfl⟩, ?_⟩
    cases htext : s.sees 0 key field with
    | none =>
        rw [htext] at hreads
        cases hreads
        rfl
    | some t =>
        rw [htext] at hreads
        unfold readsArray at hreads
        dsimp only at hreads ⊢
        split at hreads
        · cases hreads
          rw [if_pos ‹_›]
          rfl
        · obtain ⟨j, hparse, helem⟩ := hreads
          rw [if_neg ‹_›, run_bind_ok]
          refine ⟨j, _, run_jsonParse.mpr ⟨hparse, rfl⟩, ?_⟩
          rw [helem]
          rfl

/-- The nine fields, as the next nine replies give them. -/
structure Seen (svc : Services) (s : Lossy) (session : MultipartSession) : Prop where
  fileName : readsText none session.fileName (s.sees 0 (sessionKey session.uploadId) "file_name")
  mimeType : readsText (some (ascii "application/octet-stream")) session.mimeType
    (s.sees 1 (sessionKey session.uploadId) "mime_type")
  userId : readsText (some []) session.userId (s.sees 2 (sessionKey session.uploadId) "user_id")
  folderId : readsText (some []) session.folderId
    (s.sees 3 (sessionKey session.uploadId) "folder_id")
  totalSize : readsNumber stoll 0 session.totalSize
    (s.sees 4 (sessionKey session.uploadId) "total_size")
  chunkSize : readsNumber stoll svc.chunkSize session.chunkSize
    (s.sees 5 (sessionKey session.uploadId) "chunk_size")
  chunkCount : readsNumber stoi 0 session.chunkCount
    (s.sees 6 (sessionKey session.uploadId) "chunk_count")
  partHashes : readsArray svc Json.getString session.partHashes
    (s.sees 7 (sessionKey session.uploadId) "part_hashes")
  uploaded : readsArray svc Json.getBool session.uploaded
    (s.sees 8 (sessionKey session.uploadId) "uploaded")

theorem readsText_getD {d value : Bytes} {text : Option Bytes} :
    readsText (some d) value text ↔ text.getD d = value := by
  cases text <;> simp [readsText]

/-- A load that finds a session has nine replies, and puts together what they say. -/
theorem run_loadFromRedis {uploadId : Bytes} {session : MultipartSession} (hid : uploadId ≠ []) :
    (loadFromRedis svc uploadId).run (execLossy svc pg) s = (.ok session, s') ∧
        session.uploadId ≠ [] ↔
      svc.hasRedis = true ∧ session.uploadId = uploadId ∧ Seen svc s session ∧ s' = s.skip 9 := by
  unfold loadFromRedis loadFields
  by_cases hredis : svc.hasRedis = true
  swap
  · rw [if_neg hredis]
    constructor
    · rintro ⟨⟨⟩, hne⟩
      exact absurd rfl hne
    · rintro ⟨h, -⟩
      exact absurd h hredis
  rw [if_pos hredis, run_bind_ok]
  constructor
  · rintro ⟨⟨name, _, hask, hrest⟩, hne⟩
    obtain ⟨hname, rfl⟩ := run_hget.mp hask
    -- a session without a file name is none
    cases name with
    | none =>
        cases hrest
        exact absurd rfl hne
    | some name =>
        simp only [run_bind_ok] at hrest
        obtain ⟨mime, _, hask₁, user, _, hask₂, folder, _, hask₃, total, _, hask₄, size, _, hask₅,
          count, _, hask₆, hashes, _, hask₇, flags, _, hask₈, hret⟩ := hrest
        obtain ⟨rfl, rfl⟩ := run_hget.mp hask₁
        obtain ⟨rfl, rfl⟩ := run_hget.mp hask₂
        obtain ⟨rfl, rfl⟩ := run_hget.mp hask₃
        obtain ⟨htotal, rfl⟩ := run_numberField.mp hask₄
        obtain ⟨hsize, rfl⟩ := run_numberField.mp hask₅
        obtain ⟨hcount, rfl⟩ := run_numberField.mp hask₆
        obtain ⟨hhashes, rfl⟩ := run_arrayField.mp hask₇
        obtain ⟨hflags, rfl⟩ := run_arrayField.mp hask₈
        cases hret
        refine ⟨hredis, rfl, ⟨?_, readsText_getD.mpr rfl, readsText_getD.mpr rfl,
          readsText_getD.mpr rfl, htotal, hsize, hcount, hhashes, hflags⟩, rfl⟩
        rw [readsText, Option.or_none]
        exact hname.symm
  · rintro ⟨-, rfl, hseen, rfl⟩
    obtain ⟨hname, hmime, huser, hfolder, htotal, hsize, hcount, hhashes, hflags⟩ := hseen
    refine ⟨⟨_, _, run_hget.mpr ⟨rfl, rfl⟩, ?_⟩, hid⟩
    have hname' : s.sees 0 (sessionKey session.uploadId) "file_name" = some session.fileName := by
      rw [readsText, Option.or_none] at hname
      exact hname
    rw [hname']
    simp only [run_bind_ok]
    refine ⟨_, _, run_hget.mpr ⟨rfl, rfl⟩, _, _, run_hget.mpr ⟨rfl, rfl⟩, _, _,
      run_hget.mpr ⟨rfl, rfl⟩, _, _, run_numberField.mpr ⟨htotal, rfl⟩, _, _,
      run_numberField.mpr ⟨hsize, rfl⟩, _, _, run_numberField.mpr ⟨hcount, rfl⟩, _, _,
      run_arrayField.mpr ⟨hhashes, rfl⟩, _, _, run_arrayField.mpr ⟨hflags, rfl⟩, ?_⟩
    simp only [Lossy.skip_skip, Lossy.skip_sees]
    rw [readsText_getD.mp hmime, readsText_getD.mp huser, readsText_getD.mp hfolder]
    rfl

/-- What Redis holds of a session is what a load puts together. -/
theorem loaded_iff_seen {session : MultipartSession} (hid : session.uploadId ≠ []) :
    ((loadFromRedis svc session.uploadId).run (exec svc pg) w).1 = .ok session ↔
      svc.hasRedis = true ∧ Seen svc (.calm w) session := by
  rw [run_calm]
  constructor
  · intro h
    obtain ⟨hredis, -, hseen, -⟩ := (run_loadFromRedis hid).mp ⟨Prod.ext h rfl, hid⟩
    exact ⟨hredis, hseen⟩
  · rintro ⟨hredis, hseen⟩
    exact congrArg Prod.fst ((run_loadFromRedis hid).mpr ⟨hredis, rfl, hseen, rfl⟩).1

/-! ### Writing a session -/

theorem hset_refused {key field value : Bytes} (h : ¬ HashKey w key) :
    (hset key field value w).2 = w := by
  unfold hset
  cases hval : w.redis (cstr key) with
  | none => exact absurd (fun v hv => by rw [hval] at hv; cases hv) h
  | some v =>
      cases v with
      | str t => rfl
      | hash fields => exact absurd (fun v hv => by rw [hval] at hv; cases hv) h

/-- An `HSET` is carried out, or changes nothing; the client throws in neither case. -/
theorem lossy_hset {key field value : Bytes} {r : Except Exn Bool}
    (h : execLossy svc pg (.hset key field value) s = (r, s')) : (∃ b, r = .ok b) ∧
      s'.fates = (s.skip 1).fates ∧
      (s.Writes 0 key ∧ s'.world = (hset key field value s.world).2 ∨
        ¬ s.Writes 0 key ∧ s'.world = s.world) := by
  have hworld : s.fates 0 ≠ .lost → s'.world = (hset key field value s.world).2 →
      s.Writes 0 key ∧ s'.world = (hset key field value s.world).2 ∨
        ¬ s.Writes 0 key ∧ s'.world = s.world := by
    intro hfate hw
    by_cases hkey : HashKey s.world key
    · exact Or.inl ⟨⟨hfate, hkey⟩, hw⟩
    · exact Or.inr ⟨fun hwrites => hkey hwrites.2, hw.trans (hset_refused hkey)⟩
  unfold execLossy at h
  rw [if_pos (show isRedis (.hset key field value) = true from rfl)] at h
  cases hfate : s.fates 0 with
  | answered =>
      rw [hfate] at h
      cases h
      exact ⟨⟨_, rfl⟩, rfl, hworld (by rw [hfate]; exact nofun) rfl⟩
  | lost =>
      rw [hfate] at h
      cases h
      exact ⟨⟨_, rfl⟩, rfl, Or.inr ⟨fun hwrites => hwrites.1 hfate, rfl⟩⟩
  | unanswered =>
      rw [hfate] at h
      cases h
      exact ⟨⟨_, rfl⟩, rfl, hworld (by rw [hfate]; exact nofun) rfl⟩

/-- The fields whose `HSET` was carried out are new, the others are as they were. -/
structure Saves (key : Bytes) (fields : List (Bytes × Bytes)) (s : Lossy) (w' : World) : Prop where
  written : ∀ (n : Nat) p, fields[n]? = some p → s.Writes n key → hget w' key p.1 = some (cstr p.2)
  kept : ∀ (n : Nat) p, fields[n]? = some p → ¬ s.Writes n key →
    hget w' key p.1 = hget s.world key p.1
  others : ∀ f, cstr f = f → f ∉ fields.map Prod.fst → hget w' key f = hget s.world key f

/-- Only Redis and the fates count. -/
theorem Saves.congr {key : Bytes} {fields : List (Bytes × Bytes)} {s₁ : Lossy} {w' : World}
    (h : Saves key fields s₁ w') (hredis : s₁.world.redis = s.world.redis)
    (hfates : s₁.fates = s.fates) : Saves key fields s w' := by
  have hwrites : ∀ n, s₁.Writes n key ↔ s.Writes n key := by
    intro n
    rw [Lossy.Writes, Lossy.Writes, hfates, HashKey, HashKey, hredis]
  have hsame : ∀ f, hget s₁.world key f = hget s.world key f := by
    intro f
    rw [hget, hget, hredis]
  refine ⟨fun n p hp hw => h.written n p hp ((hwrites n).mpr hw), fun n p hp hw => ?_,
    fun f hf hmem => ?_⟩
  · rw [← hsame]
    exact h.kept n p hp fun hw' => hw ((hwrites n).mp hw')
  · rw [← hsame]
    exact h.others f hf hmem

theorem lossy_hsetAll {key : Bytes} : ∀ (fields : List (Bytes × Bytes)) {s : Lossy},
    (∀ p ∈ fields, cstr p.1 = p.1) → (fields.map Prod.fst).Nodup →
    (hsetAll key fields).wp (ofExec (execLossy svc pg))
      (fun r s' => r = .ok () ∧ Saves key fields s s'.world) s
  | [], s, _, _ => ⟨rfl, fun _ _ h => (by cases h), fun _ _ h => (by cases h), fun _ _ _ => rfl⟩
  | (field, value) :: rest, s, hnames, hnodup => by
      refine wp_request_bind trivial ?_ ?_
      swap
      · intro e s₁ hexec
        obtain ⟨⟨b, hb⟩, -⟩ := lossy_hset
          (show execLossy svc pg (.hset key field value) s = (.error e, s₁) from hexec)
        cases hb
      intro b s₁ hexec
      obtain ⟨-, hfates, hworld⟩ := lossy_hset
        (show execLossy svc pg (.hset key field value) s = (.ok b, s₁) from hexec)
      obtain ⟨hfresh, hnodup'⟩ := List.nodup_cons.mp hnodup
      have hfield : cstr field = field := hnames _ List.mem_cons_self
      refine wp_mono (lossy_hsetAll rest (fun p hp => hnames p (List.mem_cons_of_mem _ hp)) hnodup') ?_
      rintro r s' ⟨rfl, hsaves⟩
      -- the one field, after this command and after all of them
      have hlater : ∀ n, s₁.Writes n key ↔ s.Writes (n + 1) key := by
        intro n
        have hkey : HashKey s₁.world key ↔ HashKey s.world key := by
          rcases hworld with ⟨hwrites, hw⟩ | ⟨-, hw⟩
          · rw [hw]
            exact ⟨fun _ => hwrites.2, fun h => hashKey_hset h⟩
          · rw [hw]
        rw [Lossy.Writes, Lossy.Writes, hkey, hfates]
        rfl
      have hothers : ∀ f, cstr f = f → f ≠ field → hget s₁.world key f = hget s.world key f := by
        intro f hf hne
        rcases hworld with ⟨hwrites, hw⟩ | ⟨-, hw⟩
        · rw [hw, hget_hset hwrites.2, hf, hfield, if_neg hne]
        · rw [hw]
      have hrest : ∀ p ∈ rest, hget s₁.world key p.1 = hget s.world key p.1 := by
        intro p hp
        refine hothers p.1 (hnames p (List.mem_cons_of_mem _ hp)) fun heq => hfresh ?_
        exact List.mem_map.mpr ⟨p, hp, heq⟩
      refine ⟨rfl, ?_, ?_, ?_⟩
      · intro n p hp hwrites
        cases n with
        | zero =>
            obtain rfl : (field, value) = p := Option.some.inj hp
            rw [hsaves.others field hfield hfresh]
            rcases hworld with ⟨-, hw⟩ | ⟨hnot, -⟩
            · rw [hw, hget_hset hwrites.2, if_pos rfl]
            · exact absurd hwrites hnot
        | succ n => exact hsaves.written n p hp ((hlater n).mpr hwrites)
      · intro n p hp hnot
        cases n with
        | zero =>
            obtain rfl : (field, value) = p := Option.some.inj hp
            rw [hsaves.others field hfield hfresh]
            rcases hworld with ⟨hwrites, -⟩ | ⟨-, hw⟩
            · exact absurd hwrites hnot
            · rw [hw]
        | succ n =>
            rw [hsaves.kept n p hp fun h => hnot ((hlater n).mp h)]
            exact hrest p (List.mem_of_getElem? hp)
      · intro f hf hmem
        rw [List.map_cons, List.mem_cons, not_or] at hmem
        rw [hsaves.others f hf hmem.2]
        exact hothers f hf hmem.1

/-- How a `save_to_redis` that does not throw ends, with a client. -/
theorem lossy_saveToRedis {session : MultipartSession} {u : Unit} (hredis : svc.hasRedis = true)
    (h : (saveToRedis svc session).run (execLossy svc pg) s = (.ok u, s')) :
    ∃ t t', svc.json.dump (hashArray session.partHashes) = .ok t ∧
      svc.json.dump (flagArray session.uploaded) = .ok t' ∧
      Saves (sessionKey session.uploadId) (sessionFields session t t') s s'.world := by
  unfold saveToRedis at h
  rw [if_pos hredis] at h
  cases ht : svc.json.dump (hashArray session.partHashes) with
  | error e => rw [ht] at h; cases h
  | ok t =>
      cases ht' : svc.json.dump (flagArray session.uploaded) with
      | error e => rw [ht, ht'] at h; cases h
      | ok t' =>
          rw [ht, ht'] at h
          obtain ⟨hnames, hnodup⟩ := sessionFields_names session t t'
          obtain ⟨_, s₁, hall, hrest⟩ := run_bind_ok.mp (show (hsetAll (sessionKey session.uploadId)
            (sessionFields session t t') >>= _ : App Unit).run _ _ = _ from h)
          have hsaves := wp_ofExec.mp (@lossy_hsetAll svc pg
            (sessionKey session.uploadId) _ s hnames hnodup)
          rw [hall] at hsaves
          obtain ⟨_, s₂, hexpire, hret⟩ := run_bind_ok.mp hrest
          have hworld : s₂.world = s₁.world := by
            have hs : (execLossy svc pg (.expire (sessionKey session.uploadId) (24 * 3600)) s₁).2 =
                s₂ := congrArg Prod.snd ((run_request _ _ _).symm.trans hexpire)
            rw [← hs]
            unfold execLossy
            cases s₁.fates 0 <;> rfl
          cases hret
          rw [hworld]
          exact ⟨t, t', rfl, rfl, hsaves.2⟩

end Loss

end SolarDrive.Metadata
