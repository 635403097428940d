import SolarDrive.Api.Courses
import SolarDrive.Api.Effects
import SolarDrive.Runs.History
import SolarDrive.Runs.UploadParts

/-!
# The record of a history

What a drive was given is recorded on the side (`Record`): for each file the
bytes that were uploaded for it, for each upload session the last body accepted
for each part. `Faithful` ties the record to the three stores: the object files,
the content rows and the file rows; and to the sessions in Redis. Here it is
kept by single calls and by a single upload.
-/

namespace SolarDrive.Runs

open Lib Http Api Metadata Prog

/-! ## The record -/

/-- What the history says: the bytes of each file, and by session key the parts
accepted so far. -/
structure Record where
  bytes : Uuid → Option Bytes := fun _ => none
  parts : Bytes → List (Option Bytes) := fun _ => []

def Record.setBytes (g : Record) (id : Uuid) (bytes : Option Bytes) : Record :=
  { g with bytes := Function.update g.bytes id bytes }

def Record.setParts (g : Record) (key : Bytes) (parts : List (Option Bytes)) : Record :=
  { g with parts := Function.update g.parts key parts }

/-- The parts one after the other, once they are all there. -/
def joined : List (Option Bytes) → Option Bytes
  | [] => some []
  | part :: parts => do return (← part) ++ (← joined parts)

/-- The file row that is new in the second world. -/
def newFile (w w' : World) : Option Uuid :=
  (w'.files.map FileRow.id).find? fun id => !w.files.any (·.id = id)

/-- The new file, if there is one, has these bytes. -/
def Record.addFile (g : Record) (w w' : World) (bytes : Option Bytes) : Record :=
  match newFile w w' with
  | some id => g.setBytes id bytes
  | none => g

/-- The key of the session a request names in its path. -/
def pathSession (req : HttpRequest) : Bytes :=
  cstr (sessionKey (req.getPathParam (ascii "upload_id")))

/-- The number of parts that a request to start an upload asks for. -/
def askedParts (svc : Services) (req : HttpRequest) : Nat :=
  match svc.json.parse req.body with
  | .ok body =>
      match readInitBody body with
      | .ok init => (partCount init.totalSize svc.chunkSize).toNat
      | .error _ => 0
  | .error _ => 0

/-- The file of the share that a request to save names. -/
def sharedFile (svc : Services) (w : World) (req : HttpRequest) : Option Uuid :=
  match svc.json.parse req.body with
  | .ok body =>
      match readSaveBody body with
      | .ok (token, _) => (w.shares.find? (·.shareToken = cstr token)).map ShareRow.fileId
      | .error _ => none
  | .error _ => none

def accepted (r : Except Exn HttpResponse) : Bool :=
  match r with
  | .ok resp => resp.statusCode == 200
  | .error _ => false

/-- The record after a request, from the worlds before and after it and the answer. -/
def observe (svc : Services) (w w' : World) (answer : Except Exn HttpResponse) (req : HttpRequest)
    (g : Record) : RouteName → Record
  | .upload => g.addFile w w' (some req.body)
  | .uploadInit =>
      if accepted answer then
        g.setParts (cstr (sessionKey (generatedId w))) (List.replicate (askedParts svc req) none)
      else g
  | .uploadPart =>
      if accepted answer then
        g.setParts (pathSession req)
          ((g.parts (pathSession req)).set (partIndex req) (some req.body))
      else g
  | .uploadComplete => g.addFile w w' (joined (g.parts (pathSession req)))
  | .shareSave => g.addFile w w' ((sharedFile svc w req).bind g.bytes)
  | _ => g

/-- One action, and the record of it. -/
def recorded (svc : Services) (pg : Postgres) (s : World × Record) (a : Action) : World × Record :=
  (act svc pg s.1 a, match a with
    | .request route req =>
        observe svc s.1 (act svc pg s.1 a) (serve svc pg route req s.1).1 req s.2 route
    | _ => s.2)

/-! ## The invariant -/

section Invariant

variable (svc : Services)

/-- What `part_hashes` has for a part. -/
def partHash : Option Bytes → Bytes
  | none => []
  | some body => svc.sha256 body

/-- The session in Redis has the parts of the record. -/
structure SessionHolds (w : World) (id : Bytes) (parts : List (Option Bytes)) : Prop where
  small : parts.length < 2 ^ 31
  chunkCount : hget w (sessionKey id) (ascii "chunk_count") = some (decimal parts.length)
  hashes : ∃ t, HashText svc (parts.map (partHash svc)) t ∧
    hget w (sessionKey id) (ascii "part_hashes") = some t
  flags : ∃ t, FlagText svc (parts.map Option.isSome) t ∧
    hget w (sessionKey id) (ascii "uploaded") = some t
  totalSize : ∃ n : Nat, svc.oversized n = false ∧
    hget w (sessionKey id) (ascii "total_size") = some (decimal n)
  chunkSize : ∃ t, hget w (sessionKey id) (ascii "chunk_size") = some t

/-- The content of a row is these bytes, and the chunks are all there. -/
def Backed (w : World) (c : ContentRow) : Prop :=
  ∃ data : List Bytes, c.chunkHashes = hashArray (data.map svc.sha256) ∧
    c.hash = svc.sha256 data.flatten ∧ ∀ d ∈ data, w.store (svc.sha256 d) = some d

structure Faithful (g : Record) (w : World) : Prop where
  objects : ∀ h d, w.store h = some d → h = svc.sha256 d
  contentIds : (w.contents.map ContentRow.id).Nodup
  rows : ∀ c ∈ w.contents, Backed svc w c
  files : ∀ f ∈ w.files, f.live = true → ∃ c bytes, w.findContent f.contentId = some c ∧
    g.bytes f.id = some bytes ∧ c.hash = svc.sha256 bytes
  sessionKeys : ∀ id, HashKey w (sessionKey id)
  sessions : ∀ id, (w.redis (cstr (sessionKey id))).isSome = true →
    svc.hasRedis = true ∧ SessionHolds svc w id (g.parts (cstr (sessionKey id)))

variable {svc} {pg : Postgres} {g : Record} {w w' : World}

theorem Initial.faithful (h : Initial w) (g : Record) : Faithful svc g w := by
  refine ⟨?_, ?_, ?_, ?_, ?_, ?_⟩
  · intro x d hd
    rw [h.store] at hd
    cases hd
  · rw [h.contents]
    exact List.nodup_nil
  · rw [h.contents]
    exact fun c hc => absurd hc List.not_mem_nil
  · rw [h.files]
    exact fun f hf => absurd hf List.not_mem_nil
  · intro id v hv
    rw [h.redis] at hv
    cases hv
  · intro id hid
    rw [h.redis] at hid
    cases hid

/-- A session is what its key in Redis holds. -/
theorem SessionHolds.congr {id id' : Bytes} {parts : List (Option Bytes)}
    (h : SessionHolds svc w id parts)
    (hredis : w'.redis (cstr (sessionKey id')) = w.redis (cstr (sessionKey id))) :
    SessionHolds svc w' id' parts := by
  have hfields : ∀ f, hget w' (sessionKey id') f = hget w (sessionKey id) f := by
    intro f
    rw [hget, hget, hredis]
  obtain ⟨hsmall, hcount, hhashes, hflags, htotal, hchunk⟩ := h
  exact ⟨hsmall, by rwa [hfields], by simpa only [hfields], by simpa only [hfields],
    by simpa only [hfields], by simpa only [hfields]⟩

/-- Tables as before, Redis as before, and no object lost. -/
theorem Faithful.congr (h : Faithful svc g w)
    (hobjects : ∀ x d, w'.store x = some d → x = svc.sha256 d)
    (hstore : ∀ x d, w.store x = some d → w'.store x = some d)
    (hcontents : w'.contents = w.contents)
    (hfiles : ∀ f ∈ w'.files, f.live = true → f ∈ w.files)
    (hredis : ∀ id, w'.redis (cstr (sessionKey id)) = w.redis (cstr (sessionKey id)) ∨
      w'.redis (cstr (sessionKey id)) = none) : Faithful svc g w' := by
  refine ⟨hobjects, ?_, ?_, ?_, ?_, ?_⟩
  · rw [hcontents]
    exact h.contentIds
  · intro c hc
    rw [hcontents] at hc
    obtain ⟨data, hchunks, hhash, hthere⟩ := h.rows c hc
    exact ⟨data, hchunks, hhash, fun d hd => hstore _ d (hthere d hd)⟩
  · intro f hf hlive
    obtain ⟨c, bytes, hc, hrest⟩ := h.files f (hfiles f hf hlive) hlive
    refine ⟨c, bytes, ?_, hrest⟩
    rwa [World.findContent, hcontents]
  · intro id v hv
    rcases hredis id with hsame | hgone
    · rw [hsame] at hv
      exact h.sessionKeys id v hv
    · rw [hgone] at hv
      cases hv
  · intro id hid
    rcases hredis id with hsame | hgone
    · rw [hsame] at hid
      exact (h.sessions id hid).imp_right fun hs => hs.congr hsame
    · rw [hgone] at hid
      cases hid

/-! ### One call -/

section Step

variable {c : Call} {r : Except Exn c.Resp}

/-- The calls that create no file and write no session. The collector is given
content that the database has returned. -/
def harmless (svc : Services) (pg : Postgres) : Call → Prop
  | .fileInsert _ | .insertLink _ _ | .hset _ _ _ => False
  | .redisSet key _ _ => ∀ id, cstr key ≠ cstr (sessionKey id)
  | .purgeContent content => DigestText svc pg content.chunkHashes
  | _ => True

theorem harmless_of_reads {c : Call} (hc : readOnly c = true) : harmless svc pg c := by
  cases c <;> trivial

/-- Of the harmless calls, those that also leave files and contents alone. -/
def calm : Call → Prop
  | .fileInsert _ | .insertLink _ _ | .hset _ _ _ | .fileSoftDelete _ | .purgeContent _ => False
  | .redisSet key _ _ => ∀ id, cstr key ≠ cstr (sessionKey id)
  | _ => True

theorem calm_of_reads {c : Call} (hc : readOnly c = true) : calm c := by
  cases c <;> trivial

theorem harmless_of_calm {c : Call} (hc : calm c) : harmless svc pg c := by
  cases c with
  | redisSet key value ttl => exact hc
  | fileInsert file => exact hc.elim
  | insertLink file contentId => exact hc.elim
  | hset key field value => exact hc.elim
  | fileSoftDelete id => exact hc.elim
  | purgeContent content => exact hc.elim
  | _ => trivial

theorem calm_tables (hc : calm c) (hexec : exec svc pg c w = (r, w')) :
    w'.files = w.files ∧ w'.contents = w.contents := by
  by_cases hdata : touchesData c = false
  · obtain ⟨-, hcontents, hfiles⟩ := exec_data hdata hexec
    exact ⟨hfiles, hcontents⟩
  cases c with
  | put data => rcases exec_put hexec with ⟨rfl, -⟩ | ⟨-, -, rfl⟩ <;> exact ⟨rfl, rfl⟩
  | fileInsert file => exact hc.elim
  | insertLink file contentId => exact hc.elim
  | fileSoftDelete id => exact hc.elim
  | purgeContent content => exact hc.elim
  | _ => exact absurd rfl hdata

/-- The calls that write no session. -/
def keepsSessions : Call → Prop
  | .hset _ _ _ => False
  | .redisSet key _ _ => ∀ id, cstr key ≠ cstr (sessionKey id)
  | _ => True

theorem keepsSessions_of_harmless (hc : harmless svc pg c) : keepsSessions c := by
  cases c with
  | hset key field value => exact hc.elim
  | redisSet key value ttl => exact hc
  | _ => trivial

/-- Redis, after a call that writes no session. -/
theorem sessions_kept (hc : keepsSessions c) (hexec : exec svc pg c w = (r, w')) (id : Bytes) :
    w'.redis (cstr (sessionKey id)) = w.redis (cstr (sessionKey id)) ∨
      w'.redis (cstr (sessionKey id)) = none := by
  by_cases hredis : touchesRedis c = false
  · exact Or.inl (by rw [exec_redis hredis hexec])
  have hw : w' = (exec svc pg c w).2 := by rw [hexec]
  cases c with
  | redisSet key value ttl => rw [hw]; exact Or.inl (Function.update_of_ne (hc id).symm _ _)
  | redisDel key =>
      rw [hw]
      by_cases hkey : cstr (sessionKey id) = cstr key
      · refine Or.inr ?_
        show Function.update w.redis (cstr key) none (cstr (sessionKey id)) = none
        rw [hkey, Function.update_self]
      · exact Or.inl (Function.update_of_ne hkey _ _)
  | hset key field value => exact hc.elim
  | _ => exact absurd rfl hredis

/-- A new object is under its own digest. -/
theorem Faithful.put (h : Faithful svc g w) {data : Bytes} {r : Except Exn Bytes}
    (hexec : exec svc pg (.put data) w = (r, w')) : Faithful svc g w' := by
  rcases exec_put hexec with ⟨rfl, -⟩ | ⟨-, hnew, rfl⟩
  · exact h
  · refine h.congr ?_ ?_ rfl (fun _ hf _ => hf) fun _ => Or.inl rfl
    · intro x d hd
      have hd' : Function.update w.store (svc.sha256 data) (some data) x = some d := hd
      by_cases hx : x = svc.sha256 data
      · rw [hx, Function.update_self] at hd'
        rw [hx, Option.some.inj hd']
      · rw [Function.update_of_ne hx] at hd'
        exact h.objects x d hd'
    · intro x d hd
      have hx : x ≠ svc.sha256 data := by
        rintro rfl
        rw [hnew] at hd
        cases hd
      show Function.update w.store _ _ x = some d
      rwa [Function.update_of_ne hx]

/-- A sweep takes a row that no live file has, and chunks that no row lists. -/
theorem Faithful.sweep (h : Faithful svc g w) {id : Uuid} {store : Bytes → Option Bytes}
    (hdead : w.fileLives id = false)
    (hstore : ∀ x, store x = w.store x ∨
      store x = none ∧ chunkHashInUse (withoutContent id w).contents x = false) :
    Faithful svc g { withoutContent id w with store } := by
  have hother : ∀ f ∈ w.files, f.live = true → f.contentId ≠ id := by
    intro f hf hlive heq
    rw [World.fileLives, List.any_eq_false] at hdead
    exact hdead f hf (by simp [heq, hlive])
  refine ⟨?_, ?_, ?_, ?_, h.sessionKeys,
    fun id' hid' => (h.sessions id' hid').imp_right fun hs => hs.congr rfl⟩
  · intro x d hd
    rcases hstore x with heq | ⟨hgone, -⟩
    · exact h.objects x d (heq ▸ hd)
    · rw [show store x = some d from hd] at hgone
      cases hgone
  · exact h.contentIds.sublist (List.Sublist.map _ List.filter_sublist)
  · intro c hc
    obtain ⟨data, hchunks, hhash, hthere⟩ := h.rows c (List.mem_of_mem_filter hc)
    refine ⟨data, hchunks, hhash, fun d hd => ?_⟩
    rcases hstore (svc.sha256 d) with heq | ⟨-, hunused⟩
    · show store (svc.sha256 d) = some d
      rw [heq]
      exact hthere d hd
    · have huse : chunkHashInUse (withoutContent id w).contents (svc.sha256 d) = true := by
        refine List.any_eq_true.mpr ⟨c, hc, ?_⟩
        rw [hchunks, listsChunk_hashArray]
        exact List.mem_map_of_mem hd
      rw [hunused] at huse
      cases huse
  · intro f hf hlive
    have hf' : f ∈ w.files := List.mem_of_mem_filter hf
    obtain ⟨c, bytes, hc, hrest⟩ := h.files f hf' hlive
    refine ⟨c, bytes, ?_, hrest⟩
    show (w.contents.filter _).find? _ = some c
    rw [List.find?_filter, ← hc, World.findContent]
    congr 1
    funext c'
    by_cases hid : c'.id = f.contentId
    · simp [hid, hother f hf' hlive]
    · simp [hid]

variable (hpg : pg.Lawful svc.json) (hlen : ∀ d, 2 ≤ (svc.digest d).length)

include hpg hlen in
/-- What the collector does, when it is given content the database returned. -/
theorem exec_purge_digests {content : ContentRecord} {r : Except Exn GcStats} {data : List Bytes}
    (htext : content.chunkHashes = pg.jsonbOut (hashArray (data.map svc.sha256)))
    (hexec : exec svc pg (.purgeContent content) w = (r, w')) :
    w' = w ∨ ∃ id store, pg.uuidParam content.id = .ok id ∧ w.fileLives id = false ∧
      w' = { withoutContent id w with store } ∧
      ∀ x, store x = w.store x ∨
        store x = none ∧ chunkHashInUse (withoutContent id w).contents x = false ∧
          x ∈ data.map svc.sha256 := by
  cases exec_purgeContent hexec with
  | nothing => exact Or.inl rfl
  | @swept id hashes store _ b hid hdead hparse hrow hstore hb =>
      obtain rfl : hashes = data.map svc.sha256 := by
        rw [htext, parseChunkHashes_digests svc hpg] at hparse
        exact (Option.some.inj hparse).symm
      have hgood : ∀ hash ∈ data.map svc.sha256, ∃ t, pg.textParam hash = .ok t ∧ 4 ≤ t.length := by
        intro hash hh
        obtain ⟨d, -, rfl⟩ := List.mem_map.mp hh
        exact ⟨_, textParam_sha256 svc d, sha256_length hlen d⟩
      obtain rfl : b = true := hb hgood
      refine Or.inr ⟨id, store, hid, hdead, rfl, fun x => ?_⟩
      rcases hstore x with heq | ⟨hgone, hunused, hash, hmem, hparam⟩
      · exact Or.inl heq
      · obtain ⟨d, -, rfl⟩ := List.mem_map.mp hmem
        rw [textParam_sha256] at hparam
        cases hparam
        exact Or.inr ⟨hgone, hunused, hmem⟩

include hpg hlen in
theorem Faithful.step (h : Faithful svc g w) (hc : harmless svc pg c)
    (hexec : exec svc pg c w = (r, w')) :
    Faithful svc g w' ∧ ∀ c ∈ w'.contents, c ∈ w.contents := by
  by_cases hdata : touchesData c = false
  · obtain ⟨hstore, hcontents, hfiles⟩ := exec_data hdata hexec
    refine ⟨h.congr (fun x d hd => h.objects x d (hstore ▸ hd)) (fun x d hd => by rwa [hstore])
      hcontents (fun f hf _ => hfiles ▸ hf) (sessions_kept (keepsSessions_of_harmless hc) hexec), ?_⟩
    rw [hcontents]
    exact fun _ hc => hc
  cases c with
  | put data =>
      refine ⟨h.put hexec, ?_⟩
      rw [(calm_tables (c := .put data) trivial hexec).2]
      exact fun _ hc => hc
  | fileSoftDelete id =>
      rcases exec_fileSoftDelete hexec with ⟨e, -, rfl⟩ | ⟨u, -, -, rfl⟩
      · exact ⟨h, fun _ hc => hc⟩
      · refine ⟨h.congr h.objects (fun _ _ hd => hd) rfl ?_ fun _ => Or.inl rfl, fun _ hc => hc⟩
        intro f' hf' hlive
        obtain ⟨f, hf, rfl⟩ := List.mem_map.mp hf'
        by_cases hid : f.id = u
        · rw [if_pos hid] at hlive
          cases hlive
        · rwa [if_neg hid]
  | purgeContent content =>
      obtain ⟨data, htext⟩ := hc
      rcases exec_purge_digests hpg hlen htext hexec with rfl | ⟨id, store, -, hdead, rfl, hstore⟩
      · exact ⟨h, fun _ hc => hc⟩
      · refine ⟨h.sweep hdead fun x => (hstore x).imp_right fun hx => ⟨hx.1, hx.2.1⟩, ?_⟩
        exact fun c hc => List.mem_of_mem_filter hc
  | fileInsert file => exact hc.elim
  | insertLink file contentId => exact hc.elim
  | _ => exact absurd rfl hdata

end Step

/-! ### Creating a file -/

/-- Nothing new yet. -/
structure Before (svc : Services) (g : Record) (w₀ w : World) : Prop where
  faithful : Faithful svc g w
  files : w.files = w₀.files
  contents : w.contents = w₀.contents

/-- One file is new, with these bytes; content may be new, of this size. -/
structure After (svc : Services) (g : Record) (w₀ : World) (bytes : Bytes) (size : Int)
    (row : FileRow) (w : World) : Prop where
  fresh : ∀ f ∈ w₀.files, f.id ≠ row.id
  files : w.files = w₀.files ++ [row]
  contents : ∀ c ∈ w.contents, c ∈ w₀.contents ∨
    c.hash = svc.sha256 bytes ∧ c.size = size ∧ svc.oversized size = false ∧
      ∀ d ∈ w₀.contents, d.hash ≠ c.hash
  faithful : Faithful svc (g.setBytes row.id (some bytes)) w

def Outcome (svc : Services) (g : Record) (w₀ : World) (bytes : Bytes) (size : Int) (w : World) :
    Prop :=
  Before svc g w₀ w ∨ ∃ row, After svc g w₀ bytes size row w

theorem Faithful.before (h : Faithful svc g w) : Before svc g w w := ⟨h, rfl, rfl⟩

theorem Before.outcome {w₀ : World} {bytes : Bytes} {size : Int} (h : Before svc g w₀ w) :
    Outcome svc g w₀ bytes size w := Or.inl h

/-- A live row for a file that has just been recorded. -/
theorem Faithful.addRow (h : Faithful svc g w) {row : FileRow} {c : ContentRow} {bytes : Bytes}
    (hfresh : ∀ f ∈ w.files, f.id ≠ row.id) (hrow : w.findContent row.contentId = some c)
    (hhash : c.hash = svc.sha256 bytes) (uuids : Nat → Uuid) :
    Faithful svc (g.setBytes row.id (some bytes)) { w with files := w.files ++ [row], uuids } := by
  refine ⟨h.objects, h.contentIds, h.rows, ?_, h.sessionKeys,
    fun id hid => (h.sessions id hid).imp_right fun hs => hs.congr rfl⟩
  intro f hf hlive
  rcases List.mem_append.mp hf with hf | hf
  · obtain ⟨c', bytes', hc', hbytes', hhash'⟩ := h.files f hf hlive
    refine ⟨c', bytes', hc', ?_, hhash'⟩
    show Function.update g.bytes row.id (some bytes) f.id = some bytes'
    rw [Function.update_of_ne (hfresh f hf)]
    exact hbytes'
  · obtain rfl := List.mem_singleton.mp hf
    exact ⟨c, bytes, hrow, Function.update_self _ _ _, hhash⟩

/-- The content that a query by hash finds. -/
theorem Faithful.findContent_of_mem (h : Faithful svc g w) {c : ContentRow} (hc : c ∈ w.contents) :
    w.findContent c.id = some c := by
  have hsome : (w.findContent c.id).isSome = true :=
    List.find?_isSome.mpr ⟨c, hc, decide_eq_true rfl⟩
  obtain ⟨c', hc'⟩ := Option.isSome_iff_exists.mp hsome
  have hfind : w.contents.find? (fun d => decide (d.id = c.id)) = some c' := hc'
  have hid : c'.id = c.id := by simpa using List.find?_some hfind
  rw [hc', List.inj_on_of_nodup_map h.contentIds (List.mem_of_find?_eq_some hc') hc hid]

section Create

variable {w₀ : World} {bytes : Bytes} {size : Int}

theorem Before.step (hpg : pg.Lawful svc.json) (hlen : ∀ d, 2 ≤ (svc.digest d).length)
    (h : Before svc g w₀ w) {c : Call} {r : Except Exn c.Resp} (hc : calm c)
    (hexec : exec svc pg c w = (r, w')) : Before svc g w₀ w' := by
  obtain ⟨hfiles, hcontents⟩ := calm_tables hc hexec
  exact ⟨(h.faithful.step hpg hlen (harmless_of_calm hc) hexec).1, hfiles.trans h.files,
    hcontents.trans h.contents⟩

theorem After.step (hpg : pg.Lawful svc.json) (hlen : ∀ d, 2 ≤ (svc.digest d).length)
    {row : FileRow} (h : After svc g w₀ bytes size row w) {c : Call} {r : Except Exn c.Resp}
    (hc : calm c) (hexec : exec svc pg c w = (r, w')) : After svc g w₀ bytes size row w' := by
  obtain ⟨hfiles, hcontents⟩ := calm_tables hc hexec
  refine ⟨h.fresh, hfiles.trans h.files, ?_,
    (h.faithful.step hpg hlen (harmless_of_calm hc) hexec).1⟩
  rw [hcontents]
  exact h.contents

theorem wp_calm_before (hpg : pg.Lawful svc.json) (hlen : ∀ d, 2 ≤ (svc.digest d).length)
    {α : Type} {p : App α} (hp : p.CallsOnly calm) (h : Before svc g w₀ w) :
    p.wp (ofExec (exec svc pg)) (fun _ w' => Before svc g w₀ w') w :=
  wp_of_callsOnly (fun w' => Before svc g w₀ w')
    (fun _ _ hc h₁ => ⟨trivial, fun _ _ hexec => h₁.step hpg hlen hc hexec⟩) hp h

theorem wp_calm (hpg : pg.Lawful svc.json) (hlen : ∀ d, 2 ≤ (svc.digest d).length) {α : Type}
    {p : App α} (hp : p.CallsOnly calm) (h : Outcome svc g w₀ bytes size w) :
    p.wp (ofExec (exec svc pg)) (fun _ w' => Outcome svc g w₀ bytes size w') w := by
  refine wp_of_callsOnly (fun w' => Outcome svc g w₀ bytes size w') ?_ hp h
  intro w₁ c hc h₁
  refine ⟨trivial, fun r w₂ hexec => ?_⟩
  rcases h₁ with h₁ | ⟨row, h₁⟩
  · exact Or.inl (h₁.step hpg hlen hc hexec)
  · exact Or.inr ⟨row, h₁.step hpg hlen hc hexec⟩

theorem wp_calm_reads (hpg : pg.Lawful svc.json) (hlen : ∀ d, 2 ≤ (svc.digest d).length)
    {α : Type} {p : App α} (hp : Reads p) (h : Outcome svc g w₀ bytes size w) :
    p.wp (ofExec (exec svc pg)) (fun _ w' => Outcome svc g w₀ bytes size w') w :=
  wp_calm hpg hlen (hp.mono fun _ hc => calm_of_reads hc) h

theorem Before.draws (h : Before svc g w₀ w) (draws : Nat → Nat) :
    Before svc g w₀ { w with draws } :=
  ⟨h.faithful.congr h.faithful.objects (fun _ _ hd => hd) rfl (fun _ hf _ => hf)
    fun _ => Or.inl rfl, h.files, h.contents⟩

theorem Before.skipUuids (h : Before svc g w₀ w) : Before svc g w₀ w.skipUuids :=
  ⟨h.faithful.congr h.faithful.objects (fun _ _ hd => hd) rfl (fun _ hf _ => hf)
    fun _ => Or.inl rfl, h.files, h.contents⟩

/-- A file is linked to content that is there. -/
theorem outcome_insertLink (h : Before svc g w₀ w) {file : FileRecord} {contentId : Bytes}
    {c : ContentRow} (hid : pg.uuidParam contentId = .ok c.id) (hc : w.findContent c.id = some c)
    (hhash : c.hash = svc.sha256 bytes) {r : Except Exn Bytes}
    (hexec : exec svc pg (.insertLink file contentId) w = (r, w')) :
    Outcome svc g w₀ bytes size w' := by
  rcases exec_insertLink hexec with ⟨e, -, rfl⟩ | ⟨row, hrow, -, rfl⟩
  · exact Or.inl h.skipUuids
  · have hcontent : row.contentId = c.id := Except.ok.inj (hrow.contentId.symm.trans hid)
    refine Or.inr ⟨row, fun f hf => hrow.fresh f (h.files ▸ hf), by rw [← h.files], ?_,
      h.faithful.addRow hrow.fresh (hcontent ▸ hc) hhash _⟩
    rw [← h.contents]
    exact fun _ hc => Or.inl hc

/-- A file is inserted with its content: the row that has the hash, or a new one
whose chunks are all there. -/
theorem outcome_fileInsert (hjson : svc.json.Lawful) (hpg : pg.Lawful svc.json)
    (h : Before svc g w₀ w) {file : FileRecord} {data : List Bytes}
    (hhash : file.hash = svc.sha256 data.flatten)
    (hdump : svc.json.dump (hashArray (data.map svc.sha256)) = .ok file.chunkHashes)
    (hthere : ∀ d ∈ data, w.store (svc.sha256 d) = some d)
    (hsmall : svc.oversized file.size = false) {r : Except Exn Bytes}
    (hexec : exec svc pg (.fileInsert file) w = (r, w')) :
    Outcome svc g w₀ data.flatten file.size w' := by
  rcases exec_fileInsert hpg hexec with ⟨e, -, rfl⟩ | ⟨row, contents, c, hens, hid, hrow, -, rfl⟩
  · exact Or.inl h.skipUuids
  have hchash : ∀ {x : Bytes}, pg.textParam file.hash = .ok x → x = svc.sha256 data.flatten := by
    intro x hx
    rw [hhash, textParam_sha256] at hx
    exact (Except.ok.inj hx).symm
  have hfresh : ∀ f ∈ w₀.files, f.id ≠ row.id := fun f hf => hrow.fresh f (h.files ▸ hf)
  refine Or.inr ⟨row, hfresh, by rw [← h.files], ?_, ?_⟩
  · rw [← h.contents]
    cases hens with
    | found _ _ => exact fun _ hc => Or.inl hc
    | created hparam _ hsize hnew =>
        intro c' hc'
        rcases List.mem_append.mp hc' with hc' | hc'
        · exact Or.inl hc'
        · obtain rfl := List.mem_singleton.mp hc'
          exact Or.inr ⟨hchash hparam, hsize, hsize ▸ hsmall, fun d hd => (hnew d hd).2⟩
  · cases hens with
    | found hparam hc =>
        exact h.faithful.addRow hrow.fresh (hid ▸ h.faithful.findContent_of_mem hc) (hchash hparam) _
    | created hparam hchunks _ hnew =>
        -- first the content row, then the file row
        have hf := h.faithful
        have hgrown : Faithful svc g { w with contents := w.contents ++ [c] } := by
          refine ⟨hf.objects, ?_, ?_, ?_, hf.sessionKeys,
            fun id hid => (hf.sessions id hid).imp_right fun hs => hs.congr rfl⟩
          · rw [List.map_append, List.map_singleton, List.nodup_append]
            refine ⟨hf.contentIds, List.nodup_singleton _, ?_⟩
            intro a ha b hb heq
            obtain ⟨d, hd, rfl⟩ := List.mem_map.mp ha
            rw [List.mem_singleton] at hb
            exact (hnew d hd).1 (heq.trans hb)
          · intro c' hc'
            rcases List.mem_append.mp hc' with hc' | hc'
            · exact hf.rows c' hc'
            · obtain rfl := List.mem_singleton.mp hc'
              exact ⟨data, jsonbParam_dump svc hjson hpg hdump hchunks, hchash hparam, hthere⟩
          · intro f hfile hlive
            obtain ⟨c', bytes', hc', hrest⟩ := hf.files f hfile hlive
            refine ⟨c', bytes', ?_, hrest⟩
            rw [World.findContent, List.find?_append, show w.contents.find? _ = some c' from hc']
            rfl
        refine hgrown.addRow hrow.fresh ?_ (hchash hparam) _
        rw [hid]
        exact hgrown.findContent_of_mem (List.mem_append_right _ (List.mem_singleton.mpr rfl))

end Create

/-! ### Uploads -/

section Upload

theorem findContentByHash_ok {bytes : Bytes} {record : FileRecord}
    (h : findContentByHash pg w (svc.sha256 bytes) = .ok (some record)) :
    ∃ c ∈ w.contents, c.hash = svc.sha256 bytes ∧ record.contentId = c.id.text ∧
      record.size = c.size := by
  obtain ⟨c, hc, hparam, rfl⟩ := findContentByHash_some h
  rw [textParam_sha256] at hparam
  exact ⟨c, hc, (Except.ok.inj hparam).symm, rfl, rfl⟩

variable {w₀ : World} {size : Int} (hjson : svc.json.Lawful) (hpg : pg.Lawful svc.json)
  (hlen : ∀ d, 2 ≤ (svc.digest d).length) (hinj : Function.Injective svc.sha256)

include hpg in
theorem wp_linkContent {bytes : Bytes} (h : Before svc g w₀ w) {record : FileRecord}
    {c : ContentRow} (hc : c ∈ w₀.contents) (hhash : c.hash = svc.sha256 bytes)
    (hid : record.contentId = c.id.text) (filename mimeType userId folderId : Bytes) :
    (linkExistingContent record filename mimeType userId folderId).wp (ofExec (exec svc pg))
      (fun _ w' => Outcome svc g w₀ bytes size w') w := by
  refine wp_finds_bind (finds_reads (reads_makeUniqueName _ _ _)) (fun name draws _ => ?_)
    fun _ draws => Or.inl (h.draws draws)
  have hparam : pg.uuidParam record.contentId = .ok c.id := by
    rw [hid]
    exact uuidParam_text hpg c.id
  have hmem : c ∈ w.contents := h.contents ▸ hc
  exact wp_request.mpr ⟨trivial, fun r w' hexec => outcome_insertLink (h.draws draws) hparam
    (h.faithful.findContent_of_mem hmem) hhash hexec⟩

include hpg hlen hinj in
/-- Stored chunks stay until something removes them. -/
theorem wp_putAll_before : ∀ (chunks : List Bytes) {w : World}, Before svc g w₀ w →
    (putAll chunks).wp (ofExec (exec svc pg)) (fun r w' => Before svc g w₀ w' ∧
      (∀ x, (w.store x).isSome = true → (w'.store x).isSome = true) ∧
      ∀ hs, r = .ok hs → hs = chunks.map svc.sha256 ∧
        ∀ d ∈ chunks, w'.store (svc.sha256 d) = some d) w
  | [], w, h => ⟨h, fun _ hx => hx, fun hs hr => by
      cases hr
      exact ⟨rfl, fun _ hd => absurd hd List.not_mem_nil⟩⟩
  | chunk :: chunks, w, h => by
      have hput : ∀ {r : Except Exn Bytes} {w₁ : World},
          exec svc pg (.put chunk) w = (r, w₁) → Before svc g w₀ w₁ :=
        fun hexec => h.step hpg hlen (c := .put chunk) trivial hexec
      refine wp_request_bind trivial (fun hash w₁ hexec => ?_) fun e w₁ hexec => ?_
      swap
      · exact ⟨hput hexec, (put_step hexec).2.1, nofun⟩
      have hhash : hash = svc.sha256 chunk := by
        rcases exec_put hexec with ⟨-, ⟨hr, -⟩ | ⟨hr, -⟩⟩ | ⟨hr, -⟩
        · cases hr
        · exact Except.ok.inj hr
        · exact Except.ok.inj hr
      have hthere : (w₁.store (svc.sha256 chunk)).isSome = true :=
        (put_step hexec).2.2 _ (congrArg Except.ok hhash)
      refine wp_seq (wp_putAll_before chunks (hput hexec)) ?_ ?_
      · rintro hs w₂ ⟨h₂, hmono, hres⟩
        obtain ⟨rfl, hstored⟩ := hres hs rfl
        refine ⟨h₂, fun x hx => hmono x ((put_step hexec).2.1 x hx), fun hs' hr => ?_⟩
        cases hr
        refine ⟨by rw [hhash]; rfl, fun d hd => ?_⟩
        rcases List.mem_cons.mp hd with rfl | hd
        · -- the object under the digest has that digest, and SHA-256 is injective
          obtain ⟨d', hd'⟩ := Option.isSome_iff_exists.mp (hmono _ hthere)
          rw [hd', hinj (h₂.faithful.objects _ _ hd')]
        · exact hstored d hd
      · rintro e w₂ ⟨h₂, hmono, -⟩
        exact ⟨h₂, fun x hx => hmono x ((put_step hexec).2.1 x hx), nofun⟩

include hjson hpg hlen hinj in
theorem outcome_uploadNew {body : Bytes} (h : Before svc g w₀ w)
    (hsmall : svc.oversized body.length = false) (filename mimeType userId folderId : Bytes) :
    (uploadNew svc body filename mimeType userId folderId (svc.sha256 body)).wp
      (ofExec (exec svc pg)) (fun _ w' => Outcome svc g w₀ body body.length w') w := by
  refine wp_seq (wp_putAll_before hpg hlen hinj _ h) ?_ fun e w₁ h₁ => Or.inl h₁.1
  rintro hs w₁ ⟨h₁, -, hres⟩
  obtain ⟨rfl, hstored⟩ := hres hs rfl
  have hflatten := chunksOf_flatten svc.storeChunkSize_pos body
  cases hdump : svc.json.dump (hashArray ((chunksOf svc.storeChunkSize body).map svc.sha256)) with
  | error e => exact Or.inl h₁
  | ok chunkHashes =>
      have hinsert : ∀ {file : FileRecord} {r : Except Exn Bytes} {w' : World},
          file.hash = svc.sha256 body → file.size = body.length → file.chunkHashes = chunkHashes →
          exec svc pg (.fileInsert file) w₁ = (r, w') →
          Outcome svc g w₀ body body.length w' := by
        intro file r w' hhash hsize hchunks hexec
        have hflat : file.hash = svc.sha256 (chunksOf svc.storeChunkSize body).flatten := by
          rw [hflatten, hhash]
        have hout := outcome_fileInsert hjson hpg h₁ hflat (by rw [hchunks]; exact hdump) hstored
          (by rw [hsize]; exact hsmall) hexec
        rwa [hflatten, hsize] at hout
      refine wp_request_bind trivial (fun fileId w₂ hexec => ?_)
        fun e w₂ hexec => hinsert rfl rfl rfl hexec
      refine wp_calm hpg hlen ?_ (hinsert rfl rfl rfl hexec)
      exact callsOnly_bind (callsOnly_indexContent (fun c hc => calm_of_reads hc) svc
        (fun hash _ => hashKey_ne hash) _) fun _ =>
        callsOnly_reads (fun c hc => calm_of_reads hc) (reads_setJson svc _)

/-- The Redis index of contents is no session. -/
theorem calm_rememberHash (hash contentId : Bytes) :
    (rememberHash svc hash contentId).CallsOnly calm :=
  callsOnly_rememberHash svc (fun hash _ => hashKey_ne hash) hash contentId

theorem calm_of_readsOnly {α : Type} {p : App α} (hp : Reads p) : p.CallsOnly calm :=
  hp.mono fun _ hc => calm_of_reads hc

include hjson hpg hlen hinj in
theorem outcome_uploadContent {body : Bytes} (h : Before svc g w₀ w)
    (hsmall : svc.oversized body.length = false) (filename mimeType userId folderId : Bytes) :
    (uploadContent svc body filename mimeType userId folderId).wp
      (ofExec (exec svc pg)) (fun _ w' => Outcome svc g w₀ body body.length w') w := by
  refine course_uploadContent (P := Before svc g w₀) (U := Before svc g w₀)
    (K := fun record w' => Before svc g w₀ w' ∧ ∃ c ∈ w₀.contents, c.hash = svc.sha256 body ∧
      record.contentId = c.id.text) ?_ ?_ (fun _ h₁ => h₁) ?_ ?_ ?_ h
  · intro w₁ k h₁ hk
    exact wp_finds_bind (finds_reads (reads_ask rfl)) (fun a draws _ => hk a _ (h₁.draws draws))
      fun _ draws => Or.inl (h₁.draws draws)
  · intro w₁ k h₁ hnone hsome
    refine wp_finds_bind (finds_ask rfl) (fun content draws hcontent => ?_)
      fun _ draws => Or.inl (h₁.draws draws)
    cases content with
    | none => exact hnone _ (h₁.draws draws)
    | some record =>
        obtain ⟨c, hc, hhash, hid, -⟩ := findContentByHash_ok
          (show findContentByHash pg w₁ (svc.sha256 body) = .ok (some record) from hcontent)
        exact hsome record _ ⟨h₁.draws draws, c, h₁.contents ▸ hc, hhash, hid⟩
  · rintro record w₁ k ⟨h₁, hc⟩ hk
    exact wp_seq (wp_calm_before hpg hlen (calm_rememberHash _ _) h₁)
      (fun _ w₂ h₂ => hk w₂ ⟨h₂, hc⟩) fun _ _ h₂ => Or.inl h₂
  · rintro record w₁ ⟨h₁, c, hc, hhash, hid⟩
    refine wp_seq (wp_linkContent hpg h₁ hc hhash hid _ _ _ _) ?_ fun _ _ h₂ => h₂
    exact fun fileId w₂ h₂ => wp_calm_reads hpg hlen (reads_setJson svc _) h₂
  · exact fun w₁ h₁ => outcome_uploadNew hjson hpg hlen hinj h₁ hsmall _ _ _ _

include hjson hpg hlen hinj in
/-- A single upload: no new file, or one with the bytes of the request. -/
theorem outcome_uploadRoute (req : HttpRequest) (h : Faithful svc g w) :
    (uploadRoute svc req).wp (ofExec (exec svc pg))
      (fun _ w' => Outcome svc g w req.body req.body.length w') w := by
  have hreads : ∀ {p : App HttpResponse} {w₁ : World}, Reads p →
      Outcome svc g w req.body req.body.length w₁ → p.wp (ofExec (exec svc pg))
        (fun _ w' => Outcome svc g w req.body req.body.length w') w₁ :=
    fun hp h₁ => wp_calm_reads hpg hlen hp h₁
  refine course_uploadRoute (P := Before svc g w) (F := fun _ => Before svc g w) ?_ ?_ ?_ ?_ h.before
  · exact fun code msg w₁ h₁ => hreads (reads_setError svc _ _) (Or.inl h₁)
  · exact fun e w₁ h₁ => hreads (reads_catchStd svc _ e) h₁
  · intro w₁ k h₁ hrefused hfound
    refine wp_finds_bind (finds_reads (reads_resolveFolderId svc _ _)) (fun folder draws _ => ?_)
      fun _ draws => Or.inl (h₁.draws draws)
    cases folder with
    | error resp => exact hrefused resp _ (Or.inl (h₁.draws draws))
    | ok folderId => exact hfound folderId _ (h₁.draws draws)
  · exact fun folderId w₁ h₁ hsmall =>
      outcome_uploadContent hjson hpg hlen hinj h₁ hsmall _ _ _ _

end Upload

end Invariant

end SolarDrive.Runs
