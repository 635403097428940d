import SolarDrive.Metadata.Constraints
import SolarDrive.Runs.Deduplication
import SolarDrive.Runs.Fidelity
import SolarDrive.Runs.NameConflicts
import SolarDrive.Runs.SessionRoundTrip

/-!
# An upload in parts, from the start to the download

Started in any state of a history, an upload goes through: whatever the order of
its parts, and whatever else is done in between that spares it, each of its
requests is answered with 200, and its owner downloads the parts put together.
-/

namespace SolarDrive.Runs

open Lib Http Api Metadata Prog

/-! ## The upload -/

/-- What a client uploads, and where to. -/
structure Upload where
  init : InitBody
  owner : Uuid
  folder : Option Uuid
  pieces : List Bytes

namespace Upload

def data (u : Upload) : Bytes := u.pieces.flatten

/-- The parts that are there once these have been sent. -/
def parts (u : Upload) (sent : List Nat) : List (Option Bytes) :=
  (List.range u.pieces.length).map fun i => if i ∈ sent then u.pieces[i]? else none

def session (svc : Services) (u : Upload) (uploadId : Bytes) (sent : List Nat) :
    MultipartSession where
  uploadId := uploadId
  userId := u.owner.text
  folderId := u.init.folderId
  fileName := u.init.fileName
  mimeType := u.init.mimeType
  totalSize := u.init.totalSize
  chunkSize := svc.chunkSize
  chunkCount := u.pieces.length
  uploaded := (u.parts sent).map Option.isSome
  partHashes := (u.parts sent).map (partHash svc)

/-- An upload that the handlers have no reason to refuse: a name, texts without
NUL, as many parts as are counted, none of them empty or too long. -/
structure Valid (svc : Services) (u : Upload) : Prop where
  named : u.init.fileName ≠ []
  fileName : validUtf8 u.init.fileName = true ∧ NUL ∉ u.init.fileName
  mimeType : validUtf8 u.init.mimeType = true ∧ NUL ∉ u.init.mimeType
  folderId : NUL ∉ u.init.folderId
  totalSize : u.init.totalSize = u.data.length
  bigint : u.init.totalSize < 2 ^ 63
  allowed : svc.oversized u.init.totalSize = false
  some_piece : u.pieces ≠ []
  count : partCount u.init.totalSize svc.chunkSize = u.pieces.length
  piece : ∀ piece ∈ u.pieces, piece ≠ [] ∧ piece.length ≤ svc.chunkSize

/-- The owner and the folder are there, the name is free, and the ids that are
generated are new. -/
structure Room (u : Upload) (w : World) : Prop where
  user : w.users.any (·.id = u.owner) = true
  folder : u.folder.all (fun p => w.folders.any (·.id = p)) = true
  free : indexed w u.owner u.folder u.init.fileName = false
  ids : ∀ n, w.files.any (·.id = w.uuids n) = false ∧ w.findContent (w.uuids n) = none

variable {svc : Services} {u : Upload} {sent : List Nat} {i : Nat} {piece : Bytes}

theorem length_parts : (u.parts sent).length = u.pieces.length := by
  rw [parts, List.length_map, List.length_range]

theorem getElem?_parts (hi : i < u.pieces.length) :
    (u.parts sent)[i]? = some (if i ∈ sent then u.pieces[i]? else none) := by
  rw [parts, List.getElem?_map, List.getElem?_range hi]
  rfl

/-- One more part is sent. -/
theorem parts_cons (hpiece : u.pieces[i]? = some piece) :
    u.parts (i :: sent) = (u.parts sent).set i (some piece) := by
  refine List.ext_getElem? fun j => ?_
  by_cases hj : j < u.pieces.length
  swap
  · rw [List.getElem?_eq_none (by rw [length_parts]; omega),
      List.getElem?_eq_none (by rw [List.length_set, length_parts]; omega)]
  rw [getElem?_parts hj, List.getElem?_set, length_parts, getElem?_parts hj]
  by_cases hij : i = j
  · subst hij
    rw [if_pos List.mem_cons_self, if_pos rfl, if_pos hj, hpiece]
  · simp only [List.mem_cons, if_neg hij, Ne.symm hij, false_or]

theorem parts_nil : u.parts [] = List.replicate u.pieces.length none := by
  refine List.eq_replicate_iff.mpr ⟨length_parts, fun part hpart => ?_⟩
  obtain ⟨i, -, rfl⟩ := List.mem_map.mp hpart
  exact if_neg List.not_mem_nil

/-- When every part has been sent, they are all there. -/
theorem parts_all (hall : ∀ i < u.pieces.length, i ∈ sent) : u.parts sent = u.pieces.map some := by
  refine List.ext_getElem? fun j => ?_
  by_cases hj : j < u.pieces.length
  · rw [getElem?_parts hj, if_pos (hall j hj), List.getElem?_map, List.getElem?_eq_getElem hj]
    rfl
  · rw [List.getElem?_eq_none (by rw [length_parts]; omega),
      List.getElem?_eq_none (by rw [List.length_map]; omega)]

theorem record_session (hpiece : u.pieces[i]? = some piece) (uploadId : Bytes) :
    (u.session svc uploadId sent).record i (svc.sha256 piece) =
      u.session svc uploadId (i :: sent) := by
  have hparts : u.parts (i :: sent) = (u.parts sent).set i (some piece) := parts_cons hpiece
  unfold MultipartSession.record session
  rw [hparts, List.map_set, List.map_set]
  rfl

theorem session_nil (hv : u.Valid svc) (uploadId : Bytes) :
    newSession svc u.init u.owner.text uploadId = u.session svc uploadId [] := by
  unfold newSession session
  rw [parts_nil, hv.count, List.map_replicate, List.map_replicate]
  rfl

theorem Valid.positive (hv : u.Valid svc) : 0 < u.init.totalSize := by
  obtain ⟨piece, hmem⟩ := List.exists_mem_of_ne_nil _ hv.some_piece
  have hlength : 0 < u.data.length := by
    refine List.length_pos_iff.mpr fun hnil => (hv.piece piece hmem).1 ?_
    exact List.flatten_eq_nil_iff.mp hnil piece hmem
  rw [hv.totalSize]
  exact_mod_cast hlength

theorem Valid.producible (hv : u.Valid svc) {uploadId : Bytes} (hid : uploadId ≠ []) :
    Producible (u.session svc uploadId sent) := by
  have hsize := svc.chunkSize_lt
  have hpositive := hv.positive
  have hcount := (partCount_range u.init.totalSize svc.chunkSize).2
  rw [hv.count] at hcount
  constructor
  · exact hid
  · exact ⟨by show -(2 ^ 63) ≤ u.init.totalSize; omega, hv.bigint⟩
  · show -(2 ^ 63) ≤ (svc.chunkSize : Int) ∧ (svc.chunkSize : Int) < 2 ^ 63
    omega
  · exact hcount
  · exact congrArg Nat.cast ((List.length_map _).trans length_parts)
  · exact congrArg Nat.cast ((List.length_map _).trans length_parts)
  · intro hash hhash
    obtain ⟨part, -, rfl⟩ := List.mem_map.mp hhash
    cases part with
    | none => rfl
    | some body => exact validUtf8_sha256 svc body

theorem Valid.nulFree (hv : u.Valid svc) (uploadId : Bytes) :
    NulFree (u.session svc uploadId sent) := by
  refine ⟨hv.fileName.2, hv.mimeType.2, fun hnul => ?_, hv.folderId⟩
  exact absurd rfl (isUuidText_ascii u.owner.isText hnul).1

end Upload

/-! ## One request -/

section Requests

variable {svc : Services} {pg : Postgres} {w : World} {u : Upload} {uploadId : Bytes}
  {sent : List Nat} {req : HttpRequest}

/-- What a session in Redis says. -/
structure Stored (svc : Services) (session : MultipartSession) (w : World) : Prop where
  hashKey : HashKey w (sessionKey session.uploadId)
  seen : Seen svc (.calm w) session

/-- An upload between two requests. -/
structure UnderWay (svc : Services) (u : Upload) (uploadId : Bytes) (sent : List Nat) (w : World) :
    Prop where
  stored : Stored svc (u.session svc uploadId sent) w
  objects : ∀ i ∈ sent, ∀ piece, u.pieces[i]? = some piece →
    w.store (svc.sha256 piece) = some piece
  room : u.Room w

theorem hasAuthUser_of_owner {owner : Uuid} (h : req.authUserId = owner.text) :
    req.hasAuthUser = true := by
  rw [HttpRequest.hasAuthUser, h]
  cases htext : owner.text with
  | nil => exact absurd htext (Uuid.text_ne_nil owner)
  | cons c text => rfl

theorem Stored.loads {session : MultipartSession} (h : Stored svc session w)
    (hredis : svc.hasRedis = true) (hid : session.uploadId ≠ []) :
    (loadFromRedis svc session.uploadId).run (exec svc pg) w = (.ok session, w) :=
  Prod.ext ((@loaded_iff_seen svc pg w session hid).mpr ⟨hredis, h.seen⟩)
    (run_unchanged (callsOnly_loadFromRedis svc (fun _ _ => rfl) fun _ _ => rfl))

/-- The owner's session is found. -/
theorem Stored.found {session : MultipartSession} (h : Stored svc session w)
    (hredis : svc.hasRedis = true) (hid : session.uploadId ≠ [])
    (huser : session.userId = req.authUserId) :
    (requireSession svc req session.uploadId).run (exec svc pg) w = (.ok (.ok session), w) := by
  unfold requireSession
  rw [run_bind, h.loads hredis hid]
  dsimp only
  rw [if_neg hid, if_neg (fun hne => hne huser)]
  rfl

/-- A session that is saved can be loaded. -/
theorem run_saveToRedis_stored (hjson : svc.json.Lawful) (hredis : svc.hasRedis = true)
    {session : MultipartSession} (h : Producible session) (hn : NulFree session)
    (hkey : HashKey w (sessionKey session.uploadId)) :
    ∃ redis, (saveToRedis svc session).run (exec svc pg) w = (.ok (), { w with redis }) ∧
      Stored svc session { w with redis } := by
  obtain ⟨t, ht, -, -⟩ := hjson.dump_flat _ (isFlat_hashArray session.partHashes)
    (by rw [texts_hashArray]; exact h.readable)
  obtain ⟨t', ht', -, -⟩ := hjson.dump_flat _ (isFlat_flagArray session.uploaded)
    (by rw [texts_flagArray]; exact fun text htext => absurd htext List.not_mem_nil)
  obtain ⟨hdone, hre⟩ := run_of_wp (@wp_saveToRedis_written svc pg w session t t' hkey hredis ht ht')
  have hseen := (seen_iff_nulFree hjson h ht ht' hre.written).mpr hn
  have hworld := hre.world
  refine ⟨_, Prod.ext hdone hworld, ?_⟩
  rw [← hworld]
  exact ⟨hre.hashKey, hseen⟩

/-- An object is there once it has been put, and no other is lost. -/
theorem exec_put_there (hlen : ∀ d, 2 ≤ (svc.digest d).length)
    (hinj : Function.Injective svc.sha256)
    (hobjects : ∀ h d, w.store h = some d → h = svc.sha256 d) (data : Bytes) :
    ∃ store, exec svc pg (.put data) w = (.ok (svc.sha256 data), { w with store }) ∧
      store (svc.sha256 data) = some data ∧ ∀ h d, w.store h = some d → store h = some d := by
  have hlong : ¬ (svc.sha256 data).length < 4 := Nat.not_lt.mpr (sha256_length hlen data)
  rcases exec_put (show exec svc pg (.put data) w = (_, _) from rfl) with
    ⟨hw, ⟨-, hshort⟩ | ⟨hr, hthere⟩⟩ | ⟨hr, hnew, hw⟩
  · exact absurd hshort hlong
  · obtain ⟨d, hd⟩ := Option.isSome_iff_exists.mp hthere
    obtain rfl : data = d := hinj (hobjects _ _ hd)
    exact ⟨w.store, Prod.ext hr hw, hd, fun _ _ h => h⟩
  · refine ⟨_, Prod.ext hr hw, Function.update_self _ _ _, fun h d hd => ?_⟩
    have hother : h ≠ svc.sha256 data := by
      rintro rfl
      rw [hnew] at hd
      cases hd
    rw [Function.update_of_ne hother]
    exact hd

/-- The request that sends a part. -/
structure Upload.PartRequest (u : Upload) (uploadId : Bytes) (i : Nat) (req : HttpRequest) : Prop where
  user : req.authUserId = u.owner.text
  path : req.getPathParam (ascii "upload_id") = uploadId
  number : stoi (req.getPathParam (ascii "part_num")) = .ok (i : Int)
  body : u.pieces[i]? = some req.body

theorem Upload.Room.congr {w' : World} (h : u.Room w) (husers : w'.users = w.users)
    (hfolders : w'.folders = w.folders) (hfiles : w'.files = w.files)
    (hcontents : w'.contents = w.contents) (huuids : w'.uuids = w.uuids) : u.Room w' := by
  obtain ⟨huser, hfolder, hfree, hids⟩ := h
  unfold indexed at hfree
  unfold World.findContent at hids
  refine ⟨husers ▸ huser, hfolders ▸ hfolder, ?_, ?_⟩
  · unfold indexed
    rwa [hfiles]
  · unfold World.findContent
    rwa [hfiles, hcontents, huuids]

/-- The part is stored, and the session has it. -/
theorem wp_storePart (hjson : svc.json.Lawful) (hlen : ∀ d, 2 ≤ (svc.digest d).length)
    (hinj : Function.Injective svc.sha256) (hredis : svc.hasRedis = true) (hv : u.Valid svc)
    (hid : uploadId ≠ []) (hobjects : ∀ h d, w.store h = some d → h = svc.sha256 d)
    (h : UnderWay svc u uploadId sent w) {i : Nat} {body : Bytes} (hbody : u.pieces[i]? = some body) :
    (storePart svc (u.session svc uploadId sent) i body).wp (ofExec (exec svc pg))
      (fun r w' => accepted r = true ∧ UnderWay svc u uploadId (i :: sent) w') w := by
  obtain ⟨store, hput, hthere, hkept⟩ := @exec_put_there svc pg w hlen hinj hobjects body
  have hproducible : Producible (u.session svc uploadId (i :: sent)) := hv.producible hid
  obtain ⟨redis, hsave, hstored⟩ := @run_saveToRedis_stored svc pg { w with store } hjson hredis
    (u.session svc uploadId (i :: sent)) hproducible (hv.nulFree uploadId) h.stored.hashKey
  have hunderway : UnderWay svc u uploadId (i :: sent) { w with store, redis } := by
    refine ⟨hstored, fun j hj piece hpiece => ?_, h.room.congr rfl rfl rfl rfl rfl⟩
    rcases List.mem_cons.mp hj with rfl | hj
    · obtain rfl := Option.some.inj (hbody.symm.trans hpiece)
      exact hthere
    · exact hkept _ _ (h.objects j hj piece hpiece)
  unfold storePart
  refine wp_run_bind ((run_request _ _ _).trans hput) ?_
  unfold recordPart
  dsimp only
  rw [Upload.record_session hbody]
  have hnotified : (notifyUploadProgress (u.session svc uploadId (i :: sent))).run (exec svc pg)
      { w with store, redis } = (.ok (), { w with store, redis }) := rfl
  refine wp_run_bind hsave (wp_run_bind hnotified ?_)
  have hi : i < u.pieces.length := (List.getElem?_eq_some_iff.mp hbody).1
  have hfits := (hv.piece body (List.mem_of_getElem? hbody)).2
  have hcount := (partCount_range u.init.totalSize svc.chunkSize).2
  rw [hv.count] at hcount
  have hsize := svc.chunkSize_lt
  refine wp_mono (wp_setJson_object hjson ?_ ?_ ?_) ?_
  any_goals simp only [List.map_cons, List.map_nil]
  · rfl
  · decide
  · simp only [List.forall_mem_cons]
    exact ⟨sendable_str (validUtf8_sha256 svc body), sendable_int (by omega) (by omega),
      sendable_int (by omega) (by omega), fun j hj => absurd hj List.not_mem_nil⟩
  · rintro r _ ⟨rfl, haccepted⟩
    exact ⟨haccepted, hunderway⟩

/-- A part is taken, whatever parts there are. -/
theorem wp_handleUploadPart (hjson : svc.json.Lawful) (hlen : ∀ d, 2 ≤ (svc.digest d).length)
    (hinj : Function.Injective svc.sha256) (hredis : svc.hasRedis = true) (hv : u.Valid svc)
    (hid : uploadId ≠ []) (hobjects : ∀ h d, w.store h = some d → h = svc.sha256 d)
    (h : UnderWay svc u uploadId sent w) {i : Nat} (hreq : u.PartRequest uploadId i req) :
    (handleUploadPart svc req).wp (ofExec (exec svc pg))
      (fun r w' => accepted r = true ∧ UnderWay svc u uploadId (i :: sent) w') w := by
  obtain ⟨hnonempty, hfits⟩ := hv.piece req.body (List.mem_of_getElem? hreq.body)
  have hi : i < u.pieces.length := (List.getElem?_eq_some_iff.mp hreq.body).1
  have hnumbered : req.getPathParam (ascii "part_num") ≠ [] := by
    intro hnil
    have hnumber := hreq.number
    rw [hnil] at hnumber
    cases hnumber
  have hrange : ¬ ((i : Int) < 0 ∨ (u.session svc uploadId sent).chunkCount ≤ i) := by
    show ¬ ((i : Int) < 0 ∨ (u.pieces.length : Int) ≤ i)
    omega
  have hchunk : ¬ (u.session svc uploadId sent).chunkSize < req.body.length := by
    show ¬ (svc.chunkSize : Int) < req.body.length
    omega
  refine wp_catch (M := fun r w' => accepted r = true ∧ UnderWay svc u uploadId (i :: sent) w') ?_
    (fun _ _ h' => h') fun e w' h' => (by cases h'.1)
  rw [hasAuthUser_of_owner hreq.user]
  dsimp only [Bool.not_true, Bool.false_eq_true, if_false]
  rw [hreq.path, if_neg (not_or.mpr ⟨hid, hnumbered⟩), hreq.number]
  show (if req.body = [] then _ else _ : App HttpResponse).wp _ _ _
  rw [if_neg hnonempty]
  refine wp_run_bind (h.stored.found hredis hid hreq.user.symm) ?_
  dsimp only
  rw [if_neg hrange, if_neg hchunk]
  exact wp_storePart hjson hlen hinj hredis hv hid hobjects h hreq.body

/-- The folder of the upload is the root, or one of the owner's. -/
def Upload.Owned (pg : Postgres) (u : Upload) (w : World) : Prop :=
  u.init.folderId = [] ∨ ∃ f, folderFindById pg w u.init.folderId = .ok (some f) ∧
    f.ownerId = u.owner.text

theorem Upload.Owned.resolved (h : u.Owned pg w) :
    (resolveFolderId svc u.init.folderId u.owner.text).run (exec svc pg) w =
      (.ok (.ok u.init.folderId), w) := by
  unfold resolveFolderId
  split
  · rename_i hroot
    rw [hroot]
    rfl
  · rename_i hne
    obtain ⟨f, hf, howner⟩ := h.resolve_left hne
    have hquery : exec svc pg (.folderFindById u.init.folderId) w = (.ok (some f), w) :=
      Prod.ext hf rfl
    rw [ask, run_request_bind, hquery]
    dsimp only
    rw [if_neg (fun hother => hother howner)]
    rfl

theorem run_startSession {init : InitBody} (hcount : 0 ≤ partCount init.totalSize svc.chunkSize)
    (userId : Bytes) : ∃ draws, (startSession svc init userId init.folderId).run (exec svc pg) w =
      (.ok (newSession svc init userId (generatedId w)), { w with draws }) := by
  have hid : ∃ draws, (generateUuid).run (exec svc pg) w = (.ok (generatedId w), { w with draws }) :=
    ⟨_, rfl⟩
  obtain ⟨draws, hid⟩ := hid
  refine ⟨draws, ?_⟩
  unfold startSession
  rw [run_bind, hid]
  dsimp only
  rw [if_neg (not_lt.mpr hcount)]
  rfl

/-- What the client is told about its session. -/
def Upload.Announced (svc : Services) (u : Upload) (uploadId : Bytes) (r : Except Exn HttpResponse) :
    Prop :=
  ∃ text, svc.json.dump (object [("chunk_count", .int u.pieces.length),
      ("chunk_size", .int svc.chunkSize), ("upload_id", .str uploadId)]) = .ok text ∧
    r = .ok (HttpResponse.setJson {} text)

theorem generatedId_ne_nil (w : World) : generatedId w ≠ [] := by
  intro hnil
  exact absurd (List.append_eq_nil_iff.mp hnil).2 (List.cons_ne_nil _ _)

/-- The upload is started, under a new id. -/
theorem wp_handleInit (hjson : svc.json.Lawful) (hredis : svc.hasRedis = true) (hv : u.Valid svc)
    (hkey : HashKey w (sessionKey (generatedId w))) (howned : u.Owned pg w) (hroom : u.Room w)
    {body : Json} (hparse : svc.json.parse req.body = .ok body)
    (hread : readInitBody body = .ok u.init) (huser : req.authUserId = u.owner.text) :
    (handleInit svc req).wp (ofExec (exec svc pg))
      (fun r w' => u.Announced svc (generatedId w) r ∧ UnderWay svc u (generatedId w) [] w') w := by
  have hcount : 0 ≤ partCount u.init.totalSize svc.chunkSize := by
    rw [hv.count]
    exact Int.natCast_nonneg _
  obtain ⟨draws, hstart⟩ := @run_startSession svc pg w u.init hcount u.owner.text
  rw [Upload.session_nil hv] at hstart
  have hid := generatedId_ne_nil w
  have hproducible : Producible (u.session svc (generatedId w) []) := hv.producible hid
  obtain ⟨redis, hsave, hstored⟩ := @run_saveToRedis_stored svc pg { w with draws } hjson hredis
    (u.session svc (generatedId w) []) hproducible (hv.nulFree _) hkey
  have hunderway : UnderWay svc u (generatedId w) [] { w with draws, redis } :=
    ⟨hstored, fun j hj => absurd hj List.not_mem_nil, hroom.congr rfl rfl rfl rfl rfl⟩
  refine wp_catch (M := fun r w' => u.Announced svc (generatedId w) r ∧
    UnderWay svc u (generatedId w) [] w') ?_ (fun _ _ h' => h') ?_
  swap
  · rintro e w' ⟨⟨text, -, heq⟩, -⟩
    cases heq
  rw [hasAuthUser_of_owner huser, Bool.not_true, if_neg Bool.false_ne_true]
  refine wp_success_bind (exec_jsonParse hparse) ?_
  rw [hread]
  show (if _ then _ else _ : App HttpResponse).wp _ _ _
  rw [if_neg (not_or.mpr ⟨hv.named, not_le.mpr hv.positive⟩), hv.allowed, if_neg Bool.false_ne_true,
    huser]
  refine wp_run_bind howned.resolved (wp_run_bind hstart (wp_run_bind hsave ?_))
  have hrange := (partCount_range u.init.totalSize svc.chunkSize).2
  rw [hv.count] at hrange
  have hsize := svc.chunkSize_lt
  refine wp_mono (wp_setJson_text hjson ?_ ?_ ?_) ?_
  any_goals simp only [List.map_cons, List.map_nil]
  · rfl
  · decide
  · simp only [List.forall_mem_cons]
    exact ⟨sendable_int (by show -(2 ^ 63) ≤ (u.pieces.length : Int); omega)
        (by show (u.pieces.length : Int) < 2 ^ 63; omega),
      sendable_int (by show -(2 ^ 63) ≤ (svc.chunkSize : Int); omega)
        (by show (svc.chunkSize : Int) < 2 ^ 63; omega),
      sendable_str (generatedId_ascii w), fun j hj => absurd hj List.not_mem_nil⟩
  · rintro r _ ⟨rfl, text, hdump, rfl⟩
    exact ⟨⟨text, hdump, rfl⟩, hunderway⟩

/-- The new file is that of the upload. -/
structure Filed (svc : Services) (u : Upload) (w : World) (row : FileRow) (w' : World) : Prop where
  files : w'.files = w.files ++ [row]
  name : row.name = u.init.fileName
  ownerId : row.ownerId = u.owner
  folderId : row.folderId = u.folder
  live : row.live = true
  fresh : ∀ f ∈ w.files, f.id ≠ row.id
  content : ∃ c ∈ w'.contents, c.id = row.contentId ∧ c.hash = svc.sha256 u.data

theorem textParam_of_text {t : Bytes} (h : validUtf8 t = true ∧ NUL ∉ t) : pg.textParam t = .ok t :=
  textParam_ok.mpr ⟨(congrArg validUtf8 (cstr_of_not_mem h.2)).trans h.1, (cstr_of_not_mem h.2).symm⟩

/-- The record says the name, the owner and the folder of the upload. -/
structure Upload.Describes (u : Upload) (file : FileRecord) : Prop where
  name : file.name = u.init.fileName
  ownerId : file.ownerId = u.owner.text
  folderId : file.folderId = u.init.folderId

theorem Upload.Room.fits (hv : u.Valid svc) (hpg : pg.Lawful svc.json) (h : u.Room w)
    (hfolder : pg.optionalUuid u.init.folderId = .ok u.folder) {file : FileRecord}
    (hfile : u.Describes file) (n : Nat) : Fits pg file (w.uuids n) w := by
  refine ⟨(h.ids n).1, u.init.fileName, u.owner, u.folder, ?_, ?_, ?_, h.free, h.user, h.folder⟩
  · rw [hfile.name]
    exact textParam_of_text hv.fileName
  · rw [hfile.ownerId]
    exact uuidParam_text hpg u.owner
  · rw [hfile.folderId]
    exact hfolder

theorem filed_of_checked (hv : u.Valid svc) (hpg : pg.Lawful svc.json)
    (hfolder : pg.optionalUuid u.init.folderId = .ok u.folder) {file : FileRecord}
    (hfile : u.Describes file) {contents : List ContentRow} {row : FileRow}
    (hrow : CheckedFile pg file { w with contents } row) {w' : World}
    (hfiles : w'.files = w.files ++ [row])
    (hcontent : ∃ c ∈ w'.contents, c.id = row.contentId ∧ c.hash = svc.sha256 u.data) :
    Filed svc u w row w' := by
  obtain ⟨hname, howner, hplace, hlive, hfresh, -⟩ := hrow
  rw [hfile.name, textParam_of_text hv.fileName] at hname
  rw [hfile.ownerId, uuidParam_text hpg] at howner
  rw [hfile.folderId, hfolder] at hplace
  exact ⟨hfiles, (Except.ok.inj hname).symm, (Except.ok.inj howner).symm,
    (Except.ok.inj hplace).symm, hlive, hfresh, hcontent⟩

theorem last_row {row row' : FileRow} (h : w.files ++ [row] = w.files ++ [row']) : row = row' :=
  List.singleton_inj.mp (List.append_cancel_left h)

/-- A link to content that is there. -/
theorem exec_insertLink_filed (hv : u.Valid svc) (hpg : pg.Lawful svc.json) (h : u.Room w)
    (hfolder : pg.optionalUuid u.init.folderId = .ok u.folder) {file : FileRecord}
    (hfile : u.Describes file) {c : ContentRow} (hc : c ∈ w.contents)
    (hhash : c.hash = svc.sha256 u.data) :
    ∃ row w', exec svc pg (.insertLink file c.id.text) w = (.ok row.id.text, w') ∧
      Filed svc u w row w' := by
  have hfits := h.fits hv hpg hfolder hfile 0
  have hthere : (w.findContent c.id).isSome = true :=
    List.find?_isSome.mpr ⟨c, hc, decide_eq_true rfl⟩
  have howner : file.ownerId ≠ [] := by
    rw [hfile.ownerId]
    exact Uuid.text_ne_nil u.owner
  obtain ⟨t, w', hins⟩ := (@insertLink_ok_iff pg w.skipUuids file c.id.text (w.uuids 0)).mpr
    ⟨howner, Uuid.text_ne_nil c.id, ⟨hfits.fresh, hfits.named⟩, c.id, uuidParam_text hpg c.id, hthere⟩
  have hexec : exec svc pg (.insertLink file c.id.text) w = (.ok t, w') := by
    show commit w.skipUuids (insertLink pg file c.id.text (w.uuids 0) w.skipUuids) = _
    rw [hins]
    rfl
  rcases exec_insertLink_checked hexec with ⟨e, he, -⟩ | ⟨row, hrow, hr, hw'⟩
  · cases he
  rcases exec_insertLink hexec with ⟨e, he, -⟩ | ⟨row', hrow', -, hw''⟩
  · cases he
  have hsame : row = row' := last_row ((congrArg World.files hw').symm.trans (congrArg World.files hw''))
  have hid := hrow'.contentId
  rw [uuidParam_text hpg, ← hsame] at hid
  refine ⟨row, w', hexec.trans (congrArg (·, w') hr), ?_⟩
  subst hw'
  exact filed_of_checked hv hpg hfolder hfile hrow rfl ⟨c, hc, Except.ok.inj hid, hhash⟩

/-- A link to content that is known. -/
theorem run_linkExistingContent_free (hv : u.Valid svc) (hpg : pg.Lawful svc.json) (h : u.Room w)
    (hfolder : pg.optionalUuid u.init.folderId = .ok u.folder) {record : FileRecord}
    (hfound : findContentByHash pg w (svc.sha256 u.data) = .ok (some record)) :
    ∃ row w', (linkExistingContent record u.init.fileName u.init.mimeType u.owner.text
        u.init.folderId).run (exec svc pg) w = (.ok row.id.text, w') ∧ Filed svc u w row w' := by
  obtain ⟨c, hc, hhash, hrecord⟩ := findContentByHash_some hfound
  rw [textParam_sha256] at hhash
  have hid : record.contentId = c.id.text := congrArg FileRecord.contentId hrecord
  have hunique : (makeUniqueName u.init.fileName u.owner.text u.init.folderId).run (exec svc pg) w =
      (.ok u.init.fileName, w) := by
    unfold makeUniqueName
    rw [ask, run_request_bind, query_eq (uuidParam_text hpg u.owner) hfolder hv.fileName.1
      hv.fileName.2, used_of_indexed h.free]
    rfl
  unfold linkExistingContent
  rw [run_bind, hunique, hid]
  dsimp only
  rw [ask, run_request]
  exact exec_insertLink_filed hv hpg h hfolder ⟨rfl, rfl, rfl⟩ hc (Except.ok.inj hhash).symm

/-- New content. -/
theorem exec_fileInsert_filed (hjson : svc.json.Lawful) (hascii : svc.json.WritesAscii)
    (hpg : pg.Lawful svc.json) (hv : u.Valid svc) (h : u.Room w)
    (hfolder : pg.optionalUuid u.init.folderId = .ok u.folder) {file : FileRecord}
    (hfile : u.Describes file) (hmime : file.mimeType = u.init.mimeType)
    (hhash : file.hash = svc.sha256 u.data)
    (hdump : svc.json.dump (hashArray (u.pieces.map svc.sha256)) = .ok file.chunkHashes)
    (hunknown : findContentByHash pg w (svc.sha256 u.data) = .ok none) :
    ∃ row w', exec svc pg (.fileInsert file) w = (.ok row.id.text, w') ∧ Filed svc u w row w' := by
  have hinsertable : Insertable pg file (w.uuids 0) (w.uuids 1) w := by
    refine ⟨?_, ?_, (h.ids 0).2, h.fits hv hpg hfolder hfile 1⟩
    · rw [hfile.ownerId]
      exact Uuid.text_ne_nil u.owner
    · rw [hmime]
      split
      · exact ⟨_, textParam_of_text (by decide +kernel)⟩
      · exact ⟨_, textParam_of_text hv.mimeType⟩
  rw [← hhash] at hunknown
  obtain ⟨t, ht⟩ := (fileInsert_commits_iff hjson hascii hpg hunknown hdump).mpr hinsertable
  obtain ⟨w', hexec⟩ : ∃ w', exec svc pg (.fileInsert file) w = (.ok t, w') := ⟨_, Prod.ext ht rfl⟩
  rcases exec_fileInsert_checked hexec with ⟨e, he, -⟩ | ⟨row, contents, hrow, hr, -, hw'⟩
  · cases he
  rcases exec_fileInsert hpg hexec with ⟨e, he, -⟩ | ⟨row', contents', c, hens, hid, -, -, hw''⟩
  · cases he
  have hsame : row = row' := last_row ((congrArg World.files hw').symm.trans (congrArg World.files hw''))
  have hc : c ∈ w'.contents ∧ c.hash = svc.sha256 u.data := by
    rw [hw'']
    cases hens with
    | found hparam hmem =>
        rw [hhash, textParam_sha256] at hparam
        exact ⟨hmem, (Except.ok.inj hparam).symm⟩
    | created hparam _ _ _ =>
        rw [hhash, textParam_sha256] at hparam
        exact ⟨List.mem_append_right _ (List.mem_singleton_self c), (Except.ok.inj hparam).symm⟩
  refine ⟨row, w', hexec.trans (congrArg (·, w') hr), ?_⟩
  exact filed_of_checked hv hpg hfolder hfile hrow (congrArg World.files hw')
    ⟨c, hc.1, hsame ▸ hid.symm, hc.2⟩

theorem Filed.redis {row : FileRow} {w' : World} (h : Filed svc u w row w')
    (redis : Bytes → Option RedisValue) : Filed svc u w row { w' with redis } :=
  ⟨h.files, h.name, h.ownerId, h.folderId, h.live, h.fresh, h.content⟩

theorem run_indexContent (hash : Bytes) (htext : pg.textParam hash = .ok hash) : ∃ redis,
    (indexContent svc hash).run (exec svc pg) w = (.ok (), { w with redis }) := by
  unfold indexContent
  split
  · have hfound : ∃ found, exec svc pg (.findContentByHash hash) w = (.ok found, w) :=
      ⟨_, Prod.ext (bind_eq_ok.mpr ⟨_, bind_eq_ok.mpr ⟨hash, htext, rfl⟩, rfl⟩) rfl⟩
    obtain ⟨found, hfound⟩ := hfound
    rw [ask, run_request_bind, hfound]
    cases found with
    | none => exact ⟨w.redis, rfl⟩
    | some record => exact run_rememberHash hash record.contentId
  · exact ⟨w.redis, rfl⟩

/-- The file is made, from known content or from new. -/
theorem wp_createFile (hjson : svc.json.Lawful) (hascii : svc.json.WritesAscii)
    (hpg : pg.Lawful svc.json) (hv : u.Valid svc) (h : u.Room w)
    (hfolder : pg.optionalUuid u.init.folderId = .ok u.folder) {chunkHashes : Bytes}
    (hdump : svc.json.dump (hashArray (u.pieces.map svc.sha256)) = .ok chunkHashes) :
    (createFile svc (u.session svc uploadId sent) chunkHashes (svc.sha256 u.data)).wp
      (ofExec (exec svc pg)) (fun r w' => ∃ row instant, r = .ok (row.id.text, instant) ∧
        Filed svc u w row w') w := by
  obtain ⟨found, hfound, -⟩ := @find_known svc pg w u.data
  refine wp_success_bind (Prod.ext hfound rfl) ?_
  cases found with
  | some record =>
      obtain ⟨row, w', hlink, hfiled⟩ := run_linkExistingContent_free hv hpg h hfolder hfound
      obtain ⟨redis, hremember⟩ := @run_rememberHash svc pg w' (svc.sha256 u.data) record.contentId
      refine wp_run_bind hlink (wp_run_bind hremember ?_)
      exact ⟨row, true, rfl, hfiled.redis redis⟩
  | none =>
      obtain ⟨row, w', hexec, hfiled⟩ := @exec_fileInsert_filed svc pg w u hjson hascii hpg hv h hfolder
        { name := u.init.fileName, size := u.init.totalSize, hash := svc.sha256 u.data, chunkHashes
          mimeType := u.init.mimeType, ownerId := u.owner.text, folderId := u.init.folderId }
        ⟨rfl, rfl, rfl⟩ rfl rfl hdump hfound
      obtain ⟨redis, hindex⟩ := @run_indexContent svc pg w' (svc.sha256 u.data) (textParam_sha256 svc _)
      refine wp_run_bind ((run_request _ _ _).trans hexec) (wp_run_bind hindex ?_)
      exact ⟨row, false, rfl, hfiled.redis redis⟩

/-- The request that ends an upload. -/
structure Upload.CompleteRequest (u : Upload) (uploadId : Bytes) (req : HttpRequest) : Prop where
  user : req.authUserId = u.owner.text
  path : req.getPathParam (ascii "upload_id") = uploadId

/-- With all its parts, the upload becomes a file. -/
theorem wp_finishSession (hjson : svc.json.Lawful) (hascii : svc.json.WritesAscii)
    (hpg : pg.Lawful svc.json) (hlen : ∀ d, 2 ≤ (svc.digest d).length) (hv : u.Valid svc)
    (hfolder : pg.optionalUuid u.init.folderId = .ok u.folder)
    (h : UnderWay svc u uploadId sent w) (hall : ∀ i < u.pieces.length, i ∈ sent) :
    (finishSession svc uploadId (u.session svc uploadId sent)).wp (ofExec (exec svc pg))
      (fun r w' => accepted r = true ∧ ∃ row, Filed svc u w row w') w := by
  have hhashes : (u.session svc uploadId sent).partHashes = u.pieces.map svc.sha256 := by
    show (u.parts sent).map (partHash svc) = _
    rw [Upload.parts_all hall, map_partHash_some]
  obtain ⟨t, hdump, -, -⟩ := hjson.dump_flat (hashArray (u.pieces.map svc.sha256))
    (isFlat_hashArray _) (by
      rw [texts_hashArray]
      intro hash hhash
      obtain ⟨piece, -, rfl⟩ := List.mem_map.mp hhash
      exact validUtf8_sha256 svc piece)
  have hthere : ∀ piece ∈ u.pieces, w.store (svc.sha256 piece) = some piece := by
    intro piece hpiece
    obtain ⟨i, hi⟩ := List.getElem?_of_mem hpiece
    exact h.objects i (hall i (List.getElem?_eq_some_iff.mp hi).1) piece hi
  unfold finishSession
  rw [hhashes, hdump]
  have hwritten : (ofJson (.ok t) : App Bytes).run (exec svc pg) w = (.ok t, w) := rfl
  have hread := run_of_wp (@wp_getChunked svc pg w hlen u.pieces hthere)
  refine wp_run_bind hwritten (wp_run_bind (Prod.ext hread.1 hread.2) ?_)
  refine wp_seq (wp_createFile hjson hascii hpg hv h.room hfolder hdump) ?_ ?_
  swap
  · rintro e w' ⟨row, instant, he, -⟩
    cases he
  rintro created w₁ ⟨row, instant, hr, hfiled⟩
  obtain rfl := Except.ok.inj hr
  obtain ⟨redis, hdelete⟩ := @run_deleteFromRedis svc pg w₁ uploadId
  refine wp_run_bind hdelete (wp_run_bind (run_request _ _ _) ?_)
  have hpositive := hv.positive
  refine wp_mono (wp_fileAnswer hjson (uuid_validUtf8 row.id)
    ⟨by show -(2 ^ 63) ≤ u.init.totalSize; omega, hv.bigint⟩) ?_
  rintro r _ ⟨rfl, haccepted⟩
  exact ⟨haccepted, row, hfiled.redis redis⟩

theorem wp_handleComplete (hjson : svc.json.Lawful) (hascii : svc.json.WritesAscii)
    (hpg : pg.Lawful svc.json) (hlen : ∀ d, 2 ≤ (svc.digest d).length) (hredis : svc.hasRedis = true)
    (hv : u.Valid svc) (hid : uploadId ≠ [])
    (hfolder : pg.optionalUuid u.init.folderId = .ok u.folder)
    (h : UnderWay svc u uploadId sent w) (hall : ∀ i < u.pieces.length, i ∈ sent)
    (hreq : u.CompleteRequest uploadId req) :
    (handleComplete svc req).wp (ofExec (exec svc pg))
      (fun r w' => accepted r = true ∧ ∃ row, Filed svc u w row w') w := by
  have hcomplete : firstMissing (u.session svc uploadId sent) = none := by
    refine List.find?_eq_none.mpr fun i hi => ?_
    have hi' : i < u.pieces.length := by
      have hcount := List.mem_range.mp hi
      exact (Int.toNat_natCast u.pieces.length) ▸ hcount
    have hflags : (u.session svc uploadId sent).uploaded = (u.pieces.map some).map Option.isSome :=
      congrArg (List.map Option.isSome) (Upload.parts_all hall)
    rw [hflags, List.getD_eq_getElem?_getD, List.getElem?_map, List.getElem?_map,
      List.getElem?_eq_getElem hi']
    exact Bool.false_ne_true
  refine wp_catch (M := fun r w' => accepted r = true ∧ ∃ row, Filed svc u w row w') ?_
    (fun _ _ h' => h') fun e w' h' => (by cases h'.1)
  rw [hasAuthUser_of_owner hreq.user, Bool.not_true, if_neg Bool.false_ne_true, hreq.path]
  dsimp only
  rw [if_neg hid]
  refine wp_run_bind (h.stored.found hredis hid hreq.user.symm) ?_
  dsimp only
  rw [hcomplete]
  exact wp_finishSession hjson hascii hpg hlen hv hfolder h hall

end Requests

/-! ## The whole upload -/

section Whole

variable {svc : Services} {pg : Postgres} {w : World} {u : Upload} {uploadId : Bytes}
  {sent : List Nat}

/-- What is done beside an upload leaves its session, its parts and its place alone. -/
structure Upload.Spared (svc : Services) (u : Upload) (uploadId : Bytes) (w w' : World) : Prop where
  session : w'.redis (cstr (sessionKey uploadId)) = w.redis (cstr (sessionKey uploadId))
  objects : ∀ piece ∈ u.pieces, w.store (svc.sha256 piece) = some piece →
    w'.store (svc.sha256 piece) = some piece
  room : u.Room w → u.Room w'

/-- After the start parts are sent, in any order and also again, and other things
are done in between. -/
inductive Upload.Sent (svc : Services) (pg : Postgres) (u : Upload) (uploadId : Bytes) (w₁ : World) :
    List Nat → World → Prop
  | started : Sent svc pg u uploadId w₁ [] w₁
  | part {sent : List Nat} {w : World} {i : Nat} {req : HttpRequest} :
      Sent svc pg u uploadId w₁ sent w → u.PartRequest uploadId i req →
      Sent svc pg u uploadId w₁ (i :: sent) (serve svc pg .uploadPart req w).2
  | beside {sent : List Nat} {w : World} {actions : List Action} :
      Sent svc pg u uploadId w₁ sent w →
      u.Spared svc uploadId w (actions.foldl (act svc pg) w) →
      Sent svc pg u uploadId w₁ sent (actions.foldl (act svc pg) w)

theorem hget_same {w' : World} {key : Bytes} (h : w'.redis (cstr key) = w.redis (cstr key))
    (field : Bytes) : hget w' key field = hget w key field := by
  unfold hget
  rw [h]

theorem Stored.congr {session : MultipartSession} {w' : World} (h : Stored svc session w)
    (hsame : w'.redis (cstr (sessionKey session.uploadId)) =
      w.redis (cstr (sessionKey session.uploadId))) : Stored svc session w' := by
  have hsees : ∀ n field, (Lossy.calm w').sees n (sessionKey session.uploadId) field =
      (Lossy.calm w).sees n (sessionKey session.uploadId) field := by
    intro n field
    rw [Lossy.calm_sees, Lossy.calm_sees]
    exact hget_same hsame _
  refine ⟨fun v => ?_, ?_⟩
  · rw [hsame]
    exact h.hashKey v
  · obtain ⟨h₀, h₁, h₂, h₃, h₄, h₅, h₆, h₇, h₈⟩ := h.seen
    constructor
    all_goals rw [hsees]
    · exact h₀
    · exact h₁
    · exact h₂
    · exact h₃
    · exact h₄
    · exact h₅
    · exact h₆
    · exact h₇
    · exact h₈

theorem UnderWay.spared {w' : World} (h : UnderWay svc u uploadId sent w)
    (hspared : u.Spared svc uploadId w w') : UnderWay svc u uploadId sent w' :=
  ⟨h.stored.congr hspared.session,
    fun i hi piece hpiece => hspared.objects piece (List.mem_of_getElem? hpiece)
      (h.objects i hi piece hpiece),
    hspared.room h.room⟩

variable (hjson : svc.json.Lawful) (hascii : svc.json.WritesAscii) (hpg : pg.Lawful svc.json)
  (hlen : ∀ d, 2 ≤ (svc.digest d).length) (hinj : Function.Injective svc.sha256)
  (hredis : svc.hasRedis = true)

include hjson hpg hlen hinj in
theorem faithful_actions (h : ∃ g, Faithful svc g w) (actions : List Action) :
    ∃ g, Faithful svc g (actions.foldl (act svc pg) w) := by
  induction actions generalizing w with
  | nil => exact h
  | cons a actions ih =>
      obtain ⟨g, hg⟩ := h
      exact ih ⟨_, (Faithful.recorded hjson hpg hlen hinj hg a).faithful⟩

include hjson hpg hlen hinj hredis in
/-- Between its requests an upload is under way. -/
theorem underWay_of_sent (hv : u.Valid svc) (hid : uploadId ≠ []) {w₁ w₂ : World}
    (hfaithful : ∃ g, Faithful svc g w₁) (hstart : UnderWay svc u uploadId [] w₁)
    (hsent : u.Sent svc pg uploadId w₁ sent w₂) :
    (∃ g, Faithful svc g w₂) ∧ UnderWay svc u uploadId sent w₂ := by
  induction hsent with
  | started => exact ⟨hfaithful, hstart⟩
  | @part sent w i req _ hreq ih =>
      obtain ⟨⟨g, hg⟩, hunderway⟩ := ih
      have hpart := run_of_wp (@wp_handleUploadPart svc pg w u uploadId sent req hjson hlen hinj hredis
        hv hid hg.objects hunderway i hreq)
      exact ⟨faithful_actions hjson hpg hlen hinj ⟨g, hg⟩ [.request .uploadPart req], hpart.2⟩
  | @beside sent w actions _ hspared ih =>
      obtain ⟨hg, hunderway⟩ := ih
      exact ⟨faithful_actions hjson hpg hlen hinj hg actions, hunderway.spared hspared⟩

include hpg hlen hinj in
/-- The owner gets the parts put together. -/
theorem Filed.download {w' : World} {row : FileRow} (h : Filed svc u w row w') {g : Record}
    (hg : Faithful svc g w') {req : HttpRequest} (huser : req.authUserId = u.owner.text)
    (hreq : requestedFile req = row.id.text) : ∃ mimeType,
      (serve svc pg .fileDownload req w').1 = .ok (fileAnswer u.init.fileName mimeType u.data) := by
  have hmem : row ∈ w'.files := by
    rw [h.files]
    exact List.mem_append_right _ (List.mem_singleton_self row)
  rw [← h.ownerId] at huser
  obtain ⟨f, hf, hlive, hid, c, bytes, hc, hbytes, hanswer⟩ :=
    hg.download_row hpg hlen hinj hmem h.live huser hreq
  have hsame : f = row := by
    rw [h.files] at hf
    rcases List.mem_append.mp hf with hf | hf
    · exact absurd hid (h.fresh f hf)
    · exact List.mem_singleton.mp hf
  subst hsame
  obtain ⟨c', hc', hcid, hhash⟩ := h.content
  have hfound := hg.findContent_of_mem hc'
  rw [hcid, hc] at hfound
  obtain rfl := Option.some.inj hfound
  obtain ⟨d, bytes', hd, hbytes', hhash'⟩ := hg.files f hmem hlive
  obtain rfl := Option.some.inj (hc.symm.trans hd)
  obtain rfl := Option.some.inj (hbytes.symm.trans hbytes')
  obtain rfl : u.data = bytes := hinj (hhash.symm.trans hhash')
  exact ⟨c.mimeType, by rw [hanswer, h.name]⟩

include hjson hascii hpg hlen hinj hredis in
/-- **An upload goes through.** Started in any state of a history, it is told its session;
every part it sends is taken, in any order and with anything that spares it in between;
and with all its parts it becomes a file, which its owner downloads as it was. -/
theorem upload_goes_through (hv : u.Valid svc) (hfolder : pg.optionalUuid u.init.folderId = .ok u.folder)
    {w₀ : World} (h₀ : Initial w₀) (actions : List Action) (hw : w = actions.foldl (act svc pg) w₀)
    (howned : u.Owned pg w) (hroom : u.Room w) {req : HttpRequest} {body : Json}
    (huser : req.authUserId = u.owner.text) (hparse : svc.json.parse req.body = .ok body)
    (hread : readInitBody body = .ok u.init) :
    u.Announced svc (generatedId w) (serve svc pg .uploadInit req w).1 ∧
    ∀ sent w₂, u.Sent svc pg (generatedId w) (serve svc pg .uploadInit req w).2 sent w₂ →
      (∀ i part, u.PartRequest (generatedId w) i part →
        accepted (serve svc pg .uploadPart part w₂).1 = true) ∧
      ((∀ i < u.pieces.length, i ∈ sent) → ∀ complete, u.CompleteRequest (generatedId w) complete →
        accepted (serve svc pg .uploadComplete complete w₂).1 = true ∧
        ∃ row, Filed svc u w₂ row (serve svc pg .uploadComplete complete w₂).2 ∧
          ∀ download : HttpRequest, download.authUserId = u.owner.text →
            requestedFile download = row.id.text → ∃ mimeType,
              (serve svc pg .fileDownload download (serve svc pg .uploadComplete complete w₂).2).1 =
                .ok (fileAnswer u.init.fileName mimeType u.data)) := by
  have hfaithful : ∃ g, Faithful svc g w := by
    rw [hw]
    exact faithful_actions hjson hpg hlen hinj ⟨{}, h₀.faithful {}⟩ actions
  obtain ⟨g, hg⟩ := hfaithful
  have hid := generatedId_ne_nil w
  obtain ⟨hannounced, hstart⟩ := run_of_wp (wp_handleInit hjson hredis hv
    (hg.sessionKeys (generatedId w)) howned hroom hparse hread huser)
  refine ⟨hannounced, fun sent w₂ hsent => ?_⟩
  have hfaithful₁ := faithful_actions hjson hpg hlen hinj ⟨g, hg⟩ [.request .uploadInit req]
  obtain ⟨⟨g₂, hg₂⟩, hunderway⟩ :=
    underWay_of_sent hjson hpg hlen hinj hredis hv hid hfaithful₁ hstart hsent
  refine ⟨fun i part hpart => ?_, fun hall complete hcomplete => ?_⟩
  · exact (run_of_wp (wp_handleUploadPart hjson hlen hinj hredis hv hid hg₂.objects hunderway
      hpart)).1
  · obtain ⟨haccepted, row, hfiled⟩ := run_of_wp (wp_handleComplete hjson hascii hpg hlen hredis hv hid
      hfolder hunderway hall hcomplete)
    obtain ⟨g₃, hg₃⟩ :=
      faithful_actions hjson hpg hlen hinj ⟨g₂, hg₂⟩ [.request .uploadComplete complete]
    exact ⟨haccepted, row, hfiled, fun download huser' hreq =>
      hfiled.download hpg hlen hinj hg₃ huser' hreq⟩

end Whole

/-! ### Two parts, the second one first -/

def aliceSendsXy : Upload where
  init := { fileName := ascii "a.txt", totalSize := 2, mimeType := ascii "text/plain", folderId := [] }
  owner := aliceId
  folder := none
  pieces := [ascii "x", ascii "y"]

theorem aliceSendsXy_valid : aliceSendsXy.Valid sampleServices where
  named := by decide
  fileName := by decide
  mimeType := by decide
  folderId := by decide
  totalSize := by decide
  bigint := by decide
  allowed := by decide
  some_piece := by decide
  count := by decide
  piece := by decide

theorem aliceSendsXy_room : aliceSendsXy.Room twoUsers where
  user := by decide +kernel
  folder := rfl
  free := rfl
  ids := fun _ => ⟨rfl, rfl⟩

def startBody : Json := object [("file_name", .str (ascii "a.txt")),
  ("mime_type", .str (ascii "text/plain")), ("total_size", .int 2)]

def partOf (uploadId : Bytes) (number : String) (body : Bytes) : HttpRequest where
  pathParams := [(ascii "upload_id", uploadId), (ascii "part_num", ascii number)]
  body := body
  authUserId := aliceId.text

theorem partOf_part {uploadId : Bytes} {number : String} {body : Bytes} {i : Nat}
    (hnumber : stoi (ascii number) = .ok (i : Int)) (hbody : aliceSendsXy.pieces[i]? = some body) :
    aliceSendsXy.PartRequest uploadId i (partOf uploadId number body) :=
  ⟨rfl, rfl, hnumber, hbody⟩

theorem xy_sent (uploadId : Bytes) (w : World) :
    ∃ w', aliceSendsXy.Sent sampleServices samplePostgres uploadId w [0, 1] w' := by
  have hsecond : aliceSendsXy.PartRequest uploadId 1 (partOf uploadId "1" (ascii "y")) :=
    partOf_part (by decide) rfl
  have hfirst : aliceSendsXy.PartRequest uploadId 0 (partOf uploadId "0" (ascii "x")) :=
    partOf_part (by decide) rfl
  have hspared : ∀ w : World, aliceSendsXy.Spared sampleServices uploadId w
      ([Action.tick 1].foldl (act sampleServices samplePostgres) w) := fun w =>
    ⟨rfl, fun _ _ h => h, fun h => h.congr rfl rfl rfl rfl rfl⟩
  exact ⟨_, .part (.beside (.part .started hsecond) (hspared _)) hfirst⟩

theorem xy_goes_through : ∃ w row, Filed sampleServices aliceSendsXy w row
    (serve sampleServices samplePostgres .uploadComplete
      (partOf (generatedId twoUsers) "" []) w).2 ∧
      ∀ download : HttpRequest, download.authUserId = aliceId.text →
        requestedFile download = row.id.text → ∃ mimeType,
          (serve sampleServices samplePostgres .fileDownload download
            (serve sampleServices samplePostgres .uploadComplete
              (partOf (generatedId twoUsers) "" []) w).2).1 =
            .ok (fileAnswer (ascii "a.txt") mimeType (ascii "xy")) := by
  obtain ⟨text, -, -, hparse⟩ := sampleServices_lawful.dump_flat startBody rfl (by decide)
  have hbody : sampleServices.json.parse
      (HttpRequest.body { body := text, authUserId := aliceId.text }) = .ok startBody := hparse
  obtain ⟨-, hafter⟩ := upload_goes_through sampleServices_lawful JsonText.lib_writesAscii
    samplePostgres_lawful sampleServices_digest_length sampleServices_sha256_injective rfl
    aliceSendsXy_valid (show samplePostgres.optionalUuid [] = .ok none from rfl) twoUsers_initial []
    rfl (.inl rfl) aliceSendsXy_room rfl hbody rfl
  obtain ⟨w, hsent⟩ := xy_sent (generatedId twoUsers) (serve sampleServices samplePostgres .uploadInit
    { body := text, authUserId := aliceId.text } twoUsers).2
  obtain ⟨-, hend⟩ := hafter _ w hsent
  obtain ⟨-, row, hfiled, hdownload⟩ := hend (by decide) (partOf (generatedId twoUsers) "" [])
    ⟨rfl, rfl⟩
  exact ⟨w, row, hfiled, hdownload⟩

end SolarDrive.Runs
