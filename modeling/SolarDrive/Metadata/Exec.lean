import Mathlib.Logic.Function.Basic
import SolarDrive.Metadata.Dao

/-!
# Answering the calls of a handler

The object store, the collector's transaction and Redis, and `exec`, which
answers one call of a handler from the `World`. No call fails for want of the
disk, the database or Redis; what fails is what the statements refuse.
-/

namespace SolarDrive.Metadata

open Lib Api

/-! ## Object store -/

def hashTooShort (hash : Bytes) : Exn := { kind := .std, what := ascii "hash too short: " ++ hash }

/-- `put`: an object that exists is not written again. -/
def storePut (svc : Services) (data : Bytes) (w : World) : Except Exn Bytes × World :=
  let hash := svc.sha256 data
  if hash.length < 4 then (.error (hashTooShort hash), w)
  else if (w.store hash).isSome then (.ok hash, w)
  else (.ok hash, { w with store := Function.update w.store hash (some data) })

def storeGet (w : World) (hash : Bytes) : Except Exn Bytes :=
  if hash.length < 4 then .error (hashTooShort hash)
  else
    match w.store hash with
    | some data => .ok data
    | none => .error { kind := .std, what := ascii "object not found: " ++ hash }

/-! ## Garbage collection -/

/-- `parse_chunk_hashes`: the strings of the array; `none` when the text does
not parse. -/
def parseChunkHashes (json : JsonLib) (text : Bytes) : Option (List Bytes) :=
  match json.parse text with
  | .error _ => none
  | .ok (.arr xs) => some (xs.filterMap fun
      | .str s => some s
      | _ => none)
  | .ok _ => some []

/-- The loop over the chunks: remove those no remaining content lists. The
store is changed file by file, also when a later chunk throws. -/
def removeChunks (pg : Postgres) (contents : List ContentRow) :
    List Bytes → (Bytes → Option Bytes) → Nat → Except Exn Nat × (Bytes → Option Bytes)
  | [], store, removed => (.ok removed, store)
  | hash :: hashes, store, removed =>
      match pg.textParam hash with
      | .error e => (.error e, store)
      | .ok text =>
          if chunkHashInUse contents text ∨ hash = [] then
            removeChunks pg contents hashes store removed
          else if text.length < 4 then (.error (hashTooShort hash), store)
          else if (store text).isSome then
            removeChunks pg contents hashes (Function.update store text none) (removed + 1)
          else removeChunks pg contents hashes store removed

/-- The tables after the three `DELETE` statements. -/
def withoutContent (id : Uuid) (w : World) : World :=
  let tombstone (f : FileRow) : Bool := f.contentId = id && !f.live
  { w with
    shares := w.shares.filter fun s => !(w.files.any fun f => f.id = s.fileId && tombstone f)
    files := w.files.filter fun f => !tombstone f
    contents := w.contents.filter fun c => !(c.id = id && !w.fileLives id) }

/-- `purge_content`. A throw in the loop rolls the tables back, not the store. -/
def purgeContent (svc : Services) (pg : Postgres) (content : ContentRecord) (w : World) :
    Except Exn GcStats × World :=
  match pg.uuidParam content.id with
  | .error e => (.error e, w)
  | .ok id =>
      if w.fileLives id then (.ok {}, w)
      else
        match parseChunkHashes svc.json content.chunkHashes with
        | none => (.ok {}, w)
        | some hashes =>
            if (w.findContent id).isNone then (.ok {}, w)
            else
              let w' := withoutContent id w
              match removeChunks pg w'.contents hashes w.store 0 with
              | (.error e, store) => (.error e, { w with store })
              | (.ok removed, store) =>
                  (.ok { contentRowsDeleted := 1, chunkFilesRemoved := removed }, { w' with store })

/-! ## Redis

Keys, fields and values are C strings. -/

def redisGet (w : World) (key : Bytes) : Option Bytes :=
  match w.redis (cstr key) with
  | some (.str v) => some v
  | _ => none

def redisSet (key value : Bytes) (w : World) : World :=
  { w with redis := Function.update w.redis (cstr key) (some (.str (cstr value))) }

def redisDel (key : Bytes) (w : World) : World :=
  { w with redis := Function.update w.redis (cstr key) none }

def hget (w : World) (key field : Bytes) : Option Bytes :=
  match w.redis (cstr key) with
  | some (.hash fields) => fields (cstr field)
  | _ => none

/-- The fields of a hash after `HSET`; a new hash has only the one. -/
def withField (field value : Bytes) (fields : Bytes → Option Bytes) : RedisValue :=
  .hash (Function.update fields (cstr field) (some (cstr value)))

/-- `HSET`, refused on a key that holds a string. -/
def hset (key field value : Bytes) (w : World) : Bool × World :=
  match w.redis (cstr key) with
  | some (.str _) => (false, w)
  | some (.hash fields) =>
      (true, { w with
        redis := Function.update w.redis (cstr key) (some (withField field value fields)) })
  | none =>
      (true, { w with
        redis := Function.update w.redis (cstr key)
          (some (withField field value fun _ => none)) })

/-! ## Calls -/

/-- A transaction: the new tables, or the old ones and the exception. -/
def commit {α : Type} (w : World) : Except Exn (α × World) → Except Exn α × World
  | .ok (a, w') => (.ok a, w')
  | .error e => (.error e, w)

/-- The ids a transaction draws stay drawn. -/
def World.skipUuids (w : World) : World := { w with uuids := fun n => w.uuids (n + 2) }

def exec (svc : Services) (pg : Postgres) (c : Call) (w : World) : Except Exn c.Resp × World :=
  match c with
  | .put data => storePut svc data w
  | .get hash => (storeGet w hash, w)
  | .jsonParse text =>
      (match svc.json.parse text with
        | .ok j => .ok j
        | .error what => .error { kind := .json, what }, w)
  | .redisGet key => (.ok (redisGet w key), w)
  | .redisSet key value _ => (.ok true, redisSet key value w)
  | .redisDel key => (.ok true, redisDel key w)
  | .hget key field => (.ok (hget w key field), w)
  | .hset key field value => (.ok (hset key field value w).1, (hset key field value w).2)
  | .expire key ttl => (.ok (decide (0 < ttl) && (w.redis (cstr key)).isSome), w)
  | .registerUser username password =>
      commit w.skipUuids (registerUser pg svc username password (w.uuids 0) w.skipUuids)
  | .login username password => (login pg svc w username password, w)
  | .folderInsert folder => commit w.skipUuids (folderInsert pg folder (w.uuids 0) w.skipUuids)
  | .folderFindById id => (folderFindById pg w id, w)
  | .listByParent ownerId parentId => (listByParent pg w ownerId parentId, w)
  | .folderNameExists ownerId parentId name => (folderNameExists pg w ownerId parentId name, w)
  | .folderSoftDelete id => commit w (folderSoftDelete pg id w)
  | .hasChildren id => (hasChildren pg w id, w)
  | .folderRename id name => commit w (folderRename pg id name w)
  | .fileInsert file =>
      commit w.skipUuids (fileInsert pg file (w.uuids 0) (w.uuids 1) w.skipUuids)
  | .insertLink file contentId =>
      commit w.skipUuids (insertLink pg file contentId (w.uuids 0) w.skipUuids)
  | .fileFindById id => (fileFindById pg w id, w)
  | .findOwnedById ownerId id => (findOwnedById pg w ownerId id, w)
  | .findContentByHash hash => (findContentByHash pg w hash, w)
  | .fileSoftDelete id => commit w (fileSoftDelete pg id w)
  | .listByFolder ownerId folderId => (listByFolder pg w ownerId folderId, w)
  | .nameExistsInFolder ownerId folderId name => (nameExistsInFolder pg w ownerId folderId name, w)
  | .shareInsert record => commit w.skipUuids (shareInsert pg record (w.uuids 0) w.skipUuids)
  | .findByToken token => (findByToken pg w token, w)
  | .listByOwner ownerId => (listByOwner pg w ownerId, w)
  | .incrementDownloadCount id => commit w (incrementDownloadCount pg id w)
  | .revoke id ownerId => commit w (revoke pg id ownerId w)
  | .revokeByFileId fileId => commit w (revokeByFileId pg fileId w)
  | .tokenExists token => (tokenExists pg w token, w)
  | .contentFindById id => (contentFindById pg w id, w)
  | .listOrphans limit => (.ok (listOrphans pg w limit), w)
  | .purgeContent content => purgeContent svc pg content w
  | .pushProgress _ _ _ _ => (.ok (), w)
  | .pushComplete _ _ => (.ok (), w)
  | .now => (.ok w.time, w)
  | .draw => (.ok (w.draws 0), { w with draws := fun n => w.draws (n + 1) })

end SolarDrive.Metadata
