import SolarDrive.Metadata.Database

/-!
# Data access

One definition per DAO method, in the order of the source files. A query is a
function of the `World`; a transaction that commits returns the new one, and
one that fails leaves the tables alone (`commit`).
-/

namespace SolarDrive.Metadata

open Lib Api

variable (pg : Postgres)

/-! ## Content objects -/

def contentRecord (c : ContentRow) : ContentRecord :=
  { id := c.id.text, hash := c.hash, size := c.size
    chunkHashes := pg.jsonbOut c.chunkHashes, mimeType := c.mimeType }

def contentFindByHash (w : World) (hash : Bytes) : Except Exn (Option ContentRecord) := do
  let hash ← pg.textParam hash
  return (w.contents.find? (·.hash = hash)).map (contentRecord pg)

def contentFindById (w : World) (id : Bytes) : Except Exn (Option ContentRecord) := do
  let id ← pg.uuidParam id
  return (w.findContent id).map (contentRecord pg)

/-- The row to insert for content that is not there yet. -/
def newContent (content : ContentRecord) (id : Uuid) : Except Exn ContentRow := do
  let hash ← pg.textParam content.hash
  let chunkHashes ← pg.jsonbParam content.chunkHashes
  let mimeType ← pg.textParam
    (if content.mimeType = [] then ascii "application/octet-stream" else content.mimeType)
  return { id, hash, size := content.size, chunkHashes, mimeType }

/-- `ensure_in_txn`. The id of the row, old or new, as text. -/
def ensureInTxn (content : ContentRecord) (id : Uuid) (w : World) :
    Except Exn (Bytes × World) := do
  let hash ← pg.textParam content.hash
  match w.contents.find? (·.hash = hash) with
  | some c => return (c.id.text, w)
  | none =>
      let row ← newContent pg content id
      pg.require (w.findContent id).isNone (.uniqueViolation "content_objects_pkey")
      return (id.text, { w with contents := w.contents ++ [row] })

def listOrphans (w : World) (limit : Nat) : List ContentRecord :=
  ((w.contents.filter fun c => !w.fileLives c.id).take limit).map (contentRecord pg)

/-- `chunk_hashes @> jsonb_build_array(hash)`. -/
def listsChunk (chunkHashes : Json) (hash : Bytes) : Bool :=
  match chunkHashes with
  | .arr xs => xs.any fun
      | .str s => s == hash
      | _ => false
  | _ => false

def chunkHashInUse (contents : List ContentRow) (hash : Bytes) : Bool :=
  contents.any fun c => listsChunk c.chunkHashes hash

/-! ## Files -/

/-- `row_to_record` on the join of a file with its content. -/
def fileRecord (w : World) (f : FileRow) : Option FileRecord :=
  (w.findContent f.contentId).map fun c =>
    { id := f.id.text, name := f.name, size := c.size, hash := c.hash
      chunkHashes := pg.jsonbOut c.chunkHashes, mimeType := c.mimeType
      createdAt := pg.toChar f.createdAt, ownerId := f.ownerId.text
      folderId := optionalText f.folderId, contentId := f.contentId.text }

/-- The live files with a property. -/
def selectFiles (w : World) (p : FileRow → Bool) : List FileRecord :=
  (w.files.filter fun f => p f && f.live).filterMap (fileRecord pg w)

/-- `INSERT INTO files`, with the checks of its keys and its unique index. -/
def insertFileRow (file : FileRecord) (contentId : Bytes) (id : Uuid) (w : World) :
    Except Exn (Bytes × World) := do
  let name ← pg.textParam file.name
  let ownerId ← pg.uuidParam file.ownerId
  let folderId ← pg.optionalUuid file.folderId
  let contentId ← pg.uuidParam contentId
  pg.require (!w.files.any (·.id = id)) (.uniqueViolation "files_pkey")
  pg.require
    (!w.files.any fun f => f.live && f.ownerId = ownerId &&
      f.folderId.getD Uuid.nil = folderId.getD Uuid.nil && f.name = name)
    (.uniqueViolation "idx_files_owner_folder_name")
  pg.require (w.users.any (·.id = ownerId)) (.foreignKeyViolation "owner_id")
  pg.require (folderId.all fun p => w.folders.any (·.id = p)) (.foreignKeyViolation "folder_id")
  pg.require (w.findContent contentId).isSome (.foreignKeyViolation "content_id")
  let row : FileRow :=
    { id, name, ownerId, folderId, contentId, createdAt := w.sqlNow, deletedAt := none }
  return (id.text, { w with files := w.files ++ [row] })

def requireOwnerId (file : FileRecord) : Except Exn Unit :=
  if file.ownerId = [] then .error { kind := .std, what := ascii "owner_id is required" } else .ok ()

/-- `FileDao::insert`; both ids are new. -/
def fileInsert (file : FileRecord) (contentUuid fileUuid : Uuid) (w : World) :
    Except Exn (Bytes × World) := do
  requireOwnerId file
  let (contentId, w) ← ensureInTxn pg
    { hash := file.hash, size := file.size, chunkHashes := file.chunkHashes
      mimeType := file.mimeType } contentUuid w
  insertFileRow pg file contentId fileUuid w

def insertLink (file : FileRecord) (contentId : Bytes) (fileUuid : Uuid) (w : World) :
    Except Exn (Bytes × World) := do
  requireOwnerId file
  if contentId = [] then .error { kind := .std, what := ascii "content_id is required" }
  else insertFileRow pg file contentId fileUuid w

def fileFindById (w : World) (id : Bytes) : Except Exn (Option FileRecord) := do
  let id ← pg.uuidParam id
  return (selectFiles pg w fun f => f.id = id).head?

def findOwnedById (w : World) (ownerId id : Bytes) : Except Exn (Option FileRecord) := do
  let id ← pg.uuidParam id
  let ownerId ← pg.uuidParam ownerId
  return (selectFiles pg w fun f => f.id = id && f.ownerId = ownerId).head?

/-- `find_content_by_hash`: a record with the fields of the content only. -/
def findContentByHash (w : World) (hash : Bytes) : Except Exn (Option FileRecord) := do
  let content ← contentFindByHash pg w hash
  return content.map fun c =>
    { contentId := c.id, id := c.id, size := c.size, hash := c.hash
      chunkHashes := c.chunkHashes, mimeType := c.mimeType }

def fileSoftDelete (id : Bytes) (w : World) : Except Exn (Unit × World) := do
  let id ← pg.uuidParam id
  let mark (f : FileRow) : FileRow := if f.id = id then { f with deletedAt := some w.sqlNow } else f
  return ((), { w with files := w.files.map mark })

/-- `ORDER BY created_at DESC LIMIT limit`. -/
def newestFirst {α : Type} (createdAt : α → Int) (limit : Nat) (rows : List α) : List α :=
  (rows.mergeSort fun a b => createdAt b ≤ createdAt a).take limit

def listByFolder (w : World) (ownerId folderId : Bytes) : Except Exn (List FileRecord) := do
  let ownerId ← pg.uuidParam ownerId
  let folderId ← pg.optionalUuid folderId
  let rows := w.files.filter fun f => f.live && f.ownerId = ownerId && f.folderId = folderId
  return (newestFirst FileRow.createdAt 200 rows).filterMap (fileRecord pg w)

def nameExistsInFolder (w : World) (ownerId folderId name : Bytes) : Except Exn Bool := do
  let ownerId ← pg.uuidParam ownerId
  let folderId ← pg.optionalUuid folderId
  let name ← pg.textParam name
  return w.files.any fun f =>
    f.ownerId = ownerId && f.folderId = folderId && f.name = name && f.live

/-! ## Folders -/

def folderRecord (f : FolderRow) : FolderRecord :=
  { id := f.id.text, name := f.name, parentId := optionalText f.parentId
    ownerId := f.ownerId.text, createdAt := pg.toChar f.createdAt }

/-- A live folder other than `id` with this owner, parent and name. -/
def folderTaken (w : World) (id ownerId : Uuid) (parentId : Option Uuid) (name : Bytes) : Bool :=
  w.folders.any fun f => f.live && f.id ≠ id && f.ownerId = ownerId &&
    f.parentId.getD Uuid.nil = parentId.getD Uuid.nil && f.name = name

def folderInsert (folder : FolderRecord) (id : Uuid) (w : World) : Except Exn (Bytes × World) := do
  let name ← pg.textParam folder.name
  let ownerId ← pg.uuidParam folder.ownerId
  let parentId ← pg.optionalUuid folder.parentId
  pg.require (!w.folders.any (·.id = id)) (.uniqueViolation "folders_pkey")
  pg.require (!folderTaken w id ownerId parentId name)
    (.uniqueViolation "idx_folders_owner_parent_name")
  pg.require (w.users.any (·.id = ownerId)) (.foreignKeyViolation "owner_id")
  pg.require (parentId.all fun p => w.folders.any (·.id = p)) (.foreignKeyViolation "parent_id")
  let row : FolderRow :=
    { id, name, parentId, ownerId, createdAt := w.sqlNow, deletedAt := none }
  return (id.text, { w with folders := w.folders ++ [row] })

def folderFindById (w : World) (id : Bytes) : Except Exn (Option FolderRecord) := do
  let id ← pg.uuidParam id
  return (w.folders.find? fun f => f.id = id && f.live).map (folderRecord pg)

def listByParent (w : World) (ownerId parentId : Bytes) : Except Exn (List FolderRecord) := do
  let ownerId ← pg.uuidParam ownerId
  let parentId ← pg.optionalUuid parentId
  let rows := w.folders.filter fun f => f.ownerId = ownerId && f.parentId = parentId && f.live
  let sorted := rows.mergeSort fun a b => pg.nameLe a.name b.name
  return (sorted.take 200).map (folderRecord pg)

def folderNameExists (w : World) (ownerId parentId name : Bytes) : Except Exn Bool := do
  let ownerId ← pg.uuidParam ownerId
  let parentId ← pg.optionalUuid parentId
  let name ← pg.textParam name
  return w.folders.any fun f =>
    f.ownerId = ownerId && f.parentId = parentId && f.name = name && f.live

def folderSoftDelete (id : Bytes) (w : World) : Except Exn (Unit × World) := do
  let id ← pg.uuidParam id
  let mark (f : FolderRow) : FolderRow :=
    if f.id = id then { f with deletedAt := some w.sqlNow } else f
  return ((), { w with folders := w.folders.map mark })

def hasChildren (w : World) (id : Bytes) : Except Exn Bool := do
  let id ← pg.uuidParam id
  return w.folders.any (fun f => f.parentId = some id && f.live) ||
    w.files.any fun f => f.folderId = some id && f.live

def folderRename (id name : Bytes) (w : World) : Except Exn (Bool × World) := do
  let id ← pg.uuidParam id
  let name ← pg.textParam name
  pg.require
    (w.folders.all fun f => f.id ≠ id || !f.live || !folderTaken w id f.ownerId f.parentId name)
    (.uniqueViolation "idx_folders_owner_parent_name")
  let rename (f : FolderRow) : FolderRow := if f.id = id && f.live then { f with name } else f
  return (true, { w with folders := w.folders.map rename })

/-! ## Shares -/

def shareRecord (s : ShareRow) : ShareRecord :=
  { id := s.id.text, fileId := s.fileId.text, ownerId := s.ownerId.text
    shareToken := s.shareToken, passwordHash := s.passwordHash.getD []
    expiresAt := (s.expiresAt.map pg.timestampOut).getD [], maxDownloads := s.maxDownloads
    downloadCount := s.downloadCount, createdAt := pg.timestampOut s.createdAt
    isRevoked := s.isRevoked }

/-- `CASE WHEN text = '' THEN NULL ELSE text::timestamptz END`. -/
def expiryParam (text : Bytes) : Except Exn (Option Int) := do
  let text ← pg.textParam text
  if text = [] then return none
  else
    match pg.timestampIn text with
    | some t => return some t
    | none => pg.raise (.invalidTimestamp text)

/-- `NULLIF(text, '')`. -/
def nullIfEmpty (text : Bytes) : Option Bytes := if text = [] then none else some text

def shareInsert (record : ShareRecord) (id : Uuid) (w : World) : Except Exn (Bytes × World) := do
  let fileId ← pg.uuidParam record.fileId
  let ownerId ← pg.uuidParam record.ownerId
  let shareToken ← pg.textParam record.shareToken
  let passwordHash ← pg.textParam record.passwordHash
  let expiresAt ← expiryParam pg record.expiresAt
  pg.require (shareToken.length ≤ 8) .valueTooLong
  pg.require (!w.shares.any (·.id = id)) (.uniqueViolation "file_shares_pkey")
  pg.require (!w.shares.any (·.shareToken = shareToken))
    (.uniqueViolation "file_shares_share_token_key")
  pg.require (w.files.any (·.id = fileId)) (.foreignKeyViolation "file_id")
  pg.require (w.users.any (·.id = ownerId)) (.foreignKeyViolation "owner_id")
  let row : ShareRow :=
    { id, fileId, ownerId, shareToken, passwordHash := nullIfEmpty passwordHash, expiresAt
      maxDownloads := record.maxDownloads, downloadCount := 0, createdAt := w.sqlNow
      isRevoked := false }
  return (id.text, { w with shares := w.shares ++ [row] })

def findByToken (w : World) (token : Bytes) : Except Exn (Option ShareRecord) := do
  let token ← pg.textParam token
  return (w.shares.find? (·.shareToken = token)).map (shareRecord pg)

def listByOwner (w : World) (ownerId : Bytes) : Except Exn (List ShareRecord) := do
  let ownerId ← pg.uuidParam ownerId
  let rows := w.shares.filter fun s => s.ownerId = ownerId && !s.isRevoked
  return (newestFirst ShareRow.createdAt 20 rows).map (shareRecord pg)

def incrementDownloadCount (id : Bytes) (w : World) : Except Exn (Unit × World) := do
  let id ← pg.uuidParam id
  pg.require (w.shares.all fun s => s.id ≠ id || s.downloadCount + 1 < 2 ^ 31) .outOfRange
  let count (s : ShareRow) : ShareRow :=
    if s.id = id then { s with downloadCount := s.downloadCount + 1 } else s
  return ((), { w with shares := w.shares.map count })

def revoke (id ownerId : Bytes) (w : World) : Except Exn (Unit × World) := do
  let id ← pg.uuidParam id
  let ownerId ← pg.uuidParam ownerId
  let mark (s : ShareRow) : ShareRow :=
    if s.id = id && s.ownerId = ownerId then { s with isRevoked := true } else s
  return ((), { w with shares := w.shares.map mark })

def revokeByFileId (fileId : Bytes) (w : World) : Except Exn (Unit × World) := do
  let fileId ← pg.uuidParam fileId
  let mark (s : ShareRow) : ShareRow :=
    if s.fileId = fileId && !s.isRevoked then { s with isRevoked := true } else s
  return ((), { w with shares := w.shares.map mark })

/-- `revoke_expired`; the number is `affected_rows()`. -/
def revokeExpired (w : World) : Nat × World :=
  let due (s : ShareRow) : Bool := !s.isRevoked && s.expiresAt.any fun t => t < w.sqlNow
  let mark (s : ShareRow) : ShareRow := if due s then { s with isRevoked := true } else s
  ((w.shares.filter due).length, { w with shares := w.shares.map mark })

def tokenExists (w : World) (token : Bytes) : Except Exn Bool := do
  let token ← pg.textParam token
  return w.shares.any (·.shareToken = token)

/-! ## Users -/

def registerUser (svc : Services) (username password : Bytes) (id : Uuid) (w : World) :
    Except Exn (Option Bytes × World) := do
  let username ← pg.textParam username
  if w.users.any (fun u => u.username = username || u.id = id) then return (none, w)
  else
    let row : UserRow := { id, username, passwordHash := svc.sha256 password }
    return (some (id.text), { w with users := w.users ++ [row] })

def login (svc : Services) (w : World) (username password : Bytes) :
    Except Exn (Option UserRecord) := do
  let username ← pg.textParam username
  let found := w.users.find? fun u =>
    u.username = username && u.passwordHash = svc.sha256 password
  return found.map fun u => { id := u.id.text, username := u.username }

end SolarDrive.Metadata
