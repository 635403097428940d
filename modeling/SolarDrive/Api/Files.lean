import SolarDrive.Api.Upload

/-!
# Files and folders

Listing, deleting and downloading files, the garbage collector of unreferenced
content, and the folder handlers.
-/

namespace SolarDrive.Api

open Lib Http

/-- The handlers that answer 401 without a user and catch every exception. -/
def authorized (svc : Services) (req : HttpRequest) (k : App HttpResponse)
    (catching : Exn → App HttpResponse) : App HttpResponse :=
  Prog.tryCatch (if req.hasAuthUser then k else svc.setError 401 (ascii "Unauthorized")) catching

/-! ## Garbage collection -/

/-- `try_collect_content`. -/
def tryCollectContent (contentId : Bytes) : App GcStats := do
  if contentId = [] then return {}
  else
    let content ← ask (.contentFindById contentId)
    match content with
    | none => return {}
    | some c => ask (.purgeContent c)

def GcStats.add (a b : GcStats) : GcStats :=
  { contentRowsDeleted := a.contentRowsDeleted + b.contentRowsDeleted
    chunkFilesRemoved := a.chunkFilesRemoved + b.chunkFilesRemoved }

def purgeAll : List ContentRecord → App GcStats
  | [] => return {}
  | orphan :: orphans => do
      let one ← ask (.purgeContent orphan)
      let rest ← purgeAll orphans
      return one.add rest

def collectOrphans (batchLimit : Nat) : App GcStats := do
  let orphans ← ask (.listOrphans batchLimit)
  purgeAll orphans

/-! ## Files -/

def fileJson (f : FileRecord) : Json :=
  object [("created_at", .str f.createdAt), ("hash", .str f.hash), ("id", .str f.id),
    ("mime_type", .str f.mimeType), ("name", .str f.name), ("size", .int f.size)]

def handleFileList (svc : Services) (req : HttpRequest) : App HttpResponse :=
  authorized svc req (do
    let folderId := queryParam req.query (ascii "folder_id")
    let files ← ask (.listByFolder req.authUserId folderId)
    svc.setJson (object [("files", .arr (files.map fileJson))]))
    (svc.catchStd (ascii "list failed: "))

def handleFileDelete (svc : Services) (req : HttpRequest) : App HttpResponse :=
  authorized svc req (do
    let fileId := req.getPathParam (ascii "id")
    if fileId = [] then svc.setError 400 (ascii "missing file id")
    else
      let owned ← requireOwnedFile svc req.authUserId fileId
      match owned with
      | .error resp => return resp
      | .ok file =>
          ask (.fileSoftDelete fileId)
          ask (.revokeByFileId fileId)
          let _ ← tryCollectContent file.contentId
          return HttpResponse.setJson {} (ascii "\x7b\"deleted\":true\x7d"))
    (svc.catchStd (ascii "delete failed: "))

/-- What a range-`for` over a JSON value visits. -/
def elements : Json → List Json
  | .arr xs => xs
  | .obj kvs => kvs.map Prod.snd
  | .null => []
  | j => [j]

/-- The body of the download handler's `try`. -/
def downloadOwned (svc : Services) (userId fileId : Bytes) : App HttpResponse := do
  let owned ← requireOwnedFile svc userId fileId
  match owned with
  | .error resp => return resp
  | .ok record =>
      let chunkJson ← ask (.jsonParse record.chunkHashes)
      let chunkHashes ← ofJson ((elements chunkJson).mapM Json.getString)
      let content ← getChunked chunkHashes
      let mimeType := if record.mimeType = [] then ascii "application/octet-stream"
        else record.mimeType
      return (HttpResponse.setBinary {} content mimeType).setDownloadHeaders record.name
        content.length

def downloadHandle (svc : Services) (req : HttpRequest) : App HttpResponse :=
  Prog.tryCatch (do
    if !req.hasAuthUser then svc.setError 401 (ascii "Unauthorized")
    else
      let fromPath := req.getPathParam (ascii "id")
      let fileId := if fromPath = [] then queryParam req.query (ascii "file_id") else fromPath
      if fileId = [] then svc.setError 400 (ascii "file_id is required")
      else downloadOwned svc req.authUserId fileId)
    fun e =>
      if e.kind = .pqxx then svc.setError 500 (ascii "database error")
      else svc.setError 500 e.what

/-- The download route has a `try` of its own around the handler's. -/
def downloadRoute (svc : Services) (req : HttpRequest) : App HttpResponse :=
  Prog.tryCatch (downloadHandle svc req) (svc.catchStd (ascii "download failed: "))

/-! ## Folders -/

def optionalIdJson (id : Bytes) : Json := if id = [] then .null else .str id

def folderJson (f : FolderRecord) : Json :=
  object [("created_at", .str f.createdAt), ("id", .str f.id), ("name", .str f.name),
    ("parent_id", optionalIdJson f.parentId)]

def handleFolderList (svc : Services) (req : HttpRequest) : App HttpResponse :=
  authorized svc req (do
    let parentId := queryParam req.query (ascii "parent_id")
    let folders ← ask (.listByParent req.authUserId parentId)
    svc.setJson (object [("folders", .arr (folders.map folderJson))]))
    (svc.catchStd (ascii "list folders failed: "))

/-- The folder with this id, if it is the user's own. -/
def ownedFolder (id userId : Bytes) : App (Option FolderRecord) := do
  let folder ← ask (.folderFindById id)
  match folder with
  | some f => return if f.ownerId = userId then some f else none
  | none => return none

/-- The name, then the parent id, of a folder to create. -/
def readParentId (body : Json) : Except Bytes Bytes := do
  let parent ← body.index (ascii "parent_id")
  if body.contains (ascii "parent_id") && !parent.isNull then parent.getString else pure []

/-- Check the name and insert. -/
def createFolder (svc : Services) (userId parentId name : Bytes) : App HttpResponse := do
  let taken ← ask (.folderNameExists userId parentId name)
  if taken then svc.setError 409 (ascii "folder name already exists")
  else
    let id ← ask (.folderInsert { name, parentId, ownerId := userId })
    svc.setJson (object [("id", .str id), ("name", .str name),
      ("parent_id", optionalIdJson parentId)])

def handleFolderCreate (svc : Services) (req : HttpRequest) : App HttpResponse :=
  authorized svc req (do
    let body ← ask (.jsonParse req.body)
    let name ← ofJson (body.value (ascii "name") Json.getString [])
    if name = [] then svc.setError 400 (ascii "name is required")
    else
      let parentId ← ofJson (readParentId body)
      if parentId = [] then createFolder svc req.authUserId parentId name
      else
        let parent ← ownedFolder parentId req.authUserId
        match parent with
        | none => svc.setError 404 (ascii "parent folder not found")
        | some _ => createFolder svc req.authUserId parentId name)
    (svc.catchJson (ascii "create folder failed: "))

def handleFolderDelete (svc : Services) (req : HttpRequest) : App HttpResponse :=
  authorized svc req (do
    let id := req.getPathParam (ascii "id")
    if id = [] then svc.setError 400 (ascii "missing folder id")
    else
      let folder ← ownedFolder id req.authUserId
      match folder with
      | none => svc.setError 404 (ascii "folder not found")
      | some _ =>
          let occupied ← ask (.hasChildren id)
          if occupied then svc.setError 400 (ascii "folder is not empty")
          else
            ask (.folderSoftDelete id)
            return HttpResponse.setJson {} (ascii "\x7b\"deleted\":true\x7d"))
    (svc.catchStd (ascii "delete folder failed: "))

def handleFolderRename (svc : Services) (req : HttpRequest) : App HttpResponse :=
  authorized svc req (do
    let id := req.getPathParam (ascii "id")
    if id = [] then svc.setError 400 (ascii "missing folder id")
    else
      let folder ← ownedFolder id req.authUserId
      match folder with
      | none => svc.setError 404 (ascii "folder not found")
      | some f =>
          let body ← ask (.jsonParse req.body)
          let name ← ofJson (body.value (ascii "name") Json.getString [])
          if name = [] then svc.setError 400 (ascii "name is required")
          else
            let taken ← ask (.folderNameExists req.authUserId f.parentId name)
            if taken ∧ name ≠ f.name then svc.setError 409 (ascii "folder name already exists")
            else
              let _ ← ask (.folderRename id name)
              svc.setJson (object [("id", .str id), ("name", .str name)]))
    (svc.catchJson (ascii "rename folder failed: "))

end SolarDrive.Api
