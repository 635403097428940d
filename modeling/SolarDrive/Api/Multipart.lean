import SolarDrive.Api.Upload

/-!
# Multipart uploads

A session lives in a Redis hash: `saveToRedis` writes its nine fields one
command at a time and `loadFromRedis` reads them one command at a time. Parts
go to the object store; `handle_complete` turns a full session into a file.
-/

namespace SolarDrive.Api

open Lib Http

structure MultipartSession where
  uploadId : Bytes := []
  userId : Bytes := []
  folderId : Bytes := []
  fileName : Bytes := []
  mimeType : Bytes := []
  totalSize : Int := 0
  chunkSize : Int := 0
  chunkCount : Int := 0
  uploaded : List Bool := []
  partHashes : List Bytes := []
deriving DecidableEq, Repr

def sessionKey (uploadId : Bytes) : Bytes := ascii "multipart:" ++ uploadId

def flagArray (flags : List Bool) : Json := .arr (flags.map .bool)

/-! ## Redis -/

/-- The fields of a session, in the order they are written. -/
def sessionFields (session : MultipartSession) (partHashes uploaded : Bytes) :
    List (Bytes × Bytes) :=
  [(ascii "file_name", session.fileName),
    (ascii "mime_type", session.mimeType),
    (ascii "user_id", session.userId),
    (ascii "folder_id", session.folderId),
    (ascii "total_size", decimalInt session.totalSize),
    (ascii "chunk_size", decimalInt session.chunkSize),
    (ascii "chunk_count", decimalInt session.chunkCount),
    (ascii "part_hashes", partHashes),
    (ascii "uploaded", uploaded)]

def hsetAll (key : Bytes) : List (Bytes × Bytes) → App Unit
  | [] => return ()
  | (field, value) :: rest => do
      let _ ← ask (.hset key field value)
      hsetAll key rest

def saveToRedis (svc : Services) (session : MultipartSession) : App Unit := do
  if svc.hasRedis then
    let partHashes ← ofJson (svc.json.dump (hashArray session.partHashes))
    let uploaded ← ofJson (svc.json.dump (flagArray session.uploaded))
    hsetAll (sessionKey session.uploadId) (sessionFields session partHashes uploaded)
    let _ ← ask (.expire (sessionKey session.uploadId) (24 * 3600))
    return ()
  else return ()

/-- `std::stoll` and `std::stoi` throw with their own name as text. -/
def ofSto {α : Type} (name : String) : Except StoError α → App α
  | .ok a => .ret a
  | .error _ => throwStd (ascii name)

/-- A numeric field, with a default when it is missing. -/
def numberField (key : Bytes) (field : String) (read : Bytes → Except StoError Int)
    (name : String) (default : Int) : App Int := do
  let text ← ask (.hget key (ascii field))
  match text with
  | some t => ofSto name (read t)
  | none => return default

/-- An array field; a missing or empty one gives no elements. -/
def arrayField {α : Type} (key : Bytes) (field : String) (elem : Json → Except Bytes α) :
    App (List α) := do
  let text ← ask (.hget key (ascii field))
  match text with
  | some t =>
      if t = [] then return []
      else
        let arr ← ask (.jsonParse t)
        ofJson (arr.getArray elem)
  | none => return []

/-- The fields after `file_name`. -/
def loadFields (svc : Services) (key uploadId fileName : Bytes) : App MultipartSession := do
  let mime ← ask (.hget key (ascii "mime_type"))
  let user ← ask (.hget key (ascii "user_id"))
  let folder ← ask (.hget key (ascii "folder_id"))
  let totalSize ← numberField key "total_size" stoll "stoll" 0
  let chunkSize ← numberField key "chunk_size" stoll "stoll" svc.chunkSize
  let chunkCount ← numberField key "chunk_count" stoi "stoi" 0
  let partHashes ← arrayField key "part_hashes" Json.getString
  let uploaded ← arrayField key "uploaded" Json.getBool
  return { uploadId, fileName, totalSize, chunkSize, chunkCount, partHashes, uploaded
           mimeType := mime.getD (ascii "application/octet-stream")
           userId := user.getD [], folderId := folder.getD [] }

/-- The session, with an empty `uploadId` when there is none. -/
def loadFromRedis (svc : Services) (uploadId : Bytes) : App MultipartSession := do
  if svc.hasRedis then
    let fileName ← ask (.hget (sessionKey uploadId) (ascii "file_name"))
    match fileName with
    | none => return {}
    | some name => loadFields svc (sessionKey uploadId) uploadId name
  else return {}

def deleteFromRedis (svc : Services) (uploadId : Bytes) : App Unit := do
  if svc.hasRedis then
    let _ ← ask (.redisDel (sessionKey uploadId))
    return ()
  else return ()

/-! ## Starting -/

/-- Hexadecimal without leading zeros. -/
def hexNat (n : Nat) : Bytes :=
  if n = 0 then [48] else (Nat.digits 16 n).reverse.map hexDigit

/-- Four 64-bit numbers joined by dashes. -/
def generateUuid : App Bytes := do
  let a ← ask .draw
  let b ← ask .draw
  let c ← ask .draw
  let d ← ask .draw
  let word (n : Nat) : Bytes := hexNat (n % 2 ^ 64)
  return word a ++ DASH :: word b ++ DASH :: word c ++ DASH :: word d

/-- `static_cast<int>((total + chunk - 1) / chunk)`. -/
def partCount (totalSize chunkSize : Int) : Int :=
  Int.bmod ((Int.bmod (totalSize + chunkSize - 1) (2 ^ 64)).tdiv chunkSize) (2 ^ 32)

/-- What `handle_init` reads from the body. -/
structure InitBody where
  fileName : Bytes
  totalSize : Int
  mimeType : Bytes
  folderId : Bytes

def readInitBody (body : Json) : Except Bytes InitBody := do
  let fileName ← (← body.index (ascii "file_name")).getString
  let totalSize ← (← body.index (ascii "total_size")).getInt64
  let mimeType ← body.value (ascii "mime_type") Json.getString (ascii "application/octet-stream")
  let folder ← body.index (ascii "folder_id")
  let folderId ←
    if body.contains (ascii "folder_id") && !folder.isNull then folder.getString else pure []
  return { fileName, totalSize, mimeType, folderId }

/-- The new session; `assign` throws on a negative count. -/
def startSession (svc : Services) (init : InitBody) (userId folderId : Bytes) :
    App MultipartSession := do
  let uploadId ← generateUuid
  let chunkCount := partCount init.totalSize svc.chunkSize
  if chunkCount < 0 then throwStd (ascii "vector<bool>::_M_fill_insert")
  else
    return { uploadId, userId, folderId, fileName := init.fileName, mimeType := init.mimeType
             totalSize := init.totalSize, chunkSize := svc.chunkSize, chunkCount
             uploaded := List.replicate chunkCount.toNat false
             partHashes := List.replicate chunkCount.toNat [] }

def handleInit (svc : Services) (req : HttpRequest) : App HttpResponse :=
  Prog.tryCatch (do
    if !req.hasAuthUser then svc.setError 401 (ascii "Unauthorized")
    else
      let body ← ask (.jsonParse req.body)
      let init ← ofJson (readInitBody body)
      if init.fileName = [] ∨ init.totalSize ≤ 0 then
        svc.setError 400 (ascii "file_name and total_size are required")
      else if svc.oversized init.totalSize then svc.setError 413 (ascii "file too large")
      else
        let folder ← resolveFolderId svc init.folderId req.authUserId
        match folder with
        | .error resp => return resp
        | .ok folderId =>
            let session ← startSession svc init req.authUserId folderId
            saveToRedis svc session
            svc.setJson (object [("chunk_count", .int session.chunkCount),
              ("chunk_size", .int session.chunkSize), ("upload_id", .str session.uploadId)]))
    (svc.catchJson (ascii "init failed: "))

/-! ## Working on a session -/

/-- The session of a request, or the answer when it is missing or another
user's. -/
def requireSession (svc : Services) (req : HttpRequest) (uploadId : Bytes) :
    App (Answered MultipartSession) := do
  let session ← loadFromRedis svc uploadId
  if session.uploadId = [] then
    let resp ← svc.setError 404 (ascii "upload session not found")
    return .error resp
  else if session.userId ≠ req.authUserId then
    let resp ← svc.setError 403 (ascii "forbidden")
    return .error resp
  else return .ok session

def uploadedCount (session : MultipartSession) : Int := session.uploaded.count true

def notifyUploadProgress (session : MultipartSession) : App Unit :=
  let percent :=
    if 0 < session.chunkCount then
      (Int.bmod (uploadedCount session * 100) (2 ^ 32)).tdiv session.chunkCount
    else 0
  let bytes := Int.bmod (uploadedCount session * session.chunkSize) (2 ^ 64)
  ask (.pushProgress session.uploadId percent
    (if bytes > session.totalSize then session.totalSize else bytes) session.totalSize)

/-- The session with part `partNum` recorded. An array that ends before it stays as it is;
`OutOfRange` has what the accesses do there. -/
def MultipartSession.record (session : MultipartSession) (partNum : Int) (hash : Bytes) :
    MultipartSession :=
  { session with
    uploaded := session.uploaded.set partNum.toNat true
    partHashes := session.partHashes.set partNum.toNat hash }

/-- Write the session back with the part in it. -/
def recordPart (svc : Services) (session : MultipartSession) (partNum : Int) (body hash : Bytes) :
    App HttpResponse := do
  let session := session.record partNum hash
  saveToRedis svc session
  notifyUploadProgress session
  svc.setJson (object [("hash", .str hash), ("part_num", .int partNum),
    ("size", .int body.length)])

/-- Store the part and write the session back. -/
def storePart (svc : Services) (session : MultipartSession) (partNum : Int) (body : Bytes) :
    App HttpResponse := do
  let hash ← ask (.put body)
  recordPart svc session partNum body hash

def handleUploadPart (svc : Services) (req : HttpRequest) : App HttpResponse :=
  Prog.tryCatch (do
    if !req.hasAuthUser then svc.setError 401 (ascii "Unauthorized")
    else
      let uploadId := req.getPathParam (ascii "upload_id")
      let partStr := req.getPathParam (ascii "part_num")
      if uploadId = [] ∨ partStr = [] then
        svc.setError 400 (ascii "missing upload_id or part_num")
      else
        let partNum ← ofSto "stoi" (stoi partStr)
        if req.body = [] then svc.setError 400 (ascii "empty part body")
        else
          let found ← requireSession svc req uploadId
          match found with
          | .error resp => return resp
          | .ok session =>
              if partNum < 0 ∨ session.chunkCount ≤ partNum then
                svc.setError 400 (ascii "invalid part_num")
              else if session.chunkSize < req.body.length then
                svc.setError 413 (ascii "part too large")
              else storePart svc session partNum req.body)
    (svc.catchStd (ascii "upload part failed: "))

/-- The first part that is not there yet, or that `uploaded` has no place for. -/
def firstMissing (session : MultipartSession) : Option Nat :=
  (List.range session.chunkCount.toNat).find? fun i => !session.uploaded.getD i false

/-- Link to known content or insert new content; the file id and whether it
was linked. -/
def createFile (svc : Services) (session : MultipartSession) (chunkHashes hash : Bytes) :
    App (Bytes × Bool) := do
  let content ← ask (.findContentByHash hash)
  match content with
  | some c =>
      let fileId ← linkExistingContent c session.fileName session.mimeType session.userId
        session.folderId
      rememberHash svc hash c.contentId
      return (fileId, true)
  | none =>
      let fileId ← ask (.fileInsert
        { name := session.fileName, size := session.totalSize, hash, chunkHashes
          mimeType := session.mimeType, ownerId := session.userId, folderId := session.folderId })
      indexContent svc hash
      return (fileId, false)

def finishSession (svc : Services) (uploadId : Bytes) (session : MultipartSession) :
    App HttpResponse := do
  let chunkHashes ← ofJson (svc.json.dump (hashArray session.partHashes))
  let fullContent ← getChunked session.partHashes
  let hash := svc.sha256 fullContent
  let (fileId, instant) ← createFile svc session chunkHashes hash
  deleteFromRedis svc uploadId
  let _ ← ask (.pushComplete uploadId fileId)
  svc.setJson (object [("file_id", .str fileId), ("hash", .str hash), ("instant", .bool instant),
    ("size", .int session.totalSize)])

/-- The handlers that work on the session named in the path. -/
def withSession (svc : Services) (req : HttpRequest) (what : Bytes)
    (k : Bytes → MultipartSession → App HttpResponse) : App HttpResponse :=
  Prog.tryCatch (do
    if !req.hasAuthUser then svc.setError 401 (ascii "Unauthorized")
    else
      let uploadId := req.getPathParam (ascii "upload_id")
      if uploadId = [] then svc.setError 400 (ascii "missing upload_id")
      else
        let found ← requireSession svc req uploadId
        match found with
        | .error resp => return resp
        | .ok session => k uploadId session)
    (svc.catchStd what)

def handleComplete (svc : Services) (req : HttpRequest) : App HttpResponse :=
  withSession svc req (ascii "complete failed: ") fun uploadId session =>
    match firstMissing session with
    | some i => svc.setError 400 (ascii "part " ++ decimal i ++ ascii " not uploaded yet")
    | none => finishSession svc uploadId session

def handleStatus (svc : Services) (req : HttpRequest) : App HttpResponse :=
  withSession svc req (ascii "status failed: ") fun _ session =>
    svc.setJson (object [("chunk_count", .int session.chunkCount),
      ("chunk_size", .int session.chunkSize), ("file_name", .str session.fileName),
      ("part_hashes", .arr (session.partHashes.map fun h => if h = [] then .null else .str h)),
      ("total_size", .int session.totalSize), ("upload_id", .str session.uploadId),
      ("uploaded_count", .int (uploadedCount session))])

def handleAbort (svc : Services) (req : HttpRequest) : App HttpResponse :=
  withSession svc req (ascii "abort failed: ") fun uploadId _ => do
    deleteFromRedis svc uploadId
    return HttpResponse.setJson {} (ascii "\x7b\"status\":\"aborted\"\x7d")

end SolarDrive.Api
