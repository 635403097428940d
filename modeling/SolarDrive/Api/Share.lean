import SolarDrive.Api.Files

/-!
# Shares

Creating, listing and revoking shares, the public download and the copy into
one's own drive. Every access goes through `resolveShare`.
-/

namespace SolarDrive.Api

open Lib Http

def shareKey (token : Bytes) : Bytes := ascii "share:" ++ token

def sharePagePath (token : Bytes) : Bytes := ascii "/share.html?token=" ++ token

def isShareApiDownload (req : HttpRequest) : Bool :=
  req.getHeader (ascii "X-Share-Download") == ascii "1"

def isShareApiPreview (req : HttpRequest) : Bool :=
  req.getHeader (ascii "X-Share-Preview") == ascii "1"

def wantsSharePageRedirect (req : HttpRequest) : Bool :=
  if isShareApiDownload req || isShareApiPreview req then false
  else
    let accept := req.getHeader (ascii "Accept")
    (afterFirst (ascii "text/html") accept).isSome || accept.isEmpty || accept == ascii "*/*"

/-! ## Tokens -/

def tokenChars : Bytes := ascii "abcdefghijklmnopqrstuvwxyz0123456789"

/-- `count` random characters; the draw stands for `dist(rng)`. -/
def randomChars : Nat → App Bytes
  | 0 => return []
  | count + 1 => do
      let n ← ask .draw
      let rest ← randomChars count
      return tokenChars.getD (n % 36) 0 :: rest

def generateTokenFrom : (attempts : Nat) → App Bytes
  | 0 => throwStd (ascii "failed to generate unique share token")
  | attempts + 1 => do
      let token ← randomChars 8
      let taken ← ask (.tokenExists token)
      if taken then generateTokenFrom attempts else return token

def generateToken : App Bytes := generateTokenFrom 10

/-! ## Access -/

/-- The instant an `expires_at` text stands for, when it can be read. -/
def readExpiry (text : Bytes) : Option Int :=
  ((getTime 84 text).orElse fun _ => getTime SP text).map timegm

/-- `count_download`: the counter in the database, and in the cached record,
where any failure is ignored. -/
def countDownload (svc : Services) (token : Bytes) (share : ShareRecord) : App Unit := do
  ask (.incrementDownloadCount share.id)
  if svc.hasRedis then
    let cached ← ask (.redisGet (shareKey token))
    match cached with
    | none => return ()
    | some text =>
        Prog.tryCatch (do
          let info ← ask (.jsonParse text)
          let info ← ofJson (setField info (ascii "download_count")
            (.int (Int.bmod (share.downloadCount + 1) (2 ^ 32))))
          let text ← ofJson (svc.json.dump info)
          let _ ← ask (.redisSet (shareKey token) text 0)
          return ())
          fun _ => return ()
  else return ()
where
  /-- `info[key] = value`. -/
  setField (j : Json) (key : Bytes) (value : Json) : Except Bytes Json :=
    match j with
    | .obj kvs => .ok (.obj (setKey key value kvs))
    | .null => .ok (.obj [(key, value)])
    | j => (j.index key).map fun _ => j

/-- The checks after the share is found and not revoked or expired. -/
def checkPassword (svc : Services) (share : ShareRecord) (password : Bytes) :
    App (Answered Unit) := do
  if share.passwordHash = [] then return .ok ()
  else if password = [] then
    let resp ← svc.setError 401 (ascii "password required")
    return .error (resp.setHeader (ascii "X-Share-Auth") (ascii "required"))
  else if svc.sha256 password ≠ share.passwordHash then
    let resp ← svc.setError 403 (ascii "incorrect password")
    return .error resp
  else return .ok ()

/-- Whether the share has run out. -/
def shareExpired (share : ShareRecord) : App Bool := do
  if share.expiresAt = [] then return false
  else
    let ns ← ask .now
    match readExpiry share.expiresAt with
    | some expiry => return expiry < toTimeT ns
    | none => return false

/-- A refusal, as the response it is answered with. -/
def refuse {α : Type} (svc : Services) (code : Int) (msg : String) : App (Answered α) := do
  let resp ← svc.setError code (ascii msg)
  return .error resp

def resolveShare (svc : Services) (token password : Bytes) (count : Bool) :
    App (Answered ShareRecord) := do
  if token = [] then refuse svc 400 "missing share token"
  else
    let found ← ask (.findByToken token)
    match found with
    | none => refuse svc 404 "share not found"
    | some share =>
        if share.isRevoked then refuse svc 403 "share has been revoked"
        else
          let expired ← shareExpired share
          if expired then refuse svc 410 "share has expired"
          else
            let checked ← checkPassword svc share password
            match checked with
            | .error resp => return .error resp
            | .ok () =>
                if count ∧ 0 < share.maxDownloads ∧ share.maxDownloads ≤ share.downloadCount then
                  refuse svc 403 "download limit reached"
                else if count then
                  countDownload svc token share
                  return .ok { share with downloadCount := share.downloadCount + 1 }
                else return .ok share

/-! ## Creating -/

/-- The local-time text of the expiry, with the hour of its UTC offset. -/
def expiryText (svc : Services) (ns expiresInHours : Int) : Bytes :=
  let exp := Int.bmod (ns + Int.bmod (expiresInHours * 3600 * 1000000000) (2 ^ 64)) (2 ^ 64)
  let tzOffset := svc.gmtOffset.tdiv 3600
  putTime (gmtime (toTimeT exp + svc.gmtOffset)) ++
    (if 0 ≤ tzOffset then ascii "+" else ascii "-") ++
    (if tzOffset < 10 then ascii "0" else []) ++ decimal tzOffset.natAbs ++ ascii ":00"

structure ShareBody where
  fileId : Bytes
  expiresInHours : Int
  password : Bytes
  maxDownloads : Int

def readShareBody (body : Json) : Except Bytes ShareBody := do
  let fileId ← (← body.index (ascii "file_id")).getString
  let expiresInHours ← body.value (ascii "expires_in_hours") Json.getInt 0
  let password ← body.value (ascii "password") Json.getString []
  let maxDownloads ← body.value (ascii "max_downloads") Json.getInt 0
  return { fileId, expiresInHours, password, maxDownloads }

/-- `x.empty() ? nullptr : x`: the branches meet at `std::string`, which
cannot be built from `nullptr`. -/
def nullableText (text : Bytes) : App Json :=
  if text = [] then throwStd (ascii "basic_string: construction from null is not valid")
  else .ret (.str text)

def shareInfo (record : ShareRecord) : Json :=
  object [("download_count", .int 0), ("expires_at", .str record.expiresAt),
    ("file_id", .str record.fileId), ("is_revoked", .bool false),
    ("max_downloads", .int record.maxDownloads), ("password_hash", .str record.passwordHash)]

/-- The cached record of a new share. -/
def cacheShare (svc : Services) (record : ShareRecord) (expiresInHours : Int) : App Unit := do
  if svc.hasRedis then
    let text ← ofJson (svc.json.dump (shareInfo record))
    let ttl := if 0 < expiresInHours then Int.bmod (expiresInHours * 3600) (2 ^ 32) else 86400
    let _ ← ask (.redisSet (shareKey record.shareToken) text ttl)
    return ()
  else return ()

def shareExpiry (svc : Services) (expiresInHours : Int) : App Bytes := do
  if 0 < expiresInHours then
    let ns ← ask .now
    return expiryText svc ns expiresInHours
  else return []

def createShare (svc : Services) (userId : Bytes) (body : ShareBody) : App HttpResponse := do
  let token ← generateToken
  let expiresAt ← shareExpiry svc body.expiresInHours
  let record : ShareRecord :=
    { fileId := body.fileId, ownerId := userId, shareToken := token
      maxDownloads := body.maxDownloads
      passwordHash := if body.password = [] then [] else svc.sha256 body.password, expiresAt }
  let _ ← ask (.shareInsert record)
  cacheShare svc record body.expiresInHours
  let expires ← nullableText expiresAt
  svc.setJson (object [("download_url", .str (ascii "/s/" ++ token)), ("expires_at", expires),
    ("has_password", .bool (body.password ≠ [])), ("share_token", .str token),
    ("url", .str (sharePagePath token))])

def handleShareCreate (svc : Services) (req : HttpRequest) : App HttpResponse :=
  authorized svc req (do
    let body ← ask (.jsonParse req.body)
    let share ← ofJson (readShareBody body)
    let owned ← requireOwnedFile svc req.authUserId share.fileId
    match owned with
    | .error resp => return resp
    | .ok _ => createShare svc req.authUserId share)
    (svc.catchJson (ascii "share failed: "))

/-! ## Listing and revoking -/

def shareItem (s : ShareRecord) : App Json := do
  let expires ← nullableText s.expiresAt
  return object [("created_at", .str s.createdAt), ("download_count", .int s.downloadCount),
    ("download_url", .str (ascii "/s/" ++ s.shareToken)), ("expires_at", expires),
    ("file_id", .str s.fileId), ("has_password", .bool (s.passwordHash ≠ [])),
    ("max_downloads", .int s.maxDownloads), ("share_token", .str s.shareToken),
    ("url", .str (sharePagePath s.shareToken))]

def shareItems : List ShareRecord → App (List Json)
  | [] => return []
  | s :: rest => do
      let item ← shareItem s
      let items ← shareItems rest
      return item :: items

def handleShareList (svc : Services) (req : HttpRequest) : App HttpResponse :=
  authorized svc req (do
    let shares ← ask (.listByOwner req.authUserId)
    let items ← shareItems shares
    svc.setJson (.arr items))
    (svc.catchStd (ascii "list shares failed: "))

def handleShareRevoke (svc : Services) (req : HttpRequest) : App HttpResponse :=
  authorized svc req (do
    let token := req.getPathParam (ascii "token")
    if token = [] then svc.setError 400 (ascii "missing token")
    else
      let found ← ask (.findByToken token)
      match found with
      | none => svc.setError 404 (ascii "share not found")
      | some share =>
          if share.ownerId ≠ req.authUserId then svc.setError 403 (ascii "not your share")
          else
            ask (.revoke share.id req.authUserId)
            if svc.hasRedis then
              let _ ← ask (.redisDel (shareKey token))
              return HttpResponse.setJson {} (ascii "\x7b\"revoked\":true\x7d")
            else return HttpResponse.setJson {} (ascii "\x7b\"revoked\":true\x7d"))
    (svc.catchStd (ascii "revoke failed: "))

/-! ## Downloading and saving -/

def sharePageRedirect (token : Bytes) : HttpResponse :=
  ((HttpResponse.setStatus {} 302 (ascii "Found")).setHeader (ascii "Location")
    (sharePagePath token)).setBody []

/-- The password of the query, or of the header when that is empty. -/
def sharePassword (req : HttpRequest) : Bytes :=
  let fromQuery := (afterFirst (ascii "password=") req.query).getD []
  if fromQuery = [] then req.getHeader (ascii "X-Share-Password") else fromQuery

def deliverShare (svc : Services) (preview : Bool) (share : ShareRecord) : App HttpResponse := do
  let file ← ask (.fileFindById share.fileId)
  match file with
  | none => svc.setError 404 (ascii "original file not found")
  | some f =>
      let chunkArr ← ask (.jsonParse f.chunkHashes)
      let hashes ← ofJson (chunkArr.getArray Json.getString)
      let content ← getChunked hashes
      let disposition := if preview then ascii "inline" else ascii "attachment"
      return (HttpResponse.setHeader {} (ascii "Content-Disposition")
        (disposition ++ ascii "; filename=\"" ++ f.name ++ ascii "\"")).setBinary content f.mimeType

def handleShareDownload (svc : Services) (req : HttpRequest) : App HttpResponse :=
  Prog.tryCatch (do
    let token := req.getPathParam (ascii "token")
    if token = [] then svc.setError 400 (ascii "missing share token")
    else if wantsSharePageRedirect req then return sharePageRedirect token
    else
      let preview := isShareApiPreview req
      let resolved ← resolveShare svc token (sharePassword req) (isShareApiDownload req && !preview)
      match resolved with
      | .error resp => return resp
      | .ok share => deliverShare svc preview share)
    (svc.catchStd (ascii "download failed: "))

/-- The token, under either name, and the password. -/
def readSaveBody (body : Json) : Except Bytes (Bytes × Bytes) := do
  let shareToken ← body.value (ascii "share_token") Json.getString []
  let token ←
    if shareToken = [] then body.value (ascii "token") Json.getString [] else pure shareToken
  let password ← body.value (ascii "password") Json.getString []
  return (token, password)

def saveShare (svc : Services) (userId : Bytes) (share : ShareRecord) : App HttpResponse := do
  let file ← ask (.fileFindById share.fileId)
  match file with
  | none => svc.setError 404 (ascii "original file not found")
  | some f =>
      let name ← makeUniqueName f.name userId []
      let newId ← ask (.insertLink { name, ownerId := userId, mimeType := f.mimeType } f.contentId)
      svc.setJson (object [("file_id", .str newId), ("name", .str name), ("saved", .bool true),
        ("size", .int f.size)])

def handleShareSave (svc : Services) (req : HttpRequest) : App HttpResponse :=
  authorized svc req (do
    let body ← ask (.jsonParse req.body)
    let (token, password) ← ofJson (readSaveBody body)
    let resolved ← resolveShare svc token password false
    match resolved with
    | .error resp => return resp
    | .ok share => saveShare svc req.authUserId share)
    (svc.catchJson (ascii "save failed: "))

end SolarDrive.Api
