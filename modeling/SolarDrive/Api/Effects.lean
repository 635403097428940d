import SolarDrive.Api.ReadOnly

/-!
# Which calls the handlers make

For a property `S` of calls that all reading calls have: a handler makes calls
in `S` only, if the calls are in `S` by which it changes something.
-/

namespace SolarDrive.Api

open Lib Http Prog

/-! ## Handlers that only read -/

section Reads

variable (svc : Services) (req : HttpRequest)

theorem reads_unauthorized {k : App HttpResponse} (hk : Reads k) :
    Reads (if req.hasAuthUser then k else svc.setError 401 (ascii "Unauthorized")) := by
  split
  · exact hk
  · exact reads_setError svc _ _

theorem reads_handleFileList : Reads (handleFileList svc req) := by
  refine callsOnly_tryCatch (reads_unauthorized svc req ?_) (reads_catchStd svc _)
  exact reads_bind (reads_ask rfl) fun _ => reads_setJson svc _

theorem reads_handleFolderList : Reads (handleFolderList svc req) := by
  refine callsOnly_tryCatch (reads_unauthorized svc req ?_) (reads_catchStd svc _)
  exact reads_bind (reads_ask rfl) fun _ => reads_setJson svc _

theorem reads_handleShareList : Reads (handleShareList svc req) := by
  refine callsOnly_tryCatch (reads_unauthorized svc req ?_) (reads_catchStd svc _)
  exact reads_bind (reads_ask rfl) fun shares =>
    reads_bind (reads_shareItems shares) fun _ => reads_setJson svc _

theorem reads_handleStatus : Reads (handleStatus svc req) := by
  refine callsOnly_tryCatch ?_ (reads_catchStd svc _)
  split
  · exact reads_setError svc _ _
  · dsimp only
    split
    · exact reads_setError svc _ _
    · refine reads_bind (reads_requireSession svc req _) fun found => ?_
      cases found with
      | error resp => exact reads_pure _
      | ok session => exact reads_setJson svc _

theorem reads_downloadRoute : Reads (downloadRoute svc req) := by
  have howned : ∀ userId fileId, Reads (downloadOwned svc userId fileId) := by
    intro userId fileId
    refine reads_bind (reads_requireOwnedFile svc userId fileId) fun owned => ?_
    cases owned with
    | error resp => exact reads_pure _
    | ok record =>
        exact reads_bind (reads_ask rfl) fun _ => reads_bind (reads_ofJson _) fun hashes =>
          reads_bind (reads_getChunked hashes) fun _ => reads_pure _
  refine callsOnly_tryCatch (callsOnly_tryCatch ?_ fun e => ?_) (reads_catchStd svc _)
  · have hfile : ∀ fileId : Bytes, Reads (if fileId = [] then
        svc.setError 400 (ascii "file_id is required") else downloadOwned svc req.authUserId fileId) := by
      intro fileId
      split
      · exact reads_setError svc _ _
      · exact howned _ _
    split
    · exact reads_setError svc _ _
    · exact hfile _
  · split <;> exact reads_setError svc _ _

theorem reads_tokenAnswer (userId username : Bytes) : Reads (tokenAnswer svc userId username) := by
  refine reads_bind (reads_bind (reads_ask rfl) fun _ => reads_ofJson _) fun _ => reads_setJson svc _

theorem reads_handleLogin : Reads (handleLogin svc req) := by
  refine callsOnly_tryCatch ?_ (reads_catchJson svc _)
  refine reads_bind (reads_ask rfl) fun body => reads_bind (reads_ofJson _) fun credentials => ?_
  obtain ⟨username, password⟩ := credentials
  dsimp only
  split
  · exact reads_setError svc _ _
  · refine reads_bind (reads_ask rfl) fun user => ?_
    cases user with
    | none => exact reads_setError svc _ _
    | some u => exact reads_tokenAnswer svc _ _

omit req in
/-- It reads the file, and then its objects. -/
theorem callsOnly_deliverShare {S : Call → Prop} (hfile : ∀ id, S (.fileFindById id))
    (hparse : ∀ text, S (.jsonParse text)) (hget : ∀ hash, S (.get hash)) (preview : Bool)
    (share : ShareRecord) : (deliverShare svc preview share).CallsOnly S := by
  refine callsOnly_bind (callsOnly_request (hfile _)) fun file => ?_
  cases file with
  | none => exact callsOnly_ofJson _
  | some f =>
      exact callsOnly_bind (callsOnly_request (hparse _)) fun _ =>
        callsOnly_bind (callsOnly_ofJson _) fun hashes =>
          callsOnly_bind (callsOnly_getChunked hget hashes) fun _ => callsOnly_pure _

omit req in
theorem reads_deliverShare (preview : Bool) (share : ShareRecord) :
    Reads (deliverShare svc preview share) :=
  callsOnly_deliverShare (S := fun c => readOnly c = true) svc (fun _ => rfl) (fun _ => rfl)
    (fun _ => rfl) preview share

end Reads

/-! ## Handlers that change something -/

section Effects

variable {S : Call → Prop} (hreads : ∀ c, readOnly c = true → S c)

include hreads

theorem callsOnly_reads {α : Type} {p : App α} (hp : Reads p) : p.CallsOnly S :=
  hp.mono hreads

variable (svc : Services)

theorem callsOnly_authorized {req : HttpRequest} {k : App HttpResponse}
    {catching : Exn → App HttpResponse} (hk : req.hasAuthUser = true → k.CallsOnly S)
    (hcatch : ∀ e, Reads (catching e)) : (authorized svc req k catching).CallsOnly S := by
  refine callsOnly_tryCatch ?_ fun e => callsOnly_reads hreads (hcatch e)
  split
  · rename_i hauth
    exact hk hauth
  · exact callsOnly_reads hreads (reads_setError svc _ _)

/-! ### Uploads -/

omit hreads in
theorem callsOnly_rememberHash (hredis : ∀ hash value, S (.redisSet (hashKey hash) value 0))
    (hash contentId : Bytes) : (rememberHash svc hash contentId).CallsOnly S := by
  unfold rememberHash
  split
  · exact callsOnly_bind (callsOnly_request (hredis _ _)) fun _ => callsOnly_pure _
  · exact callsOnly_pure _

theorem callsOnly_indexContent (hredis : ∀ hash value, S (.redisSet (hashKey hash) value 0))
    (hash : Bytes) : (indexContent svc hash).CallsOnly S := by
  unfold indexContent
  split
  · refine callsOnly_bind (callsOnly_request (hreads _ rfl)) fun content => ?_
    cases content with
    | none => exact callsOnly_pure _
    | some c => exact callsOnly_rememberHash svc hredis _ _
  · exact callsOnly_pure _

omit svc in
theorem callsOnly_linkExistingContent {userId folderId : Bytes}
    (hlink : ∀ file contentId, file.ownerId = userId → file.folderId = folderId →
      S (.insertLink file contentId)) (content : FileRecord) (filename mimeType : Bytes) :
    (linkExistingContent content filename mimeType userId folderId).CallsOnly S := by
  refine callsOnly_bind (callsOnly_reads hreads (reads_makeUniqueName _ _ _)) fun name => ?_
  exact callsOnly_request (hlink _ _ rfl rfl)

omit hreads svc in
theorem callsOnly_putAll (hput : ∀ data, S (.put data)) : ∀ chunks : List Bytes,
    (putAll chunks).CallsOnly S
  | [] => callsOnly_pure _
  | _ :: chunks => callsOnly_bind (callsOnly_request (hput _)) fun _ =>
      callsOnly_bind (callsOnly_putAll hput chunks) fun _ => callsOnly_pure _

variable (hput : ∀ data, S (.put data))
  (hredis : ∀ hash value, S (.redisSet (hashKey hash) value 0))
  {userId folderId : Bytes}
  (hinsert : ∀ file, file.ownerId = userId → file.folderId = folderId → S (.fileInsert file))
  (hlink : ∀ file contentId, file.ownerId = userId → file.folderId = folderId →
    S (.insertLink file contentId))

include hput hredis hinsert in
theorem callsOnly_uploadNew (body filename mimeType fileHash : Bytes) :
    (uploadNew svc body filename mimeType userId folderId fileHash).CallsOnly S := by
  refine callsOnly_bind (callsOnly_putAll hput _) fun chunks => ?_
  refine callsOnly_bind (callsOnly_reads hreads (reads_ofJson _)) fun chunkHashes => ?_
  refine callsOnly_bind (callsOnly_request (hinsert _ rfl rfl)) fun fileId => ?_
  exact callsOnly_bind (callsOnly_indexContent hreads svc hredis _) fun _ =>
    callsOnly_reads hreads (reads_setJson svc _)

include hput hredis hinsert hlink in
theorem callsOnly_uploadLookup (body filename mimeType fileHash : Bytes) :
    (uploadLookup svc body filename mimeType userId folderId fileHash).CallsOnly S := by
  refine callsOnly_bind (callsOnly_request (hreads _ rfl)) fun content => ?_
  cases content with
  | none => exact callsOnly_uploadNew hreads svc hput hredis hinsert _ _ _ _
  | some c =>
      refine callsOnly_bind (callsOnly_rememberHash svc hredis _ _) fun _ => ?_
      refine callsOnly_bind (callsOnly_linkExistingContent hreads hlink _ _ _) fun _ => ?_
      exact callsOnly_reads hreads (reads_setJson svc _)

include hput hredis hinsert hlink in
theorem callsOnly_uploadContent (body filename mimeType : Bytes) :
    (uploadContent svc body filename mimeType userId folderId).CallsOnly S := by
  have hlookup : ∀ fileHash,
      (uploadLookup svc body filename mimeType userId folderId fileHash).CallsOnly S :=
    callsOnly_uploadLookup hreads svc hput hredis hinsert hlink body filename mimeType
  unfold uploadContent
  dsimp only
  split
  · refine callsOnly_bind (callsOnly_request (hreads _ rfl)) fun cached => ?_
    cases cached with
    | none => exact hlookup _
    | some _ =>
        refine callsOnly_bind (callsOnly_request (hreads _ rfl)) fun content => ?_
        cases content with
        | none => exact hlookup _
        | some c =>
            refine callsOnly_bind (callsOnly_linkExistingContent hreads hlink _ _ _) fun _ => ?_
            exact callsOnly_reads hreads (reads_setJson svc _)
  · exact hlookup _

omit userId folderId hinsert hlink in
include hput hredis in
theorem callsOnly_uploadRoute (req : HttpRequest)
    (hinsert : ∀ file, file.ownerId = req.authUserId → S (.fileInsert file))
    (hlink : ∀ file contentId, file.ownerId = req.authUserId → S (.insertLink file contentId)) :
    (uploadRoute svc req).CallsOnly S := by
  refine callsOnly_tryCatch ?_ fun e => callsOnly_reads hreads (reads_catchStd svc _ e)
  split
  · unfold handleSingleUpload
    split
    · exact callsOnly_reads hreads (reads_setError svc _ _)
    · split
      · exact callsOnly_reads hreads (reads_setError svc _ _)
      · refine callsOnly_bind (callsOnly_reads hreads (reads_resolveFolderId svc _ _))
          fun folder => ?_
        cases folder with
        | error resp => exact callsOnly_pure _
        | ok folderId =>
            exact callsOnly_uploadContent hreads svc hput hredis (fun file hf _ => hinsert file hf)
              (fun file contentId hf _ => hlink file contentId hf) _ _ _
  · exact callsOnly_reads hreads (reads_setError svc _ _)

include hredis hinsert hlink in
theorem callsOnly_createFile {session : MultipartSession} (huser : session.userId = userId)
    (hfolder : session.folderId = folderId) (chunkHashes hash : Bytes) :
    (createFile svc session chunkHashes hash).CallsOnly S := by
  subst huser hfolder
  refine callsOnly_bind (callsOnly_request (hreads _ rfl)) fun content => ?_
  cases content with
  | none =>
      refine callsOnly_bind (callsOnly_request (hinsert _ rfl rfl)) fun _ => ?_
      exact callsOnly_bind (callsOnly_indexContent hreads svc hredis _) fun _ => callsOnly_pure _
  | some c =>
      refine callsOnly_bind (callsOnly_linkExistingContent hreads hlink _ _ _) fun _ => ?_
      exact callsOnly_bind (callsOnly_rememberHash svc hredis _ _) fun _ => callsOnly_pure _

omit hinsert hlink hput hredis in
theorem callsOnly_handleInit (req : HttpRequest) (hhset : ∀ key field value, S (.hset key field value)) :
    (handleInit svc req).CallsOnly S := by
  refine callsOnly_tryCatch ?_ fun e => callsOnly_reads hreads (reads_catchJson svc _ e)
  split
  · exact callsOnly_reads hreads (reads_setError svc _ _)
  refine callsOnly_bind (callsOnly_request (hreads _ rfl)) fun body => ?_
  refine callsOnly_bind (callsOnly_ofJson _) fun init => ?_
  split
  · exact callsOnly_reads hreads (reads_setError svc _ _)
  split
  · exact callsOnly_reads hreads (reads_setError svc _ _)
  refine callsOnly_bind (callsOnly_reads hreads (reads_resolveFolderId svc _ _)) fun folder => ?_
  cases folder with
  | error resp => exact callsOnly_pure _
  | ok folderId =>
      refine callsOnly_bind (callsOnly_reads hreads (reads_startSession svc _ _ _)) fun session => ?_
      exact callsOnly_bind (callsOnly_saveToRedis svc hhset (fun _ _ => hreads _ rfl) session) fun _ =>
        callsOnly_reads hreads (reads_setJson svc _)

omit hput hredis hinsert hlink userId folderId

theorem callsOnly_withSession (req : HttpRequest) (what : Bytes)
    {k : Bytes → MultipartSession → App HttpResponse} (hk : ∀ id session, (k id session).CallsOnly S) :
    (withSession svc req what k).CallsOnly S := by
  refine callsOnly_tryCatch ?_ fun e => callsOnly_reads hreads (reads_catchStd svc _ e)
  split
  · exact callsOnly_reads hreads (reads_setError svc _ _)
  dsimp only
  split
  · exact callsOnly_reads hreads (reads_setError svc _ _)
  refine callsOnly_bind (callsOnly_reads hreads (reads_requireSession svc _ _)) fun found => ?_
  cases found with
  | error resp => exact callsOnly_pure _
  | ok session => exact hk _ _

omit hreads in
theorem callsOnly_deleteFromRedis (hdel : ∀ id, S (.redisDel (sessionKey id))) (uploadId : Bytes) :
    (deleteFromRedis svc uploadId).CallsOnly S := by
  unfold deleteFromRedis
  split
  · exact callsOnly_bind (callsOnly_request (hdel _)) fun _ => callsOnly_pure _
  · exact callsOnly_pure _

theorem callsOnly_handleAbort (req : HttpRequest) (hdel : ∀ id, S (.redisDel (sessionKey id))) :
    (handleAbort svc req).CallsOnly S :=
  callsOnly_withSession hreads svc req _ fun _ _ =>
    callsOnly_bind (callsOnly_deleteFromRedis svc hdel _) fun _ => callsOnly_pure _

theorem callsOnly_handleComplete (req : HttpRequest)
    (hredis : ∀ hash value, S (.redisSet (hashKey hash) value 0))
    (hinsert : ∀ file, S (.fileInsert file)) (hlink : ∀ file contentId, S (.insertLink file contentId))
    (hdel : ∀ id, S (.redisDel (sessionKey id))) (hpush : ∀ id file, S (.pushComplete id file)) :
    (handleComplete svc req).CallsOnly S := by
  refine callsOnly_withSession hreads svc req _ fun uploadId session => ?_
  cases firstMissing session with
  | some i => exact callsOnly_reads hreads (reads_setError svc _ _)
  | none =>
      refine callsOnly_bind (callsOnly_ofJson _) fun chunkHashes => ?_
      refine callsOnly_bind (callsOnly_reads hreads (reads_getChunked _)) fun content => ?_
      refine callsOnly_bind (callsOnly_createFile hreads svc hredis (fun file _ _ => hinsert file)
        (fun file contentId _ _ => hlink file contentId) rfl rfl _ _) fun created => ?_
      obtain ⟨fileId, instant⟩ := created
      refine callsOnly_bind (callsOnly_deleteFromRedis svc hdel _) fun _ => ?_
      exact callsOnly_bind (callsOnly_request (hpush _ _)) fun _ =>
        callsOnly_reads hreads (reads_setJson svc _)

/-! ### Folders and users -/

theorem callsOnly_handleRegister (req : HttpRequest)
    (hregister : ∀ username password, S (.registerUser username password)) :
    (handleRegister svc req).CallsOnly S := by
  refine callsOnly_tryCatch ?_ fun e => callsOnly_reads hreads (reads_catchJson svc _ e)
  refine callsOnly_bind (callsOnly_request (hreads _ rfl)) fun body => ?_
  refine callsOnly_bind (callsOnly_reads hreads (reads_ofJson _)) fun credentials => ?_
  obtain ⟨username, password⟩ := credentials
  dsimp only
  split
  · exact callsOnly_reads hreads (reads_setError svc _ _)
  · refine callsOnly_bind (callsOnly_request (hregister _ _)) fun userId => ?_
    cases userId with
    | none => exact callsOnly_reads hreads (reads_setError svc _ _)
    | some id => exact callsOnly_reads hreads (reads_tokenAnswer svc _ _)

theorem callsOnly_createFolder {userId parentId : Bytes}
    (hinsert : ∀ folder, folder.ownerId = userId → folder.parentId = parentId →
      S (.folderInsert folder)) (name : Bytes) :
    (createFolder svc userId parentId name).CallsOnly S := by
  refine callsOnly_bind (callsOnly_request (hreads _ rfl)) fun taken => ?_
  split
  · exact callsOnly_reads hreads (reads_setError svc _ _)
  · exact callsOnly_bind (callsOnly_request (hinsert _ rfl rfl)) fun _ =>
      callsOnly_reads hreads (reads_setJson svc _)

theorem callsOnly_handleFolderCreate (req : HttpRequest)
    (hinsert : ∀ folder, folder.ownerId = req.authUserId → S (.folderInsert folder)) :
    (handleFolderCreate svc req).CallsOnly S := by
  refine callsOnly_authorized hreads svc (fun _ => ?_) (reads_catchJson svc _)
  refine callsOnly_bind (callsOnly_request (hreads _ rfl)) fun body => ?_
  refine callsOnly_bind (callsOnly_reads hreads (reads_ofJson _)) fun name => ?_
  split
  · exact callsOnly_reads hreads (reads_setError svc _ _)
  · refine callsOnly_bind (callsOnly_reads hreads (reads_ofJson _)) fun parentId => ?_
    split
    · exact callsOnly_createFolder hreads svc (fun folder hf _ => hinsert folder hf) _
    · refine callsOnly_bind (callsOnly_reads hreads (reads_ownedFolder _ _)) fun parent => ?_
      cases parent with
      | none => exact callsOnly_reads hreads (reads_setError svc _ _)
      | some _ => exact callsOnly_createFolder hreads svc (fun folder hf _ => hinsert folder hf) _

theorem callsOnly_handleFolderDelete (req : HttpRequest)
    (hdelete : ∀ id, S (.folderSoftDelete id)) : (handleFolderDelete svc req).CallsOnly S := by
  refine callsOnly_authorized hreads svc (fun _ => ?_) (reads_catchStd svc _)
  dsimp only
  split
  · exact callsOnly_reads hreads (reads_setError svc _ _)
  · refine callsOnly_bind (callsOnly_reads hreads (reads_ownedFolder _ _)) fun folder => ?_
    cases folder with
    | none => exact callsOnly_reads hreads (reads_setError svc _ _)
    | some _ =>
        refine callsOnly_bind (callsOnly_request (hreads _ rfl)) fun occupied => ?_
        split
        · exact callsOnly_reads hreads (reads_setError svc _ _)
        · exact callsOnly_bind (callsOnly_request (hdelete _)) fun _ => callsOnly_pure _

/-- What a renaming does once the folder is found to be the user's own. -/
theorem callsOnly_renameOwned (req : HttpRequest) (f : FolderRecord) (id : Bytes)
    (hrename : ∀ name, S (.folderRename id name)) : (do
      let body ← ask (.jsonParse req.body)
      let name ← ofJson (body.value (ascii "name") Json.getString [])
      if name = [] then svc.setError 400 (ascii "name is required")
      else
        let taken ← ask (.folderNameExists req.authUserId f.parentId name)
        if taken ∧ name ≠ f.name then svc.setError 409 (ascii "folder name already exists")
        else
          let _ ← ask (.folderRename id name)
          svc.setJson (object [("id", .str id), ("name", .str name)]) :
        App HttpResponse).CallsOnly S := by
  refine callsOnly_bind (callsOnly_request (hreads _ rfl)) fun body => ?_
  refine callsOnly_bind (callsOnly_reads hreads (reads_ofJson _)) fun name => ?_
  split
  · exact callsOnly_reads hreads (reads_setError svc _ _)
  · refine callsOnly_bind (callsOnly_request (hreads _ rfl)) fun taken => ?_
    split
    · exact callsOnly_reads hreads (reads_setError svc _ _)
    · exact callsOnly_bind (callsOnly_request (hrename _)) fun _ =>
        callsOnly_reads hreads (reads_setJson svc _)

theorem callsOnly_handleFolderRename (req : HttpRequest)
    (hrename : ∀ id name, S (.folderRename id name)) : (handleFolderRename svc req).CallsOnly S := by
  refine callsOnly_authorized hreads svc (fun _ => ?_) (reads_catchJson svc _)
  dsimp only
  split
  · exact callsOnly_reads hreads (reads_setError svc _ _)
  · refine callsOnly_bind (callsOnly_reads hreads (reads_ownedFolder _ _)) fun folder => ?_
    cases folder with
    | none => exact callsOnly_reads hreads (reads_setError svc _ _)
    | some f => exact callsOnly_renameOwned hreads svc req f _ (hrename _)

/-! ### Shares -/

theorem callsOnly_cacheShare (hcache : ∀ token text ttl, S (.redisSet (shareKey token) text ttl))
    (record : ShareRecord) (expiresInHours : Int) :
    (cacheShare svc record expiresInHours).CallsOnly S := by
  unfold cacheShare
  split
  · exact callsOnly_bind (callsOnly_reads hreads (reads_ofJson _)) fun _ =>
      callsOnly_bind (callsOnly_request (hcache _ _ _)) fun _ => callsOnly_pure _
  · exact callsOnly_pure _

theorem callsOnly_createShare {userId : Bytes} {body : ShareBody}
    (hinsert : ∀ record, record.ownerId = userId → record.fileId = body.fileId →
      S (.shareInsert record))
    (hcache : ∀ token text ttl, S (.redisSet (shareKey token) text ttl)) :
    (createShare svc userId body).CallsOnly S := by
  refine callsOnly_bind (callsOnly_reads hreads reads_generateToken) fun token => ?_
  refine callsOnly_bind (callsOnly_reads hreads (reads_shareExpiry svc _)) fun expiresAt => ?_
  refine callsOnly_bind (callsOnly_request (hinsert _ rfl rfl)) fun _ => ?_
  refine callsOnly_bind (callsOnly_cacheShare hreads svc hcache _ _) fun _ => ?_
  exact callsOnly_bind (callsOnly_reads hreads (reads_nullableText _)) fun _ =>
    callsOnly_reads hreads (reads_setJson svc _)

theorem callsOnly_handleShareCreate (req : HttpRequest) (hinsert : ∀ record, S (.shareInsert record))
    (hcache : ∀ token text ttl, S (.redisSet (shareKey token) text ttl)) :
    (handleShareCreate svc req).CallsOnly S := by
  refine callsOnly_authorized hreads svc (fun _ => ?_) (reads_catchJson svc _)
  refine callsOnly_bind (callsOnly_request (hreads _ rfl)) fun body => ?_
  refine callsOnly_bind (callsOnly_reads hreads (reads_ofJson _)) fun share => ?_
  refine callsOnly_bind (callsOnly_reads hreads (reads_requireOwnedFile svc _ _)) fun owned => ?_
  cases owned with
  | error resp => exact callsOnly_pure _
  | ok _ => exact callsOnly_createShare hreads svc (fun record _ _ => hinsert record) hcache

theorem callsOnly_handleShareRevoke (req : HttpRequest)
    (hrevoke : ∀ id, S (.revoke id req.authUserId)) (hcache : ∀ token, S (.redisDel (shareKey token))) :
    (handleShareRevoke svc req).CallsOnly S := by
  refine callsOnly_authorized hreads svc (fun _ => ?_) (reads_catchStd svc _)
  dsimp only
  split
  · exact callsOnly_reads hreads (reads_setError svc _ _)
  · refine callsOnly_bind (callsOnly_request (hreads _ rfl)) fun found => ?_
    cases found with
    | none => exact callsOnly_reads hreads (reads_setError svc _ _)
    | some share =>
        dsimp only
        split
        · exact callsOnly_reads hreads (reads_setError svc _ _)
        · refine callsOnly_bind (callsOnly_request (hrevoke _)) fun _ => ?_
          split
          · exact callsOnly_bind (callsOnly_request (hcache _)) fun _ => callsOnly_pure _
          · exact callsOnly_pure _

theorem callsOnly_saveShare {userId : Bytes}
    (hlink : ∀ file contentId, file.ownerId = userId → file.folderId = [] →
      S (.insertLink file contentId)) (share : ShareRecord) : (saveShare svc userId share).CallsOnly S := by
  refine callsOnly_bind (callsOnly_request (hreads _ rfl)) fun file => ?_
  cases file with
  | none => exact callsOnly_reads hreads (reads_setError svc _ _)
  | some f =>
      refine callsOnly_bind (callsOnly_reads hreads (reads_makeUniqueName _ _ _)) fun name => ?_
      exact callsOnly_bind (callsOnly_request (hlink _ _ rfl rfl)) fun _ =>
        callsOnly_reads hreads (reads_setJson svc _)

theorem callsOnly_handleShareSave (req : HttpRequest)
    (hlink : ∀ file contentId, file.ownerId = req.authUserId → file.folderId = [] →
      S (.insertLink file contentId)) :
    (handleShareSave svc req).CallsOnly S := by
  refine callsOnly_authorized hreads svc (fun _ => ?_) (reads_catchJson svc _)
  refine callsOnly_bind (callsOnly_request (hreads _ rfl)) fun body => ?_
  refine callsOnly_bind (callsOnly_reads hreads (reads_ofJson _)) fun tokenPassword => ?_
  obtain ⟨token, password⟩ := tokenPassword
  refine callsOnly_bind (callsOnly_reads hreads (reads_resolveShare svc _ _)) fun resolved => ?_
  cases resolved with
  | error resp => exact callsOnly_pure _
  | ok share => exact callsOnly_saveShare hreads svc hlink share

omit hreads in
/-- Counting is the increment, and then the cached record. -/
theorem countDownload_rest {S : Call → Prop} {token : Bytes}
    (hget : S (.redisGet (shareKey token))) (hparse : ∀ text, S (.jsonParse text))
    (hset : ∀ text, S (.redisSet (shareKey token) text 0)) (share : ShareRecord) :
    ∃ rest : App Unit,
      (countDownload svc token share = do ask (.incrementDownloadCount share.id); rest) ∧
        rest.CallsOnly S := by
  refine ⟨_, rfl, ?_⟩
  split
  · refine callsOnly_bind (callsOnly_request hget) fun cached => ?_
    cases cached with
    | none => exact callsOnly_pure _
    | some text =>
        refine callsOnly_tryCatch ?_ fun _ => callsOnly_pure _
        refine callsOnly_bind (callsOnly_request (hparse _)) fun _ => ?_
        refine callsOnly_bind (callsOnly_ofJson _) fun _ => ?_
        refine callsOnly_bind (callsOnly_ofJson _) fun _ => ?_
        exact callsOnly_bind (callsOnly_request (hset _)) fun _ => callsOnly_pure _
  · exact callsOnly_pure _

omit hreads in
theorem countDownload_split (token : Bytes) (share : ShareRecord) : ∃ rest : App Unit,
    (countDownload svc token share = do ask (.incrementDownloadCount share.id); rest) ∧
      rest.CallsOnly fun c => readOnly c = true ∨ ∃ text, c = .redisSet (shareKey token) text 0 :=
  countDownload_rest svc (Or.inl rfl) (fun _ => Or.inl rfl) (fun text => Or.inr ⟨text, rfl⟩) share

theorem callsOnly_countDownload (hcount : ∀ id, S (.incrementDownloadCount id))
    (hcache : ∀ token text ttl, S (.redisSet (shareKey token) text ttl)) (token : Bytes)
    (share : ShareRecord) : (countDownload svc token share).CallsOnly S := by
  obtain ⟨rest, hsplit, hrest⟩ := countDownload_split svc token share
  rw [hsplit]
  refine callsOnly_bind (callsOnly_request (hcount _)) fun _ => ?_
  refine CallsOnly.mono hrest fun c hc => ?_
  rcases hc with hc | ⟨text, rfl⟩
  · exact hreads c hc
  · exact hcache token text 0

theorem callsOnly_resolveShare (hcount : ∀ id, S (.incrementDownloadCount id))
    (hcache : ∀ token text ttl, S (.redisSet (shareKey token) text ttl)) (token password : Bytes)
    (count : Bool) : (resolveShare svc token password count).CallsOnly S := by
  unfold resolveShare
  split
  · exact callsOnly_reads hreads (reads_refuse svc _ _)
  · refine callsOnly_bind (callsOnly_request (hreads _ rfl)) fun found => ?_
    cases found with
    | none => exact callsOnly_reads hreads (reads_refuse svc _ _)
    | some share =>
        dsimp only
        split
        · exact callsOnly_reads hreads (reads_refuse svc _ _)
        · refine callsOnly_bind (callsOnly_reads hreads (reads_shareExpired share)) fun expired => ?_
          split
          · exact callsOnly_reads hreads (reads_refuse svc _ _)
          · refine callsOnly_bind (callsOnly_reads hreads (reads_checkPassword svc share password))
              fun checked => ?_
            cases checked with
            | error resp => exact callsOnly_pure _
            | ok _ =>
                dsimp only
                split
                · exact callsOnly_reads hreads (reads_refuse svc _ _)
                · split
                  · exact callsOnly_bind (callsOnly_countDownload hreads svc hcount hcache _ _)
                      fun _ => callsOnly_pure _
                  · exact callsOnly_pure _

theorem callsOnly_handleShareDownload (req : HttpRequest)
    (hcount : ∀ id, S (.incrementDownloadCount id))
    (hcache : ∀ token text ttl, S (.redisSet (shareKey token) text ttl)) :
    (handleShareDownload svc req).CallsOnly S := by
  refine callsOnly_tryCatch ?_ fun e => callsOnly_reads hreads (reads_catchStd svc _ e)
  dsimp only
  split
  · exact callsOnly_reads hreads (reads_setError svc _ _)
  · split
    · exact callsOnly_pure _
    · refine callsOnly_bind (callsOnly_resolveShare hreads svc hcount hcache _ _ _)
        fun resolved => ?_
      cases resolved with
      | error resp => exact callsOnly_pure _
      | ok share => exact callsOnly_reads hreads (reads_deliverShare svc _ share)

/-! ### The collector -/

omit svc in
theorem callsOnly_collectOrphans (hpurge : ∀ content, S (.purgeContent content)) (limit : Nat) :
    (collectOrphans limit).CallsOnly S := by
  have hall : ∀ orphans, (purgeAll orphans).CallsOnly S := by
    intro orphans
    induction orphans with
    | nil => exact callsOnly_pure _
    | cons orphan orphans ih =>
        exact callsOnly_bind (callsOnly_request (hpurge _)) fun _ =>
          callsOnly_bind ih fun _ => callsOnly_pure _
  exact callsOnly_bind (callsOnly_request (hreads _ rfl)) fun orphans => hall orphans

omit svc in
theorem callsOnly_tryCollectContent (hpurge : ∀ content, S (.purgeContent content))
    (contentId : Bytes) : (tryCollectContent contentId).CallsOnly S := by
  unfold tryCollectContent
  split
  · exact callsOnly_pure _
  · refine callsOnly_bind (callsOnly_request (hreads _ rfl)) fun content => ?_
    cases content with
    | none => exact callsOnly_pure _
    | some c => exact callsOnly_request (hpurge c)

theorem callsOnly_handleFileDelete (req : HttpRequest) (hdelete : ∀ id, S (.fileSoftDelete id))
    (hrevoke : ∀ id, S (.revokeByFileId id)) (hpurge : ∀ content, S (.purgeContent content)) :
    (handleFileDelete svc req).CallsOnly S := by
  refine callsOnly_authorized hreads svc (fun _ => ?_) (reads_catchStd svc _)
  dsimp only
  split
  · exact callsOnly_reads hreads (reads_setError svc _ _)
  · refine callsOnly_bind (callsOnly_reads hreads (reads_requireOwnedFile svc _ _)) fun owned => ?_
    cases owned with
    | error resp => exact callsOnly_pure _
    | ok file =>
        exact callsOnly_bind (callsOnly_request (hdelete _)) fun _ =>
          callsOnly_bind (callsOnly_request (hrevoke _)) fun _ =>
            callsOnly_bind (callsOnly_tryCollectContent hreads hpurge _) fun _ => callsOnly_pure _

end Effects

end SolarDrive.Api
