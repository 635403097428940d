import SolarDrive.Lib.Json
import SolarDrive.Lib.Prog

/-!
# What handlers call

The records handlers exchange with the DAOs, and the calls themselves: one per
store operation, Redis command, DAO method (each runs one transaction), JSON
parse, clock reading and random draw. A handler is a program over these calls
(`App`), which is what makes it possible to run it against the database model,
against an environment that fails at will, and among other handlers.
-/

namespace SolarDrive.Api

open Lib

/-- Which `catch` clause takes an exception. -/
inductive ExnKind where
  | json
  | pqxx
  | std
deriving DecidableEq, Repr

/-- An exception and its `what()`. -/
structure Exn where
  kind : ExnKind
  what : Bytes
deriving DecidableEq, Repr

structure FileRecord where
  id : Bytes := []
  name : Bytes := []
  size : Int := 0
  hash : Bytes := []
  chunkHashes : Bytes := []
  mimeType : Bytes := []
  createdAt : Bytes := []
  ownerId : Bytes := []
  folderId : Bytes := []
  contentId : Bytes := []
deriving DecidableEq, Repr

structure ContentRecord where
  id : Bytes := []
  hash : Bytes := []
  size : Int := 0
  chunkHashes : Bytes := []
  mimeType : Bytes := []
deriving DecidableEq, Repr

structure FolderRecord where
  id : Bytes := []
  name : Bytes := []
  parentId : Bytes := []
  ownerId : Bytes := []
  createdAt : Bytes := []
deriving DecidableEq, Repr

structure ShareRecord where
  id : Bytes := []
  fileId : Bytes := []
  ownerId : Bytes := []
  shareToken : Bytes := []
  passwordHash : Bytes := []
  expiresAt : Bytes := []
  maxDownloads : Int := 0
  downloadCount : Int := 0
  createdAt : Bytes := []
  isRevoked : Bool := false
deriving DecidableEq, Repr

structure UserRecord where
  id : Bytes := []
  username : Bytes := []
deriving DecidableEq, Repr

structure GcStats where
  contentRowsDeleted : Nat := 0
  chunkFilesRemoved : Nat := 0
deriving DecidableEq, Repr

inductive Call where
  -- object store
  | put (data : Bytes)
  | get (hash : Bytes)
  -- nlohmann
  | jsonParse (text : Bytes)
  -- Redis
  | redisGet (key : Bytes)
  | redisSet (key value : Bytes) (ttlSeconds : Int)
  | redisDel (key : Bytes)
  | hget (key field : Bytes)
  | hset (key field value : Bytes)
  | expire (key : Bytes) (ttlSeconds : Int)
  -- users
  | registerUser (username password : Bytes)
  | login (username password : Bytes)
  -- folders
  | folderInsert (folder : FolderRecord)
  | folderFindById (id : Bytes)
  | listByParent (ownerId parentId : Bytes)
  | folderNameExists (ownerId parentId name : Bytes)
  | folderSoftDelete (id : Bytes)
  | hasChildren (id : Bytes)
  | folderRename (id name : Bytes)
  -- files
  | fileInsert (file : FileRecord)
  | insertLink (file : FileRecord) (contentId : Bytes)
  | fileFindById (id : Bytes)
  | findOwnedById (ownerId id : Bytes)
  | findContentByHash (hash : Bytes)
  | fileSoftDelete (id : Bytes)
  | listByFolder (ownerId folderId : Bytes)
  | nameExistsInFolder (ownerId folderId name : Bytes)
  -- shares
  | shareInsert (record : ShareRecord)
  | findByToken (token : Bytes)
  | listByOwner (ownerId : Bytes)
  | incrementDownloadCount (id : Bytes)
  | revoke (id ownerId : Bytes)
  | revokeByFileId (fileId : Bytes)
  | tokenExists (token : Bytes)
  -- content objects
  | contentFindById (id : Bytes)
  | listOrphans (limit : Nat)
  | purgeContent (content : ContentRecord)
  -- WebSocket pushes
  | pushProgress (uploadId : Bytes) (percent bytesUploaded totalSize : Int)
  | pushComplete (uploadId fileId : Bytes)
  -- clock (nanoseconds since 1970) and random numbers
  | now
  | draw
deriving DecidableEq, Repr

/-- What a call returns. -/
@[reducible] def Call.Resp : Call → Type
  | .put _ => Bytes
  | .get _ => Bytes
  | .jsonParse _ => Json
  | .redisGet _ => Option Bytes
  | .redisSet _ _ _ => Bool
  | .redisDel _ => Bool
  | .hget _ _ => Option Bytes
  | .hset _ _ _ => Bool
  | .expire _ _ => Bool
  | .registerUser _ _ => Option Bytes
  | .login _ _ => Option UserRecord
  | .folderInsert _ => Bytes
  | .folderFindById _ => Option FolderRecord
  | .listByParent _ _ => List FolderRecord
  | .folderNameExists _ _ _ => Bool
  | .folderSoftDelete _ => Unit
  | .hasChildren _ => Bool
  | .folderRename _ _ => Bool
  | .fileInsert _ => Bytes
  | .insertLink _ _ => Bytes
  | .fileFindById _ => Option FileRecord
  | .findOwnedById _ _ => Option FileRecord
  | .findContentByHash _ => Option FileRecord
  | .fileSoftDelete _ => Unit
  | .listByFolder _ _ => List FileRecord
  | .nameExistsInFolder _ _ _ => Bool
  | .shareInsert _ => Bytes
  | .findByToken _ => Option ShareRecord
  | .listByOwner _ => List ShareRecord
  | .incrementDownloadCount _ => Unit
  | .revoke _ _ => Unit
  | .revokeByFileId _ => Unit
  | .tokenExists _ => Bool
  | .contentFindById _ => Option ContentRecord
  | .listOrphans _ => List ContentRecord
  | .purgeContent _ => GcStats
  | .pushProgress _ _ _ _ => Unit
  | .pushComplete _ _ => Unit
  | .now => Int
  | .draw => Nat

/-- A handler or a part of one. -/
abbrev App (α : Type) : Type := Prog Call Call.Resp Exn α

def ask (c : Call) : App c.Resp := Prog.request c

def throwStd {α : Type} (what : Bytes) : App α := .raise { kind := .std, what }

/-- A pure step of the JSON library that may throw. -/
def ofJson {α : Type} : Except Bytes α → App α
  | .ok a => .ret a
  | .error w => .raise { kind := .json, what := w }

end SolarDrive.Api
