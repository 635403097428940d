import SolarDrive.Lib.JsonText
import SolarDrive.Api.Upload

/-!
# The database

Rows of the schema, the text conversions of PostgreSQL that the queries go
through, and the constraints. A statement reads or rewrites the tables of a
`World`, which also holds the object store, Redis, the clock and the sources of
random numbers and ids: everything a request can observe or change.

Only the columns some query reads are kept.
-/

namespace SolarDrive.Metadata

open Lib Api

/-- The form in which ids are written: lower-case hexadecimal, in groups of
8, 4, 4, 4 and 12. -/
def isUuidText (t : Bytes) : Bool :=
  t.length == 36 && t.zipIdx.all fun p =>
    if p.2 ∈ [8, 13, 18, 23] then p.1 == DASH else isDigit p.1 || (97 ≤ p.1 && p.1 ≤ 102)

/-- An id, named by the text `id::text` gives for it. -/
structure Uuid where
  text : Bytes
  isText : isUuidText text = true
deriving DecidableEq

def Uuid.nil : Uuid where
  text := ascii "00000000-0000-0000-0000-000000000000"
  isText := by decide +kernel

instance : Inhabited Uuid := ⟨Uuid.nil⟩

/-- What a statement can fail with. -/
inductive PgError where
  | invalidByteSequence
  | invalidUuid (text : Bytes)
  | invalidJson (text : Bytes)
  | invalidTimestamp (text : Bytes)
  | valueTooLong
  | outOfRange
  | uniqueViolation (index : String)
  | foreignKeyViolation (column : String)

/-- Input and output of the column types, the collation, and the text of an
exception. Instants are microseconds since 1970. -/
structure Postgres where
  uuidIn : Bytes → Option Uuid
  jsonbIn : Bytes → Option Json
  jsonbOut : Json → Bytes
  timestampIn : Bytes → Option Int
  timestampOut : Int → Bytes
  /-- `to_char(t, 'YYYY-MM-DD"T"HH24:MI:SS"Z"')`. -/
  toChar : Int → Bytes
  nameLe : Bytes → Bytes → Bool
  message : PgError → Bytes

/-- What is relied on: an id is read back from its text, and an array of
strings without NUL that the JSON library wrote is read as that array and
written back as a text for it. -/
structure Postgres.Lawful (pg : Postgres) (json : JsonLib) : Prop where
  uuidIn_text : ∀ u : Uuid, pg.uuidIn u.text = some u
  jsonbIn_dump : ∀ (hs : List Bytes) (t : Bytes), (∀ h ∈ hs, NUL ∉ h) →
    json.dump (hashArray hs) = .ok t → pg.jsonbIn t = some (hashArray hs)
  parse_jsonbOut : ∀ hs : List Bytes, (∀ h ∈ hs, validUtf8 h = true) →
    json.parse (pg.jsonbOut (hashArray hs)) = .ok (hashArray hs)

/-- A small server of it, in UTC. -/
def samplePostgres : Postgres where
  uuidIn t := if h : isUuidText t = true then some ⟨t, h⟩ else none
  jsonbIn t := (JsonText.lib.parse t).toOption
  jsonbOut j := (JsonText.lib.dump j).toOption.getD []
  timestampIn t := (getTime SP t).map fun c => timegm c * 1000000
  timestampOut t := (putTime (gmtime (t / 1000000))).map (fun c => if c = 84 then SP else c) ++
    ascii "+00"
  toChar t := putTime (gmtime (t / 1000000)) ++ ascii "Z"
  nameLe a b := a ≤ b
  message _ := ascii "ERROR"

theorem samplePostgres_lawful : samplePostgres.Lawful JsonText.lib where
  uuidIn_text u := dif_pos u.isText
  jsonbIn_dump hs t _ hd := by
    have hflat : (hashArray hs).isFlat = true := by
      simp [hashArray, Json.isFlat, Json.isScalar]
    show (JsonText.lib.parse t).toOption = _
    rw [(JsonText.lib_lawful.parse_dump hflat hd).2]
    rfl
  parse_jsonbOut hs hu := by
    have hflat : (hashArray hs).isFlat = true := by
      simp [hashArray, Json.isFlat, Json.isScalar]
    have htexts : ∀ s ∈ (hashArray hs).texts, validUtf8 s = true := by
      simpa [hashArray, Json.texts, Json.scalarText] using hu
    obtain ⟨t, hd, -, hp⟩ := JsonText.lib_lawful.dump_flat (hashArray hs) hflat htexts
    show JsonText.lib.parse ((JsonText.lib.dump (hashArray hs)).toOption.getD []) = _
    rw [hd]
    exact hp

/-! ## Rows -/

structure FileRow where
  id : Uuid
  name : Bytes
  ownerId : Uuid
  folderId : Option Uuid
  contentId : Uuid
  createdAt : Int
  deletedAt : Option Int
deriving DecidableEq

structure ContentRow where
  id : Uuid
  hash : Bytes
  size : Int
  chunkHashes : Json
  mimeType : Bytes

structure FolderRow where
  id : Uuid
  name : Bytes
  parentId : Option Uuid
  ownerId : Uuid
  createdAt : Int
  deletedAt : Option Int
deriving DecidableEq

structure ShareRow where
  id : Uuid
  fileId : Uuid
  ownerId : Uuid
  shareToken : Bytes
  passwordHash : Option Bytes
  expiresAt : Option Int
  maxDownloads : Int
  downloadCount : Int
  createdAt : Int
  isRevoked : Bool
deriving DecidableEq

structure UserRow where
  id : Uuid
  username : Bytes
  passwordHash : Bytes
deriving DecidableEq

def FileRow.live (f : FileRow) : Bool := f.deletedAt.isNone

def FolderRow.live (f : FolderRow) : Bool := f.deletedAt.isNone

inductive RedisValue where
  | str (value : Bytes)
  | hash (fields : Bytes → Option Bytes)

structure World where
  /-- Object files by name. -/
  store : Bytes → Option Bytes
  files : List FileRow
  contents : List ContentRow
  folders : List FolderRow
  shares : List ShareRow
  users : List UserRow
  redis : Bytes → Option RedisValue
  /-- The clock, in nanoseconds since 1970. -/
  time : Int
  /-- Random numbers still to come. -/
  draws : Nat → Nat
  /-- Values of `gen_random_uuid()` still to come. -/
  uuids : Nat → Uuid

namespace World

/-- `NOW()`. -/
def sqlNow (w : World) : Int := w.time / 1000

def findContent (w : World) (id : Uuid) : Option ContentRow := w.contents.find? (·.id = id)

def fileLives (w : World) (contentId : Uuid) : Bool :=
  w.files.any fun f => f.contentId = contentId && f.live

end World

/-! ## Parameters -/

namespace Postgres

variable (pg : Postgres)

def raise {α : Type} (e : PgError) : Except Exn α := .error { kind := .pqxx, what := pg.message e }

/-- A text parameter is a C string in the encoding of the database. -/
def textParam (text : Bytes) : Except Exn Bytes :=
  if validUtf8 (cstr text) then .ok (cstr text) else pg.raise .invalidByteSequence

def uuidParam (text : Bytes) : Except Exn Uuid := do
  let text ← pg.textParam text
  match pg.uuidIn text with
  | some u => return u
  | none => pg.raise (.invalidUuid text)

/-- A nullable id column: the statement without it is used for the empty text. -/
def optionalUuid (text : Bytes) : Except Exn (Option Uuid) :=
  if text = [] then .ok none else (pg.uuidParam text).map some

def jsonbParam (text : Bytes) : Except Exn Json := do
  let text ← pg.textParam text
  match pg.jsonbIn text with
  | some j => return j
  | none => pg.raise (.invalidJson text)

/-- `RETURNING` and constraint checks: go on when `ok` holds. -/
def require (ok : Bool) (e : PgError) : Except Exn Unit := if ok then .ok () else pg.raise e

end Postgres

/-- A nullable id column of a result; null gives no text. -/
def optionalText (id : Option Uuid) : Bytes := (id.map Uuid.text).getD []

end SolarDrive.Metadata
