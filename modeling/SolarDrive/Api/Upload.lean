import SolarDrive.Http.Request
import SolarDrive.Api.Services

/-!
# Single uploads

`handle_single_upload`: link to content that is already there, or store the
body chunk by chunk and insert a new file.
-/

namespace SolarDrive.Api

open Lib Http

/-! ## File names -/

def hexValue (c : UInt8) : Option Nat :=
  if isDigit c then some (c.toNat - 48)
  else if 97 ≤ c ∧ c ≤ 102 then some (c.toNat - 87)
  else if 65 ≤ c ∧ c ≤ 70 then some (c.toNat - 55)
  else none

def plusToBlank (c : UInt8) : UInt8 := if c = PLUS then SP else c

/-- The byte `%hl` stands for. -/
def hexPair (h l : UInt8) : Option UInt8 :=
  match hexValue h, hexValue l with
  | some hi, some lo => some (UInt8.ofNat (hi * 16 + lo))
  | _, _ => none

def urlDecode : Bytes → Bytes
  | [] => []
  | [c] => [plusToBlank c]
  | [c, d] => [plusToBlank c, plusToBlank d]
  | c :: h :: l :: rest =>
      if c = 37 ∧ (hexPair h l).isSome then (hexPair h l).getD 0 :: urlDecode rest
      else plusToBlank c :: urlDecode (h :: l :: rest)

def resolveFilename (req : HttpRequest) : Bytes :=
  let filename := urlDecode (req.getHeader (ascii "X-File-Name"))
  if filename = [] then ascii "unnamed" else filename

def resolveMimeType (req : HttpRequest) : Bytes :=
  let mime := req.getHeader (ascii "Content-Type")
  if mime = [] then ascii "application/octet-stream" else mime

/-- Stem and extension at the last dot, unless that is the first character. -/
def splitName (name : Bytes) : Bytes × Bytes :=
  let ext := (name.reverse.takeWhile (· != DOT)).reverse
  let stem := name.take (name.length - (ext.length + 1))
  if name.contains DOT ∧ stem ≠ [] then (stem, DOT :: ext) else (name, [])

def numbered (stem ext : Bytes) (n : Int) : Bytes :=
  stem ++ ascii "(" ++ decimalInt n ++ ascii ")" ++ ext

/-- `stem(n)ext` for the first free `n`, trying `count` of them. -/
def firstFreeName (stem ext ownerId folderId : Bytes) : (count n : Nat) → App (Option Bytes)
  | 0, _ => return none
  | count + 1, n => do
      let candidate := numbered stem ext n
      let taken ← ask (.nameExistsInFolder ownerId folderId candidate)
      if taken then firstFreeName stem ext ownerId folderId count (n + 1)
      else return some candidate

def makeUniqueName (name ownerId folderId : Bytes) : App Bytes := do
  let taken ← ask (.nameExistsInFolder ownerId folderId name)
  if taken then
    let (stem, ext) := splitName name
    let free ← firstFreeName stem ext ownerId folderId 9999 1
    match free with
    | some candidate => return candidate
    | none =>
        let ns ← ask .now
        return numbered stem ext (toTimeT ns)
  else return name

/-! ## The object store in chunks -/

/-- The pieces of `data`, `n` bytes each; the first argument is fuel. -/
def pieces (n : Nat) : Nat → Bytes → List Bytes
  | 0, _ => []
  | fuel + 1, data => if data = [] then [] else data.take n :: pieces n fuel (data.drop n)

/-- What `put_chunked` cuts the data into: one empty chunk for empty data. -/
def chunksOf (n : Nat) (data : Bytes) : List Bytes :=
  if data = [] then [[]] else pieces n data.length data

theorem pieces_flatten {n : Nat} (hn : 0 < n) : ∀ (fuel : Nat) (data : Bytes), data.length ≤ fuel →
    (pieces n fuel data).flatten = data
  | 0, data, h => by
      rw [List.eq_nil_of_length_eq_zero (Nat.le_zero.mp h)]
      rfl
  | fuel + 1, data, h => by
      rw [pieces]
      split
      · rename_i hnil
        rw [hnil]
        rfl
      · rename_i hne
        have hpos : 0 < data.length := List.length_pos_iff.mpr hne
        have hrest : (data.drop n).length ≤ fuel := by
          rw [List.length_drop]
          omega
        rw [List.flatten_cons, pieces_flatten hn fuel _ hrest, List.take_append_drop]

/-- The chunks are the data, cut up. -/
theorem chunksOf_flatten {n : Nat} (hn : 0 < n) (data : Bytes) : (chunksOf n data).flatten = data := by
  unfold chunksOf
  split
  · rename_i hnil
    rw [hnil]
    rfl
  · exact pieces_flatten hn _ _ (Nat.le_refl _)

/-- Fuel beyond the length of the data changes nothing. -/
theorem pieces_fuel {n : Nat} (hn : 0 < n) {fuel : Nat} {data : Bytes} (h : data.length ≤ fuel) :
    pieces n fuel data = pieces n data.length data := by
  induction fuel using Nat.strong_induction_on generalizing data with
  | _ fuel ih =>
      cases data with
      | nil => cases fuel <;> rfl
      | cons c cs =>
          rw [List.length_cons] at h
          cases fuel with
          | zero => exact absurd h (Nat.not_succ_le_zero _)
          | succ fuel =>
              have hrest : ((c :: cs).drop n).length ≤ cs.length := by
                rw [List.length_drop, List.length_cons]
                omega
              have hle : cs.length ≤ fuel := Nat.le_of_succ_le_succ h
              rw [List.length_cons, pieces, pieces, ih fuel (Nat.lt_succ_self _) (hrest.trans hle),
                ih cs.length (Nat.lt_succ_of_le hle) hrest]

/-- The first piece, and the pieces of what is left. -/
theorem pieces_of_ne_nil {n : Nat} (hn : 0 < n) {data : Bytes} (hne : data ≠ []) :
    pieces n data.length data = data.take n :: pieces n (data.drop n).length (data.drop n) := by
  cases data with
  | nil => exact absurd rfl hne
  | cons c cs =>
      have hrest : ((c :: cs).drop n).length ≤ cs.length := by
        rw [List.length_drop, List.length_cons]
        omega
      rw [List.length_cons, pieces, if_neg hne, pieces_fuel hn hrest]

/-- As many pieces as the length has room for, the last one perhaps short. -/
theorem length_pieces {n : Nat} (hn : 0 < n) (data : Bytes) :
    (pieces n data.length data).length = (data.length + n - 1) / n := by
  induction hd : data.length using Nat.strong_induction_on generalizing data with
  | _ len ih =>
      subst hd
      by_cases hne : data = []
      · rw [hne, List.length_nil, Nat.div_eq_of_lt (by omega)]
        rfl
      · have hpos : 0 < data.length := List.length_pos_iff.mpr hne
        have hdrop : (data.drop n).length = data.length - n := List.length_drop
        rw [pieces_of_ne_nil hn hne, List.length_cons, ih _ (by omega) _ rfl, hdrop]
        rcases Nat.le_total data.length n with hle | hle
        · have hsum : data.length + n - 1 = data.length - 1 + n := by omega
          rw [hsum, Nat.add_div_right _ hn, Nat.div_eq_of_lt (by omega : data.length - 1 < n),
            Nat.div_eq_of_lt (by omega)]
        · have hsum : data.length + n - 1 = data.length - n + n - 1 + n := by omega
          rw [hsum, Nat.add_div_right _ hn]

/-- A piece is never longer than asked. -/
theorem length_le_of_mem_pieces {n : Nat} : ∀ {fuel : Nat} {data piece : Bytes},
    piece ∈ pieces n fuel data → piece.length ≤ n
  | 0, _, _, h => absurd h List.not_mem_nil
  | fuel + 1, data, piece, h => by
      rw [pieces] at h
      split at h
      · exact absurd h List.not_mem_nil
      · rcases List.mem_cons.mp h with rfl | h
        · exact List.length_take_le n data
        · exact length_le_of_mem_pieces h

theorem length_chunksOf {n : Nat} (hn : 0 < n) (data : Bytes) :
    (chunksOf n data).length = max 1 ((data.length + n - 1) / n) := by
  unfold chunksOf
  split
  · rename_i hnil
    rw [hnil, List.length_nil, Nat.div_eq_of_lt (by omega)]
    rfl
  · rename_i hne
    have hpos : 0 < data.length := List.length_pos_iff.mpr hne
    rw [length_pieces hn, Nat.max_eq_right]
    exact Nat.div_pos (by omega) hn

theorem length_le_of_mem_chunksOf {n : Nat} {data chunk : Bytes} (h : chunk ∈ chunksOf n data) :
    chunk.length ≤ n := by
  unfold chunksOf at h
  split at h
  · rw [List.mem_singleton.mp h]
    exact Nat.zero_le n
  · exact length_le_of_mem_pieces h

def putAll : List Bytes → App (List Bytes)
  | [] => return []
  | chunk :: chunks => do
      let hash ← ask (.put chunk)
      let hashes ← putAll chunks
      return hash :: hashes

def putChunked (svc : Services) (data : Bytes) : App (List Bytes) :=
  putAll (chunksOf svc.storeChunkSize data)

def getChunked : List Bytes → App Bytes
  | [] => return []
  | hash :: hashes => do
      let chunk ← ask (.get hash)
      let rest ← getChunked hashes
      return chunk ++ rest

/-- The JSON array of chunk hashes. -/
def hashArray (hashes : List Bytes) : Json := .arr (hashes.map .str)

/-! ## Upload -/

def hashKey (hash : Bytes) : Bytes := ascii "file:hash:" ++ hash

def linkExistingContent (content : FileRecord) (filename mimeType userId folderId : Bytes) :
    App Bytes := do
  let name ← makeUniqueName filename userId folderId
  ask (.insertLink
    { name, size := content.size, hash := content.hash, chunkHashes := content.chunkHashes
      mimeType := if mimeType = [] then content.mimeType else mimeType
      ownerId := userId, folderId } content.contentId)

/-- The answer of an upload that linked to known content. -/
def instantAnswer (svc : Services) (fileId hash : Bytes) (size : Int) : App HttpResponse :=
  svc.setJson (object [("file_id", .str fileId), ("hash", .str hash), ("instant", .bool true),
    ("size", .int size)])

/-- `redis->set("file:hash:" + hash, content_id)`, with a client. -/
def rememberHash (svc : Services) (hash contentId : Bytes) : App Unit := do
  if svc.hasRedis then
    let _ ← ask (.redisSet (hashKey hash) contentId 0)
    return ()
  else return ()

/-- The same for content just inserted, found again by its hash. -/
def indexContent (svc : Services) (hash : Bytes) : App Unit := do
  if svc.hasRedis then
    let content ← ask (.findContentByHash hash)
    match content with
    | some c => rememberHash svc hash c.contentId
    | none => return ()
  else return ()

/-- Store the body and insert a file with new content. -/
def uploadNew (svc : Services) (body filename mimeType userId folderId fileHash : Bytes) :
    App HttpResponse := do
  let chunks ← putChunked svc body
  let chunkHashes ← ofJson (svc.json.dump (hashArray chunks))
  let fileId ← ask (.fileInsert
    { name := filename, size := body.length, hash := fileHash, chunkHashes, mimeType
      ownerId := userId, folderId })
  indexContent svc fileHash
  svc.setJson (object [("chunks", .int chunks.length), ("file_id", .str fileId),
    ("hash", .str fileHash), ("instant", .bool false), ("size", .int body.length)])

/-- Ask the database for content with this hash, then store or link. -/
def uploadLookup (svc : Services) (body filename mimeType userId folderId fileHash : Bytes) :
    App HttpResponse := do
  let content ← ask (.findContentByHash fileHash)
  match content with
  | some c =>
      rememberHash svc fileHash c.contentId
      let fileId ← linkExistingContent c filename mimeType userId folderId
      instantAnswer svc fileId fileHash c.size
  | none => uploadNew svc body filename mimeType userId folderId fileHash

/-- The Redis shortcut, then the database. -/
def uploadContent (svc : Services) (body filename mimeType userId folderId : Bytes) :
    App HttpResponse := do
  let fileHash := svc.sha256 body
  if svc.hasRedis then
    let cached ← ask (.redisGet (hashKey fileHash))
    match cached with
    | some _ =>
        let content ← ask (.findContentByHash fileHash)
        match content with
        | some c =>
            let fileId ← linkExistingContent c filename mimeType userId folderId
            instantAnswer svc fileId fileHash c.size
        | none => uploadLookup svc body filename mimeType userId folderId fileHash
    | none => uploadLookup svc body filename mimeType userId folderId fileHash
  else uploadLookup svc body filename mimeType userId folderId fileHash

def handleSingleUpload (svc : Services) (req : HttpRequest) (userId : Bytes) :
    App HttpResponse := do
  if req.body = [] then svc.setError 400 (ascii "Empty body")
  else if svc.oversized req.body.length then svc.setError 413 (ascii "file too large")
  else
    let folder ← resolveFolderId svc (req.getHeader (ascii "X-Folder-Id")) userId
    match folder with
    | .error resp => return resp
    | .ok folderId =>
        uploadContent svc req.body (resolveFilename req) (resolveMimeType req) userId folderId

/-- The upload route: `require_auth_user` and the only `try` of this path. -/
def uploadRoute (svc : Services) (req : HttpRequest) : App HttpResponse :=
  Prog.tryCatch
    (if req.hasAuthUser then handleSingleUpload svc req req.authUserId
      else svc.setError 401 (ascii "Unauthorized"))
    (svc.catchStd (ascii "upload failed: "))

end SolarDrive.Api
