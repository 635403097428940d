import SolarDrive.Runs.Acknowledged

/-!
# A session through Redis and back

`save_to_redis` formats each value with `%s`, which takes a C string, and
`load_from_redis` takes the reply with its length. Of the nine fields the
numbers and the arrays always come back; the four texts come back up to their
first NUL.
-/

namespace SolarDrive.Runs

open Lib Http Api Metadata Prog

/-- The sessions the handlers make: numbers of their widths, vectors as long as
the count, hashes that are texts. File name and type are any bytes. -/
structure Producible (session : MultipartSession) : Prop where
  uploadId : session.uploadId ≠ []
  totalSize : -(2 ^ 63) ≤ session.totalSize ∧ session.totalSize < 2 ^ 63
  chunkSize : -(2 ^ 63) ≤ session.chunkSize ∧ session.chunkSize < 2 ^ 63
  chunkCount : session.chunkCount < 2 ^ 31
  uploaded : session.uploaded.length = session.chunkCount
  partHashes : session.partHashes.length = session.chunkCount
  readable : ∀ hash ∈ session.partHashes, validUtf8 hash = true

/-- No text of the session ends early as a C string. -/
structure NulFree (session : MultipartSession) : Prop where
  fileName : NUL ∉ session.fileName
  mimeType : NUL ∉ session.mimeType
  userId : NUL ∉ session.userId
  folderId : NUL ∉ session.folderId

variable {svc : Services} {pg : Postgres} {w w' : World}

/-- A new session. -/
theorem producible_newSession {init : InitBody} {userId uploadId : Bytes} (hid : uploadId ≠ [])
    (hpos : 0 < init.totalSize) (htotal : init.totalSize < 2 ^ 63)
    (hcount : 0 ≤ partCount init.totalSize svc.chunkSize) :
    Producible (newSession svc init userId uploadId) := by
  have hsize := svc.chunkSize_lt
  constructor
  · exact hid
  · show -(2 ^ 63) ≤ init.totalSize ∧ init.totalSize < 2 ^ 63
    omega
  · show -(2 ^ 63) ≤ (svc.chunkSize : Int) ∧ (svc.chunkSize : Int) < 2 ^ 63
    omega
  · exact (partCount_range init.totalSize svc.chunkSize).2
  · exact (congrArg Nat.cast List.length_replicate).trans (Int.toNat_of_nonneg hcount)
  · exact (congrArg Nat.cast List.length_replicate).trans (Int.toNat_of_nonneg hcount)
  · intro hash hhash
    rw [List.eq_of_mem_replicate hhash]
    rfl

/-- A session with one more part recorded. -/
theorem Producible.record {session : MultipartSession} (h : Producible session) (n : Int)
    (data : Bytes) : Producible (session.record n (svc.sha256 data)) := by
  have hutf8 : validUtf8 (svc.sha256 data) = true := validUtf8_sha256 svc data
  constructor
  · exact h.uploadId
  · exact h.totalSize
  · exact h.chunkSize
  · exact h.chunkCount
  · exact (congrArg Nat.cast List.length_set).trans h.uploaded
  · exact (congrArg Nat.cast List.length_set).trans h.partHashes
  · intro hash hhash
    rcases List.mem_or_eq_of_mem_set hhash with hhash | rfl
    · exact h.readable hash hhash
    · exact hutf8

theorem texts_hashArray (hashes : List Bytes) : (hashArray hashes).texts = hashes := by
  show (hashes.map Json.str).flatMap Json.scalarText = hashes
  rw [List.flatMap_map]
  exact List.flatMap_singleton' hashes

theorem texts_flagArray (flags : List Bool) : (flagArray flags).texts = [] := by
  show (flags.map Json.bool).flatMap Json.scalarText = []
  rw [List.flatMap_map]
  exact List.flatMap_eq_nil_iff.mpr fun _ _ => rfl

/-- What Redis holds after all nine `HSET`s. -/
theorem seen_iff_nulFree (hjson : svc.json.Lawful) {session : MultipartSession}
    (h : Producible session) {t t' : Bytes}
    (ht : svc.json.dump (hashArray session.partHashes) = .ok t)
    (ht' : svc.json.dump (flagArray session.uploaded) = .ok t')
    (hwritten : ∀ p ∈ sessionFields session t t',
      hget w' (sessionKey session.uploadId) p.1 = some (cstr p.2)) :
    Seen svc (.calm w') session ↔ NulFree session := by
  have hcount : -(2 ^ 31) ≤ session.chunkCount := by
    have := h.uploaded
    omega
  have hfield : ∀ (n : Nat) (field : String) (value : Bytes),
      (sessionFields session t t')[n]? = some (ascii field, value) →
      (Lossy.calm w').sees n (sessionKey session.uploadId) field = some (cstr value) := by
    intro n field value hn
    rw [Lossy.calm_sees]
    exact hwritten _ (List.mem_of_getElem? hn)
  constructor
  · intro hseen
    obtain ⟨hname, hmime, huser, hfolder, -, -, -, -, -⟩ := hseen
    rw [hfield 0 "file_name" _ rfl] at hname
    rw [hfield 1 "mime_type" _ rfl] at hmime
    rw [hfield 2 "user_id" _ rfl] at huser
    rw [hfield 3 "folder_id" _ rfl] at hfolder
    exact ⟨readsText_written.mp hname, readsText_written.mp hmime, readsText_written.mp huser,
      readsText_written.mp hfolder⟩
  · rintro ⟨hname, hmime, huser, hfolder⟩
    constructor
    · rw [hfield 0 "file_name" _ rfl]
      exact readsText_written.mpr hname
    · rw [hfield 1 "mime_type" _ rfl]
      exact readsText_written.mpr hmime
    · rw [hfield 2 "user_id" _ rfl]
      exact readsText_written.mpr huser
    · rw [hfield 3 "folder_id" _ rfl]
      exact readsText_written.mpr hfolder
    · rw [hfield 4 "total_size" _ rfl]
      exact readsNumber_written.mpr h.totalSize
    · rw [hfield 5 "chunk_size" _ rfl]
      exact readsNumber_written.mpr h.chunkSize
    · rw [hfield 6 "chunk_count" _ rfl]
      exact readsNumber_written.mpr ⟨hcount, h.chunkCount⟩
    · rw [hfield 7 "part_hashes" _ rfl]
      exact (readsArray_written hjson isFlat_hashArray getArray_hashArray ht).mpr rfl
    · rw [hfield 8 "uploaded" _ rfl]
      exact (readsArray_written hjson isFlat_flagArray getArray_flagArray ht').mpr rfl

/-- **A session comes back as it was saved if and only if** none of its texts has a NUL. -/
theorem session_round_trip_iff (hjson : svc.json.Lawful) (hredis : svc.hasRedis = true)
    {session : MultipartSession} (h : Producible session)
    (hkey : HashKey w (sessionKey session.uploadId)) :
    ∃ w', (saveToRedis svc session).run (exec svc pg) w = (.ok (), w') ∧
      (((loadFromRedis svc session.uploadId).run (exec svc pg) w').1 = .ok session ↔
        NulFree session) := by
  have hhashes : ∀ text ∈ (hashArray session.partHashes).texts, validUtf8 text = true := by
    rw [texts_hashArray]
    exact h.readable
  have hflags : ∀ text ∈ (flagArray session.uploaded).texts, validUtf8 text = true := by
    rw [texts_flagArray]
    exact fun text htext => absurd htext List.not_mem_nil
  obtain ⟨t, ht, -, -⟩ := hjson.dump_flat _ (isFlat_hashArray session.partHashes) hhashes
  obtain ⟨t', ht', -, -⟩ := hjson.dump_flat _ (isFlat_flagArray session.uploaded) hflags
  have hsave := wp_ofExec.mp (@wp_saveToRedis_written svc pg w session t t' hkey hredis ht ht')
  refine ⟨_, Prod.ext hsave.1 rfl, ?_⟩
  rw [loaded_iff_seen h.uploadId, seen_iff_nulFree hjson h ht ht' hsave.2.written]
  exact and_iff_right hredis

/-- A one-byte upload under the name `fileName`. -/
def namedSession (fileName : Bytes) : MultipartSession where
  uploadId := ascii "s"
  userId := aliceId.text
  fileName := fileName
  mimeType := ascii "text/plain"
  totalSize := 1
  chunkSize := 1
  chunkCount := 1
  uploaded := [false]
  partHashes := [[]]

theorem producible_namedSession (fileName : Bytes) : Producible (namedSession fileName) := by
  constructor
  · show ascii "s" ≠ []
    decide
  · show -(2 ^ 63) ≤ (1 : Int) ∧ (1 : Int) < 2 ^ 63
    decide
  · show -(2 ^ 63) ≤ (1 : Int) ∧ (1 : Int) < 2 ^ 63
    decide
  · show (1 : Int) < 2 ^ 31
    decide
  · rfl
  · rfl
  · intro hash hhash
    rw [List.mem_singleton.mp hhash]
    rfl

/-- **The name `a\u0000b`, which JSON can write, comes back as `a`.** -/
theorem namedSession_cut :
    Producible (namedSession [97, NUL, 98]) ∧
      ∃ w', (saveToRedis sampleServices (namedSession [97, NUL, 98])).run
          (exec sampleServices samplePostgres) oneFile = (.ok (), w') ∧
        ((loadFromRedis sampleServices (ascii "s")).run (exec sampleServices samplePostgres) w').1 =
          .ok (namedSession [97]) ∧
        namedSession [97] ≠ namedSession [97, NUL, 98] := by
  refine ⟨producible_namedSession _, _, Prod.ext ?_ rfl, ?_, ?_⟩
  · decide +kernel
  · decide +kernel
  · decide

theorem namedSession_kept :
    ∃ w', (saveToRedis sampleServices (namedSession (ascii "a.txt"))).run
        (exec sampleServices samplePostgres) oneFile = (.ok (), w') ∧
      ((loadFromRedis sampleServices (ascii "s")).run (exec sampleServices samplePostgres) w').1 =
        .ok (namedSession (ascii "a.txt")) := by
  have hkey : HashKey oneFile (sessionKey (namedSession (ascii "a.txt")).uploadId) := nofun
  obtain ⟨w', hsave, hload⟩ := @session_round_trip_iff sampleServices samplePostgres oneFile
    sampleServices_lawful rfl _ (producible_namedSession (ascii "a.txt")) hkey
  refine ⟨w', hsave, hload.mpr ?_⟩
  constructor <;> decide

end SolarDrive.Runs
