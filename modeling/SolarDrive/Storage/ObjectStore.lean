import SolarDrive.Metadata.Exec

/-!
# The object store on the disk

`ObjectStore` with its files: an object is a file named after its hash, below
two directories named after the first four digits. `put` looks only at
whether the file is there. What becomes of a write is an argument: `put` checks
that the file opened and does not look at the stream again.
-/

namespace SolarDrive.Storage

open Lib Api Metadata

structure ObjectStore where
  /-- SHA-256. -/
  digest : Bytes → Bytes
  /-- Without the slash at its end; as the name of a directory it has no NUL. -/
  basePath : Bytes
  basePath_cstr : NUL ∉ basePath
  chunkSize : Nat
  chunkSize_pos : 0 < chunkSize

/-- The files, by the name the system sees. -/
abbrev Files : Type := Bytes → Option Bytes

/-- What a write does: all of it, a prefix, or no file at all. `mkdir` fails
silently, and then the file cannot be opened. -/
inductive WriteOutcome where
  | complete
  | cut (n : Nat)
  | refused
deriving DecidableEq, Repr

/-- The file after the write. -/
def WriteOutcome.written (data : Bytes) : WriteOutcome → Option Bytes
  | .complete => some data
  | .cut n => some (data.take n)
  | .refused => none

namespace ObjectStore

variable (s : ObjectStore)

def sha256 (data : Bytes) : Bytes := hexBytes (s.digest data)

/-- `base/ab/cd/<hash>`. -/
def pathOf (hash : Bytes) : Bytes :=
  s.basePath ++ ascii "/" ++ hash.take 2 ++ ascii "/" ++ (hash.drop 2).take 2 ++ ascii "/" ++ hash

def hashToPath (hash : Bytes) : Except Exn Bytes :=
  if hash.length < 4 then .error (hashTooShort hash) else .ok (s.pathOf hash)

def objectExists (hash : Bytes) (files : Files) : Except Exn Bool :=
  match s.hashToPath hash with
  | .error e => .error e
  | .ok path => .ok (files (cstr path)).isSome

def get (hash : Bytes) (files : Files) : Except Exn Bytes :=
  match s.hashToPath hash with
  | .error e => .error e
  | .ok path =>
      match files (cstr path) with
      | some data => .ok data
      | none => .error { kind := .std, what := ascii "object not found: " ++ hash }

/-- The hash is returned whatever became of the write. -/
def put (out : WriteOutcome) (data : Bytes) (files : Files) : Except Exn Bytes × Files :=
  let hash := s.sha256 data
  match s.objectExists hash files with
  | .error e => (.error e, files)
  | .ok true => (.ok hash, files)
  | .ok false =>
      match s.hashToPath hash with
      | .error e => (.error e, files)
      | .ok path =>
          match out.written data with
          | none =>
              (.error { kind := .std, what := ascii "cannot open file for writing: " ++ path }, files)
          | some content => (.ok hash, Function.update files (cstr path) (some content))

/-- `unlink` fails with `ENOENT` when there is no file, or is refused. -/
def remove (refused : Bool) (hash : Bytes) (files : Files) : Except Exn Bool × Files :=
  if hash = [] then (.ok false, files)
  else
    match s.hashToPath hash with
    | .error e => (.error e, files)
    | .ok path =>
        if refused then
          (.error { kind := .std, what := ascii "cannot remove object: " ++ hash }, files)
        else if (files (cstr path)).isSome then (.ok true, Function.update files (cstr path) none)
        else (.ok false, files)

/-- The loop of `put_chunked`; `writes n` is what becomes of the `n`-th write. -/
def putLoop (writes : Nat → WriteOutcome) (data : Bytes) (offset : Nat) (hashes : List Bytes)
    (files : Files) : Except Exn (List Bytes) × Files :=
  if offset < data.length then
    let chunkLen := min (data.length - offset) s.chunkSize
    match s.put (writes hashes.length) ((data.drop offset).take chunkLen) files with
    | (.error e, files) => (.error e, files)
    | (.ok hash, files) => putLoop writes data (offset + chunkLen) (hashes ++ [hash]) files
  else (.ok hashes, files)
termination_by data.length - offset
decreasing_by
  have := s.chunkSize_pos
  omega

/-- Empty data is one empty chunk. -/
def putChunked (writes : Nat → WriteOutcome) (data : Bytes) (files : Files) :
    Except Exn (List Bytes) × Files :=
  match s.putLoop writes data 0 [] files with
  | (.error e, files) => (.error e, files)
  | (.ok [], files) =>
      match s.put (writes 0) [] files with
      | (.error e, files) => (.error e, files)
      | (.ok hash, files) => (.ok [hash], files)
  | (.ok hashes, files) => (.ok hashes, files)

def getChunked (files : Files) : List Bytes → Except Exn Bytes
  | [] => .ok []
  | hash :: hashes =>
      match s.get hash files with
      | .error e => .error e
      | .ok chunk => (getChunked files hashes).map (chunk ++ ·)

end ObjectStore

/-! ## Names and files -/

/-- The text of a hash: hexadecimal, of four digits or more. -/
def IsHash (hash : Bytes) : Prop := 4 ≤ hash.length ∧ ∃ bytes, hash = hexBytes bytes

variable {s : ObjectStore}

theorem nul_not_mem_pathOf {hash : Bytes} (h : NUL ∉ hash) : NUL ∉ s.pathOf hash := by
  have hslash : NUL ∉ ascii "/" := by decide
  have htake : NUL ∉ hash.take 2 := fun hm => h (List.mem_of_mem_take hm)
  have hmiddle : NUL ∉ (hash.drop 2).take 2 := fun hm =>
    h (List.mem_of_mem_drop (List.mem_of_mem_take hm))
  simp only [ObjectStore.pathOf, List.mem_append, not_or]
  exact ⟨⟨⟨⟨⟨⟨s.basePath_cstr, hslash⟩, htake⟩, hslash⟩, hmiddle⟩, hslash⟩, h⟩

/-- The system sees the whole name of an object. -/
theorem cstr_pathOf {hash : Bytes} (h : IsHash hash) : cstr (s.pathOf hash) = s.pathOf hash := by
  obtain ⟨-, bytes, rfl⟩ := h
  exact cstr_of_not_mem (nul_not_mem_pathOf fun hm => (mem_hexBytes hm).1 rfl)

theorem hashToPath_ok {hash : Bytes} (h : 4 ≤ hash.length) :
    s.hashToPath hash = .ok (s.pathOf hash) := if_neg (Nat.not_lt.mpr h)

/-- Different objects have different files. -/
theorem pathOf_injective {hash hash' : Bytes} (h : 4 ≤ hash.length) (h' : 4 ≤ hash'.length)
    (heq : s.pathOf hash = s.pathOf hash') : hash = hash' := by
  have hdrop : ∀ t : Bytes, 4 ≤ t.length → (s.pathOf t).drop (s.basePath.length + 7) = t := by
    intro t ht
    have hlen : s.basePath.length + 7 = (s.basePath ++ ascii "/" ++ t.take 2 ++ ascii "/" ++
        (t.drop 2).take 2 ++ ascii "/").length := by
      have hslash : (ascii "/").length = 1 := by decide
      simp only [List.length_append, List.length_take, List.length_drop, hslash]
      omega
    rw [hlen]
    exact List.drop_left
  rw [← hdrop hash h, heq, hdrop hash' h']

/-- What `exists` and `get` answer for the text of a hash. -/
theorem objectExists_eq {hash : Bytes} (h : IsHash hash) (files : Files) :
    s.objectExists hash files = .ok (files (s.pathOf hash)).isSome := by
  unfold ObjectStore.objectExists
  rw [hashToPath_ok h.1]
  dsimp only
  rw [cstr_pathOf h]

theorem get_of_some {hash data : Bytes} {files : Files} (h : IsHash hash)
    (hfile : files (s.pathOf hash) = some data) : s.get hash files = .ok data := by
  unfold ObjectStore.get
  rw [hashToPath_ok h.1]
  dsimp only
  rw [cstr_pathOf h, hfile]

/-- **What a `put` does**, by whether the file is there and by its write. -/
theorem put_cases (out : WriteOutcome) {data : Bytes} (files : Files)
    (h : IsHash (s.sha256 data)) :
    (∃ content, files (s.pathOf (s.sha256 data)) = some content ∧
      s.put out data files = (.ok (s.sha256 data), files)) ∨
    (files (s.pathOf (s.sha256 data)) = none ∧ out.written data = none ∧
      ∃ e, s.put out data files = (.error e, files)) ∨
    (files (s.pathOf (s.sha256 data)) = none ∧ ∃ content, out.written data = some content ∧
      s.put out data files = (.ok (s.sha256 data),
        Function.update files (s.pathOf (s.sha256 data)) (some content))) := by
  unfold ObjectStore.put
  dsimp only
  rw [objectExists_eq h, hashToPath_ok h.1]
  dsimp only
  cases hfile : files (s.pathOf (s.sha256 data)) with
  | some content => exact .inl ⟨content, rfl, rfl⟩
  | none =>
      right
      cases hout : out.written data with
      | none => exact .inl ⟨rfl, rfl, _, rfl⟩
      | some content =>
          refine .inr ⟨rfl, content, rfl, ?_⟩
          rw [cstr_pathOf h]
          rfl

/-- A `remove` takes away its own file or nothing. -/
theorem remove_cases (refused : Bool) (hash : Bytes) (files : Files) :
    (s.remove refused hash files).2 = files ∨
      (s.remove refused hash files).2 = Function.update files (cstr (s.pathOf hash)) none := by
  unfold ObjectStore.remove ObjectStore.hashToPath
  split
  · exact .inl rfl
  · by_cases hshort : hash.length < 4
    · rw [if_pos hshort]
      exact .inl rfl
    · rw [if_neg hshort]
      dsimp only
      split
      · exact .inl rfl
      · split
        · exact .inr rfl
        · exact .inl rfl

/-- Every object holds bytes with its hash. -/
def Sound (s : ObjectStore) (files : Files) : Prop :=
  ∀ hash, IsHash hash → ∀ data, files (s.pathOf hash) = some data → s.sha256 data = hash

theorem isHash_sha256 (hlen : ∀ d, 2 ≤ (s.digest d).length) (data : Bytes) :
    IsHash (s.sha256 data) := by
  refine ⟨?_, s.digest data, rfl⟩
  have := hlen data
  rw [ObjectStore.sha256, length_hexBytes]
  omega

/-- A new file with the right bytes keeps the store sound. -/
theorem Sound.write {files : Files} (h : Sound s files) {data : Bytes}
    (hhash : IsHash (s.sha256 data)) :
    Sound s (Function.update files (s.pathOf (s.sha256 data)) (some data)) := by
  intro hash hh content hcontent
  by_cases hpath : s.pathOf hash = s.pathOf (s.sha256 data)
  · rw [hpath, Function.update_self] at hcontent
    cases hcontent
    exact (pathOf_injective hh.1 hhash.1 hpath).symm
  · rw [Function.update_of_ne hpath] at hcontent
    exact h hash hh content hcontent

/-- With a file less the store is as sound. -/
theorem Sound.erase {files : Files} (h : Sound s files) (path : Bytes) :
    Sound s (Function.update files path none) := by
  intro hash hh content hcontent
  by_cases hpath : s.pathOf hash = path
  · rw [hpath, Function.update_self] at hcontent
    cases hcontent
  · rw [Function.update_of_ne hpath] at hcontent
    exact h hash hh content hcontent

/-! ## The store of the handlers

The handlers' calls are answered from a map of hashes to bytes. It is this store
with writes that all complete.
-/

/-- The map holds what the files hold. -/
def Represents (s : ObjectStore) (files : Files) (store : Bytes → Option Bytes) : Prop :=
  ∀ hash, IsHash hash → store hash = files (s.pathOf hash)

/-- The call `put` of a handler is a `put` whose write completes. -/
theorem storePut_refines {svc : Services} {w : World} {files : Files}
    (hlen : ∀ d, 2 ≤ (svc.digest d).length) (hdigest : s.digest = svc.digest)
    (h : Represents s files w.store) (data : Bytes) :
    (storePut svc data w).1 = (s.put .complete data files).1 ∧
      Represents s (s.put .complete data files).2 (storePut svc data w).2.store := by
  have hsha : s.sha256 data = svc.sha256 data := by
    rw [ObjectStore.sha256, hdigest]
    rfl
  have hhash : IsHash (s.sha256 data) := isHash_sha256 (by rwa [hdigest]) data
  have hlong : ¬ (svc.sha256 data).length < 4 := by
    rw [← hsha]
    exact Nat.not_lt.mpr hhash.1
  unfold storePut
  dsimp only
  rw [if_neg hlong, ← hsha, h _ hhash]
  rcases put_cases .complete files hhash with ⟨content, hfile, hput⟩ | ⟨-, hout, -⟩ |
    ⟨hnone, content, hout, hput⟩
  · rw [hput, hfile]
    exact ⟨rfl, h⟩
  · cases hout
  · cases hout
    rw [hput, hnone]
    refine ⟨rfl, fun hash hh => ?_⟩
    show Function.update w.store (s.sha256 data) (some data) hash =
      Function.update files (s.pathOf (s.sha256 data)) (some data) (s.pathOf hash)
    by_cases heq : hash = s.sha256 data
    · rw [heq, Function.update_self, Function.update_self]
    · have hpath : s.pathOf hash ≠ s.pathOf (s.sha256 data) := fun e =>
        heq (pathOf_injective hh.1 hhash.1 e)
      rw [Function.update_of_ne heq, Function.update_of_ne hpath]
      exact h hash hh

theorem storeGet_refines {w : World} {files : Files} (h : Represents s files w.store)
    {hash : Bytes} (hhash : IsHash hash) : storeGet w hash = s.get hash files := by
  unfold storeGet ObjectStore.get
  rw [if_neg (Nat.not_lt.mpr hhash.1), hashToPath_ok hhash.1, h hash hhash]
  dsimp only
  cases hfile : files (s.pathOf hash) with
  | none => simp only [cstr_pathOf hhash, hfile]
  | some bytes => simp only [cstr_pathOf hhash, hfile]

/-- A store with the tabulated digests, in chunks of one byte. -/
def sampleStore : ObjectStore where
  digest := sampleServices.digest
  basePath := ascii "store"
  basePath_cstr := by decide
  chunkSize := 1
  chunkSize_pos := Nat.one_pos

/-- No files. -/
def emptyFiles : Files := fun _ => none

theorem emptyFiles_sound : Sound sampleStore emptyFiles := fun _ _ _ h => by cases h

end SolarDrive.Storage
