import SolarDrive.Api.Multipart

/-!
# The arithmetic of parts

`handle_init` rounds the size up to whole parts and keeps the count as an `int`;
`notify_upload_progress` multiplies in `int` and in `int64_t`. The numbers are
what they say as long as the size and the chunk size add up to an `int64_t` and
a hundred times the parts is an `int`.
-/

namespace SolarDrive.Api

open Lib

/-- `static_cast<int64_t>` of a `size_t`. -/
def toInt64 (n : Nat) : Int := Int.bmod n (2 ^ 64)

theorem toInt64_of_lt {n : Nat} (h : n < 2 ^ 63) : toInt64 n = n := by
  apply Int.bmod_eq_of_le <;> omega

theorem toInt64_neg {n : Nat} (h : ¬ n < 2 ^ 63) (hn : n < 2 ^ 64) : toInt64 n < 0 := by
  have hbig : (2 : Int) ^ 63 ≤ n := by exact_mod_cast Nat.not_lt.mp h
  unfold toInt64
  rw [← Int.sub_bmod_right, Int.bmod_eq_of_le]
  · omega
  · omega
  · omega

/-- The session `handle_init` fills in; `none` where `assign` throws. -/
def createSession (chunkSize : Nat) (init : InitBody) (userId folderId uploadId : Bytes) :
    Option MultipartSession :=
  let chunkCount := partCount init.totalSize (toInt64 chunkSize)
  if chunkCount < 0 then none
  else some
    { uploadId, userId, folderId, fileName := init.fileName, mimeType := init.mimeType
      totalSize := init.totalSize, chunkSize := toInt64 chunkSize, chunkCount
      uploaded := List.replicate chunkCount.toNat false
      partHashes := List.replicate chunkCount.toNat [] }

/-- It is the session the handler starts. -/
theorem startSession_eq (svc : Services) (init : InitBody) (userId folderId : Bytes) :
    startSession svc init userId folderId = (do
      let uploadId ← generateUuid
      match createSession svc.chunkSize init userId folderId uploadId with
      | none => throwStd (ascii "vector<bool>::_M_fill_insert")
      | some session => return session) := by
  have hsize : toInt64 svc.chunkSize = svc.chunkSize := toInt64_of_lt svc.chunkSize_lt
  unfold startSession createSession
  rw [hsize]
  refine congrArg (generateUuid >>= ·) (funext fun uploadId => ?_)
  dsimp only
  split <;> rfl

/-- As many parts as the vectors are long, and just enough of them. -/
structure Covers (chunkSize : Nat) (session : MultipartSession) : Prop where
  low : (session.chunkCount - 1) * chunkSize < session.totalSize
  high : session.totalSize ≤ session.chunkCount * chunkSize
  uploaded : session.uploaded.length = session.chunkCount
  partHashes : session.partHashes.length = session.chunkCount

/-- The numbers pushed for a session, and that nothing on the way to them overflows. -/
structure ProgressExact (session : MultipartSession) : Prop where
  pushed : ∃ percent bytes, notifyUploadProgress session =
      ask (.pushProgress session.uploadId percent bytes session.totalSize) ∧
    0 ≤ percent ∧ percent ≤ 100 ∧ (percent = 100 ↔ ∀ flag ∈ session.uploaded, flag = true) ∧
    bytes ≤ session.totalSize ∧
    (bytes = session.totalSize ↔ ∀ flag ∈ session.uploaded, flag = true)
  percentFits : uploadedCount session * 100 < 2 ^ 31
  bytesFit : -(2 ^ 63) ≤ uploadedCount session * session.chunkSize ∧
    uploadedCount session * session.chunkSize < 2 ^ 63

/-- What a client may expect of the numbers of its upload. -/
structure PartsExact (chunkSize : Nat) (init : InitBody) : Prop where
  sumFits : init.totalSize + toInt64 chunkSize < 2 ^ 63
  countFits : (init.totalSize + toInt64 chunkSize - 1).tdiv (toInt64 chunkSize) < 2 ^ 31
  created : ∀ userId folderId uploadId, ∃ session,
    createSession chunkSize init userId folderId uploadId = some session ∧
    Covers chunkSize session ∧
    ∀ flags : List Bool, flags.length = session.uploaded.length →
      ProgressExact { session with uploaded := flags }

/-! ## Rounding up -/

/-- As many pieces as it takes, and no more. -/
theorem ceil_bounds (total : Int) {c : Int} (hc : 0 < c) :
    ((total + c - 1) / c - 1) * c < total ∧ total ≤ (total + c - 1) / c * c := by
  have hlow := Int.ediv_mul_le (total + c - 1) (Int.ne_of_gt hc)
  have hhigh := Int.lt_ediv_add_one_mul_self (total + c - 1) hc
  rw [Int.add_mul, Int.one_mul] at hhigh
  rw [Int.sub_mul, Int.one_mul]
  omega

theorem partCount_exact {total c : Int} (hc : 0 < c) (ht : 0 < total) (hsum : total + c < 2 ^ 63)
    (hn : (total + c - 1) / c < 2 ^ 31) : partCount total c = (total + c - 1) / c := by
  have hnonneg : 0 ≤ (total + c - 1) / c := Int.ediv_nonneg (by omega) (by omega)
  have hrounded : Int.bmod (total + c - 1) (2 ^ 64) = total + c - 1 := by
    apply Int.bmod_eq_of_le <;> omega
  unfold partCount
  rw [hrounded, Int.tdiv_eq_ediv_of_nonneg (by omega)]
  apply Int.bmod_eq_of_le <;> omega

/-- With `k` of `n` parts: the percentage is a hundred for all of them only. -/
theorem percent_of_parts {n k : Int} (hn : 0 < n) (hk : 0 ≤ k) (hkn : k ≤ n) :
    0 ≤ k * 100 / n ∧ k * 100 / n ≤ 100 ∧ (k * 100 / n = 100 ↔ k = n) := by
  have hle : k * 100 / n ≤ 100 := by
    apply Int.ediv_le_of_le_mul hn
    omega
  refine ⟨Int.ediv_nonneg (by omega) (by omega), hle, fun h => ?_, fun h => ?_⟩
  · have hge : 100 * n ≤ k * 100 := (Int.le_ediv_iff_mul_le hn).mp (by omega)
    omega
  · rw [h]
    exact Int.mul_ediv_cancel_left 100 (Int.ne_of_gt hn)

/-- The parts reach the size when they are all there. -/
theorem bytes_of_parts {n k c total : Int} (hc : 0 < c) (hlow : (n - 1) * c < total)
    (hhigh : total ≤ n * c) (hkn : k ≤ n) : total ≤ k * c ↔ k = n := by
  constructor
  · intro h
    by_contra hne
    have hmul : k * c ≤ (n - 1) * c := Int.mul_le_mul_of_nonneg_right (by omega) (by omega)
    omega
  · rintro rfl
    exact hhigh

theorem uploadedCount_le (session : MultipartSession) :
    0 ≤ uploadedCount session ∧ uploadedCount session ≤ session.uploaded.length := by
  have := List.count_le_length (a := true) (l := session.uploaded)
  unfold uploadedCount
  omega

theorem uploadedCount_eq_length_iff (session : MultipartSession) :
    uploadedCount session = session.uploaded.length ↔ ∀ flag ∈ session.uploaded, flag = true := by
  unfold uploadedCount
  rw [Int.natCast_inj, List.count_eq_length]
  exact forall₂_congr fun _ _ => eq_comm

/-- **Progress over the parts of a session** is exact up to 21474836 of them. -/
theorem progressExact {chunkSize : Nat} {session : MultipartSession} (hc : 0 < chunkSize)
    (hsize : session.chunkSize = chunkSize) (h : Covers chunkSize session)
    (hsum : session.totalSize + chunkSize < 2 ^ 63) (ht : 0 < session.totalSize)
    (hcount : session.chunkCount ≤ 21474836) : ProgressExact session := by
  obtain ⟨hnonneg, hle⟩ := uploadedCount_le session
  have hall := uploadedCount_eq_length_iff session
  rw [h.uploaded] at hle hall
  have hlow := h.low
  have hhigh := h.high
  have hpos : 0 < session.chunkCount := by
    by_contra hnot
    have hzero : session.chunkCount = 0 := by omega
    rw [hzero, Int.zero_mul] at hhigh
    omega
  -- the product is at most one chunk beyond the size
  have hproduct : 0 ≤ uploadedCount session * chunkSize ∧
      uploadedCount session * chunkSize < session.totalSize + chunkSize := by
    have hmul : uploadedCount session * chunkSize ≤ session.chunkCount * chunkSize :=
      Int.mul_le_mul_of_nonneg_right hle (by omega)
    rw [Int.sub_mul, Int.one_mul] at hlow
    exact ⟨Int.mul_nonneg hnonneg (by omega), by omega⟩
  have hpercent : Int.bmod (uploadedCount session * 100) (2 ^ 32) = uploadedCount session * 100 := by
    apply Int.bmod_eq_of_le <;> omega
  have hbytes : Int.bmod (uploadedCount session * session.chunkSize) (2 ^ 64) =
      uploadedCount session * chunkSize := by
    rw [hsize]
    apply Int.bmod_eq_of_le <;> omega
  obtain ⟨hlow100, hhigh100, hfull⟩ := percent_of_parts hpos hnonneg hle
  have hreach := bytes_of_parts (by omega : (0 : Int) < chunkSize) h.low hhigh hle
  refine ⟨⟨uploadedCount session * 100 / session.chunkCount,
    min (uploadedCount session * chunkSize) session.totalSize, ?_, hlow100, hhigh100,
    hfull.trans hall, by omega, ?_⟩, by omega, by rw [hsize]; omega⟩
  · unfold notifyUploadProgress
    rw [hpercent, hbytes, if_pos hpos, Int.tdiv_eq_ediv_of_nonneg (by omega)]
    have hmin : (if uploadedCount session * chunkSize > session.totalSize then session.totalSize
        else uploadedCount session * chunkSize) =
          min (uploadedCount session * chunkSize) session.totalSize := by
      rw [min_def]
      split <;> split <;> omega
    rw [← hmin]
  · rw [min_eq_right_iff, hreach, hall]

/-- With every part there the pushed bytes are the size. -/
theorem pushedBytes {session : MultipartSession} (h : ProgressExact session)
    (hall : ∀ flag ∈ session.uploaded, flag = true) :
    session.totalSize ≤ Int.bmod (uploadedCount session * session.chunkSize) (2 ^ 64) := by
  obtain ⟨percent, bytes, hpush, -, -, -, -, hbytes⟩ := h.pushed
  have hcall := hbytes.mpr hall
  unfold notifyUploadProgress at hpush
  injection hpush with hpush
  injection hpush with _ _ hpushed
  rw [hcall] at hpushed
  split at hpushed
  · omega
  · omega

theorem createSession_sizes {chunkSize : Nat} {init : InitBody} {userId folderId uploadId : Bytes}
    {session : MultipartSession}
    (h : createSession chunkSize init userId folderId uploadId = some session) :
    session.totalSize = init.totalSize ∧ session.chunkSize = toInt64 chunkSize := by
  unfold createSession at h
  generalize hint : toInt64 chunkSize = size at h ⊢
  generalize partCount init.totalSize size = count at h
  dsimp only at h
  split at h
  · cases h
  · rw [← Option.some.inj h]
    exact ⟨rfl, rfl⟩

/-- Within the bounds everything is exact. -/
theorem partsExact_of_bounds {chunkSize : Nat} (hc : 1 ≤ chunkSize) {init : InitBody}
    (ht : 1 ≤ init.totalSize) (hsum : init.totalSize + chunkSize < 2 ^ 63)
    (hcount : (init.totalSize + chunkSize - 1) / chunkSize ≤ 21474836) :
    PartsExact chunkSize init := by
  have hint : toInt64 chunkSize = chunkSize := toInt64_of_lt (by omega)
  have hparts : partCount init.totalSize chunkSize = (init.totalSize + chunkSize - 1) / chunkSize :=
    partCount_exact (by omega) (by omega) hsum (by omega)
  have hnonneg : 0 ≤ (init.totalSize + chunkSize - 1) / chunkSize :=
    Int.ediv_nonneg (by omega) (by omega)
  obtain ⟨hlow, hhigh⟩ := ceil_bounds init.totalSize (by omega : (0 : Int) < chunkSize)
  refine ⟨by rwa [hint], ?_, fun userId folderId uploadId => ?_⟩
  · rw [hint, Int.tdiv_eq_ediv_of_nonneg (by omega)]
    omega
  · unfold createSession
    rw [hint]
    dsimp only
    rw [hparts, if_neg (Int.not_lt.mpr hnonneg)]
    refine ⟨_, rfl, ⟨hlow, hhigh, ?_, ?_⟩, fun flags hflags => ?_⟩
    · rw [List.length_replicate]
      exact Int.toNat_of_nonneg hnonneg
    · rw [List.length_replicate]
      exact Int.toNat_of_nonneg hnonneg
    · rw [List.length_replicate] at hflags
      refine progressExact hc rfl ⟨hlow, hhigh, ?_, ?_⟩ hsum ht hcount
      · rw [hflags]
        exact Int.toNat_of_nonneg hnonneg
      · rw [List.length_replicate]
        exact Int.toNat_of_nonneg hnonneg

/-- **The numbers of an upload are exact if and only if** the size and the chunk
size add up to an `int64_t` and there are at most 21474836 parts. -/
theorem partsExact_iff {chunkSize : Nat} (hc : 1 ≤ chunkSize) (hsize : chunkSize < 2 ^ 64)
    {init : InitBody} (ht : 1 ≤ init.totalSize) (htotal : init.totalSize < 2 ^ 63) :
    PartsExact chunkSize init ↔ init.totalSize + chunkSize < 2 ^ 63 ∧
      (init.totalSize + chunkSize - 1) / chunkSize ≤ 21474836 := by
  constructor
  · intro h
    obtain ⟨session, hsession, hcovers, hprogress⟩ := h.created [] [] []
    have hfull := hprogress (List.replicate session.uploaded.length true) List.length_replicate
    obtain ⟨htotalSize, hchunkSize⟩ := createSession_sizes hsession
    -- all parts are there
    have hcount : uploadedCount { session with uploaded := List.replicate session.uploaded.length true }
        = session.chunkCount := by
      rw [← hcovers.uploaded]
      show ((List.replicate session.uploaded.length true).count true : Int) = _
      rw [List.count_replicate_self]
    have hlow := hcovers.low
    have hhigh := hcovers.high
    rw [htotalSize] at hlow hhigh
    have hfits := hfull.percentFits
    rw [hcount] at hfits
    have hint : toInt64 chunkSize = chunkSize := by
      by_cases hsmall : chunkSize < 2 ^ 63
      · exact toInt64_of_lt hsmall
      · -- a chunk size that is no `int64_t` is negative, and so are the bytes of the one part
        exfalso
        have hone : session.chunkCount = 1 := by
          have hpos : 0 < session.chunkCount := by
            by_contra hnot
            have hzero : session.chunkCount = 0 := by
              have := hcovers.uploaded
              omega
            rw [hzero, Int.zero_mul] at hhigh
            omega
          by_contra hne
          have hmul : 1 * (chunkSize : Int) ≤ (session.chunkCount - 1) * chunkSize :=
            Int.mul_le_mul_of_nonneg_right (by omega) (by omega)
          omega
        have hbytes := pushedBytes hfull fun flag hflag => List.eq_of_mem_replicate hflag
        rw [hcount, hone, Int.one_mul] at hbytes
        have hneg := toInt64_neg hsmall hsize
        have hsame : Int.bmod session.chunkSize (2 ^ 64) = toInt64 chunkSize := by
          rw [hchunkSize]
          exact Int.bmod_bmod
        have htotal' : session.totalSize ≤ toInt64 chunkSize := hsame ▸ hbytes
        omega
    have hsum := h.sumFits
    rw [hint] at hsum
    refine ⟨hsum, Int.le_of_lt_add_one (Int.ediv_lt_of_lt_mul (by omega) ?_)⟩
    have hmul : session.chunkCount * chunkSize ≤ 21474836 * (chunkSize : Int) :=
      Int.mul_le_mul_of_nonneg_right (by omega) (by omega)
    omega
  · rintro ⟨hsum, hcount⟩
    exact partsExact_of_bounds hc ht hsum hcount

/-- One part more than a percentage can be computed for, in parts of one byte. -/
def sampleInit : InitBody where
  fileName := ascii "a.bin"
  totalSize := 21474837
  mimeType := []
  folderId := []

/-- **When the last of its parts has arrived, the client is told −99 percent.** -/
theorem sampleInit_overflows :
    ¬ PartsExact 1 sampleInit ∧
      ∃ session, createSession 1 sampleInit [] [] [] = some session ∧
        notifyUploadProgress { session with uploaded := List.replicate 21474837 true } =
          ask (.pushProgress [] (-99) 21474837 21474837) := by
  have hparts : partCount sampleInit.totalSize (toInt64 1) = 21474837 := by decide
  have hsize : toInt64 1 = 1 := by decide
  have hcreate : createSession 1 sampleInit [] [] [] = some
      { fileName := ascii "a.bin", totalSize := 21474837, chunkSize := 1, chunkCount := 21474837
        uploaded := List.replicate 21474837 false
        partHashes := List.replicate 21474837 [] } := by
    unfold createSession
    dsimp only
    rw [hparts, hsize, if_neg (by decide)]
    rfl
  constructor
  · intro h
    obtain ⟨session, hsession, -, hprogress⟩ := h.created [] [] []
    rw [hcreate] at hsession
    have hlength : session.uploaded.length = 21474837 := by
      rw [← Option.some.inj hsession, List.length_replicate]
    have hfits := (hprogress (List.replicate 21474837 true) (by
      rw [List.length_replicate, hlength])).percentFits
    unfold uploadedCount at hfits
    rw [List.count_replicate_self] at hfits
    omega
  · refine ⟨_, hcreate, ?_⟩
    unfold notifyUploadProgress uploadedCount
    dsimp only
    rw [List.count_replicate_self]
    rfl

/-- The shipped chunk size and limit. -/
theorem tenGigabytes_exact :
    PartsExact 4194304 { sampleInit with totalSize := 10737418240 } :=
  (partsExact_iff (by decide) (by decide) (by decide) (by decide)).mpr (by decide)

end SolarDrive.Api
