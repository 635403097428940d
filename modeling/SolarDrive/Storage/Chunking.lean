import SolarDrive.Storage.ObjectStore

/-!
# Data in chunks

`put_chunked` and `get_chunked` over a store whose objects hold what their
names say. The loop is followed from an arbitrary offset: what it has stored so
far is all there, and what is left is cut into pieces of the chunk size.
-/

namespace SolarDrive.Storage

open Lib Api

variable {s : ObjectStore}

/-- What was there is there, with the same bytes. -/
def Kept (files files' : Files) : Prop :=
  ∀ path content, files path = some content → files' path = some content

theorem Kept.trans {files₁ files₂ files₃ : Files} (h : Kept files₁ files₂) (h' : Kept files₂ files₃) :
    Kept files₁ files₃ := fun path content hfile => h' path content (h path content hfile)

/-- Cutting at the end or beyond it is the same. -/
theorem cut_min (data : Bytes) (n : Nat) :
    data.take (min data.length n) = data.take n ∧ data.drop (min data.length n) = data.drop n := by
  rcases Nat.le_total data.length n with h | h
  · rw [Nat.min_eq_left h, List.take_of_length_le h, List.drop_eq_nil_of_le h, List.take_length,
      List.drop_length]
    exact ⟨rfl, rfl⟩
  · rw [Nat.min_eq_right h]
    exact ⟨rfl, rfl⟩

section Sound

variable (hlen : ∀ d, 2 ≤ (s.digest d).length) (hinj : Function.Injective s.sha256)

include hlen hinj

/-- **A complete `put` into a sound store** returns, and the object is there. -/
theorem put_complete {files : Files} (h : Sound s files) (data : Bytes) :
    ∃ files', s.put .complete data files = (.ok (s.sha256 data), files') ∧ Sound s files' ∧
      Kept files files' ∧ files' (s.pathOf (s.sha256 data)) = some data := by
  have hhash := isHash_sha256 hlen data
  rcases put_cases .complete files hhash with ⟨content, hfile, hput⟩ | ⟨-, hout, -⟩ |
    ⟨hnone, content, hout, hput⟩
  · -- an object of this name has these bytes
    have hcontent : content = data := hinj (h _ hhash content hfile)
    rw [hcontent] at hfile
    exact ⟨files, hput, h, fun _ _ hkeep => hkeep, hfile⟩
  · cases hout
  · cases hout
    refine ⟨_, hput, h.write hhash, fun path content hfile => ?_, Function.update_self ..⟩
    have hpath : path ≠ s.pathOf (s.sha256 data) := by
      rintro rfl
      rw [hnone] at hfile
      cases hfile
    rw [Function.update_of_ne hpath]
    exact hfile

omit hinj in
/-- Chunks that are in the store are read back in their order. -/
theorem getChunked_stored {files : Files} : ∀ {chunks : List Bytes},
    (∀ chunk ∈ chunks, files (s.pathOf (s.sha256 chunk)) = some chunk) →
    s.getChunked files (chunks.map s.sha256) = .ok chunks.flatten
  | [], _ => rfl
  | chunk :: chunks, h => by
      have hget := get_of_some (isHash_sha256 hlen chunk) (h chunk List.mem_cons_self)
      have ih := getChunked_stored fun c hc => h c (List.mem_cons_of_mem chunk hc)
      rw [List.map_cons, ObjectStore.getChunked, hget]
      dsimp only
      rw [ih, List.flatten_cons]
      rfl

/-- **The loop from an offset on:** what is left is cut into its pieces, and
each piece is stored and listed. -/
theorem putLoop_complete (data : Bytes) {left offset : Nat} (hleft : data.length - offset = left) :
    ∀ (hashes : List Bytes) {files : Files}, Sound s files →
    ∃ files', s.putLoop (fun _ => .complete) data offset hashes files =
        (.ok (hashes ++ (pieces s.chunkSize left (data.drop offset)).map s.sha256), files') ∧
      (∀ chunk ∈ pieces s.chunkSize left (data.drop offset),
        files' (s.pathOf (s.sha256 chunk)) = some chunk) ∧
      Sound s files' ∧ Kept files files' := by
  induction left using Nat.strong_induction_on generalizing offset with
  | _ left ih =>
      intro hashes files h
      have hpos := s.chunkSize_pos
      have hlength : (data.drop offset).length = left := by
        rw [List.length_drop]
        exact hleft
      rw [ObjectStore.putLoop]
      by_cases hlt : offset < data.length
      · have hne : data.drop offset ≠ [] := List.ne_nil_of_length_pos (by omega)
        have hpieces := pieces_of_ne_nil hpos hne
        obtain ⟨htake, hdrop⟩ := cut_min (data.drop offset) s.chunkSize
        rw [hlength] at hpieces htake hdrop
        rw [List.drop_drop] at hdrop
        obtain ⟨files₁, hput, hsound, hkept, hfile⟩ :=
          put_complete hlen hinj h ((data.drop offset).take s.chunkSize)
        obtain ⟨files', hloop, hchunks, hsound', hkept'⟩ :=
          @ih (left - min left s.chunkSize) (by omega) (offset + min left s.chunkSize) (by omega)
            (hashes ++ [s.sha256 ((data.drop offset).take s.chunkSize)]) files₁ hsound
        have hlength' : left - min left s.chunkSize
            = ((data.drop offset).drop s.chunkSize).length := by
          rw [List.length_drop, hlength]
          omega
        rw [hdrop, hlength'] at hloop hchunks
        rw [if_pos hlt, hleft]
        dsimp only
        rw [htake, hput, hpieces]
        refine ⟨files', ?_, fun chunk hchunk => ?_, hsound', hkept.trans hkept'⟩
        · dsimp only
          rw [hloop, List.append_assoc]
          rfl
        · rcases List.mem_cons.mp hchunk with rfl | hchunk
          · exact hkept' _ _ hfile
          · exact hchunks chunk hchunk
      · have hzero : left = 0 := by omega
        rw [if_neg hlt, hzero]
        refine ⟨files, by rw [pieces, List.map_nil, List.append_nil], fun chunk hchunk => ?_, h,
          fun _ _ hkeep => hkeep⟩
        exact absurd hchunk List.not_mem_nil

/-- `put_chunked` stores the chunks the data is cut into and lists their hashes. -/
theorem putChunked_complete {files : Files} (h : Sound s files) (data : Bytes) :
    ∃ files', s.putChunked (fun _ => .complete) data files =
        (.ok ((chunksOf s.chunkSize data).map s.sha256), files') ∧
      (∀ chunk ∈ chunksOf s.chunkSize data, files' (s.pathOf (s.sha256 chunk)) = some chunk) ∧
      Kept files files' := by
  obtain ⟨files', hloop, hchunks, hsound, hkept⟩ :=
    putLoop_complete hlen hinj data (Nat.sub_zero _) [] h
  rw [List.nil_append, List.drop_zero] at hloop
  rw [List.drop_zero] at hchunks
  unfold ObjectStore.putChunked chunksOf
  rw [hloop]
  by_cases hdata : data = []
  · -- the loop had nothing to do
    obtain ⟨files₁, hput, -, hkept₁, hfile⟩ := put_complete hlen hinj hsound []
    rw [if_pos hdata, hdata]
    simp only [List.length_nil, pieces, List.map_nil, hput]
    refine ⟨files₁, rfl, fun chunk hchunk => ?_, hkept.trans hkept₁⟩
    rw [List.mem_singleton.mp hchunk]
    exact hfile
  · rw [if_neg hdata]
    rw [pieces_of_ne_nil s.chunkSize_pos hdata] at hchunks ⊢
    exact ⟨files', rfl, hchunks, hkept⟩

/-- **Chunking round trip:** the hashes are as many as the pieces, reading them
gives the data back, and nothing that was stored is lost. -/
theorem chunking_round_trip {files : Files} (h : Sound s files) (data : Bytes) :
    ∃ hashes files', s.putChunked (fun _ => .complete) data files = (.ok hashes, files') ∧
      hashes.length = max 1 ((data.length + s.chunkSize - 1) / s.chunkSize) ∧
      s.getChunked files' hashes = .ok data ∧
      (∀ hash ∈ hashes, ∃ chunk, s.get hash files' = .ok chunk ∧ chunk.length ≤ s.chunkSize) ∧
      Kept files files' := by
  have hpos := s.chunkSize_pos
  obtain ⟨files', hput, hchunks, hkept⟩ := putChunked_complete hlen hinj h data
  refine ⟨_, files', hput, ?_, ?_, fun hash hhash => ?_, hkept⟩
  · rw [List.length_map, length_chunksOf hpos]
  · rw [getChunked_stored hlen hchunks, chunksOf_flatten hpos]
  · obtain ⟨chunk, hchunk, rfl⟩ := List.mem_map.mp hhash
    exact ⟨chunk, get_of_some (isHash_sha256 hlen chunk) (hchunks chunk hchunk),
      length_le_of_mem_chunksOf hchunk⟩

end Sound

/-- Three chunks, two of which are one object. -/
theorem sampleStore_round_trip :
    ∃ hashes files', sampleStore.putChunked (fun _ => .complete) (ascii "xyx") emptyFiles
        = (.ok hashes, files') ∧ hashes.length = 3 ∧
      sampleStore.getChunked files' hashes = .ok (ascii "xyx") := by
  obtain ⟨hashes, files', hput, hcount, hget, -, -⟩ := chunking_round_trip (s := sampleStore)
    sampleServices_digest_length sampleServices_sha256_injective emptyFiles_sound (ascii "xyx")
  exact ⟨hashes, files', hput, hcount.trans (by decide), hget⟩

end SolarDrive.Storage
