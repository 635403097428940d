import SolarDrive.Storage.ObjectStore

/-!
# Writes that are cut short

Runs of `put` and `remove` in which a write may stop anywhere. `put` does not
look at the stream after it has written, so a short file is taken for the
object from then on, by the same upload and by every later one of these bytes.
-/

namespace SolarDrive.Storage

open Lib Api

inductive StoreCall where
  | put (data : Bytes) (out : WriteOutcome)
  | remove (hash : Bytes) (refused : Bool)
deriving DecidableEq, Repr

def StoreCall.run (s : ObjectStore) (files : Files) : StoreCall → Files
  | .put data out => (s.put out data files).2
  | .remove hash refused => (s.remove refused hash files).2

def runAll (s : ObjectStore) (calls : List StoreCall) (files : Files) : Files :=
  calls.foldl (StoreCall.run s) files

/-- The call is a `remove` of the object's file. Callers pass hashes; for other texts paths
are told apart as texts, without what `/` and `..` mean in them. -/
def StoreCall.Removes (s : ObjectStore) (hash : Bytes) : StoreCall → Prop
  | .put _ _ => False
  | .remove h _ => cstr (s.pathOf h) = s.pathOf hash

/-- The call writes a file and does not write all of it. -/
def StoreCall.CutShort (s : ObjectStore) (files : Files) : StoreCall → Prop
  | .put data out => s.objectExists (s.sha256 data) files = .ok false ∧
      ∃ content, out.written data = some content ∧ content ≠ data
  | .remove _ _ => False

/-- What callers of the store rely on, over a run. -/
structure ServesRightBytes (s : ObjectStore) (calls : List StoreCall) (files : Files) : Prop where
  /-- At any time, an object that exists is read with the bytes of its name. -/
  right : ∀ before after, calls = before ++ after → ∀ hash, IsHash hash →
    s.objectExists hash (runAll s before files) = .ok true →
    ∃ data, s.get hash (runAll s before files) = .ok data ∧ s.sha256 data = hash
  /-- What a `put` returned for is read until it is removed. -/
  kept : ∀ before data out middle after hash,
    calls = before ++ .put data out :: (middle ++ after) →
    (s.put out data (runAll s before files)).1 = .ok hash →
    (∀ call ∈ middle, ¬ call.Removes s hash) →
    s.get hash (runAll s (before ++ .put data out :: middle) files) = .ok data
  /-- A `put` that could not store all bytes throws and leaves no object. -/
  raised : ∀ before data out after, calls = before ++ .put data out :: after →
    s.objectExists (s.sha256 data) (runAll s before files) = .ok false →
    out.written data ≠ some data →
    (∃ e, (s.put out data (runAll s before files)).1 = .error e) ∧
      s.objectExists (s.sha256 data) (runAll s (before ++ [.put data out]) files) = .ok false

/-- Along the run no file is left shorter than its object. -/
def NoWriteCutShort (s : ObjectStore) (calls : List StoreCall) (files : Files) : Prop :=
  ∀ before call after, calls = before ++ call :: after →
    ¬ call.CutShort s (runAll s before files)

variable {s : ObjectStore}

theorem runAll_append (before after : List StoreCall) (files : Files) :
    runAll s (before ++ after) files = runAll s after (runAll s before files) :=
  List.foldl_append

section Sound

variable (hlen : ∀ d, 2 ≤ (s.digest d).length)

include hlen

/-- A write that is not cut writes the object. -/
theorem whole_of_uncut {files : Files} {data content : Bytes} {out : WriteOutcome}
    (hnone : files (s.pathOf (s.sha256 data)) = none) (hout : out.written data = some content)
    (hcut : ¬ (StoreCall.put data out).CutShort s files) : content = data := by
  by_contra hne
  refine hcut ⟨?_, content, hout, hne⟩
  rw [objectExists_eq (isHash_sha256 hlen data), hnone]
  rfl

/-- One call: a sound store stays sound unless its write is cut. -/
theorem Sound.run {files : Files} (h : Sound s files) {call : StoreCall}
    (hcut : ¬ call.CutShort s files) : Sound s (call.run s files) := by
  cases call with
  | remove hash refused =>
      show Sound s (s.remove refused hash files).2
      rcases remove_cases (s := s) refused hash files with hrun | hrun
      · rw [hrun]
        exact h
      · rw [hrun]
        exact h.erase _
  | put data out =>
      have hhash := isHash_sha256 hlen data
      show Sound s (s.put out data files).2
      rcases put_cases out files hhash with ⟨content, -, hput⟩ | ⟨-, -, e, hput⟩ |
        ⟨hnone, content, hout, hput⟩
      · rw [hput]
        exact h
      · rw [hput]
        exact h
      · rw [hput, whole_of_uncut hlen hnone hout hcut]
        exact h.write hhash

/-- **A run without a cut write** keeps the store sound. -/
theorem Sound.runAll : ∀ {calls : List StoreCall} {files : Files}, Sound s files →
    NoWriteCutShort s calls files → Sound s (Storage.runAll s calls files)
  | [], _, h, _ => h
  | call :: calls, files, h, hcut => by
      have hstep : Sound s (call.run s files) := h.run hlen (hcut [] call calls rfl)
      have hrest : NoWriteCutShort s calls (call.run s files) := fun before c after heq =>
        hcut (call :: before) c after (by rw [heq]; rfl)
      have ih := Sound.runAll hstep hrest
      exact ih

/-- A call leaves the file of an object it does not remove. -/
theorem run_keeps {files : Files} {hash content : Bytes}
    (hfile : files (s.pathOf hash) = some content) {call : StoreCall}
    (hcall : ¬ call.Removes s hash) : call.run s files (s.pathOf hash) = some content := by
  cases call with
  | remove h refused =>
      show (s.remove refused h files).2 (s.pathOf hash) = some content
      rcases remove_cases (s := s) refused h files with hrun | hrun
      · rw [hrun]
        exact hfile
      · rw [hrun, Function.update_of_ne fun e => hcall e.symm]
        exact hfile
  | put data out =>
      show (s.put out data files).2 (s.pathOf hash) = some content
      rcases put_cases out files (isHash_sha256 hlen data) with ⟨_, -, hput⟩ | ⟨-, -, e, hput⟩ |
        ⟨hnone, _, -, hput⟩
      · rw [hput]
        exact hfile
      · rw [hput]
        exact hfile
      · -- a write is to a file that was not there
        have hpath : s.pathOf hash ≠ s.pathOf (s.sha256 data) := fun e => by
          rw [e, hnone] at hfile
          cases hfile
        rw [hput]
        show Function.update files _ _ (s.pathOf hash) = _
        rw [Function.update_of_ne hpath]
        exact hfile

theorem runAll_keeps {hash content : Bytes} : ∀ {calls : List StoreCall} {files : Files},
    files (s.pathOf hash) = some content → (∀ call ∈ calls, ¬ call.Removes s hash) →
    runAll s calls files (s.pathOf hash) = some content
  | [], _, hfile, _ => hfile
  | call :: calls, files, hfile, hcalls => by
      have hstep := run_keeps hlen hfile (hcalls call List.mem_cons_self)
      have ih := runAll_keeps hstep fun c hc => hcalls c (List.mem_cons_of_mem call hc)
      exact ih

/-- A cut write leaves an object with the bytes of another. -/
theorem not_right_of_cut (hinj : Function.Injective s.sha256) {files : Files} {data : Bytes}
    {out : WriteOutcome} (hcut : (StoreCall.put data out).CutShort s files) :
    ∃ content, s.get (s.sha256 data) (s.put out data files).2 = .ok content ∧
      s.objectExists (s.sha256 data) (s.put out data files).2 = .ok true ∧
      s.sha256 content ≠ s.sha256 data := by
  have hhash := isHash_sha256 hlen data
  obtain ⟨hmissing, content, hout, hne⟩ := hcut
  rcases put_cases out files hhash with ⟨_, hfile, -⟩ | ⟨-, hnone, -⟩ | ⟨-, written, hwritten, hput⟩
  · rw [objectExists_eq hhash, hfile] at hmissing
    cases hmissing
  · rw [hnone] at hout
    cases hout
  · obtain rfl : written = content := Option.some.inj (hwritten.symm.trans hout)
    have hfile : (s.put out data files).2 (s.pathOf (s.sha256 data)) = some written := by
      rw [hput]
      exact Function.update_self ..
    refine ⟨written, get_of_some hhash hfile, ?_, fun e => hne (hinj e)⟩
    rw [objectExists_eq hhash, hfile]
    rfl

/-- When a `put` that is not cut returns, the file of the hash has the bytes. -/
theorem stored_of_put (hinj : Function.Injective s.sha256) {files : Files} (h : Sound s files)
    {data hash : Bytes} {out : WriteOutcome} (hput : (s.put out data files).1 = .ok hash)
    (hcut : ¬ (StoreCall.put data out).CutShort s files) :
    hash = s.sha256 data ∧ (s.put out data files).2 (s.pathOf (s.sha256 data)) = some data := by
  have hhash := isHash_sha256 hlen data
  rcases put_cases out files hhash with ⟨content, hfile, hrun⟩ | ⟨-, -, e, hrun⟩ |
    ⟨hnone, content, hout, hrun⟩
  · rw [hrun] at hput ⊢
    rw [hinj (h _ hhash content hfile)] at hfile
    exact ⟨(Except.ok.inj hput).symm, hfile⟩
  · rw [hrun] at hput
    cases hput
  · rw [hrun] at hput ⊢
    refine ⟨(Except.ok.inj hput).symm, ?_⟩
    rw [whole_of_uncut hlen hnone hout hcut]
    exact Function.update_self ..

/-- A write that is neither complete nor cut is refused. -/
theorem refused_of_uncut {files : Files} {data : Bytes} {out : WriteOutcome}
    (hmissing : s.objectExists (s.sha256 data) files = .ok false)
    (hout : out.written data ≠ some data) (hcut : ¬ (StoreCall.put data out).CutShort s files) :
    ∃ e, s.put out data files = (.error e, files) := by
  have hhash := isHash_sha256 hlen data
  rcases put_cases out files hhash with ⟨content, hfile, -⟩ | ⟨-, -, hrefused⟩ |
    ⟨hnone, content, hcontent, -⟩
  · rw [objectExists_eq hhash, hfile] at hmissing
    cases hmissing
  · exact hrefused
  · rw [whole_of_uncut hlen hnone hcontent hcut] at hcontent
    exact absurd hcontent hout

/-- **The store serves the right bytes exactly in the runs without a cut write.** -/
theorem servesRightBytes_iff (hinj : Function.Injective s.sha256) {files : Files}
    (h : Sound s files) (calls : List StoreCall) :
    ServesRightBytes s calls files ↔ NoWriteCutShort s calls files := by
  constructor
  · rintro hserves before call after rfl hcut
    cases call with
    | remove hash refused => exact hcut
    | put data out =>
        have hrun : runAll s (before ++ [.put data out]) files =
            (s.put out data (runAll s before files)).2 := runAll_append ..
        obtain ⟨content, hget, hexists, hne⟩ := not_right_of_cut hlen hinj hcut
        rw [← hrun] at hget hexists
        obtain ⟨content', hget', hsha⟩ := hserves.right (before ++ [.put data out]) after (by simp)
          _ (isHash_sha256 hlen data) hexists
        rw [hget] at hget'
        obtain rfl := Except.ok.inj hget'
        exact hne hsha
  · intro hcut
    have hsound : ∀ before after, calls = before ++ after → Sound s (runAll s before files) := by
      rintro before after rfl
      refine h.runAll hlen fun pre c post heq => hcut pre c (post ++ after) ?_
      rw [heq, List.append_assoc]
      rfl
    constructor
    · intro before after heq hash hhash hexists
      rw [objectExists_eq hhash] at hexists
      obtain ⟨data, hfile⟩ := Option.isSome_iff_exists.mp (Except.ok.inj hexists)
      exact ⟨data, get_of_some hhash hfile, hsound before after heq hash hhash data hfile⟩
    · rintro before data out middle after hash rfl hput hmiddle
      have hstart := hsound before _ rfl
      obtain ⟨rfl, hfile⟩ := stored_of_put hlen hinj hstart hput
        (hcut before (.put data out) (middle ++ after) rfl)
      have hkept := runAll_keeps hlen hfile hmiddle
      rw [runAll_append]
      exact get_of_some (isHash_sha256 hlen data) hkept
    · rintro before data out after rfl hmissing hout
      obtain ⟨e, hrun⟩ := refused_of_uncut hlen hmissing hout (hcut before (.put data out) after rfl)
      refine ⟨⟨e, by rw [hrun]⟩, ?_⟩
      rw [runAll_append]
      show s.objectExists _ (s.put out data (runAll s before files)).2 = _
      rw [hrun]
      exact hmissing

end Sound

/-- One upload of `xy` fills the disk, the next one finds the file and returns. -/
def sampleCalls : List StoreCall := [.put (ascii "xy") (.cut 1), .put (ascii "xy") .complete]

/-- **What the second upload was acknowledged for reads as `x`.** -/
theorem sampleStore_serves_prefix :
    Sound sampleStore emptyFiles ∧ Function.Injective sampleStore.sha256 ∧
      (∃ hash, (sampleStore.put .complete (ascii "xy")
          (runAll sampleStore [.put (ascii "xy") (.cut 1)] emptyFiles)).1 = .ok hash ∧
        sampleStore.get hash (runAll sampleStore sampleCalls emptyFiles) = .ok (ascii "x")) ∧
      ¬ ServesRightBytes sampleStore sampleCalls emptyFiles := by
  have hput : (sampleStore.put .complete (ascii "xy")
      (runAll sampleStore [.put (ascii "xy") (.cut 1)] emptyFiles)).1 =
        .ok (sampleStore.sha256 (ascii "xy")) := by
    decide
  have hget : sampleStore.get (sampleStore.sha256 (ascii "xy"))
      (runAll sampleStore sampleCalls emptyFiles) = .ok (ascii "x") := by
    decide
  refine ⟨emptyFiles_sound, sampleServices_sha256_injective, ⟨_, hput, hget⟩, fun hserves => ?_⟩
  have hkept := hserves.kept [.put (ascii "xy") (.cut 1)] (ascii "xy") .complete [] [] _ rfl hput
    fun _ hcall => absurd hcall List.not_mem_nil
  have hclash := hget.symm.trans hkept
  exact absurd hclash (by decide)

theorem sampleStore_serves_complete_writes :
    ServesRightBytes sampleStore [.put (ascii "xy") .complete, .remove (ascii "abcd") false,
      .put (ascii "xy") .refused] emptyFiles := by
  refine (servesRightBytes_iff (s := sampleStore) sampleServices_digest_length
    sampleServices_sha256_injective emptyFiles_sound _).mpr fun before call after heq hcut => ?_
  have hcall : call ∈ [StoreCall.put (ascii "xy") .complete, .remove (ascii "abcd") false,
      .put (ascii "xy") .refused] := by
    rw [heq]
    exact List.mem_append_right before List.mem_cons_self
  simp only [List.mem_cons, List.not_mem_nil, or_false] at hcall
  rcases hcall with rfl | rfl | rfl
  · obtain ⟨-, content, hcontent, hne⟩ := hcut
    exact hne (Option.some.inj hcontent).symm
  · exact hcut
  · obtain ⟨-, content, hcontent, -⟩ := hcut
    cases hcontent

end SolarDrive.Storage
