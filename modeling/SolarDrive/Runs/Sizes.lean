import SolarDrive.Runs.Fidelity

/-!
# Recorded sizes

A single upload records the length of its body. A completed session records the
size that was declared when it was started, whatever the parts were; the sizes
are right in the histories whose declarations are.
-/

namespace SolarDrive.Runs

open Lib Http Api Metadata Prog

section Throughout

variable {svc : Services} {pg : Postgres}

/-- Every action of a history meets a condition in the state before it. -/
def Throughout (svc : Services) (pg : Postgres) (P : World × Record → Action → Prop) :
    World × Record → List Action → Prop
  | _, [] => True
  | s, a :: actions => P s a ∧ Throughout svc pg P (recorded svc pg s a) actions

/-- What every action keeps under the condition, a history of such actions keeps. -/
theorem throughout_invariant {P : World × Record → Action → Prop} {Inv : World × Record → Prop}
    (hstep : ∀ s a, Inv s → P s a → Inv (recorded svc pg s a)) {s : World × Record} (h : Inv s)
    {actions : List Action} (hactions : Throughout svc pg P s actions) :
    Inv (actions.foldl (recorded svc pg) s) := by
  induction actions generalizing s with
  | nil => exact h
  | cons a actions ih => exact ih (hstep s a h hactions.1) hactions.2

end Throughout

/-! ## Sizes -/

section Sizes

variable {svc : Services} {pg : Postgres}

/-- The row has the length of its chunks put together, within the limit. -/
def Sized (svc : Services) (c : ContentRow) : Prop :=
  ∃ data : List Bytes, c.chunkHashes = hashArray (data.map svc.sha256) ∧
    c.size = data.flatten.length ∧
    (0 < svc.maxFileSizeBytes → (data.flatten.length : Int) ≤ svc.maxFileSizeBytes)

/-- A request that completes a session with all its parts, as content that is
not there yet, completes one with the size it declares. -/
def DeclaresSize (svc : Services) (s : World × Record) : Action → Prop
  | .request .uploadComplete req => ∀ (bodies : List Bytes) (n : Nat),
      DeclaredFor s.1 s.2 req bodies n →
        (∀ c ∈ s.1.contents, c.hash ≠ svc.sha256 bodies.flatten) → n = bodies.flatten.length
  | _ => True

/-- Content that is accounted for has the size of its bytes. -/
theorem accounted_length {s : World × Record} {a : Action} {c : ContentRow}
    (hacc : Accounted svc s c a) (hnew : ∀ c' ∈ s.1.contents, c'.hash ≠ c.hash)
    (hdecl : DeclaresSize svc s a) :
    ∃ bytes : Bytes, c.hash = svc.sha256 bytes ∧ c.size = bytes.length ∧
      svc.oversized c.size = false := by
  cases a with
  | request route req =>
      cases route with
      | upload =>
          obtain ⟨hfits, hhash, hsize⟩ := hacc
          exact ⟨req.body, hhash, hsize, hfits⟩
      | uploadComplete =>
          obtain ⟨hfits, bodies, n, hdeclared, hhash, hsize⟩ := hacc
          have hn : n = bodies.flatten.length :=
            hdecl bodies n hdeclared fun c' hc' => hhash ▸ hnew c' hc'
          exact ⟨bodies.flatten, hhash, by rw [hsize, hn], hfits⟩
      | _ => exact hacc.elim
  | _ => exact hacc.elim

/-- One action that declares what it brings. -/
theorem sized_recorded (hjson : svc.json.Lawful) (hpg : pg.Lawful svc.json)
    (hlen : ∀ d, 2 ≤ (svc.digest d).length) (hinj : Function.Injective svc.sha256)
    {s : World × Record} {a : Action} (hfaithful : Faithful svc s.2 s.1)
    (hsized : ∀ c ∈ s.1.contents, Sized svc c) (hdecl : DeclaresSize svc s a) :
    ∀ c ∈ (recorded svc pg s a).1.contents, Sized svc c := by
  have hkeeps := hfaithful.recorded hjson hpg hlen hinj a
  intro c hc
  rcases hkeeps.contents c hc with hold | ⟨hacc, hnew⟩
  · exact hsized c hold
  · obtain ⟨bytes, hhash, hsize, hfits⟩ := accounted_length hacc hnew hdecl
    obtain ⟨data, hchunks, hdata, -⟩ := hkeeps.faithful.rows c hc
    have hbytes : data.flatten = bytes := hinj (hdata.symm.trans hhash)
    refine ⟨data, hchunks, by rw [hbytes, hsize], fun hlimit => ?_⟩
    rw [hbytes, ← hsize]
    exact le_of_not_oversized hfits hlimit

/-- **In a history whose sessions declare the size of what they bring, every
content row has its real size, and none is over the limit.** -/
theorem sizes_of_history (hjson : svc.json.Lawful) (hpg : pg.Lawful svc.json)
    (hlen : ∀ d, 2 ≤ (svc.digest d).length) (hinj : Function.Injective svc.sha256) {w₀ : World}
    (h₀ : Initial w₀) {actions : List Action}
    (hdecl : Throughout svc pg (DeclaresSize svc) (w₀, {}) actions) :
    ∀ c ∈ (history svc pg w₀ actions).1.contents, Sized svc c := by
  let Inv : World × Record → Prop := fun s =>
    Faithful svc s.2 s.1 ∧ ∀ c ∈ s.1.contents, Sized svc c
  have hstart : Inv (w₀, {}) := by
    refine ⟨h₀.faithful {}, fun c hc => ?_⟩
    rw [show (w₀, ({} : Record)).1.contents = [] from h₀.contents] at hc
    exact absurd hc List.not_mem_nil
  have hstep : ∀ s a, Inv s → DeclaresSize svc s a → Inv (recorded svc pg s a) :=
    fun s a h hd => ⟨(h.1.recorded hjson hpg hlen hinj a).faithful,
      sized_recorded hjson hpg hlen hinj h.1 h.2 hd⟩
  exact (throughout_invariant hstep hstart hdecl).2

/-- Files of one byte at most, parts of two. -/
def oneByteLimit : Services :=
  { sampleServices with
    chunkSize := 2
    chunkSize_pos := by decide
    chunkSize_lt := by decide
    maxFileSizeBytes := 1 }

/-- Alice starts an upload of one byte in one part, brings the part, and
completes the upload. -/
def onePart (body : Bytes) : List Action :=
  [initBy aliceId (ascii "\x7b\"file_name\":\"a.txt\",\"total_size\":1\x7d"),
    partBy aliceId "0-1-2-3" 0 body, completeBy aliceId "0-1-2-3"]

/-- With the one byte that was declared. -/
theorem one_byte_of_one : ∃ c ∈ (history oneByteLimit samplePostgres twoUsers
    (onePart (ascii "x"))).1.contents, c.size = 1 ∧ Sized oneByteLimit c := by
  have hjson : oneByteLimit.json.Lawful := sampleServices_lawful
  have hpg : samplePostgres.Lawful oneByteLimit.json := samplePostgres_lawful
  have hlen : ∀ d, 2 ≤ (oneByteLimit.digest d).length := sampleServices_digest_length
  have hinj : Function.Injective oneByteLimit.sha256 := sampleServices_sha256_injective
  have hdecl : Throughout oneByteLimit samplePostgres (DeclaresSize oneByteLimit) (twoUsers, {})
      (onePart (ascii "x")) := by
    refine ⟨trivial, trivial, ?_, trivial⟩
    rintro bodies n ⟨hparts, -, hsize⟩ -
    have hbodies : bodies.map some = [ascii "x"].map some := hparts.symm.trans (by decide +kernel)
    have htext : some (decimal n) = some (decimal 1) := hsize.symm.trans (by decide +kernel)
    rw [decimal_injective (Option.some.inj htext),
      List.map_injective_iff.mpr (Option.some_injective _) hbodies]
    rfl
  have hrow : (history oneByteLimit samplePostgres twoUsers
      (onePart (ascii "x"))).1.contents.any (fun c => decide (c.size = 1)) = true := by
    decide +kernel
  obtain ⟨c, hc, hsize⟩ := List.any_eq_true.mp hrow
  exact ⟨c, hc, of_decide_eq_true hsize,
    sizes_of_history hjson hpg hlen hinj twoUsers_initial hdecl c hc⟩

/-- Two bytes in a part of an upload of one: the row says 1, and the limit is 1. -/
theorem two_bytes_of_one : ∃ c ∈ (history oneByteLimit samplePostgres twoUsers
    (onePart (ascii "xy"))).1.contents, ¬ Sized oneByteLimit c := by
  have hrow : (history oneByteLimit samplePostgres twoUsers
      (onePart (ascii "xy"))).1.contents.any (fun c => decide (c.size = 1) &&
        decide ((c.chunkHashes.getArray Json.getString).toOption =
          some [oneByteLimit.sha256 (ascii "xy")])) = true := by decide +kernel
  obtain ⟨c, hc, hprops⟩ := List.any_eq_true.mp hrow
  simp only [Bool.and_eq_true, decide_eq_true_eq] at hprops
  obtain ⟨hsize, hchunks⟩ := hprops
  refine ⟨c, hc, ?_⟩
  rintro ⟨data, harray, hlength, -⟩
  rw [harray, getArray_hashArray] at hchunks
  have hdata : data.map oneByteLimit.sha256 = [ascii "xy"].map oneByteLimit.sha256 :=
    Option.some.inj hchunks
  have hinj : Function.Injective oneByteLimit.sha256 := sampleServices_sha256_injective
  rw [hsize, List.map_injective_iff.mpr hinj hdata] at hlength
  exact absurd hlength (by decide)

end Sizes

end SolarDrive.Runs
