import SolarDrive.Metadata.Transactions
import SolarDrive.Runs.UploadDelete

/-!
# Concurrent insertions of one content

Transactions that insert files with the same content, in any order of their
statements, commits and aborts. `ensure_in_txn` looks for the row, inserts it
unless it is there, and looks again: whoever did not insert has waited for the
one who did, and then sees that row.

`one_content` has the three facts about what is committed, and that whoever
waits does so for one who can go on.
-/

namespace SolarDrive.Runs

open Lib Api Metadata ReadCommitted

variable {ι : Type} [DecidableEq ι] {pg : Postgres} {txns : ι → Insertion} {w : World}
  {s s' : Tables ι} {i j : ι} {hash : Bytes}

/-- What a transaction has done when it is in this phase. -/
def Achieved (hash : Bytes) (s : Tables ι) (i : ι) : Phase → Prop
  | .select | .insert => s.files.writtenBy i = []
  | .reselect => s.files.writtenBy i = [] ∧ ∃ c ∈ s.contents.visible s.status i, c.hash = hash
  | .files contentId => s.files.writtenBy i = [] ∧
      ∃ c ∈ s.contents.visible s.status i, c.hash = hash ∧ c.id.text = contentId
  | .commit id | .committed id => ∃ c ∈ s.contents.visible s.status i, c.hash = hash ∧
      ∃ row, s.files.writtenBy i = [row] ∧ row.id.text = id ∧ row.live = true ∧
        row.contentId = c.id
  | .failed _ | .aborted => True

/-- The invariant of the transactions: the index on the hash has one entry at most, whoever
has inserted content is past that, and nobody has found nothing the second time. -/
structure TxnInv (hash : Bytes) (s : Tables ι) : Prop where
  one : s.contents.AtMostOne s.status fun c => c.hash = hash
  past : ∀ v ∈ s.contents, ∀ i, v.writer = some i →
    s.phase i ≠ .select ∧ s.phase i ≠ .insert ∧ s.phase i ≠ .reselect
  achieved : ∀ i, Achieved hash s i (s.phase i)
  resolved : ∀ i, s.phase i ≠ .failed unresolved

/-- What others do takes nothing away. -/
theorem Achieved.mono {p : Phase}
    (hvisible : ∀ c ∈ s.contents.visible s.status j, c ∈ s'.contents.visible s'.status j)
    (hfiles : s'.files.writtenBy j = s.files.writtenBy j) (h : Achieved hash s j p) :
    Achieved hash s' j p := by
  cases p with
  | select | insert => exact hfiles.trans h
  | reselect =>
      obtain ⟨hnone, c, hc, hhash⟩ := h
      exact ⟨hfiles.trans hnone, c, hvisible c hc, hhash⟩
  | files contentId =>
      obtain ⟨hnone, c, hc, hhash, hid⟩ := h
      exact ⟨hfiles.trans hnone, c, hvisible c hc, hhash, hid⟩
  | commit id | committed id =>
      obtain ⟨c, hc, hhash, row, hrow, hrest⟩ := h
      exact ⟨c, hvisible c hc, hhash, row, hfiles.trans hrow, hrest⟩
  | failed e => trivial
  | aborted => trivial

/-- A transaction that is not over comes to its next phase. -/
theorem later_update (hactive : s.status i = .active) (p : Phase) :
    Later s.status fun k => (Function.update s.phase i p k).status := by
  have hother : ∀ k, s.status k ≠ .active →
      (Function.update s.phase i p k).status = s.status k := by
    intro k hk
    rw [Function.update_of_ne (fun heq : k = i => hk (heq ▸ hactive))]
    rfl
  refine ⟨fun k hk => ?_, fun k hk => ?_⟩
  · rw [hother k (by rw [hk]; exact nofun), hk]
  · rw [hother k (by rw [hk]; exact nofun), hk]

/-- More versions are no less. -/
theorem visible_append_left {R : Type} {status status' : ι → Status} {t : Table ι R}
    (hlater : Later status status') (rows : List (Version ι R)) {r : R}
    (hr : r ∈ t.visible status j) : r ∈ Table.visible status' j (t ++ rows) := by
  obtain ⟨v, hv, hseen, hrow⟩ := Table.mem_visible.mp (hlater.visible hr)
  exact Table.mem_visible.mpr ⟨v, List.mem_append_left _ hv, hseen, hrow⟩

/-- A step of one transaction keeps the invariant when it does for that transaction. -/
theorem TxnInv.step {effect : Effect} (h : TxnInv hash s) (hactive : s.status i = .active)
    (hone : Table.AtMostOne s.status (fun c => c.hash = hash)
      (s.contents ++ effect.contents.map fun row => ⟨some i, row⟩))
    (hpast : effect.contents ≠ [] ∨ (∃ v ∈ s.contents, v.writer = some i) →
      effect.next ≠ .select ∧ effect.next ≠ .insert ∧ effect.next ≠ .reselect)
    (hachieved : Achieved hash (s.apply i (.ok effect)) i effect.next)
    (hresolved : effect.next ≠ .failed unresolved) : TxnInv hash (s.apply i (.ok effect)) := by
  have hlater := later_update hactive effect.next
  refine ⟨hone.later hlater, fun v hv k hk => ?_, fun k => ?_, fun k => ?_⟩
  · show Function.update s.phase i effect.next k ≠ _ ∧ Function.update s.phase i effect.next k ≠ _ ∧
      Function.update s.phase i effect.next k ≠ _
    by_cases hki : k = i
    · subst hki
      rw [Function.update_self]
      apply hpast
      rcases List.mem_append.mp hv with hold | hnew
      · exact .inr ⟨v, hold, hk⟩
      · exact .inl fun hnil => by rw [hnil] at hnew; cases hnew
    · rw [Function.update_of_ne hki]
      rcases List.mem_append.mp hv with hold | hnew
      · exact h.past v hold k hk
      · obtain ⟨row, -, rfl⟩ := List.mem_map.mp hnew
        exact absurd (Option.some.inj hk).symm hki
  · show Achieved hash _ k (Function.update s.phase i effect.next k)
    by_cases hki : k = i
    · subst hki
      rwa [Function.update_self]
    · rw [Function.update_of_ne hki]
      refine (h.achieved k).mono (fun c hc => visible_append_left hlater _ hc) ?_
      have hnone : Table.writtenBy k (effect.files.map fun row => ⟨some i, row⟩) = [] := by
        rw [Table.writtenBy, List.filter_eq_nil_iff.mpr]
        · rfl
        · intro v hv
          obtain ⟨row, -, rfl⟩ := List.mem_map.mp hv
          simpa using fun heq : i = k => hki heq.symm
      show Table.writtenBy k (s.files ++ effect.files.map fun row => ⟨some i, row⟩) = _
      rw [Table.writtenBy, List.filter_append, List.map_append]
      exact (congrArg _ hnone).trans (List.append_nil _)
  · show Function.update s.phase i effect.next k ≠ _
    by_cases hki : k = i
    · subst hki
      rwa [Function.update_self]
    · rw [Function.update_of_ne hki]
      exact h.resolved k

theorem apply_next (s : Tables ι) (i : ι) (p : Phase) :
    s.apply i (.ok { next := p }) = { s with phase := Function.update s.phase i p } := by
  show Tables.mk (s.contents ++ []) (s.files ++ []) _ = _
  rw [List.append_nil, List.append_nil]

/-- A transaction comes to another phase, and nothing is written. -/
theorem TxnInv.next {p : Phase} (h : TxnInv hash s) (hactive : s.status i = .active)
    (hpast : (∃ v ∈ s.contents, v.writer = some i) →
      p ≠ .select ∧ p ≠ .insert ∧ p ≠ .reselect)
    (hachieved : (∀ c ∈ s.contents.visible s.status i, c ∈ s.contents.visible
      (Tables.status { s with phase := Function.update s.phase i p }) i) →
      Achieved hash { s with phase := Function.update s.phase i p } i p)
    (hresolved : p ≠ .failed unresolved) :
    TxnInv hash { s with phase := Function.update s.phase i p } := by
  rw [← apply_next]
  refine h.step hactive ?_ (fun hor => ?_) ?_ hresolved
  · rw [show (s.contents ++ List.map _ []) = s.contents from List.append_nil _]
    exact h.one
  · exact hpast (hor.resolve_left fun hnil => hnil rfl)
  · rw [apply_next]
    exact hachieved fun c hc => (later_update hactive p).visible hc

section Run

variable (hsame : ∀ i, cstr (txns i).file.hash = hash)

include hsame

theorem TxnInv.select_again (h : TxnInv hash s) (hphase : s.phase i = .reselect) :
    selectContent pg (txns i).content (s.view txns w i) ≠ .ok none := by
  have hach := h.achieved i
  rw [hphase] at hach
  obtain ⟨-, c, hc, hhash⟩ := hach
  exact selectContent_mem hc (hhash.trans (hsame i).symm)

theorem TxnInv.done {json : JsonLib} (hpg : pg.Lawful json) {effect : Effect} (h : TxnInv hash s)
    (hactive : s.status i = .active) (hdone : Done pg txns s i effect) :
    TxnInv hash (s.apply i (.ok effect)) := by
  have hach := h.achieved i
  -- before its insert a transaction has written no content
  have hwriter : ∀ p, s.phase i = p → p = .select ∨ p = .insert ∨ p = .reselect →
      ¬ ∃ v ∈ s.contents, v.writer = some i := by
    rintro p hp hearly ⟨v, hv, hi⟩
    have hpast := h.past v hv i hi
    rw [hp] at hpast
    rcases hearly with rfl | rfl | rfl
    · exact hpast.1 rfl
    · exact hpast.2.1 rfl
    · exact hpast.2.2 rfl
  cases hdone with
  | @found c hphase hc hhash =>
      rw [apply_next]
      refine h.next hactive (by simp) (fun hvisible => ?_) (by simp)
      refine ⟨?_, c, hvisible c hc, hhash.trans (hsame i), rfl⟩
      rcases hphase with hphase | hphase
      · rw [hphase] at hach
        exact hach
      · rw [hphase] at hach
        exact hach.1
  | absent hphase =>
      rw [apply_next]
      refine h.next hactive (fun hv => absurd hv (hwriter _ hphase (.inl rfl))) (fun _ => ?_) (by simp)
      rw [hphase] at hach
      exact hach
  | @taken c hphase hc hhash =>
      rw [apply_next]
      refine h.next hactive (fun hv => absurd hv (hwriter _ hphase (.inr (.inl rfl))))
        (fun hvisible => ?_) (by simp)
      rw [hphase] at hach
      exact ⟨hach, c, hvisible c hc, hhash.trans (hsame i)⟩
  | @inserted row hphase hhash hfree =>
      rw [hsame i] at hhash
      refine h.step hactive ?_ (by simp) ?_ (by simp)
      · rw [hhash] at hfree
        exact h.one.insert ⟨some i, row⟩ fun _ => hfree
      · rw [hphase] at hach
        refine ⟨?_, row, ?_, hhash, rfl⟩
        · show Table.writtenBy i (s.files ++ []) = []
          rw [List.append_nil]
          exact hach
        · show row ∈ Table.visible _ i (s.contents ++ [⟨some i, row⟩])
          rw [Table.visible_append]
          refine List.mem_append_right _ ?_
          rw [if_pos]
          · exact List.mem_singleton_self row
          · simp [Version.seen]
  | @file contentId row hphase hcontent hlive =>
      refine h.step hactive ?_ (by simp) ?_ (by simp)
      · rw [show (s.contents ++ List.map _ []) = s.contents from List.append_nil _]
        exact h.one
      · rw [hphase] at hach
        obtain ⟨hnone, c, hc, hhash, rfl⟩ := hach
        rw [uuidParam_text hpg] at hcontent
        refine ⟨c, visible_append_left (later_update hactive _) _ hc, hhash, row, ?_, rfl, hlive,
          (Except.ok.inj hcontent).symm⟩
        show Table.writtenBy i (s.files ++ [⟨some i, row⟩]) = [row]
        rw [Table.writtenBy_append, hnone, if_pos rfl]
        rfl
  | @commit id hphase =>
      rw [apply_next]
      refine h.next hactive (by simp) (fun hvisible => ?_) (by simp)
      rw [hphase] at hach
      obtain ⟨c, hc, hrest⟩ := hach
      exact ⟨c, hvisible c hc, hrest⟩

theorem TxnInv.txnStep {json : JsonLib} (hpg : pg.Lawful json) {e : TxnEvent ι} (h : TxnInv hash s)
    (hstep : txnStep pg txns w s e = some s') : TxnInv hash s' := by
  cases e with
  | statement i =>
      obtain ⟨result, hresult, rfl⟩ := Option.map_eq_some_iff.mp hstep
      have hactive := statement_active hresult
      cases result with
      | ok effect => exact h.done hsame hpg hactive (statement_ok hresult)
      | error e =>
          refine h.next hactive (by simp) (fun _ => trivial) fun heq => ?_
          cases heq
          rcases statement_error hresult with hkind | howner | ⟨hphase, hnone⟩
          · cases hkind
          · exact absurd howner (by decide)
          · exact h.select_again hsame hphase hnone
  | abort i =>
      simp only [Metadata.txnStep] at hstep
      split at hstep
      · cases hstep
        exact h.next ‹_› (by simp) (fun _ => trivial) (by simp)
      · cases hstep

end Run

/-! ### All along -/

theorem start_inv (hindex : (w.contents.filter fun c => c.hash = hash).length ≤ 1) :
    TxnInv hash (.start w : Tables ι) where
  one := by
    have hall : Table.indexed (Tables.status (.start w : Tables ι)) (.ofRows w.contents) =
        w.contents := by
      rw [Table.indexed, Table.ofRows, List.filter_eq_self.mpr, List.map_map]
      · exact List.map_id _
      · intro v hv
        obtain ⟨c, -, rfl⟩ := List.mem_map.mp hv
        rfl
    exact Nat.le_trans (Nat.le_of_eq (by rw [← hall]; rfl)) hindex
  past := by
    intro v hv i hi
    obtain ⟨c, -, rfl⟩ := List.mem_map.mp hv
    cases hi
  achieved := by
    intro i
    show Table.writtenBy i (.ofRows w.files) = []
    rw [Table.writtenBy, List.filter_eq_nil_iff.mpr]
    · rfl
    · intro v hv
      obtain ⟨f, -, rfl⟩ := List.mem_map.mp hv
      simp
  resolved := by
    intro i hphase
    cases hphase

/-- A transaction that has written a file and is not over can commit. -/
theorem TxnInv.commits (h : TxnInv hash s) {v : Version ι FileRow} (hv : v ∈ s.files)
    (hwriter : v.writer = some j) (hactive : s.status j = .active) : ∃ id, s.phase j = .commit id := by
  have hwrote : s.files.writtenBy j ≠ [] := by
    refine List.ne_nil_of_mem (List.mem_map_of_mem (List.mem_filter.mpr ⟨hv, ?_⟩))
    exact decide_eq_true hwriter
  have hach := h.achieved j
  unfold Tables.status at hactive
  cases hphase : s.phase j with
  | select | insert =>
      rw [hphase] at hach
      exact absurd hach hwrote
  | reselect | files =>
      rw [hphase] at hach
      exact absurd hach.1 hwrote
  | commit id => exact ⟨id, rfl⟩
  | committed | failed | aborted =>
      rw [hphase] at hactive
      cases hactive

theorem TxnInv.file_goes_on (h : TxnInv hash s) {contentId : Bytes} (hphase : s.phase i = .files contentId) :
    ∃ j, s.status j = .active ∧ (statement pg txns w s j).isSome := by
  by_cases hwaits : fileWaits pg txns s i = true
  · have hother : ∃ v ∈ s.files, ∃ j, v.writer = some j ∧ s.status j = .active := by
      unfold fileWaits at hwaits
      split at hwaits
      · cases hwaits
      rw [Bool.or_eq_true, decide_eq_true_eq, decide_eq_true_eq] at hwaits
      rcases hwaits with hid | hkey
      · obtain ⟨v, hv, j, hwriter, -, hactive, -⟩ := Table.probe_inFlight hid
        exact ⟨v, hv, j, hwriter, hactive⟩
      · obtain ⟨v, hv, j, hwriter, -, hactive, -⟩ := Table.probe_inFlight hkey
        exact ⟨v, hv, j, hwriter, hactive⟩
    obtain ⟨v, hv, j, hwriter, hactive⟩ := hother
    obtain ⟨id, hcommit⟩ := h.commits hv hwriter hactive
    refine ⟨j, hactive, ?_⟩
    rw [statement, hcommit]
    rfl
  · refine ⟨i, by rw [Tables.status, hphase]; rfl, ?_⟩
    rw [statement, hphase]
    show (insertFile pg txns w contentId s i).isSome
    rw [insertFile, if_neg hwaits]
    rfl

/-- As long as a transaction is not over, one that is not has a statement that does not wait. -/
theorem TxnInv.goes_on (h : TxnInv hash s) (hactive : s.status i = .active) :
    ∃ j, s.status j = .active ∧ (statement pg txns w s j).isSome := by
  -- whose content is in the way is at its file, and whose file is in the way at its commit
  have hpast : ∀ v ∈ s.contents, ∀ j, v.writer = some j → s.status j = .active →
      ∃ j, s.status j = .active ∧ (statement pg txns w s j).isSome := by
    intro v hv j hwriter hj
    obtain ⟨hselect, hinsert, hreselect⟩ := h.past v hv j hwriter
    cases hphase : s.phase j with
    | select => exact absurd hphase hselect
    | insert => exact absurd hphase hinsert
    | reselect => exact absurd hphase hreselect
    | files contentId => exact h.file_goes_on hphase
    | commit id => exact ⟨j, hj, by rw [statement, hphase]; rfl⟩
    | committed | failed | aborted =>
        rw [Tables.status, hphase] at hj
        cases hj
  cases hphase : s.phase i with
  | select | reselect | commit => exact ⟨i, hactive, by rw [statement, hphase]; rfl⟩
  | files contentId => exact h.file_goes_on hphase
  | committed | failed | aborted =>
      rw [Tables.status, hphase] at hactive
      cases hactive
  | insert =>
      cases hstmt : insertContent pg txns s i with
      | some result => exact ⟨i, hactive, by rw [statement, hphase]; simp only [hstmt]; rfl⟩
      | none =>
          unfold insertContent at hstmt
          split at hstmt
          · cases hstmt
          · split at hstmt
            · cases hstmt
            · rename_i hwaits
              obtain ⟨v, hv, j, hwriter, -, hj, -⟩ := Table.probe_inFlight hwaits
              exact hpast v hv j hwriter hj
            · split at hstmt
              · cases hstmt
              · rename_i hwaits
                obtain ⟨v, hv, j, hwriter, -, hj, -⟩ := Table.probe_inFlight hwaits
                exact hpast v hv j hwriter hj
              · cases hstmt

/-- What a transaction that has committed sees is committed. -/
theorem visible_committed {R : Type} {status : ι → Status} {t : Table ι R} {r : R}
    (hi : status i = .committed) (hr : r ∈ t.visible status i) : r ∈ t.committed status := by
  obtain ⟨v, hv, hseen, hrow⟩ := Table.mem_visible.mp hr
  refine Table.mem_committed.mpr ⟨v, hv, ?_, hrow⟩
  simp only [Version.seen, Bool.or_eq_true, decide_eq_true_eq] at hseen
  rcases hseen with hmine | hcommitted
  · rw [Version.status, hmine]
    exact hi
  · exact hcommitted

/-- **Concurrent insertions of one content share its row**: whatever the order of their
statements, commits and aborts, nobody misses the row the second time, there is exactly one row
with the hash once one has committed, and whoever has committed has one live file, which refers
to it. And they do not all wait for each other. -/
theorem one_content {json : JsonLib} {es : List (TxnEvent ι)} (hpg : pg.Lawful json)
    (hsame : ∀ i, cstr (txns i).file.hash = hash)
    (hindex : (w.contents.filter fun c => c.hash = hash).length ≤ 1)
    (hrun : Machine.Run (txnStep pg txns w) (fun _ _ => True) (.start w) es s) :
    (∀ i, s.phase i ≠ .failed unresolved) ∧
    ((∃ i id, s.phase i = .committed id) →
      ((s.contents.committed s.status).filter fun c => c.hash = hash).length = 1) ∧
    (∀ i id, s.phase i = .committed id → ∃ c ∈ s.contents.committed s.status, c.hash = hash ∧
      ∃ row, s.files.writtenBy i = [row] ∧ row ∈ s.files.committed s.status ∧ row.id.text = id ∧
        row.live = true ∧ row.contentId = c.id) ∧
    ∀ i, s.status i = .active → ∃ j, s.status j = .active ∧ (statement pg txns w s j).isSome := by
  have h : TxnInv hash s := hrun.invariant (fun _ => TxnInv hash) (start_inv hindex)
    fun hinv _ hstep => hinv.txnStep hsame hpg hstep
  have hcommitted : ∀ i id, s.phase i = .committed id → ∃ c ∈ s.contents.committed s.status,
      c.hash = hash ∧ ∃ row, s.files.writtenBy i = [row] ∧ row ∈ s.files.committed s.status ∧
        row.id.text = id ∧ row.live = true ∧ row.contentId = c.id := by
    intro i id hphase
    have hstatus : s.status i = .committed := by
      rw [Tables.status, hphase]
      rfl
    have hach := h.achieved i
    rw [hphase] at hach
    obtain ⟨c, hc, hhash, row, hrow, hid, hlive, hcontent⟩ := hach
    refine ⟨c, visible_committed hstatus hc, hhash, row, hrow, ?_, hid, hlive, hcontent⟩
    have hmem : row ∈ s.files.writtenBy i := by
      rw [hrow]
      exact List.mem_singleton_self row
    obtain ⟨v, hv, rfl⟩ := List.mem_map.mp hmem
    obtain ⟨hv, hwriter⟩ := List.mem_filter.mp hv
    refine Table.mem_committed.mpr ⟨v, hv, ?_, rfl⟩
    rw [Version.status, of_decide_eq_true hwriter]
    exact hstatus
  refine ⟨h.resolved, ?_, hcommitted, fun i => h.goes_on⟩
  rintro ⟨i, id, hphase⟩
  obtain ⟨c, hc, hhash, -⟩ := hcommitted i id hphase
  exact h.one.committed_length hc (decide_eq_true hhash)

/-! ### Three of them -/

/-- Alice uploads `y` under three names. -/
def insertionOf (i : Fin 3) : Insertion where
  file :=
    { name := ascii "y" ++ decimal i, hash := sampleServices.sha256 (ascii "y"), size := 1
      chunkHashes := ascii "[\"" ++ sampleServices.sha256 (ascii "y") ++ ascii "\"]"
      mimeType := ascii "text/plain", ownerId := aliceId.text }
  contentUuid := sampleId ⟨i, by omega⟩
  fileUuid := sampleId ⟨i + 4, by omega⟩
  time := 0

def noContent : World := { oneFile with files := [], contents := [] }

/-- All look first; 0 inserts and is aborted, 1 inserts, and 2 can insert nothing then. -/
def threeEvents : List (TxnEvent (Fin 3)) :=
  [.statement 0, .statement 1, .statement 2, .statement 0, .abort 0, .statement 1, .statement 1,
    .statement 1, .statement 2, .statement 2, .statement 2, .statement 2]

def hasCommitted (p : Phase) : Bool :=
  match p with
  | .committed _ => true
  | _ => false

theorem committed_of {p : Phase} (h : hasCommitted p = true) : ∃ id, p = .committed id := by
  cases p with
  | committed id => exact ⟨id, rfl⟩
  | _ => cases h

theorem one_content_of_three : ∃ s,
    Machine.Run (txnStep samplePostgres insertionOf noContent) (fun _ _ => True) (.start noContent)
      threeEvents s ∧
    (∃ id, s.phase 1 = .committed id) ∧ (∃ id, s.phase 2 = .committed id) ∧
    ((s.contents.committed s.status).filter
      fun c => c.hash = sampleServices.sha256 (ascii "y")).length = 1 := by
  have hexec : ((Machine.exec (txnStep samplePostgres insertionOf noContent) (fun _ _ => true)
      threeEvents (.start noContent)).any fun s =>
        hasCommitted (s.phase 1) && hasCommitted (s.phase 2)) = true := by
    decide +kernel
  obtain ⟨s, hs, hphases⟩ := (Option.any_eq_true _ _).mp hexec
  obtain ⟨h₁, h₂⟩ := Bool.and_eq_true_iff.mp hphases
  have hrun : Machine.Run (txnStep samplePostgres insertionOf noContent) (fun _ _ => True)
      (.start noContent) threeEvents s := Machine.run_of_exec (fun _ _ _ => trivial) hs
  have hsame : ∀ i, cstr (insertionOf i).file.hash = sampleServices.sha256 (ascii "y") := fun _ =>
    cstr_of_not_mem (nul_not_mem_sha256 sampleServices _)
  have hindex : (noContent.contents.filter fun c =>
      c.hash = sampleServices.sha256 (ascii "y")).length ≤ 1 := Nat.zero_le 1
  exact ⟨s, hrun, committed_of h₁, committed_of h₂,
    (one_content samplePostgres_lawful hsame hindex hrun).2.1 ⟨1, committed_of h₁⟩⟩

end SolarDrive.Runs
