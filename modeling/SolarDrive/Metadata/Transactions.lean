import SolarDrive.Lib.Machine
import SolarDrive.Lib.ReadCommitted
import SolarDrive.Metadata.Inversion

/-!
# Insertions side by side

`FileDao::insert` statement by statement, under read committed: transactions of
which each is at some statement, and the versions of rows they have written. An
`INSERT` waits for the transaction whose index entry is in its way.

`fileInsert` is what becomes of one transaction while no other is under way
(`statements_alone`).
-/

namespace SolarDrive.Metadata

open Lib Api ReadCommitted

/-- A call of `FileDao::insert`, the ids for its rows, and the clock at its start. -/
structure Insertion where
  file : FileRecord
  contentUuid : Uuid
  fileUuid : Uuid
  time : Int

/-- `file_to_content`. -/
def Insertion.content (ins : Insertion) : ContentRecord :=
  { hash := ins.file.hash, size := ins.file.size, chunkHashes := ins.file.chunkHashes
    mimeType := ins.file.mimeType }

/-- Where a transaction is: the statement to come, or how it has ended. -/
inductive Phase where
  | select
  | insert
  | reselect
  | files (contentId : Bytes)
  | commit (id : Bytes)
  | committed (id : Bytes)
  | failed (e : Exn)
  | aborted
deriving DecidableEq

def Phase.status : Phase → Status
  | .committed _ => .committed
  | .failed _ | .aborted => .aborted
  | _ => .active

/-- The two tables the transactions write to. -/
structure Tables (ι : Type) where
  contents : Table ι ContentRow
  files : Table ι FileRow
  phase : ι → Phase

variable {ι : Type}

def Tables.status (s : Tables ι) (i : ι) : Status := (s.phase i).status

/-- What a statement does: the transaction goes on, with new rows. -/
structure Effect where
  next : Phase
  contents : List ContentRow := []
  files : List FileRow := []

section Step

variable [DecidableEq ι] (pg : Postgres) (txns : ι → Insertion) (w : World)

/-- The database as a statement of `i` sees it. -/
def Tables.view (s : Tables ι) (i : ι) : World :=
  { w with
    contents := s.contents.visible s.status i
    files := s.files.visible s.status i
    time := (txns i).time }

/-- A statement that throws ends its transaction. -/
def Tables.apply (s : Tables ι) (i : ι) (result : Except Exn Effect) : Tables ι :=
  match result with
  | .ok effect =>
      { contents := s.contents ++ effect.contents.map fun row => ⟨some i, row⟩
        files := s.files ++ effect.files.map fun row => ⟨some i, row⟩
        phase := Function.update s.phase i effect.next }
  | .error e => { s with phase := Function.update s.phase i (.failed e) }

/-- `SELECT id::text FROM content_objects WHERE hash = $1`. -/
def selectContent (content : ContentRecord) (view : World) : Except Exn (Option Bytes) := do
  let hash ← pg.textParam content.hash
  return (view.contents.find? (·.hash = hash)).map (·.id.text)

def unresolved : Exn :=
  { kind := .std, what := ascii "failed to resolve content object for hash" }

/-- `INSERT INTO content_objects`; none while it waits. -/
def insertContent (s : Tables ι) (i : ι) : Option (Except Exn Effect) :=
  match newContent pg (txns i).content (txns i).contentUuid with
  | .error e => some (.error e)
  | .ok row =>
      match s.contents.probe s.status i fun c => c.hash = row.hash with
      | .taken => some (.ok { next := .reselect })
      | .inFlight => none
      | .free =>
          match s.contents.probe s.status i fun c => c.id = row.id with
          | .taken => some (pg.raise (.uniqueViolation "content_objects_pkey"))
          | .inFlight => none
          | .free => some (.ok { next := .files row.id.text, contents := [row] })

/-- The key of a file in `idx_files_owner_folder_name`. -/
def fileKey (file : FileRecord) : Except Exn (FileRow → Bool) := do
  let name ← pg.textParam file.name
  let ownerId ← pg.uuidParam file.ownerId
  let folderId ← pg.optionalUuid file.folderId
  return fun f => f.live && f.ownerId = ownerId &&
    f.folderId.getD Uuid.nil = folderId.getD Uuid.nil && f.name = name

/-- The entry of another transaction is in the way of the file. -/
def fileWaits (s : Tables ι) (i : ι) : Bool :=
  match fileKey pg (txns i).file with
  | .error _ => false
  | .ok sameKey =>
      s.files.probe s.status i (fun f => f.id = (txns i).fileUuid) = .inFlight ||
        s.files.probe s.status i sameKey = .inFlight

/-- `INSERT INTO files`; none while it waits. -/
def insertFile (contentId : Bytes) (s : Tables ι) (i : ι) : Option (Except Exn Effect) :=
  if fileWaits pg txns s i then none
  else some do
    let (id, w') ← insertFileRow pg (txns i).file contentId (txns i).fileUuid (s.view txns w i)
    return { next := .commit id, files := w'.files.drop (s.view txns w i).files.length }

inductive TxnEvent (ι : Type) where
  | statement (i : ι)
  | abort (i : ι)

/-- The statement a transaction is at. -/
def statement (s : Tables ι) (i : ι) : Option (Except Exn Effect) :=
  match s.phase i with
  | .select => some do
      requireOwnerId (txns i).file
      match ← selectContent pg (txns i).content (s.view txns w i) with
      | some id => return { next := .files id }
      | none => return { next := .insert }
  | .insert => insertContent pg txns s i
  | .reselect => some do
      match ← selectContent pg (txns i).content (s.view txns w i) with
      | some id => return { next := .files id }
      | none => .error unresolved
  | .files contentId => insertFile pg txns w contentId s i
  | .commit id => some (.ok { next := .committed id })
  | .committed _ | .failed _ | .aborted => none

def txnStep (s : Tables ι) : TxnEvent ι → Option (Tables ι)
  | .statement i => (statement pg txns w s i).map (s.apply i)
  | .abort i =>
      if s.status i = .active then some { s with phase := Function.update s.phase i .aborted }
      else none

/-- Before any of them has begun. -/
def Tables.start : Tables ι :=
  { contents := .ofRows w.contents, files := .ofRows w.files, phase := fun _ => .select }

end Step

/-! ## Errors of the database -/

/-- Whatever goes wrong, it is the database that says so. -/
def DatabaseErrors {α : Type} (x : Except Exn α) : Prop := ∀ e, x = .error e → e.kind = .pqxx

namespace DatabaseErrors

variable {α β : Type} {pg : Postgres}

theorem ok (a : α) : DatabaseErrors (.ok a) := nofun

theorem bind {x : Except Exn α} {f : α → Except Exn β} (hx : DatabaseErrors x)
    (hf : ∀ a, DatabaseErrors (f a)) : DatabaseErrors (x >>= f) := by
  intro e he
  cases x with
  | error e' => exact hx e (congrArg Except.error (Except.error.inj he))
  | ok a => exact hf a e he

theorem raise (e : PgError) : DatabaseErrors (pg.raise (α := α) e) := by
  rintro _ ⟨⟩
  rfl

theorem require (b : Bool) (e : PgError) : DatabaseErrors (pg.require b e) := by
  cases b
  · exact raise e
  · exact ok ()

theorem textParam (t : Bytes) : DatabaseErrors (pg.textParam t) := by
  unfold Postgres.textParam
  split
  · exact ok _
  · exact raise _

theorem uuidParam (t : Bytes) : DatabaseErrors (pg.uuidParam t) :=
  (textParam t).bind fun u => by
    split
    · exact ok _
    · exact raise _

theorem optionalUuid (t : Bytes) : DatabaseErrors (pg.optionalUuid t) := by
  unfold Postgres.optionalUuid
  split
  · exact ok _
  · intro e he
    cases hu : pg.uuidParam t with
    | ok u => rw [hu] at he; cases he
    | error e' =>
        rw [hu] at he
        exact uuidParam t e (hu.trans (congrArg Except.error (Except.error.inj he)))

theorem jsonbParam (t : Bytes) : DatabaseErrors (pg.jsonbParam t) :=
  (textParam t).bind fun u => by
    split
    · exact ok _
    · exact raise _

theorem newContent (content : ContentRecord) (id : Uuid) :
    DatabaseErrors (newContent pg content id) :=
  (textParam _).bind fun _ => (jsonbParam _).bind fun _ => (textParam _).bind fun _ => ok _

theorem insertFileRow (file : FileRecord) (contentId : Bytes) (id : Uuid) (w : World) :
    DatabaseErrors (insertFileRow pg file contentId id w) :=
  (textParam _).bind fun _ => (uuidParam _).bind fun _ => (optionalUuid _).bind fun _ =>
    (uuidParam _).bind fun _ => (require _ _).bind fun _ => (require _ _).bind fun _ =>
    (require _ _).bind fun _ => (require _ _).bind fun _ => (require _ _).bind fun _ => ok _

end DatabaseErrors

section Inversion

variable [DecidableEq ι] {pg : Postgres} {txns : ι → Insertion} {w : World} {s s' : Tables ι} {i : ι}

/-- What a statement does that does not throw. -/
inductive Done (pg : Postgres) (txns : ι → Insertion) (s : Tables ι) (i : ι) : Effect → Prop
  | found {c : ContentRow} : s.phase i = .select ∨ s.phase i = .reselect →
      c ∈ s.contents.visible s.status i → c.hash = cstr (txns i).file.hash →
      Done pg txns s i { next := .files c.id.text }
  | absent : s.phase i = .select → Done pg txns s i { next := .insert }
  | taken {c : ContentRow} : s.phase i = .insert → c ∈ s.contents.visible s.status i →
      c.hash = cstr (txns i).file.hash → Done pg txns s i { next := .reselect }
  | inserted {row : ContentRow} : s.phase i = .insert → row.hash = cstr (txns i).file.hash →
      s.contents.probe s.status i (fun c => c.hash = row.hash) = .free →
      Done pg txns s i { next := .files row.id.text, contents := [row] }
  | file {contentId : Bytes} {row : FileRow} : s.phase i = .files contentId →
      pg.uuidParam contentId = .ok row.contentId → row.live = true →
      Done pg txns s i { next := .commit row.id.text, files := [row] }
  | commit {id : Bytes} : s.phase i = .commit id → Done pg txns s i { next := .committed id }

theorem selectContent_ok {content : ContentRecord} {view : World} {found : Option Bytes} :
    selectContent pg content view = .ok found →
      match found with
      | some id => ∃ c ∈ view.contents, c.hash = cstr content.hash ∧ id = c.id.text
      | none => ∀ c ∈ view.contents, c.hash ≠ cstr content.hash := by
  intro h
  simp only [selectContent, bind_eq_ok] at h
  obtain ⟨hash, hparam, hret⟩ := h
  obtain ⟨-, rfl⟩ := textParam_ok.mp hparam
  cases hret
  cases hfind : view.contents.find? fun c => decide (c.hash = cstr content.hash) with
  | none =>
      intro c hc heq
      exact List.find?_eq_none.mp hfind c hc (decide_eq_true heq)
  | some c =>
      exact ⟨c, List.mem_of_find?_eq_some hfind, of_decide_eq_true (List.find?_some hfind :), rfl⟩

theorem insertContent_ok {effect : Effect} (hphase : s.phase i = .insert)
    (h : insertContent pg txns s i = some (.ok effect)) : Done pg txns s i effect := by
  unfold insertContent at h
  cases hnew : newContent pg (txns i).content (txns i).contentUuid with
  | error e => rw [hnew] at h; cases h
  | ok row =>
      have hhash : row.hash = cstr (txns i).file.hash := by
        simp only [newContent, bind_eq_ok] at hnew
        obtain ⟨hash, hparam, _, -, _, -, hrow⟩ := hnew
        cases hrow
        exact (textParam_ok.mp hparam).2
      rw [hnew] at h
      dsimp only at h
      split at h
      · rename_i htaken
        cases h
        obtain ⟨c, hc, hkey⟩ := Table.probe_taken htaken
        exact .taken hphase hc ((of_decide_eq_true hkey).trans hhash)
      · cases h
      · rename_i hfree
        split at h
        · cases h
        · cases h
        · cases h
          exact .inserted hphase hhash hfree

theorem insertFile_ok {contentId : Bytes} {effect : Effect} (hphase : s.phase i = .files contentId)
    (h : insertFile pg txns w contentId s i = some (.ok effect)) : Done pg txns s i effect := by
  unfold insertFile at h
  split at h
  · cases h
  · simp only [Option.some.injEq, bind_eq_ok] at h
    obtain ⟨⟨id, w'⟩, hins, hret⟩ := h
    obtain ⟨row, hrow, -, rfl, rfl⟩ := insertFileRow_ok hins
    cases hret
    rw [List.drop_left]
    exact .file hphase hrow.contentId hrow.live

theorem statement_ok {effect : Effect} (h : statement pg txns w s i = some (.ok effect)) :
    Done pg txns s i effect := by
  unfold statement at h
  split at h
  · rename_i hphase
    simp only [Option.some.injEq, bind_eq_ok] at h
    obtain ⟨_, -, found, hselect, hrest⟩ := h
    have hfound := selectContent_ok hselect
    cases found with
    | none =>
        cases hrest
        exact .absent hphase
    | some id =>
        cases hrest
        obtain ⟨c, hc, hhash, rfl⟩ := hfound
        exact .found (.inl hphase) hc hhash
  · exact insertContent_ok ‹_› h
  · rename_i hphase
    simp only [Option.some.injEq, bind_eq_ok] at h
    obtain ⟨found, hselect, hrest⟩ := h
    have hfound := selectContent_ok hselect
    cases found with
    | none => cases hrest
    | some id =>
        cases hrest
        obtain ⟨c, hc, hhash, rfl⟩ := hfound
        exact .found (.inr hphase) hc hhash
  · exact insertFile_ok ‹_› h
  · cases h
    exact .commit ‹_›
  · cases h
  · cases h
  · cases h

theorem insertContent_error {e : Exn} (h : insertContent pg txns s i = some (.error e)) :
    e.kind = .pqxx := by
  unfold insertContent at h
  cases hnew : newContent pg (txns i).content (txns i).contentUuid with
  | error e' =>
      rw [hnew] at h
      cases h
      exact DatabaseErrors.newContent _ _ e hnew
  | ok row =>
      rw [hnew] at h
      dsimp only at h
      split at h
      · cases h
      · cases h
      · split at h
        · exact DatabaseErrors.raise _ e (Option.some.inj h)
        · cases h
        · cases h

theorem insertFile_error {contentId : Bytes} {e : Exn}
    (h : insertFile pg txns w contentId s i = some (.error e)) : e.kind = .pqxx := by
  unfold insertFile at h
  split at h
  · cases h
  · exact (DatabaseErrors.insertFileRow _ _ _ _).bind (fun _ => .ok _) e (Option.some.inj h)

/-- The second look finds the row that is there. -/
theorem selectContent_mem {content : ContentRecord} {view : World} {c : ContentRow}
    (hc : c ∈ view.contents) (hhash : c.hash = cstr content.hash) :
    selectContent pg content view ≠ .ok none := fun h =>
  selectContent_ok h c hc hhash

/-- A statement that throws tells of the database, of a file without an owner, or of content
that is not found the second time. -/
theorem statement_error {e : Exn} (h : statement pg txns w s i = some (.error e)) :
    e.kind = .pqxx ∨ e = { kind := .std, what := ascii "owner_id is required" } ∨
      s.phase i = .reselect ∧ selectContent pg (txns i).content (s.view txns w i) = .ok none := by
  have hselect : ∀ e, selectContent pg (txns i).content (s.view txns w i) = .error e →
      e.kind = .pqxx :=
    (DatabaseErrors.textParam _).bind fun _ => .ok _
  unfold statement at h
  split at h
  · have hrest := Option.some.inj h
    unfold requireOwnerId at hrest
    split at hrest
    · exact .inr (.inl (Except.error.inj hrest).symm)
    · cases hfound : selectContent pg (txns i).content (s.view txns w i) with
      | error e' =>
          rw [hfound] at hrest
          cases hrest
          exact .inl (hselect e hfound)
      | ok found =>
          rw [hfound] at hrest
          cases found <;> cases hrest
  · exact .inl (insertContent_error h)
  · rename_i hphase
    have hrest := Option.some.inj h
    cases hfound : selectContent pg (txns i).content (s.view txns w i) with
    | error e' =>
        rw [hfound] at hrest
        cases hrest
        exact .inl (hselect e hfound)
    | ok found =>
        cases found with
        | some id => rw [hfound] at hrest; cases hrest
        | none => exact .inr (.inr ⟨hphase, rfl⟩)
  · exact .inl (insertFile_error h)
  all_goals cases h

/-- Only a transaction that is not over has a statement to come. -/
theorem statement_active {result : Except Exn Effect} (h : statement pg txns w s i = some result) :
    s.status i = .active := by
  unfold statement at h
  unfold Tables.status
  split at h <;> first | rw [‹s.phase i = _›]; rfl | cases h

end Inversion

/-! ## One transaction alone -/

section Alone

variable [DecidableEq ι] {pg : Postgres} {txns : ι → Insertion} {w : World} {s s' : Tables ι} {i : ι}

/-- No other transaction is under way. -/
def Alone (s : Tables ι) (i : ι) : Prop := ∀ j, j ≠ i → s.status j ≠ .active

theorem Alone.probe {R : Type} (h : Alone s i) (t : Table ι R) (p : R → Bool) :
    t.probe s.status i p = if (t.visible s.status i).any p then .taken else .free := by
  cases hprobe : t.probe s.status i p with
  | inFlight =>
      obtain ⟨v, -, j, -, hj, hactive, -⟩ := Table.probe_inFlight hprobe
      exact absurd hactive (h j hj)
  | taken =>
      obtain ⟨r, hr, hp⟩ := Table.probe_taken hprobe
      rw [if_pos (List.any_eq_true.mpr ⟨r, hr, hp⟩)]
  | free =>
      rw [if_neg]
      unfold Table.probe at hprobe
      split at hprobe
      · cases hprobe
      · assumption

theorem Alone.not_waits (h : Alone s i) : fileWaits pg txns s i = false := by
  unfold fileWaits
  split
  · rfl
  · rw [h.probe, h.probe]
    split <;> split <;> rfl

/-- A statement of an active transaction to its next one, as it sees it. -/
structure Goes (pg : Postgres) (txns : ι → Insertion) (w : World) (s : Tables ι) (i : ι) (p : Phase)
    (view : World) : Prop where
  phase : s.phase i = p
  alone : Alone s i
  view : s.view txns w i = view

/-- What another statement comes to. -/
theorem Goes.apply {p : Phase} {view : World} (h : Goes pg txns w s i p view) (effect : Effect)
    (hactive : p.status = .active) (hnext : effect.next.status = .active) :
    Goes pg txns w (s.apply i (.ok effect)) i effect.next
      { view with
        contents := view.contents ++ effect.contents
        files := view.files ++ effect.files } := by
  have hstatus : Tables.status (s.apply i (.ok effect)) = s.status := by
    funext k
    show (Function.update s.phase i effect.next k).status = (s.phase k).status
    by_cases hk : k = i
    · subst hk
      rw [Function.update_self, h.phase, hactive, hnext]
    · rw [Function.update_of_ne hk]
  have hrows : ∀ {R : Type} (t : Table ι R) (rows : List R),
      Table.visible s.status i (t ++ rows.map fun row => ⟨some i, row⟩) =
        t.visible s.status i ++ rows := by
    intro R t rows
    have hmine : (rows.map fun row => (⟨some i, row⟩ : Version ι R)).filter (Version.seen s.status i) =
        rows.map fun row => ⟨some i, row⟩ := by
      refine List.filter_eq_self.mpr fun v hv => ?_
      obtain ⟨row, -, rfl⟩ := List.mem_map.mp hv
      simp [Version.seen]
    rw [Table.visible, Table.visible, List.filter_append, List.map_append, hmine, List.map_map]
    exact congrArg _ (List.map_id _)
  refine ⟨Function.update_self .., fun j hj => ?_, ?_⟩
  · rw [hstatus]
    exact h.alone j hj
  · rw [← h.view]
    unfold Tables.view
    rw [hstatus]
    exact congrArg₂ (fun contents files => ({ w with
      contents, files, time := (txns i).time } : World)) (hrows _ _) (hrows _ _)

/-- The statements of `i`, one after the other, come to this result. -/
def EndsIn (pg : Postgres) (txns : ι → Insertion) (w : World) (s : Tables ι) (i : ι)
    (result : Except Exn (Bytes × World)) : Prop :=
  ∃ n s', Machine.exec (txnStep pg txns w) (fun _ _ => true)
      (List.replicate n (TxnEvent.statement i)) s = some s' ∧
    match result with
    | .ok (id, w') => s'.phase i = .commit id ∧ s'.view txns w i = w'
    | .error e => s'.phase i = .failed e

theorem EndsIn.step {result : Except Exn (Bytes × World)} {now : Except Exn Effect}
    (h : statement pg txns w s i = some now) (hrest : EndsIn pg txns w (s.apply i now) i result) :
    EndsIn pg txns w s i result := by
  obtain ⟨n, s', hexec, hresult⟩ := hrest
  refine ⟨n + 1, s', ?_, hresult⟩
  rw [List.replicate_succ, Machine.exec, if_pos rfl, txnStep, h]
  exact hexec

theorem EndsIn.error {e : Exn} (h : statement pg txns w s i = some (.error e)) :
    EndsIn pg txns w s i (.error e) :=
  EndsIn.step h ⟨0, _, rfl, Function.update_self ..⟩

theorem Goes.ends_files {contentId : Bytes} {view : World}
    (h : Goes pg txns w s i (.files contentId) view) :
    EndsIn pg txns w s i (insertFileRow pg (txns i).file contentId (txns i).fileUuid view) := by
  have hstmt : statement pg txns w s i = some do
      let (id, w') ← insertFileRow pg (txns i).file contentId (txns i).fileUuid view
      return { next := .commit id, files := w'.files.drop view.files.length } := by
    rw [statement, h.phase]
    show insertFile pg txns w contentId s i = _
    rw [insertFile, h.alone.not_waits, h.view]
    rfl
  cases hins : insertFileRow pg (txns i).file contentId (txns i).fileUuid view with
  | error e =>
      rw [hins] at hstmt
      exact .error hstmt
  | ok p =>
      obtain ⟨id, w'⟩ := p
      obtain ⟨row, -, -, rfl, rfl⟩ := insertFileRow_ok hins
      rw [hins] at hstmt
      have hnext : statement pg txns w s i =
          some (.ok { next := .commit row.id.text, files := [row] }) :=
        hstmt.trans (by simp only [bind, Except.bind, pure, Except.pure, List.drop_left])
      obtain ⟨hphase, -, hview⟩ := h.apply { next := .commit row.id.text, files := [row] } rfl rfl
      refine .step hnext ⟨0, _, rfl, hphase, hview.trans ?_⟩
      rw [List.append_nil]

/-- The insertion with the indexes as its transaction sees them. -/
theorem Goes.insertContent {view : World} (h : Goes pg txns w s i .insert view) {row : ContentRow}
    (hrow : newContent pg (txns i).content (txns i).contentUuid = .ok row)
    (hfree : ∀ c ∈ view.contents, c.hash ≠ row.hash) :
    statement pg txns w s i = some do
      pg.require (view.findContent row.id).isNone (.uniqueViolation "content_objects_pkey")
      return { next := .files row.id.text, contents := [row] } := by
  have hvisible : s.contents.visible s.status i = view.contents := congrArg World.contents h.view
  have hhash : (view.contents.any fun c => c.hash = row.hash) = false :=
    List.any_eq_false.mpr fun c hc heq => hfree c hc (of_decide_eq_true heq)
  rw [statement, h.phase]
  show Metadata.insertContent pg txns s i = _
  rw [Metadata.insertContent, hrow]
  dsimp only
  rw [h.alone.probe, hvisible, hhash, if_neg Bool.false_ne_true]
  dsimp only
  rw [h.alone.probe, hvisible]
  by_cases hid : (view.contents.any fun c => c.id = row.id) = true
  · have hsome : (view.findContent row.id).isNone = false := by
      obtain ⟨c, hc, heq⟩ := List.any_eq_true.mp hid
      rw [World.findContent, Option.isNone_eq_false_iff, List.find?_isSome]
      exact ⟨c, hc, heq⟩
    rw [if_pos hid, hsome]
    rfl
  · have hnone : (view.findContent row.id).isNone = true := by
      rw [World.findContent, Option.isNone_iff_eq_none, List.find?_eq_none]
      exact fun c hc heq => hid (List.any_eq_true.mpr ⟨c, hc, heq⟩)
    rw [if_neg hid, hnone]
    rfl

/-- **A transaction that is alone does what `fileInsert` does in one step.** -/
theorem Goes.fileInsert {view : World} (h : Goes pg txns w s i .select view) :
    EndsIn pg txns w s i
      (fileInsert pg (txns i).file (txns i).contentUuid (txns i).fileUuid view) := by
  have hstmt : statement pg txns w s i = some do
      requireOwnerId (txns i).file
      match ← selectContent pg (txns i).content view with
      | some id => return { next := .files id }
      | none => return { next := .insert } := by
    rw [statement, h.phase, h.view]
  have hnext : ∀ p : Phase, p.status = .active → Goes pg txns w (s.apply i (.ok { next := p })) i p view := by
    intro p hp
    have hgoes := h.apply { next := p } rfl hp
    rwa [List.append_nil, List.append_nil] at hgoes
  have hwhole : Metadata.fileInsert pg (txns i).file (txns i).contentUuid (txns i).fileUuid view = (do
      requireOwnerId (txns i).file
      let (contentId, w) ← ensureInTxn pg (txns i).content (txns i).contentUuid view
      insertFileRow pg (txns i).file contentId (txns i).fileUuid w) := rfl
  rw [hwhole]
  unfold ensureInTxn
  unfold selectContent at hstmt
  -- each error of the one step is the error of the statement that meets it
  cases howner : requireOwnerId (txns i).file with
  | error e =>
      rw [howner] at hstmt
      exact .error hstmt
  | ok u =>
  cases hhash : pg.textParam (txns i).content.hash with
  | error e =>
      rw [howner, hhash] at hstmt
      exact .error hstmt
  | ok hash =>
  rw [howner, hhash] at hstmt
  cases hfind : view.contents.find? fun c => decide (c.hash = hash) with
  | some c =>
      have hselect : statement pg txns w s i = some (.ok { next := .files c.id.text }) :=
        hstmt.trans (by simp only [hfind, bind, Except.bind, pure, Except.pure, Option.map])
      have hfiles := EndsIn.step hselect (hnext (.files c.id.text) rfl).ends_files
      simp only [bind, Except.bind, pure, Except.pure, hfind]
      exact hfiles
  | none =>
      have hselect : statement pg txns w s i = some (.ok { next := .insert }) :=
        hstmt.trans (by simp only [hfind, bind, Except.bind, pure, Except.pure, Option.map])
      have hinsert := hnext .insert rfl
      refine .step hselect ?_
      simp only [bind, Except.bind, pure, Except.pure, hfind]
      cases hnew : newContent pg (txns i).content (txns i).contentUuid with
      | error e =>
          have hins : statement pg txns w (s.apply i (.ok { next := .insert })) i =
              some (.error e) := by
            rw [statement, hinsert.phase]
            show Metadata.insertContent pg txns (s.apply i (.ok { next := .insert })) i = _
            rw [Metadata.insertContent, hnew]
          exact .error hins
      | ok row =>
          have hrow : row.hash = hash := by
            simp only [newContent, bind_eq_ok] at hnew
            obtain ⟨hash', hparam, _, -, _, -, hret⟩ := hnew
            cases hret
            exact Except.ok.inj (hparam.symm.trans hhash)
          -- nobody else writes, so the hash that was not found is still free
          have hfree : ∀ c ∈ view.contents, c.hash ≠ row.hash := fun c hc heq =>
            List.find?_eq_none.mp hfind c hc (decide_eq_true (heq.trans hrow))
          have hid : row.id = (txns i).contentUuid := by
            simp only [newContent, bind_eq_ok] at hnew
            obtain ⟨_, -, _, -, _, -, hret⟩ := hnew
            cases hret
            rfl
          have hins := hinsert.insertContent hnew hfree
          rw [hid] at hins
          dsimp only
          cases hkey : pg.require (view.findContent (txns i).contentUuid).isNone
            (.uniqueViolation "content_objects_pkey") with
          | error e =>
              rw [hkey] at hins
              exact .error hins
          | ok u =>
              rw [hkey] at hins
              have hgoes := hinsert.apply
                { next := .files (txns i).contentUuid.text, contents := [row] } rfl rfl
              rw [List.append_nil] at hgoes
              exact .step hins hgoes.ends_files

end Alone

end SolarDrive.Metadata
