import SolarDrive.Metadata.Purge

/-!
# A collection with purges that fail

`collect_orphans` purges the orphans of one batch in turn, whatever the batch is
and whatever fails in each purge. What the batch comes to when every purge in it
is tried is in `attempts`; the loop tries them up to the first that throws.
-/

namespace SolarDrive.Metadata

open Lib Api

/-- A collection in progress; `faults 0` is for the next purge. -/
structure Collection where
  world : World
  /-- What `list_orphans` returns. -/
  batch : List ContentRecord
  faults : Nat → PurgeFaults

def execGc (svc : Services) (pg : Postgres) (c : Call) (s : Collection) :
    Except Exn c.Resp × Collection :=
  match c with
  | .listOrphans _ => (.ok s.batch, s)
  | .purgeContent content =>
      let purge := purgeContentUnder svc pg (s.faults 0) content s.world
      (purge.result, { s with world := purge.world, faults := fun n => s.faults (n + 1) })
  | c => ((exec svc pg c s.world).1, { s with world := (exec svc pg c s.world).2 })

def PurgeEnd.stats (purge : PurgeEnd) : GcStats :=
  match purge.result with
  | .ok one => one
  | .error _ => {}

/-- Each purge of the batch, tried in what the one before has left. -/
def attempts (svc : Services) (pg : Postgres) :
    List ContentRecord → (Nat → PurgeFaults) → World → List PurgeEnd
  | [], _, _ => []
  | content :: batch, faults, w =>
      let purge := purgeContentUnder svc pg (faults 0) content w
      purge :: attempts svc pg batch (fun n => faults (n + 1)) purge.world

def totalStats : List PurgeEnd → GcStats
  | [] => {}
  | purge :: purges => purge.stats.add (totalStats purges)

section Throwing

variable (svc : Services) (pg : Postgres)

/-- A query or a statement that the purge gets to fails, or it gets to an object that
cannot be removed, or to a commit that fails. -/
def PurgeThrows (faults : PurgeFaults) (content : ContentRecord) (w : World) : Prop :=
  faults.refcount ≠ none ∨ (∀ id, pg.uuidParam content.id ≠ .ok id) ∨
  ∃ id hashes, pg.uuidParam content.id = .ok id ∧ w.fileLives id = false ∧
    parseChunkHashes svc.json content.chunkHashes = some hashes ∧
    (faults.deletes ≠ none ∨ (w.findContent id).isSome = true ∧
      ((∃ i hash, hashes[i]? = some hash ∧
          ChunkFails pg (withoutContent id w).contents (faults.chunk i) hash) ∨
        faults.commit ≠ none))

/-- No purge of the batch throws where the purges before have left the world. -/
def NoneThrows : List ContentRecord → (Nat → PurgeFaults) → World → Prop
  | [], _, _ => True
  | content :: batch, faults, w =>
      ¬ PurgeThrows svc pg (faults 0) content w ∧
        NoneThrows batch (fun n => faults (n + 1)) (purgeContentUnder svc pg (faults 0) content w).world

variable {svc pg} {faults : PurgeFaults} {content : ContentRecord} {w : World}

theorem sweep_throws_iff {contents : List ContentRow} {hashes : List Bytes}
    {faults : Nat → ChunkFault} {store : Bytes → Option Bytes} {n : Nat} :
    (∃ e, (sweep pg contents hashes faults store n).1 = .error e) ↔
      ∃ i hash, hashes[i]? = some hash ∧ ChunkFails pg contents (faults i) hash := by
  have hok := @sweep_ok_iff pg contents hashes faults store n
  constructor
  · rintro ⟨e, he⟩
    by_contra hnot
    push Not at hnot
    obtain ⟨m, hm⟩ := hok.mpr hnot
    rw [he] at hm
    cases hm
  · rintro ⟨i, hash, hget, hfails⟩
    cases hr : (sweep pg contents hashes faults store n).1 with
    | error e => exact ⟨e, rfl⟩
    | ok m => exact absurd hfails (hok.mp ⟨m, hr⟩ i hash hget)

/-- The purge from its refcount on. -/
theorem purge_throws_iff_of_id {id : Uuid} (hcount : faults.refcount = none)
    (hid : pg.uuidParam content.id = .ok id) :
    (∃ e, (purgeContentUnder svc pg faults content w).result = .error e) ↔
      ∃ hashes, w.fileLives id = false ∧
        parseChunkHashes svc.json content.chunkHashes = some hashes ∧
        (faults.deletes ≠ none ∨ (w.findContent id).isSome = true ∧
          ((∃ i hash, hashes[i]? = some hash ∧
              ChunkFails pg (withoutContent id w).contents (faults.chunk i) hash) ∨
            faults.commit ≠ none)) := by
  unfold purgeContentUnder
  rw [hcount, hid]
  dsimp only
  cases hlive : w.fileLives id with
  | true => simp
  | false =>
  cases hparse : parseChunkHashes svc.json content.chunkHashes with
  | none => simp
  | some hashes =>
  cases hdeletes : faults.deletes with
  | some e => simp
  | none =>
  cases hrow : w.findContent id with
  | none => simp
  | some row =>
      have hthrows := @sweep_throws_iff pg (withoutContent id w).contents hashes faults.chunk w.store 0
      simp only [Option.some.injEq, exists_eq_left', true_and, ne_eq, not_true, false_or,
        Option.isSome_some, Option.isNone_some, Bool.false_eq_true, if_false, ← hthrows]
      rcases sweep pg (withoutContent id w).contents hashes faults.chunk w.store 0 with ⟨r, store⟩
      cases r with
      | error e => exact ⟨fun _ => .inl ⟨e, rfl⟩, fun _ => ⟨e, rfl⟩⟩
      | ok m =>
          cases faults.commit with
          | none => simp
          | some e => exact ⟨fun _ => .inr nofun, fun _ => ⟨e, rfl⟩⟩

theorem purge_throws_iff : (∃ e, (purgeContentUnder svc pg faults content w).result = .error e) ↔
    PurgeThrows svc pg faults content w := by
  cases hcount : faults.refcount with
  | some e =>
      refine ⟨fun _ => .inl (by rw [hcount]; nofun), fun _ => ⟨e, ?_⟩⟩
      unfold purgeContentUnder
      rw [hcount]
  | none =>
  cases hid : pg.uuidParam content.id with
  | error e =>
      refine ⟨fun _ => .inr (.inl fun id => by rw [hid]; nofun), fun _ => ⟨e, ?_⟩⟩
      unfold purgeContentUnder
      rw [hcount, hid]
  | ok id =>
      rw [purge_throws_iff_of_id hcount hid]
      constructor
      · rintro ⟨hashes, hthrows⟩
        exact .inr (.inr ⟨id, hashes, hid, hthrows⟩)
      · rintro (h | h | ⟨id', hashes, hsame, hthrows⟩)
        · exact absurd hcount h
        · exact absurd hid (h id)
        · obtain rfl : id = id' := Except.ok.inj (hid.symm.trans hsame)
          exact ⟨hashes, hthrows⟩

/-- The rows are those of before, or those without the content that was asked for. -/
theorem purge_rows : ((purgeContentUnder svc pg faults content w).committed = false ∧
      (purgeContentUnder svc pg faults content w).world.contents = w.contents) ∨
    ∃ id, pg.uuidParam content.id = .ok id ∧ w.fileLives id = false ∧
      (purgeContentUnder svc pg faults content w).committed = true ∧
      (purgeContentUnder svc pg faults content w).world.contents =
        (withoutContent id w).contents := by
  unfold purgeContentUnder
  cases faults.refcount with
  | some e => exact .inl ⟨rfl, rfl⟩
  | none =>
  cases hid : pg.uuidParam content.id with
  | error e => exact .inl ⟨rfl, rfl⟩
  | ok id =>
  dsimp only
  cases hlive : w.fileLives id with
  | true => exact .inl ⟨rfl, rfl⟩
  | false =>
  cases parseChunkHashes svc.json content.chunkHashes with
  | none => exact .inl ⟨rfl, rfl⟩
  | some hashes =>
  cases faults.deletes with
  | some e => exact .inl ⟨rfl, rfl⟩
  | none =>
  cases w.findContent id with
  | none => exact .inl ⟨rfl, rfl⟩
  | some row =>
      dsimp only [Option.isNone_some, Bool.false_eq_true, if_false]
      rcases sweep pg (withoutContent id w).contents hashes faults.chunk w.store 0 with ⟨r, store⟩
      cases r with
      | error e => exact .inl ⟨rfl, rfl⟩
      | ok m =>
          cases faults.commit with
          | some e => exact .inl ⟨rfl, rfl⟩
          | none => exact .inr ⟨id, rfl, hlive, rfl, rfl⟩

/-- A purge adds no content. -/
theorem purge_keeps_gone {id : Uuid} (hgone : w.findContent id = none) :
    (purgeContentUnder svc pg faults content w).world.findContent id = none := by
  unfold World.findContent at hgone ⊢
  rcases @purge_rows svc pg faults content w with ⟨-, hrows⟩ | ⟨id', -, -, -, hrows⟩
  · rwa [hrows]
  · rw [hrows, List.find?_eq_none]
    intro c hc
    exact List.find?_eq_none.mp hgone c (List.mem_of_mem_filter hc)

theorem purge_gone {id : Uuid} (hid : pg.uuidParam content.id = .ok id)
    (hcommitted : (purgeContentUnder svc pg faults content w).committed = true) :
    (purgeContentUnder svc pg faults content w).world.findContent id = none := by
  rcases @purge_rows svc pg faults content w with ⟨hnot, -⟩ | ⟨id', hid', hdead, -, hrows⟩
  · rw [hnot] at hcommitted
    cases hcommitted
  · obtain rfl : id = id' := Except.ok.inj (hid.symm.trans hid')
    unfold World.findContent
    rw [hrows, List.find?_eq_none]
    intro c hc heq
    have hkept := (List.mem_filter.mp hc).2
    simp [of_decide_eq_true heq, hdead] at hkept

end Throwing

/-! ## The batch -/

section Batch

variable {svc : Services} {pg : Postgres} {batch orphans : List ContentRecord}
  {faults : Nat → PurgeFaults} {w : World}

/-- What `collect_orphans` is to do with a batch: it returns, every purge that commits has
been made, and the sums are over the purges that end well. -/
structure Collected (svc : Services) (pg : Postgres) (batch : List ContentRecord)
    (faults : Nat → PurgeFaults) (w : World) (r : Except Exn GcStats × Collection) : Prop where
  stats : r.1 = .ok (totalStats (attempts svc pg batch faults w))
  purged : ∀ (i : Nat) (content : ContentRecord) (purge : PurgeEnd), batch[i]? = some content →
    (attempts svc pg batch faults w)[i]? = some purge → purge.committed = true →
    ∀ id, pg.uuidParam content.id = .ok id → r.2.world.findContent id = none

/-- One turn of the loop. -/
theorem run_purgeAll_cons (content : ContentRecord) :
    (purgeAll (content :: orphans)).run (execGc svc pg) ⟨w, batch, faults⟩ =
      let purge := purgeContentUnder svc pg (faults 0) content w
      match purge.result with
      | .error e => (.error e, ⟨purge.world, batch, fun n => faults (n + 1)⟩)
      | .ok one =>
          match (purgeAll orphans).run (execGc svc pg)
              ⟨purge.world, batch, fun n => faults (n + 1)⟩ with
          | (.ok rest, s) => (.ok (one.add rest), s)
          | (.error e, s) => (.error e, s) := by
  rw [purgeAll]
  show ((Prog.request _ : App _) >>= _).run _ _ = _
  rw [Prog.run_request_bind]
  dsimp only [execGc]
  cases (purgeContentUnder svc pg (faults 0) content w).result with
  | error e => rfl
  | ok one =>
      dsimp only
      rw [Prog.run_bind]
      rcases (purgeAll orphans).run (execGc svc pg)
        ⟨(purgeContentUnder svc pg (faults 0) content w).world, batch, fun n => faults (n + 1)⟩
        with ⟨r, s⟩
      cases r <;> rfl

/-- Where nothing fails, the loop is that of the other modules. -/
theorem purgeAll_faultless : ∀ (orphans : List ContentRecord) (w : World),
    (((purgeAll orphans).run (execGc svc pg) ⟨w, batch, fun _ => {}⟩).1,
      ((purgeAll orphans).run (execGc svc pg) ⟨w, batch, fun _ => {}⟩).2.world) =
      (purgeAll orphans).run (exec svc pg) w
  | [], _ => rfl
  | content :: orphans, w => by
      have hexec : exec svc pg (.purgeContent content) w =
          ((purgeContentUnder svc pg {} content w).result,
            (purgeContentUnder svc pg {} content w).world) :=
        (purgeContentUnder_faultless svc content w).symm
      rw [run_purgeAll_cons, purgeAll]
      show _ = ((Prog.request _ : App _) >>= _).run _ _
      rw [Prog.run_request_bind, hexec]
      dsimp only
      cases (purgeContentUnder svc pg {} content w).result with
      | error e => rfl
      | ok one =>
          dsimp only
          rw [Prog.run_bind, ← purgeAll_faultless orphans]
          rcases (purgeAll orphans).run (execGc svc pg)
            ⟨(purgeContentUnder svc pg {} content w).world, batch, fun _ => {}⟩ with ⟨r, s⟩
          cases r <;> rfl

theorem run_keeps_gone {id : Uuid} : ∀ (orphans : List ContentRecord) (faults : Nat → PurgeFaults)
    (w : World), w.findContent id = none →
    ((purgeAll orphans).run (execGc svc pg) ⟨w, batch, faults⟩).2.world.findContent id = none
  | [], _, _, hgone => hgone
  | content :: orphans, faults, w, hgone => by
      have hnext := @purge_keeps_gone svc pg (faults 0) content w id hgone
      have ih := run_keeps_gone orphans (fun n => faults (n + 1)) _ hnext
      rw [run_purgeAll_cons]
      dsimp only
      cases (purgeContentUnder svc pg (faults 0) content w).result with
      | error e => exact hnext
      | ok one =>
          dsimp only
          split
          · rename_i hrun
            rwa [hrun] at ih
          · rename_i hrun
            rwa [hrun] at ih

theorem collected_of_noneThrows : ∀ (orphans : List ContentRecord) (faults : Nat → PurgeFaults)
    (w : World), NoneThrows svc pg orphans faults w →
    Collected svc pg orphans faults w
      ((purgeAll orphans).run (execGc svc pg) ⟨w, batch, faults⟩)
  | [], _, _, _ => ⟨rfl, fun i _ _ h => (by cases h)⟩
  | content :: orphans, faults, w, h => by
      have hreturns : ∃ one, (purgeContentUnder svc pg (faults 0) content w).result = .ok one := by
        cases hr : (purgeContentUnder svc pg (faults 0) content w).result with
        | error e => exact absurd (purge_throws_iff.mp ⟨e, hr⟩) h.1
        | ok one => exact ⟨one, rfl⟩
      obtain ⟨one, hone⟩ := hreturns
      have ih := collected_of_noneThrows orphans (fun n => faults (n + 1)) _ h.2
      have hrun : (purgeAll (content :: orphans)).run (execGc svc pg) ⟨w, batch, faults⟩ =
          (.ok (totalStats (attempts svc pg (content :: orphans) faults w)),
            ((purgeAll orphans).run (execGc svc pg)
              ⟨(purgeContentUnder svc pg (faults 0) content w).world, batch,
                fun n => faults (n + 1)⟩).2) := by
        have hstats := ih.stats
        rw [run_purgeAll_cons]
        dsimp only
        rw [hone]
        dsimp only
        split
        · rename_i rest s hrest
          rw [hrest] at hstats
          rw [hrest, Except.ok.inj hstats]
          simp only [attempts, totalStats, PurgeEnd.stats, hone]
        · rename_i e s hrest
          rw [hrest] at hstats
          cases hstats
      rw [hrun]
      refine ⟨rfl, fun i c purge hget hend hcommitted id hid => ?_⟩
      cases i with
      | zero =>
          cases hget
          cases hend
          exact run_keeps_gone orphans _ _ (purge_gone hid hcommitted)
      | succ i => exact ih.purged i c purge hget hend hcommitted id hid

theorem raises_of_throws : ∀ (orphans : List ContentRecord) (faults : Nat → PurgeFaults)
    (w : World), ¬ NoneThrows svc pg orphans faults w →
    ∃ e, ((purgeAll orphans).run (execGc svc pg) ⟨w, batch, faults⟩).1 = .error e
  | [], _, _, h => absurd trivial h
  | content :: orphans, faults, w, h => by
      rw [run_purgeAll_cons]
      dsimp only
      cases hr : (purgeContentUnder svc pg (faults 0) content w).result with
      | error e => exact ⟨e, rfl⟩
      | ok one =>
          have hnot : ¬ PurgeThrows svc pg (faults 0) content w := by
            intro hthrows
            obtain ⟨e, he⟩ := purge_throws_iff.mpr hthrows
            rw [hr] at he
            cases he
          obtain ⟨e, he⟩ := raises_of_throws orphans (fun n => faults (n + 1)) _ fun hrest => h ⟨hnot, hrest⟩
          dsimp only
          split
          · rename_i hrun
            rw [hrun] at he
            cases he
          · exact ⟨_, rfl⟩

theorem run_collectOrphans (batchLimit : Nat) :
    (collectOrphans batchLimit).run (execGc svc pg) ⟨w, batch, faults⟩ =
      (purgeAll batch).run (execGc svc pg) ⟨w, batch, faults⟩ := by
  unfold collectOrphans
  show ((Prog.request _ : App _) >>= _).run _ _ = _
  rw [Prog.run_request_bind]
  rfl

/-- For every batch and all that can fail in its purges, the collection goes through the
batch if and only if no purge throws: the first that does ends the loop, and the job. -/
theorem collects_iff_none_throws (batchLimit : Nat) :
    Collected svc pg batch faults w
      ((collectOrphans batchLimit).run (execGc svc pg) ⟨w, batch, faults⟩) ↔
    NoneThrows svc pg batch faults w := by
  rw [run_collectOrphans]
  constructor
  · intro hcollected
    by_contra hthrows
    obtain ⟨e, he⟩ := @raises_of_throws svc pg batch batch faults w hthrows
    have hstats := hcollected.stats
    rw [he] at hstats
    cases hstats
  · exact collected_of_noneThrows batch faults w

end Batch

def secondId : Uuid where
  text := ascii "00000000-0000-0000-0000-000000000001"
  isText := by decide

/-- Two contents of one chunk each that no file has. -/
def twoOrphans : World :=
  { twoChunks with
    contents := [
      { id := Uuid.nil, hash := ascii "aabb", size := 4
        chunkHashes := hashArray [ascii "aaaa"], mimeType := [] },
      { id := secondId, hash := ascii "ccdd", size := 4
        chunkHashes := hashArray [ascii "bbbb"], mimeType := [] }] }

/-- The object of the first cannot be removed; the second could be purged, and stays. -/
def firstDenied : Nat → PurgeFaults
  | 0 => { chunk := fun _ =>
      { unlink := some { kind := .std, what := ascii "cannot remove object: aaaa" } } }
  | _ => {}

theorem first_denied_ends_batch : ¬ ∀ (svc : Services) (pg : Postgres) (batch : List ContentRecord)
    (faults : Nat → PurgeFaults) (w : World) (batchLimit : Nat),
    Collected svc pg batch faults w
      ((collectOrphans batchLimit).run (execGc svc pg) ⟨w, batch, faults⟩) := by
  intro h
  let batch := listOrphans samplePostgres twoOrphans 200
  have hcollected := h sampleServices samplePostgres batch firstDenied twoOrphans 200
  have hcommits : ((attempts sampleServices samplePostgres batch firstDenied twoOrphans)[1]?.map
      (·.committed)) = some true := by decide +kernel
  obtain ⟨purge, hpurge, hcommitted⟩ := Option.map_eq_some_iff.mp hcommits
  have hstays : (((collectOrphans 200).run (execGc sampleServices samplePostgres)
      ⟨twoOrphans, batch, firstDenied⟩).2.world.findContent secondId).isSome = true := by
    decide +kernel
  have hgone := hcollected.purged 1 _ purge rfl hpurge hcommitted secondId (by decide +kernel)
  rw [hgone] at hstays
  cases hstays

end SolarDrive.Metadata
