import SolarDrive.Metadata.Purge
import SolarDrive.Runs.Deduplication
import SolarDrive.Runs.ListedObjects
import SolarDrive.Runs.PartObjects

/-!
# What the collector leaves

Content that no live file has is an orphan: a deletion that fails before its
purge leaves one. Runs of the collector, each with its batch, take the orphans
from the first to the last: the rows, the tombstones of their files with the
shares of these, and the objects that no other content lists.
-/

namespace SolarDrive.Runs

open Lib Http Api Metadata Prog

/-! ## Rows and what is left without them -/

section Rows

/-- Content that no live file has. -/
def orphans (w : World) : List ContentRow := w.contents.filter fun c => !w.fileLives c.id

/-- One of the rows has this id. -/
def hasId (rows : List ContentRow) (id : Uuid) : Bool := rows.any fun c => decide (c.id = id)

/-- A deleted file whose content is one of the rows. -/
def tombstoneOf (rows : List ContentRow) (f : FileRow) : Bool := hasId rows f.contentId && !f.live

/-- The world `w'` is `w` without the rows, and without what belongs to them alone. -/
structure Swept (rows : List ContentRow) (w w' : World) : Prop where
  contents : w'.contents = w.contents.filter fun c => !hasId rows c.id
  files : w'.files = w.files.filter fun f => !tombstoneOf rows f
  shares : w'.shares = w.shares.filter fun s =>
    !w.files.any fun f => decide (f.id = s.fileId) && tombstoneOf rows f
  store : ∀ x, w'.store x =
    if chunkHashInUse rows x && !chunkHashInUse w'.contents x then none else w.store x
  rest : { w' with
    contents := w.contents, files := w.files, shares := w.shares, store := w.store } = w

variable {rows rows' : List ContentRow} {w w₁ w' : World}

theorem hasId_append (id : Uuid) : hasId (rows ++ rows') id = (hasId rows id || hasId rows' id) :=
  List.any_append

theorem hasId_iff {id : Uuid} : hasId rows id = true ↔ ∃ c ∈ rows, c.id = id := by
  simp [hasId]

theorem tombstoneOf_append (f : FileRow) :
    tombstoneOf (rows ++ rows') f = (tombstoneOf rows f || tombstoneOf rows' f) := by
  simp only [tombstoneOf, hasId_append, Bool.and_or_distrib_right]

theorem not_hasId_of_nodup (hnodup : ((rows ++ rows').map ContentRow.id).Nodup) {c : ContentRow}
    (hc : c ∈ rows') : hasId rows c.id = false := by
  rw [List.map_append, List.nodup_append] at hnodup
  refine List.any_eq_false.mpr fun d hd heq => ?_
  exact hnodup.2.2 d.id (List.mem_map_of_mem hd) c.id (List.mem_map_of_mem hc) (of_decide_eq_true heq)

/-- A tombstone is of no live file, so a content has a live file after as before. -/
theorem Swept.fileLives (h : Swept rows w w') (id : Uuid) : w'.fileLives id = w.fileLives id := by
  rw [World.fileLives, World.fileLives, h.files, List.any_filter]
  congr 1
  funext f
  cases hlive : f.live with
  | true => simp [tombstoneOf, hlive]
  | false => simp

theorem Swept.mem_contents (h : Swept rows w w') {c : ContentRow} :
    c ∈ w'.contents ↔ c ∈ w.contents ∧ hasId rows c.id = false := by
  rw [h.contents, List.mem_filter, Bool.not_eq_true']

theorem Swept.orphans_eq (h : Swept rows w w') :
    orphans w' = (orphans w).filter fun c => !hasId rows c.id := by
  rw [orphans, orphans, h.contents, List.filter_comm]
  congr 1
  exact List.filter_congr fun c _ => by rw [h.fileLives]

theorem Swept.refl (w : World) : Swept [] w w := by
  refine ⟨?_, ?_, ?_, fun x => rfl, rfl⟩
  · exact (List.filter_true w.contents).symm
  · exact (List.filter_true w.files).symm
  · refine (List.filter_eq_self.mpr fun s _ => ?_).symm
    rw [Bool.not_eq_true', List.any_eq_false]
    intro f _
    simp [tombstoneOf, hasId]

theorem Swept.any_tombstone (h : Swept rows w w₁) (p : FileRow → Bool) :
    (w.files.any fun f => p f && tombstoneOf (rows ++ rows') f) =
      ((w.files.any fun f => p f && tombstoneOf rows f) ||
        w₁.files.any fun f => p f && tombstoneOf rows' f) := by
  rw [h.files, List.any_filter, Bool.eq_iff_iff]
  simp only [List.any_eq_true, Bool.or_eq_true, Bool.and_eq_true, Bool.not_eq_true',
    tombstoneOf_append]
  constructor
  · rintro ⟨f, hf, hp, htomb⟩
    cases hfirst : tombstoneOf rows f with
    | true => exact .inl ⟨f, hf, hp, hfirst⟩
    | false => exact .inr ⟨f, hf, hfirst, hp, htomb.resolve_left (by simp [hfirst])⟩
  · rintro (⟨f, hf, hp, htomb⟩ | ⟨f, hf, -, hp, htomb⟩)
    · exact ⟨f, hf, hp, .inl htomb⟩
    · exact ⟨f, hf, hp, .inr htomb⟩

/-- **Rows taken one after the other are rows taken at once.** An object that the
first rows share with later ones goes with the last of them. -/
theorem Swept.trans (hids : (w.contents.map ContentRow.id).Nodup) (hrows' : ∀ c ∈ rows', c ∈ w.contents)
    (h : Swept rows w w₁) (h' : Swept rows' w₁ w') : Swept (rows ++ rows') w w' := by
  refine ⟨?_, ?_, ?_, fun x => ?_, ?_⟩
  · rw [h'.contents, h.contents, List.filter_filter]
    refine List.filter_congr fun c _ => ?_
    rw [hasId_append, Bool.not_or, Bool.and_comm]
  · rw [h'.files, h.files, List.filter_filter]
    refine List.filter_congr fun f _ => ?_
    rw [tombstoneOf_append, Bool.not_or, Bool.and_comm]
  · rw [h'.shares, h.shares, List.filter_filter]
    refine List.filter_congr fun s _ => ?_
    rw [h.any_tombstone, Bool.not_or, Bool.and_comm]
  · have hused : chunkHashInUse (rows ++ rows') x =
        (chunkHashInUse rows x || chunkHashInUse rows' x) := List.any_append
    rw [h'.store x, h.store x, hused]
    cases hlater : chunkHashInUse w'.contents x with
    | true =>
        -- what is listed at the end was listed in between
        have hbetween : chunkHashInUse w₁.contents x = true := by
          obtain ⟨c, hc, hlists⟩ := List.any_eq_true.mp hlater
          exact List.any_eq_true.mpr ⟨c, (h'.mem_contents.mp hc).1, hlists⟩
        simp [hbetween]
    | false =>
        cases hrows : chunkHashInUse rows' x with
        | true => simp
        | false =>
            -- no row of the second batch lists it, so none listed it in between
            have hbetween : chunkHashInUse w₁.contents x = false := by
              refine List.any_eq_false.mpr fun c hc hlists => ?_
              by_cases hid : hasId rows' c.id = true
              · obtain ⟨d, hd, heq⟩ := hasId_iff.mp hid
                have hsame : d = c :=
                  List.inj_on_of_nodup_map hids (hrows' d hd) (h.mem_contents.mp hc).1 heq
                exact List.any_eq_false.mp hrows d hd (hsame ▸ hlists)
              · have hkept : c ∈ w'.contents :=
                  h'.mem_contents.mpr ⟨hc, Bool.eq_false_iff.mpr hid⟩
                exact List.any_eq_false.mp hlater c hkept hlists
            simp [hbetween]
  · have hlast := h'.rest
    have hfirst := h.rest
    rw [← hlast] at hfirst
    exact hfirst

end Rows

/-! ## One row -/

section Collector

variable {svc : Services} {pg : Postgres} {rows : List ContentRow} {w w' : World}

/-- What the collector is to find in the tables. -/
structure Collectable (svc : Services) (w : World) : Prop where
  ids : (w.contents.map ContentRow.id).Nodup
  digests : ∀ c ∈ w.contents, ListsDigests svc c

theorem Swept.collectable (h : Swept rows w w') (hw : Collectable svc w) : Collectable svc w' := by
  refine ⟨?_, fun c hc => hw.digests c (h.mem_contents.mp hc).1⟩
  rw [h.contents]
  exact hw.ids.sublist (List.filter_sublist.map _)

variable (hpg : pg.Lawful svc.json) (hlen : ∀ d, 2 ≤ (svc.digest d).length)

include hpg hlen in
/-- The purge of an orphan goes through, and takes its row. -/
theorem purge_orphan {c : ContentRow} (hc : c ∈ w.contents) (hdead : w.fileLives c.id = false)
    (hdigests : ListsDigests svc c) : ∃ n w',
      exec svc pg (.purgeContent (contentRecord pg c)) w =
        (.ok { contentRowsDeleted := 1, chunkFilesRemoved := n }, w') ∧ Swept [c] w w' := by
  obtain ⟨data, hdata⟩ := hdigests
  have hid : pg.uuidParam (contentRecord pg c).id = .ok c.id := uuidParam_text hpg c.id
  have hparse : parseChunkHashes svc.json (contentRecord pg c).chunkHashes =
      some (data.map svc.sha256) := by
    show parseChunkHashes svc.json (pg.jsonbOut c.chunkHashes) = _
    rw [hdata, parseChunkHashes_digests svc hpg]
  have hfound : (w.findContent c.id).isNone = false := by
    rw [Option.isNone_eq_false_iff, World.findContent, List.find?_isSome]
    exact ⟨c, hc, decide_eq_true rfl⟩
  have hgood : ∀ hash ∈ data.map svc.sha256, ∃ t, pg.textParam hash = .ok t ∧ 4 ≤ t.length := by
    intro hash hh
    obtain ⟨d, -, rfl⟩ := List.mem_map.mp hh
    exact ⟨_, textParam_sha256 svc d, sha256_length hlen d⟩
  have hstore := @removeChunks_store pg (withoutContent c.id w).contents (data.map svc.sha256)
    w.store 0
  have hgone := fun t => @removeChunks_gone pg (withoutContent c.id w).contents t
    (data.map svc.sha256) w.store 0 hgood
  obtain ⟨m, hm⟩ := @removeChunks_ok pg (withoutContent c.id w).contents (data.map svc.sha256)
    w.store 0 hgood
  rcases hrem : removeChunks pg (withoutContent c.id w).contents (data.map svc.sha256) w.store 0
    with ⟨res, store⟩
  rw [hrem] at hstore hgone hm
  obtain rfl : res = .ok m := hm
  have hone : ∀ id, hasId [c] id = decide (id = c.id) := by
    intro id
    simp [hasId, eq_comm]
  refine ⟨m, { withoutContent c.id w with store }, ?_, ?_, ?_, ?_, fun x => ?_, rfl⟩
  · show purgeContent svc pg (contentRecord pg c) w = _
    rw [purgeContent, hid, hparse]
    dsimp only
    rw [if_neg (by simp [hdead]), if_neg (by simp [hfound]), hrem]
  · refine List.filter_congr fun d _ => ?_
    rw [hone, hdead, Bool.not_false, Bool.and_true]
  · refine List.filter_congr fun f _ => ?_
    rw [tombstoneOf, hone]
  · refine List.filter_congr fun s _ => ?_
    congr 2
    funext f
    rw [tombstoneOf, hone]
  · show store x = _
    have hlists : chunkHashInUse [c] x = true ↔ x ∈ data.map svc.sha256 := by
      rw [chunkHashInUse, List.any_cons, List.any_nil, Bool.or_false, hdata, listsChunk_hashArray]
    split
    · rename_i htaken
      rw [Bool.and_eq_true, Bool.not_eq_true', hlists] at htaken
      obtain ⟨d, hd, rfl⟩ := List.mem_map.mp htaken.1
      refine hgone (svc.sha256 d) ⟨_, List.mem_map_of_mem hd, fun hnil => ?_, textParam_sha256 svc d⟩
        htaken.2
      have hlong := sha256_length hlen d
      rw [hnil] at hlong
      exact absurd hlong (by decide)
    · rename_i hspared
      rcases hstore x with heq | ⟨-, hunused, hash, hhash, htext⟩
      · exact heq
      · obtain ⟨d, hd, rfl⟩ := List.mem_map.mp hhash
        obtain rfl : svc.sha256 d = x := Except.ok.inj ((textParam_sha256 svc d).symm.trans htext)
        refine absurd ?_ hspared
        rw [Bool.and_eq_true, Bool.not_eq_true', hlists]
        exact ⟨hhash, hunused⟩

/-! ## A batch -/

include hpg hlen in
/-- The loop over the orphans of a batch. -/
theorem run_purgeAll : ∀ (rows : List ContentRow) (w : World), Collectable svc w →
    (rows.map ContentRow.id).Nodup → (∀ c ∈ rows, c ∈ w.contents ∧ w.fileLives c.id = false) →
    ∃ stats w', (purgeAll (rows.map (contentRecord pg))).run (exec svc pg) w = (.ok stats, w') ∧
      stats.contentRowsDeleted = rows.length ∧ Swept rows w w'
  | [], w, _, _, _ => ⟨{}, w, rfl, rfl, .refl w⟩
  | c :: rows, w, hw, hnodup, hrows => by
      obtain ⟨hc, hdead⟩ := hrows c List.mem_cons_self
      obtain ⟨n, w₁, hpurge, hswept⟩ := purge_orphan hpg hlen hc hdead (hw.digests c hc)
      have hthere : ∀ d ∈ rows, d ∈ w₁.contents ∧ w₁.fileLives d.id = false := by
        intro d hd
        obtain ⟨hd', hdead'⟩ := hrows d (List.mem_cons_of_mem _ hd)
        have hother : hasId [c] d.id = false := not_hasId_of_nodup hnodup hd
        exact ⟨hswept.mem_contents.mpr ⟨hd', hother⟩, (hswept.fileLives d.id).trans hdead'⟩
      obtain ⟨stats, w', hrun, hcount, hrest⟩ := run_purgeAll rows w₁ (hswept.collectable hw)
        (List.nodup_cons.mp hnodup).2 hthere
      refine ⟨GcStats.add { contentRowsDeleted := 1, chunkFilesRemoved := n } stats, w', ?_, ?_, ?_⟩
      · rw [List.map_cons, purgeAll]
        show ((Prog.request _ : App _) >>= _).run _ _ = _
        rw [Prog.run_request_bind, hpurge]
        dsimp only
        rw [Prog.run_bind, hrun]
        rfl
      · show 1 + stats.contentRowsDeleted = rows.length + 1
        omega
      · exact hswept.trans hw.ids (fun d hd => (hrows d (List.mem_cons_of_mem _ hd)).1) hrest

include hpg hlen in
/-- A run of the collector takes the first orphans. -/
theorem run_collect (hw : Collectable svc w) (limit : Nat) : ∃ stats w',
    (collectOrphans limit).run (exec svc pg) w = (.ok stats, w') ∧
      stats.contentRowsDeleted = ((orphans w).take limit).length ∧
      Swept ((orphans w).take limit) w w' := by
  have hnodup : (((orphans w).take limit).map ContentRow.id).Nodup :=
    hw.ids.sublist (((List.take_sublist _ _).trans List.filter_sublist).map _)
  have hrows : ∀ c ∈ (orphans w).take limit, c ∈ w.contents ∧ w.fileLives c.id = false := by
    intro c hc
    obtain ⟨hmem, hdead⟩ := List.mem_filter.mp (List.mem_of_mem_take hc)
    exact ⟨hmem, (Bool.not_eq_true' _).mp hdead⟩
  obtain ⟨stats, w', hrun, hcount, hswept⟩ := run_purgeAll hpg hlen _ w hw hnodup hrows
  refine ⟨stats, w', ?_, hcount, hswept⟩
  rw [collectOrphans]
  show ((Prog.request _ : App _) >>= _).run _ _ = _
  rw [Prog.run_request_bind]
  exact hrun

/-! ## As many runs as it takes -/

/-- The orphans of the next run. -/
theorem Swept.orphans_drop (hids : (w.contents.map ContentRow.id).Nodup) {limit : Nat}
    (h : Swept ((orphans w).take limit) w w') : orphans w' = (orphans w).drop limit := by
  have hnodup : (((orphans w).take limit ++ (orphans w).drop limit).map ContentRow.id).Nodup := by
    rw [List.take_append_drop]
    exact hids.sublist (List.filter_sublist.map _)
  rw [h.orphans_eq]
  conv_lhs => rw [← List.take_append_drop limit (orphans w), List.filter_append]
  have htaken : ((orphans w).take limit).filter
      (fun c => !hasId ((orphans w).take limit) c.id) = [] := by
    refine List.filter_eq_nil_iff.mpr fun c hc hnot => ?_
    rw [hasId_iff.mpr ⟨c, hc, rfl⟩] at hnot
    cases hnot
  have hleft : ((orphans w).drop limit).filter
      (fun c => !hasId ((orphans w).take limit) c.id) = (orphans w).drop limit := by
    refine List.filter_eq_self.mpr fun c hc => ?_
    rw [not_hasId_of_nodup hnodup hc]
    rfl
  rw [List.take_append_drop, htaken, hleft, List.nil_append]

include hpg hlen in
theorem run_collects : ∀ (limit n : Nat) (w : World), Collectable svc w →
    (orphans w).length ≤ n * limit →
    Swept (orphans w) w ((List.replicate n (.collect limit)).foldl (act svc pg) w)
  | limit, 0, w, _, henough => by
      have hnone : orphans w = [] := List.length_eq_zero_iff.mp (by omega)
      rw [hnone]
      exact .refl w
  | limit, n + 1, w, hw, henough => by
      obtain ⟨stats, w₁, hrun, -, hswept⟩ := run_collect hpg hlen hw limit
      have hact : act svc pg w (.collect limit) = w₁ := congrArg Prod.snd hrun
      have hnext := hswept.orphans_drop hw.ids
      have hless : (orphans w₁).length ≤ n * limit := by
        rw [hnext, List.length_drop]
        rw [Nat.succ_mul] at henough
        omega
      have ih := run_collects limit n w₁ (hswept.collectable hw) hless
      rw [List.replicate_succ, List.foldl_cons, hact]
      rw [hnext] at ih
      have hmem : ∀ c ∈ (orphans w).drop limit, c ∈ w.contents :=
        fun c hc => List.mem_of_mem_filter (List.mem_of_mem_drop hc)
      have hall := hswept.trans hw.ids hmem ih
      rwa [List.take_append_drop] at hall

end Collector

/-! ## Runs with deletions that fail -/

section Upkeep

variable {svc : Services} {pg : Postgres} {rows : List ContentRow} {w w₀ w' : World}

theorem Tidy.collectable (h : Tidy svc w) (hhashes : HashesUnique w) : Collectable svc w :=
  ⟨(List.Nodup.of_map _ hhashes).map_on fun c hc d hd heq => h.ids c hc d hd heq, h.digests⟩

/-- What the objects in the store are is kept by the collector. -/
theorem Swept.tidy (hswept : Swept rows w w') (h : Tidy svc w) (hrows : ∀ c ∈ rows, c ∈ w.contents) :
    Tidy svc w' := by
  have hsub : ∀ c ∈ w'.contents, c ∈ w.contents := fun c hc => (hswept.mem_contents.mp hc).1
  refine ⟨fun x => ?_, fun c hc => h.digests c (hsub c hc),
    fun c hc d hd => h.ids c (hsub c hc) d (hsub d hd), fun c hc => h.sizes c (hsub c hc)⟩
  rw [hswept.store x]
  cases hlater : chunkHashInUse w'.contents x with
  | true =>
      obtain ⟨c, hc, hlists⟩ := List.any_eq_true.mp hlater
      rw [Bool.not_true, Bool.and_false, if_neg Bool.false_ne_true]
      exact ⟨fun _ => ⟨c, hc, hlists⟩, fun _ => (h.objects x).mpr ⟨c, hsub c hc, hlists⟩⟩
  | false =>
      have hnot : ¬ ∃ c ∈ w'.contents, listsChunk c.chunkHashes x = true := by
        rintro ⟨c, hc, hlists⟩
        exact List.any_eq_false.mp hlater c hc hlists
      refine ⟨fun hthere => ?_, fun hlists => absurd hlists hnot⟩
      split at hthere
      · cases hthere
      · rename_i hspared
        obtain ⟨c, hc, hlists⟩ := (h.objects x).mp hthere
        by_cases hid : hasId rows c.id = true
        · obtain ⟨d, hd, heq⟩ := hasId_iff.mp hid
          have hused : chunkHashInUse rows x = true :=
            List.any_eq_true.mpr ⟨d, hd, h.ids d (hrows d hd) c hc heq ▸ hlists⟩
          exact absurd (by rw [hused]; rfl) hspared
        · exact ⟨c, hswept.mem_contents.mpr ⟨hc, Bool.eq_false_iff.mpr hid⟩, hlists⟩

/-- One thing that happens to the drive: an upload or a deletion, at any call of which the
database or the store can refuse to work, a purge, at any statement of which it can fail but
for one after it has taken an object, or a run of the collector. -/
inductive UpkeepStep (svc : Services) (pg : Postgres) (w : World) : World → Prop where
  | data {w' : World} : DataStep svc pg (LeavesNothing svc pg) w w' → UpkeepStep svc pg w w'
  | purge (c : ContentRow) (faults : PurgeFaults) : c ∈ w.contents →
      TakesLast svc pg faults (contentRecord pg c) w →
      UpkeepStep svc pg w (purgeContentUnder svc pg faults (contentRecord pg c) w).world
  | collect (limit : Nat) : UpkeepStep svc pg w (act svc pg w (.collect limit))

/-- A run of these, one after the other. -/
def UpkeepRun (svc : Services) (pg : Postgres) : World → World → Prop :=
  Relation.ReflTransGen (UpkeepStep svc pg)

theorem DataStep.deletion {cond : Faulty → HttpRequest → Bytes → Prop} {req : HttpRequest}
    {faults : Nat → Option Exn} : DataStep svc pg cond w
      ((handleFileDelete svc req).run (execFaulty svc pg) ⟨w, faults⟩).2.world :=
  .delete req _ faults _ rfl

theorem HashesUnique.data (hpg : pg.Lawful svc.json) (h : HashesUnique w)
    {cond : Faulty → HttpRequest → Bytes → Prop} (hstep : DataStep svc pg cond w w') :
    HashesUnique w' := by
  have hrun : ∀ (p : App HttpResponse) (s : Faulty), HashesUnique s.world →
      HashesUnique (p.run (execFaulty svc pg) s).2.world := by
    intro p s hs
    refine wp_ofExec.mp (wp_of_callsOnly (fun s : Faulty => HashesUnique s.world) ?_
      (callsOnly_true p) hs)
    intro s₁ c _ h₁
    refine ⟨trivial, fun r s₂ hexec => ?_⟩
    have hworld : s₂ = (execFaulty svc pg c s₁).2 := congrArg Prod.snd (show _ = (r, s₂) from hexec).symm
    rw [hworld, execFaulty]
    split
    · exact h₁
    · exact h₁.step hpg (Prod.mk.eta (p := exec svc pg c s₁.world)).symm
  cases hstep with
  | upload req userId r faults faults' _ hrun' _ =>
      have hafter := hrun (handleSingleUpload svc req userId) ⟨w, faults⟩ h
      rwa [hrun'] at hafter
  | delete req r faults faults' hrun' =>
      have hafter := hrun (handleFileDelete svc req) ⟨w, faults⟩ h
      rwa [hrun'] at hafter

/-- A purge that fails before it takes an object changes nothing that is to be kept, and one
that does not fail is the purge of the other modules. -/
theorem purge_tidy (hpg : pg.Lawful svc.json) (hlen : ∀ d, 2 ≤ (svc.digest d).length)
    (h : Tidy svc w) (hhashes : HashesUnique w) {c : ContentRow} (hc : c ∈ w.contents)
    {faults : PurgeFaults} (hlast : TakesLast svc pg faults (contentRecord pg c) w) :
    Tidy svc (purgeContentUnder svc pg faults (contentRecord pg c) w).world ∧
      HashesUnique (purgeContentUnder svc pg faults (contentRecord pg c) w).world := by
  cases hend : (purgeContentUnder svc pg faults (contentRecord pg c) w).committed with
  | true =>
      have hexec : exec svc pg (.purgeContent (contentRecord pg c)) w =
          ((purgeContentUnder svc pg faults (contentRecord pg c) w).result,
            (purgeContentUnder svc pg faults (contentRecord pg c) w).world) :=
        (purgeContentUnder_committed hend).symm
      exact ⟨h.purge hpg hlen hc hexec, hhashes.step hpg hexec⟩
  | false =>
      obtain ⟨hworld, hkept⟩ := purge_keeps_iff.mpr hlast hend
      have hcontents : (purgeContentUnder svc pg faults (contentRecord pg c) w).world.contents =
          w.contents := by
        rw [hworld]
      refine ⟨⟨fun x => ?_, ?_, ?_, ?_⟩, ?_⟩
      · rw [hcontents, ← h.objects x]
        exact ⟨purgeContentUnder_subset hend x, hkept x⟩
      · rw [hcontents]
        exact h.digests
      · rw [hcontents]
        exact h.ids
      · rw [BigintSizes, hcontents]
        exact h.sizes
      · rw [HashesUnique, hcontents]
        exact hhashes

variable (hjson : svc.json.Lawful) (hpg : pg.Lawful svc.json)
  (hlen : ∀ d, 2 ≤ (svc.digest d).length) (hascii : svc.json.WritesAscii)

include hjson hpg hlen hascii in
theorem UpkeepStep.tidy (h : Tidy svc w) (hhashes : HashesUnique w)
    (hstep : UpkeepStep svc pg w w') : Tidy svc w' ∧ HashesUnique w' := by
  cases hstep with
  | data hdata => exact ⟨h.step hjson hpg hlen hascii hdata, hhashes.data hpg hdata⟩
  | purge c faults hc hlast => exact purge_tidy hpg hlen h hhashes hc hlast
  | collect limit =>
      obtain ⟨stats, w₁, hrun, -, hswept⟩ := run_collect hpg hlen (h.collectable hhashes) limit
      have hact : act svc pg w (.collect limit) = w₁ := congrArg Prod.snd hrun
      refine ⟨?_, hashesUnique_act hpg w (.collect limit) hhashes⟩
      rw [hact]
      exact hswept.tidy h fun c hc => List.mem_of_mem_filter (List.mem_of_mem_take hc)

include hjson hpg hlen hascii in
theorem UpkeepRun.tidy (h : Tidy svc w₀) (hhashes : HashesUnique w₀)
    (hrun : UpkeepRun svc pg w₀ w) : Tidy svc w ∧ HashesUnique w := by
  induction hrun with
  | refl => exact ⟨h, hhashes⟩
  | tail _ hstep ih => exact hstep.tidy hjson hpg hlen hascii ih.1 ih.2

/-- Without orphans a run of the collector does nothing. -/
theorem collect_nothing (hnone : orphans w = []) (limit : Nat) :
    act svc pg w (.collect limit) = w := by
  have hlist : listOrphans pg w limit = [] := by
    show ((orphans w).take limit).map (contentRecord pg) = []
    rw [hnone, List.take_nil, List.map_nil]
  show ((collectOrphans limit).run (exec svc pg) w).2 = w
  rw [collectOrphans]
  show (((Prog.request _ : App _) >>= _).run _ _).2 = w
  rw [Prog.run_request_bind]
  show ((purgeAll (listOrphans pg w limit)).run (exec svc pg) w).2 = w
  rw [hlist]
  rfl

include hjson hpg hlen hascii in
/-- **The collector comes to an end, and what it leaves is what live files need.** After any run
of uploads, deletions, purges and collections, as many collections as the orphans take leave no row
without a live file, and in the store the chunks of live files and no others; and from
then on they change nothing. -/
theorem collection_complete (h₀ : Initial w₀) (hrun : UpkeepRun svc pg w₀ w) {limit n : Nat}
    (henough : (orphans w).length ≤ n * limit)
    (hafter : (List.replicate n (Action.collect limit)).foldl (act svc pg) w = w') :
    Swept (orphans w) w w' ∧ (∀ c ∈ w'.contents, w'.fileLives c.id = true) ∧
      (∀ x, (w'.store x).isSome = true ↔ ∃ f ∈ w'.files, f.live = true ∧
        ∃ c, w'.findContent f.contentId = some c ∧ listsChunk c.chunkHashes x = true) ∧
      ∀ more, act svc pg w' (.collect more) = w' := by
  have hempty : HashesUnique w₀ := by
    rw [HashesUnique, h₀.contents]
    exact List.nodup_nil
  obtain ⟨htidy, hhashes⟩ := UpkeepRun.tidy hjson hpg hlen hascii
    (tidy_of_empty h₀.store h₀.contents) hempty hrun
  have hcollectable := htidy.collectable hhashes
  have hswept : Swept (orphans w) w w' := hafter ▸ run_collects hpg hlen limit n w hcollectable henough
  have htidy' : Tidy svc w' := hswept.tidy htidy fun c hc => List.mem_of_mem_filter hc
  have hlives : ∀ c ∈ w'.contents, w'.fileLives c.id = true := by
    intro c hc
    obtain ⟨hmem, hnot⟩ := hswept.mem_contents.mp hc
    cases hlive : w'.fileLives c.id with
    | true => rfl
    | false =>
        have horphan : c ∈ orphans w := by
          refine List.mem_filter.mpr ⟨hmem, ?_⟩
          rw [← hswept.fileLives, hlive]
          rfl
        rw [hasId_iff.mpr ⟨c, horphan, rfl⟩] at hnot
        cases hnot
  refine ⟨hswept, hlives, fun x => ?_, collect_nothing ?_⟩
  · rw [htidy'.objects x]
    constructor
    · rintro ⟨c, hc, hlists⟩
      obtain ⟨f, hf, hlive⟩ := List.any_eq_true.mp (hlives c hc)
      rw [Bool.and_eq_true, decide_eq_true_eq] at hlive
      obtain ⟨d, hd⟩ := Option.isSome_iff_exists.mp (List.find?_isSome.mpr
        ⟨c, hc, decide_eq_true hlive.1.symm⟩ : (w'.findContent f.contentId).isSome = true)
      have hsame : d = c := by
        have hid : d.id = f.contentId := by simpa using List.find?_some hd
        exact htidy'.ids d (List.mem_of_find?_eq_some hd) c hc (hid.trans hlive.1)
      exact ⟨f, hf, hlive.2, d, hd, hsame ▸ hlists⟩
    · rintro ⟨f, -, -, c, hc, hlists⟩
      exact ⟨c, List.mem_of_find?_eq_some hc, hlists⟩
  · refine List.filter_eq_nil_iff.mpr fun c hc hdead => ?_
    rw [hlives c hc] at hdead
    cases hdead

end Upkeep

/-- Alice deletes `x.txt`, and the purge of its content is refused. -/
def purgeRefused : World :=
  ((handleFileDelete sampleServices
    { authUserId := aliceId.text, pathParams := [(ascii "id", (sampleId 1).text)] }).run
      (execFaulty sampleServices samplePostgres) ⟨withX, refusedAt (some 4)⟩).2.world

/-- The content is left without a file, and the next collection takes it. -/
theorem orphan_collected : ∃ w', act sampleServices samplePostgres purgeRefused (.collect 200) = w' ∧
    (purgeRefused.store (sampleServices.sha256 (ascii "x"))).isSome = true ∧
    (w'.store (sampleServices.sha256 (ascii "x"))).isSome = false ∧ w'.contents = [] := by
  have hinitial : Initial emptyDrive := ⟨fun _ => rfl, rfl, rfl, rfl, rfl, fun _ => rfl⟩
  have hupload : DataStep sampleServices samplePostgres (LeavesNothing sampleServices samplePostgres)
      emptyDrive withX := by
    refine step_uploadsX (by decide) fun hfailed => ?_
    have hok : accepted (uploadsX emptyDrive (ascii "x") none).1 = true := by decide +kernel
    cases hok.symm.trans hfailed
  have hdelete : DataStep sampleServices samplePostgres (LeavesNothing sampleServices samplePostgres)
      withX purgeRefused := DataStep.deletion
  have hrun : UpkeepRun sampleServices samplePostgres emptyDrive purgeRefused :=
    (Relation.ReflTransGen.single (.data hupload)).tail (.data hdelete)
  obtain ⟨w', hw'⟩ : ∃ w', act sampleServices samplePostgres purgeRefused (.collect 200) = w' :=
    ⟨_, rfl⟩
  obtain ⟨hswept, -, hstore, -⟩ := collection_complete sampleServices_lawful samplePostgres_lawful
    sampleServices_digest_length JsonText.lib_writesAscii hinitial hrun
    (show (orphans purgeRefused).length ≤ 1 * 200 by decide +kernel)
    (show (List.replicate 1 (Action.collect 200)).foldl (act sampleServices samplePostgres)
      purgeRefused = w' from hw')
  have hfiles : (purgeRefused.files.filter fun f => !tombstoneOf (orphans purgeRefused) f) = [] :=
    List.isEmpty_iff.mp (by decide +kernel)
  have hcontents : (purgeRefused.contents.filter fun c => !hasId (orphans purgeRefused) c.id) = [] :=
    List.isEmpty_iff.mp (by decide +kernel)
  refine ⟨w', hw', by decide +kernel, Bool.eq_false_iff.mpr fun hthere => ?_,
    hswept.contents.trans hcontents⟩
  obtain ⟨f, hf, -⟩ := (hstore _).mp hthere
  rw [hswept.files, hfiles] at hf
  cases hf

end SolarDrive.Runs
