import Mathlib.Logic.Relation
import SolarDrive.Runs.FailedUpload
import SolarDrive.Runs.NameConflicts

/-!
# Objects and the rows that list them

Single uploads and deletions one after the other, with calls refused at any
place. The objects in the store are those that the content rows list (`Tidy`)
as long as every upload that fails is one that leaves nothing behind.
-/

namespace SolarDrive.Runs

open Lib Http Api Metadata Prog

/-- The objects in the store are the chunks that the content rows list. -/
def ObjectsListed (w : World) : Prop :=
  ∀ x, (w.store x).isSome = true ↔ ∃ c ∈ w.contents, listsChunk c.chunkHashes x = true

structure Tidy (svc : Services) (w : World) : Prop where
  objects : ObjectsListed w
  digests : ∀ c ∈ w.contents, ∃ data : List Bytes, c.chunkHashes = hashArray (data.map svc.sha256)
  ids : ∀ c ∈ w.contents, ∀ d ∈ w.contents, c.id = d.id → c = d
  sizes : BigintSizes w

theorem tidy_of_empty {svc : Services} {w : World} (hstore : ∀ x, w.store x = none)
    (hcontents : w.contents = []) : Tidy svc w := by
  have hnot : ∀ c, c ∉ w.contents := fun c hc => List.not_mem_nil (hcontents ▸ hc)
  refine ⟨fun x => ?_, fun c hc => absurd hc (hnot c), fun c hc => absurd hc (hnot c),
    fun c hc => absurd hc (hnot c)⟩
  rw [hstore x]
  constructor
  · rintro ⟨⟩
  · rintro ⟨c, hc, -⟩
    exact absurd hc (hnot c)

/-- The failed upload is one that leaves nothing behind. -/
def LeavesNothing (svc : Services) (pg : Postgres) (s : Faulty) (req : HttpRequest)
    (userId : Bytes) : Prop :=
  Stores svc pg s req userId →
    NothingNew svc pg (atFirstChunk svc s req) req.body (uploadRecord svc req userId)

/-- One request of a run. A body is shorter than the longest `std::string`. -/
inductive DataStep (svc : Services) (pg : Postgres) (cond : Faulty → HttpRequest → Bytes → Prop)
    (w w' : World) : Prop
  | upload (req : HttpRequest) (userId : Bytes) (r : Except Exn HttpResponse)
      (faults faults' : Nat → Option Exn) : req.body.length < 2 ^ 63 →
      (handleSingleUpload svc req userId).run (execFaulty svc pg) ⟨w, faults⟩ =
        (r, ⟨w', faults'⟩) → (accepted r = false → cond ⟨w, faults⟩ req userId) →
      DataStep svc pg cond w w'
  | delete (req : HttpRequest) (r : Except Exn HttpResponse) (faults faults' : Nat → Option Exn) :
      (handleFileDelete svc req).run (execFaulty svc pg) ⟨w, faults⟩ = (r, ⟨w', faults'⟩) →
      DataStep svc pg cond w w'

/-- A run of single uploads and deletions. -/
def DataRun (svc : Services) (pg : Postgres) (cond : Faulty → HttpRequest → Bytes → Prop) :
    World → World → Prop :=
  Relation.ReflTransGen (DataStep svc pg cond)

theorem DataStep.run {svc : Services} {pg : Postgres} {cond : Faulty → HttpRequest → Bytes → Prop}
    {w : World} {req : HttpRequest} {userId : Bytes} {faults : Nat → Option Exn}
    (hbody : req.body.length < 2 ^ 63)
    (hcond : accepted ((handleSingleUpload svc req userId).run (execFaulty svc pg) ⟨w, faults⟩).1 =
      false → cond ⟨w, faults⟩ req userId) :
    DataStep svc pg cond w
      ((handleSingleUpload svc req userId).run (execFaulty svc pg) ⟨w, faults⟩).2.world :=
  .upload req userId _ faults _ hbody rfl hcond

section Tidy

variable {svc : Services} {pg : Postgres} {s s' : Faulty} {w w' : World}

/-! ## The calls -/

theorem Tidy.congr (h : Tidy svc w) (hstore : w'.store = w.store)
    (hcontents : w'.contents = w.contents) : Tidy svc w' := by
  refine ⟨fun x => ?_, ?_, ?_, fun c hc => h.sizes c (hcontents ▸ hc)⟩
  · rw [hstore, hcontents]
    exact h.objects x
  · rw [hcontents]
    exact h.digests
  · rw [hcontents]
    exact h.ids

/-- The calls that leave the objects and the content rows. -/
def keepsObjects : Call → Bool
  | .put _ | .fileInsert _ | .purgeContent _ => false
  | _ => true

theorem keepsObjects_of_reads {c : Call} (hc : readOnly c = true) : keepsObjects c = true := by
  cases c <;> first | rfl | cases hc

theorem wp_tidy {α : Type} {p : App α} (hp : p.CallsOnly fun c => keepsObjects c = true)
    (h : Tidy svc s.world) :
    p.wp (ofExec (execFaulty svc pg)) (fun _ s' => Tidy svc s'.world) s := by
  refine wp_faulty (fun hc h hexec => ?_) hp h
  obtain ⟨hstore, hcontents⟩ := exec_contents (fun _ heq => by rw [heq] at hc; cases hc)
    (fun _ heq => by rw [heq] at hc; cases hc) (fun _ heq => by rw [heq] at hc; cases hc) hexec
  exact h.congr hstore hcontents

theorem wp_tidy_reads {α : Type} {p : App α} (hp : Reads p) (h : Tidy svc s.world) :
    p.wp (ofExec (execFaulty svc pg)) (fun _ s' => Tidy svc s'.world) s :=
  wp_tidy (callsOnly_reads (fun _ => keepsObjects_of_reads) hp) h

/-- Without a row and the objects that only this row lists. -/
theorem Tidy.sweep (h : Tidy svc w) {row : ContentRow} (hrow : row ∈ w.contents)
    {store : Bytes → Option Bytes}
    (hstore : ∀ x, store x = w.store x ∨
      store x = none ∧ chunkHashInUse (withoutContent row.id w).contents x = false)
    (hgone : ∀ x, listsChunk row.chunkHashes x = true →
      chunkHashInUse (withoutContent row.id w).contents x = false → store x = none) : Tidy svc { withoutContent row.id w with store } := by
  have hsub : ∀ c ∈ (withoutContent row.id w).contents, c ∈ w.contents :=
    fun c hc => List.mem_of_mem_filter hc
  refine ⟨fun x => ?_, fun c hc => h.digests c (hsub c hc),
    fun c hc d hd => h.ids c (hsub c hc) d (hsub d hd), fun c hc => h.sizes c (hsub c hc)⟩
  constructor
  · intro (hx : (store x).isSome = true)
    have hthere : (w.store x).isSome = true := by
      rcases hstore x with heq | ⟨hnone, -⟩
      · rwa [← heq]
      · rw [hnone] at hx
        cases hx
    obtain ⟨c, hc, hlists⟩ := (h.objects x).mp hthere
    by_cases hid : c.id = row.id
    · obtain rfl := h.ids c hc row hrow hid
      cases huse : chunkHashInUse (withoutContent c.id w).contents x with
      | true => exact List.any_eq_true.mp huse
      | false =>
          rw [hgone x hlists huse] at hx
          cases hx
    · exact ⟨c, List.mem_filter.mpr ⟨hc, by simp [hid]⟩, hlists⟩
  · rintro ⟨c, hc, hlists⟩
    show (store x).isSome = true
    rcases hstore x with heq | ⟨-, hunused⟩
    · rw [heq]
      exact (h.objects x).mpr ⟨c, hsub c hc, hlists⟩
    · have huse : chunkHashInUse (withoutContent row.id w).contents x = true :=
        List.any_eq_true.mpr ⟨c, hc, hlists⟩
      rw [hunused] at huse
      cases huse

variable (hjson : svc.json.Lawful) (hpg : pg.Lawful svc.json)
  (hlen : ∀ d, 2 ≤ (svc.digest d).length)

include hpg hlen in
/-- The collector takes the objects that only its row lists. -/
theorem Tidy.purge (h : Tidy svc w) {row : ContentRow} (hrow : row ∈ w.contents)
    {r : Except Exn GcStats} (hexec : exec svc pg (.purgeContent (contentRecord pg row)) w = (r, w')) :
    Tidy svc w' := by
  obtain ⟨data, hdata⟩ := h.digests row hrow
  have hid : pg.uuidParam (contentRecord pg row).id = .ok row.id := uuidParam_text hpg row.id
  have hparse : parseChunkHashes svc.json (contentRecord pg row).chunkHashes =
      some (data.map svc.sha256) := by
    show parseChunkHashes svc.json (pg.jsonbOut row.chunkHashes) = _
    rw [hdata, parseChunkHashes_digests svc hpg]
  have hfound : (w.findContent row.id).isNone = false := by
    rw [Option.isNone_eq_false_iff, World.findContent, List.find?_isSome]
    exact ⟨row, hrow, decide_eq_true rfl⟩
  have hgood : ∀ hash ∈ data.map svc.sha256, ∃ t, pg.textParam hash = .ok t ∧ 4 ≤ t.length := by
    intro hash hh
    obtain ⟨d, -, rfl⟩ := List.mem_map.mp hh
    exact ⟨_, textParam_sha256 svc d, sha256_length hlen d⟩
  have hpurge : purgeContent svc pg (contentRecord pg row) w = (r, w') := hexec
  unfold purgeContent at hpurge
  rw [hid, hparse] at hpurge
  dsimp only at hpurge
  cases hlive : w.fileLives row.id with
  | true =>
      rw [if_pos hlive] at hpurge
      cases hpurge
      exact h
  | false =>
      rw [if_neg (by simp [hlive]), if_neg (by simp [hfound])] at hpurge
      have hstore := @removeChunks_store pg (withoutContent row.id w).contents (data.map svc.sha256)
        w.store 0
      have hgone := fun t => @removeChunks_gone pg (withoutContent row.id w).contents t
        (data.map svc.sha256) w.store 0 hgood
      obtain ⟨m, hm⟩ := @removeChunks_ok pg (withoutContent row.id w).contents (data.map svc.sha256)
        w.store 0 hgood
      rcases hrem : removeChunks pg (withoutContent row.id w).contents (data.map svc.sha256) w.store 0
        with ⟨res, store⟩
      rw [hrem] at hstore hgone hm hpurge
      obtain rfl : res = .ok m := hm
      cases hpurge
      refine h.sweep hrow (fun x => (hstore x).imp_right fun hx => ⟨hx.1, hx.2.1⟩) ?_
      intro x hlists hunused
      rw [hdata, listsChunk_hashArray] at hlists
      obtain ⟨d, hd, rfl⟩ := List.mem_map.mp hlists
      refine hgone (svc.sha256 d) ⟨_, List.mem_map_of_mem hd, fun hnil => ?_, textParam_sha256 svc d⟩
        hunused
      have hlong := sha256_length hlen d
      rw [hnil] at hlong
      exact absurd hlong (by decide)

/-! ## An upload that succeeds -/

/-- The row for new content lists the chunks that are new. -/
theorem Tidy.created (h : Tidy svc w) {row : ContentRow} {data : List Bytes}
    (htables : w'.contents = w.contents ++ [row])
    (hobjects : ∀ x, (w'.store x).isSome = true ↔
      (w.store x).isSome = true ∨ ∃ d ∈ data, svc.sha256 d = x)
    (hchunks : row.chunkHashes = hashArray (data.map svc.sha256))
    (hfresh : ∀ d ∈ w.contents, d.id ≠ row.id) (hsize : -(2 ^ 63) ≤ row.size ∧ row.size < 2 ^ 63) :
    Tidy svc w' := by
  have hmem : ∀ c, c ∈ w'.contents ↔ c ∈ w.contents ∨ c = row := by
    intro c
    rw [htables, List.mem_append, List.mem_singleton]
  refine ⟨fun x => ?_, fun c hc => ?_, fun c hc d hd heq => ?_, fun c hc => ?_⟩
  · rw [hobjects x, h.objects x]
    constructor
    · rintro (⟨c, hc, hlists⟩ | ⟨d, hd, rfl⟩)
      · exact ⟨c, (hmem c).mpr (.inl hc), hlists⟩
      · refine ⟨row, (hmem row).mpr (.inr rfl), ?_⟩
        rw [hchunks, listsChunk_hashArray]
        exact List.mem_map_of_mem hd
    · rintro ⟨c, hc, hlists⟩
      rcases (hmem c).mp hc with hc | rfl
      · exact .inl ⟨c, hc, hlists⟩
      · rw [hchunks, listsChunk_hashArray] at hlists
        exact .inr (List.mem_map.mp hlists)
  · rcases (hmem c).mp hc with hc | rfl
    · exact h.digests c hc
    · exact ⟨data, hchunks⟩
  · rcases (hmem c).mp hc with hc | rfl
    · rcases (hmem d).mp hd with hd | rfl
      · exact h.ids c hc d hd heq
      · exact absurd heq (hfresh c hc)
    · rcases (hmem d).mp hd with hd | rfl
      · exact absurd heq.symm (hfresh d hd)
      · rfl
  · rcases (hmem c).mp hc with hc | rfl
    · exact h.sizes c hc
    · exact hsize

include hjson hpg hlen in
theorem wp_tidy_uploadNew {body filename mimeType userId folderId : Bytes}
    (h : Tidy svc s.world) (hbody : body.length < 2 ^ 63)
    (hunknown : findContentByHash pg s.world (svc.sha256 body) = .ok none) :
    (uploadNew svc body filename mimeType userId folderId (svc.sha256 body)).wp
      (ofExec (execFaulty svc pg)) (fun r s' => accepted r = true → Tidy svc s'.world) s := by
  refine wp_seq (wp_putAll_faulty hlen _ s) (fun hashes s₁ h₁ => ?_) fun e s₁ h₁ hok => ?_
  swap
  · cases hok
  have hall : storedChunks (chunksOf svc.storeChunkSize body) s.faults =
      chunksOf svc.storeChunkSize body := by
    by_contra hrefused
    obtain ⟨e, he⟩ := h₁.refused hrefused
    cases he
  obtain ⟨hhashes, -⟩ := h₁.all hall
  cases hhashes
  obtain ⟨t, hdump⟩ := dump_digests hjson (chunksOf svc.storeChunkSize body)
  rw [hdump]
  refine wp_request_bind trivial (fun fileId s₂ hexec => ?_) fun e s₂ _ hok => ?_
  swap
  · cases hok
  have hcalls : (indexContent svc (svc.sha256 body) >>= fun _ => svc.setJson (object
      [("chunks", .int ((chunksOf svc.storeChunkSize body).map svc.sha256).length),
        ("file_id", .str fileId), ("hash", .str (svc.sha256 body)), ("instant", .bool false),
        ("size", .int body.length)])).CallsOnly fun c => keepsObjects c = true :=
    callsOnly_bind (callsOnly_indexContent (fun _ => keepsObjects_of_reads) svc (fun _ _ => rfl) _)
      fun _ => callsOnly_reads (fun _ => keepsObjects_of_reads) (reads_setJson svc _)
  refine wp_mono (wp_tidy hcalls ?_) fun _ _ h _ => h
  have hanswered : exec svc pg _ s₁.world = (.ok fileId, s₂.world) := by
    rcases execFaulty_cases (show execFaulty svc pg _ s₁ = _ from hexec) with h | ⟨-, e, he⟩
    · exact h
    · cases he
  rcases exec_fileInsert hpg hanswered with ⟨e, he, -⟩ | ⟨row, contents, c, hens, -, -, -, hworld⟩
  · cases he
  obtain ⟨text, htext, hnew⟩ := findContentByHash_none hunknown
  have hcontents : s₁.world.contents = s.world.contents := by rw [h₁.tables]
  cases hens with
  | found hhash hc =>
      rw [hcontents] at hc
      exact absurd (Except.ok.inj (hhash.symm.trans htext)) (hnew c hc)
  | created _ hchunks hsize hfresh =>
      have htables : s₂.world.contents = s.world.contents ++ [c] := by rw [hworld, ← hcontents]
      refine h.created htables (fun x => ?_) (jsonbParam_dump svc hjson hpg hdump hchunks)
        (fun d hd => (hfresh d (hcontents ▸ hd)).1) ?_
      · rw [hworld]
        show (s₁.world.store x).isSome = true ↔ _
        rw [h₁.objects x, hall]
      · rw [hsize]
        dsimp only
        omega

theorem calls_link (content : FileRecord) (filename mimeType userId folderId fileHash : Bytes)
    (size : Int) : (do
      let fileId ← linkExistingContent content filename mimeType userId folderId
      instantAnswer svc fileId fileHash size : App HttpResponse).CallsOnly
        fun c => keepsObjects c = true :=
  callsOnly_bind (callsOnly_linkExistingContent (fun _ => keepsObjects_of_reads)
    (fun _ _ _ _ => rfl) _ _ _) fun _ =>
      callsOnly_reads (fun _ => keepsObjects_of_reads) (reads_setJson svc _)

include hjson hpg hlen in
theorem wp_tidy_uploadContent {body filename mimeType userId folderId : Bytes}
    (h : Tidy svc s.world) (hbody : body.length < 2 ^ 63) :
    (uploadContent svc body filename mimeType userId folderId).wp (ofExec (execFaulty svc pg))
      (fun r s' => accepted r = true → Tidy svc s'.world) s := by
  refine course_uploadContent (P := fun s₁ => Tidy svc s₁.world)
    (U := fun s₁ => Tidy svc s₁.world ∧
      findContentByHash pg s₁.world (svc.sha256 body) = .ok none)
    (K := fun _ s₁ => Tidy svc s₁.world) ?_ ?_ (fun _ h₁ => h₁.1) ?_ ?_ ?_ h
  · intro s₁ k h₁ hk
    exact wp_seq (M := fun _ s₂ => Tidy svc s₂.world) (wp_tidy (callsOnly_request rfl) h₁) hk
      fun e s₂ _ hok => by cases hok
  · intro s₁ k h₁ hnone hsome
    refine wp_query_bind rfl (fun found _ hfound => ?_) fun e _ hok => by cases hok
    cases found with
    | none => exact hnone (s₁.skip 1) ⟨h₁, hfound⟩
    | some record => exact hsome record (s₁.skip 1) h₁
  · intro record s₁ k h₁ hk
    exact wp_seq (M := fun _ s₂ => Tidy svc s₂.world)
      (wp_tidy (callsOnly_rememberHash svc (fun _ _ => rfl) _ _) h₁) (fun _ s₂ h₂ => hk s₂ h₂)
      fun e s₂ _ hok => by cases hok
  · exact fun record s₁ h₁ => wp_mono (wp_tidy (calls_link _ _ _ _ _ _ _) h₁) fun _ _ h₂ _ => h₂
  · exact fun s₁ h₁ => wp_tidy_uploadNew hjson hpg hlen h₁.1 hbody h₁.2

include hjson hpg hlen in
theorem wp_tidy_handleSingleUpload {req : HttpRequest} {userId : Bytes} (h : Tidy svc s.world)
    (hbody : req.body.length < 2 ^ 63) :
    (handleSingleUpload svc req userId).wp (ofExec (execFaulty svc pg))
      (fun r s' => accepted r = true → Tidy svc s'.world) s := by
  have herr : ∀ {code : Int} {msg : Bytes}, (svc.setError code msg).wp (ofExec (execFaulty svc pg))
      (fun r s' => accepted r = true → Tidy svc s'.world) s := fun {code msg} =>
    wp_mono (wp_tidy_reads (reads_setError svc code msg) h) fun _ _ h _ => h
  unfold handleSingleUpload
  split
  · exact herr
  · split
    · exact herr
    · refine wp_seq (wp_tidy_reads (reads_resolveFolderId svc _ _) h) (fun folder s₁ h₁ => ?_)
        fun e s₁ _ hok => by cases hok
      cases folder with
      | error resp => exact fun _ => h₁
      | ok folderId => exact wp_tidy_uploadContent hjson hpg hlen h₁ hbody

/-! ## A deletion -/

include hpg hlen in
theorem wp_tidy_tryCollectContent {contentId : Bytes} (h : Tidy svc s.world) :
    (tryCollectContent contentId).wp (ofExec (execFaulty svc pg))
      (fun _ s' => Tidy svc s'.world) s := by
  unfold tryCollectContent
  split
  · exact h
  · refine wp_query_bind rfl (fun found _ hfound => ?_) fun _ _ => h
    cases found with
    | none => exact h
    | some content =>
        have hanswer : contentFindById pg s.world contentId = .ok (some content) := hfound
        simp only [contentFindById, bind_eq_ok] at hanswer
        obtain ⟨u, -, hret⟩ := hanswer
        obtain ⟨row, hrow, rfl⟩ := Option.map_eq_some_iff.mp (Except.ok.inj hret)
        refine wp_request.mpr ⟨trivial, fun r s₂ hexec => ?_⟩
        rcases execFaulty_cases hexec with hanswered | ⟨hsame, -⟩
        · exact h.purge hpg hlen (List.mem_of_find?_eq_some hrow) hanswered
        · rw [hsame]
          exact h

include hpg hlen in
theorem wp_tidy_handleFileDelete (req : HttpRequest) (h : Tidy svc s.world) :
    (handleFileDelete svc req).wp (ofExec (execFaulty svc pg)) (fun _ s' => Tidy svc s'.world) s := by
  have herr : ∀ code msg {s : Faulty}, Tidy svc s.world → (svc.setError code msg).wp
      (ofExec (execFaulty svc pg)) (fun _ s' => Tidy svc s'.world) s :=
    fun code msg _ h => wp_tidy_reads (reads_setError svc code msg) h
  refine wp_catch (M := fun _ s' => Tidy svc s'.world) ?_ (fun _ _ h => h) fun e s' h =>
    wp_tidy_reads (reads_catchStd svc _ e) h
  split
  · dsimp only
    split
    · exact herr _ _ h
    · refine wp_seq (wp_tidy_reads (reads_requireOwnedFile svc _ _) h) (fun owned s₁ h₁ => ?_)
        fun _ _ h => h
      cases owned with
      | error resp => exact h₁
      | ok file =>
          refine wp_seq (wp_tidy (callsOnly_request rfl) h₁) (fun _ s₂ h₂ => ?_) fun _ _ h => h
          refine wp_seq (wp_tidy (callsOnly_request rfl) h₂) (fun _ s₃ h₃ => ?_) fun _ _ h => h
          exact wp_seq (wp_tidy_tryCollectContent hpg hlen h₃) (fun _ _ h => h) fun _ _ h => h
  · exact herr _ _ h

/-! ## The run -/

variable (hascii : svc.json.WritesAscii)

include hjson hascii hpg hlen in
theorem Tidy.step (h : Tidy svc w) (hstep : DataStep svc pg (LeavesNothing svc pg) w w') :
    Tidy svc w' := by
  cases hstep with
  | upload req userId r faults faults' hbody hrun hcond =>
      cases hend : accepted r with
      | true =>
          have hwp := @wp_tidy_handleSingleUpload svc pg ⟨w, faults⟩ hjson hpg hlen req userId h hbody
          rw [wp_ofExec, hrun] at hwp
          exact hwp hend
      | false =>
          have hsame := (leaves_nothing_iff (s := ⟨w, faults⟩) hjson hascii hpg hlen h.sizes hrun
            hend).mpr (hcond hend)
          exact h.congr hsame.store hsame.contents
  | delete req r faults faults' hrun =>
      have hwp := wp_tidy_handleFileDelete (s := ⟨w, faults⟩) hpg hlen req h
      rwa [wp_ofExec, hrun] at hwp

include hjson hascii hpg hlen in
/-- **A failed upload** leaves nothing exactly when it is one of those; and if all that fail in a
run are, the objects in the store are those the content rows list. -/
theorem failed_upload :
    (∀ s s' req userId r, BigintSizes s.world →
      (handleSingleUpload svc req userId).run (execFaulty svc pg) s = (r, s') → accepted r = false →
      (Untouched s.world s'.world ↔ LeavesNothing svc pg s req userId)) ∧
    ∀ w w', Tidy svc w → DataRun svc pg (LeavesNothing svc pg) w w' → ObjectsListed w' := by
  refine ⟨fun s s' req userId r hsizes hrun hfailed => ?_, fun w w' h hrun => ?_⟩
  · exact leaves_nothing_iff hjson hascii hpg hlen hsizes hrun hfailed
  · have htidy : Tidy svc w' := by
      induction hrun with
      | refl => exact h
      | tail _ hstep ih => exact ih.step hjson hpg hlen hascii hstep
    exact htidy.objects

end Tidy

/-- Alice has an account, and nothing is stored. -/
def emptyDrive : World :=
  { oneFile with
    store := fun _ => none
    files := []
    contents := []
    uuids := fun n => sampleId (Fin.ofNat 8 n) }

def refusedAt (refused : Option Nat) (n : Nat) : Option Exn :=
  if refused = some n then some { kind := .pqxx, what := ascii "connection lost" } else none

/-- Alice uploads, and the call with this number is refused. -/
def uploadsX (w : World) (body : Bytes) (refused : Option Nat) : Except Exn HttpResponse × Faulty :=
  (handleSingleUpload sampleServices (asXtxt body) aliceId.text).run
    (execFaulty sampleServices samplePostgres) ⟨w, refusedAt refused⟩

/-- Alice has `x.txt`. -/
def withX : World := (uploadsX emptyDrive (ascii "x") none).2.world

theorem step_uploadsX {cond : Faulty → HttpRequest → Bytes → Prop} {w : World} {body : Bytes}
    {refused : Option Nat} (hbody : body.length < 2 ^ 63)
    (hcond : accepted (uploadsX w body refused).1 = false →
      cond ⟨w, refusedAt refused⟩ (asXtxt body) aliceId.text) :
    DataStep sampleServices samplePostgres cond w (uploadsX w body refused).2.world :=
  DataStep.run hbody hcond

/-- The chunks of `xx` are there, and the insertion is refused. On an empty drive the upload
succeeds. -/
theorem refused_insertion_leaves_nothing :
    (accepted (uploadsX oneFile (ascii "xx") (some 4)).1 = false ∧
      Untouched oneFile (uploadsX oneFile (ascii "xx") (some 4)).2.world) ∧
    ∃ w', DataRun sampleServices samplePostgres (LeavesNothing sampleServices samplePostgres)
      emptyDrive w' ∧ w'.contents.length = 1 ∧ ObjectsListed w' := by
  obtain ⟨huntouched, hlisted⟩ := failed_upload sampleServices_lawful samplePostgres_lawful
    sampleServices_digest_length JsonText.lib_writesAscii
  refine ⟨⟨by decide +kernel, ?_⟩, ?_⟩
  · refine (huntouched ⟨oneFile, refusedAt (some 4)⟩ _ (asXtxt (ascii "xx")) aliceId.text _ oneFile_typed.sizes
      (Prod.mk.eta (p := uploadsX oneFile (ascii "xx") (some 4))).symm
      (by decide +kernel)).mpr fun _ => ⟨by decide +kernel, fun h => ?_⟩
    have hfault := h.2.1
    revert hfault
    decide +kernel
  · have hstep : DataStep sampleServices samplePostgres (LeavesNothing sampleServices samplePostgres)
        emptyDrive (uploadsX emptyDrive (ascii "x") none).2.world := by
      refine step_uploadsX (by decide) fun hfailed => ?_
      have hok : accepted (uploadsX emptyDrive (ascii "x") none).1 = true := by decide +kernel
      cases hok.symm.trans hfailed
    have hrun := Relation.ReflTransGen.single hstep
    exact ⟨_, hrun, by decide +kernel, hlisted _ _ (tidy_of_empty (fun _ => rfl) rfl) hrun⟩

/-- Alice uploads other bytes under the same name: the unique index refuses the row, and
the chunk stays. -/
theorem name_conflict_leaves_chunk :
    (accepted (uploadsX withX (ascii "y") none).1 = false ∧
      ¬ Untouched withX (uploadsX withX (ascii "y") none).2.world) ∧
    ¬ ∀ w', DataRun sampleServices samplePostgres (fun _ _ _ => True) emptyDrive w' →
      ObjectsListed w' := by
  have hstays : ((uploadsX withX (ascii "y") none).2.world.store
      (sampleServices.sha256 (ascii "y"))).isSome = true := by decide +kernel
  refine ⟨⟨by decide +kernel, fun hsame => ?_⟩, fun hlisted => ?_⟩
  · have hnew : (withX.store (sampleServices.sha256 (ascii "y"))).isSome = false := by decide +kernel
    rw [hsame.store, hnew] at hstays
    cases hstays
  · have hstep : ∀ w body, body.length < 2 ^ 63 → DataStep sampleServices samplePostgres
        (fun _ _ _ => True) w (uploadsX w body none).2.world :=
      fun _ _ hbody => step_uploadsX hbody fun _ => trivial
    have hrun := (Relation.ReflTransGen.single (hstep emptyDrive (ascii "x") (by decide))).tail
      (hstep withX (ascii "y") (by decide))
    obtain ⟨c, hc, hlists⟩ := (hlisted _ hrun _).mp hstays
    have hnone : (uploadsX withX (ascii "y") none).2.world.contents.all
        (fun c => !listsChunk c.chunkHashes (sampleServices.sha256 (ascii "y"))) = true := by
      decide +kernel
    have hnot := List.all_eq_true.mp hnone c hc
    rw [hlists] at hnot
    cases hnot

end SolarDrive.Runs
