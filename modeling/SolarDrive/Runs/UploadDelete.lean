import SolarDrive.Api.Courses
import SolarDrive.Lib.Pool
import SolarDrive.Metadata.Inversion

/-!
# Uploads beside deletions

Any number of uploads and deletions run at once, one store operation or
transaction at a time. An upload stores its chunks first and inserts the row
that lists them last, and `put` skips a chunk that is there; the collector
removes the chunks that no committed row lists. Between the two, a chunk that
an upload counts on can be removed, and the row inserted afterwards lists a
chunk that is gone.

`chunksPresent_of_run` shows that this is the only way: if no collector's step
removes a chunk on which an unfinished upload counts (`Pending`), every listed
chunk is in the store in every state of the run.
-/

namespace SolarDrive.Runs

open Lib Http Api Metadata Prog

abbrev Log : Type := List (Event Call Call.Resp Exn)

abbrev Process : Type := Proc Call Call.Resp Exn HttpResponse

/-- Each chunk hash that a content row lists is in the store. -/
def ChunksPresent (w : World) : Prop :=
  ∀ c ∈ w.contents, ∀ h, listsChunk c.chunkHashes h = true → (w.store h).isSome = true

/-- What the process was told by the store. -/
def StoredIn (log : Log) (h : Bytes) : Prop :=
  ∃ data, (⟨.put data, .ok h⟩ : Event Call Call.Resp Exn) ∈ log

def InsertedIn (log : Log) : Prop :=
  ∃ file r, (⟨.fileInsert file, r⟩ : Event Call Call.Resp Exn) ∈ log

/-- The process is running, has stored the chunk, and has not inserted yet. -/
def Pending (p : Process) (h : Bytes) : Prop :=
  (∃ c k, p.prog = .call c k) ∧ StoredIn p.log h ∧ ¬ InsertedIn p.log

/-- The collector is about to remove `h`: its content has no live file and no
other content lists it. -/
def Doomed (svc : Services) (pg : Postgres) (w : World) (content : ContentRecord) (h : Bytes) :
    Prop :=
  ∃ id hashes, pg.uuidParam content.id = .ok id ∧ w.fileLives id = false ∧
    (w.findContent id).isSome = true ∧
    parseChunkHashes svc.json content.chunkHashes = some hashes ∧ h ∈ hashes ∧
    chunkHashInUse (withoutContent id w).contents h = false

/-- The step is not a collector's that removes a pending chunk. -/
def SparesPending {ι : Type} (svc : Services) (pg : Postgres) (w : World)
    (P : Pool ι Call Call.Resp Exn HttpResponse) (_ : ι) (c : Call) (_ : World) : Prop :=
  ∀ content, c = .purgeContent content → ∀ j h, Pending (P j) h → ¬ Doomed svc pg w content h

/-! ## What the two handlers do -/

section Discipline

variable (svc : Services) (pg : Postgres)

/-- The text of an array of digests, as a query returns it. -/
def DigestText (t : Bytes) : Prop :=
  ∃ data : List Bytes, t = pg.jsonbOut (hashArray (data.map svc.sha256))

/-- Rows are inserted once, and list chunks stored before; the collector is
given what the database returned. -/
def disciplined (log : Log) : Call → Prop
  | .fileInsert file => ¬ InsertedIn log ∧ ∃ data : List Bytes,
      svc.json.dump (hashArray (data.map svc.sha256)) = .ok file.chunkHashes ∧
        ∀ d ∈ data, StoredIn log (svc.sha256 d)
  | .purgeContent content => DigestText svc pg content.chunkHashes
  | _ => True

/-- The outcomes the two handlers rely on. -/
def Expected : (c : Call) → Except Exn c.Resp → Prop
  | .put data, r => ∀ h, r = .ok h → h = svc.sha256 data
  | .contentFindById _, r => ∀ c, r = .ok (some c) → DigestText svc pg c.chunkHashes
  | _, _ => True

/-- The calls that need no justification. -/
def free : Call → Bool
  | .fileInsert _ | .purgeContent _ => false
  | _ => true

abbrev logs : Interface Call Call.Resp Exn Log :=
  logInterface (disciplined svc pg) (Expected svc pg)

variable {svc pg} {α : Type}

theorem disciplined_of_free {c : Call} (hc : free c = true) (log : Log) :
    disciplined svc pg log c := by
  cases c with
  | fileInsert file => cases hc
  | purgeContent content => cases hc
  | _ => trivial

theorem wp_free {p : App α} (hp : p.CallsOnly fun c => free c = true) (log : Log) :
    p.wp (logs svc pg) (fun _ _ => True) log :=
  wp_of_callsOnly (fun _ => True)
    (fun s _ hc _ => ⟨disciplined_of_free hc s, fun _ _ _ => trivial⟩) hp trivial

theorem not_insertedIn_append {log : Log} (h : ¬ InsertedIn log) {c : Call} (hc : free c = true)
    (r : Except Exn c.Resp) : ¬ InsertedIn (log ++ [⟨c, r⟩]) := by
  rintro ⟨file, r', hmem⟩
  rcases List.mem_append.mp hmem with hmem | hmem
  · exact h ⟨file, r', hmem⟩
  · rw [List.mem_singleton] at hmem
    cases hmem
    cases hc

/-- Before the insertion, a free program does not insert. -/
theorem wp_free_before {p : App α} (hp : p.CallsOnly fun c => free c = true) {log : Log}
    (h : ¬ InsertedIn log) : p.wp (logs svc pg) (fun _ log' => ¬ InsertedIn log') log := by
  refine wp_of_callsOnly (fun log => ¬ InsertedIn log) (fun s c hc hs => ?_) hp h
  refine ⟨disciplined_of_free hc s, ?_⟩
  rintro r _ ⟨-, rfl⟩
  exact not_insertedIn_append hs hc r

theorem free_of_reads {p : App α} (hp : Reads p) : p.CallsOnly fun c => free c = true := by
  refine hp.mono fun c hc => ?_
  cases c with
  | fileInsert file => cases hc
  | purgeContent content => cases hc
  | _ => rfl

theorem storedIn_mono {log : Log} {h : Bytes} (hs : StoredIn log h) (more : Log) :
    StoredIn (log ++ more) h := by
  obtain ⟨data, hmem⟩ := hs
  exact ⟨data, List.mem_append_left _ hmem⟩

/-- The chunks are in the log with their digests once they are stored. -/
theorem wp_putAll : ∀ (chunks : List Bytes) {log : Log}, ¬ InsertedIn log →
    (putAll chunks).wp (logs svc pg) (fun r log' => ¬ InsertedIn log' ∧ (∃ more, log' = log ++ more) ∧
      ∀ hs, r = .ok hs → hs = chunks.map svc.sha256 ∧ ∀ d ∈ chunks, StoredIn log' (svc.sha256 d)) log
  | [], log, hlog => ⟨hlog, ⟨[], (List.append_nil log).symm⟩, fun hs hr => by
      cases hr
      exact ⟨rfl, fun _ hd => absurd hd List.not_mem_nil⟩⟩
  | chunk :: chunks, log, hlog => by
      refine wp_request_bind trivial ?_ ?_
      · rintro h log₁ ⟨hput, rfl⟩
        obtain rfl : h = svc.sha256 chunk := hput h rfl
        have hlog₁ := not_insertedIn_append hlog (c := .put chunk) rfl (.ok (svc.sha256 chunk))
        refine wp_seq (wp_putAll chunks hlog₁) ?_ ?_
        · rintro hs log₂ ⟨hlog₂, ⟨more, rfl⟩, hres⟩
          obtain ⟨rfl, hstored⟩ := hres hs rfl
          refine ⟨hlog₂, ⟨_, List.append_assoc _ _ _⟩, fun hs' hr => ?_⟩
          cases hr
          refine ⟨rfl, fun d hd => ?_⟩
          rcases List.mem_cons.mp hd with rfl | hd
          · exact storedIn_mono ⟨d, List.mem_append_right _ (List.mem_singleton.mpr rfl)⟩ more
          · exact hstored d hd
        · rintro e log₂ ⟨hlog₂, ⟨more, rfl⟩, -⟩
          exact ⟨hlog₂, ⟨_, List.append_assoc _ _ _⟩, fun _ hr => by cases hr⟩
      · rintro e log₁ ⟨-, rfl⟩
        exact ⟨not_insertedIn_append hlog rfl _, ⟨_, rfl⟩, fun _ hr => by cases hr⟩

theorem free_rememberHash (hash contentId : Bytes) :
    (rememberHash svc hash contentId).CallsOnly fun c => free c = true := by
  unfold rememberHash
  split
  · exact callsOnly_bind (callsOnly_request rfl) fun _ => callsOnly_pure _
  · exact callsOnly_pure _

theorem free_indexContent (hash : Bytes) :
    (indexContent svc hash).CallsOnly fun c => free c = true := by
  unfold indexContent
  split
  · refine callsOnly_bind (callsOnly_request rfl) fun content => ?_
    cases content with
    | none => exact callsOnly_pure _
    | some c => exact free_rememberHash _ _
  · exact callsOnly_pure _

theorem free_link (content : FileRecord) (filename mimeType userId folderId fileHash : Bytes)
    (size : Int) :
    (linkExistingContent content filename mimeType userId folderId >>= fun fileId =>
      instantAnswer svc fileId fileHash size).CallsOnly fun c => free c = true := by
  refine callsOnly_bind ?_ fun _ => free_of_reads (reads_setJson svc _)
  exact callsOnly_bind (free_of_reads (reads_makeUniqueName _ _ _)) fun _ => callsOnly_request rfl

theorem wp_uploadNew {body filename mimeType userId folderId fileHash : Bytes} {log : Log}
    (hlog : ¬ InsertedIn log) :
    (uploadNew svc body filename mimeType userId folderId fileHash).wp (logs svc pg)
      (fun _ _ => True) log := by
  refine wp_seq (wp_putAll _ hlog) ?_ fun _ _ _ => trivial
  rintro hs log₁ ⟨hlog₁, -, hres⟩
  obtain ⟨rfl, hstored⟩ := hres hs rfl
  cases hdump : svc.json.dump (hashArray ((chunksOf svc.storeChunkSize body).map svc.sha256)) with
  | error w => trivial
  | ok chunkHashes =>
      refine wp_request_bind ⟨hlog₁, _, hdump, hstored⟩ (fun fileId log₂ _ => ?_)
        fun _ _ _ => trivial
      exact wp_free (callsOnly_bind (free_indexContent _) fun _ =>
        free_of_reads (reads_setJson svc _)) log₂

theorem wp_uploadContent {body filename mimeType userId folderId : Bytes} {log : Log}
    (hlog : ¬ InsertedIn log) :
    (uploadContent svc body filename mimeType userId folderId).wp (logs svc pg)
      (fun _ _ => True) log := by
  refine course_uploadContent (P := fun log => ¬ InsertedIn log) (U := fun log => ¬ InsertedIn log)
    (K := fun _ _ => True) ?_ ?_ (fun _ h => h) ?_ ?_ (fun _ h => wp_uploadNew h) hlog
  · intro log k hlog hk
    refine wp_request_bind trivial ?_ fun _ _ _ => trivial
    rintro cached log₁ ⟨-, rfl⟩
    exact hk cached _ (not_insertedIn_append hlog rfl _)
  · intro log k hlog hnone hsome
    refine wp_request_bind trivial ?_ fun _ _ _ => trivial
    rintro content log₁ ⟨-, rfl⟩
    cases content with
    | none => exact hnone _ (not_insertedIn_append hlog rfl _)
    | some c => exact hsome c _ trivial
  · exact fun c log k _ hk => wp_seq (wp_free (free_rememberHash _ _) log)
      (fun _ log₁ _ => hk log₁ trivial) fun _ _ _ => trivial
  · exact fun c log _ => wp_free (free_link _ _ _ _ _ _ _) log

theorem wp_uploadRoute (req : HttpRequest) :
    (uploadRoute svc req).wp (logs svc pg) (fun _ _ => True) [] := by
  have hempty : ¬ InsertedIn [] := by
    rintro ⟨file, r, hmem⟩
    exact absurd hmem List.not_mem_nil
  have herr : ∀ code msg log, (svc.setError code msg).wp (logs svc pg) (fun _ _ => True) log :=
    fun code msg log => wp_free (free_of_reads (reads_setError svc code msg)) log
  refine course_uploadRoute (P := fun log => ¬ InsertedIn log) (F := fun _ log => ¬ InsertedIn log)
    (fun code msg log _ => herr code msg log) (fun _ log _ => herr _ _ log) ?_
    (fun _ log hlog _ => wp_uploadContent hlog) hempty
  intro log k hlog hrefused hfound
  refine wp_seq (wp_free_before (free_of_reads (reads_resolveFolderId svc _ _)) hlog) ?_
    fun _ _ _ => trivial
  intro folder log₁ hlog₁
  cases folder with
  | error resp => exact hrefused resp log₁ trivial
  | ok folderId => exact hfound folderId log₁ hlog₁

theorem wp_handleFileDelete (req : HttpRequest) :
    (handleFileDelete svc req).wp (logs svc pg) (fun _ _ => True) [] := by
  have herr : ∀ code msg log, (svc.setError code msg).wp (logs svc pg) (fun _ _ => True) log :=
    fun code msg log => wp_free (free_of_reads (reads_setError svc code msg)) log
  refine wp_catch (M := fun _ _ => True) ?_ (fun _ _ _ => trivial) fun _ _ _ => herr _ _ _
  split
  · dsimp only
    split
    · exact herr _ _ _
    · refine wp_seq (wp_free (free_of_reads (reads_requireOwnedFile svc _ _)) _) ?_
        fun _ _ _ => trivial
      intro owned log₁ _
      cases owned with
      | error resp => trivial
      | ok file =>
          refine wp_request_bind trivial (fun _ log₂ _ => ?_) fun _ _ _ => trivial
          refine wp_request_bind trivial (fun _ log₃ _ => ?_) fun _ _ _ => trivial
          refine wp_seq (M := fun _ _ => True) ?_ (fun _ _ _ => trivial) fun _ _ _ => trivial
          -- the collector gets the record the database has just returned
          unfold tryCollectContent
          split
          · trivial
          · refine wp_request_bind trivial ?_ fun _ _ _ => trivial
            rintro content log₄ ⟨hfound, -⟩
            cases content with
            | none => trivial
            | some c =>
                exact wp_request.mpr ⟨hfound c rfl, fun _ _ _ => trivial⟩
  · exact herr _ _ _

end Discipline

/-! ## The run -/

section Run

variable {svc : Services} {pg : Postgres} {ι : Type} [DecidableEq ι]

/-- The rows list digests of what the store holds. -/
def RowsBacked (svc : Services) (w : World) : Prop :=
  ∀ c ∈ w.contents, ∃ data : List Bytes, c.chunkHashes = hashArray (data.map svc.sha256) ∧
    ∀ d ∈ data, (w.store (svc.sha256 d)).isSome = true

theorem RowsBacked.chunksPresent {w : World} (h : RowsBacked svc w) : ChunksPresent w := by
  intro c hc x hx
  obtain ⟨data, hdata, hstore⟩ := h c hc
  rw [hdata, listsChunk_hashArray] at hx
  obtain ⟨d, hd, rfl⟩ := List.mem_map.mp hx
  exact hstore d hd

theorem RowsBacked.mono {w w' : World} (h : RowsBacked svc w) (hcontents : w'.contents = w.contents)
    (hstore : ∀ x, (w.store x).isSome = true → (w'.store x).isSome = true) : RowsBacked svc w' := by
  intro c hc
  rw [hcontents] at hc
  obtain ⟨data, hdata, hpresent⟩ := h c hc
  exact ⟨data, hdata, fun d hd => hstore _ (hpresent d hd)⟩

/-- The invariant: the rows are backed, every process is somewhere in its
handler, and what unfinished uploads count on is there. -/
structure Safe (svc : Services) (pg : Postgres) (w : World)
    (P : Pool ι Call Call.Resp Exn HttpResponse) : Prop where
  rows : RowsBacked svc w
  follows : ∀ i, Follows (disciplined svc pg) (Expected svc pg) (fun _ _ => True) (P i)
  pending : ∀ i h, Pending (P i) h → (w.store h).isSome = true

theorem expected_of_exec {w w' : World} {c : Call} {r : Except Exn c.Resp}
    (hrows : RowsBacked svc w) (h : exec svc pg c w = (r, w')) : Expected svc pg c r := by
  cases c with
  | put data =>
      rintro x rfl
      rcases exec_put h with ⟨-, ⟨hr, -⟩ | ⟨hr, -⟩⟩ | ⟨hr, -⟩
      · cases hr
      · exact Except.ok.inj hr
      · exact Except.ok.inj hr
  | contentFindById id =>
      rintro c rfl
      have hfind : contentFindById pg w id = .ok (some c) := congrArg Prod.fst h
      simp only [contentFindById, bind_eq_ok] at hfind
      obtain ⟨u, -, hret⟩ := hfind
      obtain ⟨row, hrow, rfl⟩ := Option.map_eq_some_iff.mp (Except.ok.inj hret)
      obtain ⟨data, hdata, -⟩ := hrows row (List.mem_of_find?_eq_some hrow)
      exact ⟨data, congrArg pg.jsonbOut hdata⟩
  | _ => trivial

/-- After a step a chunk is pending because it was, or because it has just
been stored. -/
theorem pending_advance {P : Pool ι Call Call.Resp Exn HttpResponse} {i j : ι} {c : Call}
    {k : Except Exn c.Resp → App HttpResponse} {r : Except Exn c.Resp} {h : Bytes}
    (hp : (P i).prog = .call c k) (hpend : Pending (P.advance i c r (k r) j) h) :
    Pending (P j) h ∨
      ∃ data, (⟨c, r⟩ : Event Call Call.Resp Exn) = ⟨.put data, .ok h⟩ := by
  by_cases hj : j = i
  · subst hj
    rw [Pool.advance_self] at hpend
    obtain ⟨-, ⟨data, hmem⟩, hins⟩ := hpend
    rcases List.mem_append.mp hmem with hmem | hmem
    · refine Or.inl ⟨⟨c, k, hp⟩, ⟨data, hmem⟩, ?_⟩
      rintro ⟨file, r', hfile⟩
      exact hins ⟨file, r', List.mem_append_left _ hfile⟩
    · exact Or.inr ⟨data, (List.mem_singleton.mp hmem).symm⟩
  · rw [Pool.advance_ne P hj] at hpend
    exact Or.inl hpend

/-- A sweep keeps the rows backed: what it removes no remaining row lists. -/
theorem rowsBacked_withoutContent {w : World} {id : Uuid} {store : Bytes → Option Bytes}
    (hrows : RowsBacked svc w)
    (hstore : ∀ h, store h = w.store h ∨
      chunkHashInUse (withoutContent id w).contents h = false) :
    RowsBacked svc { withoutContent id w with store } := by
  intro c hc
  obtain ⟨data, hdata, hpresent⟩ := hrows c (List.mem_of_mem_filter hc)
  refine ⟨data, hdata, fun d hd => ?_⟩
  rcases hstore (svc.sha256 d) with heq | hunused
  · show (store (svc.sha256 d)).isSome = true
    rw [heq]
    exact hpresent d hd
  · have huse : chunkHashInUse (withoutContent id w).contents (svc.sha256 d) = true := by
      refine List.any_eq_true.mpr ⟨c, hc, ?_⟩
      rw [hdata, listsChunk_hashArray]
      exact List.mem_map_of_mem hd
    rw [hunused] at huse
    cases huse

/-- `put` only adds, and what it names is there. -/
theorem put_step {w w' : World} {data : Bytes} {r : Except Exn Bytes}
    (h : exec svc pg (.put data) w = (r, w')) :
    w'.contents = w.contents ∧ (∀ x, (w.store x).isSome = true → (w'.store x).isSome = true) ∧
      ∀ x, r = .ok x → (w'.store x).isSome = true := by
  rcases exec_put h with ⟨rfl, ⟨rfl, -⟩ | ⟨rfl, hsome⟩⟩ | ⟨rfl, -, rfl⟩
  · refine ⟨rfl, fun _ hx => hx, ?_⟩
    rintro x ⟨⟩
  · refine ⟨rfl, fun _ hx => hx, ?_⟩
    rintro x ⟨⟩
    exact hsome
  · have hself : (Function.update w.store (svc.sha256 data) (some data) (svc.sha256 data)).isSome =
        true := by
      rw [Function.update_self]
      rfl
    refine ⟨rfl, fun x hx => ?_, ?_⟩
    · show (Function.update w.store (svc.sha256 data) (some data) x).isSome = true
      by_cases hxd : x = svc.sha256 data
      · rw [hxd]
        exact hself
      · rw [Function.update_of_ne hxd]
        exact hx
    · rintro x ⟨⟩
      exact hself

variable (hjson : svc.json.Lawful) (hpg : pg.Lawful svc.json)
  (hlen : ∀ d, 2 ≤ (svc.digest d).length)

include hpg hlen in
/-- What a collector's step does to rows and objects. -/
theorem purge_step {w w' : World} {content : ContentRecord} {r : Except Exn GcStats}
    (hrows : RowsBacked svc w) (htext : DigestText svc pg content.chunkHashes)
    (h : exec svc pg (.purgeContent content) w = (r, w')) :
    RowsBacked svc w' ∧ ∀ x, (w.store x).isSome = true → (w'.store x).isSome = true ∨
      Doomed svc pg w content x := by
  cases exec_purgeContent h with
  | nothing => exact ⟨hrows, fun x hx => Or.inl hx⟩
  | @swept id hashes store _ b hid hlive hparse hrow hstore hb =>
      obtain ⟨data, hdata⟩ := htext
      obtain rfl : hashes = data.map svc.sha256 := by
        rw [hdata, parseChunkHashes_digests svc hpg] at hparse
        exact (Option.some.inj hparse).symm
      have hgood : ∀ hash ∈ data.map svc.sha256, ∃ t, pg.textParam hash = .ok t ∧ 4 ≤ t.length := by
        intro hash hh
        obtain ⟨d, -, rfl⟩ := List.mem_map.mp hh
        exact ⟨_, textParam_sha256 svc d, sha256_length hlen d⟩
      obtain rfl : b = true := hb hgood
      refine ⟨rowsBacked_withoutContent hrows fun x => (hstore x).imp_right fun h => h.2.1, ?_⟩
      intro x hx
      rcases hstore x with heq | ⟨-, hunused, hash, hmem, hparam⟩
      · refine Or.inl ?_
        show (store x).isSome = true
        rw [heq]
        exact hx
      · obtain ⟨d, hd, rfl⟩ := List.mem_map.mp hmem
        rw [textParam_sha256] at hparam
        cases hparam
        exact Or.inr ⟨id, _, hid, hlive, hrow, hparse, hmem, hunused⟩

include hjson hpg in
/-- A row is inserted when all it lists is there. -/
theorem insert_step {w w' : World} {log : Log} {file : FileRecord} {r : Except Exn Bytes}
    (hrows : RowsBacked svc w) (hdis : disciplined svc pg log (.fileInsert file))
    (hstored : ∀ h, StoredIn log h → (w.store h).isSome = true)
    (h : exec svc pg (.fileInsert file) w = (r, w')) :
    RowsBacked svc w' ∧ w'.store = w.store := by
  obtain ⟨-, data, hdump, hlog⟩ := hdis
  rcases exec_fileInsert hpg h with ⟨e, -, rfl⟩ | ⟨row, contents, c, hens, -, -, -, rfl⟩
  · exact ⟨hrows.mono rfl fun _ hx => hx, rfl⟩
  · refine ⟨?_, rfl⟩
    cases hens with
    | found _ _ => exact hrows.mono rfl fun _ hx => hx
    | created _ hchunks _ _ =>
        intro c' hc'
        rcases List.mem_append.mp hc' with hold | hnew
        · exact hrows c' hold
        · obtain rfl := List.mem_singleton.mp hnew
          exact ⟨data, jsonbParam_dump svc hjson hpg hdump hchunks,
            fun d hd => hstored _ (hlog d hd)⟩

include hjson hpg hlen in
theorem safe_step {w w' : World} {P : Pool ι Call Call.Resp Exn HttpResponse} {i : ι} {c : Call}
    {k : Except Exn c.Resp → App HttpResponse} {r : Except Exn c.Resp} (hsafe : Safe svc pg w P)
    (hp : (P i).prog = .call c k) (hexec : exec svc pg c w = (r, w'))
    (hcond : SparesPending svc pg w P i c w') : Safe svc pg w' (P.advance i c r (k r)) := by
  have hdis := (hsafe.follows i).pre_call hp
  have hfollows : ∀ j, Follows (disciplined svc pg) (Expected svc pg) (fun _ _ => True)
      (P.advance i c r (k r) j) :=
    Follows.advance hsafe.follows hp (expected_of_exec hsafe.rows hexec)
  -- it remains to see what the call does to rows and to pending chunks
  have hfinish : RowsBacked svc w' → (∀ j h, Pending (P j) h → (w'.store h).isSome = true) →
      (∀ data h, (⟨c, r⟩ : Event Call Call.Resp Exn) = ⟨.put data, .ok h⟩ →
        (w'.store h).isSome = true) → Safe svc pg w' (P.advance i c r (k r)) := by
    intro hrows hpend hput
    refine ⟨hrows, hfollows, fun j h hj => ?_⟩
    rcases pending_advance hp hj with hold | ⟨data, heq⟩
    · exact hpend j h hold
    · exact hput data h heq
  have hkeep : w'.contents = w.contents → w'.store = w.store → (∀ data, c ≠ .put data) →
      Safe svc pg w' (P.advance i c r (k r)) := by
    intro hcontents hstore hput
    refine hfinish (hsafe.rows.mono hcontents fun x hx => by rwa [hstore]) ?_ ?_
    · intro j h hj
      rw [hstore]
      exact hsafe.pending j h hj
    · intro data h heq
      cases heq
      exact absurd rfl (hput data)
  cases c with
  | put data =>
      obtain ⟨hcontents, hmono, hnew⟩ := put_step hexec
      refine hfinish (hsafe.rows.mono hcontents hmono)
        (fun j h hj => hmono h (hsafe.pending j h hj)) ?_
      intro d h heq
      cases heq
      exact hnew h rfl
  | fileInsert file =>
      have hstored : ∀ h, StoredIn (P i).log h → (w.store h).isSome = true :=
        fun h hs => hsafe.pending i h ⟨⟨_, k, hp⟩, hs, hdis.1⟩
      obtain ⟨hrows, hstore⟩ := insert_step hjson hpg hsafe.rows hdis hstored hexec
      refine hfinish hrows (fun j h hj => ?_) fun _ _ heq => by cases heq
      rw [hstore]
      exact hsafe.pending j h hj
  | purgeContent content =>
      obtain ⟨hrows, hstore⟩ := purge_step hpg hlen hsafe.rows hdis hexec
      refine hfinish hrows (fun j h hj => ?_) fun _ _ heq => by cases heq
      rcases hstore h (hsafe.pending j h hj) with hkept | hdoomed
      · exact hkept
      · exact absurd hdoomed (hcond content rfl j h hj)
  | _ =>
      obtain ⟨hstore, hcontents⟩ := exec_contents (fun _ h => by cases h) (fun _ h => by cases h)
        (fun _ h => by cases h) hexec
      exact hkeep hcontents hstore fun _ h => by cases h

include hjson hpg hlen in
/-- **No chunk is lost** in a run of uploads and deletions in which no
collector removes a chunk that an unfinished upload has stored. -/
theorem chunksPresent_of_run {w₀ w : World} {P₀ P : Pool ι Call Call.Resp Exn HttpResponse}
    (hrows : RowsBacked svc w₀)
    (hstart : ∀ i, (P₀ i).log = [] ∧
      ∃ req, (P₀ i).prog = uploadRoute svc req ∨ (P₀ i).prog = handleFileDelete svc req)
    (hrun : Pool.Run (exec svc pg) (SparesPending svc pg) w₀ P₀ w P) : ChunksPresent w := by
  have hinit : Safe svc pg w₀ P₀ := by
    refine ⟨hrows, fun i => ?_, fun i h hpend => ?_⟩
    · obtain ⟨hlog, req, hprog | hprog⟩ := hstart i
      · rw [Follows, hlog, hprog]
        exact wp_uploadRoute req
      · rw [Follows, hlog, hprog]
        exact wp_handleFileDelete req
    · obtain ⟨-, ⟨data, hmem⟩, -⟩ := hpend
      rw [(hstart i).1] at hmem
      exact absurd hmem List.not_mem_nil
  have hsafe : Safe svc pg w P := hrun.invariant (Safe svc pg) hinit
    fun hs hcall hexec hcond => safe_step hjson hpg hlen hs hcall hexec hcond
  exact hsafe.rows.chunksPresent

end Run

/-! ### A deletion and an upload -/

def aliceId : Uuid where
  text := ascii "a0000000-0000-4000-8000-000000000000"
  isText := by decide +kernel

scoped instance neZero_three : NeZero 3 := ⟨by decide⟩

scoped instance neZero_eight : NeZero 8 := ⟨by decide⟩

/-- Ids for samples, told apart by their first digit. -/
def sampleId (n : Fin 8) : Uuid where
  text := hexDigit n :: ascii "0000000-0000-4000-8000-000000000000"
  isText := by
    revert n
    decide +kernel

/-- Alice has one file, with the content `x`. -/
def oneFile : World where
  store h := if h = sampleServices.sha256 (ascii "x") then some (ascii "x") else none
  files := [{ id := sampleId 1, name := ascii "x.txt", ownerId := aliceId, folderId := none
              contentId := sampleId 2, createdAt := 0, deletedAt := none }]
  contents := [{ id := sampleId 2, hash := sampleServices.sha256 (ascii "x"), size := 1
                 chunkHashes := hashArray [sampleServices.sha256 (ascii "x")]
                 mimeType := ascii "text/plain" }]
  folders := []
  shares := []
  users := [{ id := aliceId, username := ascii "alice", passwordHash := [] }]
  redis _ := none
  time := 0
  draws n := n
  uuids n := sampleId (if n % 2 = 0 then 3 else 4)

/-- Process 0 uploads `xy`, in chunks of one byte; process 1 deletes the file. -/
def uploadBesideDelete : Pool (Fin 2) Call Call.Resp Exn HttpResponse := fun i =>
  { log := []
    prog :=
      if i = 0 then uploadRoute sampleServices { body := ascii "xy", authUserId := aliceId.text }
      else handleFileDelete sampleServices
        { pathParams := [(ascii "id", (sampleId 1).text)], authUserId := aliceId.text } }

theorem uploadBesideDelete_start (i : Fin 2) : (uploadBesideDelete i).log = [] ∧
    ∃ req, (uploadBesideDelete i).prog = uploadRoute sampleServices req ∨
      (uploadBesideDelete i).prog = handleFileDelete sampleServices req := by
  refine ⟨rfl, ?_⟩
  by_cases hi : i = 0
  · exact ⟨_, Or.inl (if_pos hi)⟩
  · exact ⟨_, Or.inr (if_neg hi)⟩

theorem oneFile_rowsBacked : RowsBacked sampleServices oneFile := by
  intro c hc
  obtain rfl := List.mem_singleton.mp hc
  refine ⟨[ascii "x"], rfl, fun d hd => ?_⟩
  obtain rfl := List.mem_singleton.mp hd
  show (if sampleServices.sha256 (ascii "x") = sampleServices.sha256 (ascii "x") then
    some (ascii "x") else none).isSome = true
  rw [if_pos rfl]
  rfl

/-- The collector runs only while no process has stored anything. -/
def collectsFirst (_ : World) (P : Pool (Fin 2) Call Call.Resp Exn HttpResponse) (_ : Fin 2)
    (c : Call) : Bool :=
  match c with
  | .purgeContent _ => [0, 1].all fun i => (P i).log.all fun e =>
      match e.call with
      | .put _ => false
      | _ => true
  | _ => true

/-- The deletion comes first, and the upload stores `x` again. -/
theorem upload_after_delete : ∃ w P,
    Pool.Run (exec sampleServices samplePostgres) (SparesPending sampleServices samplePostgres)
      oneFile uploadBesideDelete w P ∧
    w.contents.map ContentRow.hash = [sampleServices.sha256 (ascii "xy")] ∧ ChunksPresent w := by
  have hspares : ∀ w P i c w', collectsFirst w P i c = true →
      SparesPending sampleServices samplePostgres w P i c w' := by
    rintro w P i _ w' hcheck content rfl j h ⟨-, ⟨data, hmem⟩, -⟩
    have hall : ∀ j : Fin 2, j ∈ [(0 : Fin 2), 1] := by decide
    have hj := List.all_eq_true.mp hcheck j (hall j)
    exact absurd (List.all_eq_true.mp hj _ hmem) (by simp)
  have hrun : ((Pool.runSchedule (exec sampleServices samplePostgres) collectsFirst
      [1, 1, 1, 1, 1, 0, 0, 0, 0, 0, 0, 0] oneFile uploadBesideDelete).any fun p =>
        p.1.contents.map ContentRow.hash == [sampleServices.sha256 (ascii "xy")]) = true := by
    decide +kernel
  obtain ⟨⟨w, P⟩, hsched, hrows⟩ := (Option.any_eq_true _ _).mp hrun
  have hr := Pool.run_of_schedule hspares hsched
  exact ⟨w, P, hr, by simpa using hrows, chunksPresent_of_run sampleServices_lawful
    samplePostgres_lawful sampleServices_digest_length oneFile_rowsBacked uploadBesideDelete_start hr⟩

/-- The upload skips `x`, which is there; the deletion removes it; the upload
stores `y` and inserts a row that lists both. -/
theorem chunk_lost_before_insert : RowsBacked sampleServices oneFile ∧ ∃ w P,
    Pool.Run (exec sampleServices samplePostgres) (fun _ _ _ _ _ => True)
      oneFile uploadBesideDelete w P ∧ ¬ ChunksPresent w := by
  have hrun : ((Pool.runSchedule (exec sampleServices samplePostgres) (fun _ _ _ _ => true)
      [0, 0, 0, 1, 1, 1, 1, 1, 0, 0] oneFile uploadBesideDelete).any fun p =>
        p.1.contents.any (fun c => listsChunk c.chunkHashes (sampleServices.sha256 (ascii "x"))) &&
          (p.1.store (sampleServices.sha256 (ascii "x"))).isNone) = true := by
    decide +kernel
  obtain ⟨⟨w, P⟩, hsched, hlost⟩ := (Option.any_eq_true _ _).mp hrun
  refine ⟨oneFile_rowsBacked, w, P, Pool.run_of_schedule (fun _ _ _ _ _ _ => trivial) hsched,
    fun hpresent => ?_⟩
  rw [Bool.and_eq_true, List.any_eq_true] at hlost
  obtain ⟨⟨c, hc, hlists⟩, hgone⟩ := hlost
  have hthere := hpresent c hc _ hlists
  rw [Option.isSome_iff_ne_none] at hthere
  exact hthere (Option.isNone_iff_eq_none.mp hgone)

end SolarDrive.Runs
