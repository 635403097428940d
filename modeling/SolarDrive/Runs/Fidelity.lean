import SolarDrive.Runs.Sessions

/-!
# What was uploaded is what is downloaded

Every action of a history keeps the record and the stores together: uploads and
completions, copies of shared files, deletions and the collector, and the rest,
which touch neither. So what a download answers with is what the record says.
-/

namespace SolarDrive.Runs

open Lib Http Api Metadata Prog

/-! ## Copies of shared files -/

section Save

variable {svc : Services} {pg : Postgres} {g : Record} {w w' : World}

/-- A share that is found without counting is the row with the token. -/
theorem finds_resolveShare (token password : Bytes) :
    Finds svc pg (resolveShare svc token password false) w fun found => ∀ share,
      found = .ok share → ∃ s, w.shares.find? (·.shareToken = cstr token) = some s ∧
        share = shareRecord pg s := by
  have hrefused : ∀ (code : Int) (msg : String) (draws : Nat → Nat),
      Finds svc pg (refuse svc code msg : App (Answered ShareRecord)) { w with draws } fun found =>
        ∀ share, found = .ok share → ∃ s, w.shares.find? (·.shareToken = cstr token) = some s ∧
          share = shareRecord pg s := by
    intro code msg draws
    refine finds_bind (finds_reads (reads_setError svc code _)) fun resp _ _ => finds_pure ?_
    rintro share ⟨⟩
  unfold resolveShare
  split
  · exact hrefused _ _ w.draws
  refine finds_bind (finds_ask rfl) fun found draws hfound => ?_
  cases found with
  | none => exact hrefused _ _ draws
  | some share =>
  dsimp only
  split
  · exact hrefused _ _ draws
  refine finds_bind (finds_reads (reads_shareExpired share)) fun expired draws _ => ?_
  split
  · exact hrefused _ _ draws
  refine finds_bind (finds_reads (reads_checkPassword svc share password)) fun checked draws _ => ?_
  cases checked with
  | error resp => exact finds_pure nofun
  | ok _ =>
  refine finds_pure ?_
  rintro _ ⟨⟩
  have hquery : findByToken pg w token = .ok (some share) := hfound
  simp only [findByToken, bind_eq_ok] at hquery
  obtain ⟨t, ht, hret⟩ := hquery
  obtain ⟨-, rfl⟩ := textParam_ok.mp ht
  obtain ⟨s, hs, rfl⟩ := Option.map_eq_some_iff.mp (Except.ok.inj hret)
  exact ⟨s, hs, rfl⟩

/-- A file that is found by its id is live, and so is the record of it. -/
theorem fileFindById_ok {json : JsonLib} (hpg : pg.Lawful json) {id : Uuid} {record : FileRecord}
    (h : fileFindById pg w id.text = .ok (some record)) :
    ∃ f ∈ w.files, f.live = true ∧ f.id = id ∧ fileRecord pg w f = some record := by
  simp only [fileFindById, bind_eq_ok] at h
  obtain ⟨u, hu, hret⟩ := h
  obtain rfl : id = u := Except.ok.inj ((uuidParam_text hpg id).symm.trans hu)
  obtain ⟨f, hf, hid, hlive, hrec⟩ := selectFiles_head (Except.ok.inj hret)
  exact ⟨f, hf, hlive, of_decide_eq_true hid, hrec⟩

/-- No new file, or one with the bytes of the file that is shared. -/
def SavedCopy (svc : Services) (g : Record) (w₀ : World) (req : HttpRequest) (w : World) : Prop :=
  Before svc g w₀ w ∨ ∃ (bytes : Bytes) (row : FileRow),
    (sharedFile svc w₀ req).bind g.bytes = some bytes ∧ w.contents = w₀.contents ∧
      After svc g w₀ bytes 0 row w

theorem savedCopy_handleShareSave (hpg : pg.Lawful svc.json)
    (hlen : ∀ d, 2 ≤ (svc.digest d).length) (req : HttpRequest) (h : Faithful svc g w) :
    (handleShareSave svc req).wp (ofExec (exec svc pg))
      (fun _ w' => SavedCopy svc g w req w') w := by
  have hcalm : ∀ {w₁ : World} {p : App HttpResponse}, p.CallsOnly calm →
      SavedCopy svc g w req w₁ →
      p.wp (ofExec (exec svc pg)) (fun _ w' => SavedCopy svc g w req w') w₁ := by
    rintro w₁ p hp (hbefore | ⟨bytes, row, hbytes, hcontents, hafter⟩)
    · exact wp_mono (wp_calm_before hpg hlen hp hbefore) fun _ _ hw => Or.inl hw
    · refine wp_mono (wp_of_callsOnly
        (fun w' => After svc g w bytes 0 row w' ∧ w'.contents = w.contents) ?_ hp
        ⟨hafter, hcontents⟩) fun _ _ hw => Or.inr ⟨bytes, row, hbytes, hw.2, hw.1⟩
      exact fun _ _ hc hw => ⟨trivial, fun _ _ hexec =>
        ⟨hw.1.step hpg hlen hc hexec, (calm_tables hc hexec).2.trans hw.2⟩⟩
  have hw : SavedCopy svc g w req w := Or.inl h.before
  refine wp_catch (M := fun _ w' => SavedCopy svc g w req w') ?_ (fun _ _ h' => h')
    fun e w' h' => hcalm (calm_of_readsOnly (reads_catchJson svc _ e)) h'
  split
  swap
  · exact hcalm (calm_of_readsOnly (reads_setError svc _ _)) hw
  refine wp_finds_bind (finds_jsonParse _) (fun body draws hparse => ?_)
    fun e draws => Or.inl (h.before.draws draws)
  cases hread : readSaveBody body with
  | error e => exact Or.inl (h.before.draws draws)
  | ok fields =>
  obtain ⟨token, password⟩ := fields
  show (resolveShare svc token password false >>= _ : App HttpResponse).wp _ _ _
  refine wp_finds_bind (finds_resolveShare token password) (fun found draws' hfound => ?_)
    fun e draws' => Or.inl (h.before.draws draws')
  have hb : Before svc g w { w with draws := draws' } := h.before.draws draws'
  cases found with
  | error resp => exact Or.inl hb
  | ok share =>
  obtain ⟨s, hs, rfl⟩ := hfound share rfl
  have hshared : sharedFile svc w req = some s.fileId := by
    have hs' : w.shares.find? (·.shareToken = cstr token) = some s := hs
    simp only [sharedFile, hparse, hread, hs', Option.map_some]
  refine wp_finds_bind (finds_ask rfl) (fun file draws₂ hfile => ?_)
    fun e draws₂ => Or.inl (hb.draws draws₂)
  have hb₂ : Before svc g w { w with draws := draws₂ } := hb.draws draws₂
  cases file with
  | none => exact hcalm (calm_of_readsOnly (reads_setError svc _ _)) (Or.inl hb₂)
  | some record =>
  obtain ⟨f, hf, hlive, hid, hrec⟩ := fileFindById_ok (w := w) hpg hfile
  -- the copy is a link to the content of the file that is shared
  obtain ⟨c, bytes, hc, hbytes, hhash⟩ := h.files f hf hlive
  obtain ⟨c', hc', rfl⟩ := Option.map_eq_some_iff.mp hrec
  have hcid : c.id = f.contentId := by simpa using List.find?_some hc
  refine wp_finds_bind (finds_reads (reads_makeUniqueName _ _ _)) (fun name draws₃ _ => ?_)
    fun e draws₃ => Or.inl (hb₂.draws draws₃)
  have hb₃ : Before svc g w { w with draws := draws₃ } := hb₂.draws draws₃
  have hlinked : ∀ {file : FileRecord} {r : Except Exn Bytes} {w₁ : World},
      exec svc pg (.insertLink file f.contentId.text) { w with draws := draws₃ } = (r, w₁) →
      SavedCopy svc g w req w₁ := by
    intro file r w₁ hexec
    have hout : Outcome svc g w bytes 0 w₁ :=
      outcome_insertLink hb₃ (c := c) (by rw [hcid]; exact uuidParam_text hpg _) (hcid ▸ hc) hhash
        hexec
    rcases hout with hbefore | ⟨row, hafter⟩
    · exact Or.inl hbefore
    · refine Or.inr ⟨bytes, row, by rw [hshared, ← hid]; exact hbytes, ?_, hafter⟩
      rcases exec_insertLink hexec with ⟨e, -, rfl⟩ | ⟨row', -, -, rfl⟩ <;> rfl
  refine wp_request_bind trivial (fun newId w₁ hexec => ?_) fun e w₁ hexec => hlinked hexec
  exact hcalm (calm_of_readsOnly (reads_setJson svc _)) (hlinked hexec)

end Save

/-! ## Deletions, the collector, and the other requests -/

section Quiet

variable {svc : Services} {pg : Postgres} {g : Record} {w w' : World}

/-- The record is as it was, and no content is new. -/
structure Quiet (svc : Services) (g : Record) (w₀ w : World) : Prop where
  faithful : Faithful svc g w
  contents : ∀ c ∈ w.contents, c ∈ w₀.contents

theorem Faithful.quiet (h : Faithful svc g w) : Quiet svc g w w := ⟨h, fun _ hc => hc⟩

variable (hpg : pg.Lawful svc.json) (hlen : ∀ d, 2 ≤ (svc.digest d).length)

include hpg hlen in
theorem Quiet.step {w₀ : World} (h : Quiet svc g w₀ w) {c : Call} {r : Except Exn c.Resp}
    (hc : harmless svc pg c) (hexec : exec svc pg c w = (r, w')) : Quiet svc g w₀ w' := by
  obtain ⟨hfaithful, hcontents⟩ := h.faithful.step hpg hlen hc hexec
  exact ⟨hfaithful, fun c hc => h.contents c (hcontents c hc)⟩

include hpg hlen in
theorem wp_quiet {w₀ : World} {α : Type} {p : App α} (hp : p.CallsOnly (harmless svc pg))
    (h : Quiet svc g w₀ w) :
    p.wp (ofExec (exec svc pg)) (fun _ w' => Quiet svc g w₀ w') w :=
  wp_of_callsOnly (fun w' => Quiet svc g w₀ w')
    (fun _ _ hc h₁ => ⟨trivial, fun _ _ hexec => h₁.step hpg hlen hc hexec⟩) hp h

theorem harmless_of_readsOnly {α : Type} {p : App α} (hp : Reads p) :
    p.CallsOnly (harmless svc pg) := hp.mono fun _ hc => harmless_of_reads hc

/-- What the database returns for content is the array of its digests. -/
theorem Faithful.digestText (h : Faithful svc g w) {c : ContentRow} (hc : c ∈ w.contents) :
    DigestText svc pg (contentRecord pg c).chunkHashes := by
  obtain ⟨data, hchunks, -, -⟩ := h.rows c hc
  exact ⟨data, congrArg pg.jsonbOut hchunks⟩

theorem contentFindById_ok {id : Bytes} {record : ContentRecord}
    (h : contentFindById pg w id = .ok (some record)) :
    ∃ c ∈ w.contents, record = contentRecord pg c ∧ pg.uuidParam id = .ok c.id := by
  simp only [contentFindById, bind_eq_ok] at h
  obtain ⟨u, hu, hret⟩ := h
  obtain ⟨c, hc, rfl⟩ := Option.map_eq_some_iff.mp (Except.ok.inj hret)
  have hid : c.id = u := by simpa using List.find?_some hc
  exact ⟨c, List.mem_of_find?_eq_some hc, rfl, hid ▸ hu⟩

include hpg hlen in
theorem quiet_tryCollectContent {w₀ : World} (h : Quiet svc g w₀ w) (contentId : Bytes) :
    (tryCollectContent contentId).wp (ofExec (exec svc pg)) (fun _ w' => Quiet svc g w₀ w') w := by
  unfold tryCollectContent
  split
  · exact h
  refine wp_request_bind trivial (fun content w₁ hexec => ?_) fun e w₁ hexec => ?_
  all_goals
    obtain ⟨hr, rfl⟩ := Prod.mk.inj
      (show exec svc pg (.contentFindById contentId) w = (_, w₁) from hexec)
  · cases content with
    | none => exact h
    | some record =>
        have hquery : contentFindById pg w contentId = .ok (some record) := hr
        obtain ⟨c, hc, rfl, -⟩ := contentFindById_ok hquery
        exact wp_quiet hpg hlen (callsOnly_request (h.faithful.digestText hc)) h
  · exact h

include hpg hlen in
theorem quiet_handleFileDelete (req : HttpRequest) (h : Faithful svc g w) :
    (handleFileDelete svc req).wp (ofExec (exec svc pg)) (fun _ w' => Quiet svc g w w') w := by
  have hreads : ∀ {w₁ : World} {p : App HttpResponse}, Reads p → Quiet svc g w w₁ →
      p.wp (ofExec (exec svc pg)) (fun _ w' => Quiet svc g w w') w₁ :=
    fun hp h₁ => wp_quiet hpg hlen (harmless_of_readsOnly hp) h₁
  refine wp_catch (M := fun _ w' => Quiet svc g w w') ?_ (fun _ _ h' => h')
    fun e w' h' => hreads (reads_catchStd svc _ e) h'
  split
  swap
  · exact hreads (reads_setError svc _ _) h.quiet
  dsimp only
  split
  · exact hreads (reads_setError svc _ _) h.quiet
  refine wp_seq (wp_quiet hpg hlen (harmless_of_readsOnly (reads_requireOwnedFile svc _ _)) h.quiet)
    ?_ fun _ _ h₁ => h₁
  intro owned w₁ h₁
  cases owned with
  | error resp => exact h₁
  | ok file =>
  refine wp_seq (wp_quiet hpg hlen (callsOnly_request trivial) h₁) ?_ fun _ _ h₂ => h₂
  intro _ w₂ h₂
  refine wp_seq (wp_quiet hpg hlen (callsOnly_request trivial) h₂) ?_ fun _ _ h₃ => h₃
  intro _ w₃ h₃
  exact wp_seq (quiet_tryCollectContent hpg hlen h₃ _) (fun _ _ h₄ => h₄) fun _ _ h₄ => h₄

include hpg hlen in
/-- The collector is given content that the database has returned. -/
theorem quiet_collectOrphans (batchLimit : Nat) (h : Faithful svc g w) :
    (collectOrphans batchLimit).wp (ofExec (exec svc pg)) (fun _ w' => Quiet svc g w w') w := by
  have hall : ∀ orphans : List ContentRecord,
      (∀ record ∈ orphans, DigestText svc pg record.chunkHashes) →
      (purgeAll orphans).CallsOnly (harmless svc pg) := by
    intro orphans horphans
    induction orphans with
    | nil => exact callsOnly_pure _
    | cons record orphans ih =>
        refine callsOnly_bind (callsOnly_request (horphans _ List.mem_cons_self)) fun _ => ?_
        exact callsOnly_bind (ih fun r hr => horphans r (List.mem_cons_of_mem _ hr)) fun _ =>
          callsOnly_pure _
  refine wp_request_bind trivial (fun orphans w₁ hexec => ?_) fun e w₁ hexec => ?_
  all_goals
    obtain ⟨hr, rfl⟩ := Prod.mk.inj
      (show exec svc pg (.listOrphans batchLimit) w = (_, w₁) from hexec)
  swap
  · exact h.quiet
  refine wp_quiet hpg hlen (hall orphans fun record hrecord => ?_) h.quiet
  rw [← Except.ok.inj hr] at hrecord
  obtain ⟨c, hc, rfl⟩ := List.mem_map.mp hrecord
  exact h.digestText (List.mem_of_mem_filter (List.mem_of_mem_take hc))

/-- The requests that the record does not speak of. -/
theorem calm_handler (svc : Services) {route : RouteName} (req : HttpRequest)
    (hroute : route ≠ .upload ∧ route ≠ .uploadInit ∧ route ≠ .uploadPart ∧
      route ≠ .uploadComplete ∧ route ≠ .shareSave ∧ route ≠ .fileDelete) :
    (handler svc route req).CallsOnly calm := by
  have hreads : ∀ c, readOnly c = true → calm c := fun _ hc => calm_of_reads hc
  have hcache : ∀ token text ttl, calm (.redisSet (shareKey token) text ttl) :=
    fun token _ _ => shareKey_ne token
  cases route with
  | health => exact callsOnly_pure _
  | metrics => exact callsOnly_pure _
  | register => exact callsOnly_handleRegister hreads svc req fun _ _ => trivial
  | login => exact calm_of_readsOnly (reads_handleLogin svc req)
  | uploadStatus => exact calm_of_readsOnly (reads_handleStatus svc req)
  | uploadAbort => exact callsOnly_handleAbort hreads svc req fun _ => trivial
  | fileList => exact calm_of_readsOnly (reads_handleFileList svc req)
  | folderList => exact calm_of_readsOnly (reads_handleFolderList svc req)
  | folderCreate => exact callsOnly_handleFolderCreate hreads svc req fun _ _ => trivial
  | folderRename => exact callsOnly_handleFolderRename hreads svc req fun _ _ => trivial
  | folderDelete => exact callsOnly_handleFolderDelete hreads svc req fun _ => trivial
  | fileDownload => exact calm_of_readsOnly (reads_downloadRoute svc req)
  | shareCreate => exact callsOnly_handleShareCreate hreads svc req (fun _ => trivial) hcache
  | shareList => exact calm_of_readsOnly (reads_handleShareList svc req)
  | shareRevoke => exact callsOnly_handleShareRevoke hreads svc req (fun _ => trivial) fun _ => trivial
  | shareDownload => exact callsOnly_handleShareDownload hreads svc req (fun _ => trivial) hcache
  | upload => exact absurd rfl hroute.1
  | uploadInit => exact absurd rfl hroute.2.1
  | uploadPart => exact absurd rfl hroute.2.2.1
  | uploadComplete => exact absurd rfl hroute.2.2.2.1
  | shareSave => exact absurd rfl hroute.2.2.2.2.1
  | fileDelete => exact absurd rfl hroute.2.2.2.2.2

end Quiet

/-! ## One action -/

section Action

variable {svc : Services} {pg : Postgres} {g : Record} {w w' : World}

theorem newFile_same (h : w'.files = w.files) : newFile w w' = none := by
  rw [newFile, h, List.find?_eq_none]
  intro id hid
  obtain ⟨f, hf, rfl⟩ := List.mem_map.mp hid
  have hany : w.files.any (·.id = f.id) = true :=
    List.any_eq_true.mpr ⟨f, hf, decide_eq_true rfl⟩
  simp [hany]

theorem newFile_added {row : FileRow} (hfresh : ∀ f ∈ w.files, f.id ≠ row.id)
    (hfiles : w'.files = w.files ++ [row]) : newFile w w' = some row.id := by
  have hold : newFile w w = none := newFile_same rfl
  have hnew : w.files.any (·.id = row.id) = false :=
    List.any_eq_false.mpr fun f hf => by simpa using hfresh f hf
  rw [newFile] at hold ⊢
  rw [hfiles, List.map_append, List.find?_append, hold]
  simp [hnew]

theorem Before.added (h : Before svc g w w') (bytes : Option Bytes) :
    Faithful svc (g.addFile w w' bytes) w' := by
  rw [Record.addFile, newFile_same h.files]
  exact h.faithful

theorem After.added {bytes : Bytes} {size : Int} {row : FileRow}
    (h : After svc g w bytes size row w') : Faithful svc (g.addFile w w' (some bytes)) w' := by
  rw [Record.addFile, newFile_added h.fresh h.files]
  exact h.faithful

/-- Where new content comes from: a single upload, with the size of its body, or
a completed session, with the size that it declares. -/
def Accounted (svc : Services) (s : World × Record) (c : ContentRow) : Action → Prop
  | .request .upload req =>
      svc.oversized c.size = false ∧ c.hash = svc.sha256 req.body ∧ c.size = req.body.length
  | .request .uploadComplete req =>
      svc.oversized c.size = false ∧ ∃ (bodies : List Bytes) (n : Nat),
        DeclaredFor s.1 s.2 req bodies n ∧ c.hash = svc.sha256 bodies.flatten ∧ c.size = n
  | _ => False

/-- The record is kept, and content with a new hash is accounted for. -/
structure Keeps (svc : Services) (s : World × Record) (a : Action) (s' : World × Record) :
    Prop where
  faithful : Faithful svc s'.2 s'.1
  contents : ∀ c ∈ s'.1.contents, c ∈ s.1.contents ∨
    Accounted svc s c a ∧ ∀ d ∈ s.1.contents, d.hash ≠ c.hash

theorem Quiet.keeps (h : Quiet svc g w w') (a : Action) : Keeps svc (w, g) a (w', g) :=
  ⟨h.faithful, fun c hc => Or.inl (h.contents c hc)⟩

variable (hjson : svc.json.Lawful) (hpg : pg.Lawful svc.json)
  (hlen : ∀ d, 2 ≤ (svc.digest d).length) (hinj : Function.Injective svc.sha256)

include hjson hpg hlen hinj in
theorem keeps_upload (req : HttpRequest) (h : Faithful svc g w) :
    Keeps svc (w, g) (.request .upload req) (recorded svc pg (w, g) (.request .upload req)) := by
  rcases run_of_wp (outcome_uploadRoute hjson hpg hlen hinj req h) with
    hbefore | ⟨row, hafter⟩
  · exact ⟨hbefore.added _, fun c hc => Or.inl (hbefore.contents ▸ hc)⟩
  · refine ⟨hafter.added, fun c hc => (hafter.contents c hc).imp_right ?_⟩
    rintro ⟨hhash, hsize, hfits, hnew⟩
    exact ⟨⟨hsize ▸ hfits, hhash, hsize⟩, hnew⟩

include hjson in
theorem keeps_uploadInit (req : HttpRequest) (h : Faithful svc g w) :
    Keeps svc (w, g) (.request .uploadInit req)
      (recorded svc pg (w, g) (.request .uploadInit req)) := by
  have hans := run_of_wp (show (handleInit svc req).wp (ofExec (exec svc pg)) _ w from
    answers_handleInit hjson req h)
  refine ⟨?_, fun c hc => Or.inl (hans.grown.contents ▸ hc)⟩
  show Faithful svc (if _ then _ else _ : Record) _
  split
  · rename_i hok
    exact (hans.accepted hok).1
  · rename_i hno
    exact (hans.refused (Bool.eq_false_iff.mpr hno)).1

include hjson hpg hlen in
theorem keeps_uploadPart (req : HttpRequest) (h : Faithful svc g w) :
    Keeps svc (w, g) (.request .uploadPart req)
      (recorded svc pg (w, g) (.request .uploadPart req)) := by
  have hans := run_of_wp (answers_handleUploadPart hjson hpg hlen req h)
  refine ⟨?_, fun c hc => Or.inl (hans.grown.contents ▸ hc)⟩
  show Faithful svc (if _ then _ else _ : Record) _
  split
  · rename_i hok
    exact (hans.accepted hok).1
  · rename_i hno
    exact (hans.refused (Bool.eq_false_iff.mpr hno)).1

include hjson hpg hlen hinj in
theorem keeps_uploadComplete (req : HttpRequest) (h : Faithful svc g w) :
    Keeps svc (w, g) (.request .uploadComplete req)
      (recorded svc pg (w, g) (.request .uploadComplete req)) := by
  rcases run_of_wp (completed_handleComplete hjson hpg hlen hinj req h) with
    hbefore | ⟨bodies, n, row, hdeclared, hafter⟩
  · exact ⟨hbefore.added _, fun c hc => Or.inl (hbefore.contents ▸ hc)⟩
  · refine ⟨?_, fun c hc => (hafter.contents c hc).imp_right ?_⟩
    · show Faithful svc (g.addFile w _ (joined (g.parts (pathSession req)))) _
      rw [hdeclared.parts, joined_map_some]
      exact hafter.added
    · rintro ⟨hhash, hsize, hfits, hnew⟩
      exact ⟨⟨hsize ▸ hfits, bodies, n, hdeclared, hhash, hsize⟩, hnew⟩

include hpg hlen in
theorem keeps_shareSave (req : HttpRequest) (h : Faithful svc g w) :
    Keeps svc (w, g) (.request .shareSave req)
      (recorded svc pg (w, g) (.request .shareSave req)) := by
  rcases run_of_wp (savedCopy_handleShareSave hpg hlen req h) with
    hbefore | ⟨bytes, row, hbytes, hcontents, hafter⟩
  · exact ⟨hbefore.added _, fun c hc => Or.inl (hbefore.contents ▸ hc)⟩
  · refine ⟨?_, fun c hc => Or.inl (hcontents ▸ hc)⟩
    show Faithful svc (g.addFile w _ ((sharedFile svc w req).bind g.bytes)) _
    rw [hbytes]
    exact hafter.added

/-- The clock and Redis' expiry. -/
theorem Faithful.expire (h : Faithful svc g w) (key : Bytes) : Faithful svc g (redisDel key w) := by
  refine h.congr h.objects (fun _ _ hd => hd) rfl (fun _ hf _ => hf) fun id => ?_
  by_cases hkey : cstr (sessionKey id) = cstr key
  · refine Or.inr ?_
    show Function.update w.redis (cstr key) none (cstr (sessionKey id)) = none
    rw [hkey, Function.update_self]
  · exact Or.inl (Function.update_of_ne hkey _ _)

include hjson hpg hlen hinj in
/-- One action of a history. -/
theorem Faithful.recorded (h : Faithful svc g w) (a : Action) :
    Keeps svc (w, g) a (recorded svc pg (w, g) a) := by
  cases a with
  | tick time =>
      exact ⟨h.congr h.objects (fun _ _ hd => hd) rfl (fun _ hf _ => hf) fun _ => Or.inl rfl,
        fun c hc => Or.inl hc⟩
  | expire key => exact ⟨h.expire key, fun c hc => Or.inl hc⟩
  | collect batchLimit => exact (run_of_wp (quiet_collectOrphans hpg hlen batchLimit h)).keeps _
  | request route req =>
      by_cases hroute : route ≠ .upload ∧ route ≠ .uploadInit ∧ route ≠ .uploadPart ∧
          route ≠ .uploadComplete ∧ route ≠ .shareSave ∧ route ≠ .fileDelete
      · have hquiet := run_of_wp (wp_quiet hpg hlen
          ((calm_handler svc req hroute).mono fun _ hc => harmless_of_calm hc) h.quiet)
        have hobserve : (Runs.recorded svc pg (w, g) (.request route req)).2 = g := by
          cases route with
          | upload => exact absurd rfl hroute.1
          | uploadInit => exact absurd rfl hroute.2.1
          | uploadPart => exact absurd rfl hroute.2.2.1
          | uploadComplete => exact absurd rfl hroute.2.2.2.1
          | shareSave => exact absurd rfl hroute.2.2.2.2.1
          | _ => rfl
        refine ⟨?_, fun c hc => Or.inl (hquiet.contents c hc)⟩
        rw [hobserve]
        exact hquiet.faithful
      · cases route with
        | upload => exact keeps_upload hjson hpg hlen hinj req h
        | uploadInit => exact keeps_uploadInit hjson req h
        | uploadPart => exact keeps_uploadPart hjson hpg hlen req h
        | uploadComplete => exact keeps_uploadComplete hjson hpg hlen hinj req h
        | shareSave => exact keeps_shareSave hpg hlen req h
        | fileDelete => exact (run_of_wp (quiet_handleFileDelete hpg hlen req h)).keeps _
        | _ => exact absurd (by decide) hroute

end Action

/-! ## Downloads -/

section Download

variable {svc : Services} {pg : Postgres} {g : Record} {w : World}

/-- The id that a download names, in its path or in its query. -/
def requestedFile (req : HttpRequest) : Bytes :=
  if req.getPathParam (ascii "id") = [] then queryParam req.query (ascii "file_id")
  else req.getPathParam (ascii "id")

/-- A call that succeeds, and then the rest. -/
theorem wp_success_bind {α : Type} {c : Call} {a : c.Resp} {f : c.Resp → App α}
    {Q : Except Exn α → World → Prop} (hexec : exec svc pg c w = (.ok a, w))
    (hok : (f a).wp (ofExec (exec svc pg)) Q w) :
    (ask c >>= f).wp (ofExec (exec svc pg)) Q w := by
  refine wp_request_bind trivial (fun b w₁ h => ?_) fun e w₁ h => ?_
  · obtain ⟨hr, rfl⟩ := Prod.mk.inj (hexec.symm.trans h)
    obtain rfl : a = b := Except.ok.inj hr
    exact hok
  · cases (Prod.mk.inj (hexec.symm.trans h)).1

theorem storeGet_digest (hlen : ∀ d, 2 ≤ (svc.digest d).length) {d : Bytes}
    (h : w.store (svc.sha256 d) = some d) : storeGet w (svc.sha256 d) = .ok d := by
  have hlong : ¬ (svc.sha256 d).length < 4 := Nat.not_lt.mpr (sha256_length hlen d)
  rw [storeGet, if_neg hlong, h]

/-- Chunks that are there are read, one after the other. -/
theorem wp_getChunked (hlen : ∀ d, 2 ≤ (svc.digest d).length) : ∀ data : List Bytes,
    (∀ d ∈ data, w.store (svc.sha256 d) = some d) →
    (getChunked (data.map svc.sha256)).wp (ofExec (exec svc pg))
      (fun r w' => r = .ok data.flatten ∧ w' = w) w
  | [], _ => ⟨rfl, rfl⟩
  | d :: data, h => by
      have hstored : exec svc pg (.get (svc.sha256 d)) w = (.ok d, w) :=
        Prod.ext (storeGet_digest hlen (h d List.mem_cons_self)) rfl
      refine wp_success_bind hstored ?_
      refine wp_seq (wp_getChunked hlen data fun x hx => h x (List.mem_cons_of_mem _ hx)) ?_ ?_
      · rintro rest w' ⟨hr, rfl⟩
        rw [Except.ok.inj hr]
        exact ⟨rfl, rfl⟩
      · rintro e w' ⟨hr, -⟩
        cases hr

/-- A live file that its owner asks for is found, perhaps as another row with the
same id. -/
theorem Faithful.findOwned (h : Faithful svc g w) (hpg : pg.Lawful svc.json) {f : FileRow}
    (hf : f ∈ w.files) (hlive : f.live = true) :
    ∃ record, findOwnedById pg w f.ownerId.text f.id.text = .ok (some record) := by
  let p : FileRow → Bool := fun x => decide (x.id = f.id) && decide (x.ownerId = f.ownerId)
  have hmem : f ∈ w.files.filter fun x => p x && x.live :=
    List.mem_filter.mpr ⟨hf, by simp [p, hlive]⟩
  obtain ⟨c, bytes, hc, -⟩ := h.files f hf hlive
  have hrec : (fileRecord pg w f).isSome = true := by rw [fileRecord, hc]; rfl
  obtain ⟨r, hr⟩ := Option.isSome_iff_exists.mp hrec
  have hselect : r ∈ selectFiles pg w p := List.mem_filterMap.mpr ⟨f, hmem, hr⟩
  cases hhead : (selectFiles pg w p).head? with
  | none =>
      rw [List.head?_eq_none_iff.mp hhead] at hselect
      exact absurd hselect List.not_mem_nil
  | some record =>
      refine ⟨record, ?_⟩
      rw [findOwnedById, uuidParam_text hpg, uuidParam_text hpg]
      exact congrArg Except.ok hhead

theorem findOwnedById_row (hpg : pg.Lawful svc.json) {owner id : Uuid} {record : FileRecord}
    (h : findOwnedById pg w owner.text id.text = .ok (some record)) :
    ∃ f ∈ w.files, f.live = true ∧ f.id = id ∧ fileRecord pg w f = some record := by
  rw [findOwnedById, uuidParam_text hpg, uuidParam_text hpg] at h
  obtain ⟨f, hf, hp, hlive, hrec⟩ := selectFiles_head (Except.ok.inj h)
  rw [Bool.and_eq_true] at hp
  exact ⟨f, hf, hlive, of_decide_eq_true hp.1, hrec⟩

theorem wp_requireOwnedFile {owner id userId : Bytes} {record : FileRecord}
    (h : findOwnedById pg w owner id = .ok (some record)) (huser : userId = owner)
    (hne : owner ≠ []) :
    (requireOwnedFile svc userId id).wp (ofExec (exec svc pg))
      (fun r w' => r = .ok (.ok record) ∧ w' = w) w := by
  subst huser
  have hfound : exec svc pg (.findOwnedById userId id) w = (.ok (some record), w) := Prod.ext h rfl
  unfold requireOwnedFile
  rw [if_neg hne]
  exact wp_success_bind hfound ⟨rfl, rfl⟩

/-- The answer of a download. -/
def fileAnswer (name mimeType bytes : Bytes) : HttpResponse :=
  (HttpResponse.setBinary {} bytes
    (if mimeType = [] then ascii "application/octet-stream" else mimeType)).setDownloadHeaders name
      bytes.length

/-- What the owner of a live file gets for it: what the row with this id says. -/
theorem Faithful.download_row (h : Faithful svc g w) (hpg : pg.Lawful svc.json)
    (hlen : ∀ d, 2 ≤ (svc.digest d).length) (hinj : Function.Injective svc.sha256) {f : FileRow}
    (hf : f ∈ w.files) (hlive : f.live = true) {req : HttpRequest}
    (huser : req.authUserId = f.ownerId.text) (hid : requestedFile req = f.id.text) :
    ∃ f' ∈ w.files, f'.live = true ∧ f'.id = f.id ∧ ∃ c bytes,
      w.findContent f'.contentId = some c ∧ g.bytes f'.id = some bytes ∧
        (serve svc pg .fileDownload req w).1 = .ok (fileAnswer f'.name c.mimeType bytes) := by
  obtain ⟨record, hfound⟩ := h.findOwned hpg hf hlive
  obtain ⟨f', hf', hlive', hid', hrec⟩ := findOwnedById_row hpg hfound
  obtain ⟨c, bytes, hc, hbytes, hhash⟩ := h.files f' hf' hlive'
  refine ⟨f', hf', hlive', hid', c, bytes, hc, hbytes, ?_⟩
  obtain ⟨data, hchunks, hdata, hthere⟩ := h.rows c (List.mem_of_find?_eq_some hc)
  have hjoin : data.flatten = bytes := hinj (hdata.symm.trans hhash)
  rw [fileRecord, hc] at hrec
  obtain rfl := Option.some.inj hrec
  have hauth : req.hasAuthUser = true := by
    rw [HttpRequest.hasAuthUser, huser]
    cases htext : f.ownerId.text with
    | nil => exact absurd htext (Uuid.text_ne_nil _)
    | cons b bs => rfl
  have howned : (downloadOwned svc req.authUserId f.id.text).wp (ofExec (exec svc pg))
      (fun r _ => r = .ok (fileAnswer f'.name c.mimeType bytes)) w := by
    refine wp_seq (wp_requireOwnedFile hfound huser (Uuid.text_ne_nil _)) ?_ ?_
    swap
    · rintro e w' ⟨hr, -⟩
      cases hr
    intro found w₁ hw₁
    obtain rfl : w = w₁ := hw₁.2.symm
    rw [Except.ok.inj hw₁.1]
    have hparse : svc.json.parse (pg.jsonbOut c.chunkHashes) =
        .ok (hashArray (data.map svc.sha256)) := by
      rw [hchunks]
      exact parse_jsonbOut_digests svc hpg data
    have hread : exec svc pg (.jsonParse (pg.jsonbOut c.chunkHashes)) w =
        (.ok (hashArray (data.map svc.sha256)), w) := exec_jsonParse hparse
    refine wp_success_bind hread ?_
    show (ofJson ((hashArray (data.map svc.sha256)).getArray Json.getString) >>= _ :
      App HttpResponse).wp _ _ _
    rw [getArray_hashArray]
    show (getChunked (data.map svc.sha256) >>= _ : App HttpResponse).wp _ _ _
    refine wp_seq (wp_getChunked hlen data hthere) ?_ ?_
    · rintro content w' ⟨hr, -⟩
      obtain rfl : content = data.flatten := Except.ok.inj hr
      rw [hjoin]
      rfl
    · rintro e w' ⟨hr, -⟩
      cases hr
  have hhandle : (downloadHandle svc req).wp (ofExec (exec svc pg))
      (fun r _ => r = .ok (fileAnswer f'.name c.mimeType bytes)) w := by
    refine wp_catch (M := fun r _ => r = .ok (fileAnswer f'.name c.mimeType bytes)) ?_
      (fun _ _ h' => h') (by simp)
    rw [hauth]
    show (if requestedFile req = [] then _ else downloadOwned svc req.authUserId
      (requestedFile req) : App HttpResponse).wp _ _ _
    rw [hid, if_neg (Uuid.text_ne_nil _)]
    exact howned
  have hroute : (downloadRoute svc req).wp (ofExec (exec svc pg))
      (fun r _ => r = .ok (fileAnswer f'.name c.mimeType bytes)) w :=
    wp_catch hhandle (fun _ _ h' => h') (by simp)
  exact run_of_wp hroute

/-- What the owner of a live file gets for it. -/
theorem Faithful.download (h : Faithful svc g w) (hpg : pg.Lawful svc.json)
    (hlen : ∀ d, 2 ≤ (svc.digest d).length) (hinj : Function.Injective svc.sha256) {f : FileRow}
    (hf : f ∈ w.files) (hlive : f.live = true) {req : HttpRequest}
    (huser : req.authUserId = f.ownerId.text) (hid : requestedFile req = f.id.text) :
    ∃ resp bytes, (serve svc pg .fileDownload req w).1 = .ok resp ∧ resp.statusCode = 200 ∧
      g.bytes f.id = some bytes ∧ resp.body = bytes := by
  obtain ⟨f', -, -, hid', c, bytes, -, hbytes, hr⟩ :=
    h.download_row hpg hlen hinj hf hlive huser hid
  exact ⟨_, bytes, hr, rfl, hid' ▸ hbytes, rfl⟩

end Download

/-! ## Histories -/

section History

variable {svc : Services} {pg : Postgres}

/-- The world and the record after a history. -/
def history (svc : Services) (pg : Postgres) (w₀ : World) (actions : List Action) :
    World × Record :=
  actions.foldl (recorded svc pg) (w₀, {})

/-- What an action keeps whenever the record is faithful, a history keeps. -/
theorem history_faithful (hjson : svc.json.Lawful) (hpg : pg.Lawful svc.json)
    (hlen : ∀ d, 2 ≤ (svc.digest d).length) (hinj : Function.Injective svc.sha256) {w₀ : World}
    (h₀ : Initial w₀) (actions : List Action) :
    Faithful svc (history svc pg w₀ actions).2 (history svc pg w₀ actions).1 := by
  have hrun : ∀ (actions : List Action) (s : World × Record), Faithful svc s.2 s.1 →
      Faithful svc (actions.foldl (recorded svc pg) s).2
        (actions.foldl (recorded svc pg) s).1 := by
    intro actions
    induction actions with
    | nil => exact fun s hs => hs
    | cons a actions ih =>
        exact fun s hs => ih _ (hs.recorded hjson hpg hlen hinj a).faithful
  exact hrun actions (w₀, {}) (h₀.faithful {})

/-- **In every state of a history, each content row has its chunks in the store
and the hash of them put together, and the owner of a live file downloads the
bytes that were uploaded for it.** -/
theorem downloads_as_uploaded (hjson : svc.json.Lawful) (hpg : pg.Lawful svc.json)
    (hlen : ∀ d, 2 ≤ (svc.digest d).length) (hinj : Function.Injective svc.sha256) {w₀ : World}
    (h₀ : Initial w₀) (actions : List Action) :
    (∀ c ∈ (history svc pg w₀ actions).1.contents, Backed svc (history svc pg w₀ actions).1 c) ∧
      ∀ f ∈ (history svc pg w₀ actions).1.files, f.live = true →
        ∃ bytes, (history svc pg w₀ actions).2.bytes f.id = some bytes ∧
          ∀ req : HttpRequest, req.authUserId = f.ownerId.text →
            requestedFile req = f.id.text →
            ∃ resp, (serve svc pg .fileDownload req (history svc pg w₀ actions).1).1 = .ok resp ∧
              resp.statusCode = 200 ∧ resp.body = bytes := by
  have h := history_faithful hjson hpg hlen hinj h₀ actions
  refine ⟨h.rows, fun f hf hlive => ?_⟩
  obtain ⟨c, bytes, -, hbytes, -⟩ := h.files f hf hlive
  refine ⟨bytes, hbytes, fun req huser hid => ?_⟩
  obtain ⟨resp, bytes', hr, hstatus, hbytes', hbody⟩ :=
    h.download hpg hlen hinj hf hlive huser hid
  obtain rfl : bytes = bytes' := Option.some.inj (hbytes.symm.trans hbytes')
  exact ⟨resp, hr, hstatus, hbody⟩

/-- Alice uploads a file and gets it back. -/
theorem alice_downloads :
    ∃ f ∈ (history sampleServices samplePostgres twoUsers
        [uploadBy aliceId "a.txt" (ascii "xy")]).1.files,
      ∀ req : HttpRequest, req.authUserId = aliceId.text → requestedFile req = f.id.text →
        ∃ resp, (serve sampleServices samplePostgres .fileDownload req
            (history sampleServices samplePostgres twoUsers
              [uploadBy aliceId "a.txt" (ascii "xy")]).1).1 = .ok resp ∧
          resp.statusCode = 200 ∧ resp.body = ascii "xy" := by
  have h := (downloads_as_uploaded sampleServices_lawful samplePostgres_lawful
    sampleServices_digest_length sampleServices_sha256_injective twoUsers_initial
    [uploadBy aliceId "a.txt" (ascii "xy")]).2
  have hfile : (history sampleServices samplePostgres twoUsers
      [uploadBy aliceId "a.txt" (ascii "xy")]).1.files.any (fun f => f.live &&
        decide (f.ownerId = aliceId) && decide ((history sampleServices samplePostgres twoUsers
          [uploadBy aliceId "a.txt" (ascii "xy")]).2.bytes f.id = some (ascii "xy"))) = true := by
    decide +kernel
  obtain ⟨f, hf, hprops⟩ := List.any_eq_true.mp hfile
  simp only [Bool.and_eq_true, decide_eq_true_eq] at hprops
  obtain ⟨⟨hlive, howner⟩, hbytes⟩ := hprops
  obtain ⟨bytes, hbytes', hall⟩ := h f hf hlive
  obtain rfl : bytes = ascii "xy" := Option.some.inj (hbytes'.symm.trans hbytes)
  rw [howner] at hall
  exact ⟨f, hf, hall⟩

end History

end SolarDrive.Runs
