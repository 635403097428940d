import SolarDrive.Metadata.Names
import SolarDrive.Runs.Fidelity
import SolarDrive.Runs.NameConflicts
import SolarDrive.Runs.Sizes
import SolarDrive.Runs.Tenant

/-!
# What an upload of known content reports

The MIME type and the size of a file are columns of its content row. A link to
content that is there carries the MIME type of the upload, and
`insert_link` does not write it: the file is reported with what the first
uploader of these bytes said.
-/

namespace SolarDrive.Runs

open Lib Http Api Metadata Prog

/-- What is said of a file when it is uploaded, and its bytes. -/
structure Declared where
  owner : Bytes
  name : Bytes
  mimeType : Bytes
  size : Int
  bytes : Bytes

/-- The MIME type that a row for new content gets. -/
def storedMime (mimeType : Bytes) : Bytes :=
  cstr (if mimeType = [] then ascii "application/octet-stream" else mimeType)

/-- What a single upload says. -/
def singleUpload (req : HttpRequest) : Declared where
  owner := req.authUserId
  name := resolveFilename req
  mimeType := resolveMimeType req
  size := req.body.length
  bytes := req.body

/-- What the request uploads: its body, or the parts of the session it completes. -/
inductive Brings (s : World × Record) : Action → Declared → Prop
  | single (req : HttpRequest) : Brings s (.request .upload req) (singleUpload req)
  | parts {req : HttpRequest} {bodies : List Bytes} {n : Nat} {name : Bytes} :
      DeclaredFor s.1 s.2 req bodies n →
      hget s.1 (sessionKey (req.getPathParam (ascii "upload_id"))) (ascii "file_name") = some name →
      Brings s (.request .uploadComplete req)
        { owner := req.authUserId, name
          mimeType := (hget s.1 (sessionKey (req.getPathParam (ascii "upload_id")))
            (ascii "mime_type")).getD (ascii "application/octet-stream")
          size := n, bytes := bodies.flatten }

/-! ## The new row -/

section Row

variable {svc : Services} {pg : Postgres} {w₀ w w' : World} {owner name mimeType : Bytes}

structure SameTables (w₀ w : World) : Prop where
  files : w.files = w₀.files
  contents : w.contents = w₀.contents

theorem SameTables.step (h : SameTables w₀ w) {c : Call} {r : Except Exn c.Resp} (hc : calm c)
    (hexec : exec svc pg c w = (r, w')) : SameTables w₀ w' :=
  ⟨(calm_tables hc hexec).1.trans h.files, (calm_tables hc hexec).2.trans h.contents⟩

theorem wp_sameTables {α : Type} {p : App α} (hp : p.CallsOnly calm) (h : SameTables w₀ w) :
    p.wp (ofExec (exec svc pg)) (fun _ w' => SameTables w₀ w') w :=
  wp_of_callsOnly (fun w' => SameTables w₀ w')
    (fun _ _ hc h₁ => ⟨trivial, fun _ _ hexec => h₁.step hc hexec⟩) hp h

/-- A row is new, under the name of the upload unless that is taken and no content is new;
new content has the MIME type of the upload. -/
structure Labelled (pg : Postgres) (w₀ : World) (owner name mimeType : Bytes) (row : FileRow)
    (w : World) : Prop where
  files : w.files = w₀.files ++ [row]
  ownerId : pg.uuidParam owner = .ok row.ownerId
  live : row.live = true
  free : used w₀ row.ownerId row.folderId row.name = false
  name : row.name = cstr name ∨
    used w₀ row.ownerId row.folderId (cstr name) = true ∧ w.contents = w₀.contents
  contents : ∀ c ∈ w.contents, c ∈ w₀.contents ∨ c.mimeType = storedMime mimeType

/-- The tables are as they were, or a row is new. -/
def Labels (pg : Postgres) (w₀ : World) (owner name mimeType : Bytes) (w : World) : Prop :=
  SameTables w₀ w ∨ ∃ row, Labelled pg w₀ owner name mimeType row w

theorem used_of_indexed {owner : Uuid} {folder : Option Uuid} {name : Bytes}
    (h : indexed w owner folder name = false) : used w owner folder name = false := by
  rw [Bool.eq_false_iff] at h ⊢
  intro hused
  obtain ⟨f, hf, hp⟩ := List.any_eq_true.mp hused
  simp only [Bool.and_eq_true, decide_eq_true_eq] at hp
  obtain ⟨⟨⟨howner, hfolder⟩, hname⟩, hlive⟩ := hp
  exact h (List.any_eq_true.mpr ⟨f, hf, by simp [hlive, howner, hfolder, hname]⟩)

theorem used_congr (h : w.files = w'.files) (owner : Uuid) (folder : Option Uuid) (name : Bytes) :
    used w owner folder name = used w' owner folder name := by rw [used, h, used]

theorem Labels.step (h : Labels pg w₀ owner name mimeType w) {c : Call}
    {r : Except Exn c.Resp} (hc : calm c) (hexec : exec svc pg c w = (r, w')) :
    Labels pg w₀ owner name mimeType w' := by
  rcases h with h | ⟨row, h⟩
  · exact .inl (h.step hc hexec)
  · obtain ⟨hfiles, hcontents⟩ := calm_tables hc hexec
    refine .inr ⟨row, hfiles.trans h.files, h.ownerId, h.live, h.free, ?_, hcontents ▸ h.contents⟩
    exact h.name.imp_right fun htaken => ⟨htaken.1, hcontents.trans htaken.2⟩

theorem wp_labels_calm {α : Type} {p : App α} (hp : p.CallsOnly calm)
    (h : Labels pg w₀ owner name mimeType w) :
    p.wp (ofExec (exec svc pg)) (fun _ w' => Labels pg w₀ owner name mimeType w') w :=
  wp_of_callsOnly (fun w' => Labels pg w₀ owner name mimeType w')
    (fun _ _ hc h₁ => ⟨trivial, fun _ _ hexec => h₁.step hc hexec⟩) hp h

/-- Content that an insertion brings has the MIME type of the file's record. -/
theorem exec_fileInsert_mime {file : FileRecord} {r : Except Exn Bytes}
    (h : exec svc pg (.fileInsert file) w = (r, w')) :
    ∀ c ∈ w'.contents, c ∈ w.contents ∨ c.mimeType = storedMime file.mimeType := by
  rcases commit_cases h with ⟨e, -, rfl⟩ | ⟨t, hins, -⟩
  · exact fun c hc => .inl hc
  simp only [fileInsert, bind_eq_ok] at hins
  obtain ⟨_, -, ⟨cid, w₂⟩, htxn, hins⟩ := hins
  obtain ⟨row, -, -, -, rfl⟩ := insertFileRow_named hins
  simp only [ensureInTxn, bind_eq_ok] at htxn
  obtain ⟨hash, -, htxn⟩ := htxn
  split at htxn
  · cases htxn
    exact fun c hc => .inl hc
  · simp only [bind_eq_ok, require_ok, newContent] at htxn
    obtain ⟨content, ⟨_, -, _, -, mime, hmime, hrow⟩, _, -, hret⟩ := htxn
    cases hrow
    cases hret
    intro c hc
    refine (List.mem_append.mp hc).imp_right fun hc => ?_
    rw [List.mem_singleton.mp hc]
    exact (textParam_ok.mp hmime).2

theorem labels_fileInsert (h : SameTables w₀ w)
    {file : FileRecord} {r : Except Exn Bytes}
    (hexec : exec svc pg (.fileInsert file) w = (r, w')) :
    Labels pg w₀ file.ownerId file.name file.mimeType w' := by
  have hmime := exec_fileInsert_mime hexec
  rcases exec_fileInsert_named hexec with ⟨e, -, rfl⟩ | ⟨row, contents, hrow, hfree, -, -, rfl⟩
  · exact .inl ⟨h.files, h.contents⟩
  · refine .inr ⟨row, by rw [← h.files], hrow.ownerId, hrow.live, ?_,
      .inl (textParam_ok.mp hrow.name).2, ?_⟩
    · rw [← used_congr h.files]
      exact used_of_indexed hfree
    · rw [← h.contents]
      exact hmime

/-- The name is kept unless it is taken. -/
theorem finds_makeUniqueName (name ownerId folderId : Bytes) :
    Finds svc pg (makeUniqueName name ownerId folderId) w fun r =>
      r = name ∨ nameExistsInFolder pg w ownerId folderId name = .ok true := by
  refine finds_bind (finds_ask rfl) fun taken draws htaken => ?_
  have hanswer : nameExistsInFolder pg w ownerId folderId name = .ok taken := htaken
  cases taken with
  | false => exact finds_pure (.inl rfl)
  | true =>
      show Finds svc pg (firstFreeName _ _ ownerId folderId 9999 1 >>= _ : App Bytes) _ _
      refine finds_bind (finds_reads (callsOnly_firstFreeName (fun _ _ _ => rfl) _ _ _ _ _ _)) fun free draws' _ => ?_
      cases free with
      | some candidate => exact finds_pure (.inr hanswer)
      | none =>
          exact finds_bind (finds_reads (reads_ask rfl)) fun _ _ _ => finds_pure (.inr hanswer)

theorem used_of_exists {ownerId folderId : Bytes} {owner : Uuid} {folder : Option Uuid}
    (h : nameExistsInFolder pg w ownerId folderId name = .ok true)
    (howner : pg.uuidParam ownerId = .ok owner) (hfolder : pg.optionalUuid folderId = .ok folder) :
    used w owner folder (cstr name) = true := by
  simp only [nameExistsInFolder, bind_eq_ok] at h
  obtain ⟨owner', ho, folder', hf, text, ht, hret⟩ := h
  obtain rfl : owner = owner' := Except.ok.inj (howner.symm.trans ho)
  obtain rfl : folder = folder' := Except.ok.inj (hfolder.symm.trans hf)
  rw [← (textParam_ok.mp ht).2]
  exact Except.ok.inj hret

theorem labels_linkContent (h : SameTables w₀ w)
    (content : FileRecord) (name mimeType owner folderId : Bytes) :
    (linkExistingContent content name mimeType owner folderId).wp (ofExec (exec svc pg))
      (fun _ w' => Labels pg w₀ owner name mimeType w') w := by
  refine wp_finds_bind (finds_makeUniqueName _ _ _) (fun free draws hname => ?_)
    fun _ draws => .inl ⟨h.files, h.contents⟩
  refine wp_request.mpr ⟨trivial, fun r w' hexec => ?_⟩
  rcases exec_insertLink_named hexec with ⟨e, -, rfl⟩ | ⟨row, hrow, hfree, -, rfl⟩
  · exact .inl ⟨h.files, h.contents⟩
  · refine .inr ⟨row, by rw [← h.files], hrow.ownerId, hrow.live, ?_, ?_, ?_⟩
    · rw [← used_congr h.files]
      exact used_of_indexed hfree
    · rcases hname with rfl | htaken
      · exact .inl (textParam_ok.mp hrow.name).2
      · refine .inr ⟨?_, h.contents⟩
        rw [← used_congr h.files]
        exact used_of_exists htaken hrow.ownerId hrow.folderId
    · rw [← h.contents]
      exact fun c hc => .inl hc

theorem labels_uploadNew (h : SameTables w₀ w)
    (body name mimeType owner folderId hash : Bytes) :
    (uploadNew svc body name mimeType owner folderId hash).wp (ofExec (exec svc pg))
      (fun _ w' => Labels pg w₀ owner name mimeType w') w := by
  have hput : (putChunked svc body).CallsOnly calm := callsOnly_putAll (fun _ => trivial) _
  refine wp_seq (wp_sameTables hput h) ?_ fun _ _ h₁ => .inl h₁
  intro chunks w₁ h₁
  cases hdump : svc.json.dump (hashArray chunks) with
  | error e => exact .inl h₁
  | ok chunkHashes =>
      refine wp_request_bind trivial (fun fileId w₂ hexec => ?_) fun e w₂ hexec =>
        labels_fileInsert h₁ hexec
      refine wp_labels_calm ?_ (labels_fileInsert h₁ hexec)
      exact callsOnly_bind (callsOnly_indexContent (fun c hc => calm_of_reads hc) svc
        (fun hash _ => hashKey_ne hash) _) fun _ =>
        callsOnly_reads (fun c hc => calm_of_reads hc) (reads_setJson svc _)

theorem labels_uploadContent (h : SameTables w₀ w) (body name mimeType owner folderId : Bytes) :
    (uploadContent svc body name mimeType owner folderId).wp (ofExec (exec svc pg))
      (fun _ w' => Labels pg w₀ owner name mimeType w') w := by
  have hdraws : ∀ {w₁ : World} (draws : Nat → Nat), SameTables w₀ w₁ →
      SameTables w₀ { w₁ with draws } := fun _ h₁ => ⟨h₁.files, h₁.contents⟩
  refine course_uploadContent (P := SameTables w₀) (U := SameTables w₀)
    (K := fun _ => SameTables w₀) ?_ ?_ (fun _ h₁ => h₁) ?_ ?_ ?_ h
  · intro w₁ k h₁ hk
    exact wp_finds_bind (finds_reads (reads_ask rfl)) (fun a draws _ => hk a _ (hdraws draws h₁))
      fun _ draws => .inl (hdraws draws h₁)
  · intro w₁ k h₁ hnone hsome
    refine wp_finds_bind (finds_reads (reads_ask rfl)) (fun content draws _ => ?_)
      fun _ draws => .inl (hdraws draws h₁)
    cases content with
    | none => exact hnone _ (hdraws draws h₁)
    | some record => exact hsome record _ (hdraws draws h₁)
  · intro record w₁ k h₁ hk
    exact wp_seq (wp_sameTables (calm_rememberHash _ _) h₁) (fun _ w₂ h₂ => hk w₂ h₂)
      fun _ _ h₂ => .inl h₂
  · intro record w₁ h₁
    refine wp_seq (labels_linkContent h₁ _ _ _ _ _) ?_ fun _ _ h₂ => h₂
    exact fun _ _ h₂ => wp_labels_calm (calm_of_readsOnly (reads_setJson svc _)) h₂
  · exact fun w₁ h₁ => labels_uploadNew h₁ _ _ _ _ _ _

theorem labels_uploadRoute (req : HttpRequest) :
    (uploadRoute svc req).wp (ofExec (exec svc pg)) (fun _ w' =>
      Labels pg w req.authUserId (resolveFilename req) (resolveMimeType req) w') w := by
  have hreads : ∀ {p : App HttpResponse} {w₁ : World}, Reads p →
      Labels pg w req.authUserId (resolveFilename req) (resolveMimeType req) w₁ →
      p.wp (ofExec (exec svc pg)) (fun _ w' =>
        Labels pg w req.authUserId (resolveFilename req) (resolveMimeType req) w') w₁ :=
    fun hp h₁ => wp_labels_calm (calm_of_readsOnly hp) h₁
  refine course_uploadRoute (P := SameTables w) (F := fun _ => SameTables w) ?_ ?_ ?_ ?_ ⟨rfl, rfl⟩
  · exact fun code msg w₁ h₁ => hreads (reads_setError svc _ _) (.inl h₁)
  · exact fun e w₁ h₁ => hreads (reads_catchStd svc _ e) h₁
  · intro w₁ k h₁ hrefused hfound
    refine wp_finds_bind (finds_reads (reads_resolveFolderId svc _ _)) (fun folder draws _ => ?_)
      fun _ draws => .inl ⟨h₁.files, h₁.contents⟩
    cases folder with
    | error resp => exact hrefused resp _ (.inl ⟨h₁.files, h₁.contents⟩)
    | ok folderId => exact hfound folderId _ ⟨h₁.files, h₁.contents⟩
  · exact fun folderId w₁ h₁ _ => labels_uploadContent h₁ _ _ _ _ _

theorem labels_createFile (h : SameTables w₀ w) (session : MultipartSession)
    (chunkHashes hash : Bytes) :
    (createFile svc session chunkHashes hash).wp (ofExec (exec svc pg)) (fun _ w' =>
      Labels pg w₀ session.userId session.fileName session.mimeType w') w := by
  refine wp_finds_bind (finds_reads (reads_ask rfl)) (fun content draws _ => ?_)
    fun _ draws => .inl ⟨h.files, h.contents⟩
  have h₁ : SameTables w₀ { w with draws } := ⟨h.files, h.contents⟩
  cases content with
  | some record =>
      refine wp_seq (labels_linkContent h₁ _ _ _ _ _) ?_ fun _ _ h₂ => h₂
      intro fileId w₂ h₂
      exact wp_labels_calm
        (callsOnly_bind (calm_rememberHash _ _) fun _ => callsOnly_pure _) h₂
  | none =>
      refine wp_request_bind trivial (fun fileId w₂ hexec => ?_) fun e w₂ hexec =>
        labels_fileInsert h₁ hexec
      refine wp_labels_calm ?_ (labels_fileInsert h₁ hexec)
      exact callsOnly_bind (callsOnly_indexContent (fun c hc => calm_of_reads hc) svc
        (fun hash _ => hashKey_ne hash) _) fun _ => callsOnly_pure _

/-- A row for a session has the name and the MIME type of the session. -/
theorem labels_handleComplete (req : HttpRequest) :
    (handleComplete svc req).wp (ofExec (exec svc pg)) (fun _ w' => SameTables w w' ∨
      ∃ name, hget w (sessionKey (req.getPathParam (ascii "upload_id"))) (ascii "file_name") =
          some name ∧
        Labels pg w req.authUserId name
          ((hget w (sessionKey (req.getPathParam (ascii "upload_id"))) (ascii "mime_type")).getD
            (ascii "application/octet-stream")) w') w := by
  let Q : World → Prop := fun w' => SameTables w w' ∨
    ∃ name, hget w (sessionKey (req.getPathParam (ascii "upload_id"))) (ascii "file_name") =
        some name ∧
      Labels pg w req.authUserId name
        ((hget w (sessionKey (req.getPathParam (ascii "upload_id"))) (ascii "mime_type")).getD
          (ascii "application/octet-stream")) w'
  have hcalm : ∀ {α : Type} {p : App α} {w₁ : World}, p.CallsOnly calm → Q w₁ →
      p.wp (ofExec (exec svc pg)) (fun _ w' => Q w') w₁ := by
    intro α p w₁ hp hq
    refine wp_of_callsOnly Q (fun w₂ c hc hq₂ => ⟨trivial, fun r w₃ hexec => ?_⟩) hp hq
    rcases hq₂ with hsame | ⟨name, hname, hlabels⟩
    · exact .inl (hsame.step hc hexec)
    · exact .inr ⟨name, hname, hlabels.step hc hexec⟩
  have hw : ∀ draws : Nat → Nat, Q { w with draws } := fun _ => .inl ⟨rfl, rfl⟩
  refine course_withSession (P := fun w' => w' = w) (Q := fun _ w' => Q w') (S := fun session w' =>
    ∃ draws : Nat → Nat, w' = { w with draws } ∧
      LoadedFrom w (req.getPathParam (ascii "upload_id")) session ∧
      session.userId = req.authUserId) ?_ ?_ ?_ ?_ rfl
  · rintro code msg _ rfl
    exact hcalm (calm_of_readsOnly (reads_setError svc _ _)) (hw _)
  · exact fun e w' h' => hcalm (calm_of_readsOnly (reads_catchStd svc _ e)) h'
  · rintro _ f rfl - hrefused hfound
    refine wp_finds_bind (finds_requireSession req _) (fun found draws hloaded => ?_)
      fun e draws => hw draws
    cases found with
    | error resp => exact hrefused resp _ (hw draws)
    | ok session => exact hfound session _ ⟨draws, rfl, hloaded session rfl⟩
  rintro session _ ⟨draws, rfl, hloaded, howner⟩
  cases hmissing : firstMissing session with
  | some i => exact hcalm (calm_of_readsOnly (reads_setError svc _ _)) (hw draws)
  | none =>
  dsimp only [finishSession]
  cases hdump : svc.json.dump (hashArray session.partHashes) with
  | error e => exact hw draws
  | ok chunkHashes =>
  show (getChunked _ >>= _ : App HttpResponse).wp _ _ _
  refine wp_finds_bind (finds_reads (reads_getChunked _)) (fun content draws' _ => ?_)
    fun e draws' => hw draws'
  have hcreate := @labels_createFile svc pg w { w with draws := draws' } ⟨rfl, rfl⟩ session
    chunkHashes (svc.sha256 content)
  rw [howner, hloaded.mimeType] at hcreate
  refine wp_seq hcreate ?_ fun _ _ h₁ => .inr ⟨_, hloaded.fileName, h₁⟩
  rintro ⟨fileId, instant⟩ w₁ h₁
  refine hcalm ?_ (.inr ⟨_, hloaded.fileName, h₁⟩)
  exact callsOnly_bind (callsOnly_deleteFromRedis svc (fun _ => trivial) _) fun _ =>
    callsOnly_bind (callsOnly_request trivial) fun _ =>
      calm_of_readsOnly (reads_setJson svc _)

end Row

/-! ## Content rows -/

section Contents

variable {svc : Services} {pg : Postgres} {w w' : World}

/-- `hash` is unique among the content rows. -/
def HashesUnique (w : World) : Prop := (w.contents.map ContentRow.hash).Nodup

theorem HashesUnique.eq (h : HashesUnique w) {c d : ContentRow} (hc : c ∈ w.contents)
    (hd : d ∈ w.contents) (heq : c.hash = d.hash) : c = d := List.inj_on_of_nodup_map h hc hd heq

theorem HashesUnique.congr (h : HashesUnique w) (hcontents : w'.contents = w.contents) :
    HashesUnique w' := by
  rw [HashesUnique, hcontents]
  exact h

theorem HashesUnique.step (hpg : pg.Lawful svc.json) (h : HashesUnique w) {c : Call}
    {r : Except Exn c.Resp} (hexec : exec svc pg c w = (r, w')) : HashesUnique w' := by
  cases c with
  | fileInsert file =>
      rcases exec_fileInsert hpg hexec with ⟨e, -, rfl⟩ | ⟨row, contents, c, hens, -, -, -, rfl⟩
      · exact h
      · cases hens with
        | found _ _ => exact h
        | created _ _ _ hnew =>
            show ((w.contents ++ [c]).map ContentRow.hash).Nodup
            rw [List.map_append, List.map_singleton]
            refine List.nodup_append.mpr ⟨h, List.nodup_singleton _, ?_⟩
            intro a ha b hb heq
            obtain ⟨d, hd, rfl⟩ := List.mem_map.mp ha
            rw [List.mem_singleton] at hb
            exact (hnew d hd).2 (heq.trans hb)
  | put data => exact h.congr (calm_tables (c := .put data) trivial hexec).2
  | purgeContent content =>
      cases exec_purgeContent hexec with
      | nothing _ => exact h
      | swept _ b _ _ _ _ _ _ =>
          cases b with
          | false => exact h
          | true => exact (List.filter_sublist.map ContentRow.hash).nodup h
  | _ => exact h.congr (exec_contents (fun _ hc => by cases hc) (fun _ hc => by cases hc)
      (fun _ hc => by cases hc) hexec).2

theorem hashesUnique_act (hpg : pg.Lawful svc.json) (w : World) (a : Action)
    (h : HashesUnique w) : HashesUnique (act svc pg w a) := by
  have hrun : ∀ {α : Type} (p : App α), HashesUnique (p.run (exec svc pg) w).2 := fun p =>
    run_of_wp (wp_of_callsOnly HashesUnique
      (fun _ _ _ h₁ => ⟨trivial, fun _ _ hexec => h₁.step hpg hexec⟩) (callsOnly_true p) h)
  cases a with
  | request route req => exact hrun (handler svc route req)
  | collect batchLimit => exact hrun (collectOrphans batchLimit)
  | tick time => exact h
  | expire key => exact h

end Contents

/-! ## From the upload on -/

section Follow

variable {svc : Services} {pg : Postgres} {s : World × Record} {f : FileRow} {c : ContentRow}

/-- The file is there, with this content row and these bytes. -/
structure Carries (svc : Services) (f : FileRow) (c : ContentRow) (data : Bytes)
    (s : World × Record) : Prop where
  faithful : Faithful svc s.2 s.1
  linked : Linked none s.1
  file : f ∈ s.1.files
  content : s.1.findContent f.contentId = some c
  bytes : s.2.bytes f.id = some data
  hash : c.hash = svc.sha256 data

theorem addFile_bytes {w w' : World} {g : Record} (hf : f ∈ w.files) (bytes : Option Bytes) :
    (g.addFile w w' bytes).bytes f.id = g.bytes f.id := by
  unfold Record.addFile
  split
  · rename_i id hid
    have hnew := List.find?_some hid
    refine Function.update_of_ne ?_ _ _
    rintro rfl
    simp only [Bool.not_eq_true', List.any_eq_false, decide_eq_true_eq] at hnew
    exact hnew f hf rfl
  · rfl

/-- The record of a file that is there stays. -/
theorem observe_bytes {w w' : World} {g : Record} (hf : f ∈ w.files)
    (answer : Except Exn HttpResponse) (req : HttpRequest) (route : RouteName) :
    (observe svc w w' answer req g route).bytes f.id = g.bytes f.id := by
  cases route with
  | upload => exact addFile_bytes hf _
  | uploadComplete => exact addFile_bytes hf _
  | shareSave => exact addFile_bytes hf _
  | uploadInit =>
      simp only [observe]
      split <;> rfl
  | uploadPart =>
      simp only [observe]
      split <;> rfl
  | _ => rfl

theorem recorded_bytes (hf : f ∈ s.1.files) (a : Action) :
    (recorded svc pg s a).2.bytes f.id = s.2.bytes f.id := by
  cases a with
  | request route req => exact observe_bytes hf _ req route
  | _ => rfl

variable (hjson : svc.json.Lawful) (hpg : pg.Lawful svc.json)
  (hlen : ∀ d, 2 ≤ (svc.digest d).length) (hinj : Function.Injective svc.sha256)

include hjson hpg hlen hinj in
/-- While the file stays, so do its content row and its bytes. -/
theorem Carries.recorded (hlive : f.live = true) {data : Bytes} (h : Carries svc f c data s)
    {a : Action} (hf : f ∈ (recorded svc pg s a).1.files) :
    Carries svc f c data (Runs.recorded svc pg s a) := by
  have hkeeps := h.faithful.recorded hjson hpg hlen hinj a
  have hbytes : (Runs.recorded svc pg s a).2.bytes f.id = some data :=
    (recorded_bytes h.file a).trans h.bytes
  obtain ⟨c', bytes', hc', hbytes', hhash'⟩ := hkeeps.faithful.files f hf hlive
  obtain rfl : data = bytes' := Option.some.inj (hbytes.symm.trans hbytes')
  have hmem : c ∈ s.1.contents := List.mem_of_find?_eq_some h.content
  have hid : c.id = f.contentId := by simpa using List.find?_some h.content
  have hid' : c'.id = f.contentId := by simpa using List.find?_some hc'
  -- the row with the file's content id is the old one: a new one would have a new hash
  have hsame : c' = c := by
    rcases hkeeps.contents c' (List.mem_of_find?_eq_some hc') with hold | ⟨-, hnew⟩
    · exact List.inj_on_of_nodup_map h.faithful.contentIds hold hmem (hid'.trans hid.symm)
    · exact absurd (h.hash.trans hhash'.symm) (hnew c hmem)
  exact ⟨hkeeps.faithful, linked_act hpg s.1 a h.linked, hf, hsame ▸ hc', hbytes, h.hash⟩

include hjson hpg hlen hinj in
theorem Carries.run (hlive : f.live = true) {data : Bytes} (h : Carries svc f c data s)
    {later : List Action}
    (hstays : Throughout svc pg (fun s a => f ∈ (Runs.recorded svc pg s a).1.files) s later) :
    Carries svc f c data (later.foldl (Runs.recorded svc pg) s) :=
  @throughout_invariant svc pg _ (fun s => Carries svc f c data s)
    (fun _ _ h hf => h.recorded hjson hpg hlen hinj hlive hf) s h later hstays

/-- The file that an upload makes. -/
structure Made (svc : Services) (pg : Postgres) (s : World × Record) (d : Declared) (f : FileRow)
    (c : ContentRow) (s' : World × Record) : Prop where
  carries : Carries svc f c d.bytes s'
  live : f.live = true
  ownerId : pg.uuidParam d.owner = .ok f.ownerId
  free : used s.1 f.ownerId f.folderId f.name = false
  name : f.name = cstr d.name ∨
    used s.1 f.ownerId f.folderId (cstr d.name) = true ∧ c ∈ s.1.contents
  content : c ∈ s.1.contents ∨ c.mimeType = storedMime d.mimeType ∧ c.size = d.size ∧
    ∀ x ∈ s.1.contents, x.hash ≠ c.hash

/-- A row that is added is the last one. -/
theorem added_row {files : List FileRow} {row : FileRow} (hf : f ∈ files ++ [row])
    (hnew : f ∉ files) : f = row :=
  List.mem_singleton.mp ((List.mem_append.mp hf).resolve_left hnew)

theorem made_of {d : Declared} {row row' : FileRow} {s' : World × Record}
    (hfaithful : Faithful svc s'.2 s'.1) (hlinked : Linked none s'.1)
    (hafter : After svc s.2 s.1 d.bytes d.size row s'.1)
    (hlabelled : Labelled pg s.1 d.owner d.name d.mimeType row' s'.1)
    (hbytes : s'.2.bytes row.id = some d.bytes) (hf : f ∈ s'.1.files) (hnew : f ∉ s.1.files) :
    ∃ c, Made svc pg s d f c s' := by
  obtain rfl : f = row := added_row (hafter.files ▸ hf) hnew
  obtain rfl : f = row' := added_row (hlabelled.files ▸ hf) hnew
  obtain ⟨c, bytes, hc, hbytes', hhash⟩ := hfaithful.files f hf hlabelled.live
  obtain rfl : d.bytes = bytes := Option.some.inj (hbytes.symm.trans hbytes')
  have hmem : c ∈ s'.1.contents := List.mem_of_find?_eq_some hc
  refine ⟨c, ⟨hfaithful, hlinked, hf, hc, hbytes, hhash⟩, hlabelled.live, hlabelled.ownerId,
    hlabelled.free, ?_, ?_⟩
  · rcases hlabelled.name with hname | ⟨htaken, hsame⟩
    · exact .inl hname
    · exact .inr ⟨htaken, hsame ▸ hmem⟩
  · rcases hafter.contents c hmem with hold | ⟨-, hsize, -, hfresh⟩
    · exact .inl hold
    · refine (hlabelled.contents c hmem).imp_right fun hmime => ⟨hmime, hsize, hfresh⟩

include hjson hpg hlen hinj in
theorem made_by_upload (hfaithful : Faithful svc s.2 s.1) (hlinked : Linked none s.1) {a : Action}
    {d : Declared} (hbrings : Brings s a d) (hf : f ∈ (recorded svc pg s a).1.files)
    (hnew : f ∉ s.1.files) : ∃ c, Made svc pg s d f c (recorded svc pg s a) := by
  have hfaithful' := (hfaithful.recorded hjson hpg hlen hinj a).faithful
  have hlinked' : Linked none (recorded svc pg s a).1 := linked_act hpg s.1 a hlinked
  cases hbrings with
  | single req =>
      have hlabels : Labels pg s.1 req.authUserId (resolveFilename req) (resolveMimeType req)
          (recorded svc pg s (.request .upload req)).1 := run_of_wp (labels_uploadRoute req)
      have hout : Outcome svc s.2 s.1 req.body req.body.length
          (recorded svc pg s (.request .upload req)).1 :=
        run_of_wp (outcome_uploadRoute hjson hpg hlen hinj req hfaithful)
      rcases hout with hbefore | ⟨row, hafter⟩
      · exact absurd (hbefore.files ▸ hf) hnew
      rcases hlabels with hsame | ⟨row', hlabelled⟩
      · exact absurd (hsame.files ▸ hf) hnew
      refine made_of hfaithful' hlinked' hafter hlabelled ?_ hf hnew
      show (s.2.addFile s.1 (recorded svc pg s (.request .upload req)).1
        (some req.body)).bytes row.id = some req.body
      rw [Record.addFile, newFile_added hafter.fresh hafter.files]
      exact Function.update_self _ _ _
  | @parts req bodies n name hdeclared hname =>
      have hlabels := run_of_wp (@labels_handleComplete svc pg s.1 req)
      rcases run_of_wp (completed_handleComplete hjson hpg hlen hinj req hfaithful) with
        hbefore | ⟨bodies', n', row, hdeclared', hafter⟩
      · exact absurd (hbefore.files ▸ hf) hnew
      have hbodies : bodies' = bodies := List.map_injective_iff.mpr (Option.some_injective _)
        (hdeclared'.parts.symm.trans hdeclared.parts)
      have hsize : n' = n := decimal_injective
        (Option.some.inj (hdeclared'.totalSize.symm.trans hdeclared.totalSize))
      subst hbodies hsize
      rcases hlabels with hsame | ⟨name', hname', hlabels⟩
      · exact absurd (hsame.files ▸ hf) hnew
      obtain rfl : name = name' := Option.some.inj (hname.symm.trans hname')
      rcases hlabels with hsame | ⟨row', hlabelled⟩
      · exact absurd (hsame.files ▸ hf) hnew
      refine made_of hfaithful' hlinked' hafter hlabelled ?_ hf hnew
      show (s.2.addFile s.1 ((handleComplete svc req).run (exec svc pg) s.1).2
        (joined (s.2.parts (pathSession req)))).bytes row.id = _
      rw [hdeclared.parts, joined_map_some, Record.addFile,
        newFile_added hafter.fresh hafter.files]
      exact Function.update_self _ _ _

end Follow

/-! ## What is reported -/

section Reported

variable {svc : Services} {pg : Postgres} {s : World × Record} {f : FileRow} {c : ContentRow}

structure Observed where
  name : Bytes
  mimeType : Bytes
  size : Int
  bytes : Bytes

/-- The columns that a record shares with the observation. -/
structure Says (o : Observed) (record : FileRecord) : Prop where
  name : record.name = o.name
  mimeType : record.mimeType = o.mimeType
  size : record.size = o.size

/-- Whatever the owner asks about the file, this is the answer: in the query by its id, in a
listing, and in a download. -/
structure Shows (svc : Services) (pg : Postgres) (w : World) (f : FileRow) (o : Observed) :
    Prop where
  found : ∃ record, findOwnedById pg w f.ownerId.text f.id.text = .ok (some record) ∧ Says o record
  listed : ∀ req resp, req.authUserId = f.ownerId.text →
    (serve svc pg .fileList req w).1 = .ok resp → resp.statusCode = 200 →
    ∃ records : List FileRecord,
      svc.json.dump (object [("files", .arr (records.map fileJson))]) = .ok resp.body ∧
        ∀ record ∈ records, record.id = f.id.text → Says o record
  downloaded : ∀ req, req.authUserId = f.ownerId.text → requestedFile req = f.id.text →
    (serve svc pg .fileDownload req w).1 = .ok (fileAnswer o.name o.mimeType o.bytes)

/-- The rows of a listing are rows of the table. -/
theorem listByFolder_mem {w : World} {ownerId folderId : Bytes} {records : List FileRecord}
    (h : listByFolder pg w ownerId folderId = .ok records) {record : FileRecord}
    (hrecord : record ∈ records) : ∃ g ∈ w.files, fileRecord pg w g = some record := by
  simp only [listByFolder, bind_eq_ok] at h
  obtain ⟨owner, -, folder, -, hret⟩ := h
  obtain rfl := Except.ok.inj hret
  obtain ⟨g, hg, hrec⟩ := List.mem_filterMap.mp hrecord
  exact ⟨g, List.mem_of_mem_filter (List.mem_mergeSort.mp (List.mem_of_mem_take hg)), hrec⟩

/-- A listing that succeeds is that of the query. -/
theorem fileList_answer {w : World} {req : HttpRequest} {resp : HttpResponse}
    (h : (serve svc pg .fileList req w).1 = .ok resp) (hok : resp.statusCode = 200) :
    ∃ records, listByFolder pg w req.authUserId (queryParam req.query (ascii "folder_id")) =
        .ok records ∧
      svc.json.dump (object [("files", .arr (records.map fileJson))]) = .ok resp.body := by
  let Q : Except Exn HttpResponse → World → Prop := fun r _ => ∀ resp, r = .ok resp →
    resp.statusCode = 200 → ∃ records,
      listByFolder pg w req.authUserId (queryParam req.query (ascii "folder_id")) = .ok records ∧
      svc.json.dump (object [("files", .arr (records.map fileJson))]) = .ok resp.body
  have hrefused : ∀ {p : App HttpResponse} {w₁ : World},
      p.wp (ofExec (exec svc pg)) (fun r w' => w' = w₁ ∧ accepted r = false) w₁ →
      p.wp (ofExec (exec svc pg)) Q w₁ := by
    intro p w₁ hp
    refine wp_mono hp ?_
    rintro _ _ ⟨-, hno⟩ resp rfl hcode
    rw [accepted, hcode] at hno
    cases hno
  have hwp : (handleFileList svc req).wp (ofExec (exec svc pg)) Q w := by
    refine wp_catch (M := Q) ?_ (fun _ _ hq => hq) fun e w₁ _ => hrefused (wp_catchStd _ e)
    split
    swap
    · exact hrefused (wp_refusal (by decide) _)
    refine wp_finds_bind (finds_ask rfl) (fun records draws hrecords => ?_) fun e draws => by simp [Q]
    have hquery : listByFolder pg w req.authUserId (queryParam req.query (ascii "folder_id")) =
        .ok records := hrecords
    unfold Services.setJson
    cases hdump : svc.json.dump (object [("files", .arr (records.map fileJson))]) with
    | error e =>
        intro resp hr
        cases hr
    | ok text =>
        rintro _ ⟨⟩ -
        exact ⟨records, hquery, hdump⟩
  exact run_of_wp hwp resp h hok

theorem Carries.shows (hpg : pg.Lawful svc.json) (hlen : ∀ d, 2 ≤ (svc.digest d).length)
    (hinj : Function.Injective svc.sha256) (hlive : f.live = true) {data : Bytes}
    (h : Carries svc f c data s) : Shows svc pg s.1 f ⟨f.name, c.mimeType, c.size, data⟩ := by
  have hsaid : ∀ {g : FileRow} {record : FileRecord}, g ∈ s.1.files → g.id = f.id →
      fileRecord pg s.1 g = some record → Says ⟨f.name, c.mimeType, c.size, data⟩ record := by
    intro g record hg hid hrec
    obtain rfl : g = f := h.linked.file_unique hg h.file hid
    rw [fileRecord, h.content] at hrec
    obtain rfl := Option.some.inj hrec
    exact ⟨rfl, rfl, rfl⟩
  refine ⟨?_, ?_, ?_⟩
  · obtain ⟨record, hfound⟩ := h.faithful.findOwned hpg h.file hlive
    obtain ⟨g, hg, -, hid, hrec⟩ := findOwnedById_row hpg hfound
    exact ⟨record, hfound, hsaid hg hid hrec⟩
  · intro req resp howner hresp hok
    obtain ⟨records, hquery, hdump⟩ := fileList_answer hresp hok
    refine ⟨records, hdump, fun record hrecord hid => ?_⟩
    obtain ⟨g, hg, hrec⟩ := listByFolder_mem hquery hrecord
    refine hsaid hg (Uuid.text_injective ?_) hrec
    obtain ⟨c', -, rfl⟩ := Option.map_eq_some_iff.mp hrec
    exact hid
  · intro req howner hid
    obtain ⟨g, hg, -, hgid, c', bytes, hc', hbytes, hanswer⟩ :=
      h.faithful.download_row hpg hlen hinj h.file hlive howner hid
    obtain rfl : g = f := h.linked.file_unique hg h.file hgid
    obtain rfl : c = c' := Option.some.inj (h.content.symm.trans hc')
    obtain rfl : data = bytes := Option.some.inj (h.bytes.symm.trans hbytes)
    exact hanswer

/-- Two observations of one file have the same columns. -/
theorem Shows.columns {w : World} {o o' : Observed} (h : Shows svc pg w f o)
    (h' : Shows svc pg w f o') : o.name = o'.name ∧ o.mimeType = o'.mimeType ∧ o.size = o'.size := by
  obtain ⟨record, hfound, hsaid⟩ := h.found
  obtain ⟨record', hfound', hsaid'⟩ := h'.found
  obtain rfl : record = record' := Option.some.inj (Except.ok.inj (hfound.symm.trans hfound'))
  exact ⟨hsaid.name.symm.trans hsaid'.name, hsaid.mimeType.symm.trans hsaid'.mimeType,
    hsaid.size.symm.trans hsaid'.size⟩

/-- The MIME type is the one that the query by id finds. -/
theorem Shows.mime {w : World} {o : Observed} (h : Shows svc pg w f o) {mimeType : Bytes}
    (hfound : (findOwnedById pg w f.ownerId.text f.id.text).toOption.map
      (Option.map FileRecord.mimeType) = some (some mimeType)) : o.mimeType = mimeType := by
  obtain ⟨record, hrecord, hsaid⟩ := h.found
  rw [hrecord] at hfound
  exact hsaid.mimeType.symm.trans (Option.some.inj (Option.some.inj hfound))

end Reported

/-! ## Two runs -/

section TwoRuns

variable {svc : Services} {pg : Postgres} {d : Declared}

/-- A history in which an upload makes a file, and that file stays to the end. -/
structure UploadRun (svc : Services) (pg : Postgres) (d : Declared) where
  world : World
  initial : Initial world
  before : List Action
  action : Action
  later : List Action
  file : FileRow
  brings : Brings (history svc pg world before) action d
  made : file ∈ (recorded svc pg (history svc pg world before) action).1.files
  fresh : file ∉ (history svc pg world before).1.files
  stays : Throughout svc pg (fun s a => file ∈ (recorded svc pg s a).1.files)
    (recorded svc pg (history svc pg world before) action) later

/-- The state that the upload meets. -/
def UploadRun.met (r : UploadRun svc pg d) : World := (history svc pg r.world r.before).1

def UploadRun.final (r : UploadRun svc pg d) : World :=
  (r.later.foldl (recorded svc pg)
    (recorded svc pg (history svc pg r.world r.before) r.action)).1

/-- The uploader's own names decide this: the name of the upload is taken in its folder. -/
def UploadRun.taken (r : UploadRun svc pg d) : Bool :=
  used r.met r.file.ownerId r.file.folderId (cstr d.name)

/-- Content that has the bytes already was uploaded with the same MIME type and size. -/
def Agrees (svc : Services) (w : World) (d : Declared) : Prop :=
  ∀ c ∈ w.contents, c.hash = svc.sha256 d.bytes →
    c.mimeType = storedMime d.mimeType ∧ c.size = d.size

/-- A file reports the columns of one content row, and these are the declared ones exactly when
the content that was there agrees. -/
theorem UploadRun.shows (hjson : svc.json.Lawful) (hpg : pg.Lawful svc.json)
    (hlen : ∀ d, 2 ≤ (svc.digest d).length) (hinj : Function.Injective svc.sha256)
    (r : UploadRun svc pg d) : ∃ c : ContentRow,
      Shows svc pg r.final r.file ⟨r.file.name, c.mimeType, c.size, d.bytes⟩ ∧
      ((c.mimeType = storedMime d.mimeType ∧ c.size = d.size) ↔ Agrees svc r.met d) ∧
      (r.file.name = cstr d.name ∧ r.taken = false ∨
        r.taken = true ∧ ∃ c ∈ r.met.contents, c.hash = svc.sha256 d.bytes) := by
  have hfaithful := history_faithful hjson hpg hlen hinj r.initial r.before
  have hmet : ∀ (actions : List Action) (s : World × Record),
      (actions.foldl (recorded svc pg) s).1 = actions.foldl (act svc pg) s.1 := by
    intro actions
    induction actions with
    | nil => exact fun _ => rfl
    | cons a actions ih => exact fun s => ih _
  have hlinked : Linked none r.met := by
    rw [UploadRun.met, history, hmet]
    exact history_invariant r.initial.linked (linked_act hpg) r.before
  have hunique : HashesUnique r.met := by
    rw [UploadRun.met, history, hmet]
    refine history_invariant ?_ (hashesUnique_act hpg) r.before
    rw [HashesUnique, r.initial.contents]
    exact List.nodup_nil
  obtain ⟨c, hmade⟩ :=
    made_by_upload hjson hpg hlen hinj hfaithful hlinked r.brings r.made r.fresh
  have hfinal := hmade.carries.run hjson hpg hlen hinj hmade.live r.stays
  refine ⟨c, hfinal.shows hpg hlen hinj hmade.live, ?_, ?_⟩
  · rcases hmade.content with hold | ⟨hmime, hsize, hnew⟩
    · -- the content was there, in the only row with its hash
      refine ⟨fun hdeclared c' hc' hhash => ?_, fun hagrees => hagrees c hold hmade.carries.hash⟩
      obtain rfl : c' = c := hunique.eq hc' hold (hhash.trans hmade.carries.hash.symm)
      exact hdeclared
    · exact iff_of_true ⟨hmime, hsize⟩ fun c' hc' hhash =>
        absurd (hhash.trans hmade.carries.hash.symm) (hnew c' hc')
  · rcases hmade.name with hname | ⟨htaken, hold⟩
    · refine .inl ⟨hname, ?_⟩
      rw [UploadRun.taken, ← hname]
      exact hmade.free
    · exact .inr ⟨htaken, c, hold, hmade.carries.hash⟩

/-- **A file is reported as it was uploaded** exactly when content that had its bytes already
agrees with the upload; and exactly then the reports are those of a run in which no content had
them and the uploader's names are the same. -/
theorem reported_as_uploaded (hjson : svc.json.Lawful) (hpg : pg.Lawful svc.json)
    (hlen : ∀ d, 2 ≤ (svc.digest d).length) (hinj : Function.Injective svc.sha256)
    (r : UploadRun svc pg d) :
    ((∃ name, Shows svc pg r.final r.file ⟨name, storedMime d.mimeType, d.size, d.bytes⟩) ↔
      Agrees svc r.met d) ∧
    ∀ alone : UploadRun svc pg d,
      (∀ c ∈ alone.met.contents, c.hash ≠ svc.sha256 d.bytes) → r.taken = alone.taken →
      ((∃ o, Shows svc pg r.final r.file o ∧ Shows svc pg alone.final alone.file o) ↔
        Agrees svc r.met d) := by
  obtain ⟨c, hshows, hagrees, hname⟩ := r.shows hjson hpg hlen hinj
  refine ⟨⟨?_, ?_⟩, fun alone hnone htaken => ?_⟩
  · rintro ⟨name, hdeclared⟩
    obtain ⟨-, hmime, hsize⟩ := hshows.columns hdeclared
    exact hagrees.mp ⟨hmime, hsize⟩
  · intro h
    obtain ⟨hmime, hsize⟩ := hagrees.mpr h
    exact ⟨r.file.name, by rw [← hmime, ← hsize]; exact hshows⟩
  · obtain ⟨c', hshows', hagrees', hname'⟩ := alone.shows hjson hpg hlen hinj
    obtain ⟨hmime', hsize'⟩ := hagrees'.mpr fun x hx hhash => absurd hhash (hnone x hx)
    rcases hname' with ⟨halone, hfree⟩ | ⟨-, x, hx, hhash⟩
    swap
    · exact absurd hhash (hnone x hx)
    constructor
    · rintro ⟨o, ho, ho'⟩
      obtain ⟨-, hmime, hsize⟩ := hshows.columns ho
      obtain ⟨-, hmime₁, hsize₁⟩ := hshows'.columns ho'
      exact hagrees.mp ⟨hmime.trans (hmime₁.symm.trans hmime'), hsize.trans (hsize₁.symm.trans hsize')⟩
    · intro h
      obtain ⟨hmime, hsize⟩ := hagrees.mpr h
      rcases hname with ⟨hfile, -⟩ | ⟨hused, -⟩
      · refine ⟨_, hshows, ?_⟩
        rw [hmime, hsize, hfile, ← hmime', ← hsize', ← halone]
        exact hshows'
      · rw [htaken, hfree] at hused
        cases hused

end TwoRuns

/-- Two bytes under the name `a.txt`, with this MIME type. -/
def xyAs (user : Uuid) (mimeType : String) : HttpRequest where
  body := ascii "xy"
  authUserId := user.text
  headers := [(ascii "X-File-Name", ascii "a.txt"), (ascii "Content-Type", ascii mimeType)]

def aliceRow (id : Fin 8) : FileRow where
  id := sampleId id
  name := ascii "a.txt"
  ownerId := aliceId
  folderId := none
  contentId := sampleId 0
  createdAt := 0
  deletedAt := none

/-- Alice is the first with these bytes. -/
def aliceFirst : UploadRun sampleServices samplePostgres (singleUpload (xyAs aliceId "image/png")) where
  world := twoUsers
  initial := twoUsers_initial
  before := []
  action := .request .upload (xyAs aliceId "image/png")
  later := []
  file := aliceRow 1
  brings := .single _
  made := by decide +kernel
  fresh := by decide +kernel
  stays := trivial

/-- Bob has uploaded them as plain text before. -/
def bobFirst : UploadRun sampleServices samplePostgres (singleUpload (xyAs aliceId "image/png")) where
  world := twoUsers
  initial := twoUsers_initial
  before := [.request .upload (xyAs bobId "text/plain")]
  action := .request .upload (xyAs aliceId "image/png")
  later := []
  file := aliceRow 2
  brings := .single _
  made := by decide +kernel
  fresh := by decide +kernel
  stays := trivial

/-- Alone, the file has Alice's MIME type. -/
theorem alice_alone_reports_png : ∃ name, Shows sampleServices samplePostgres aliceFirst.final
    aliceFirst.file ⟨name, ascii "image/png", 2, ascii "xy"⟩ :=
  (reported_as_uploaded sampleServices_lawful samplePostgres_lawful sampleServices_digest_length
    sampleServices_sha256_injective aliceFirst).1.mpr fun _ hc => absurd hc List.not_mem_nil

/-- Behind Bob, it has Bob's, and the two runs differ for her. -/
theorem alice_behind_bob_reports_text :
    (¬ ∃ name, Shows sampleServices samplePostgres bobFirst.final bobFirst.file
      ⟨name, ascii "image/png", 2, ascii "xy"⟩) ∧
    ¬ ∃ o, Shows sampleServices samplePostgres bobFirst.final bobFirst.file o ∧
      Shows sampleServices samplePostgres aliceFirst.final aliceFirst.file o := by
  have hbehind : ∀ o, Shows sampleServices samplePostgres bobFirst.final bobFirst.file o →
      o.mimeType = ascii "text/plain" := fun o h => h.mime (by decide +kernel)
  have hfirst : ∀ o, Shows sampleServices samplePostgres aliceFirst.final aliceFirst.file o →
      o.mimeType = ascii "image/png" := fun o h => h.mime (by decide +kernel)
  have hne : ascii "image/png" ≠ ascii "text/plain" := by decide
  refine ⟨?_, ?_⟩
  · rintro ⟨name, h⟩
    exact hne (hbehind _ h)
  · rintro ⟨o, h, h'⟩
    exact hne ((hfirst o h').symm.trans (hbehind o h))

end SolarDrive.Runs
