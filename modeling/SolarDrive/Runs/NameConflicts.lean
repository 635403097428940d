import SolarDrive.Metadata.Lookups
import SolarDrive.Metadata.Names
import SolarDrive.Runs.Sessions

/-!
# Names that are taken

A file whose name is that of a live file of the same owner in the same folder.
A link to known content takes the first free name `stem(n)ext`; a row for new
content is inserted under the name as it is, and the unique index refuses it.
-/

namespace SolarDrive.Runs

open Lib Http Api Metadata Prog

/-- A live file of this owner has the name in this folder. -/
def used (w : World) (owner : Uuid) (folder : Option Uuid) (name : Bytes) : Bool :=
  w.files.any fun f => f.ownerId = owner && f.folderId = folder && f.name = name && f.live

/-- `stem(n)ext` -/
def variant (name : Bytes) (n : Nat) : Bytes := numbered (splitName name).1 (splitName name).2 n

structure FirstFree (w : World) (owner : Uuid) (folder : Option Uuid) (name : Bytes) (n : Nat) :
    Prop where
  pos : 1 ≤ n
  le : n ≤ 9999
  free : used w owner folder (variant name n) = false
  taken : ∀ m, 1 ≤ m → m < n → used w owner folder (variant name m) = true

/-- What the columns can hold: names are `TEXT`, sizes are `BIGINT`, and no generated id is the
nil UUID, which stands for the root folder in the unique index. -/
structure RowsTyped (w : World) : Prop where
  names : ∀ f ∈ w.files, validUtf8 f.name = true ∧ NUL ∉ f.name
  folders : ∀ f ∈ w.files, f.folderId ≠ some Uuid.nil
  folderIds : ∀ f ∈ w.folders, f.id ≠ Uuid.nil
  sizes : BigintSizes w

theorem exists_firstFree {w : World} {owner : Uuid} {folder : Option Uuid} {name : Bytes}
    (h : ∃ n, 1 ≤ n ∧ n ≤ 9999 ∧ used w owner folder (variant name n) = false) :
    ∃ n, FirstFree w owner folder name n := by
  classical
  have hspec := Nat.find_spec h
  refine ⟨Nat.find h, hspec.1, hspec.2.1, hspec.2.2, fun m hm hlt => ?_⟩
  have hnot := Nat.find_min h hlt
  by_contra hfree
  exact hnot ⟨hm, le_trans hlt.le hspec.2.1, Bool.eq_false_iff.mpr hfree⟩

/-! ## The variants of a name -/

/-- A name with a dot is cut at the last one. -/
theorem last_dot {name : Bytes} (h : DOT ∈ name) :
    ∃ stem, name = stem ++ DOT :: (name.reverse.takeWhile (· != DOT)).reverse := by
  have hcut : name.reverse.takeWhile (· != DOT) ++ name.reverse.dropWhile (· != DOT) =
      name.reverse := List.takeWhile_append_dropWhile
  cases hrest : name.reverse.dropWhile (· != DOT) with
  | nil =>
      have hdot := List.dropWhile_eq_nil_iff.mp hrest DOT (List.mem_reverse.mpr h)
      exact absurd hdot (by decide)
  | cons d rest =>
      have hd : d = DOT := by
        have hhead := @List.head_dropWhile_not _ (· != DOT) name.reverse (by rw [hrest]; simp)
        simpa [hrest] using hhead
      have hrev := congrArg List.reverse hcut
      rw [hrest, hd, List.reverse_append, List.reverse_reverse, List.reverse_cons,
        List.append_assoc] at hrev
      exact ⟨rest.reverse, hrev.symm⟩

theorem splitName_cases (name : Bytes) : splitName name = (name, []) ∨
    ∃ stem ext, splitName name = (stem, DOT :: ext) ∧ name = stem ++ DOT :: ext := by
  unfold splitName
  dsimp only
  split
  · rename_i h
    obtain ⟨stem, hname⟩ := last_dot (List.contains_iff_mem.mp h.1)
    refine .inr ⟨stem, _, ?_, hname⟩
    have hlength : name.length = stem.length +
        ((name.reverse.takeWhile (· != DOT)).reverse.length + 1) := by
      conv_lhs => rw [hname]
      rw [List.length_append, List.length_cons]
    have htake : name.take stem.length = stem := by
      conv_lhs => rw [hname]
      exact List.take_left
    rw [hlength, Nat.add_sub_cancel, htake]
  · exact .inl rfl

/-- The variants of a text are texts. -/
theorem variant_text {name : Bytes} (hvalid : validUtf8 name = true) (hnul : NUL ∉ name) (n : Nat) :
    validUtf8 (variant name n) = true ∧ NUL ∉ variant name n := by
  have hmiddle : ∀ c ∈ ascii "(" ++ decimalInt n ++ ascii ")", c ≠ NUL ∧ c < 0x80 := by
    have hbrackets : ∀ c ∈ ascii "(" ++ ascii ")", c ≠ NUL ∧ c < 0x80 := by
      decide +kernel
    intro c hc
    rcases List.mem_append.mp hc with hc | hc
    · rcases List.mem_append.mp hc with hc | hc
      · exact hbrackets c (List.mem_append_left _ hc)
      · have hdigit : isDigit c = true := isDigit_of_mem_decimal (n := n) hc
        simp only [isDigit, Bool.and_eq_true, decide_eq_true_eq] at hdigit
        exact ⟨fun hzero => absurd (hzero ▸ hdigit.1) (by decide),
          UInt8.lt_of_le_of_lt hdigit.2 (by decide)⟩
    · exact hbrackets c (List.mem_append_right _ hc)
  have hsplit : validUtf8 (splitName name).1 = true ∧ validUtf8 (splitName name).2 = true ∧
      NUL ∉ (splitName name).1 ∧ NUL ∉ (splitName name).2 := by
    rcases splitName_cases name with h | ⟨stem, ext, h, hname⟩
    · rw [h]
      exact ⟨hvalid, rfl, hnul, List.not_mem_nil⟩
    · rw [h]
      rw [hname] at hvalid hnul
      obtain ⟨hstem, hext⟩ := utf8Run_cut (by decide) hvalid
      refine ⟨hstem, ?_, fun hc => hnul (List.mem_append_left _ hc),
        fun hc => hnul (List.mem_append_right _ hc)⟩
      rw [validUtf8_cons_ascii (by decide)]
      exact hext
  obtain ⟨hstem, hext, hstemNul, hextNul⟩ := hsplit
  have hname : variant name n = (splitName name).1 ++
      ((ascii "(" ++ decimalInt n ++ ascii ")") ++ (splitName name).2) := by
    simp only [variant, numbered, List.append_assoc]
  rw [hname]
  constructor
  · rw [validUtf8_append hstem, validUtf8_append_ascii fun c hc => (hmiddle c hc).2]
    exact hext
  · intro hc
    rcases List.mem_append.mp hc with hc | hc
    · exact hstemNul hc
    · rcases List.mem_append.mp hc with hc | hc
      · exact (hmiddle _ hc).1 rfl
      · exact hextNul hc

section Names

variable {svc : Services} {pg : Postgres} {w w' : World} {userId folderId name : Bytes}
  {owner : Uuid} {folder : Option Uuid}

/-- Where a file is to be created: its owner and folder are there, and the id is new. -/
structure Target (pg : Postgres) (w : World) (userId folderId : Bytes) (owner : Uuid)
    (folder : Option Uuid) : Prop where
  named : userId ≠ []
  ownerId : pg.uuidParam userId = .ok owner
  user : w.users.any (·.id = owner) = true
  folderId : pg.optionalUuid folderId = .ok folder
  exists_folder : folder.all (fun p => w.folders.any (·.id = p)) = true
  fresh : w.files.any (·.id = w.uuids 0) = false

/-- In a folder that is there, the index and the query see the same names. -/
theorem indexed_eq_used (hw : RowsTyped w)
    (hfolder : folder.all (fun p => w.folders.any (·.id = p)) = true) :
    indexed w owner folder name = used w owner folder name := by
  have hnil : folder ≠ some Uuid.nil := by
    rintro rfl
    obtain ⟨f, hf, hid⟩ := List.any_eq_true.mp hfolder
    exact hw.folderIds f hf (of_decide_eq_true hid)
  have hsame : ∀ f ∈ w.files,
      (f.folderId.getD Uuid.nil = folder.getD Uuid.nil ↔ f.folderId = folder) := by
    intro f hf
    have hroot := hw.folders f hf
    cases hp : f.folderId with
    | none =>
        cases folder with
        | none => exact iff_of_true rfl rfl
        | some q => exact iff_of_false (fun heq => hnil (congrArg some heq.symm)) nofun
    | some p =>
        rw [hp] at hroot
        cases folder with
        | none => exact iff_of_false (fun heq => hroot (congrArg some heq)) nofun
        | some q => exact (Option.some_inj).symm
  rw [Bool.eq_iff_iff]
  unfold indexed used
  simp only [List.any_eq_true, Bool.and_eq_true, decide_eq_true_eq]
  refine exists_congr fun f => and_congr_right fun hf => ?_
  rw [hsame f hf]
  tauto

theorem query_eq (howner : pg.uuidParam userId = .ok owner)
    (hfolder : pg.optionalUuid folderId = .ok folder) (hvalid : validUtf8 name = true)
    (hnul : NUL ∉ name) :
    exec svc pg (.nameExistsInFolder userId folderId name) w =
      (.ok (used w owner folder name), w) := by
  have hname : pg.textParam name = .ok name :=
    textParam_ok.mpr ⟨by rwa [cstr_of_not_mem hnul], (cstr_of_not_mem hnul).symm⟩
  have hanswer : nameExistsInFolder pg w userId folderId name = .ok (used w owner folder name) :=
    bind_eq_ok.mpr ⟨owner, howner, bind_eq_ok.mpr ⟨folder, hfolder, bind_eq_ok.mpr ⟨name, hname, rfl⟩⟩⟩
  exact Prod.ext hanswer rfl

/-- The loop stops at the first free variant. -/
theorem run_firstFreeName (howner : pg.uuidParam userId = .ok owner)
    (hfolder : pg.optionalUuid folderId = .ok folder) (hvalid : validUtf8 name = true)
    (hnul : NUL ∉ name) {k : Nat} (hfree : used w owner folder (variant name k) = false) :
    ∀ (count n : Nat), n ≤ k → k < n + count →
      (∀ m, n ≤ m → m < k → used w owner folder (variant name m) = true) →
      (firstFreeName (splitName name).1 (splitName name).2 userId folderId count n).run
        (exec svc pg) w = (.ok (some (variant name k)), w)
  | 0, n, hle, hlt, _ => absurd hlt (by omega)
  | count + 1, n, hle, hlt, htaken => by
      obtain ⟨hv, hn⟩ := variant_text hvalid hnul n
      have hquery := @query_eq svc pg w userId folderId (variant name n) owner folder howner hfolder
        hv hn
      unfold firstFreeName
      dsimp only
      rw [ask, run_request_bind, show numbered (splitName name).1 (splitName name).2 n = variant name n
        from rfl, hquery]
      dsimp only
      by_cases heq : n = k
      · subst heq
        rw [hfree]
        rfl
      · rw [htaken n le_rfl (by omega)]
        exact run_firstFreeName howner hfolder hvalid hnul hfree count (n + 1) (by omega) (by omega)
          fun m hm hlt => htaken m (by omega) hlt

theorem run_makeUniqueName (howner : pg.uuidParam userId = .ok owner)
    (hfolder : pg.optionalUuid folderId = .ok folder) (hvalid : validUtf8 name = true)
    (hnul : NUL ∉ name) (hused : used w owner folder name = true) {n : Nat}
    (hfirst : FirstFree w owner folder name n) :
    (makeUniqueName name userId folderId).run (exec svc pg) w = (.ok (variant name n), w) := by
  have hloop := @run_firstFreeName svc pg w userId folderId name owner folder howner hfolder hvalid
    hnul n hfirst.free 9999 1 hfirst.pos (by have := hfirst.le; omega) hfirst.taken
  unfold makeUniqueName
  rw [ask, run_request_bind, query_eq howner hfolder hvalid hnul, hused]
  dsimp only
  rw [if_pos rfl, run_bind, hloop]
  rfl

/-! ## A link -/

/-- The row is that of a file under the first free variant. -/
structure CreatedFree (w : World) (owner : Uuid) (folder : Option Uuid) (name : Bytes)
    (row : FileRow) : Prop where
  name : ∃ n, FirstFree w owner folder name n ∧ row.name = variant name n
  ownerId : row.ownerId = owner
  folderId : row.folderId = folder
  live : row.live = true

theorem used_text (hw : RowsTyped w) (hused : used w owner folder name = true) :
    validUtf8 name = true ∧ NUL ∉ name := by
  obtain ⟨f, hf, hp⟩ := List.any_eq_true.mp hused
  simp only [Bool.and_eq_true, decide_eq_true_eq] at hp
  rw [← hp.1.2]
  exact hw.names f hf

/-- A link under the first free variant is taken. -/
theorem exec_insertLink_free (hw : RowsTyped w) (ht : Target pg w userId folderId owner folder)
    (hused : used w owner folder name = true) {n : Nat} (hfirst : FirstFree w owner folder name n)
    {file : FileRecord} (hname : file.name = variant name n) (howner : file.ownerId = userId)
    (hfolder : file.folderId = folderId) {contentId : Bytes} {u : Uuid} (hne : contentId ≠ [])
    (hcontent : pg.uuidParam contentId = .ok u) (hfound : (w.findContent u).isSome = true) :
    ∃ row w', exec svc pg (.insertLink file contentId) w = (.ok row.id.text, w') ∧
      CreatedFree w owner folder name row ∧ w'.files = w.files ++ [row] := by
  obtain ⟨hvalid, hnul⟩ := used_text hw hused
  obtain ⟨hv, hn⟩ := variant_text hvalid hnul n
  have htext : pg.textParam file.name = .ok (variant name n) := by
    rw [hname]
    exact textParam_ok.mpr ⟨by rwa [cstr_of_not_mem hn], (cstr_of_not_mem hn).symm⟩
  have hfree : indexed w owner folder (variant name n) = false := by
    rw [indexed_eq_used hw ht.exists_folder]
    exact hfirst.free
  subst howner hfolder
  obtain ⟨t, w', hins⟩ := (@insertLink_ok_iff pg w.skipUuids file contentId (w.uuids 0)).mpr
    ⟨ht.named, hne, ⟨ht.fresh, _, owner, folder, htext, ht.ownerId, ht.folderId, hfree, ht.user,
      ht.exists_folder⟩, u, hcontent, hfound⟩
  have hexec : exec svc pg (.insertLink file contentId) w = (.ok t, w') := by
    show commit w.skipUuids (insertLink pg file contentId (w.uuids 0) w.skipUuids) = _
    rw [hins]
    rfl
  rcases exec_insertLink_named hexec with ⟨e, he, -⟩ | ⟨row, hrow, -, hr, rfl⟩
  · cases he
  · cases hr
    refine ⟨row, _, hexec, ⟨⟨n, hfirst, ?_⟩, ?_, ?_, hrow.live⟩, rfl⟩
    · exact Except.ok.inj (hrow.name.symm.trans htext)
    · exact Except.ok.inj (hrow.ownerId.symm.trans ht.ownerId)
    · exact Except.ok.inj (hrow.folderId.symm.trans ht.folderId)

/-- A link to the content that was found. -/
theorem run_linkExistingContent (hpg : pg.Lawful svc.json) (hw : RowsTyped w)
    (ht : Target pg w userId folderId owner folder) (hused : used w owner folder name = true) {n : Nat}
    (hfirst : FirstFree w owner folder name n) {hash : Bytes} {record : FileRecord}
    (hfound : findContentByHash pg w hash = .ok (some record)) (mimeType : Bytes) :
    ∃ row w', (linkExistingContent record name mimeType userId folderId).run (exec svc pg) w =
        (.ok row.id.text, w') ∧
      CreatedFree w owner folder name row ∧ w'.files = w.files ++ [row] := by
  obtain ⟨hvalid, hnul⟩ := used_text hw hused
  obtain ⟨c, hc, -, hrecord⟩ := findContentByHash_some hfound
  have hid : record.contentId = c.id.text := congrArg FileRecord.contentId hrecord
  have hrow : (w.findContent c.id).isSome = true :=
    List.find?_isSome.mpr ⟨c, hc, decide_eq_true rfl⟩
  unfold linkExistingContent
  rw [run_bind, run_makeUniqueName ht.ownerId ht.folderId hvalid hnul hused hfirst]
  dsimp only
  rw [ask, run_request, hid]
  exact exec_insertLink_free hw ht hused hfirst rfl rfl rfl (Uuid.text_ne_nil c.id)
    (uuidParam_text hpg c.id) hrow

theorem uuid_validUtf8 (u : Uuid) : validUtf8 u.text = true :=
  validUtf8_of_ascii fun _ hx => (isUuidText_ascii u.isText hx).2

/-! ## New content -/

/-- A row under a name that is in the index is refused. -/
theorem exec_fileInsert_used {file : FileRecord} {name' : Bytes} {r : Except Exn Bytes}
    (hname : pg.textParam file.name = .ok name') (howner : pg.uuidParam file.ownerId = .ok owner)
    (hfolder : pg.optionalUuid file.folderId = .ok folder)
    (hindexed : indexed w owner folder name' = true)
    (hexec : exec svc pg (.fileInsert file) w = (r, w')) : ∃ e, r = .error e := by
  rcases exec_fileInsert_named hexec with ⟨e, rfl, -⟩ | ⟨row, _, hrow, hfree, -⟩
  · exact ⟨e, rfl⟩
  · obtain rfl := Except.ok.inj (hrow.name.symm.trans hname)
    obtain rfl := Except.ok.inj (hrow.ownerId.symm.trans howner)
    obtain rfl := Except.ok.inj (hrow.folderId.symm.trans hfolder)
    rw [hindexed] at hfree
    cases hfree

/-- Whether there is content with this hash. -/
def Known (svc : Services) (w : World) (data : Bytes) : Prop :=
  ∃ c ∈ w.contents, c.hash = svc.sha256 data

theorem find_known (data : Bytes) : ∃ found, findContentByHash pg w (svc.sha256 data) = .ok found ∧
    (found.isSome = true ↔ Known svc w data) := by
  refine ⟨_, bind_eq_ok.mpr ⟨_, bind_eq_ok.mpr ⟨_, textParam_sha256 svc data, rfl⟩, rfl⟩, ?_⟩
  rw [Option.isSome_map, Option.isSome_map, List.find?_isSome]
  simp only [decide_eq_true_eq]
  rfl

theorem run_rememberHash (hash contentId : Bytes) : ∃ redis,
    (rememberHash svc hash contentId).run (exec svc pg) w = (.ok (), { w with redis }) := by
  unfold rememberHash
  split
  · exact ⟨_, rfl⟩
  · exact ⟨w.redis, rfl⟩

theorem run_deleteFromRedis (uploadId : Bytes) : ∃ redis,
    (deleteFromRedis svc uploadId).run (exec svc pg) w = (.ok (), { w with redis }) := by
  unfold deleteFromRedis
  split
  · exact ⟨_, rfl⟩
  · exact ⟨w.redis, rfl⟩

/-! ## The three handlers -/

/-- The file is created under the first free variant of its name, and the answer is 200. -/
structure Numbered (w : World) (owner : Uuid) (folder : Option Uuid) (name : Bytes)
    (r : Except Exn HttpResponse) (w' : World) : Prop where
  accepted : accepted r = true
  file : ∃ row, CreatedFree w owner folder name row ∧ w'.files = w.files ++ [row]

theorem not_numbered {r : Except Exn HttpResponse} (h : accepted r = false) :
    ¬ Numbered w owner folder name r w' := by
  intro hn
  rw [hn.accepted] at h
  cases h

/-- A single upload that gets as far as to create a file. -/
structure ValidUpload (svc : Services) (pg : Postgres) (w : World) (req : HttpRequest)
    (userId : Bytes) (owner : Uuid) (folder : Option Uuid) : Prop where
  body : req.body ≠ []
  size : svc.oversized req.body.length = false
  owned : req.getHeader (ascii "X-Folder-Id") = [] ∨ ∃ f,
    folderFindById pg w (req.getHeader (ascii "X-Folder-Id")) = .ok (some f) ∧ f.ownerId = userId
  target : Target pg w userId (req.getHeader (ascii "X-Folder-Id")) owner folder

/-- A session with all its parts, which can be read, whose user asks to complete it. -/
structure ReadyToComplete (svc : Services) (pg : Postgres) (w : World) (req : HttpRequest)
    (session : MultipartSession) (content : Bytes) (owner : Uuid) (folder : Option Uuid) :
    Prop where
  user : req.hasAuthUser = true
  path : req.getPathParam (ascii "upload_id") ≠ []
  loads : (requireSession svc req (req.getPathParam (ascii "upload_id"))).run (exec svc pg) w =
    (.ok (.ok session), w)
  parts : firstMissing session = none
  hashes : ∃ t, svc.json.dump (hashArray session.partHashes) = .ok t
  reads : (getChunked session.partHashes).run (exec svc pg) w = (.ok content, w)
  size : -(2 ^ 63) ≤ session.totalSize ∧ session.totalSize < 2 ^ 63
  target : Target pg w session.userId session.folderId owner folder

/-- A share that can be opened, of a file that is there. -/
structure ReadyToSave (svc : Services) (pg : Postgres) (w : World) (req : HttpRequest)
    (share : ShareRecord) (file : FileRecord) (owner : Uuid) : Prop where
  user : req.hasAuthUser = true
  opens : ∃ body token password, svc.json.parse req.body = .ok body ∧
    readSaveBody body = .ok (token, password) ∧
    (resolveShare svc token password false).run (exec svc pg) w = (.ok (.ok share), w)
  found : fileFindById pg w share.fileId = .ok (some file)
  target : Target pg w req.authUserId [] owner none

variable (hjson : svc.json.Lawful) (hpg : pg.Lawful svc.json)

include hjson hpg in
theorem wp_linkAnswer (hw : RowsTyped w) (ht : Target pg w userId folderId owner folder)
    (hused : used w owner folder name = true) {n : Nat} (hfirst : FirstFree w owner folder name n)
    {data : Bytes} {record : FileRecord}
    (hfound : findContentByHash pg w (svc.sha256 data) = .ok (some record)) (mimeType : Bytes) :
    (do
      let fileId ← linkExistingContent record name mimeType userId folderId
      instantAnswer svc fileId (svc.sha256 data) record.size : App HttpResponse).wp
      (ofExec (exec svc pg)) (fun r w' => Numbered w owner folder name r w') w := by
  obtain ⟨c, hc, -, hrecord⟩ := findContentByHash_some hfound
  have hsize : record.size = c.size := congrArg FileRecord.size hrecord
  obtain ⟨row, w₁, hlink, hcreated, hfiles⟩ :=
    run_linkExistingContent hpg hw ht hused hfirst hfound mimeType
  refine wp_run_bind hlink (wp_mono (wp_fileAnswer hjson (uuid_validUtf8 row.id)
    (hsize ▸ hw.sizes c hc)) ?_)
  rintro r _ ⟨rfl, haccepted⟩
  exact ⟨haccepted, row, hcreated, hfiles⟩

theorem wp_uploadNew_used (hw : RowsTyped w) (ht : Target pg w userId folderId owner folder)
    (hused : used w owner folder name = true) (body mimeType fileHash : Bytes) :
    (uploadNew svc body name mimeType userId folderId fileHash).wp (ofExec (exec svc pg))
      (fun r _ => accepted r = false) w := by
  obtain ⟨hvalid, hnul⟩ := used_text hw hused
  have hputs : (putChunked svc body).CallsOnly fun c => ∃ data, c = .put data :=
    callsOnly_putAll (fun data => ⟨data, rfl⟩) _
  refine wp_seq (M := fun _ (w₁ : World) => w₁.files = w.files) (wp_of_callsOnly
    (fun w₁ : World => w₁.files = w.files) ?_ hputs rfl) (fun hashes w₁ hfiles => ?_) fun _ _ _ => rfl
  · rintro w₁ _ ⟨data, rfl⟩ hfiles
    refine ⟨trivial, fun r w₂ hexec => ?_⟩
    rcases exec_put hexec with ⟨hsame, -⟩ | ⟨-, -, hsame⟩
    · rw [hsame]
      exact hfiles
    · rw [hsame]
      exact hfiles
  cases svc.json.dump (hashArray hashes) with
  | error what => rfl
  | ok chunkHashes =>
      refine wp_request_bind trivial (fun fileId w₂ hexec => ?_) fun _ _ _ => rfl
      have hname : pg.textParam name = .ok name :=
        textParam_ok.mpr ⟨by rwa [cstr_of_not_mem hnul], (cstr_of_not_mem hnul).symm⟩
      have hindexed : indexed w₁ owner folder name = true := by
        rw [indexed, hfiles]
        exact (indexed_eq_used hw ht.exists_folder).trans hused
      obtain ⟨e, he⟩ := exec_fileInsert_used hname ht.ownerId ht.folderId hindexed hexec
      cases he

include hjson hpg in
theorem wp_uploadLookup_used (hw : RowsTyped w) (ht : Target pg w userId folderId owner folder)
    (hused : used w owner folder name = true) {n : Nat} (hfirst : FirstFree w owner folder name n)
    (body mimeType : Bytes) :
    (uploadLookup svc body name mimeType userId folderId (svc.sha256 body)).wp (ofExec (exec svc pg))
      (fun r w' => Numbered w owner folder name r w' ↔ Known svc w body) w := by
  obtain ⟨found, hfound, hknown⟩ := @find_known svc pg w body
  refine wp_run_bind ((run_request _ _ _).trans (Prod.ext hfound rfl)) ?_
  cases found with
  | none =>
      refine wp_mono (wp_uploadNew_used hw ht hused body mimeType _) fun r w' hrefused => ?_
      exact iff_of_false (not_numbered hrefused) fun h => (by cases hknown.mpr h)
  | some record =>
      obtain ⟨redis, hremember⟩ := @run_rememberHash svc pg w (svc.sha256 body) record.contentId
      refine wp_run_bind hremember ?_
      have hlink := @wp_linkAnswer svc pg { w with redis } userId folderId name owner folder hjson hpg
        ⟨hw.names, hw.folders, hw.folderIds, hw.sizes⟩
        ⟨ht.named, ht.ownerId, ht.user, ht.folderId, ht.exists_folder, ht.fresh⟩ hused n
        ⟨hfirst.pos, hfirst.le, hfirst.free, hfirst.taken⟩ body record hfound mimeType
      refine wp_mono hlink fun r w' h => iff_of_true ⟨h.accepted, ?_⟩ (hknown.mp rfl)
      obtain ⟨row, ⟨⟨m, hm, hname⟩, howner, hfolder, hlive⟩, hfiles⟩ := h.file
      exact ⟨row, ⟨⟨m, ⟨hm.pos, hm.le, hm.free, hm.taken⟩, hname⟩, howner, hfolder, hlive⟩, hfiles⟩

include hjson hpg in
theorem wp_uploadContent_used (hw : RowsTyped w) (ht : Target pg w userId folderId owner folder)
    (hused : used w owner folder name = true) {n : Nat} (hfirst : FirstFree w owner folder name n)
    (body mimeType : Bytes) :
    (uploadContent svc body name mimeType userId folderId).wp (ofExec (exec svc pg))
      (fun r w' => Numbered w owner folder name r w' ↔ Known svc w body) w := by
  have hlookup := wp_uploadLookup_used hjson hpg hw ht hused hfirst body mimeType
  unfold uploadContent
  dsimp only
  split
  · refine wp_run_bind (run_request _ _ _) ?_
    cases redisGet w (hashKey (svc.sha256 body)) with
    | none => exact hlookup
    | some _ =>
        obtain ⟨found, hfound, hknown⟩ := @find_known svc pg w body
        refine wp_run_bind ((run_request _ _ _).trans (Prod.ext hfound rfl)) ?_
        cases found with
        | none => exact hlookup
        | some record =>
            exact wp_mono (wp_linkAnswer hjson hpg hw ht hused hfirst hfound mimeType)
              fun r w' h => iff_of_true h (hknown.mp rfl)
  · exact hlookup

include hjson hpg in
theorem single_numbered_iff (hw : RowsTyped w) (hused : used w owner folder name = true)
    (hfree : ∃ n, 1 ≤ n ∧ n ≤ 9999 ∧ used w owner folder (variant name n) = false)
    {req : HttpRequest} (hv : ValidUpload svc pg w req userId owner folder)
    (hname : resolveFilename req = name) {r : Except Exn HttpResponse}
    (hrun : (handleSingleUpload svc req userId).run (exec svc pg) w = (r, w')) :
    Numbered w owner folder name r w' ↔ Known svc w req.body := by
  obtain ⟨n, hfirst⟩ := exists_firstFree hfree
  have hfolder : (resolveFolderId svc (req.getHeader (ascii "X-Folder-Id")) userId).run
      (exec svc pg) w = (.ok (.ok (req.getHeader (ascii "X-Folder-Id"))), w) := by
    unfold resolveFolderId
    rcases hv.owned with hroot | ⟨f, hf, howner⟩
    · rw [if_pos hroot, hroot]
      rfl
    · split
      · rename_i hroot
        rw [hroot]
        rfl
      · have hquery : exec svc pg (.folderFindById (req.getHeader (ascii "X-Folder-Id"))) w =
            (.ok (some f), w) := Prod.ext hf rfl
        rw [ask, run_request_bind, hquery]
        dsimp only
        rw [if_neg (fun hne => hne howner)]
        rfl
  have hwp : (handleSingleUpload svc req userId).wp (ofExec (exec svc pg))
      (fun r w' => Numbered w owner folder name r w' ↔ Known svc w req.body) w := by
    unfold handleSingleUpload
    rw [if_neg hv.body, if_neg (by rw [hv.size]; exact nofun)]
    refine wp_run_bind hfolder ?_
    dsimp only
    rw [hname]
    exact wp_uploadContent_used hjson hpg hw hv.target hused hfirst _ _
  rw [wp_ofExec, hrun] at hwp
  exact hwp

include hpg in
theorem wp_createFile_used (hw : RowsTyped w) {session : MultipartSession}
    (ht : Target pg w session.userId session.folderId owner folder)
    (hused : used w owner folder session.fileName = true) {n : Nat}
    (hfirst : FirstFree w owner folder session.fileName n) (chunkHashes data : Bytes) :
    (createFile svc session chunkHashes (svc.sha256 data)).wp (ofExec (exec svc pg))
      (fun r w' => match r with
        | .ok (fileId, _) => Known svc w data ∧ validUtf8 fileId = true ∧
            ∃ row, CreatedFree w owner folder session.fileName row ∧ w'.files = w.files ++ [row]
        | .error _ => ¬ Known svc w data) w := by
  obtain ⟨hvalid, hnul⟩ := used_text hw hused
  obtain ⟨found, hfound, hknown⟩ := @find_known svc pg w data
  refine wp_run_bind ((run_request _ _ _).trans (Prod.ext hfound rfl)) ?_
  cases found with
  | none =>
      have hnew : ¬ Known svc w data := fun h => by cases hknown.mpr h
      have hname : pg.textParam session.fileName = .ok session.fileName :=
        textParam_ok.mpr ⟨by rwa [cstr_of_not_mem hnul], (cstr_of_not_mem hnul).symm⟩
      refine wp_request_bind trivial (fun fileId w₁ hexec => ?_) fun _ _ _ => hnew
      obtain ⟨e, he⟩ := exec_fileInsert_used hname ht.ownerId ht.folderId
        ((indexed_eq_used hw ht.exists_folder).trans hused) hexec
      cases he
  | some record =>
      obtain ⟨row, w₁, hlink, hcreated, hfiles⟩ :=
        run_linkExistingContent hpg hw ht hused hfirst hfound session.mimeType
      obtain ⟨redis, hremember⟩ := @run_rememberHash svc pg w₁ (svc.sha256 data) record.contentId
      refine wp_run_bind hlink (wp_run_bind hremember ?_)
      exact ⟨hknown.mp rfl, uuid_validUtf8 row.id, row, hcreated, hfiles⟩

include hjson hpg in
theorem complete_numbered_iff (hw : RowsTyped w) {session : MultipartSession}
    (hused : used w owner folder session.fileName = true)
    (hfree : ∃ n, 1 ≤ n ∧ n ≤ 9999 ∧ used w owner folder (variant session.fileName n) = false)
    {req : HttpRequest} {content : Bytes}
    (hv : ReadyToComplete svc pg w req session content owner folder) {r : Except Exn HttpResponse}
    (hrun : (handleComplete svc req).run (exec svc pg) w = (r, w')) :
    Numbered w owner folder session.fileName r w' ↔ Known svc w content := by
  obtain ⟨n, hfirst⟩ := exists_firstFree hfree
  obtain ⟨chunkHashes, hdump⟩ := hv.hashes
  have hfinish : (finishSession svc (req.getPathParam (ascii "upload_id")) session).wp
      (ofExec (exec svc pg)) (fun r w' =>
        Numbered w owner folder session.fileName r w' ∧ Known svc w content ∨
          (∃ e, r = .error e) ∧ ¬ Known svc w content) w := by
    unfold finishSession
    rw [hdump]
    have hhashes : (ofJson (.ok chunkHashes) : App Bytes).run (exec svc pg) w =
        (.ok chunkHashes, w) := rfl
    refine wp_run_bind hhashes (wp_run_bind hv.reads ?_)
    refine wp_seq (wp_createFile_used hpg hw hv.target hused hfirst chunkHashes content)
      (fun created w₁ h₁ => ?_) fun e w₁ h₁ => .inr ⟨⟨e, rfl⟩, h₁⟩
    obtain ⟨fileId, instant⟩ := created
    obtain ⟨hknown, hid, row, hcreated, hfiles⟩ := h₁
    obtain ⟨redis, hdelete⟩ := @run_deleteFromRedis svc pg w₁ (req.getPathParam (ascii "upload_id"))
    refine wp_run_bind hdelete (wp_run_bind (run_request _ _ _) ?_)
    refine wp_mono (wp_fileAnswer hjson hid hv.size) ?_
    rintro r _ ⟨rfl, haccepted⟩
    exact .inl ⟨⟨haccepted, row, hcreated, hfiles⟩, hknown⟩
  have hwp : (handleComplete svc req).wp (ofExec (exec svc pg))
      (fun r w' => Numbered w owner folder session.fileName r w' ↔ Known svc w content) w := by
    unfold handleComplete withSession
    refine wp_catch (M := fun r w' =>
      Numbered w owner folder session.fileName r w' ∧ Known svc w content ∨
        (∃ e, r = .error e) ∧ ¬ Known svc w content) ?_ (fun resp w₁ h₁ => ?_) fun e w₁ h₁ => ?_
    · rw [if_neg (by rw [hv.user]; exact nofun)]
      dsimp only
      rw [if_neg hv.path]
      refine wp_run_bind hv.loads ?_
      dsimp only
      rw [hv.parts]
      exact hfinish
    · rcases h₁ with ⟨hn, hknown⟩ | ⟨⟨e, he⟩, -⟩
      · exact iff_of_true hn hknown
      · cases he
    · rcases h₁ with ⟨hn, -⟩ | ⟨-, hnew⟩
      · cases hn.accepted
      · refine wp_mono (wp_catchStd _ e) fun r w₂ h₂ => ?_
        exact iff_of_false (not_numbered h₂.2) hnew
  rw [wp_ofExec, hrun] at hwp
  exact hwp

include hjson hpg in
theorem wp_saveShare_used (hw : RowsTyped w) {share : ShareRecord} {file : FileRecord}
    (hfound : fileFindById pg w share.fileId = .ok (some file))
    (ht : Target pg w userId [] owner none) (hused : used w owner none file.name = true) {n : Nat}
    (hfirst : FirstFree w owner none file.name n) :
    (saveShare svc userId share).wp (ofExec (exec svc pg))
      (fun r w' => Numbered w owner none file.name r w') w := by
  obtain ⟨hvalid, hnul⟩ := used_text hw hused
  obtain ⟨u, -, hret⟩ := bind_eq_ok.mp hfound
  obtain ⟨f, -, -, -, hrecord⟩ := selectFiles_head (Except.ok.inj hret)
  obtain ⟨c, hc, hfields⟩ := Option.map_eq_some_iff.mp hrecord
  have hid : file.contentId = f.contentId.text := by rw [← hfields]
  have hsize : file.size = c.size := by rw [← hfields]
  refine wp_run_bind ((run_request _ _ _).trans (Prod.ext hfound rfl)) ?_
  refine wp_run_bind (run_makeUniqueName ht.ownerId ht.folderId hvalid hnul hused hfirst) ?_
  obtain ⟨row, w₁, hexec, hcreated, hfiles⟩ := @exec_insertLink_free svc pg w userId [] file.name owner
    none hw ht hused n hfirst
    { name := variant file.name n, ownerId := userId, mimeType := file.mimeType } rfl rfl rfl
    file.contentId f.contentId (hid ▸ Uuid.text_ne_nil f.contentId)
    (hid ▸ uuidParam_text hpg f.contentId) (by rw [hc]; rfl)
  refine wp_run_bind ((run_request _ _ _).trans hexec) ?_
  have hbigint := hw.sizes c (List.mem_of_find?_eq_some hc)
  refine wp_mono (wp_setJson_object hjson ?_ ?_ ?_) ?_
  any_goals simp only [List.map_cons, List.map_nil]
  · rfl
  · decide
  · simp only [List.forall_mem_cons, hsize]
    exact ⟨sendable_str (uuid_validUtf8 row.id), sendable_str (variant_text hvalid hnul n).1,
      sendable_bool true, sendable_int hbigint.1 hbigint.2, nofun⟩
  · rintro r _ ⟨rfl, haccepted⟩
    exact ⟨haccepted, row, hcreated, hfiles⟩

include hjson hpg in
theorem save_numbered (hw : RowsTyped w) {req : HttpRequest} {share : ShareRecord} {file : FileRecord}
    (hused : used w owner none file.name = true)
    (hfree : ∃ n, 1 ≤ n ∧ n ≤ 9999 ∧ used w owner none (variant file.name n) = false)
    (hv : ReadyToSave svc pg w req share file owner) {r : Except Exn HttpResponse}
    (hrun : (handleShareSave svc req).run (exec svc pg) w = (r, w')) :
    Numbered w owner none file.name r w' := by
  obtain ⟨n, hfirst⟩ := exists_firstFree hfree
  obtain ⟨body, token, password, hparse, hbody, hshare⟩ := hv.opens
  have hwp : (handleShareSave svc req).wp (ofExec (exec svc pg))
      (fun r w' => Numbered w owner none file.name r w') w := by
    unfold handleShareSave authorized
    refine wp_catch (M := fun r w' => Numbered w owner none file.name r w') ?_ (fun _ _ h => h)
      fun e w₁ h => (by cases h.accepted)
    rw [if_pos hv.user]
    have hexec : exec svc pg (.jsonParse req.body) w = (.ok body, w) := exec_jsonParse hparse
    refine wp_run_bind ((run_request _ _ _).trans hexec) ?_
    rw [hbody]
    have hread : (ofJson (.ok (token, password)) : App (Bytes × Bytes)).run (exec svc pg) w =
        (.ok (token, password), w) := rfl
    refine wp_run_bind hread (wp_run_bind hshare ?_)
    exact wp_saveShare_used hjson hpg hw hv.found hv.target hused hfirst
  rw [wp_ofExec, hrun] at hwp
  exact hwp

include hjson hpg in
/-- **A name that is taken**: a share is always saved under the first free variant of the name.
An upload, single or in parts, is stored under it exactly when there is content with its hash. -/
theorem name_conflict (hw : RowsTyped w) (hused : used w owner folder name = true)
    (hfree : ∃ n, 1 ≤ n ∧ n ≤ 9999 ∧ used w owner folder (variant name n) = false) :
    (∀ req userId r w', ValidUpload svc pg w req userId owner folder → resolveFilename req = name →
      (handleSingleUpload svc req userId).run (exec svc pg) w = (r, w') →
      (Numbered w owner folder name r w' ↔ Known svc w req.body)) ∧
    (∀ req session content r w', ReadyToComplete svc pg w req session content owner folder →
      session.fileName = name → (handleComplete svc req).run (exec svc pg) w = (r, w') →
      (Numbered w owner folder name r w' ↔ Known svc w content)) ∧
    ∀ req share file r w', ReadyToSave svc pg w req share file owner → folder = none →
      file.name = name → (handleShareSave svc req).run (exec svc pg) w = (r, w') →
      Numbered w owner folder name r w' := by
  refine ⟨fun req userId r w' hv hname hrun => ?_, ?_, ?_⟩
  · exact single_numbered_iff hjson hpg hw hused hfree hv hname hrun
  · rintro req session content r w' hv rfl hrun
    exact complete_numbered_iff hjson hpg hw hused hfree hv hrun
  · rintro req share file r w' hv rfl rfl hrun
    exact save_numbered hjson hpg hw hused hfree hv hrun

end Names

/-! ### A second `x.txt` -/

theorem oneFile_typed : RowsTyped oneFile := by
  refine ⟨fun f hf => ?_, fun f hf => ?_, nofun, fun c hc => ?_⟩
  · obtain rfl := List.mem_singleton.mp hf
    decide +kernel
  · obtain rfl := List.mem_singleton.mp hf
    exact nofun
  · obtain rfl := List.mem_singleton.mp hc
    decide

def asXtxt (body : Bytes) : HttpRequest :=
  { headers := [(ascii "X-File-Name", ascii "x.txt")], body }

theorem asXtxt_valid {body : Bytes} (hne : body ≠ [])
    (hsize : sampleServices.oversized body.length = false) :
    ValidUpload sampleServices samplePostgres oneFile (asXtxt body) aliceId.text aliceId none := by
  have hroot : (asXtxt body).getHeader (ascii "X-Folder-Id") = [] := by
    show (List.lookup _ [(ascii "X-File-Name", ascii "x.txt")]).getD [] = []
    decide
  refine ⟨hne, hsize, .inl hroot, ?_⟩
  rw [hroot]
  exact ⟨Uuid.text_ne_nil aliceId, uuidParam_text samplePostgres_lawful aliceId, by decide +kernel,
    rfl, rfl, by decide +kernel⟩

theorem xtxt_variant_free : ∃ n, 1 ≤ n ∧ n ≤ 9999 ∧
    used oneFile aliceId none (variant (ascii "x.txt") n) = false :=
  ⟨1, by decide, by decide, by decide +kernel⟩

/-- Alice uploads `x` as `x.txt` once more. -/
def uploadsAgain (body : Bytes) : Except Exn HttpResponse × World :=
  (handleSingleUpload sampleServices (asXtxt body) aliceId.text).run
    (exec sampleServices samplePostgres) oneFile

/-- A session of the same content and name, with its one part there. -/
def partsOfX : MultipartSession :=
  { uploadId := ascii "s", userId := aliceId.text, fileName := ascii "x.txt"
    mimeType := ascii "text/plain", totalSize := 1, chunkSize := 1, chunkCount := 1
    uploaded := [true], partHashes := [sampleServices.sha256 (ascii "x")] }

/-- The session is open, and Alice's file is shared. -/
def sharedX : World :=
  { oneFile with
    shares := [{ id := sampleId 5, fileId := sampleId 1, ownerId := aliceId, shareToken := ascii "t"
                 passwordHash := none, expiresAt := none, maxDownloads := 0, downloadCount := 0
                 createdAt := 0, isRevoked := false }]
    redis := fun key =>
      if key = sessionKey (ascii "s") then
        some (.hash fun field => (sessionFields partsOfX
          (ascii "[\"" ++ sampleServices.sha256 (ascii "x") ++ ascii "\"]")
          (ascii "[true]")).lookup field)
      else none }

def completesX : HttpRequest :=
  { pathParams := [(ascii "upload_id", ascii "s")], authUserId := aliceId.text }

def savesX : HttpRequest :=
  { body := ascii "\x7b\"share_token\":\"t\"\x7d", authUserId := aliceId.text }

theorem sharedX_target : Target samplePostgres sharedX aliceId.text [] aliceId none :=
  ⟨Uuid.text_ne_nil aliceId, uuidParam_text samplePostgres_lawful aliceId, by decide +kernel, rfl,
    rfl, by decide +kernel⟩

theorem sharedX_completes :
    ReadyToComplete sampleServices samplePostgres sharedX completesX partsOfX (ascii "x") aliceId
      none where
  user := by decide +kernel
  path := by decide +kernel
  loads := Prod.ext (by decide +kernel) (run_unchanged
    (callsOnly_requireSession sampleServices (fun _ _ => rfl) (fun _ _ => rfl) completesX))
  parts := by decide
  hashes := by
    obtain ⟨t, hdump, -⟩ := sampleServices_lawful.dump_flat (hashArray partsOfX.partHashes) rfl
      (by decide +kernel)
    exact ⟨t, hdump⟩
  reads := Prod.ext (by decide +kernel) rfl
  size := by decide
  target := sharedX_target

theorem sharedX_saves : ∃ share file,
    ReadyToSave sampleServices samplePostgres sharedX savesX share file aliceId ∧
      file.name = ascii "x.txt" := by
  have hread : ((sampleServices.json.parse savesX.body).toOption.map fun body =>
      (readSaveBody body).toOption) = some (some (ascii "t", [])) := by decide +kernel
  have hfields : ∃ body, sampleServices.json.parse savesX.body = .ok body ∧
      readSaveBody body = .ok (ascii "t", []) := by
    cases hparse : sampleServices.json.parse savesX.body with
    | error e =>
        rw [hparse] at hread
        cases hread
    | ok body =>
        rw [hparse] at hread
        refine ⟨body, rfl, ?_⟩
        cases hbody : readSaveBody body with
        | error e => simp [Except.toOption, hbody] at hread
        | ok fields => simpa [Except.toOption, hbody] using hread
  obtain ⟨body, hparse, hbody⟩ := hfields
  obtain ⟨share, hopened, hfile⟩ : ∃ share,
      (resolveShare sampleServices (ascii "t") [] false).run (exec sampleServices samplePostgres)
        sharedX = (.ok (.ok share), sharedX) ∧ share.fileId = (sampleId 1).text := ⟨_, rfl, rfl⟩
  obtain ⟨file, hfound, hname⟩ : ∃ file,
      fileFindById samplePostgres sharedX (sampleId 1).text = .ok (some file) ∧
        file.name = ascii "x.txt" := ⟨_, rfl, rfl⟩
  exact ⟨share, file, ⟨by decide +kernel,
    ⟨body, ascii "t", [], hparse, hbody, hopened⟩,
    hfile ▸ hfound, sharedX_target⟩, hname⟩

/-- The content is uploaded again, at once and in parts, and the file is saved from its share. -/
theorem x_uploaded_again :
    Numbered oneFile aliceId none (ascii "x.txt") (uploadsAgain (ascii "x")).1
        (uploadsAgain (ascii "x")).2 ∧
      ∀ handle ∈ [handleComplete sampleServices completesX, handleShareSave sampleServices savesX],
        Numbered sharedX aliceId none (ascii "x.txt")
          (handle.run (exec sampleServices samplePostgres) sharedX).1
          (handle.run (exec sampleServices samplePostgres) sharedX).2 := by
  obtain ⟨hsingle, -, -⟩ := name_conflict sampleServices_lawful samplePostgres_lawful oneFile_typed
    (show used oneFile aliceId none (ascii "x.txt") = true by decide +kernel) xtxt_variant_free
  obtain ⟨-, hparts, hsave⟩ := name_conflict sampleServices_lawful samplePostgres_lawful
    (show RowsTyped sharedX from ⟨oneFile_typed.1, oneFile_typed.2, oneFile_typed.3, oneFile_typed.4⟩)
    (show used sharedX aliceId none (ascii "x.txt") = true by decide +kernel) xtxt_variant_free
  refine ⟨?_, fun handle hmem => ?_⟩
  · refine (hsingle (asXtxt (ascii "x")) aliceId.text _ _ (asXtxt_valid (by decide) (by decide))
      (by decide) Prod.mk.eta.symm).mpr ?_
    exact ⟨_, List.mem_singleton_self _, rfl⟩
  · rcases List.mem_cons.mp hmem with rfl | hmem
    · refine (hparts completesX partsOfX (ascii "x") _ _ sharedX_completes rfl
        Prod.mk.eta.symm).mpr ?_
      exact ⟨_, List.mem_singleton_self _, rfl⟩
    · obtain rfl := List.mem_singleton.mp hmem
      obtain ⟨share, file, hready, hname⟩ := sharedX_saves
      exact hsave savesX share file _ _ hready rfl hname Prod.mk.eta.symm

/-- New content as `x.txt` is refused. -/
theorem y_refused : ¬ ∀ req userId r w',
    ValidUpload sampleServices samplePostgres oneFile req userId aliceId none →
    resolveFilename req = ascii "x.txt" → used oneFile aliceId none (ascii "x.txt") = true →
    (∃ n, 1 ≤ n ∧ n ≤ 9999 ∧ used oneFile aliceId none (variant (ascii "x.txt") n) = false) →
    (handleSingleUpload sampleServices req userId).run (exec sampleServices samplePostgres) oneFile =
      (r, w') → Numbered oneFile aliceId none (ascii "x.txt") r w' := by
  intro h
  have hnumbered := h (asXtxt (ascii "y")) aliceId.text _ _ (asXtxt_valid (by decide) (by decide))
    (by decide) (by decide +kernel) xtxt_variant_free Prod.mk.eta.symm
  have hrefused : accepted (uploadsAgain (ascii "y")).1 = false := by decide +kernel
  exact not_numbered hrefused hnumbered

end SolarDrive.Runs
