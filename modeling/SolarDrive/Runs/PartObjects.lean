import SolarDrive.Runs.Sizes

/-!
# The objects of parts

The parts of an upload that is not completed lie in the object store, and only
its session in Redis knows them. Uploads add objects and never take any; a
deletion and the collector take the objects that no remaining content lists, and
do not ask the sessions.
-/

namespace SolarDrive.Runs

open Lib Http Api Metadata Prog

/-! ## Calls that take no object -/

section Gentle

variable {svc : Services} {pg : Postgres} {w w' : World}

/-- The calls that collect nothing and write no session. -/
def gentle (c : Call) : Prop := keepsSessions c ∧ ∀ content, c ≠ .purgeContent content

theorem gentle_of_reads {c : Call} (hc : readOnly c = true) : gentle c := by
  refine ⟨?_, ?_⟩
  · cases c <;> trivial
  · rintro content rfl
    cases hc

theorem gentle_of_calm {c : Call} (hc : calm c) : gentle c := by
  refine ⟨?_, ?_⟩
  · cases c with
    | hset key field value => exact hc.elim
    | redisSet key value ttl => exact hc
    | _ => trivial
  · rintro content rfl
    exact hc.elim

/-- Only the collector takes objects. -/
theorem store_grows {c : Call} {r : Except Exn c.Resp} (hpg : pg.Lawful svc.json)
    (hc : ∀ content, c ≠ .purgeContent content) (hexec : exec svc pg c w = (r, w')) (x : Bytes)
    (hx : (w.store x).isSome = true) : (w'.store x).isSome = true := by
  by_cases hdata : touchesData c = false
  · rwa [(exec_data hdata hexec).1]
  cases c with
  | put data => exact (put_step hexec).2.1 x hx
  | fileInsert file =>
      rcases exec_fileInsert hpg hexec with ⟨e, -, rfl⟩ | ⟨row, contents, c, -, -, -, -, rfl⟩ <;>
        exact hx
  | insertLink file contentId =>
      rcases exec_insertLink hexec with ⟨e, -, rfl⟩ | ⟨row, -, -, rfl⟩ <;> exact hx
  | fileSoftDelete id => rcases exec_fileSoftDelete hexec with ⟨e, -, rfl⟩ | ⟨u, -, -, rfl⟩ <;> exact hx
  | purgeContent content => exact absurd rfl (hc content)
  | _ => exact absurd rfl hdata

/-- No object is gone, and no session is new. -/
structure Spared (w w' : World) : Prop where
  store : ∀ x, (w.store x).isSome = true → (w'.store x).isSome = true
  redis : ∀ id, w'.redis (cstr (sessionKey id)) = w.redis (cstr (sessionKey id)) ∨
    w'.redis (cstr (sessionKey id)) = none

theorem Spared.refl (w : World) : Spared w w := ⟨fun _ hx => hx, fun _ => Or.inl rfl⟩

theorem Spared.trans {w₀ : World} (h : Spared w₀ w) (h' : Spared w w') : Spared w₀ w' := by
  refine ⟨fun x hx => h'.store x (h.store x hx), fun id => ?_⟩
  rcases h'.redis id with heq | hnone
  · rw [heq]
    exact h.redis id
  · exact Or.inr hnone

theorem wp_gentle {α : Type} {p : App α} (hpg : pg.Lawful svc.json) (hp : p.CallsOnly gentle) :
    p.wp (ofExec (exec svc pg)) (fun _ w' => Spared w w') w := by
  refine wp_of_callsOnly (fun w' => Spared w w') ?_ hp (.refl w)
  intro w₁ c hc h₁
  refine ⟨trivial, fun r w₂ hexec => h₁.trans ⟨?_, ?_⟩⟩
  · exact store_grows hpg hc.2 hexec
  · exact sessions_kept hc.1 hexec

/-- The requests other than those that change a session and the deletion. -/
theorem gentle_handler (svc : Services) {route : RouteName} (req : HttpRequest)
    (hroute : route ≠ .uploadInit ∧ route ≠ .uploadPart ∧ route ≠ .fileDelete) :
    (handler svc route req).CallsOnly gentle := by
  have hreads : ∀ c, readOnly c = true → gentle c := fun _ hc => gentle_of_reads hc
  have hredis : ∀ hash value, gentle (.redisSet (hashKey hash) value 0) :=
    fun hash _ => ⟨hashKey_ne hash, nofun⟩
  have hinsert : ∀ file, gentle (.fileInsert file) := fun _ => ⟨trivial, nofun⟩
  have hlink : ∀ file contentId, gentle (.insertLink file contentId) :=
    fun _ _ => ⟨trivial, nofun⟩
  by_cases hcalm : route ≠ .upload ∧ route ≠ .uploadInit ∧ route ≠ .uploadPart ∧
      route ≠ .uploadComplete ∧ route ≠ .shareSave ∧ route ≠ .fileDelete
  · exact (calm_handler svc req hcalm).mono fun _ hc => gentle_of_calm hc
  cases route with
  | upload =>
      exact callsOnly_uploadRoute hreads svc (fun _ => ⟨trivial, nofun⟩) hredis req
        (fun file _ => hinsert file) fun file contentId _ => hlink file contentId
  | uploadComplete =>
      exact callsOnly_handleComplete hreads svc req hredis hinsert hlink
        (fun _ => ⟨trivial, nofun⟩) fun _ _ => ⟨trivial, nofun⟩
  | shareSave => exact callsOnly_handleShareSave hreads svc req fun file contentId _ _ => hlink file contentId
  | uploadInit => exact absurd rfl hroute.1
  | uploadPart => exact absurd rfl hroute.2.1
  | fileDelete => exact absurd rfl hroute.2.2
  | _ => exact absurd (by decide) hcalm

end Gentle

/-! ## The collector -/

section Collector

variable {svc : Services} {pg : Postgres} {w w' : World}

/-- A row that lists digests, with those it lists. -/
def ListsDigests (svc : Services) (c : ContentRow) : Prop :=
  ∃ data : List Bytes, c.chunkHashes = hashArray (data.map svc.sha256)

theorem Faithful.listsDigests {g : Record} (h : Faithful svc g w) {c : ContentRow}
    (hc : c ∈ w.contents) : ListsDigests svc c := by
  obtain ⟨data, hdata, -⟩ := h.rows c hc
  exact ⟨data, hdata⟩

/-- The collection of one row takes only objects that it lists and no other row
does, and no other row. -/
theorem purge_spares (hpg : pg.Lawful svc.json) (hlen : ∀ d, 2 ≤ (svc.digest d).length)
    {c : ContentRow} (hc : ListsDigests svc c) {r : Except Exn GcStats}
    (hexec : exec svc pg (.purgeContent (contentRecord pg c)) w = (r, w')) :
    (∀ x, (w.store x).isSome = true →
      (listsChunk c.chunkHashes x = true →
        ∃ c' ∈ w.contents, c'.id ≠ c.id ∧ listsChunk c'.chunkHashes x = true) →
      (w'.store x).isSome = true) ∧
    (∀ c' ∈ w.contents, c'.id ≠ c.id → c' ∈ w'.contents) ∧ w'.redis = w.redis ∧
      (w.fileLives c.id = true → w' = w) := by
  obtain ⟨data, hdata⟩ := hc
  have htext : (contentRecord pg c).chunkHashes = pg.jsonbOut (hashArray (data.map svc.sha256)) :=
    congrArg pg.jsonbOut hdata
  rcases exec_purge_digests hpg hlen htext hexec with rfl | ⟨id, store, hid, hdead, rfl, hstore⟩
  · exact ⟨fun x hx _ => hx, fun c' hc' _ => hc', rfl, fun _ => rfl⟩
  obtain rfl : c.id = id := Except.ok.inj ((uuidParam_text hpg c.id).symm.trans hid)
  have hstays : ∀ c' ∈ w.contents, c'.id ≠ c.id → c' ∈ (withoutContent c.id w).contents := by
    intro c' hc' hne
    exact List.mem_filter.mpr ⟨hc', by simp [hne]⟩
  refine ⟨fun x hx hspare => ?_, hstays, rfl, fun hlive => ?_⟩
  · rcases hstore x with heq | ⟨-, hunused, hmem⟩
    · show (store x).isSome = true
      rwa [heq]
    · -- the row lists the object, so another one does that stays
      have hlists : listsChunk c.chunkHashes x = true := by
        rw [hdata, listsChunk_hashArray]
        exact hmem
      obtain ⟨c', hc', hne, hlists'⟩ := hspare hlists
      have huse : chunkHashInUse (withoutContent c.id w).contents x = true :=
        List.any_eq_true.mpr ⟨c', hstays c' hc' hne, hlists'⟩
      rw [hunused] at huse
      cases huse
  · rw [hdead] at hlive
    cases hlive

/-- The object is listed by no row of the collection, or also by a row outside it. -/
def SafeFrom (rows : List ContentRow) (contents : List ContentRow) (x : Bytes) : Prop :=
  ∀ c ∈ rows, listsChunk c.chunkHashes x = true →
    ∃ c' ∈ contents, c'.id ∉ rows.map ContentRow.id ∧ listsChunk c'.chunkHashes x = true

/-- What the collection of some rows leaves. -/
structure LeftBy (rows : List ContentRow) (w₀ w : World) : Prop where
  rest : ∀ c ∈ w₀.contents, c.id ∉ rows.map ContentRow.id → c ∈ w.contents
  store : ∀ x, (w₀.store x).isSome = true → SafeFrom rows w₀.contents x →
    (w.store x).isSome = true
  redis : w.redis = w₀.redis

theorem LeftBy.refl (rows : List ContentRow) (w : World) : LeftBy rows w w :=
  ⟨fun _ hc _ => hc, fun _ hx _ => hx, rfl⟩

theorem LeftBy.purge {rows : List ContentRow} {w₀ : World} (hpg : pg.Lawful svc.json)
    (hlen : ∀ d, 2 ≤ (svc.digest d).length) (h : LeftBy rows w₀ w) {c : ContentRow}
    (hc : c ∈ rows) (hdigests : ListsDigests svc c) {r : Except Exn GcStats}
    (hexec : exec svc pg (.purgeContent (contentRecord pg c)) w = (r, w')) :
    LeftBy rows w₀ w' := by
  obtain ⟨hstore, hrest, hredis, -⟩ := purge_spares hpg hlen hdigests hexec
  have hother : ∀ c' : ContentRow, c'.id ∉ rows.map ContentRow.id → c'.id ≠ c.id := by
    intro c' hnot heq
    exact hnot (heq ▸ List.mem_map_of_mem hc)
  refine ⟨fun c' hc' hnot => hrest c' (h.rest c' hc' hnot) (hother c' hnot), ?_,
    hredis.trans h.redis⟩
  intro x hx hsafe
  refine hstore x (h.store x hx hsafe) fun hlists => ?_
  obtain ⟨c', hc', hnot, hlists'⟩ := hsafe c hc hlists
  exact ⟨c', h.rest c' hc' hnot, hother c' hnot, hlists'⟩

/-- The rows that a run of the collector takes. -/
def orphanRows (w : World) (batchLimit : Nat) : List ContentRow :=
  (w.contents.filter fun c => !w.fileLives c.id).take batchLimit

theorem leftBy_collectOrphans (hpg : pg.Lawful svc.json) (hlen : ∀ d, 2 ≤ (svc.digest d).length)
    (hdigests : ∀ c ∈ w.contents, ListsDigests svc c) (batchLimit : Nat) :
    (collectOrphans batchLimit).wp (ofExec (exec svc pg))
      (fun _ w' => LeftBy (orphanRows w batchLimit) w w') w := by
  have hall : ∀ records : List ContentRecord,
      (∀ record ∈ records, ∃ c ∈ orphanRows w batchLimit, record = contentRecord pg c) →
      (purgeAll records).CallsOnly fun call =>
        ∃ c ∈ orphanRows w batchLimit, call = .purgeContent (contentRecord pg c) := by
    intro records hrecords
    induction records with
    | nil => exact callsOnly_pure _
    | cons record records ih =>
        obtain ⟨c, hc, rfl⟩ := hrecords record List.mem_cons_self
        refine callsOnly_bind (callsOnly_request ⟨c, hc, rfl⟩) fun _ => ?_
        exact callsOnly_bind (ih fun r hr => hrecords r (List.mem_cons_of_mem _ hr)) fun _ =>
          callsOnly_pure _
  have hmem : ∀ c ∈ orphanRows w batchLimit, c ∈ w.contents :=
    fun c hc => List.mem_of_mem_filter (List.mem_of_mem_take hc)
  refine wp_request_bind trivial (fun orphans w₁ hexec => ?_) fun e w₁ hexec => ?_
  all_goals
    obtain ⟨hr, rfl⟩ := Prod.mk.inj
      (show exec svc pg (.listOrphans batchLimit) w = (_, w₁) from hexec)
  swap
  · exact .refl _ w
  refine wp_of_callsOnly (fun w' => LeftBy (orphanRows w batchLimit) w w') ?_ (hall orphans ?_)
    (.refl _ w)
  · rintro w₁ _ ⟨c, hc, rfl⟩ h₁
    exact ⟨trivial, fun r w₂ hexec => h₁.purge hpg hlen hc (hdigests c (hmem c hc)) hexec⟩
  · intro record hrecord
    rw [← Except.ok.inj hr] at hrecord
    obtain ⟨c, hc, rfl⟩ := List.mem_map.mp hrecord
    exact ⟨c, hc, rfl⟩

/-! ## Deletions -/

/-- The rows that a deletion takes: the content of the user's file, unless
another live file has it. -/
def deletedRows (pg : Postgres) (w : World) (req : HttpRequest) : List ContentRow :=
  w.contents.filter fun c => w.files.any fun f =>
    f.live && decide (f.contentId = c.id) &&
      decide ((pg.uuidParam (req.getPathParam (ascii "id"))).toOption = some f.id) &&
      decide ((pg.uuidParam req.authUserId).toOption = some f.ownerId) &&
      !w.files.any fun f' => f'.live && decide (f'.contentId = c.id) && decide (f'.id ≠ f.id)

/-- The file `id` has been marked as deleted, and its shares revoked. -/
structure Marked (id : Uuid) (w w' : World) : Prop where
  contents : w'.contents = w.contents
  store : w'.store = w.store
  redis : w'.redis = w.redis
  files : ∀ f ∈ w.files, f.id ≠ id → f ∈ w'.files

theorem leftBy_tryCollectContent (hpg : pg.Lawful svc.json) (hlen : ∀ d, 2 ≤ (svc.digest d).length)
    {w₀ : World} (hdigests : ∀ c ∈ w₀.contents, ListsDigests svc c) {req : HttpRequest}
    {f : FileRow} (hf : f ∈ w₀.files) (hlive : f.live = true)
    (hid : pg.uuidParam (req.getPathParam (ascii "id")) = .ok f.id)
    (howner : pg.uuidParam req.authUserId = .ok f.ownerId) (hmarked : Marked f.id w₀ w) :
    (tryCollectContent f.contentId.text).wp (ofExec (exec svc pg))
      (fun _ w' => LeftBy (deletedRows pg w₀ req) w₀ w') w := by
  have hleft : LeftBy (deletedRows pg w₀ req) w₀ w :=
    ⟨fun c hc _ => hmarked.contents ▸ hc, fun x hx _ => by rwa [hmarked.store], hmarked.redis⟩
  unfold tryCollectContent
  split
  · exact hleft
  refine wp_request_bind trivial (fun content w₁ hexec => ?_) fun e w₁ hexec => ?_
  all_goals
    obtain ⟨hr, rfl⟩ := Prod.mk.inj
      (show exec svc pg (.contentFindById f.contentId.text) w = (_, w₁) from hexec)
  swap
  · exact hleft
  cases content with
  | none => exact hleft
  | some record =>
  have hquery : contentFindById pg w f.contentId.text = .ok (some record) := hr
  obtain ⟨c, hc, rfl, hcid⟩ := contentFindById_ok hquery
  have hcontent : f.contentId = c.id :=
    Except.ok.inj ((uuidParam_text hpg f.contentId).symm.trans hcid)
  rw [hmarked.contents] at hc
  refine wp_request.mpr ⟨trivial, fun r w₂ hpurge => ?_⟩
  by_cases hlives : w.fileLives c.id = true
  · obtain ⟨-, -, -, hsame⟩ := purge_spares hpg hlen (hdigests c hc) hpurge
    rw [hsame hlives]
    exact hleft
  · refine hleft.purge hpg hlen ?_ (hdigests c hc) hpurge
    refine List.mem_filter.mpr ⟨hc, List.any_eq_true.mpr ⟨f, hf, ?_⟩⟩
    have hother : (w₀.files.any fun f' => f'.live && decide (f'.contentId = c.id) &&
        decide (f'.id ≠ f.id)) = false := by
      rw [List.any_eq_false]
      intro f' hf' hprops
      simp only [Bool.and_eq_true, decide_eq_true_eq] at hprops
      obtain ⟨⟨hlive', hcontent'⟩, hne⟩ := hprops
      exact hlives (List.any_eq_true.mpr ⟨f', hmarked.files f' hf' hne, by simp [hcontent', hlive']⟩)
    rw [hother, hid, howner, hlive, hcontent]
    simp [Except.toOption]

theorem leftBy_handleFileDelete (hpg : pg.Lawful svc.json) (hlen : ∀ d, 2 ≤ (svc.digest d).length)
    (hdigests : ∀ c ∈ w.contents, ListsDigests svc c) (req : HttpRequest) :
    (handleFileDelete svc req).wp (ofExec (exec svc pg))
      (fun _ w' => LeftBy (deletedRows pg w req) w w') w := by
  have hkept : ∀ {w₁ : World}, w₁.contents = w.contents → w₁.store = w.store →
      w₁.redis = w.redis → LeftBy (deletedRows pg w req) w w₁ := by
    intro w₁ hcontents hstore hredis
    exact ⟨fun c hc _ => hcontents ▸ hc, fun x hx _ => by rwa [hstore], hredis⟩
  have hreads : ∀ {w₁ : World} {p : App HttpResponse}, Reads p →
      LeftBy (deletedRows pg w req) w w₁ → p.wp (ofExec (exec svc pg))
        (fun _ w' => LeftBy (deletedRows pg w req) w w') w₁ := by
    intro w₁ p hp h₁
    refine wp_mono (finds_reads hp) ?_
    rintro r _ ⟨⟨draws, rfl⟩, -⟩
    exact ⟨h₁.rest, h₁.store, h₁.redis⟩
  refine wp_catch (M := fun _ w' => LeftBy (deletedRows pg w req) w w') ?_ (fun _ _ h' => h')
    fun e w' h' => hreads (reads_catchStd svc _ e) h'
  split
  swap
  · exact hreads (reads_setError svc _ _) (.refl _ w)
  dsimp only
  split
  · exact hreads (reads_setError svc _ _) (.refl _ w)
  refine wp_finds_bind (finds_requireOwnedFile _ _) (fun owned draws howned => ?_)
    fun e draws => hkept rfl rfl rfl
  cases owned with
  | error resp => exact hkept rfl rfl rfl
  | ok record =>
  obtain ⟨f, hf, hlive, hid, howner, hrec⟩ := howned record rfl
  obtain ⟨c, hc, rfl⟩ := Option.map_eq_some_iff.mp hrec
  refine wp_request_bind trivial (fun _ w₁ hdelete => ?_) fun e w₁ hdelete => ?_
  all_goals rcases exec_fileSoftDelete hdelete with ⟨e, he, rfl⟩ | ⟨u, hu, he, rfl⟩
  · cases he
  swap
  · exact hkept rfl rfl rfl
  swap
  · cases he
  obtain rfl : f.id = u := Except.ok.inj (hid.symm.trans hu)
  -- up to the collector only the row of the file and its shares have changed
  have hmarked : ∀ {w₂ : World}, w₂.contents = w.contents → w₂.store = w.store →
      w₂.redis = w.redis → w₂.files = (w.files.map fun x =>
        if x.id = f.id then { x with deletedAt := some w.sqlNow } else x) →
      Marked f.id w w₂ := by
    intro w₂ hcontents hstore hredis hfiles
    refine ⟨hcontents, hstore, hredis, fun x hx hne => ?_⟩
    rw [hfiles]
    exact List.mem_map.mpr ⟨x, hx, if_neg hne⟩
  refine wp_request_bind trivial (fun _ w₂ hrevoke => ?_) fun e w₂ hrevoke => ?_
  all_goals rcases exec_revokeByFileId hrevoke with ⟨e, he, -, rfl⟩ | ⟨v, -, he, rfl⟩
  · cases he
  swap
  · exact hkept rfl rfl rfl
  swap
  · cases he
  refine wp_seq (leftBy_tryCollectContent hpg hlen hdigests hf hlive hid howner
    (hmarked rfl rfl rfl rfl)) ?_ fun _ _ h₃ => h₃
  exact fun _ _ h₃ => h₃

end Collector

/-! ## Histories -/

section Parts

variable {svc : Services} {pg : Postgres}

/-- The rows of which an action takes what no other row lists. -/
def takenRows (pg : Postgres) (w : World) : Action → List ContentRow
  | .collect batchLimit => orphanRows w batchLimit
  | .request .fileDelete req => deletedRows pg w req
  | _ => []

/-- The parts that sessions have are in the store. -/
def PartsThere (svc : Services) (s : World × Record) : Prop :=
  ∀ id, (s.1.redis (cstr (sessionKey id))).isSome = true →
    ∀ body, some body ∈ s.2.parts (cstr (sessionKey id)) →
      (s.1.store (svc.sha256 body)).isSome = true

/-- A part of a session is in no row that the action takes, or also in one that
it leaves. -/
def SparesParts (svc : Services) (pg : Postgres) (s : World × Record) (a : Action) : Prop :=
  ∀ id, (s.1.redis (cstr (sessionKey id))).isSome = true →
    ∀ body, some body ∈ s.2.parts (cstr (sessionKey id)) →
      SafeFrom (takenRows pg s.1 a) s.1.contents (svc.sha256 body)

theorem parts_addFile (g : Record) (w w' : World) (bytes : Option Bytes) :
    (g.addFile w w' bytes).parts = g.parts := by
  unfold Record.addFile
  split <;> rfl

variable {g : Record} {w w' : World}

theorem PartsThere.spared (h : PartsThere svc (w, g)) {g' : Record} (hparts : g'.parts = g.parts)
    (hspared : Spared w w') : PartsThere svc (w', g') := by
  intro id hid body hbody
  have hbody' : some body ∈ g.parts (cstr (sessionKey id)) := hparts ▸ hbody
  rcases hspared.redis id with heq | hnone
  · exact hspared.store _ (h id (heq ▸ hid) body hbody')
  · rw [show w'.redis (cstr (sessionKey id)) = none from hnone] at hid
    cases hid

theorem PartsThere.left (h : PartsThere svc (w, g)) {rows : List ContentRow}
    (hsafe : ∀ id, (w.redis (cstr (sessionKey id))).isSome = true →
      ∀ body, some body ∈ g.parts (cstr (sessionKey id)) →
        SafeFrom rows w.contents (svc.sha256 body))
    (hleft : LeftBy rows w w') : PartsThere svc (w', g) := by
  intro id hid body hbody
  have hid' : (w.redis (cstr (sessionKey id))).isSome = true := hleft.redis ▸ hid
  exact hleft.store _ (h id hid' body hbody) (hsafe id hid' body hbody)

/-- A session is changed, or the request is refused. -/
theorem PartsThere.answered (h : PartsThere svc (w, g)) {key : Bytes} {parts : List (Option Bytes)}
    {r : Except Exn HttpResponse} (hans : Answers svc g key parts w r w') :
    PartsThere svc (w', if accepted r then g.setParts key parts else g) := by
  have hstays : ∀ x, (w.store x).isSome = true → (w'.store x).isSome = true := by
    intro x hx
    obtain ⟨d, hd⟩ := Option.isSome_iff_exists.mp hx
    rw [hans.grown.store x d hd]
    rfl
  by_cases hok : accepted r = true
  · rw [if_pos hok]
    intro id hid body hbody
    by_cases hkey : cstr (sessionKey id) = key
    · have hparts : some body ∈ parts := by
        have hbody' : some body ∈ Function.update g.parts key parts (cstr (sessionKey id)) := hbody
        rwa [hkey, Function.update_self] at hbody'
      rcases (hans.accepted hok).2 body hparts with ⟨hold, hopen⟩ | hthere
      · exact hstays _ (h id (hkey ▸ hopen) body (hkey ▸ hold))
      · exact hthere
    · have hbody' : some body ∈ g.parts (cstr (sessionKey id)) := by
        have hupdate : some body ∈ Function.update g.parts key parts (cstr (sessionKey id)) := hbody
        rwa [Function.update_of_ne hkey] at hupdate
      have hid' : (w.redis (cstr (sessionKey id))).isSome = true :=
        hans.grown.redis _ hkey ▸ hid
      exact hstays _ (h id hid' body hbody')
  · rw [if_neg hok]
    have hredis := (hans.refused (Bool.eq_false_iff.mpr hok)).2
    exact fun id hid body hbody => hstays _ (h id (hredis ▸ hid) body hbody)

/-- One action. -/
theorem PartsThere.recorded (hjson : svc.json.Lawful) (hpg : pg.Lawful svc.json)
    (hlen : ∀ d, 2 ≤ (svc.digest d).length) (hf : Faithful svc g w) (h : PartsThere svc (w, g))
    {a : Action} (hspare : SparesParts svc pg (w, g) a) :
    PartsThere svc (Runs.recorded svc pg (w, g) a) := by
  have hdigests : ∀ c ∈ w.contents, ListsDigests svc c := fun c hc => hf.listsDigests hc
  cases a with
  | tick time => exact h
  | expire key =>
      refine h.spared rfl ⟨fun _ hx => hx, fun id => ?_⟩
      have hexec : exec svc pg (.redisDel key) w = (.ok true, redisDel key w) := rfl
      exact sessions_kept (c := .redisDel key) trivial hexec id
  | collect batchLimit =>
      exact h.left hspare (run_of_wp (leftBy_collectOrphans hpg hlen hdigests batchLimit))
  | request route req =>
      by_cases hroute : route ≠ .uploadInit ∧ route ≠ .uploadPart ∧ route ≠ .fileDelete
      · refine h.spared ?_ (run_of_wp (wp_gentle hpg (gentle_handler svc req hroute)))
        cases route with
        | upload => exact parts_addFile g _ _ _
        | uploadComplete => exact parts_addFile g _ _ _
        | shareSave => exact parts_addFile g _ _ _
        | uploadInit => exact absurd rfl hroute.1
        | uploadPart => exact absurd rfl hroute.2.1
        | _ => rfl
      · cases route with
        | uploadInit =>
            exact h.answered (run_of_wp (show (handleInit svc req).wp (ofExec (exec svc pg)) _ w from
              answers_handleInit hjson req hf))
        | uploadPart => exact h.answered (run_of_wp (answers_handleUploadPart hjson hpg hlen req hf))
        | fileDelete =>
            exact h.left hspare (run_of_wp (leftBy_handleFileDelete hpg hlen hdigests req))
        | _ => exact absurd (by decide) hroute

/-- A part that the session marks has a body, and its digest is the part's hash. -/
theorem LoadedParts.stored {id : Bytes} {parts : List (Option Bytes)} {session : MultipartSession}
    (h : LoadedParts svc w id parts session)
    (hthere : ∀ body, some body ∈ parts → (w.store (svc.sha256 body)).isSome = true) (i : Nat)
    (hi : session.uploaded.getD i false = true) :
    (w.store (session.partHashes.getD i [])).isSome = true := by
  rw [h.flags, List.getD_eq_getElem?_getD, List.getElem?_map] at hi
  cases hpart : parts[i]? with
  | none =>
      rw [hpart] at hi
      cases hi
  | some part =>
      cases part with
      | none =>
          rw [hpart] at hi
          cases hi
      | some body =>
          rw [h.hashes, List.getD_eq_getElem?_getD, List.getElem?_map, hpart]
          exact hthere body (List.mem_of_getElem? hpart)

/-- **While no action takes a row that alone lists a part of an open session,
every part that a session marks as uploaded is in the store, and a session with
all its parts can be read back.** -/
theorem parts_of_history (hjson : svc.json.Lawful) (hpg : pg.Lawful svc.json)
    (hlen : ∀ d, 2 ≤ (svc.digest d).length) (hinj : Function.Injective svc.sha256) {w₀ : World}
    (h₀ : Initial w₀) {actions : List Action}
    (hspare : Throughout svc pg (SparesParts svc pg) (w₀, {}) actions) {id : Bytes}
    {session : MultipartSession}
    (hload : ((loadFromRedis svc id).run (exec svc pg) (history svc pg w₀ actions).1).1 =
      .ok session) (hid : session.uploadId ≠ []) :
    (∀ i, session.uploaded.getD i false = true →
      ((history svc pg w₀ actions).1.store (session.partHashes.getD i [])).isSome = true) ∧
    (firstMissing session = none → ∃ content,
      ((getChunked session.partHashes).run (exec svc pg) (history svc pg w₀ actions).1).1 =
        .ok content) := by
  let Inv : World × Record → Prop := fun s => Faithful svc s.2 s.1 ∧ PartsThere svc s
  have hstart : Inv (w₀, {}) := by
    refine ⟨h₀.faithful {}, fun key hkey => ?_⟩
    rw [show w₀.redis (cstr (sessionKey key)) = none from h₀.redis _] at hkey
    cases hkey
  have hstep : ∀ s a, Inv s → SparesParts svc pg s a → Inv (Runs.recorded svc pg s a) :=
    fun s a h hs => ⟨(h.1.recorded hjson hpg hlen hinj a).faithful,
      h.2.recorded hjson hpg hlen h.1 hs⟩
  obtain ⟨hf, hparts⟩ := throughout_invariant hstep hstart hspare
  have hfinds : Finds svc pg (loadFromRedis svc id) (history svc pg w₀ actions).1 _ :=
    finds_loadFromRedis hjson hf id
  obtain ⟨-, hfound⟩ := run_of_wp hfinds
  obtain ⟨-, hholds, hloaded⟩ := (hfound session hload).resolve_left hid
  have hthere := hparts id (redis_of_hget hholds.chunkCount)
  refine ⟨fun i hi => hloaded.stored hthere i hi, fun hnone => ?_⟩
  obtain ⟨bodies, hbodies⟩ := hloaded.complete hnone
  rw [hloaded.hashes, hbodies, map_partHash_some]
  have hstore : ∀ d ∈ bodies,
      (history svc pg w₀ actions).1.store (svc.sha256 d) = some d := by
    intro d hd
    obtain ⟨d', hd'⟩ := Option.isSome_iff_exists.mp
      (hthere d (hbodies ▸ List.mem_map_of_mem hd))
    rw [hinj (hf.objects _ _ hd')]
    rwa [hinj (hf.objects _ _ hd')] at hd'
  exact ⟨_, (run_of_wp (wp_getChunked hlen bodies hstore)).1⟩

/-- Alice has a file `x`, and more happens; Bob starts an upload and brings `x` as
its part; Alice deletes her file. -/
def deleteBesideUpload (more : List Action) : List Action :=
  uploadBy aliceId "a.txt" (ascii "x") :: more ++
    [initBy bobId (ascii "\x7b\"file_name\":\"b.txt\",\"total_size\":1\x7d"),
      partBy bobId "0-1-2-3" 0 (ascii "x"), deleteBy aliceId (twoUsers.uuids 1)]

/-- The session loaded after some actions, when it has its first part. -/
def loadedAfter (actions : List Action) (p : MultipartSession → Bool) : Bool :=
  match ((loadFromRedis sampleServices (ascii "0-1-2-3")).run (exec sampleServices samplePostgres)
    (history sampleServices samplePostgres twoUsers actions).1).1 with
  | .ok session => decide (session.uploadId ≠ []) && session.uploaded.getD 0 false && p session
  | .error _ => false

theorem loadedAfter_sound {actions : List Action} {p : MultipartSession → Bool}
    (h : loadedAfter actions p = true) : ∃ session,
      ((loadFromRedis sampleServices (ascii "0-1-2-3")).run (exec sampleServices samplePostgres)
        (history sampleServices samplePostgres twoUsers actions).1).1 = .ok session ∧
      session.uploadId ≠ [] ∧ session.uploaded.getD 0 false = true ∧ p session = true := by
  unfold loadedAfter at h
  split at h
  · rename_i session hload
    simp only [Bool.and_eq_true, decide_eq_true_eq] at h
    exact ⟨session, hload, h.1.1, h.1.2, h.2⟩
  · cases h

/-- The row lists this object and no other. -/
def listsOnly (h : Bytes) (c : ContentRow) : Bool :=
  match c.chunkHashes with
  | .arr [.str s] => s == h
  | _ => false

/-- The rows taken list one object, which a row that stays also lists. -/
theorem sparesParts_of_one {s : World × Record} {a : Action} (h : Bytes)
    (hrows : (takenRows pg s.1 a).all (listsOnly h) = true)
    (hother : (s.1.contents.any fun c => listsChunk c.chunkHashes h &&
      !((takenRows pg s.1 a).map ContentRow.id).contains c.id) = true) :
    SparesParts svc pg s a := by
  intro id _ body _ c hc hlists
  have honly := List.all_eq_true.mp hrows c hc
  unfold listsOnly at honly
  split at honly
  · rename_i t hchunks
    obtain rfl : t = h := beq_iff_eq.mp honly
    obtain rfl : t = svc.sha256 body := by simpa [hchunks, listsChunk] using hlists
    obtain ⟨c', hc', hprops⟩ := List.any_eq_true.mp hother
    rw [Bool.and_eq_true, Bool.not_eq_true', List.contains_eq_mem, decide_eq_false_iff_not] at hprops
    exact ⟨c', hc', hprops.2, hprops.1⟩
  · cases honly

/-- With a file `xy` of his own Bob's part stays. -/
theorem part_kept_by_own_file : ∃ session : MultipartSession,
    session.uploaded.getD 0 false = true ∧
      ((history sampleServices samplePostgres twoUsers
        (deleteBesideUpload [uploadBy bobId "c.txt" (ascii "xy")])).1.store
          (session.partHashes.getD 0 [])).isSome = true := by
  have hspare : Throughout sampleServices samplePostgres (SparesParts sampleServices samplePostgres)
      (twoUsers, {}) (deleteBesideUpload [uploadBy bobId "c.txt" (ascii "xy")]) := by
    have hnone : ∀ {s : World × Record} {a : Action}, takenRows samplePostgres s.1 a = [] →
        SparesParts sampleServices samplePostgres s a := by
      intro s a hrows key _ body _ c hc
      rw [hrows] at hc
      cases hc
    refine ⟨hnone rfl, hnone rfl, hnone rfl, hnone rfl, ?_, trivial⟩
    exact sparesParts_of_one (sampleServices.sha256 (ascii "x")) (by decide +kernel)
      (by decide +kernel)
  have hload : loadedAfter (deleteBesideUpload [uploadBy bobId "c.txt" (ascii "xy")])
      (fun _ => true) = true := by decide +kernel
  obtain ⟨session, hrun, hid, hpart, -⟩ := loadedAfter_sound hload
  exact ⟨session, hpart, (parts_of_history sampleServices_lawful samplePostgres_lawful
    sampleServices_digest_length sampleServices_sha256_injective twoUsers_initial hspare hrun
    hid).1 0 hpart⟩

/-- Without it the part is gone, and the session that has all its parts cannot be
read back. -/
theorem part_lost_by_delete : ∃ session e,
    ((loadFromRedis sampleServices (ascii "0-1-2-3")).run (exec sampleServices samplePostgres)
      (history sampleServices samplePostgres twoUsers (deleteBesideUpload [])).1).1 = .ok session ∧
    session.uploadId ≠ [] ∧ session.uploaded.getD 0 false = true ∧
    (history sampleServices samplePostgres twoUsers (deleteBesideUpload [])).1.store
      (session.partHashes.getD 0 []) = none ∧
    firstMissing session = none ∧
    ((getChunked session.partHashes).run (exec sampleServices samplePostgres)
      (history sampleServices samplePostgres twoUsers (deleteBesideUpload [])).1).1 = .error e ∧
    e.what = ascii "object not found: " ++ session.partHashes.getD 0 [] := by
  have hload : loadedAfter (deleteBesideUpload []) (fun session =>
      ((history sampleServices samplePostgres twoUsers (deleteBesideUpload [])).1.store
        (session.partHashes.getD 0 [])).isNone && (firstMissing session).isNone &&
      match ((getChunked session.partHashes).run (exec sampleServices samplePostgres)
        (history sampleServices samplePostgres twoUsers (deleteBesideUpload [])).1).1 with
      | .ok _ => false
      | .error e => e.what == ascii "object not found: " ++ session.partHashes.getD 0 []) = true := by
    decide +kernel
  obtain ⟨session, hrun, hid, hpart, hlost⟩ := loadedAfter_sound hload
  rw [Bool.and_eq_true, Bool.and_eq_true] at hlost
  obtain ⟨⟨hstore, hmissing⟩, hread⟩ := hlost
  split at hread
  · cases hread
  · rename_i e herr
    exact ⟨session, e, hrun, hid, hpart, Option.isNone_iff_eq_none.mp hstore,
      Option.isNone_iff_eq_none.mp hmissing, herr, beq_iff_eq.mp hread⟩

end Parts

end SolarDrive.Runs
