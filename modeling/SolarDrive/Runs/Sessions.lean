import SolarDrive.Runs.Record

/-!
# Upload sessions against the record

The session that a request loads has the parts of the record; a part, a start
and a completion change both alike, when they are answered with 200.
-/

namespace SolarDrive.Runs

open Lib Http Api Metadata Prog

/-! ## Loading and writing a session -/

section Session

variable {svc : Services} {pg : Postgres} {g : Record} {w w' : World}

variable (hjson : svc.json.Lawful) (hpg : pg.Lawful svc.json)
  (hlen : ∀ d, 2 ≤ (svc.digest d).length) (hinj : Function.Injective svc.sha256)

include hjson in
/-- An array field is read as it was written. -/
theorem finds_arrayField {α : Type} {enc : List α → Json} {elem : Json → Except Bytes α}
    (hflat : ∀ xs, (enc xs).isFlat = true) (helem : ∀ xs, (enc xs).getArray elem = .ok xs)
    {key : Bytes} {field : String} {xs : List α} {t : Bytes} (hdump : svc.json.dump (enc xs) = .ok t)
    (ht : hget w key (ascii field) = some t) :
    Finds svc pg (arrayField key field elem) w fun ys => ys = xs := by
  refine finds_bind (finds_ask rfl) fun text draws htext => ?_
  obtain rfl : some t = text := Except.ok.inj ((congrArg Except.ok ht).symm.trans htext)
  have hne := hjson.dump_ne_nil (hflat xs) hdump
  have hparse := (hjson.parse_dump (hflat xs) hdump).2
  dsimp only
  rw [if_neg hne]
  refine finds_bind (finds_jsonParse t) fun j draws hj => ?_
  obtain rfl : enc xs = j := Except.ok.inj (hparse.symm.trans hj)
  rw [helem xs]
  exact finds_pure rfl

/-- A numeric field that is there is what its text is read as. -/
theorem finds_numberField {key : Bytes} {field : String} {read : Bytes → Except StoError Int}
    {name : String} {default : Int} {t : Bytes} (ht : hget w key (ascii field) = some t) :
    Finds svc pg (numberField key field read name default) w fun m => read t = .ok m := by
  refine finds_bind (finds_ask rfl) fun text draws htext => ?_
  obtain rfl : some t = text := Except.ok.inj ((congrArg Except.ok ht).symm.trans htext)
  dsimp only
  cases hm : read t with
  | error e => exact finds_raise _
  | ok m => exact finds_pure rfl

/-- A session that was loaded, against the record. -/
structure LoadedParts (svc : Services) (w : World) (id : Bytes) (parts : List (Option Bytes))
    (session : MultipartSession) : Prop where
  sessionId : session.uploadId = id
  chunkCount : session.chunkCount = parts.length
  hashes : session.partHashes = parts.map (partHash svc)
  flags : session.uploaded = parts.map Option.isSome
  totalSize : ∃ n : Nat, session.totalSize = n ∧ svc.oversized n = false ∧
    hget w (sessionKey id) (ascii "total_size") = some (decimal n)
  chunkSize : session.chunkSize < 2 ^ 63

theorem stoSigned_decimal {bits n : Nat} {m : Int} (h : stoSigned bits (decimal n) = .ok m) :
    m = n := by
  simp only [stoSigned, strto_decimal, Bool.false_eq_true, if_false] at h
  split at h
  · cases h
  · exact (Except.ok.inj h).symm

/-- A field that is there makes the key a session. -/
theorem redis_of_hget {key field : Bytes} {t : Bytes} (h : hget w key field = some t) :
    (w.redis (cstr key)).isSome = true := by
  rw [hget] at h
  split at h
  · rename_i hval
    rw [hval]
    rfl
  · cases h

include hjson in
theorem finds_loadFromRedis (h : Faithful svc g w) (id : Bytes) :
    Finds svc pg (loadFromRedis svc id) w fun session => session.uploadId = [] ∨
      svc.hasRedis = true ∧ SessionHolds svc w id (g.parts (cstr (sessionKey id))) ∧
        LoadedParts svc w id (g.parts (cstr (sessionKey id))) session := by
  unfold loadFromRedis
  split
  swap
  · exact finds_pure (Or.inl rfl)
  rename_i hredis
  refine finds_bind (finds_ask rfl) fun fileName draws hname => ?_
  cases fileName with
  | none => exact finds_pure (Or.inl rfl)
  | some name =>
  have hname' : hget w (sessionKey id) (ascii "file_name") = some name := Except.ok.inj hname
  have hholds := (h.sessions id (redis_of_hget hname')).2
  obtain ⟨hsmall, hcount, ⟨t, ht, htext⟩, ⟨t', ht', htext'⟩, ⟨total, hfits, htotal⟩,
    chunkText, hchunk⟩ := hholds
  refine finds_bind (finds_reads (reads_ask rfl)) fun mime draws _ => ?_
  refine finds_bind (finds_reads (reads_ask rfl)) fun user draws _ => ?_
  refine finds_bind (finds_reads (reads_ask rfl)) fun folder draws _ => ?_
  refine finds_bind (finds_numberField htotal) fun n draws hn => ?_
  refine finds_bind (finds_numberField hchunk) fun chunkSize draws hsize => ?_
  refine finds_bind (finds_numberField hcount) fun count draws hn' => ?_
  refine finds_bind (finds_arrayField hjson isFlat_hashArray getArray_hashArray ht htext) ?_
  rintro _ draws rfl
  refine finds_bind (finds_arrayField hjson isFlat_flagArray getArray_flagArray ht' htext') ?_
  rintro _ draws rfl
  exact finds_pure (Or.inr ⟨hredis, (h.sessions id (redis_of_hget hname')).2, rfl,
    stoSigned_decimal hn', rfl, rfl, ⟨total, stoSigned_decimal hn, hfits, htotal⟩,
    (stoSigned_lt hsize).2⟩)

include hjson in
theorem finds_loadSession (h : Faithful svc g w) (req : HttpRequest) (id : Bytes) :
    Finds svc pg (requireSession svc req id) w fun found => match found with
      | .ok session => svc.hasRedis = true ∧
          SessionHolds svc w id (g.parts (cstr (sessionKey id))) ∧
          LoadedParts svc w id (g.parts (cstr (sessionKey id))) session
      | .error resp => resp.statusCode ≠ 200 := by
  have hrefused : ∀ (code : Int) (msg : Bytes) (draws : Nat → Nat), code ≠ 200 →
      Finds svc pg (do
        let resp ← svc.setError code msg
        return .error resp : App (Answered MultipartSession)) { w with draws } fun found =>
          match found with
          | .ok session => svc.hasRedis = true ∧
              SessionHolds svc w id (g.parts (cstr (sessionKey id))) ∧
              LoadedParts svc w id (g.parts (cstr (sessionKey id))) session
          | .error resp => resp.statusCode ≠ 200 := by
    intro code msg draws hcode
    have herr : Finds svc pg (svc.setError code msg) { w with draws } fun resp =>
        resp.statusCode ≠ 200 := by
      refine wp_setError svc code msg (fun resp hresp => ⟨⟨draws, rfl⟩, ?_⟩)
        fun e => ⟨⟨draws, rfl⟩, nofun⟩
      rintro _ ⟨⟩
      rw [hresp]
      exact hcode
    exact finds_bind herr fun resp _ hresp => finds_pure hresp
  refine finds_bind (finds_loadFromRedis hjson h id) fun session draws hsession => ?_
  split
  · exact hrefused _ _ draws (by decide)
  · rename_i hid
    split
    · exact hrefused _ _ draws (by decide)
    · exact finds_pure (hsession.resolve_left hid)

/-- A session has been written with these parts. -/
theorem Faithful.writeSession (h : Faithful svc g w) {id : Bytes} {fields : List (Bytes × Bytes)}
    {parts : List (Option Bytes)} (hredis : svc.hasRedis = true)
    (hre : Rehashed (sessionKey id) fields w w') (hholds : SessionHolds svc w' id parts) :
    Faithful svc (g.setParts (cstr (sessionKey id)) parts) w' := by
  have hstore : w'.store = w.store := by rw [hre.world]
  have hcontents : w'.contents = w.contents := by rw [hre.world]
  have hfiles : w'.files = w.files := by rw [hre.world]
  refine ⟨by rw [hstore]; exact h.objects, by rw [hcontents]; exact h.contentIds, ?_, ?_, ?_, ?_⟩
  · intro c hc
    rw [hcontents] at hc
    obtain ⟨data, hchunks, hhash, hthere⟩ := h.rows c hc
    exact ⟨data, hchunks, hhash, by rwa [hstore]⟩
  · intro f hf hlive
    rw [World.findContent, hcontents]
    exact h.files f (hfiles ▸ hf) hlive
  · intro id' v hv
    by_cases hkey : cstr (sessionKey id') = cstr (sessionKey id)
    · rw [hkey] at hv
      exact hre.hashKey v hv
    · rw [hre.others _ hkey] at hv
      exact h.sessionKeys id' v hv
  · intro id' hid'
    refine ⟨hredis, ?_⟩
    by_cases hkey : cstr (sessionKey id') = cstr (sessionKey id)
    · rw [hkey]
      show SessionHolds svc w' id' (Function.update g.parts _ parts _)
      rw [Function.update_self]
      exact hholds.congr (by rw [hkey])
    · rw [hre.others _ hkey] at hid'
      show SessionHolds svc w' id' (Function.update g.parts _ parts _)
      rw [Function.update_of_ne hkey]
      exact (h.sessions id' hid').2.congr (hre.others _ hkey)

include hjson in
/-- The fields written hold the parts of the session. -/
theorem sessionHolds_of_written {session : MultipartSession} {parts : List (Option Bytes)}
    {t t' : Bytes} (ht : svc.json.dump (hashArray session.partHashes) = .ok t)
    (ht' : svc.json.dump (flagArray session.uploaded) = .ok t')
    (hre : Rehashed (sessionKey session.uploadId) (sessionFields session t t') w w')
    (hsmall : parts.length < 2 ^ 31) (hcount : session.chunkCount = parts.length)
    (hhashes : session.partHashes = parts.map (partHash svc))
    (hflags : session.uploaded = parts.map Option.isSome)
    (htotal : ∃ n : Nat, session.totalSize = n ∧ svc.oversized n = false) :
    SessionHolds svc w' session.uploadId parts := by
  obtain ⟨n, hn, hfits⟩ := htotal
  have hnul := (hjson.parse_dump (isFlat_hashArray _) ht).1
  have hnul' := (hjson.parse_dump (isFlat_flagArray _) ht').1
  have hdecimal : ∀ k : Nat, cstr (decimal k) = decimal k :=
    fun k => cstr_of_not_mem (nul_not_mem_decimal k)
  refine ⟨hsmall, ?_, ⟨t, ?_, ?_⟩, ⟨t', ?_, ?_⟩, ⟨n, hfits, ?_⟩, _,
    hre.written (ascii "chunk_size", decimalInt session.chunkSize) (by simp [sessionFields])⟩
  · have hw := hre.written (ascii "chunk_count", decimalInt session.chunkCount)
      (by simp [sessionFields])
    rw [hcount] at hw
    exact hw.trans (congrArg some (hdecimal _))
  · rw [HashText, ← hhashes]
    exact ht
  · have hw := hre.written (ascii "part_hashes", t) (by simp [sessionFields])
    exact hw.trans (congrArg some (cstr_of_not_mem hnul))
  · rw [FlagText, ← hflags]
    exact ht'
  · have hw := hre.written (ascii "uploaded", t') (by simp [sessionFields])
    exact hw.trans (congrArg some (cstr_of_not_mem hnul'))
  · have hw := hre.written (ascii "total_size", decimalInt session.totalSize)
      (by simp [sessionFields])
    rw [hn] at hw
    exact hw.trans (congrArg some (hdecimal _))

/-! ## Answers -/

/-- A refusal changes nothing and is no 200. -/
theorem wp_refusal {code : Int} (hcode : code ≠ 200) (msg : Bytes) :
    (svc.setError code msg).wp (ofExec (exec svc pg)) (fun r w' => w' = w ∧ accepted r = false) w := by
  refine wp_setError svc code msg (fun resp hresp => ⟨rfl, ?_⟩) fun e => ⟨rfl, rfl⟩
  rw [accepted, hresp]
  exact beq_false_of_ne hcode

theorem wp_catchStd (what : Bytes) (e : Exn) :
    (svc.catchStd what e).wp (ofExec (exec svc pg)) (fun r w' => w' = w ∧ accepted r = false) w :=
  wp_refusal (by decide) _

theorem wp_catchJson (what : Bytes) (e : Exn) :
    (svc.catchJson what e).wp (ofExec (exec svc pg)) (fun r w' => w' = w ∧ accepted r = false) w := by
  unfold Services.catchJson
  split <;> exact wp_refusal (by decide) _

/-- A value that an answer can carry: a scalar, and valid text where it is a text. -/
def Sendable (j : Json) : Prop := j.isScalar = true ∧ ∀ t ∈ j.scalarText, validUtf8 t = true

theorem sendable_bool (b : Bool) : Sendable (.bool b) := ⟨rfl, nofun⟩

theorem sendable_int {i : Int} (hlow : -(2 ^ 63) ≤ i) (hhigh : i < 2 ^ 63) : Sendable (.int i) := by
  refine ⟨?_, nofun⟩
  rw [Json.isScalar, Bool.and_eq_true, decide_eq_true_eq, decide_eq_true_eq]
  omega

theorem sendable_str {t : Bytes} (ht : validUtf8 t = true) : Sendable (.str t) := by
  refine ⟨rfl, fun t' ht' => ?_⟩
  rw [List.mem_singleton.mp ht']
  exact ht

include hjson in
/-- An object of such values is answered with 200. -/
theorem wp_setJson_object {σ : Type} {I : Interface Call Call.Resp Exn σ} {s : σ}
    {fields : List (String × Json)}
    (hsorted : Json.keysSorted (fields.map fun p => (ascii p.1, p.2)) = true)
    (hkeys : ∀ key ∈ fields.map Prod.fst, validUtf8 (ascii key) = true)
    (hvalues : ∀ j ∈ fields.map Prod.snd, Sendable j) :
    (svc.setJson (object fields)).wp I (fun r s' => s' = s ∧ accepted r = true) s := by
  have hvalue : ∀ p ∈ fields, Sendable p.2 := fun p hp => hvalues _ (List.mem_map_of_mem hp)
  have hflat : (object fields).isFlat = true := by
    rw [object, Json.isFlat, List.all_map, hsorted, Bool.and_true, List.all_eq_true]
    exact fun p hp => (hvalue p hp).1
  have htexts : ∀ t ∈ (object fields).texts, validUtf8 t = true := by
    intro t ht
    rw [object, Json.texts, List.flatMap_map, List.mem_flatMap] at ht
    obtain ⟨p, hp, ht⟩ := ht
    rcases List.mem_cons.mp ht with rfl | ht
    · exact hkeys p.1 (List.mem_map_of_mem hp)
    · exact (hvalue p hp).2 t ht
  obtain ⟨text, hdump, -, -⟩ := hjson.dump_flat _ hflat htexts
  unfold Services.setJson
  rw [hdump]
  exact ⟨rfl, rfl⟩

include hjson in
/-- The text of such an answer. -/
theorem wp_setJson_text {σ : Type} {I : Interface Call Call.Resp Exn σ} {s : σ}
    {fields : List (String × Json)}
    (hsorted : Json.keysSorted (fields.map fun p => (ascii p.1, p.2)) = true)
    (hkeys : ∀ key ∈ fields.map Prod.fst, validUtf8 (ascii key) = true)
    (hvalues : ∀ j ∈ fields.map Prod.snd, Sendable j) :
    (svc.setJson (object fields)).wp I (fun r s' => s' = s ∧ ∃ text,
      svc.json.dump (object fields) = .ok text ∧ r = .ok (HttpResponse.setJson {} text)) s := by
  have hsent := @wp_setJson_object svc hjson _ I s fields hsorted hkeys hvalues
  unfold Services.setJson at hsent ⊢
  cases hdump : svc.json.dump (object fields) with
  | error what =>
      rw [hdump] at hsent
      cases hsent.2
  | ok text => exact ⟨rfl, text, rfl, rfl⟩

include hjson in
/-- The answer of an upload with a known hash. -/
theorem wp_fileAnswer {σ : Type} {I : Interface Call Call.Resp Exn σ} {s : σ} {fileId data : Bytes}
    {instant : Bool} {size : Int} (hid : validUtf8 fileId = true)
    (hsize : -(2 ^ 63) ≤ size ∧ size < 2 ^ 63) :
    (svc.setJson (object [("file_id", .str fileId), ("hash", .str (svc.sha256 data)),
      ("instant", .bool instant), ("size", .int size)])).wp I
      (fun r s' => s' = s ∧ accepted r = true) s := by
  refine wp_setJson_object hjson ?_ ?_ ?_
  all_goals simp only [List.map_cons, List.map_nil]
  · rfl
  · decide
  · simp only [List.forall_mem_cons]
    exact ⟨sendable_str hid, sendable_str (validUtf8_sha256 svc _), sendable_bool _,
      sendable_int hsize.1 hsize.2, nofun⟩

/-- Contents as before, no object lost, and in Redis only this key changed. -/
structure Grown (key : Bytes) (w w' : World) : Prop where
  contents : w'.contents = w.contents
  store : ∀ x d, w.store x = some d → w'.store x = some d
  redis : ∀ k, k ≠ key → w'.redis k = w.redis k

theorem Grown.refl (key : Bytes) (w : World) : Grown key w w :=
  ⟨rfl, fun _ _ hd => hd, fun _ _ => rfl⟩

theorem Grown.trans {key : Bytes} {w₀ : World} (h : Grown key w₀ w) (h' : Grown key w w') :
    Grown key w₀ w' :=
  ⟨h'.contents.trans h.contents, fun x d hd => h'.store x d (h.store x d hd),
    fun k hk => (h'.redis k hk).trans (h.redis k hk)⟩

theorem grown_put (key : Bytes) {data : Bytes} {r : Except Exn Bytes}
    (hexec : exec svc pg (.put data) w = (r, w')) : Grown key w w' := by
  rcases exec_put hexec with ⟨rfl, -⟩ | ⟨-, hnew, rfl⟩
  · exact .refl key _
  · refine ⟨rfl, fun x d hd => ?_, fun _ _ => rfl⟩
    have hx : x ≠ svc.sha256 data := by
      rintro rfl
      rw [hnew] at hd
      cases hd
    exact (Function.update_of_ne hx _ _).trans hd

theorem grown_rehashed {key : Bytes} {fields : List (Bytes × Bytes)}
    (hre : Rehashed key fields w w') : Grown (cstr key) w w' := by
  refine ⟨?_, fun x d hd => ?_, hre.others⟩
  · rw [hre.world]
  · rw [hre.world]
    exact hd

/-- The record after a request that changes a session when it is answered 200.
A part it then has was in the session before, or is in the store. -/
structure Answers (svc : Services) (g : Record) (key : Bytes) (parts : List (Option Bytes))
    (w : World) (r : Except Exn HttpResponse) (w' : World) : Prop where
  grown : Grown key w w'
  accepted : accepted r = true → Faithful svc (g.setParts key parts) w' ∧
    ∀ body, some body ∈ parts →
      some body ∈ g.parts key ∧ (w.redis key).isSome = true ∨
        (w'.store (svc.sha256 body)).isSome = true
  refused : Runs.accepted r = false → Faithful svc g w' ∧ w'.redis = w.redis

variable {key : Bytes} {parts : List (Option Bytes)}

theorem Faithful.refused (h : Faithful svc g w) {w₀ : World} (hgrown : Grown key w₀ w)
    (hredis : w.redis = w₀.redis) {r : Except Exn HttpResponse} (hr : accepted r = false) :
    Answers svc g key parts w₀ r w :=
  ⟨hgrown, fun h' => (Bool.false_ne_true (hr.symm.trans h')).elim, fun _ => ⟨h, hredis⟩⟩

theorem answers_refusal (h : Faithful svc g w) {w₀ : World} (hgrown : Grown key w₀ w)
    (hredis : w.redis = w₀.redis) {p : App HttpResponse} (hp : p.wp (ofExec (exec svc pg))
      (fun r w' => w' = w ∧ accepted r = false) w) :
    p.wp (ofExec (exec svc pg)) (Answers svc g key parts w₀) w := by
  refine wp_mono hp ?_
  rintro r _ ⟨rfl, hr⟩
  exact h.refused hgrown hredis hr

/-- An exception leaves the session as it was. -/
theorem answers_catch {p : App HttpResponse} {k : Exn → App HttpResponse}
    (hp : p.wp (ofExec (exec svc pg)) (Answers svc g key parts w) w)
    (hk : ∀ e w', (k e).wp (ofExec (exec svc pg)) (fun r w₁ => w₁ = w' ∧ accepted r = false) w') :
    (p.tryCatch k).wp (ofExec (exec svc pg)) (Answers svc g key parts w) w := by
  refine wp_catch hp (fun _ _ h' => h') ?_
  rintro e w' ⟨hgrown, -, herr⟩
  exact answers_refusal (herr rfl).1 hgrown (herr rfl).2 (hk e w')

theorem Faithful.draws (h : Faithful svc g w) (draws : Nat → Nat) :
    Faithful svc g { w with draws } := (h.before.draws draws).faithful

/-- Drawing random numbers changes neither store, nor tables, nor Redis. -/
theorem Grown.draws (key : Bytes) (w : World) (draws : Nat → Nat) :
    Grown key w { w with draws } := ⟨rfl, fun _ _ hd => hd, fun _ _ => rfl⟩

/-! ## Parts -/

include hjson hpg hlen in
theorem answers_handleUploadPart (req : HttpRequest) (h : Faithful svc g w) :
    (handleUploadPart svc req).wp (ofExec (exec svc pg))
      (Answers svc g (pathSession req)
        ((g.parts (pathSession req)).set (partIndex req) (some req.body)) w) w := by
  refine answers_catch ?_ fun e w' => wp_catchStd _ e
  split
  · exact answers_refusal h (.refl _ _) rfl (wp_refusal (by decide) _)
  dsimp only
  split
  · exact answers_refusal h (.refl _ _) rfl (wp_refusal (by decide) _)
  cases hsto : stoi (req.getPathParam (ascii "part_num")) with
  | error e => exact h.refused (.refl _ _) rfl rfl
  | ok n =>
  have hpart : partIndex req = n.toNat := by
    rw [partIndex, hsto]
    rfl
  show (if req.body = [] then _ else _ : App HttpResponse).wp _ _ _
  split
  · exact answers_refusal h (.refl _ _) rfl (wp_refusal (by decide) _)
  refine wp_finds_bind (finds_loadSession hjson h req _) (fun found draws hfound => ?_)
    fun e draws => (h.draws draws).refused (.draws _ _ draws) rfl rfl
  cases found with
  | error resp => exact (h.draws draws).refused (.draws _ _ draws) rfl (beq_false_of_ne hfound)
  | ok session =>
  obtain ⟨hredis, hholds, hloaded⟩ := hfound
  dsimp only
  split
  · exact answers_refusal (h.draws draws) (.draws _ _ draws) rfl (wp_refusal (by decide) _)
  split
  · exact answers_refusal (h.draws draws) (.draws _ _ draws) rfl (wp_refusal (by decide) _)
  rename_i hfits
  have hbefore : Before svc g w { w with draws } := h.before.draws draws
  refine wp_request_bind trivial (fun hash w₁ hexec => ?_) fun e w₁ hexec => ?_
  all_goals
    have h₁ := hbefore.step hpg hlen (c := .put req.body) trivial hexec
    have hgrown : Grown (pathSession req) w w₁ := (Grown.draws _ w draws).trans (grown_put _ hexec)
    have hput : w₁.redis = { w with draws }.redis := exec_redis (c := .put req.body) rfl hexec
  swap
  · exact h₁.faithful.refused hgrown hput rfl
  have hhash : hash = svc.sha256 req.body := by
    rcases exec_put hexec with ⟨-, ⟨hr, -⟩ | ⟨hr, -⟩⟩ | ⟨hr, -⟩
    · cases hr
    · exact Except.ok.inj hr
    · exact Except.ok.inj hr
  subst hhash
  have hid : (session.record n (svc.sha256 req.body)).uploadId =
      req.getPathParam (ascii "upload_id") := hloaded.sessionId
  refine wp_seq (wp_saveToRedis (session.record n (svc.sha256 req.body))
    (h₁.faithful.sessionKeys _)) (fun _ w₂ hsaved => ?_) fun e w₂ hsaved => ?_
  swap
  · cases hsaved
    exact h₁.faithful.refused hgrown hput rfl
  cases hsaved with
  | skipped hno => rw [hredis] at hno; cases hno
  | @written t t' _ _ ht ht' hre =>
  -- the session now holds the part; what is left is the answer
  have hsession : SessionHolds svc w₂ (session.record n (svc.sha256 req.body)).uploadId
      ((g.parts (pathSession req)).set n.toNat (some req.body)) := by
    refine sessionHolds_of_written hjson ht ht' hre ?_ ?_ ?_ ?_ ?_
    · rw [List.length_set]
      exact hholds.small
    · rw [List.length_set]
      exact hloaded.chunkCount
    · rw [List.map_set]
      exact congrArg (fun l => l.set n.toNat (svc.sha256 req.body)) hloaded.hashes
    · rw [List.map_set]
      exact congrArg (fun l => l.set n.toNat true) hloaded.flags
    · obtain ⟨m, hm, hfits, -⟩ := hloaded.totalSize
      exact ⟨m, hm, hfits⟩
  have hdone := h₁.faithful.writeSession hredis hre hsession
  rw [hid] at hdone
  have hgrown₂ : Grown (pathSession req) w w₂ := by
    refine hgrown.trans ?_
    have hwrite := grown_rehashed hre
    rwa [hid] at hwrite
  have hthere : (w₂.store (svc.sha256 req.body)).isSome = true := by
    rw [hre.world]
    exact (put_step hexec).2.2 _ rfl
  have hnotified : (notifyUploadProgress (session.record n (svc.sha256 req.body))).run
      (exec svc pg) w₂ = (.ok (), w₂) := rfl
  refine wp_run_bind hnotified ?_
  have hn := stoSigned_lt hsto
  have hlength : (req.body.length : Int) < 2 ^ 63 := by
    have := hloaded.chunkSize
    omega
  refine wp_mono (wp_setJson_object hjson ?_ ?_ ?_) ?_
  any_goals simp only [List.map_cons, List.map_nil]
  · rfl
  · decide
  · simp only [List.forall_mem_cons]
    exact ⟨sendable_str (validUtf8_sha256 svc _), sendable_int (by omega) (by omega),
      sendable_int (by omega) hlength, by simp⟩
  rintro r _ ⟨rfl, hr⟩
  refine ⟨hgrown₂, fun _ => ?_, fun hr' => (Bool.false_ne_true (hr'.symm.trans hr)).elim⟩
  rw [hpart]
  refine ⟨hdone, fun body hbody => ?_⟩
  rcases List.mem_or_eq_of_mem_set hbody with hold | heq
  · exact Or.inl ⟨hold, redis_of_hget hholds.chunkCount⟩
  · rw [Option.some.inj heq]
    exact Or.inr hthere

/-! ## Starting an upload -/

/-- A folder that is refused is refused with 404. -/
theorem wp_resolveFolderId (folderId userId : Bytes) :
    (resolveFolderId svc folderId userId).wp (ofExec (exec svc pg)) (fun r w' => w' = w ∧
      ∀ resp, r = .ok (.error resp) → accepted (.ok resp) = false) w := by
  have hrefused : (do
      let resp ← svc.setError 404 (ascii "folder not found")
      return .error resp : App (Answered Bytes)).wp (ofExec (exec svc pg)) (fun r w' => w' = w ∧
        ∀ resp, r = .ok (.error resp) → accepted (.ok resp) = false) w := by
    refine wp_seq (wp_refusal (show (404 : Int) ≠ 200 by decide) _) ?_ ?_
    · rintro resp _ ⟨rfl, hr⟩
      refine ⟨rfl, ?_⟩
      rintro _ ⟨⟩
      exact hr
    · rintro e _ ⟨rfl, -⟩
      exact ⟨rfl, nofun⟩
  unfold resolveFolderId
  split
  · exact ⟨rfl, nofun⟩
  · refine wp_request_bind trivial (fun folder w₁ hexec => ?_) fun e w₁ hexec => ?_
    swap
    · obtain rfl : w = w₁ := congrArg Prod.snd
        (show (folderFindById pg w folderId, w) = _ from hexec)
      exact ⟨rfl, nofun⟩
    obtain rfl : w = w₁ := congrArg Prod.snd
      (show (folderFindById pg w folderId, w) = _ from hexec)
    cases folder with
    | none => exact hrefused
    | some f =>
        dsimp only
        split
        · exact hrefused
        · exact ⟨rfl, nofun⟩

theorem generatedId_ascii (w : World) : validUtf8 (generatedId w) = true := by
  have hdigit : ∀ n : Nat, ∀ c ∈ hexNat n, c < 0x80 := by
    intro n c hc
    unfold hexNat at hc
    split at hc
    · rw [List.mem_singleton] at hc
      rw [hc]
      decide
    · obtain ⟨d, hd, rfl⟩ := List.mem_map.mp hc
      rw [List.mem_reverse] at hd
      have hlt : d < 16 := Nat.digits_lt_base (by decide) hd
      have hall : ∀ d < 16, hexDigit d < 0x80 := by decide
      exact hall d hlt
  have hdash : DASH < 0x80 := by decide
  refine validUtf8_of_ascii fun c hc => ?_
  simp only [generatedId, List.mem_append, List.mem_cons] at hc
  rcases hc with ((hc | rfl | hc) | rfl | hc) | rfl | hc
  · exact hdigit _ c hc
  · exact hdash
  · exact hdigit _ c hc
  · exact hdash
  · exact hdigit _ c hc
  · exact hdash
  · exact hdigit _ c hc

include hjson in
theorem answers_handleInit (req : HttpRequest) (h : Faithful svc g w) :
    (handleInit svc req).wp (ofExec (exec svc pg))
      (Answers svc g (cstr (sessionKey (generatedId w)))
        (List.replicate (askedParts svc req) none) w) w := by
  refine answers_catch ?_ fun e w' => wp_catchJson _ e
  split
  · exact answers_refusal h (.refl _ _) rfl (wp_refusal (by decide) _)
  rw [wp_bind]
  refine @wp_jsonParse svc pg w _ _ _ _ _ rfl (fun body hparse => ?_) fun what _ => ?_
  swap
  · exact h.refused (.refl _ _) rfl rfl
  dsimp only
  cases hinit : readInitBody body with
  | error e => exact h.refused (.refl _ _) rfl rfl
  | ok init =>
  have hasked : askedParts svc req = (partCount init.totalSize svc.chunkSize).toNat := by
    simp only [askedParts, hparse, hinit]
  show (if _ then _ else _ : App HttpResponse).wp _ _ _
  split
  · exact answers_refusal h (.refl _ _) rfl (wp_refusal (by decide) _)
  rename_i hpositive
  split
  · exact answers_refusal h (.refl _ _) rfl (wp_refusal (by decide) _)
  rename_i hfits
  refine wp_seq (wp_resolveFolderId _ _) ?_ ?_
  swap
  · rintro e _ ⟨rfl, -⟩
    exact h.refused (.refl _ _) rfl rfl
  intro folder w₁ hw₁
  obtain rfl : w = w₁ := hw₁.1.symm
  cases folder with
  | error resp => exact h.refused (.refl _ _) rfl (hw₁.2 resp rfl)
  | ok folderId =>
  refine wp_finds_bind (finds_startSession _ _ _) (fun session draws hstart => ?_)
    fun e draws => (h.draws draws).refused (.draws _ _ draws) rfl rfl
  refine wp_seq (wp_saveToRedis session ((h.draws draws).sessionKeys _))
    (fun _ w₂ hsaved => ?_) fun e w₂ hsaved => ?_
  swap
  · cases hsaved
    exact (h.draws draws).refused (.draws _ _ draws) rfl rfl
  have hcount := hstart.chunkCount
  have hnonneg := hstart.nonneg
  have hlt := (partCount_range init.totalSize svc.chunkSize).2
  have hreplicate : session.chunkCount.toNat = askedParts svc req := by rw [hasked, hcount]
  have hdone : Faithful svc (g.setParts (cstr (sessionKey (generatedId w)))
      (List.replicate (askedParts svc req) none)) w₂ ∧
        Grown (cstr (sessionKey (generatedId w))) w w₂ := by
    cases hsaved with
    | skipped hno =>
        -- without Redis there are no sessions
        have hd := h.draws draws
        refine ⟨⟨hd.objects, hd.contentIds, hd.rows, hd.files, hd.sessionKeys, fun id hid => ?_⟩,
          .draws _ w draws⟩
        rw [(hd.sessions id hid).1] at hno
        cases hno
    | @written t t' _ hredis ht ht' hre =>
        have hholds : SessionHolds svc w₂ session.uploadId
            (List.replicate (askedParts svc req) none) := by
          refine sessionHolds_of_written hjson ht ht' hre ?_ ?_ ?_ ?_
            ⟨init.totalSize.toNat, by rw [hstart.totalSize]; omega, ?_⟩
          · rw [List.length_replicate]
            omega
          · rw [List.length_replicate]
            omega
          · rw [hstart.partHashes, hreplicate, List.map_replicate]
            rfl
          · rw [hstart.uploaded, hreplicate, List.map_replicate]
            rfl
          have hnat : ((init.totalSize.toNat : Nat) : Int) = init.totalSize := by omega
          rw [hnat]
          simpa using hfits
        have hfaithful := (h.draws draws).writeSession hredis hre hholds
        have hwrite := grown_rehashed hre
        rw [hstart.sessionId] at hfaithful hwrite
        exact ⟨hfaithful, (Grown.draws _ w draws).trans hwrite⟩
  have hsize := svc.chunkSize_lt
  refine wp_mono (wp_setJson_object hjson ?_ ?_ ?_) ?_
  any_goals simp only [List.map_cons, List.map_nil]
  · rfl
  · decide
  · simp only [List.forall_mem_cons, hstart.chunkSize, hcount,
      hstart.sessionId]
    exact ⟨sendable_int (by omega) (by omega), sendable_int (by omega) (by omega),
      sendable_str (generatedId_ascii w), nofun⟩
  rintro r _ ⟨rfl, hr⟩
  refine ⟨hdone.2, fun _ => ⟨hdone.1, fun body hbody => ?_⟩,
    fun hr' => (Bool.false_ne_true (hr'.symm.trans hr)).elim⟩
  cases List.eq_of_mem_replicate hbody

/-! ## Completing an upload -/

theorem joined_map_some : ∀ bodies : List Bytes, joined (bodies.map some) = some bodies.flatten
  | [] => rfl
  | body :: bodies => by
      show (do return (← some body) ++ (← joined (bodies.map some))) = _
      rw [joined_map_some bodies]
      rfl

theorem all_some {parts : List (Option Bytes)} (h : ∀ part ∈ parts, part.isSome = true) :
    ∃ bodies : List Bytes, parts = bodies.map some := by
  induction parts with
  | nil => exact ⟨[], rfl⟩
  | cons part parts ih =>
      obtain ⟨bodies, rfl⟩ := ih fun p hp => h p (List.mem_cons_of_mem _ hp)
      obtain ⟨body, rfl⟩ := Option.isSome_iff_exists.mp (h part List.mem_cons_self)
      exact ⟨body :: bodies, rfl⟩

/-- With no part missing every part has a body. -/
theorem LoadedParts.complete {id : Bytes} {parts : List (Option Bytes)}
    {session : MultipartSession} (h : LoadedParts svc w id parts session)
    (hnone : firstMissing session = none) : ∃ bodies : List Bytes, parts = bodies.map some := by
  refine all_some fun part hpart => ?_
  obtain ⟨i, hi, rfl⟩ := List.mem_iff_getElem.mp hpart
  have hall := List.find?_eq_none.mp hnone i (by rw [h.chunkCount, List.mem_range]; omega)
  rw [h.flags, List.getD_eq_getElem?_getD, List.getElem?_map, List.getElem?_eq_getElem hi] at hall
  exact Option.isSome_iff_ne_none.mpr (by simpa using hall)

theorem map_partHash_some (bodies : List Bytes) :
    (bodies.map some).map (partHash svc) = bodies.map svc.sha256 := by
  rw [List.map_map]
  rfl

include hinj in
/-- Objects under the digests of some bodies are these bodies. -/
theorem finds_getChunked : ∀ (bodies : List Bytes) {w : World}, Faithful svc g w →
    Finds svc pg (getChunked (bodies.map svc.sha256)) w fun content =>
      content = bodies.flatten ∧ ∀ d ∈ bodies, w.store (svc.sha256 d) = some d
  | [], _, _ => finds_pure ⟨rfl, fun _ hd => absurd hd List.not_mem_nil⟩
  | body :: bodies, w, h => by
      refine finds_bind (finds_ask rfl) fun chunk draws hchunk => ?_
      have hget : storeGet w (svc.sha256 body) = .ok chunk := hchunk
      have hthere : w.store (svc.sha256 body) = some chunk := by
        unfold storeGet at hget
        split at hget
        · cases hget
        · split at hget
          · rename_i hstore
            rw [hstore, Except.ok.inj hget]
          · cases hget
      obtain rfl : body = chunk := hinj (h.objects _ _ hthere)
      refine finds_bind (finds_getChunked bodies (h.draws draws)) ?_
      rintro rest draws' ⟨rfl, hrest⟩
      refine finds_pure ⟨rfl, fun d hd => ?_⟩
      rcases List.mem_cons.mp hd with rfl | hd
      · exact hthere
      · exact hrest d hd

/-- The session that the user of the request names has all its parts, and
declares this size for them. -/
structure DeclaredFor (w : World) (g : Record) (req : HttpRequest) (bodies : List Bytes) (n : Nat) :
    Prop where
  parts : g.parts (pathSession req) = bodies.map some
  user : (hget w (sessionKey (req.getPathParam (ascii "upload_id"))) (ascii "user_id")).getD [] =
    req.authUserId
  totalSize : hget w (sessionKey (req.getPathParam (ascii "upload_id"))) (ascii "total_size") =
    some (decimal n)

/-- No new file, or one with the parts of the session of the request, in the
size that the session declares. -/
def Completed (svc : Services) (g : Record) (w₀ : World) (req : HttpRequest) (w : World) : Prop :=
  Before svc g w₀ w ∨ ∃ (bodies : List Bytes) (n : Nat) (row : FileRow),
    DeclaredFor w₀ g req bodies n ∧ After svc g w₀ bodies.flatten n row w

include hjson hpg hlen in
/-- A file from the session's chunks, which are all there. -/
theorem outcome_createFile {w₀ : World} (h : Before svc g w₀ w) {session : MultipartSession}
    {bodies : List Bytes} {chunkHashes : Bytes}
    (hdump : svc.json.dump (hashArray (bodies.map svc.sha256)) = .ok chunkHashes)
    (hthere : ∀ d ∈ bodies, w.store (svc.sha256 d) = some d)
    (hfits : svc.oversized session.totalSize = false) :
    (createFile svc session chunkHashes (svc.sha256 bodies.flatten)).wp (ofExec (exec svc pg))
      (fun _ w' => Outcome svc g w₀ bodies.flatten session.totalSize w') w := by
  refine wp_finds_bind (finds_ask rfl) (fun content draws hcontent => ?_)
    fun _ draws => Or.inl (h.draws draws)
  cases content with
  | some record =>
      obtain ⟨c, hc, hhash, hid, -⟩ := findContentByHash_ok
        (show findContentByHash pg w (svc.sha256 bodies.flatten) = .ok (some record) from hcontent)
      refine wp_seq (wp_linkContent hpg (h.draws draws) (h.contents ▸ hc) hhash hid _ _ _ _) ?_
        fun _ _ h₁ => h₁
      intro fileId w₁ h₁
      refine wp_calm hpg hlen ?_ h₁
      exact callsOnly_bind (calm_rememberHash _ _) fun _ => callsOnly_pure _
  | none =>
      have hinsert : ∀ {file : FileRecord} {r : Except Exn Bytes} {w' : World},
          file.hash = svc.sha256 bodies.flatten → file.size = session.totalSize →
          file.chunkHashes = chunkHashes →
          exec svc pg (.fileInsert file) { w with draws } = (r, w') →
          Outcome svc g w₀ bodies.flatten session.totalSize w' := by
        intro file r w' hhash hsize hchunks hexec
        have hout := outcome_fileInsert hjson hpg (h.draws draws) hhash
          (by rw [hchunks]; exact hdump) hthere (by rw [hsize]; exact hfits) hexec
        rwa [hsize] at hout
      refine wp_request_bind trivial (fun fileId w₁ hexec => ?_)
        fun e w₁ hexec => hinsert rfl rfl rfl hexec
      refine wp_calm hpg hlen ?_ (hinsert rfl rfl rfl hexec)
      exact callsOnly_bind (callsOnly_indexContent (fun c hc => calm_of_reads hc) svc
        (fun hash _ => hashKey_ne hash) _) fun _ => callsOnly_pure _

include hjson hpg hlen hinj in
theorem completed_handleComplete (req : HttpRequest) (h : Faithful svc g w) :
    (handleComplete svc req).wp (ofExec (exec svc pg))
      (fun _ w' => Completed svc g w req w') w := by
  have hcalm : ∀ {w₁ : World} {p : App HttpResponse}, p.CallsOnly calm →
      Completed svc g w req w₁ →
      p.wp (ofExec (exec svc pg)) (fun _ w' => Completed svc g w req w') w₁ := by
    rintro w₁ p hp (hbefore | ⟨bodies, n, row, hdeclared, hafter⟩)
    · exact wp_mono (wp_calm_before hpg hlen hp hbefore) fun _ _ hw => Or.inl hw
    · refine wp_mono (wp_of_callsOnly (fun w' => After svc g w bodies.flatten n row w') ?_ hp
        hafter) fun _ _ hw => Or.inr ⟨bodies, n, row, hdeclared, hw⟩
      exact fun _ _ hc hw => ⟨trivial, fun _ _ hexec => hw.step hpg hlen hc hexec⟩
  refine course_withSession (P := fun w' => w' = w) (S := fun session w' =>
    ∃ draws : Nat → Nat, w' = { w with draws } ∧
      LoadedParts svc w (req.getPathParam (ascii "upload_id"))
        (g.parts (cstr (sessionKey (req.getPathParam (ascii "upload_id"))))) session ∧
      LoadedFrom w (req.getPathParam (ascii "upload_id")) session ∧
      session.userId = req.authUserId) ?_ ?_ ?_ ?_ rfl
  · rintro code msg _ rfl
    exact hcalm (calm_of_readsOnly (reads_setError svc _ _)) (Or.inl h.before)
  · exact fun e w' h' => hcalm (calm_of_readsOnly (reads_catchStd svc _ e)) h'
  · rintro _ f rfl - hrefused hfound
    refine wp_finds_bind (finds_and (finds_loadSession hjson h req _) (finds_requireSession req _))
      (fun found draws hboth => ?_) fun e draws => Or.inl (h.before.draws draws)
    cases found with
    | error resp => exact hrefused resp _ (Or.inl (h.before.draws draws))
    | ok session => exact hfound session _ ⟨draws, rfl, hboth.1.2.2, hboth.2 session rfl⟩
  rintro session _ ⟨draws, rfl, hloaded, hstored, huser⟩
  have hdraws : Before svc g w { w with draws } := h.before.draws draws
  cases hmissing : firstMissing session with
  | some i => exact hcalm (calm_of_readsOnly (reads_setError svc _ _)) (Or.inl hdraws)
  | none =>
  obtain ⟨bodies, hparts⟩ := hloaded.complete hmissing
  obtain ⟨n, hn, hfits, hsize⟩ := hloaded.totalSize
  have hhashes : session.partHashes = bodies.map svc.sha256 := by
    rw [hloaded.hashes, hparts, map_partHash_some]
  dsimp only [finishSession]
  rw [hhashes]
  cases hdump : svc.json.dump (hashArray (bodies.map svc.sha256)) with
  | error e => exact Or.inl hdraws
  | ok chunkHashes =>
  show (getChunked _ >>= _ : App HttpResponse).wp _ _ _
  refine wp_finds_bind (finds_getChunked hinj bodies hdraws.faithful) ?_
    fun e draws' => Or.inl (hdraws.draws draws')
  rintro _ draws' ⟨rfl, hthere⟩
  have hcreated : ∀ {w₁ : World}, Outcome svc g w bodies.flatten session.totalSize w₁ →
      Completed svc g w req w₁ := by
    rintro w₁ (hbefore | ⟨row, hafter⟩)
    · exact Or.inl hbefore
    · exact Or.inr ⟨bodies, n, row, ⟨hparts, hstored.userId.symm.trans huser, hsize⟩, hn ▸ hafter⟩
  refine wp_seq (outcome_createFile hjson hpg hlen (hdraws.draws draws') hdump hthere
    (hn ▸ hfits)) ?_ fun _ _ h₁ => hcreated h₁
  rintro ⟨fileId, instant⟩ w₁ h₁
  refine hcalm ?_ (hcreated h₁)
  exact callsOnly_bind (callsOnly_deleteFromRedis svc (fun _ => trivial) _) fun _ =>
    callsOnly_bind (callsOnly_request trivial) fun _ =>
      calm_of_readsOnly (reads_setJson svc _)

end Session

end SolarDrive.Runs
