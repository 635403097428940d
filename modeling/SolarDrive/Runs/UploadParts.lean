import SolarDrive.Runs.UploadDelete

/-!
# Parts of one session, at once

Requests for parts of one multipart session run at once, one Redis command or
store operation at a time. Each reads the nine fields of the session, records
its part, and writes the nine fields back. A request that read the arrays
before another one wrote them puts the old entries back: the other part was
answered 200 and is lost.

`loaded_after_answer` shows that this is the only way: if every request writes
an array back only while its own copy still has all the other parts that Redis
has (`UpToDate`), a part once answered 200 is in every later load.
-/

namespace SolarDrive.Runs

open Lib Http Api Metadata Prog

/-- How a process of the run ends. -/
inductive Reply where
  | answered (resp : HttpResponse)
  | loaded (session : MultipartSession)

abbrev Worker : Type := Proc Call Call.Resp Exn Reply

def partRequest (svc : Services) (req : HttpRequest) : App Reply := do
  let resp ← handleUploadPart svc req
  return .answered resp

def loadRequest (svc : Services) (uploadId : Bytes) : App Reply := do
  let session ← loadFromRedis svc uploadId
  return .loaded session

/-- The index of the part a request brings. -/
def partIndex (req : HttpRequest) : Nat :=
  ((stoi (req.getPathParam (ascii "part_num"))).toOption.getD 0).toNat

/-! ## Array fields -/

theorem isFlat_flagArray (fs : List Bool) : (flagArray fs).isFlat = true := by
  simp [flagArray, Json.isFlat, Json.isScalar]

theorem getArray_hashArray (hs : List Bytes) : (hashArray hs).getArray Json.getString = .ok hs := by
  show (hs.map Json.str).mapM Json.getString = .ok hs
  induction hs with
  | nil => rfl
  | cons h hs ih =>
      rw [List.map_cons, List.mapM_cons, ih]
      rfl

theorem getArray_flagArray (fs : List Bool) : (flagArray fs).getArray Json.getBool = .ok fs := by
  show (fs.map Json.bool).mapM Json.getBool = .ok fs
  induction fs with
  | nil => rfl
  | cons f fs ih =>
      rw [List.map_cons, List.mapM_cons, ih]
      rfl

theorem hashArray_injective {hs hs' : List Bytes} (h : hashArray hs = hashArray hs') : hs = hs' := by
  have hget := getArray_hashArray hs
  rw [h, getArray_hashArray] at hget
  exact (Except.ok.inj hget).symm

theorem flagArray_injective {fs fs' : List Bool} (h : flagArray fs = flagArray fs') : fs = fs' := by
  have hget := getArray_flagArray fs
  rw [h, getArray_flagArray] at hget
  exact (Except.ok.inj hget).symm

/-- The number of parts is an `int`. -/
theorem partCount_range (totalSize chunkSize : Int) :
    -(2 ^ 31) ≤ partCount totalSize chunkSize ∧ partCount totalSize chunkSize < 2 ^ 31 := by
  unfold partCount
  generalize (Int.bmod (totalSize + chunkSize - 1) (2 ^ 64)).tdiv chunkSize = n
  have hlow := Int.le_bmod (x := n) (show 0 < 2 ^ 32 by decide)
  have hhigh := Int.bmod_lt (x := n) (show 0 < 2 ^ 32 by decide)
  omega

/-- The text of the array of part hashes. -/
def HashText (svc : Services) (hs : List Bytes) (t : Bytes) : Prop :=
  svc.json.dump (hashArray hs) = .ok t

def FlagText (svc : Services) (fs : List Bool) (t : Bytes) : Prop :=
  svc.json.dump (flagArray fs) = .ok t

theorem hashText_injective {svc : Services} (hjson : svc.json.Lawful) {hs hs' : List Bytes}
    {t : Bytes} (h : HashText svc hs t) (h' : HashText svc hs' t) : hs = hs' :=
  hashArray_injective (hjson.dump_injective (isFlat_hashArray _) (isFlat_hashArray _) h h')

theorem flagText_injective {svc : Services} (hjson : svc.json.Lawful) {fs fs' : List Bool}
    {t : Bytes} (h : FlagText svc fs t) (h' : FlagText svc fs' t) : fs = fs' :=
  flagArray_injective (hjson.dump_injective (isFlat_flagArray _) (isFlat_flagArray _) h h')

/-! ## What the handler does -/

section Discipline

variable (svc : Services) (uploadId : Bytes) (count : Nat)

def ReadIn (log : Log) (field : String) (t : Bytes) : Prop :=
  (⟨.hget (sessionKey uploadId) (ascii field), .ok (some t)⟩ : Event Call Call.Resp Exn) ∈ log

def WrittenIn (log : Log) (field : String) : Prop :=
  ∃ v r, (⟨.hset (sessionKey uploadId) (ascii field) v, r⟩ : Event Call Call.Resp Exn) ∈ log

/-- A field is written back as it was read, the arrays with the part recorded. -/
structure WritesBack (part : Nat) (body : Bytes) (log : Log) (field value : Bytes) : Prop where
  hashes : field = ascii "part_hashes" → StoredIn log (svc.sha256 body) ∧
    ∃ hs t, hs.length = count ∧ HashText svc hs t ∧ ReadIn uploadId log "part_hashes" t ∧
      HashText svc (hs.set part (svc.sha256 body)) value
  flags : field = ascii "uploaded" →
    ∃ fs t, fs.length = count ∧ FlagText svc fs t ∧ ReadIn uploadId log "uploaded" t ∧
      FlagText svc (fs.set part true) value
  count : field = ascii "chunk_count" → value = decimal count

/-- Redis is written by `HSET` on the session only. -/
def partDisciplined (part : Nat) (body : Bytes) (log : Log) : Call → Prop
  | .hset key field value => key = sessionKey uploadId ∧ cstr field = field ∧ part < count ∧
      WritesBack svc uploadId count part body log field value
  | .redisSet _ _ _ => False
  | .redisDel _ => False
  | _ => True

/-- The fields as a session of `count` parts has them. -/
structure ReadsSession (field : Bytes) (r : Except Exn (Option Bytes)) : Prop where
  hashes : field = ascii "part_hashes" →
    ∃ hs t, hs.length = count ∧ HashText svc hs t ∧ r = .ok (some t)
  flags : field = ascii "uploaded" →
    ∃ fs t, fs.length = count ∧ FlagText svc fs t ∧ r = .ok (some t)
  count : field = ascii "chunk_count" → r = .ok (some (decimal count))

def PartExpected : (c : Call) → Except Exn c.Resp → Prop
  | .hget key field, r => key = sessionKey uploadId → ReadsSession svc count field r
  | .put data, r => ∀ h, r = .ok h → h = svc.sha256 data
  | .jsonParse t, r => ∀ j, svc.json.parse t = .ok j → r = .ok j
  | _, _ => True

/-- A request answered 200 has written both arrays, and a loaded session holds
what was read. -/
def PartEnds (r : Except Exn Reply) (log : Log) : Prop :=
  match r with
  | .ok (.answered resp) => resp.statusCode = 200 →
      WrittenIn uploadId log "part_hashes" ∧ WrittenIn uploadId log "uploaded"
  | .ok (.loaded session) => session.uploadId = [] ∨
      (∃ t, HashText svc session.partHashes t ∧ ReadIn uploadId log "part_hashes" t) ∧
        ∃ t, FlagText svc session.uploaded t ∧ ReadIn uploadId log "uploaded" t
  | .error _ => True

abbrev partLogs (part : Nat) (body : Bytes) : Interface Call Call.Resp Exn Log :=
  logInterface (partDisciplined svc uploadId count part body) (PartExpected svc uploadId count)

variable {svc uploadId count} {part : Nat} {body : Bytes} {log : Log}

theorem partDisciplined_of_reads {c : Call} (hc : readOnly c = true) (log : Log) :
    partDisciplined svc uploadId count part body log c := by
  cases c with
  | hset key field value => cases hc
  | redisSet key value ttl => cases hc
  | redisDel key => cases hc
  | _ => trivial

theorem grows_reads {α : Type} {p : App α} (hp : Reads p) :
    p.wp (partLogs svc uploadId count part body) (Grows (fun _ _ => True) log) log :=
  grows_of_callsOnly (fun _ hc log => partDisciplined_of_reads hc log) hp

/-- An array field is read whole. -/
theorem grows_arrayField (hjson : svc.json.Lawful) {α : Type} {enc : List α → Json}
    {elem : Json → Except Bytes α} (hflat : ∀ xs, (enc xs).isFlat = true)
    (helem : ∀ xs, (enc xs).getArray elem = .ok xs) {field : String}
    (hread : ∀ r, ReadsSession svc count (ascii field) r →
      ∃ xs t, xs.length = count ∧ svc.json.dump (enc xs) = .ok t ∧ r = .ok (some t)) :
    (arrayField (sessionKey uploadId) field elem).wp (partLogs svc uploadId count part body)
      (Grows (fun xs log' => xs.length = count ∧
        ∃ t, svc.json.dump (enc xs) = .ok t ∧ ReadIn uploadId log' field t) log) log := by
  refine grows_bind (grows_request trivial) ?_
  rintro text log₁ - ⟨hmem, hvalid⟩
  obtain ⟨xs, t, hlen, hdump, heq⟩ := hread _ (hvalid rfl)
  cases heq
  have hne := hjson.dump_ne_nil (hflat xs) hdump
  have hparse := (hjson.parse_dump (hflat xs) hdump).2
  dsimp only
  rw [if_neg hne]
  refine grows_bind (grows_request trivial) ?_
  rintro j log₂ hsub ⟨-, hj⟩
  obtain rfl : j = enc xs := Except.ok.inj (hj _ hparse)
  rw [helem xs]
  exact grows_pure ⟨hlen, t, hdump, hsub hmem⟩

/-- What is known of a session after it is loaded. -/
structure Loaded (svc : Services) (uploadId : Bytes) (count : Nat) (session : MultipartSession)
    (log : Log) : Prop where
  hasRedis : svc.hasRedis = true
  sessionId : session.uploadId = uploadId
  chunkCount : session.chunkCount = count
  hashes : session.partHashes.length = count ∧
    ∃ t, HashText svc session.partHashes t ∧ ReadIn uploadId log "part_hashes" t
  flags : session.uploaded.length = count ∧
    ∃ t, FlagText svc session.uploaded t ∧ ReadIn uploadId log "uploaded" t

theorem grows_loadFromRedis (hjson : svc.json.Lawful) (hcount : count < 2 ^ 31) :
    (loadFromRedis svc uploadId).wp (partLogs svc uploadId count part body)
      (Grows (fun session log' => session.uploadId = [] ∨
        Loaded svc uploadId count session log') log) log := by
  unfold loadFromRedis
  split
  swap
  · exact grows_pure (Or.inl rfl)
  rename_i hredis
  refine grows_bind (grows_request trivial) fun fileName log₁ _ _ => ?_
  cases fileName with
  | none => exact grows_pure (Or.inl rfl)
  | some name =>
      refine grows_bind (grows_request trivial) fun mime log₂ _ _ => ?_
      refine grows_bind (grows_request trivial) fun user log₃ _ _ => ?_
      refine grows_bind (grows_request trivial) fun folder log₄ _ _ => ?_
      refine grows_bind (grows_reads (reads_numberField _ _ _ _ _)) fun total log₅ _ _ => ?_
      refine grows_bind (grows_reads (reads_numberField _ _ _ _ _)) fun chunkSize log₆ _ _ => ?_
      have hnumber : (numberField (sessionKey uploadId) "chunk_count" stoi "stoi" 0).wp
          (partLogs svc uploadId count part body) (Grows (fun n _ => n = (count : Int)) log₆) log₆ := by
        refine grows_bind (grows_request trivial) ?_
        rintro text log₇ - ⟨-, hvalid⟩
        obtain rfl : text = some (decimal count) := Except.ok.inj ((hvalid rfl).count rfl)
        dsimp only
        rw [stoi_decimal hcount]
        exact grows_pure rfl
      refine grows_bind hnumber ?_
      rintro _ log₇ - rfl
      refine grows_bind (grows_arrayField hjson isFlat_hashArray getArray_hashArray
        fun r hr => hr.hashes rfl) ?_
      rintro hs log₈ - ⟨hlen, t, ht, hmem⟩
      refine grows_bind (grows_arrayField hjson isFlat_flagArray getArray_flagArray
        fun r hr => hr.flags rfl) ?_
      rintro fs log₉ hsub ⟨hlen', t', ht', hmem'⟩
      exact grows_pure (Or.inr ⟨hredis, rfl, rfl, ⟨hlen, t, ht, hsub hmem⟩, ⟨hlen', t', ht', hmem'⟩⟩)

/-- The fields are all written, if each of them may be. -/
theorem grows_hsetAll : ∀ (fields : List (Bytes × Bytes)) {log : Log},
    (∀ p ∈ fields, ∀ log', log ⊆ log' → partDisciplined svc uploadId count part body log'
      (.hset (sessionKey uploadId) p.1 p.2)) →
    (hsetAll (sessionKey uploadId) fields).wp (partLogs svc uploadId count part body)
      (Grows (fun _ log' => ∀ p ∈ fields, ∃ r,
        (⟨.hset (sessionKey uploadId) p.1 p.2, r⟩ : Event Call Call.Resp Exn) ∈ log') log) log
  | [], log, _ => grows_pure fun _ hp => absurd hp List.not_mem_nil
  | (field, value) :: rest, log, hall => by
      refine grows_bind (grows_request (hall _ List.mem_cons_self log (List.Subset.refl log))) ?_
      rintro b log₁ hsub ⟨hmem, -⟩
      have hrest : ∀ p ∈ rest, ∀ log', log₁ ⊆ log' → partDisciplined svc uploadId count part body
          log' (.hset (sessionKey uploadId) p.1 p.2) :=
        fun p hp log' hl => hall p (List.mem_cons_of_mem _ hp) log' (List.Subset.trans hsub hl)
      refine wp_mono (grows_hsetAll rest hrest) ?_
      rintro r log₂ ⟨hsub₂, hwritten⟩
      refine ⟨hsub₂, fun u hu p hp => ?_⟩
      rcases List.mem_cons.mp hp with rfl | hp
      · exact ⟨_, hsub₂ hmem⟩
      · exact hwritten u hu p hp

/-- The values of the three fields a run depends on. -/
theorem sessionFields_value {session : MultipartSession} {v v' : Bytes} {p : Bytes × Bytes}
    (hp : p ∈ sessionFields session v v') :
    cstr p.1 = p.1 ∧ (p.1 = ascii "part_hashes" → p.2 = v) ∧ (p.1 = ascii "uploaded" → p.2 = v') ∧
      (p.1 = ascii "chunk_count" → p.2 = decimalInt session.chunkCount) := by
  simp only [sessionFields, List.mem_cons, List.not_mem_nil, or_false] at hp
  rcases hp with rfl | rfl | rfl | rfl | rfl | rfl | rfl | rfl | rfl <;>
    refine ⟨by dsimp only; decide, fun h => ?_, fun h => ?_, fun h => ?_⟩ <;>
    first
      | rfl
      | dsimp only at h
        exact absurd h (by decide)

/-- The session is written back with the part recorded. -/
theorem grows_saveToRedis {session : MultipartSession} {n : Int}
    (hloaded : Loaded svc uploadId count session log) (hn : 0 ≤ n ∧ n < session.chunkCount)
    (hstored : StoredIn log (svc.sha256 body)) :
    (saveToRedis svc (session.record n (svc.sha256 body))).wp
      (partLogs svc uploadId count n.toNat body)
      (Grows (fun _ log' => WrittenIn uploadId log' "part_hashes" ∧
        WrittenIn uploadId log' "uploaded") log) log := by
  have hlt : n.toNat < count := by
    have := hloaded.chunkCount
    omega
  obtain ⟨hlen, t, ht, hread⟩ := hloaded.hashes
  obtain ⟨hlen', t', ht', hread'⟩ := hloaded.flags
  have hkey : (session.record n (svc.sha256 body)).uploadId = uploadId := hloaded.sessionId
  unfold saveToRedis
  rw [if_pos hloaded.hasRedis, hkey]
  cases hv : svc.json.dump (hashArray (session.record n (svc.sha256 body)).partHashes) with
  | error w => exact grows_raise _
  | ok v =>
      cases hv' : svc.json.dump (flagArray (session.record n (svc.sha256 body)).uploaded) with
      | error w => exact grows_raise _
      | ok v' =>
          have hfields : ∀ p ∈ sessionFields (session.record n (svc.sha256 body)) v v', ∀ log',
              log ⊆ log' → partDisciplined svc uploadId count n.toNat body log'
                (.hset (sessionKey uploadId) p.1 p.2) := by
            intro p hp log' hl
            obtain ⟨hname, hhashes, hflags, hchunks⟩ := sessionFields_value hp
            refine ⟨rfl, hname, hlt, fun hf => ⟨?_, ?_⟩, fun hf => ?_, fun hf => ?_⟩
            · obtain ⟨data, hmem⟩ := hstored
              exact ⟨data, hl hmem⟩
            · rw [hhashes hf]
              exact ⟨_, t, hlen, ht, hl hread, hv⟩
            · rw [hflags hf]
              exact ⟨_, t', hlen', ht', hl hread', hv'⟩
            · rw [hchunks hf]
              show decimalInt session.chunkCount = decimal count
              rw [hloaded.chunkCount]
              rfl
          show (hsetAll (sessionKey uploadId) _ >>= _ : App Unit).wp _ _ _
          refine grows_bind (grows_hsetAll _ hfields) fun _ log₁ _ hwritten => ?_
          refine grows_bind (grows_request trivial) fun _ log₂ hsub _ => grows_pure ?_
          obtain ⟨r, hr⟩ := hwritten (ascii "part_hashes", v) (by simp [sessionFields])
          obtain ⟨r', hr'⟩ := hwritten (ascii "uploaded", v') (by simp [sessionFields])
          exact ⟨⟨v, r, hsub hr⟩, ⟨v', r', hsub hr'⟩⟩

theorem writtenIn_subset {log log' : Log} {field : String} (h : WrittenIn uploadId log field)
    (hsub : log ⊆ log') : WrittenIn uploadId log' field := by
  obtain ⟨v, r, hmem⟩ := h
  exact ⟨v, r, hsub hmem⟩

theorem grows_storePart {session : MultipartSession} {n : Int}
    (hloaded : Loaded svc uploadId count session log) (hn : 0 ≤ n ∧ n < session.chunkCount) :
    (storePart svc session n body).wp (partLogs svc uploadId count n.toNat body)
      (Grows (fun _ log' => WrittenIn uploadId log' "part_hashes" ∧
        WrittenIn uploadId log' "uploaded") log) log := by
  refine grows_bind (grows_request trivial) ?_
  rintro h log₁ hsub ⟨hput, hdigest⟩
  obtain rfl : h = svc.sha256 body := hdigest h rfl
  have hloaded₁ : Loaded svc uploadId count session log₁ := by
    obtain ⟨hredis, hid, hchunks, ⟨hlen, t, ht, hread⟩, hlen', t', ht', hread'⟩ := hloaded
    exact ⟨hredis, hid, hchunks, ⟨hlen, t, ht, hsub hread⟩, ⟨hlen', t', ht', hsub hread'⟩⟩
  refine grows_bind (grows_saveToRedis hloaded₁ hn ⟨body, hput⟩) ?_
  rintro _ log₂ - ⟨hhashes, hflags⟩
  refine grows_bind (grows_request trivial) fun _ log₃ hsub₃ _ => ?_
  refine wp_mono (grows_reads (reads_setJson svc _)) ?_
  rintro r log₄ ⟨hsub₄, -⟩
  have hsub' : log₂ ⊆ log₄ := List.Subset.trans hsub₃ hsub₄
  exact ⟨hsub₄, fun _ _ => ⟨writtenIn_subset hhashes hsub', writtenIn_subset hflags hsub'⟩⟩

/-- A refusal is not a 200. -/
theorem grows_refused {pre : Log → Call → Prop} {valid : (c : Call) → Except Exn c.Resp → Prop}
    {code : Int} (hcode : code ≠ 200) (msg : Bytes) :
    (svc.setError code msg).wp (logInterface pre valid)
      (Grows (fun resp _ => resp.statusCode ≠ 200) log) log := by
  refine wp_setError svc code msg ?_ ?_
  · intro resp hresp
    refine ⟨List.Subset.refl log, ?_⟩
    rintro _ ⟨⟩
    rw [hresp]
    exact hcode
  · intro e
    refine ⟨List.Subset.refl log, ?_⟩
    rintro _ ⟨⟩

theorem grows_requireSession (hjson : svc.json.Lawful) (hcount : count < 2 ^ 31)
    (req : HttpRequest) :
    (requireSession svc req uploadId).wp (partLogs svc uploadId count part body)
      (Grows (fun found log' => match found with
        | .ok session => Loaded svc uploadId count session log'
        | .error resp => resp.statusCode ≠ 200) log) log := by
  refine grows_bind (grows_loadFromRedis hjson hcount) fun session log₁ _ hsession => ?_
  split
  · exact grows_bind (grows_refused (by decide) _) fun resp _ _ hresp => grows_pure hresp
  · rename_i hid
    split
    · exact grows_bind (grows_refused (by decide) _) fun resp _ _ hresp => grows_pure hresp
    · exact grows_pure (hsession.resolve_left hid)

/-- The arrays are written, if this is a 200. -/
def Recorded (uploadId : Bytes) (resp : HttpResponse) (log : Log) : Prop :=
  resp.statusCode = 200 →
    WrittenIn uploadId log "part_hashes" ∧ WrittenIn uploadId log "uploaded"

theorem grows_unrecorded {code : Int} (hcode : code ≠ 200) (msg : Bytes) :
    (svc.setError code msg).wp (partLogs svc uploadId count part body)
      (Grows (Recorded uploadId) log) log := by
  refine wp_mono (grows_refused hcode msg) ?_
  rintro r log' ⟨hsub, hresp⟩
  exact ⟨hsub, fun resp hr hok => absurd hok (hresp resp hr)⟩

/-- A request for a part: answered 200, it has written both arrays. -/
theorem grows_handleUploadPart (hjson : svc.json.Lawful) (hcount : count < 2 ^ 31)
    {req : HttpRequest} (hid : req.getPathParam (ascii "upload_id") = uploadId) :
    (handleUploadPart svc req).wp (partLogs svc uploadId count (partIndex req) req.body)
      (Grows (Recorded uploadId) log) log := by
  refine wp_catch (M := Grows (Recorded uploadId) log) ?_ (fun resp log' h => h) ?_
  swap
  · rintro e log' ⟨hsub, -⟩
    refine wp_mono (grows_unrecorded (by decide) _) ?_
    rintro r log'' ⟨hsub', hr⟩
    exact ⟨List.Subset.trans hsub hsub', hr⟩
  split
  · exact grows_unrecorded (by decide) _
  dsimp only
  rw [hid]
  split
  · exact grows_unrecorded (by decide) _
  cases hsto : stoi (req.getPathParam (ascii "part_num")) with
  | error e => exact grows_raise _
  | ok n =>
      have hpart : n.toNat = partIndex req := by
        rw [partIndex, hsto]
        rfl
      show (if req.body = [] then _ else _ : App HttpResponse).wp _ _ _
      split
      · exact grows_unrecorded (by decide) _
      refine grows_bind (grows_requireSession hjson hcount req) fun found log₁ _ hfound => ?_
      cases found with
      | error resp => exact grows_pure fun hok => absurd hok hfound
      | ok session =>
          dsimp only
          split
          · exact grows_unrecorded (by decide) _
          · rename_i hrange
            split
            · exact grows_unrecorded (by decide) _
            · rw [← hpart]
              refine wp_mono (grows_storePart hfound (by omega)) ?_
              rintro r log₂ ⟨hsub, hwritten⟩
              exact ⟨hsub, fun resp hr _ => hwritten resp hr⟩

/-- The two programs of a run end as promised. -/
theorem wp_partRequest (hjson : svc.json.Lawful) (hcount : count < 2 ^ 31) {req : HttpRequest}
    (hid : req.getPathParam (ascii "upload_id") = uploadId) :
    (partRequest svc req).wp (partLogs svc uploadId count (partIndex req) req.body)
      (PartEnds svc uploadId) [] := by
  refine wp_seq (grows_handleUploadPart hjson hcount hid) ?_ fun _ _ _ => trivial
  rintro resp log ⟨-, hresp⟩
  exact hresp resp rfl

theorem wp_loadRequest (hjson : svc.json.Lawful) (hcount : count < 2 ^ 31) :
    (loadRequest svc uploadId).wp (partLogs svc uploadId count part body)
      (PartEnds svc uploadId) [] := by
  refine wp_seq (grows_loadFromRedis hjson hcount) ?_ fun _ _ _ => trivial
  rintro session log ⟨-, hsession⟩
  rcases hsession session rfl with hnone | hloaded
  · exact Or.inl hnone
  · exact Or.inr ⟨hloaded.hashes.2, hloaded.flags.2⟩

end Discipline

/-! ## The run -/

section Run

theorem getD_set_self {α : Type} {xs : List α} {n : Nat} (h : n < xs.length) (a d : α) :
    (xs.set n a).getD n d = a := by
  simp [List.getD_eq_getElem?_getD, h]

theorem getD_set_ne {α : Type} {xs : List α} {n i : Nat} (h : i ≠ n) (a d : α) :
    (xs.set n a).getD i d = xs.getD i d := by
  simp [List.getD_eq_getElem?_getD, List.getElem?_set_ne h.symm]

variable {ι : Type} (svc : Services) (uploadId : Bytes) (count : Nat)
  (reqs : ι → HttpRequest) (before : Nat → Bytes → Prop)

/-- The hash of a body taken for part `i`: before the run, or by a request of
the run that passed its checks and stored it. -/
def AcceptedHash (P : Pool ι Call Call.Resp Exn Reply) (i : Nat) (h : Bytes) : Prop :=
  ∃ body, h = svc.sha256 body ∧ (before i body ∨
    ∃ j, partIndex (reqs j) = i ∧ (reqs j).body = body ∧ StoredIn (P j).log h)

/-- A request writes an array while its own copy records every other part that
Redis records. -/
structure UpToDate (w : World) (P : Pool ι Call Call.Resp Exn Reply) (j : ι) (c : Call)
    (_ : World) : Prop where
  hashes : ∀ v, c = .hset (sessionKey uploadId) (ascii "part_hashes") v → ∀ now t old t',
    HashText svc now t → hget w (sessionKey uploadId) (ascii "part_hashes") = some t →
    HashText svc old t' → ReadIn uploadId (P j).log "part_hashes" t' →
    ∀ i, i ≠ partIndex (reqs j) → now.getD i [] ≠ [] → old.getD i [] ≠ []
  flags : ∀ v, c = .hset (sessionKey uploadId) (ascii "uploaded") v → ∀ now t old t',
    FlagText svc now t → hget w (sessionKey uploadId) (ascii "uploaded") = some t →
    FlagText svc old t' → ReadIn uploadId (P j).log "uploaded" t' →
    ∀ i, i ≠ partIndex (reqs j) → now.getD i false = true → old.getD i false = true

/-- The session in Redis: arrays of one length, every entry a hash of an
accepted body. -/
structure SessionSound (w : World) (hs : List Bytes) (fs : List Bool) : Prop where
  hashKey : HashKey w (sessionKey uploadId)
  chunkCount : hget w (sessionKey uploadId) (ascii "chunk_count") = some (decimal count)
  hashes : hs.length = count ∧ ∃ t, HashText svc hs t ∧
    hget w (sessionKey uploadId) (ascii "part_hashes") = some t
  flags : fs.length = count ∧ ∃ t, FlagText svc fs t ∧
    hget w (sessionKey uploadId) (ascii "uploaded") = some t

/-- The invariant: entries and copies of them are hashes of accepted bodies,
and what a request has written is recorded. -/
structure PartsSafe (w : World) (P : Pool ι Call Call.Resp Exn Reply) (hs : List Bytes)
    (fs : List Bool) : Prop where
  session : SessionSound svc uploadId count w hs fs
  accepted : ∀ i, hs.getD i [] ≠ [] → AcceptedHash svc reqs before P i (hs.getD i [])
  hashWritten : ∀ j, WrittenIn uploadId (P j).log "part_hashes" →
    hs.getD (partIndex (reqs j)) [] ≠ []
  flagWritten : ∀ j, WrittenIn uploadId (P j).log "uploaded" →
    fs.getD (partIndex (reqs j)) false = true
  copies : ∀ j hs' t, HashText svc hs' t → ReadIn uploadId (P j).log "part_hashes" t →
    ∀ i, hs'.getD i [] ≠ [] → AcceptedHash svc reqs before P i (hs'.getD i [])
  follows : ∀ j, Follows (partDisciplined svc uploadId count (partIndex (reqs j)) (reqs j).body)
    (PartExpected svc uploadId count) (PartEnds svc uploadId) (P j)

variable {svc uploadId count reqs before} {pg : Postgres} {w w' : World}
  {P : Pool ι Call Call.Resp Exn Reply} {hs : List Bytes} {fs : List Bool}

theorem AcceptedHash.mono {P' : Pool ι Call Call.Resp Exn Reply} {i : Nat} {h : Bytes}
    (ha : AcceptedHash svc reqs before P i h) (hP : ∀ j, (P j).log ⊆ (P' j).log) :
    AcceptedHash svc reqs before P' i h := by
  obtain ⟨body, hbody, hwhen⟩ := ha
  refine ⟨body, hbody, hwhen.imp_right ?_⟩
  rintro ⟨j, hpart, hreq, data, hmem⟩
  exact ⟨j, hpart, hreq, data, hP j hmem⟩

variable [DecidableEq ι]

theorem log_subset_advance (P : Pool ι Call Call.Resp Exn Reply) (i j : ι) (c : Call)
    (r : Except Exn c.Resp) (next : App Reply) : (P j).log ⊆ (P.advance i c r next j).log :=
  fun _ he => Pool.mem_log_advance.mpr (Or.inl he)

theorem partExpected_of_exec (hsession : SessionSound svc uploadId count w hs fs) {c : Call}
    {r : Except Exn c.Resp} (h : exec svc pg c w = (r, w')) :
    PartExpected svc uploadId count c r := by
  cases c with
  | hget key field =>
      rintro rfl
      have hr : r = .ok (hget w (sessionKey uploadId) field) := (congrArg Prod.fst h).symm
      obtain ⟨-, hcount, ⟨hlen, t, ht, hget⟩, hlen', t', ht', hget'⟩ := hsession
      refine ⟨?_, ?_, ?_⟩
      · rintro rfl
        exact ⟨hs, t, hlen, ht, by rw [hr, hget]⟩
      · rintro rfl
        exact ⟨fs, t', hlen', ht', by rw [hr, hget']⟩
      · rintro rfl
        rw [hr, hcount]
  | put data =>
      rintro x rfl
      rcases exec_put h with ⟨-, ⟨hr, -⟩ | ⟨hr, -⟩⟩ | ⟨hr, -⟩
      · cases hr
      · exact Except.ok.inj hr
      · exact Except.ok.inj hr
  | jsonParse t =>
      intro j hj
      exact (congrArg Prod.fst (h.symm.trans (exec_jsonParse hj)))
  | _ => trivial

/-- The field a `HSET` names is the only one it changes. -/
theorem hget_hset_field {field value f : Bytes} (hkey : HashKey w (sessionKey uploadId))
    (hfield : cstr field = field) (hvalue : NUL ∉ value) (hf : cstr f = f) :
    hget (hset (sessionKey uploadId) field value w).2 (sessionKey uploadId) f =
      if f = field then some value else hget w (sessionKey uploadId) f := by
  rw [hget_hset hkey, hfield, hf, cstr_of_not_mem hvalue]

omit [DecidableEq ι] in
theorem SessionSound.congr (h : SessionSound svc uploadId count w hs fs)
    (hredis : w'.redis = w.redis) : SessionSound svc uploadId count w' hs fs := by
  have hfields : ∀ key field, hget w' key field = hget w key field := by
    intro key field
    rw [hget, hget, hredis]
  obtain ⟨hkey, hcount, ⟨hlen, t, ht, htext⟩, hlen', t', ht', htext'⟩ := h
  refine ⟨?_, ?_, ⟨hlen, t, ht, ?_⟩, hlen', t', ht', ?_⟩
  · intro v hv
    rw [hredis] at hv
    exact hkey v hv
  · rw [hfields]
    exact hcount
  · rw [hfields]
    exact htext
  · rw [hfields]
    exact htext'

/-- A field that is written back: the array of hashes or of flags, from the copy of the
request and with its part recorded, or another field. -/
theorem SessionSound.hset {part : Nat} {body field value : Bytes} {log : Log}
    (hjson : svc.json.Lawful) (h : SessionSound svc uploadId count w hs fs)
    (hdis : partDisciplined svc uploadId count part body log
      (.hset (sessionKey uploadId) field value)) :
    (∃ old t, field = ascii "part_hashes" ∧ StoredIn log (svc.sha256 body) ∧ HashText svc old t ∧
      ReadIn uploadId log "part_hashes" t ∧ part < old.length ∧
      SessionSound svc uploadId count (Metadata.hset (sessionKey uploadId) field value w).2
        (old.set part (svc.sha256 body)) fs) ∨
    (∃ old t, field = ascii "uploaded" ∧ FlagText svc old t ∧ ReadIn uploadId log "uploaded" t ∧
      part < old.length ∧ FlagText svc (old.set part true) value ∧
      SessionSound svc uploadId count (Metadata.hset (sessionKey uploadId) field value w).2 hs
        (old.set part true)) ∨
    (field ≠ ascii "part_hashes" ∧ field ≠ ascii "uploaded" ∧
      SessionSound svc uploadId count (Metadata.hset (sessionKey uploadId) field value w).2 hs fs) := by
  obtain ⟨hkey, hcount, ⟨hlen, t, ht, htext⟩, hlen', t', ht', htext'⟩ := h
  obtain ⟨-, hname, hpart, hwrites⟩ := hdis
  have hkey' := @hashKey_hset w (sessionKey uploadId) field value hkey
  have hfield : NUL ∉ value → ∀ f, cstr f = f →
      hget (Metadata.hset (sessionKey uploadId) field value w).2 (sessionKey uploadId) f =
        if f = field then some value else hget w (sessionKey uploadId) f :=
    fun hnul f hf => hget_hset_field hkey hname hnul hf
  -- each array is written from the copy of the request, and the other one stays
  by_cases hfh : field = ascii "part_hashes"
  · subst hfh
    obtain ⟨hstored, old, told, holdlen, hold, hread, hnew⟩ := hwrites.hashes rfl
    have hget₁ := hfield (hjson.parse_dump (isFlat_hashArray _) hnew).1
    refine Or.inl ⟨old, told, rfl, hstored, hold, hread, by omega, hkey', ?_, ⟨?_, value, hnew, ?_⟩,
      hlen', t', ht', ?_⟩
    · rw [hget₁ (ascii "chunk_count") (by decide), if_neg (by decide)]
      exact hcount
    · rw [List.length_set]
      exact holdlen
    · rw [hget₁ (ascii "part_hashes") (by decide), if_pos rfl]
    · rw [hget₁ (ascii "uploaded") (by decide), if_neg (by decide)]
      exact htext'
  by_cases hff : field = ascii "uploaded"
  · subst hff
    obtain ⟨old, told, holdlen, hold, hread, hnew⟩ := hwrites.flags rfl
    have hget₁ := hfield (hjson.parse_dump (isFlat_flagArray _) hnew).1
    refine Or.inr (Or.inl ⟨old, told, rfl, hold, hread, by omega, hnew, hkey', ?_,
      ⟨hlen, t, ht, ?_⟩, ?_, value, hnew, ?_⟩)
    · rw [hget₁ (ascii "chunk_count") (by decide), if_neg (by decide)]
      exact hcount
    · rw [hget₁ (ascii "part_hashes") (by decide), if_neg (by decide)]
      exact htext
    · rw [List.length_set]
      exact holdlen
    · rw [hget₁ (ascii "uploaded") (by decide), if_pos rfl]
  · have hother : ∀ f, cstr f = f → f ≠ field →
        hget (Metadata.hset (sessionKey uploadId) field value w).2 (sessionKey uploadId) f =
          hget w (sessionKey uploadId) f := by
      intro f hf hff'
      rw [hget_hset hkey, hname, hf, if_neg hff']
    refine Or.inr (Or.inr ⟨hfh, hff, hkey', ?_, ⟨hlen, t, ht, ?_⟩, hlen', t', ht', ?_⟩)
    · by_cases hfc : field = ascii "chunk_count"
      · subst hfc
        obtain rfl := hwrites.count rfl
        rw [hfield (nul_not_mem_decimal count) (ascii "chunk_count") (by decide), if_pos rfl]
      · rw [hother (ascii "chunk_count") (by decide) (Ne.symm hfc)]
        exact hcount
    · rw [hother (ascii "part_hashes") (by decide) (Ne.symm hfh)]
      exact htext
    · rw [hother (ascii "uploaded") (by decide) (Ne.symm hff)]
      exact htext'

/-- A step that leaves Redis alone. -/
theorem partsSafe_keep {i : ι} {c : Call} {k : Except Exn c.Resp → App Reply}
    {r : Except Exn c.Resp} (hjson : svc.json.Lawful)
    (hsafe : PartsSafe svc uploadId count reqs before w P hs fs) (hp : (P i).prog = .call c k)
    (hexec : exec svc pg c w = (r, w')) (hc : touchesRedis c = false) :
    PartsSafe svc uploadId count reqs before w' (P.advance i c r (k r)) hs fs := by
  have hgrow : ∀ j, (P j).log ⊆ (P.advance i c r (k r) j).log :=
    fun j => log_subset_advance P i j c r (k r)
  have hwritten : ∀ j field, WrittenIn uploadId (P.advance i c r (k r) j).log field →
      WrittenIn uploadId (P j).log field := by
    rintro j field ⟨v, r', hmem⟩
    rcases Pool.mem_log_advance.mp hmem with hold | ⟨-, heq⟩
    · exact ⟨v, r', hold⟩
    · cases heq
      cases hc
  obtain ⟨hsession, hacc, hhash, hflag, hcopies, hfollows⟩ := hsafe
  refine ⟨hsession.congr (exec_redis hc hexec), fun x hx => (hacc x hx).mono hgrow,
    fun j hj => hhash j (hwritten j _ hj), fun j hj => hflag j (hwritten j _ hj), ?_, ?_⟩
  · intro j hs' t' ht' hread x hx
    rcases Pool.mem_log_advance.mp hread with hold | ⟨-, heq⟩
    · exact (hcopies j hs' t' ht' hold x hx).mono hgrow
    · -- the copy is what Redis holds now
      cases heq
      obtain ⟨-, t, ht, htext⟩ := hsession.hashes
      have hr : hget w (sessionKey uploadId) (ascii "part_hashes") = some t' :=
        Except.ok.inj (congrArg Prod.fst hexec)
      rw [htext] at hr
      cases hr
      obtain rfl := hashText_injective hjson ht' ht
      exact (hacc x hx).mono hgrow
  · exact Follows.advance hfollows hp (partExpected_of_exec hsession hexec)

/-- A step that writes a field of the session. -/
theorem partsSafe_hset {i : ι} {field value : Bytes}
    {k : Except Exn Bool → App Reply} {r : Except Exn Bool}
    (hjson : svc.json.Lawful) (hne : ∀ d, svc.sha256 d ≠ [])
    (hsafe : PartsSafe svc uploadId count reqs before w P hs fs)
    (hp : (P i).prog = .call (.hset (sessionKey uploadId) field value) k)
    (hexec : exec svc pg (.hset (sessionKey uploadId) field value) w = (r, w'))
    (hcond : UpToDate svc uploadId reqs w P i (.hset (sessionKey uploadId) field value) w') :
    ∃ hs' fs', PartsSafe svc uploadId count reqs before w'
      (P.advance i (.hset (sessionKey uploadId) field value) r (k r)) hs' fs' := by
  obtain ⟨hsession, hacc, hhash, hflag, hcopies, hfollows⟩ := hsafe
  obtain rfl : (Metadata.hset (sessionKey uploadId) field value w).2 = w' := congrArg Prod.snd hexec
  have hgrow : ∀ j, (P j).log ⊆
      (P.advance i (.hset (sessionKey uploadId) field value) r (k r) j).log :=
    fun j => log_subset_advance P i j (.hset (sessionKey uploadId) field value) r (k r)
  -- what a log says about writing changes only for the field that is written
  have hwritten : ∀ j f, WrittenIn uploadId
      (P.advance i (.hset (sessionKey uploadId) field value) r (k r) j).log f →
      WrittenIn uploadId (P j).log f ∨ j = i ∧ field = ascii f := by
    rintro j f ⟨v, r', hmem⟩
    rcases Pool.mem_log_advance.mp hmem with hold | ⟨hj, heq⟩
    · exact Or.inl ⟨v, r', hold⟩
    · cases heq
      exact Or.inr ⟨hj, rfl⟩
  have hcopies' : ∀ j hs' t, HashText svc hs' t → ReadIn uploadId
      (P.advance i (.hset (sessionKey uploadId) field value) r (k r) j).log "part_hashes" t →
      ∀ x, hs'.getD x [] ≠ [] → AcceptedHash svc reqs before
        (P.advance i (.hset (sessionKey uploadId) field value) r (k r)) x (hs'.getD x []) := by
    intro j hs' t ht hread x hx
    rcases Pool.mem_log_advance.mp hread with hold | ⟨-, heq⟩
    · exact (hcopies j hs' t ht hold x hx).mono hgrow
    · cases heq
  have hfollows' : ∀ j, Follows
      (partDisciplined svc uploadId count (partIndex (reqs j)) (reqs j).body)
      (PartExpected svc uploadId count) (PartEnds svc uploadId)
      (P.advance i (.hset (sessionKey uploadId) field value) r (k r) j) :=
    Follows.advance hfollows hp trivial
  have hfinish : ∀ hs' fs', SessionSound svc uploadId count
        (Metadata.hset (sessionKey uploadId) field value w).2 hs' fs' →
      (∀ x, hs'.getD x [] ≠ [] → AcceptedHash svc reqs before
        (P.advance i (.hset (sessionKey uploadId) field value) r (k r)) x (hs'.getD x [])) →
      (∀ j, WrittenIn uploadId (P j).log "part_hashes" ∨ j = i ∧ field = ascii "part_hashes" →
        hs'.getD (partIndex (reqs j)) [] ≠ []) →
      (∀ j, WrittenIn uploadId (P j).log "uploaded" ∨ j = i ∧ field = ascii "uploaded" →
        fs'.getD (partIndex (reqs j)) false = true) →
      ∃ hs' fs', PartsSafe svc uploadId count reqs before
        (Metadata.hset (sessionKey uploadId) field value w).2
        (P.advance i (.hset (sessionKey uploadId) field value) r (k r)) hs' fs' :=
    fun hs' fs' hs₁ ha hh hf => ⟨hs', fs', hs₁, ha, fun j hj => hh j (hwritten j _ hj),
      fun j hj => hf j (hwritten j _ hj), hcopies', hfollows'⟩
  have hacc' := fun x hx => (hacc x hx).mono hgrow
  obtain ⟨-, -, ⟨-, t, ht, htext⟩, -, t', ht', htext'⟩ := id hsession
  rcases hsession.hset hjson ((hfollows i).pre_call hp) with
    ⟨old, told, rfl, hstored, hold, hread, hlt, hsession'⟩ |
    ⟨old, told, rfl, hold, hread, hlt, -, hsession'⟩ | ⟨hfh, hff, hsession'⟩
  · have hself : (old.set (partIndex (reqs i)) (svc.sha256 (reqs i).body)).getD
        (partIndex (reqs i)) [] = svc.sha256 (reqs i).body := getD_set_self hlt _ _
    refine hfinish _ fs hsession' ?_ ?_ ?_
    · intro x hx
      by_cases hxp : x = partIndex (reqs i)
      · subst hxp
        rw [hself]
        refine ⟨(reqs i).body, rfl, Or.inr ⟨i, rfl, rfl, ?_⟩⟩
        obtain ⟨data, hmem⟩ := hstored
        exact ⟨data, hgrow i hmem⟩
      · rw [getD_set_ne hxp] at hx ⊢
        exact (hcopies i old told hold hread x hx).mono hgrow
    · intro j hj
      by_cases hxp : partIndex (reqs j) = partIndex (reqs i)
      · rw [hxp, hself]
        exact hne _
      · rw [getD_set_ne hxp]
        rcases hj with hj | ⟨rfl, -⟩
        · exact hcond.hashes value rfl hs t old told ht htext hold hread _ hxp (hhash j hj)
        · exact absurd rfl hxp
    · rintro j (hj | ⟨-, hf⟩)
      · exact hflag j hj
      · exact absurd hf (by decide)
  · refine hfinish hs _ hsession' hacc' ?_ ?_
    · rintro j (hj | ⟨-, hf⟩)
      · exact hhash j hj
      · exact absurd hf (by decide)
    · intro j hj
      by_cases hxp : partIndex (reqs j) = partIndex (reqs i)
      · rw [hxp]
        exact getD_set_self hlt _ _
      · rw [getD_set_ne hxp]
        rcases hj with hj | ⟨rfl, -⟩
        · exact hcond.flags value rfl fs t' old told ht' htext' hold hread _ hxp (hflag j hj)
        · exact absurd rfl hxp
  · refine hfinish hs fs hsession' hacc' ?_ ?_
    · rintro j (hj | ⟨-, hf⟩)
      · exact hhash j hj
      · exact absurd hf hfh
    · rintro j (hj | ⟨-, hf⟩)
      · exact hflag j hj
      · exact absurd hf hff

theorem partsSafe_step {i : ι} {c : Call} {k : Except Exn c.Resp → App Reply}
    {r : Except Exn c.Resp} (hjson : svc.json.Lawful) (hne : ∀ d, svc.sha256 d ≠ [])
    (hsafe : ∃ hs fs, PartsSafe svc uploadId count reqs before w P hs fs)
    (hp : (P i).prog = .call c k) (hexec : exec svc pg c w = (r, w'))
    (hcond : UpToDate svc uploadId reqs w P i c w') :
    ∃ hs fs, PartsSafe svc uploadId count reqs before w' (P.advance i c r (k r)) hs fs := by
  obtain ⟨hs, fs, hsafe⟩ := hsafe
  have hdis := (hsafe.follows i).pre_call hp
  cases c with
  | hset key field value =>
      obtain rfl : key = sessionKey uploadId := hdis.1
      exact partsSafe_hset hjson hne hsafe hp hexec hcond
  | redisSet key value ttl => exact absurd hdis id
  | redisDel key => exact absurd hdis id
  | _ => exact ⟨hs, fs, partsSafe_keep hjson hsafe hp hexec rfl⟩

/-- Part `i` is recorded, and whatever process `l` has read of the arrays has
it. -/
structure Acknowledged (svc : Services) (uploadId : Bytes) (reqs : ι → HttpRequest) (a l : ι)
    (P : Pool ι Call Call.Resp Exn Reply) : Prop where
  hashWritten : WrittenIn uploadId (P a).log "part_hashes"
  flagWritten : WrittenIn uploadId (P a).log "uploaded"
  hashRead : ∀ hs t, HashText svc hs t → ReadIn uploadId (P l).log "part_hashes" t →
    hs.getD (partIndex (reqs a)) [] ≠ []
  flagRead : ∀ fs t, FlagText svc fs t → ReadIn uploadId (P l).log "uploaded" t →
    fs.getD (partIndex (reqs a)) false = true

theorem acknowledged_step {a l i : ι} {c : Call} {k : Except Exn c.Resp → App Reply}
    {r : Except Exn c.Resp} (hjson : svc.json.Lawful)
    (hsafe : PartsSafe svc uploadId count reqs before w P hs fs)
    (hack : Acknowledged svc uploadId reqs a l P) (hexec : exec svc pg c w = (r, w')) :
    Acknowledged svc uploadId reqs a l (P.advance i c r (k r)) := by
  have hgrow : ∀ j, (P j).log ⊆ (P.advance i c r (k r) j).log :=
    fun j => log_subset_advance P i j c r (k r)
  obtain ⟨-, -, ⟨-, t, ht, htext⟩, -, t', ht', htext'⟩ := hsafe.session
  refine ⟨writtenIn_subset hack.hashWritten (hgrow a), writtenIn_subset hack.flagWritten (hgrow a),
    ?_, ?_⟩
  · intro hs' u hu hread
    rcases Pool.mem_log_advance.mp hread with hold | ⟨-, heq⟩
    · exact hack.hashRead hs' u hu hold
    · cases heq
      have hr : hget w (sessionKey uploadId) (ascii "part_hashes") = some u :=
        Except.ok.inj (congrArg Prod.fst hexec)
      rw [htext] at hr
      cases hr
      rw [hashText_injective hjson hu ht]
      exact hsafe.hashWritten a hack.hashWritten
  · intro fs' u hu hread
    rcases Pool.mem_log_advance.mp hread with hold | ⟨-, heq⟩
    · exact hack.flagRead fs' u hu hold
    · cases heq
      have hr : hget w (sessionKey uploadId) (ascii "uploaded") = some u :=
        Except.ok.inj (congrArg Prod.fst hexec)
      rw [htext'] at hr
      cases hr
      rw [flagText_injective hjson hu ht']
      exact hsafe.flagWritten a hack.flagWritten

omit [DecidableEq ι] in
theorem partsSafe_start (hjson : svc.json.Lawful) (hcount : count < 2 ^ 31)
    (hsession : SessionSound svc uploadId count w hs fs)
    (hbefore : ∀ i, hs.getD i [] ≠ [] → ∃ body, hs.getD i [] = svc.sha256 body ∧ before i body)
    (hstart : ∀ i, (P i).log = [] ∧ ((P i).prog = loadRequest svc uploadId ∨
      (P i).prog = partRequest svc (reqs i) ∧
        (reqs i).getPathParam (ascii "upload_id") = uploadId)) :
    PartsSafe svc uploadId count reqs before w P hs fs := by
  have hempty : ∀ j e, e ∉ (P j).log := by
    intro j e he
    rw [(hstart j).1] at he
    exact absurd he List.not_mem_nil
  refine ⟨hsession, ?_, ?_, ?_, ?_, ?_⟩
  · intro i hi
    obtain ⟨body, hbody, hb⟩ := hbefore i hi
    exact ⟨body, hbody, Or.inl hb⟩
  · rintro j ⟨v, r, hmem⟩
    exact absurd hmem (hempty j _)
  · rintro j ⟨v, r, hmem⟩
    exact absurd hmem (hempty j _)
  · intro j hs' t _ hread
    exact absurd hread (hempty j _)
  · intro j
    obtain ⟨hlog, hload | ⟨hpart, hid⟩⟩ := hstart j
    · rw [Follows, hlog, hload]
      exact wp_loadRequest hjson hcount
    · rw [Follows, hlog, hpart]
      exact wp_partRequest hjson hcount hid

/-- **No acknowledged part is lost** in a run in which every request writes the
arrays back while its copy of them is up to date: a load that begins after a
200 for part `i` and finds the session finds that part, with the hash of a body
accepted for it. -/
theorem loaded_after_answer (hjson : svc.json.Lawful) (hdigest : ∀ d, svc.digest d ≠ [])
    (hcount : count < 2 ^ 31) {w₀ : World} {P₀ P' : Pool ι Call Call.Resp Exn Reply}
    (hsession : SessionSound svc uploadId count w₀ hs fs)
    (hbefore : ∀ i, hs.getD i [] ≠ [] → ∃ body, hs.getD i [] = svc.sha256 body ∧ before i body)
    (hstart : ∀ i, (P₀ i).log = [] ∧ ((P₀ i).prog = loadRequest svc uploadId ∨
      (P₀ i).prog = partRequest svc (reqs i) ∧
        (reqs i).getPathParam (ascii "upload_id") = uploadId))
    (hrun : Pool.Run (exec svc pg) (UpToDate svc uploadId reqs) w₀ P₀ w P) {a l : ι}
    {resp : HttpResponse} (hanswered : (P a).prog = .ret (.answered resp))
    (hok : resp.statusCode = 200) (hlater : (P l).log = [])
    (hrun' : Pool.Run (exec svc pg) (UpToDate svc uploadId reqs) w P w' P')
    {session : MultipartSession} (hloaded : (P' l).prog = .ret (.loaded session))
    (hexists : session.uploadId ≠ []) :
    session.uploaded.getD (partIndex (reqs a)) false = true ∧
      AcceptedHash svc reqs before P' (partIndex (reqs a))
        (session.partHashes.getD (partIndex (reqs a)) []) := by
  have hne : ∀ d, svc.sha256 d ≠ [] := fun d => sha256_ne_nil hdigest d
  have hsafe : ∃ hs fs, PartsSafe svc uploadId count reqs before w P hs fs :=
    hrun.invariant (fun w P => ∃ hs fs, PartsSafe svc uploadId count reqs before w P hs fs)
      ⟨hs, fs, partsSafe_start hjson hcount hsession hbefore hstart⟩
      fun hinv hcall hexec hcond => partsSafe_step hjson hne hinv hcall hexec hcond
  obtain ⟨hs₁, fs₁, hsafe₁⟩ := hsafe
  have hack : Acknowledged svc uploadId reqs a l P := by
    have hends : Recorded uploadId resp (P a).log := (hsafe₁.follows a).done hanswered
    refine ⟨(hends hok).1, (hends hok).2, fun hs t _ hread => ?_, fun fs t _ hread => ?_⟩
    · rw [ReadIn, hlater] at hread
      exact absurd hread List.not_mem_nil
    · rw [ReadIn, hlater] at hread
      exact absurd hread List.not_mem_nil
  have hboth : (∃ hs fs, PartsSafe svc uploadId count reqs before w' P' hs fs) ∧
      Acknowledged svc uploadId reqs a l P' := by
    refine hrun'.invariant (fun w P =>
      (∃ hs fs, PartsSafe svc uploadId count reqs before w P hs fs) ∧
        Acknowledged svc uploadId reqs a l P) ⟨⟨hs₁, fs₁, hsafe₁⟩, hack⟩ ?_
    rintro s s' Q i c k r ⟨⟨hs₂, fs₂, hsafe₂⟩, hack₂⟩ hcall hexec hcond
    exact ⟨partsSafe_step hjson hne ⟨hs₂, fs₂, hsafe₂⟩ hcall hexec hcond,
      acknowledged_step hjson hsafe₂ hack₂ hexec⟩
  obtain ⟨⟨hs₃, fs₃, hsafe₃⟩, hack₃⟩ := hboth
  have hends : PartEnds svc uploadId (.ok (.loaded session)) (P' l).log :=
    (hsafe₃.follows l).done hloaded
  obtain ⟨⟨t, ht, hread⟩, t', ht', hread'⟩ := hends.resolve_left hexists
  exact ⟨hack₃.flagRead _ t' ht' hread',
    hsafe₃.copies l _ t ht hread _ (hack₃.hashRead _ t ht hread)⟩

end Run

/-! ### Two parts -/

/-- A session of two parts of one byte, none there yet. -/
def twoParts : MultipartSession :=
  { uploadId := ascii "s", userId := aliceId.text, fileName := ascii "xy.txt"
    mimeType := ascii "text/plain", totalSize := 2, chunkSize := 1, chunkCount := 2
    uploaded := [false, false], partHashes := [[], []] }

def openSession : World :=
  { oneFile with
    redis := fun key =>
      if key = sessionKey (ascii "s") then
        some (.hash fun f => (sessionFields twoParts (ascii "[\"\",\"\"]")
          (ascii "[false,false]")).lookup f)
      else none }

/-- Request 0 brings `x` for part 0, request 1 brings `y` for part 1. -/
def partBody (i : Fin 3) : HttpRequest :=
  { body := if i = 0 then ascii "x" else ascii "y"
    authUserId := aliceId.text
    pathParams := [(ascii "upload_id", ascii "s"), (ascii "part_num", decimal i)] }

/-- The two requests, and a load. -/
def twoRequests : Pool (Fin 3) Call Call.Resp Exn Reply := fun i =>
  { log := []
    prog :=
      if i = 2 then loadRequest sampleServices (ascii "s")
      else partRequest sampleServices (partBody i) }

theorem twoRequests_start (i : Fin 3) : (twoRequests i).log = [] ∧
    ((twoRequests i).prog = loadRequest sampleServices (ascii "s") ∨
      (twoRequests i).prog = partRequest sampleServices (partBody i) ∧
        (partBody i).getPathParam (ascii "upload_id") = ascii "s") := by
  refine ⟨rfl, ?_⟩
  by_cases hi : i = 2
  · exact Or.inl (if_pos hi)
  · exact Or.inr ⟨if_neg hi, rfl⟩

theorem openSession_sound :
    SessionSound sampleServices (ascii "s") 2 openSession [[], []] [false, false] := by
  have hhashes : sampleServices.json.dump (hashArray [[], []]) = .ok (ascii "[\"\",\"\"]") := by
    decide +kernel
  have hflags : sampleServices.json.dump (flagArray [false, false]) = .ok (ascii "[false,false]") := by
    decide +kernel
  refine ⟨?_, by decide +kernel, ⟨rfl, _, hhashes, by decide +kernel⟩, rfl, _, hflags,
    by decide +kernel⟩
  intro v hv
  have hkey : cstr (sessionKey (ascii "s")) = sessionKey (ascii "s") := by decide
  rw [hkey, openSession] at hv
  dsimp only at hv
  rw [if_pos rfl] at hv
  cases hv

/-- The process still has what the field holds. -/
def stillCurrent (w : World) (P : Pool (Fin 3) Call Call.Resp Exn Reply) (i : Fin 3) (c : Call) :
    Bool :=
  match c with
  | .hset key field _ => (P i).log.all fun e =>
      match e with
      | ⟨.hget key' field', .ok (some t)⟩ =>
          key' != key || field' != field || hget w key field == some t
      | _ => true
  | _ => true

theorem read_current {w : World} {P : Pool (Fin 3) Call Call.Resp Exn Reply} {i : Fin 3}
    {field : String} {v t t' : Bytes}
    (hcheck : stillCurrent w P i (.hset (sessionKey (ascii "s")) (ascii field) v) = true)
    (ht : hget w (sessionKey (ascii "s")) (ascii field) = some t)
    (hread : ReadIn (ascii "s") (P i).log field t') : t' = t := by
  have hev := List.all_eq_true.mp hcheck _ hread
  simp only [bne_self_eq_false, Bool.false_or, beq_iff_eq] at hev
  rw [ht] at hev
  exact (Option.some.inj hev).symm

theorem upToDate_of_current {w w' : World} {P : Pool (Fin 3) Call Call.Resp Exn Reply} {i : Fin 3}
    {c : Call} (hcheck : stillCurrent w P i c = true) :
    UpToDate sampleServices (ascii "s") partBody w P i c w' := by
  refine ⟨?_, ?_⟩
  · rintro v rfl now t old t' hnow ht hold hread x - hx
    obtain rfl := read_current hcheck ht hread
    rwa [hashText_injective sampleServices_lawful hold hnow]
  · rintro v rfl now t old t' hnow ht hold hread x - hx
    obtain rfl := read_current hcheck ht hread
    rwa [flagText_injective sampleServices_lawful hold hnow]

def answeredOk (p : Worker) : Bool :=
  match p.prog with
  | .ret (.answered resp) => resp.statusCode == 200
  | _ => false

theorem answeredOk_sound {p : Worker} (h : answeredOk p = true) :
    ∃ resp, p.prog = .ret (.answered resp) ∧ resp.statusCode = 200 := by
  unfold answeredOk at h
  split at h
  · rename_i resp hp
    exact ⟨resp, hp, by simpa using h⟩
  · cases h

/-- Whether part `i` is in the session that was loaded. -/
def loadedPart (p : Worker) (i : Nat) : Option Bool :=
  match p.prog with
  | .ret (.loaded session) =>
      if session.uploadId = [] then none else some (session.uploaded.getD i false)
  | _ => none

theorem loadedPart_sound {p : Worker} {i : Nat} {b : Bool} (h : loadedPart p i = some b) :
    ∃ session, p.prog = .ret (.loaded session) ∧ session.uploadId ≠ [] ∧
      session.uploaded.getD i false = b := by
  unfold loadedPart at h
  split at h
  · rename_i session hp
    split at h
    · cases h
    · rename_i hid
      exact ⟨session, hp, hid, Option.some.inj h⟩
  · cases h

/-- Request 1 starts before request 0 and reads the arrays after it: part 0 is in the session
loaded after both. -/
theorem part_loaded_after_answer : ∃ w P w' P' session,
    Pool.Run (exec sampleServices samplePostgres) (UpToDate sampleServices (ascii "s") partBody)
      openSession twoRequests w P ∧
    Pool.Run (exec sampleServices samplePostgres) (UpToDate sampleServices (ascii "s") partBody)
      w P w' P' ∧
    (P 1).log ≠ [] ∧ (∃ resp, (P' 1).prog = .ret (.answered resp) ∧ resp.statusCode = 200) ∧
    (P' 2).prog = .ret (.loaded session) ∧
    session.uploaded.getD (partIndex (partBody 0)) false = true ∧
      AcceptedHash sampleServices partBody (fun _ _ => False) P' (partIndex (partBody 0))
        (session.partHashes.getD (partIndex (partBody 0)) []) := by
  have hrun : ((Pool.runSchedule (exec sampleServices samplePostgres) stillCurrent
      (List.replicate 7 1 ++ List.replicate 23 0) openSession twoRequests).any fun p =>
        answeredOk (p.2 0) && !(p.2 1).log.isEmpty && (p.2 2).log.isEmpty &&
          (Pool.runSchedule (exec sampleServices samplePostgres) stillCurrent
            (List.replicate 16 1 ++ List.replicate 11 2) p.1 p.2).any fun q =>
              answeredOk (q.2 1) && loadedPart (q.2 2) 0 == some true) = true := by
    decide +kernel
  obtain ⟨⟨w, P⟩, hsched, hp⟩ := (Option.any_eq_true _ _).mp hrun
  rw [Bool.and_eq_true, Bool.and_eq_true, Bool.and_eq_true] at hp
  obtain ⟨⟨⟨hanswered, hbegun⟩, hlater⟩, hload⟩ := hp
  obtain ⟨⟨w', P'⟩, hsched', hq⟩ := (Option.any_eq_true _ _).mp hload
  obtain ⟨hboth, hq⟩ := Bool.and_eq_true_iff.mp hq
  obtain ⟨resp, hresp, hok⟩ := answeredOk_sound hanswered
  obtain ⟨session, hprog, hid, -⟩ := loadedPart_sound (beq_iff_eq.mp hq)
  have hlog : (P 1).log ≠ [] := by
    intro hnil
    rw [hnil] at hbegun
    cases hbegun
  have hr := Pool.run_of_schedule (fun w P i c w' => @upToDate_of_current w w' P i c) hsched
  have hr' := Pool.run_of_schedule (fun w P i c w' => @upToDate_of_current w w' P i c) hsched'
  have hempty : ∀ i, ([[], []] : List Bytes).getD i [] = [] := by
    rintro (_ | _ | i) <;> rfl
  exact ⟨w, P, w', P', session, hr, hr', hlog, answeredOk_sound hboth, hprog,
    loaded_after_answer sampleServices_lawful sampleServices_digest_ne_nil (by decide) openSession_sound
      (fun i hi => absurd (hempty i) hi) twoRequests_start hr hresp hok (List.isEmpty_iff.mp hlater)
      hr' hprog hid⟩

/-- Request 0 reads the session; request 1 reads it, records part 1 and is
answered 200; request 0 writes the arrays it has read back, and part 1 is gone. -/
theorem part_lost_between_read_and_write : ∃ w P w' P' session,
    Pool.Run (exec sampleServices samplePostgres) (fun _ _ _ _ _ => True)
      openSession twoRequests w P ∧
    (∃ resp, (P 1).prog = .ret (.answered resp) ∧ resp.statusCode = 200) ∧ (P 2).log = [] ∧
    Pool.Run (exec sampleServices samplePostgres) (fun _ _ _ _ _ => True) w P w' P' ∧
    (P' 2).prog = .ret (.loaded session) ∧ session.uploadId ≠ [] ∧
    session.uploaded.getD (partIndex (partBody 1)) false = false := by
  have hrun : ((Pool.runSchedule (exec sampleServices samplePostgres) (fun _ _ _ _ => true)
      (List.replicate 11 0 ++ List.replicate 23 1) openSession twoRequests).any fun p =>
        answeredOk (p.2 1) && (p.2 2).log.isEmpty &&
          (Pool.runSchedule (exec sampleServices samplePostgres) (fun _ _ _ _ => true)
            (List.replicate 12 0 ++ List.replicate 11 2) p.1 p.2).any fun q =>
              loadedPart (q.2 2) 1 == some false) = true := by
    decide +kernel
  obtain ⟨⟨w, P⟩, hsched, hp⟩ := (Option.any_eq_true _ _).mp hrun
  rw [Bool.and_eq_true, Bool.and_eq_true] at hp
  obtain ⟨⟨hanswered, hlater⟩, hload⟩ := hp
  obtain ⟨⟨w', P'⟩, hsched', hq⟩ := (Option.any_eq_true _ _).mp hload
  obtain ⟨session, hprog, hid, hpart⟩ := loadedPart_sound (beq_iff_eq.mp hq)
  exact ⟨w, P, w', P', session, Pool.run_of_schedule (fun _ _ _ _ _ _ => trivial) hsched,
    answeredOk_sound hanswered, List.isEmpty_iff.mp hlater,
    Pool.run_of_schedule (fun _ _ _ _ _ _ => trivial) hsched', hprog, hid, hpart⟩

end SolarDrive.Runs
