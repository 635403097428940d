import SolarDrive.Api.Effects
import SolarDrive.Runs.History

/-!
# The hash index is only a cache

A single upload beside any Redis: one that is not there, that cannot be
reached, that holds whatever it likes under `file:hash:` keys. The run without a
client is what all of them come to (`cached_simulates`).
-/

namespace SolarDrive.Runs

open Lib Http Api Metadata Prog

/-- What the client sees of a Redis: the outcomes of `GET` and `SET`. -/
structure RedisServer (ρ : Type) where
  get : Bytes → ρ → Option Bytes × ρ
  set : Bytes → Bytes → ρ → Bool × ρ

/-- The one of `exec`. -/
def redisServer : RedisServer (Bytes → Option RedisValue) where
  get key r :=
    (match r (cstr key) with
      | some (.str v) => some v
      | _ => none, r)
  set key value r := (true, Function.update r (cstr key) (some (.str (cstr value))))

/-- One that cannot be reached. -/
def unreachable : RedisServer Unit where
  get _ r := (none, r)
  set _ _ r := (false, r)

/-- `GET` and `SET` go to the server, and all else to the world. -/
def execBeside {ρ : Type} (server : RedisServer ρ) (svc : Services) (pg : Postgres) (c : Call)
    (s : World × ρ) : Except Exn c.Resp × (World × ρ) :=
  match c with
  | .redisGet key => (.ok (server.get key s.2).1, s.1, (server.get key s.2).2)
  | .redisSet key value _ => (.ok (server.set key value s.2).1, s.1, (server.set key value s.2).2)
  | c => ((exec svc pg c s.1).1, (exec svc pg c s.1).2, s.2)

/-- The same services without a client. -/
def clientless (svc : Services) : Services := { svc with hasRedis := false }

/-- The calls that do not go to the server. -/
def besideRedis : Call → Bool
  | .redisGet _ | .redisSet _ _ _ => false
  | _ => true

section Simulation

variable {ρ : Type} {server : RedisServer ρ} {svc : Services} {pg : Postgres} {α β : Type}

theorem exec_clientless (c : Call) (w : World) :
    exec (clientless svc) pg c w = exec svc pg c w := by
  cases c <;> rfl

theorem execBeside_world {c : Call} (hc : besideRedis c = true) (s : World × ρ) :
    execBeside server svc pg c s = ((exec svc pg c s.1).1, (exec svc pg c s.1).2, s.2) := by
  cases c with
  | redisGet key => cases hc
  | redisSet key value ttl => cases hc
  | _ => rfl

/-- Beside the server as without a client. -/
abbrev Alike (server : RedisServer ρ) (svc : Services) (pg : Postgres) (p q : App α) : Prop :=
  Simulates (execBeside server svc pg) (exec (clientless svc) pg) (fun s w => s.1 = w) p q

theorem alike_self {p : App α} (hp : p.CallsOnly fun c => besideRedis c = true) :
    Alike server svc pg p p := by
  refine simulates_self (fun c hc s w hs => ?_) hp
  subst hs
  rw [execBeside_world hc, exec_clientless]
  exact ⟨rfl, rfl⟩

/-- What the server returns does not matter to `p`. -/
theorem alike_get {key : Bytes} {f : Option Bytes → App α} {q : App α}
    (hf : ∀ found, Alike server svc pg (f found) q) :
    Alike server svc pg (ask (.redisGet key) >>= f) q :=
  fun s w hs => hf _ (s.1, (server.get key s.2).2) w hs

theorem alike_set {key value : Bytes} {ttl : Int} {f : Bool → App α} {q : App α}
    (hf : ∀ ok, Alike server svc pg (f ok) q) :
    Alike server svc pg (ask (.redisSet key value ttl) >>= f) q :=
  fun s w hs => hf _ (s.1, (server.set key value s.2).2) w hs

theorem alike_rememberHash (hash contentId : Bytes) :
    Alike server svc pg (rememberHash svc hash contentId) (pure ()) := by
  unfold rememberHash
  split
  · exact alike_set fun _ => alike_self (callsOnly_pure _)
  · exact alike_self (callsOnly_pure _)

/-- The look-up of a digest does not fail. -/
theorem exec_findDigest (d : Bytes) (w : World) : ∃ found,
    exec svc pg (.findContentByHash (svc.sha256 d)) w = (.ok found, w) := by
  have hfind : ∃ found, findContentByHash pg w (svc.sha256 d) = .ok found := by
    rw [findContentByHash, contentFindByHash, textParam_sha256]
    exact ⟨_, rfl⟩
  obtain ⟨found, hfound⟩ := hfind
  exact ⟨found, congrArg (·, w) hfound⟩

theorem alike_indexContent (d : Bytes) :
    Alike server svc pg (indexContent svc (svc.sha256 d)) (pure ()) := by
  unfold indexContent
  split
  · rintro ⟨w, r⟩ _ rfl
    obtain ⟨found, hfound⟩ := @exec_findDigest svc pg d w
    have hexec : execBeside server svc pg (.findContentByHash (svc.sha256 d)) (w, r) =
        (.ok found, w, r) := by
      rw [execBeside_world rfl, hfound]
    rw [ask, run_request_bind, hexec]
    cases found with
    | none => exact ⟨rfl, rfl⟩
    | some c => exact @alike_rememberHash ρ server svc pg _ _ (w, r) w rfl
  · exact alike_self (callsOnly_pure _)

theorem alike_link (content : FileRecord) (filename mimeType userId folderId : Bytes) :
    Alike server svc pg (linkExistingContent content filename mimeType userId folderId)
      (linkExistingContent content filename mimeType userId folderId) :=
  alike_self (callsOnly_bind
    (callsOnly_makeUniqueName (S := fun c => besideRedis c = true) (fun _ _ _ => rfl) rfl _ _ _)
    fun _ => callsOnly_request rfl)

theorem alike_setJson (j : Json) : Alike server svc pg (svc.setJson j) ((clientless svc).setJson j) :=
  alike_self (callsOnly_bind (callsOnly_ofJson _) fun _ => callsOnly_pure _)

theorem alike_setError (code : Int) (msg : Bytes) :
    Alike server svc pg (svc.setError code msg) ((clientless svc).setError code msg) :=
  alike_self (callsOnly_ofJson _)

/-- What both branches do with content that is known. -/
theorem alike_instant (c : FileRecord) (filename mimeType userId folderId fileHash : Bytes) :
    Alike server svc pg (do
        let fileId ← linkExistingContent c filename mimeType userId folderId
        instantAnswer svc fileId fileHash c.size)
      (do
        let fileId ← linkExistingContent c filename mimeType userId folderId
        instantAnswer (clientless svc) fileId fileHash c.size) :=
  simulates_bind (alike_link _ _ _ _ _) fun _ => alike_setJson _

theorem alike_uploadNew (body filename mimeType userId folderId d : Bytes) :
    Alike server svc pg (uploadNew svc body filename mimeType userId folderId (svc.sha256 d))
      (uploadNew (clientless svc) body filename mimeType userId folderId (svc.sha256 d)) := by
  refine simulates_bind (alike_self (callsOnly_putAll (fun _ => rfl) _)) fun chunks => ?_
  refine simulates_bind (alike_self (callsOnly_ofJson _)) fun chunkHashes => ?_
  refine simulates_bind (alike_self (callsOnly_request rfl)) fun fileId => ?_
  exact simulates_bind (alike_indexContent d) fun _ => alike_setJson _

theorem alike_uploadLookup (body filename mimeType userId folderId d : Bytes) :
    Alike server svc pg (uploadLookup svc body filename mimeType userId folderId (svc.sha256 d))
      (uploadLookup (clientless svc) body filename mimeType userId folderId (svc.sha256 d)) := by
  refine simulates_bind (alike_self (callsOnly_request rfl)) fun content => ?_
  cases content with
  | none => exact alike_uploadNew body filename mimeType userId folderId d
  | some c =>
      exact simulates_bind (alike_rememberHash _ _) fun _ => alike_instant c _ _ _ _ _

/-- The short cut through the cache: what it finds is looked up in the database, and
when it finds nothing there the upload goes on as without it. -/
theorem alike_uploadContent (body filename mimeType userId folderId : Bytes) :
    Alike server svc pg (uploadContent svc body filename mimeType userId folderId)
      (uploadContent (clientless svc) body filename mimeType userId folderId) := by
  have hlookup := @alike_uploadLookup ρ server svc pg body filename
    mimeType userId folderId body
  unfold uploadContent
  dsimp only
  split
  · refine alike_get fun found => ?_
    cases found with
    | none => exact hlookup
    | some _ =>
        rintro ⟨w, r⟩ _ rfl
        obtain ⟨content, hcontent⟩ := @exec_findDigest svc pg body w
        have hexec : execBeside server svc pg (.findContentByHash (svc.sha256 body)) (w, r) =
            (.ok content, w, r) := by
          rw [execBeside_world rfl, hcontent]
        dsimp only
        rw [ask, run_request_bind, hexec]
        cases content with
        | none => exact hlookup (w, r) w rfl
        | some c =>
            have hknown : (uploadLookup (clientless svc) body filename mimeType userId folderId
                (svc.sha256 body)).run (exec (clientless svc) pg) w =
                (do
                  let fileId ← linkExistingContent c filename mimeType userId folderId
                  instantAnswer (clientless svc) fileId (svc.sha256 body) c.size : App _).run
                  (exec (clientless svc) pg) w := by
              unfold uploadLookup
              rw [ask, run_request_bind, exec_clientless, hcontent]
              rfl
            have halike := @alike_instant ρ server svc pg c filename
              mimeType userId folderId (svc.sha256 body) (w, r) w rfl
            rw [← hknown] at halike
            exact halike
  · exact hlookup

theorem alike_handleSingleUpload (req : HttpRequest) (userId : Bytes) :
    Alike server svc pg (handleSingleUpload svc req userId)
      (handleSingleUpload (clientless svc) req userId) := by
  unfold handleSingleUpload
  split
  · exact alike_setError _ _
  · by_cases hsize : svc.oversized req.body.length = true
    · rw [if_pos hsize, if_pos (show (clientless svc).oversized _ = true from hsize)]
      exact alike_setError _ _
    · rw [if_neg hsize, if_neg (show ¬ (clientless svc).oversized _ = true from hsize)]
      refine simulates_bind (alike_self (callsOnly_resolveFolderId svc (fun _ => rfl) _ _))
        fun folder => ?_
      cases folder with
      | error resp => exact alike_self (callsOnly_pure _)
      | ok folderId => exact alike_uploadContent _ _ _ _ _

end Simulation

/-! ## The Redis of the world -/

section Redis

variable {svc : Services} {pg : Postgres} {w : World}

/-- The world with another Redis in it. -/
def withRedis (redis : Bytes → Option RedisValue) (w : World) : World := { w with redis }

theorem insertFileRow_withRedis (file : FileRecord) (contentId : Bytes) (id : Uuid)
    (redis : Bytes → Option RedisValue) (w : World) :
    insertFileRow pg file contentId id (withRedis redis w) =
      (fun p => (p.1, withRedis redis p.2)) <$> insertFileRow pg file contentId id w := by
  simp only [insertFileRow, map_bind]
  rfl

theorem ensureInTxn_withRedis (content : ContentRecord) (id : Uuid)
    (redis : Bytes → Option RedisValue) (w : World) :
    ensureInTxn pg content id (withRedis redis w) =
      (fun p => (p.1, withRedis redis p.2)) <$> ensureInTxn pg content id w := by
  simp only [ensureInTxn, map_bind]
  refine congrArg _ (funext fun hash => ?_)
  have hsame : (withRedis redis w).contents = w.contents := rfl
  rw [hsame]
  cases w.contents.find? fun c => c.hash = hash with
  | some c => rfl
  | none =>
      simp only [map_bind]
      rfl

theorem commit_withRedis {α : Type} {x y : Except Exn (α × World)}
    (redis : Bytes → Option RedisValue) (w : World)
    (h : y = (fun p => (p.1, withRedis redis p.2)) <$> x) :
    commit (withRedis redis w) y = ((commit w x).1, withRedis redis (commit w x).2) := by
  subst h
  cases x <;> rfl

/-- The calls of a single upload. -/
def uploads : Call → Bool
  | .put _ | .redisGet _ | .redisSet _ _ _ | .folderFindById _ | .nameExistsInFolder _ _ _
  | .findContentByHash _ | .fileInsert _ | .insertLink _ _ | .now => true
  | _ => false

/-- Apart from `GET` and `SET` they do not look at Redis. -/
theorem exec_withRedis {c : Call} (hc : uploads c = true) (hbeside : besideRedis c = true)
    (redis : Bytes → Option RedisValue) :
    exec svc pg c (withRedis redis w) =
      ((exec svc pg c w).1, withRedis redis (exec svc pg c w).2) := by
  cases c with
  | put data =>
      show storePut svc data (withRedis redis w) =
        ((storePut svc data w).1, withRedis redis (storePut svc data w).2)
      unfold storePut
      dsimp only
      split
      · rfl
      · by_cases hsome : (w.store (svc.sha256 data)).isSome = true
        · rw [if_pos hsome, if_pos (show ((withRedis redis w).store _).isSome = true from hsome)]
        · rw [if_neg hsome, if_neg (show ¬ ((withRedis redis w).store _).isSome = true from hsome)]
          rfl
  | fileInsert file =>
      refine commit_withRedis (w := w.skipUuids) redis (x := fileInsert pg file _ _ w.skipUuids) ?_
      simp only [fileInsert, map_bind]
      refine congrArg _ (funext fun _ => ?_)
      show ensureInTxn pg _ _ (withRedis redis w.skipUuids) >>= _ = _
      rw [ensureInTxn_withRedis, bind_map_left]
      exact congrArg _ (funext fun p => insertFileRow_withRedis file p.1 _ redis p.2)
  | insertLink file contentId =>
      refine commit_withRedis (w := w.skipUuids) redis
        (x := insertLink pg file contentId _ w.skipUuids) ?_
      simp only [insertLink, map_bind]
      refine congrArg _ (funext fun _ => ?_)
      split
      · rfl
      · exact insertFileRow_withRedis file contentId _ redis w.skipUuids
  | redisGet key => cases hbeside
  | redisSet key value ttl => cases hbeside
  | _ => first | rfl | cases hc

abbrev Uploads {α : Type} (p : App α) : Prop := p.CallsOnly fun c => uploads c = true

theorem uploads_setJson (j : Json) : Uploads (svc.setJson j) :=
  callsOnly_bind (callsOnly_ofJson _) fun _ => callsOnly_pure _

theorem uploads_instant (c : FileRecord) (filename mimeType userId folderId fileHash : Bytes) :
    Uploads (do
      let fileId ← linkExistingContent c filename mimeType userId folderId
      instantAnswer svc fileId fileHash c.size) :=
  callsOnly_bind (callsOnly_bind
    (callsOnly_makeUniqueName (S := fun c => uploads c = true) (fun _ _ _ => rfl) rfl _ _ _)
    fun _ => callsOnly_request rfl) fun _ => uploads_setJson _

theorem uploads_rememberHash (hash contentId : Bytes) : Uploads (rememberHash svc hash contentId) :=
  callsOnly_rememberHash (S := fun c => uploads c = true) svc (fun _ _ => rfl) hash contentId

theorem uploads_uploadNew (body filename mimeType userId folderId fileHash : Bytes) :
    Uploads (uploadNew svc body filename mimeType userId folderId fileHash) := by
  refine callsOnly_bind (callsOnly_putAll (fun _ => rfl) _) fun chunks => ?_
  refine callsOnly_bind (callsOnly_ofJson _) fun chunkHashes => ?_
  refine callsOnly_bind (callsOnly_request rfl) fun fileId => ?_
  refine callsOnly_bind ?_ fun _ => uploads_setJson _
  unfold indexContent
  split
  · refine callsOnly_bind (callsOnly_request rfl) fun content => ?_
    cases content with
    | none => exact callsOnly_pure _
    | some c => exact uploads_rememberHash _ _
  · exact callsOnly_pure _

theorem uploads_uploadLookup (body filename mimeType userId folderId fileHash : Bytes) :
    Uploads (uploadLookup svc body filename mimeType userId folderId fileHash) := by
  refine callsOnly_bind (callsOnly_request rfl) fun content => ?_
  cases content with
  | none => exact uploads_uploadNew _ _ _ _ _ _
  | some c => exact callsOnly_bind (uploads_rememberHash _ _) fun _ => uploads_instant c _ _ _ _ _

theorem uploads_uploadContent (body filename mimeType userId folderId : Bytes) :
    Uploads (uploadContent svc body filename mimeType userId folderId) := by
  unfold uploadContent
  dsimp only
  split
  · refine callsOnly_bind (callsOnly_request rfl) fun cached => ?_
    cases cached with
    | none => exact uploads_uploadLookup _ _ _ _ _ _
    | some _ =>
        refine callsOnly_bind (callsOnly_request rfl) fun content => ?_
        cases content with
        | none => exact uploads_uploadLookup _ _ _ _ _ _
        | some c => exact uploads_instant c _ _ _ _ _
  · exact uploads_uploadLookup _ _ _ _ _ _

theorem uploads_handleSingleUpload (req : HttpRequest) (userId : Bytes) :
    Uploads (handleSingleUpload svc req userId) := by
  unfold handleSingleUpload
  split
  · exact callsOnly_ofJson _
  · split
    · exact callsOnly_ofJson _
    · refine callsOnly_bind
        (callsOnly_resolveFolderId (S := fun c => uploads c = true) svc (fun _ => rfl) _ _)
        fun folder => ?_
      cases folder with
      | error resp => exact callsOnly_pure _
      | ok folderId => exact uploads_uploadContent _ _ _ _ _

/-- Beside the server that is the Redis of the world, an upload is what it is in the world. -/
theorem upload_in_world (req : HttpRequest) (userId : Bytes) (w : World) :
    let s := (handleSingleUpload svc req userId).run (execBeside redisServer svc pg) (w, w.redis)
    let s' := (handleSingleUpload svc req userId).run (exec svc pg) w
    s.1 = s'.1 ∧ withRedis s.2.2 s.2.1 = s'.2 := by
  have hsame : Simulates (execBeside redisServer svc pg) (exec svc pg)
      (fun s w => withRedis s.2 s.1 = w) (handleSingleUpload svc req userId)
      (handleSingleUpload svc req userId) := by
    refine simulates_self ?_ (uploads_handleSingleUpload req userId)
    rintro c hc ⟨w, redis⟩ _ rfl
    dsimp only
    by_cases hbeside : besideRedis c = true
    · rw [execBeside_world hbeside, exec_withRedis hc hbeside]
      exact ⟨rfl, rfl⟩
    · cases c with
      | redisGet key => exact ⟨rfl, rfl⟩
      | redisSet key value ttl => exact ⟨rfl, rfl⟩
      | _ => exact absurd rfl hbeside
  exact hsame (w, w.redis) w rfl

end Redis

/-- **The hash index is only a cache.** Beside any two Redis servers, or without a client, an
upload has the same answer and leaves the same database and the same objects. -/
theorem upload_same_beside {ρ ρ' : Type} (server : RedisServer ρ) (server' : RedisServer ρ')
    (svc : Services) (pg : Postgres) (hasRedis : Bool) (req : HttpRequest) (userId : Bytes)
    (w : World) (r : ρ) (r' : ρ') :
    let svc' : Services := { svc with hasRedis }
    let s := (handleSingleUpload svc req userId).run (execBeside server svc pg) (w, r)
    let s' := (handleSingleUpload svc' req userId).run (execBeside server' svc' pg) (w, r')
    s.1 = s'.1 ∧ s.2.1 = s'.2.1 := by
  intro svc' s s'
  obtain ⟨hres, hworld⟩ :=
    @alike_handleSingleUpload ρ server svc pg req userId (w, r) w rfl
  obtain ⟨hres', hworld'⟩ :=
    @alike_handleSingleUpload ρ' server' svc' pg req userId (w, r') w rfl
  exact ⟨hres.trans hres'.symm, hworld.trans hworld'.symm⟩

end SolarDrive.Runs
