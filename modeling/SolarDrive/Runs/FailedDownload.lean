import SolarDrive.Runs.ShareDownloads

/-!
# Downloads that fail after they are counted

`resolveShare` counts a download in a transaction of its own, and the file is
looked up, its chunk list parsed and each chunk read after that. `Serving` is a
world with what fails in those later steps.
-/

namespace SolarDrive.Runs

open Lib Http Api Metadata Prog

/-! ## Later steps that fail -/

structure Serving where
  world : World
  /-- The query for the file. -/
  row : Option Exn := none
  /-- The reads of the chunks to come. -/
  chunk : Nat → Option Exn := fun _ => none

def execServing (svc : Services) (pg : Postgres) (c : Call) (s : Serving) :
    Except Exn c.Resp × Serving :=
  match c with
  | .fileFindById id =>
      (match s.row with
        | some e => .error e
        | none => fileFindById pg s.world id, s)
  | .get hash =>
      (match s.chunk 0 with
        | some e => .error e
        | none => storeGet s.world hash, { s with chunk := fun n => s.chunk (n + 1) })
  | c => ((exec svc pg c s.world).1, { s with world := (exec svc pg c s.world).2 })

def isLater : Call → Bool
  | .fileFindById _ | .get _ => true
  | _ => false

def chunkFailure (w : World) : List Bytes → (Nat → Option Exn) → Option Bytes
  | [], _ => none
  | hash :: hashes, faults =>
      match faults 0, storeGet w hash with
      | some e, _ => some e.what
      | none, .error e => some e.what
      | none, .ok _ => chunkFailure w hashes fun n => faults (n + 1)

/-- The text of the first step after the count that fails. -/
def laterFailure (svc : Services) (pg : Postgres) (fileId : Bytes) (s : Serving) : Option Bytes :=
  match s.row, fileFindById pg s.world fileId with
  | some e, _ => some e.what
  | none, .error e => some e.what
  | none, .ok none => some (ascii "original file not found")
  | none, .ok (some f) =>
      match svc.json.parse f.chunkHashes with
      | .error what => some what
      | .ok chunkArr =>
          match chunkArr.getArray Json.getString with
          | .error what => some what
          | .ok hashes => chunkFailure s.world hashes s.chunk

section Serving

variable {svc : Services} {pg : Postgres} {s : Serving} {α : Type}

/-- Until the later steps, nothing of them is seen. -/
theorem run_early {p : App α} (hp : p.CallsOnly fun c => isLater c = false) :
    p.run (execServing svc pg) s =
      ((p.run (exec svc pg) s.world).1, { s with world := (p.run (exec svc pg) s.world).2 }) := by
  induction p generalizing s with
  | ret a => rfl
  | raise e => rfl
  | call c k ih =>
      have hexec : execServing svc pg c s =
          ((exec svc pg c s.world).1, { s with world := (exec svc pg c s.world).2 }) := by
        cases c with
        | fileFindById id => exact nomatch hp.1
        | get hash => exact nomatch hp.1
        | _ => rfl
      rw [run, run, hexec]
      exact ih _ (hp.2 _)

/-- A part ends well, or with an exception of this text; the world is as it was. -/
structure Ends (failure : Option Bytes) (w : World) (r : Except Exn α) (s' : Serving) : Prop where
  world : s'.world = w
  returns : ∀ a, r = .ok a → failure = none
  raises : ∀ e, r = .error e → failure = some e.what

theorem ends_ok (s' : Serving) (a : α) : Ends none s'.world (.ok a) s' := ⟨rfl, fun _ _ => rfl, nofun⟩

theorem ends_error (s' : Serving) (e : Exn) :
    Ends (some e.what) s'.world (.error e : Except Exn α) s' := by
  refine ⟨rfl, nofun, ?_⟩
  rintro _ ⟨⟩
  rfl

/-- The next chunk fails of itself, or is read as the store has it. -/
theorem wp_chunk {hash : Bytes} {f : Bytes → App α} {Q : Except Exn α → Serving → Prop}
    (hread : ∀ data, s.chunk 0 = none → storeGet s.world hash = .ok data →
      (f data).wp (ofExec (execServing svc pg)) Q { s with chunk := fun n => s.chunk (n + 1) })
    (hfails : ∀ e, s.chunk 0 = some e ∨ s.chunk 0 = none ∧ storeGet s.world hash = .error e →
      Q (.error e) { s with chunk := fun n => s.chunk (n + 1) }) :
    (ask (.get hash) >>= f).wp (ofExec (execServing svc pg)) Q s := by
  refine wp_request_bind trivial ?_ ?_
  · intro data s₁ hexec
    have hexec : execServing svc pg (.get hash) s = (.ok data, s₁) := hexec
    cases hfault : s.chunk 0 with
    | some e => simp [execServing, hfault] at hexec
    | none =>
        simp only [execServing, hfault, Prod.mk.injEq] at hexec
        obtain ⟨hget, rfl⟩ := hexec
        exact hread data hfault hget
  · intro e s₁ hexec
    have hexec : execServing svc pg (.get hash) s = (.error e, s₁) := hexec
    cases hfault : s.chunk 0 with
    | some e' =>
        simp only [execServing, hfault, Prod.mk.injEq, Except.error.injEq] at hexec
        obtain ⟨rfl, rfl⟩ := hexec
        exact hfails _ (.inl hfault)
    | none =>
        simp only [execServing, hfault, Prod.mk.injEq] at hexec
        obtain ⟨hget, rfl⟩ := hexec
        exact hfails e (.inr ⟨hfault, hget⟩)

theorem ends_getChunked : ∀ (hashes : List Bytes) (s : Serving),
    (getChunked hashes).wp (ofExec (execServing svc pg))
      (Ends (chunkFailure s.world hashes s.chunk) s.world) s
  | [], s => ends_ok s []
  | hash :: hashes, s => by
      rw [getChunked, chunkFailure]
      refine wp_chunk (fun data hfault hget => ?_) fun e hfails => ?_
      · rw [hfault, hget]
        refine wp_seq (ends_getChunked hashes _) ?_ ?_
        · rintro rest s₂ ⟨hworld, hreturns, -⟩
          exact ⟨hworld, fun _ _ => hreturns rest rfl, nofun⟩
        · rintro e s₂ ⟨hworld, -, hraises⟩
          refine ⟨hworld, nofun, ?_⟩
          rintro _ ⟨⟩
          exact hraises e rfl
      · rcases hfails with hfault | ⟨hfault, hget⟩
        · rw [hfault]
          exact ends_error { s with chunk := fun n => s.chunk (n + 1) } e
        · rw [hfault, hget]
          exact ends_error { s with chunk := fun n => s.chunk (n + 1) } e

/-- How a delivery ends: with the file, with a 404, or with an exception. -/
structure Served (failure : Option Bytes) (w : World) (r : Except Exn HttpResponse)
    (s' : Serving) : Prop where
  world : s'.world = w
  answers : ∀ resp, r = .ok resp → (failure = none ∧ resp.statusCode = 200) ∨
    ∃ what, failure = some what ∧ validUtf8 what = true ∧ resp.statusCode = 404
  raises : ∀ e, r = .error e → failure = some e.what

theorem Ends.served {failure : Option Bytes} {w : World} {e : Exn} {s' : Serving}
    (h : Ends failure w (.error e : Except Exn α) s') : Served failure w (.error e) s' := by
  refine ⟨h.world, nofun, ?_⟩
  rintro _ ⟨⟩
  exact h.raises e rfl

/-- The query for the file fails of itself, or is answered from the tables. -/
theorem wp_row {id : Bytes} {f : Option FileRecord → App α} {Q : Except Exn α → Serving → Prop}
    (hfound : ∀ file, s.row = none → fileFindById pg s.world id = .ok file →
      (f file).wp (ofExec (execServing svc pg)) Q s)
    (hfails : ∀ e, s.row = some e ∨ s.row = none ∧ fileFindById pg s.world id = .error e →
      Q (.error e) s) :
    (ask (.fileFindById id) >>= f).wp (ofExec (execServing svc pg)) Q s := by
  refine wp_request_bind trivial ?_ ?_
  · intro file s₁ hexec
    have hexec : execServing svc pg (.fileFindById id) s = (.ok file, s₁) := hexec
    cases hrow : s.row with
    | some e => simp [execServing, hrow] at hexec
    | none =>
        simp only [execServing, hrow, Prod.mk.injEq] at hexec
        obtain ⟨hfind, rfl⟩ := hexec
        exact hfound file hrow hfind
  · intro e s₁ hexec
    have hexec : execServing svc pg (.fileFindById id) s = (.error e, s₁) := hexec
    cases hrow : s.row with
    | some e' =>
        simp only [execServing, hrow, Prod.mk.injEq, Except.error.injEq] at hexec
        obtain ⟨rfl, rfl⟩ := hexec
        exact hfails _ (.inl hrow)
    | none =>
        simp only [execServing, hrow, Prod.mk.injEq] at hexec
        obtain ⟨hfind, rfl⟩ := hexec
        exact hfails e (.inr ⟨hrow, hfind⟩)

theorem served_deliverShare (hjson : svc.json.Lawful) (preview : Bool) (share : ShareRecord)
    (s : Serving) : (deliverShare svc preview share).wp (ofExec (execServing svc pg))
      (Served (laterFailure svc pg share.fileId s) s.world) s := by
  have hfails : ∀ e, Served (some e.what) s.world (.error e) s := fun e =>
    (ends_error s e : Ends _ _ (.error e : Except Exn Unit) s).served
  unfold deliverShare laterFailure
  refine wp_row (fun file hrow hfind => ?_) fun e hfault => ?_
  · rw [hrow, hfind]
    cases file with
    | none =>
        have hmsg : validUtf8 (ascii "original file not found") = true := by decide
        refine wp_setError_utf8 svc hjson 404 _ (fun _ resp hresp => ?_) fun h => absurd hmsg h
        refine ⟨rfl, ?_, nofun⟩
        rintro _ ⟨⟩
        exact .inr ⟨_, rfl, hmsg, hresp⟩
    | some f =>
        dsimp only
        rw [wp_bind]
        refine @wp_jsonParse svc pg s.world _ _ _ _ _ rfl (fun chunkArr hparse => ?_)
          fun what hparse => ?_
        · rw [hparse]
          dsimp only
          cases hstrings : chunkArr.getArray Json.getString with
          | error what => exact hfails { kind := .json, what }
          | ok hashes =>
              show (getChunked hashes >>= _ : App HttpResponse).wp _ _ s
              refine wp_seq (ends_getChunked hashes s) ?_ fun e s₂ h => h.served
              rintro content s₂ ⟨hworld, hreturns, -⟩
              refine ⟨hworld, ?_, nofun⟩
              rintro _ ⟨⟩
              exact .inl ⟨hreturns content rfl, rfl⟩
        · rw [hparse]
          exact hfails { kind := .json, what }
  · rcases hfault with hrow | ⟨hrow, hfind⟩
    · rw [hrow]
      exact hfails e
    · rw [hrow, hfind]
      exact hfails e

end Serving

/-! ## Whether a share opens -/

def Expired (share : ShareRecord) (time : Int) : Prop :=
  share.expiresAt ≠ [] ∧ ∃ expiry, readExpiry share.expiresAt = some expiry ∧ expiry < toTimeT time

/-- A counted request gets past `resolve_share`, and the count is committed. -/
structure Opens (svc : Services) (pg : Postgres) (token password : Bytes) (w : World)
    (s : ShareRow) : Prop where
  named : token ≠ []
  text : validUtf8 (cstr token) = true
  row : shareOf w token = some s
  live : s.isRevoked = false
  current : ¬ Expired (shareRecord pg s) w.time
  unlocks : Unlocks svc (shareRecord pg s) password
  limit : 0 < s.maxDownloads → s.downloadCount < s.maxDownloads
  inRange : ∀ row ∈ w.shares, row.id = s.id → row.downloadCount + 1 < 2 ^ 31

/-- A token opens one share. -/
theorem Opens.unique {svc : Services} {pg : Postgres} {token password : Bytes} {w : World}
    {s s' : ShareRow} (h : Opens svc pg token password w s)
    (h' : Opens svc pg token password w s') : s = s' :=
  Option.some.inj (h.row.symm.trans h'.row)

/-- What a counted request comes to in `resolve_share`. -/
inductive Counts (svc : Services) (pg : Postgres) (token password : Bytes) (w : World) :
    Except Exn (Answered ShareRecord) → World → Prop
  | opened {s : ShareRow} {count : Int} (redis : Bytes → Option RedisValue) (draws : Nat → Nat) :
      Opens svc pg token password w s →
      Counts svc pg token password w (.ok (.ok { shareRecord pg s with downloadCount := count }))
        { w with shares := countedOnce s.id w.shares, redis, draws }
  | refused {r : Except Exn (Answered ShareRecord)} {w' : World} :
      (∀ s, ¬ Opens svc pg token password w s) → (∀ share, r ≠ .ok (.ok share)) →
      w'.shares = w.shares → Counts svc pg token password w r w'

section Opening

variable {svc : Services} {pg : Postgres} {w : World} {token password : Bytes}

theorem wp_shareExpired_iff {share : ShareRecord} {Q : Except Exn Bool → World → Prop}
    (hexpired : Expired share w.time → Q (.ok true) w)
    (hcurrent : ¬ Expired share w.time → Q (.ok false) w) :
    (shareExpired share).wp (ofExec (exec svc pg)) Q w := by
  unfold shareExpired
  split
  · rename_i hempty
    exact hcurrent fun h => h.1 hempty
  · rename_i hne
    refine wp_request_bind trivial ?_ ?_
    · intro ns w₁ hexec
      cases (show (Except.ok w.time, w) = (Except.ok ns, w₁) from hexec)
      split
      · rename_i expiry hread
        by_cases hlt : expiry < toTimeT w.time
        · have hyes := hexpired ⟨hne, expiry, hread, hlt⟩
          rw [← decide_eq_true hlt] at hyes
          exact hyes
        · have hno := hcurrent fun h => by
            obtain ⟨-, expiry', hread', hlt'⟩ := h
            cases hread.symm.trans hread'
            exact hlt hlt'
          rw [← decide_eq_false hlt] at hno
          exact hno
      · rename_i hread
        refine hcurrent fun h => ?_
        obtain ⟨-, expiry, hread', -⟩ := h
        cases hread.symm.trans hread'
    · intro e w₁ hexec
      cases (show (Except.ok w.time, w) = (Except.error e, w₁) from hexec)

theorem counts_refuse (hnot : ∀ s, ¬ Opens svc pg token password w s) (code : Int) (msg : String) :
    (refuse svc code msg).wp (ofExec (exec svc pg)) (Counts svc pg token password w) w :=
  wp_refuse svc code msg (fun _ _ => .refused hnot nofun rfl) fun _ => .refused hnot nofun rfl

theorem exec_increment_cases (hpg : pg.Lawful svc.json) (s : ShareRow) {r : Except Exn Unit}
    {w' : World} (hexec : exec svc pg (.incrementDownloadCount s.id.text) w = (r, w')) :
    ((∀ row ∈ w.shares, row.id = s.id → row.downloadCount + 1 < 2 ^ 31) ∧ r = .ok () ∧
      w' = { w with shares := countedOnce s.id w.shares }) ∨
    (¬ (∀ row ∈ w.shares, row.id = s.id → row.downloadCount + 1 < 2 ^ 31) ∧ (∃ e, r = .error e) ∧
      w' = w) := by
  have hall : (w.shares.all fun row => row.id ≠ s.id || row.downloadCount + 1 < 2 ^ 31) = true ↔
      ∀ row ∈ w.shares, row.id = s.id → row.downloadCount + 1 < 2 ^ 31 := by
    simp [List.all_eq_true, Classical.or_iff_not_imp_left]
  have hinc : incrementDownloadCount pg s.id.text w = (do
      pg.require (w.shares.all fun row => row.id ≠ s.id || row.downloadCount + 1 < 2 ^ 31) .outOfRange
      return ((), { w with shares := countedOnce s.id w.shares })) := by
    unfold incrementDownloadCount
    rw [uuidParam_text hpg]
    rfl
  have hexec : commit w (incrementDownloadCount pg s.id.text w) = (r, w') := hexec
  rw [hinc] at hexec
  unfold Postgres.require at hexec
  split at hexec
  · rename_i hok
    cases hexec
    exact .inl ⟨hall.mp hok, rfl, rfl⟩
  · rename_i hbad
    cases hexec
    exact .inr ⟨fun h => hbad (hall.mpr h), ⟨_, rfl⟩, rfl⟩

/-- Everything but the cache and the random numbers is as it was. -/
def Cached (w w' : World) : Prop := ∃ redis draws, w' = { w with redis, draws }

theorem cached_exec {c : Call} {r : Except Exn c.Resp} {w w₁ w₂ : World} (h : Cached w w₁)
    (hc : readOnly c = true ∨ ∃ token text, c = .redisSet token text 0)
    (hexec : exec svc pg c w₁ = (r, w₂)) : Cached w w₂ := by
  obtain ⟨redis, draws, rfl⟩ := h
  rcases hc with hc | ⟨token, text, rfl⟩
  · obtain ⟨draws', hsame⟩ := @exec_readOnly svc pg c hc { w with redis, draws }
    rw [hexec] at hsame
    exact ⟨redis, draws', hsame⟩
  · cases hexec
    exact ⟨_, draws, rfl⟩

/-- Once the counter is incremented nothing goes wrong any more. -/
theorem cached_countDownload (share : ShareRecord) {Q : Except Exn Unit → World → Prop}
    (hok : ∀ w₁ w₂, exec svc pg (.incrementDownloadCount share.id) w = (.ok (), w₁) →
      Cached w₁ w₂ → Q (.ok ()) w₂)
    (herr : ∀ e w₁, exec svc pg (.incrementDownloadCount share.id) w = (.error e, w₁) →
      Q (.error e) w₁) :
    (countDownload svc token share).wp (ofExec (exec svc pg)) Q w := by
  unfold countDownload
  refine wp_request_bind trivial (fun _ w₁ hinc => ?_) fun e w₁ hinc => herr e w₁ hinc
  have hstart : Cached w₁ w₁ := ⟨w₁.redis, w₁.draws, rfl⟩
  split
  · refine wp_request_bind trivial ?_ ?_
    · intro cached w₂ hget
      have hcached := cached_exec hstart (.inl rfl) hget
      cases cached with
      | none => exact hok w₁ w₂ hinc hcached
      | some text =>
          refine wp_catch (M := fun _ => Cached w₁) ?_ (fun _ w₃ h => hok w₁ w₃ hinc h)
            fun _ w₃ h => hok w₁ w₃ hinc h
          refine wp_of_callsOnly (Cached w₁)
            (fun w₃ c hc h => ⟨trivial, fun r w₄ hexec => cached_exec h hc hexec⟩) ?_ hcached
          refine callsOnly_bind (callsOnly_request (.inl rfl)) fun _ => ?_
          refine callsOnly_bind (callsOnly_ofJson _) fun _ => ?_
          refine callsOnly_bind (callsOnly_ofJson _) fun _ => ?_
          exact callsOnly_bind (callsOnly_request (.inr ⟨_, _, rfl⟩)) fun _ => callsOnly_pure _
    · intro e w₂ hget
      cases (show (Except.ok (redisGet w₁ (shareKey token)), w₁) = (Except.error e, w₂) from hget)
  · exact hok w₁ w₁ hinc hstart

theorem counts_countDownload (hpg : pg.Lawful svc.json) {s : ShareRow} (count : Int)
    (hopens : (∀ row ∈ w.shares, row.id = s.id → row.downloadCount + 1 < 2 ^ 31) →
      Opens svc pg token password w s)
    (hnot : ¬ (∀ row ∈ w.shares, row.id = s.id → row.downloadCount + 1 < 2 ^ 31) →
      ∀ s, ¬ Opens svc pg token password w s) :
    (do
      countDownload svc token (shareRecord pg s)
      return .ok { shareRecord pg s with downloadCount := count } :
        App (Answered ShareRecord)).wp (ofExec (exec svc pg)) (Counts svc pg token password w) w := by
  rw [wp_bind]
  refine cached_countDownload _ (fun w₁ w₂ hinc hcached => ?_) fun e w₁ hinc => ?_
  · rcases exec_increment_cases hpg s hinc with ⟨hrange, -, rfl⟩ | ⟨-, ⟨e, he⟩, -⟩
    · obtain ⟨redis, draws, rfl⟩ := hcached
      exact .opened redis draws (hopens hrange)
    · cases he
  · rcases exec_increment_cases hpg s hinc with ⟨-, he, -⟩ | ⟨hrange, -, rfl⟩
    · cases he
    · exact .refused (hnot hrange) nofun rfl

theorem counts_resolveShare (hpg : pg.Lawful svc.json) :
    (resolveShare svc token password true).wp (ofExec (exec svc pg))
      (Counts svc pg token password w) w := by
  unfold resolveShare
  split
  · rename_i hempty
    exact counts_refuse (fun s h => h.named hempty) 400 _
  · rename_i hnamed
    refine wp_findByToken (fun htext => ?_) fun hbad e =>
      .refused (fun s h => hbad h.text) nofun rfl
    cases hs : shareOf w token with
    | none => exact counts_refuse (fun s h => by cases hs.symm.trans h.row) 404 _
    | some s =>
        have honly : ∀ {s'}, Opens svc pg token password w s' → s' = s := fun h =>
          (Option.some.inj (hs.symm.trans h.row)).symm
        dsimp only [Option.map_some]
        split
        · rename_i hrevoked
          refine counts_refuse (fun s' h => ?_) 403 _
          obtain rfl := honly h
          exact absurd hrevoked (by simp [shareRecord, h.live])
        · rename_i hlive
          rw [wp_bind]
          refine wp_shareExpired_iff (fun hexpired => ?_) fun hcurrent => ?_
          · refine counts_refuse (fun s' h => ?_) 410 _
            obtain rfl := honly h
            exact h.current hexpired
          · show Prog.wp _ (checkPassword svc (shareRecord pg s) password >>= _) _ w
            rw [wp_bind]
            refine wp_checkPassword_iff svc _ _ (fun hunlocks => ?_) (fun hlocked resp _ => ?_)
              fun hlocked => .inr fun e => ?_
            · dsimp only
              split
              · rename_i hlimit
                refine counts_refuse (fun s' h => ?_) 403 _
                obtain rfl := honly h
                exact absurd (h.limit hlimit.2.1) (not_lt.mpr hlimit.2.2)
              · rename_i hlimit
                refine counts_countDownload hpg _ (fun hrange => ?_) fun hrange s' h => ?_
                · exact ⟨hnamed, htext, hs, eq_false_of_ne_true hlive, hcurrent, hunlocks,
                    fun hmax => not_le.mp fun hge => hlimit ⟨rfl, hmax, hge⟩, hrange⟩
                · obtain rfl := honly h
                  exact hrange h.inRange
            · exact .refused (fun s' h => hlocked (honly h ▸ h.unlocks)) nofun rfl
            · exact .refused (fun s' h => hlocked (honly h ▸ h.unlocks)) nofun rfl

end Opening

/-! ## The whole request -/

section Request

variable {svc : Services} {pg : Postgres} {s : Serving} {req : HttpRequest}

theorem chunkFailure_congr {w w' : World} (hstore : w'.store = w.store) :
    ∀ (hashes : List Bytes) (faults : Nat → Option Exn),
      chunkFailure w' hashes faults = chunkFailure w hashes faults
  | [], _ => rfl
  | hash :: hashes, faults => by
      have hget : storeGet w' hash = storeGet w hash := by
        unfold storeGet
        rw [hstore]
      rw [chunkFailure, chunkFailure, hget]
      cases faults 0 with
      | some e => rfl
      | none =>
          cases storeGet w hash with
          | error e => rfl
          | ok data => exact chunkFailure_congr hstore hashes _

/-- What fails later does not depend on the shares and the cache. -/
theorem laterFailure_counted (fileId : Bytes) (shares : List ShareRow)
    (redis : Bytes → Option RedisValue) (draws : Nat → Nat) :
    laterFailure svc pg fileId { s with world := { s.world with shares, redis, draws } } =
      laterFailure svc pg fileId s := by
  have hfind : fileFindById pg { s.world with shares, redis, draws } fileId =
      fileFindById pg s.world fileId := rfl
  have hchunks : ∀ hashes faults, chunkFailure { s.world with shares, redis, draws } hashes faults =
      chunkFailure s.world hashes faults := chunkFailure_congr rfl
  simp only [laterFailure, hfind, hchunks]

theorem early_resolveShare (token password : Bytes) (count : Bool) :
    (resolveShare svc token password count).CallsOnly fun c => isLater c = false := by
  unfold resolveShare
  split
  · exact callsOnly_answered svc _ _
  · refine callsOnly_bind (callsOnly_request rfl) fun found => ?_
    cases found with
    | none => exact callsOnly_answered svc _ _
    | some share =>
        dsimp only
        split
        · exact callsOnly_answered svc _ _
        · have hexpired := callsOnly_shareExpired (S := fun c => isLater c = false) rfl share
          refine callsOnly_bind hexpired fun expired => ?_
          split
          · exact callsOnly_answered svc _ _
          · refine callsOnly_bind (callsOnly_checkPassword svc share password) fun checked => ?_
            cases checked with
            | error resp => exact callsOnly_pure _
            | ok _ =>
                dsimp only
                split
                · exact callsOnly_answered svc _ _
                · split
                  · obtain ⟨rest, hsplit, hrest⟩ := @countDownload_rest svc
                      (fun c => isLater c = false) token rfl (fun _ => rfl) (fun _ => rfl) share
                    rw [hsplit]
                    exact callsOnly_bind (callsOnly_bind (callsOnly_request rfl) fun _ => hrest)
                      fun _ => callsOnly_pure _
                  · exact callsOnly_pure _

theorem counts_served (hpg : pg.Lawful svc.json) (token password : Bytes) :
    (resolveShare svc token password true).wp (ofExec (execServing svc pg))
      (fun r s' => ∃ w', Counts svc pg token password s.world r w' ∧ s' = { s with world := w' }) s := by
  rw [wp_ofExec, run_early (early_resolveShare token password true)]
  exact ⟨_, run_of_wp (counts_resolveShare hpg), rfl⟩

/-- What a counted request comes to before an exception is caught: an open share is counted,
and answered as the later steps go; another is not counted. -/
inductive Fetched (svc : Services) (pg : Postgres) (req : HttpRequest) (s : Serving) :
    Except Exn HttpResponse → Serving → Prop
  | counted {r : Except Exn HttpResponse} {s' : Serving} {row : ShareRow} {w : World} :
      Opens svc pg (req.getPathParam (ascii "token")) (sharePassword req) s.world row →
      w.shares = countedOnce row.id s.world.shares →
      Served (laterFailure svc pg row.fileId.text s) w r s' → Fetched svc pg req s r s'
  | uncounted {r : Except Exn HttpResponse} {s' : Serving} :
      (∀ row, ¬ Opens svc pg (req.getPathParam (ascii "token")) (sharePassword req) s.world row) →
      s'.world.shares = s.world.shares → Fetched svc pg req s r s'

theorem fetched_download (hjson : svc.json.Lawful) (hpg : pg.Lawful svc.json)
    (hcount : countsDownload req = true) (token password : Bytes)
    (htoken : token = req.getPathParam (ascii "token")) (hpassword : password = sharePassword req) :
    (do
      let resolved ← resolveShare svc token password (countsDownload req)
      match resolved with
      | .error resp => return resp
      | .ok share => deliverShare svc (isShareApiPreview req) share : App HttpResponse).wp
        (ofExec (execServing svc pg)) (Fetched svc pg req s) s := by
  subst htoken hpassword
  rw [hcount]
  refine wp_seq (counts_served hpg _ _) ?_ ?_
  · rintro resolved s₁ ⟨w₁, hcounts, rfl⟩
    generalize hr : (Except.ok resolved : Except Exn (Answered ShareRecord)) = r at hcounts
    cases hcounts with
    | opened redis draws hopens =>
        cases hr
        refine wp_mono (served_deliverShare hjson _ _ _) fun r s₂ hserved => ?_
        rw [laterFailure_counted] at hserved
        exact .counted hopens rfl hserved
    | refused hnot hrefused hshares =>
        subst hr
        cases resolved with
        | error resp => exact .uncounted hnot hshares
        | ok share => exact absurd rfl (hrefused share)
  · rintro e s₁ ⟨w₁, hcounts, rfl⟩
    generalize hr : (Except.error e : Except Exn (Answered ShareRecord)) = r at hcounts
    cases hcounts with
    | opened redis draws hopens => cases hr
    | refused hnot hrefused hshares => exact .uncounted hnot hshares

/-- The answer, when every exception has been caught. -/
inductive Downloaded (svc : Services) (pg : Postgres) (req : HttpRequest) (s : Serving) :
    Except Exn HttpResponse → Serving → Prop
  | delivered {resp : HttpResponse} {s' : Serving} {row : ShareRow} :
      Opens svc pg (req.getPathParam (ascii "token")) (sharePassword req) s.world row →
      laterFailure svc pg row.fileId.text s = none → resp.statusCode = 200 →
      Downloaded svc pg req s (.ok resp) s'
  | failed {resp : HttpResponse} {s' : Serving} {row : ShareRow} {what : Bytes} :
      Opens svc pg (req.getPathParam (ascii "token")) (sharePassword req) s.world row →
      laterFailure svc pg row.fileId.text s = some what → validUtf8 what = true →
      400 ≤ resp.statusCode → s'.world.shares = countedOnce row.id s.world.shares →
      Downloaded svc pg req s (.ok resp) s'
  | unanswered {e : Exn} {s' : Serving} {row : ShareRow} {what : Bytes} :
      Opens svc pg (req.getPathParam (ascii "token")) (sharePassword req) s.world row →
      laterFailure svc pg row.fileId.text s = some what → validUtf8 what ≠ true →
      Downloaded svc pg req s (.error e) s'
  | uncounted {r : Except Exn HttpResponse} {s' : Serving} :
      (∀ row, ¬ Opens svc pg (req.getPathParam (ascii "token")) (sharePassword req) s.world row) →
      s'.world.shares = s.world.shares → Downloaded svc pg req s r s'

theorem downloaded_handleShareDownload (hjson : svc.json.Lawful) (hpg : pg.Lawful svc.json)
    (hcount : countsDownload req = true) :
    (handleShareDownload svc req).wp (ofExec (execServing svc pg)) (Downloaded svc pg req s) s := by
  have hdownload : isShareApiDownload req = true := by
    unfold countsDownload at hcount
    exact (Bool.and_eq_true _ _ ▸ hcount).1
  have hstays : wantsSharePageRedirect req = false := by
    unfold wantsSharePageRedirect
    rw [hdownload]
    rfl
  refine wp_catch (M := Fetched svc pg req s) ?_ ?_ ?_
  · dsimp only
    split
    · rename_i hempty
      have hnot : ∀ row, ¬ Opens svc pg (req.getPathParam (ascii "token")) (sharePassword req)
          s.world row := fun row h => h.named hempty
      exact wp_setError svc 400 _ (fun _ _ => .uncounted hnot rfl) fun _ => .uncounted hnot rfl
    · rw [hstays]
      exact fetched_download hjson hpg hcount _ _ rfl rfl
  · intro resp s' hfetched
    cases hfetched with
    | counted hopens hshares hserved =>
        rcases hserved.answers resp rfl with ⟨hnone, h200⟩ | ⟨what, hwhat, hutf8, h404⟩
        · exact .delivered hopens hnone h200
        · refine .failed hopens hwhat hutf8 (by rw [h404]; decide) ?_
          rw [hserved.world, hshares]
    | uncounted hnot hshares => exact .uncounted hnot hshares
  · intro e s' hfetched
    cases hfetched with
    | counted hopens hshares hserved =>
        have hwhat := hserved.raises e rfl
        have hutf8 : validUtf8 (ascii "download failed: " ++ e.what) = validUtf8 e.what :=
          validUtf8_append_ascii (ascii_of_all (by decide))
        refine wp_setError_utf8 svc hjson 500 _ (fun hmsg resp h500 => ?_) fun hmsg e' => ?_
        · rw [hutf8] at hmsg
          refine .failed hopens hwhat hmsg (by rw [h500]; decide) ?_
          rw [hserved.world, hshares]
        · rw [hutf8] at hmsg
          exact .unanswered hopens hwhat hmsg
    | uncounted hnot hshares =>
        exact wp_setError svc 500 _ (fun _ _ => .uncounted hnot hshares)
          fun _ => .uncounted hnot hshares

/-- If the request is answered with an error, its share has not been counted. -/
def CostsNothing (svc : Services) (pg : Postgres) (req : HttpRequest) (s : Serving) : Prop :=
  ∀ resp, ((handleShareDownload svc req).run (execServing svc pg) s).1 = .ok resp →
    400 ≤ resp.statusCode →
    (shareOf ((handleShareDownload svc req).run (execServing svc pg) s).2.world
        (req.getPathParam (ascii "token"))).map (·.downloadCount) =
      (shareOf s.world (req.getPathParam (ascii "token"))).map (·.downloadCount)

/-- The download of a share that opens is counted, whatever comes of it. So a failed one
costs nothing exactly if the share does not open, or nothing fails afterwards (or what
fails cannot be put into an answer). -/
theorem costs_nothing_iff (hjson : svc.json.Lawful) (hpg : pg.Lawful svc.json)
    (hcount : countsDownload req = true) (s : Serving) :
    CostsNothing svc pg req s ↔
      ∀ row, Opens svc pg (req.getPathParam (ascii "token")) (sharePassword req) s.world row →
        ∀ what, laterFailure svc pg row.fileId.text s = some what → validUtf8 what = false := by
  have hdownloaded := wp_ofExec.mp (@downloaded_handleShareDownload svc pg s req hjson hpg hcount)
  unfold CostsNothing
  generalize (handleShareDownload svc req).run (execServing svc pg) s = ended at hdownloaded ⊢
  rcases ended with ⟨r, s'⟩
  cases hdownloaded with
  | delivered hopens hnone h200 =>
      constructor
      · intro _ row' hopens' what hwhat
        obtain rfl := hopens.unique hopens'
        cases hnone.symm.trans hwhat
      · rintro _ resp ⟨⟩ h400
        rw [h200] at h400
        exact absurd h400 (by decide)
  | failed hopens hwhat hutf8 h400 hshares =>
      constructor
      · intro hfree
        have hsame := hfree _ rfl h400
        have hrow := hopens.row
        unfold shareOf at hsame hrow
        rw [hshares, find_countedOnce_self hrow, hrow] at hsame
        simp only [Option.map_some, Option.some.injEq] at hsame
        omega
      · intro hfree
        rw [hfree _ hopens _ hwhat] at hutf8
        cases hutf8
  | unanswered hopens hwhat hutf8 =>
      constructor
      · intro _ row' hopens' what' hwhat'
        obtain rfl := hopens.unique hopens'
        cases hwhat.symm.trans hwhat'
        exact eq_false_of_ne_true hutf8
      · rintro _ resp ⟨⟩
  | uncounted hnot hshares =>
      constructor
      · exact fun _ row hopens => absurd hopens (hnot row)
      · intro _ resp _ _
        unfold shareOf
        rw [hshares]

end Request

/-- With the object there, the one download of the share is delivered. -/
theorem one_download_costs_nothing : CostsNothing sampleServices samplePostgres
    (shareRequest "X-Share-Download" "1") ⟨oneShare, none, fun _ => none⟩ := by
  refine (costs_nothing_iff sampleServices_lawful samplePostgres_lawful (by decide) _).mpr ?_
  intro row hopens what hwhat
  have hrow : shareOf oneShare sharedToken = some row := hopens.row
  cases hrow
  have hnone : laterFailure sampleServices samplePostgres (sampleId 1).text
      ⟨oneShare, none, fun _ => none⟩ = none := by decide +kernel
  cases hnone.symm.trans hwhat

/-- The object is lost: the answer is a 500, and the one download is used up. -/
theorem lost_object_costs_download : ¬ ∀ (svc : Services) (pg : Postgres) (req : HttpRequest)
    (s : Serving), svc.json.Lawful → pg.Lawful svc.json → countsDownload req = true →
      CostsNothing svc pg req s := by
  intro h
  let lost : Serving := ⟨{ oneShare with store := fun _ => none }, none, fun _ => none⟩
  let request := shareRequest "X-Share-Download" "1"
  have hfree := h sampleServices samplePostgres request lost sampleServices_lawful
    samplePostgres_lawful (by decide)
  have hcode : (((handleShareDownload sampleServices request).run
      (execServing sampleServices samplePostgres) lost).1.toOption.map (·.statusCode)) = some 500 := by
    decide +kernel
  have hcount : (shareOf ((handleShareDownload sampleServices request).run
      (execServing sampleServices samplePostgres) lost).2.world
        (request.getPathParam (ascii "token"))).map (·.downloadCount) = some 1 := by
    decide +kernel
  have hbefore : (shareOf lost.world (request.getPathParam (ascii "token"))).map
      (·.downloadCount) = some 0 := by decide +kernel
  unfold CostsNothing at hfree
  rw [hcount, hbefore] at hfree
  cases hr : ((handleShareDownload sampleServices request).run
      (execServing sampleServices samplePostgres) lost).1 with
  | error e =>
      rw [hr] at hcode
      cases hcode
  | ok resp =>
      rw [hr] at hcode
      have h500 : resp.statusCode = 500 := Option.some.inj hcode
      cases hfree resp hr (by rw [h500]; decide)

end SolarDrive.Runs
