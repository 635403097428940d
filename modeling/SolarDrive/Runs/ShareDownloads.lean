import SolarDrive.Api.Effects
import SolarDrive.Runs.History

/-!
# Counted and limited downloads of a share

`resolveShare` checks the limit on the row it has read and counts in a second
transaction. `Resolved` and `Visited` say what one request alone does to the
rows of shares; a sequence of requests follows by induction, and requests that
run side by side are a pool.
-/

namespace SolarDrive.Runs

open Lib Http Api Metadata Prog

/-- The share a token names. -/
def shareOf (w : World) (token : Bytes) : Option ShareRow :=
  w.shares.find? (·.shareToken = cstr token)

def disposition (resp : HttpResponse) : Bytes :=
  (resp.headers.lookup (ascii "Content-Disposition")).getD []

/-- The request was answered 200, with this kind of disposition. -/
def delivered (kind : String) : Except Exn HttpResponse → Bool
  | .ok resp => resp.statusCode == 200 && (ascii kind).isPrefixOf (disposition resp)
  | .error _ => false

/-- `count_download`. -/
def countsDownload (req : HttpRequest) : Bool := isShareApiDownload req && !isShareApiPreview req

/-! ## Rows of shares -/

section Rows

variable {shares : List ShareRow} {token : Bytes} {u : Uuid}

/-- Counting neither moves a row nor renames it. -/
theorem find_countedOnce :
    (countedOnce u shares).find? (·.shareToken = token) =
      (shares.find? (·.shareToken = token)).map fun s =>
        if s.id = u then { s with downloadCount := s.downloadCount + 1 } else s := by
  unfold countedOnce
  rw [List.find?_map]
  congr 2
  funext s
  by_cases hs : s.id = u <;> simp [hs]

/-- The same row, possibly downloaded more often. -/
structure Later (s s' : ShareRow) : Prop where
  id : s'.id = s.id
  maxDownloads : s'.maxDownloads = s.maxDownloads
  count_le : s.downloadCount ≤ s'.downloadCount

theorem later_countedOnce {s : ShareRow} (hs : shares.find? (·.shareToken = token) = some s) :
    ∃ s', (countedOnce u shares).find? (·.shareToken = token) = some s' ∧ Later s s' := by
  rw [find_countedOnce, hs]
  refine ⟨_, rfl, ?_⟩
  dsimp only
  split
  · exact ⟨rfl, rfl, by dsimp only; omega⟩
  · exact ⟨rfl, rfl, le_refl _⟩

theorem find_countedOnce_self {s : ShareRow} (hs : shares.find? (·.shareToken = token) = some s) :
    (countedOnce s.id shares).find? (·.shareToken = token) =
      some { s with downloadCount := s.downloadCount + 1 } := by
  rw [find_countedOnce, hs]
  simp

/-- The rows are the same, or one share has been counted. -/
def GrownBy (shares shares' : List ShareRow) : Prop :=
  shares' = shares ∨ ∃ u, shares' = countedOnce u shares

theorem GrownBy.later {shares' : List ShareRow} (h : GrownBy shares shares') {s : ShareRow}
    (hs : shares.find? (·.shareToken = token) = some s) :
    ∃ s', shares'.find? (·.shareToken = token) = some s' ∧ Later s s' := by
  rcases h with rfl | ⟨u, rfl⟩
  · exact ⟨s, hs, rfl, rfl, le_refl _⟩
  · exact later_countedOnce hs

end Rows

/-! ## What a history does to the counters -/

section Counters

variable {svc : Services} {pg : Postgres} {c : Call} {w w' : World} {r : Except Exn c.Resp}

/-- The calls that can change shares. -/
def touchesShares : Call → Bool
  | .shareInsert _ | .incrementDownloadCount _ | .revoke _ _ | .revokeByFileId _
  | .purgeContent _ => true
  | _ => false

theorem exec_shares (hpg : pg.Lawful svc.json) (hc : touchesShares c = false)
    (h : exec svc pg c w = (r, w')) :
    w'.shares = w.shares := by
  have hw : w' = (exec svc pg c w).2 := by rw [h]
  by_cases hr : readOnly c = true
  · obtain ⟨draws, hd⟩ := @exec_readOnly svc pg c hr w
    rw [hw, hd]
  cases c with
  | put data =>
      rcases exec_put h with ⟨rfl, -⟩ | ⟨rfl, -, rfl⟩ <;> rfl
  | redisSet key value ttl => rw [hw]; rfl
  | redisDel key => rw [hw]; rfl
  | hset key field value =>
      obtain ⟨redis, hh⟩ := hset_data key field value w
      have hw' : w' = (hset key field value w).2 := hw
      rw [hw', hh]
  | registerUser username password =>
      obtain ⟨users, rfl⟩ := exec_registerUser h
      rfl
  | folderInsert folder =>
      rcases exec_folderInsert h with rfl | ⟨row, -, rfl⟩ <;> rfl
  | folderSoftDelete id =>
      rcases exec_folderSoftDelete h with rfl | ⟨u, -, rfl⟩ <;> rfl
  | folderRename id name =>
      rcases exec_folderRename h with rfl | ⟨u, g, -, -, rfl⟩ <;> rfl
  | fileInsert file =>
      rcases exec_fileInsert hpg h with ⟨e, -, rfl⟩ | ⟨row, contents, d, -, -, -, -, rfl⟩ <;> rfl
  | insertLink file contentId =>
      rcases exec_insertLink h with ⟨e, -, rfl⟩ | ⟨row, -, -, rfl⟩ <;> rfl
  | fileSoftDelete id =>
      rcases exec_fileSoftDelete h with ⟨e, -, rfl⟩ | ⟨u, -, -, rfl⟩ <;> rfl
  | shareInsert record => cases hc
  | incrementDownloadCount id => cases hc
  | revoke id ownerId => cases hc
  | revokeByFileId fileId => cases hc
  | purgeContent content => cases hc
  | _ => exact absurd rfl hr

/-- Counters start at zero and only grow. -/
theorem counters_exec (hpg : pg.Lawful svc.json) (h : exec svc pg c w = (r, w'))
    (hw : ∀ s ∈ w.shares, 0 ≤ s.downloadCount) : ∀ s ∈ w'.shares, 0 ≤ s.downloadCount := by
  by_cases hc : touchesShares c = false
  · rwa [exec_shares hpg hc h]
  cases c with
  | shareInsert record =>
      rcases exec_shareInsert h with rfl | ⟨row, hnew, rfl⟩
      · exact hw
      · intro s hs
        rcases List.mem_append.mp hs with hs | hs
        · exact hw s hs
        · rw [List.mem_singleton.mp hs, hnew.downloadCount]
  | incrementDownloadCount id =>
      rcases increment_cases h with ⟨e, -, rfl⟩ | ⟨u, -, -, rfl⟩
      · exact hw
      · intro s hs
        obtain ⟨s₀, hs₀, rfl⟩ := List.mem_map.mp hs
        have h₀ := hw s₀ hs₀
        split
        · dsimp only
          omega
        · exact h₀
  | revoke id ownerId =>
      rcases exec_revoke h with rfl | ⟨u, owner, -, -, rfl⟩
      · exact hw
      · intro s hs
        obtain ⟨s₀, hs₀, rfl⟩ := List.mem_map.mp hs
        have h₀ := hw s₀ hs₀
        split <;> exact h₀
  | revokeByFileId fileId =>
      rcases exec_revokeByFileId h with ⟨e, -, -, rfl⟩ | ⟨u, -, -, rfl⟩
      · exact hw
      · intro s hs
        obtain ⟨s₀, hs₀, rfl⟩ := List.mem_map.mp hs
        have h₀ := hw s₀ hs₀
        split <;> exact h₀
  | purgeContent content =>
      cases exec_purgeContent h with
      | nothing => exact hw
      | swept _ b _ _ _ _ _ _ =>
          intro s hs
          cases b with
          | false => exact hw s hs
          | true => exact hw s (List.mem_of_mem_filter hs)
  | _ => exact absurd rfl hc

theorem counters_run (hpg : pg.Lawful svc.json) {α : Type} (p : App α)
    (hw : ∀ s ∈ w.shares, 0 ≤ s.downloadCount) :
    ∀ s ∈ (p.run (exec svc pg) w).2.shares, 0 ≤ s.downloadCount := by
  have hkeep : p.wp (ofExec (exec svc pg)) (fun _ w' => ∀ s ∈ w'.shares, 0 ≤ s.downloadCount) w :=
    wp_of_callsOnly (fun w' : World => ∀ s ∈ w'.shares, 0 ≤ s.downloadCount)
      (fun _ _ _ h₁ => ⟨trivial, fun _ _ hexec => counters_exec hpg hexec h₁⟩) (callsOnly_true p) hw
  exact run_of_wp hkeep

def CountersSane (w : World) : Prop := ∀ s ∈ w.shares, 0 ≤ s.downloadCount

/-- In every history no counter is negative. -/
theorem counters_history (hpg : pg.Lawful svc.json) (h₀ : Initial w) (actions : List Action) :
    CountersSane (actions.foldl (act svc pg) w) := by
  have hstart : CountersSane w := by
    intro s hs
    rw [h₀.shares] at hs
    cases hs
  refine history_invariant hstart (fun w a hw => ?_) actions
  cases a with
  | request route req => exact counters_run hpg _ hw
  | collect batchLimit => exact counters_run hpg _ hw
  | tick time => exact hw
  | expire key => exact hw

end Counters

/-! ## One request alone -/

section Alone

variable {svc : Services} {pg : Postgres} {w : World}

/-- A result known from what ends the part. -/
theorem finds_ended {α : Type} {p : App α} {G : α → Prop}
    (hp : p.wp (ofExec (exec svc pg)) (fun r w' => w' = w ∧ ∀ a, r = .ok a → G a) w) :
    Finds svc pg p w G := by
  refine wp_mono hp ?_
  rintro r _ ⟨rfl, hr⟩
  exact ⟨⟨_, rfl⟩, hr⟩

theorem finds_setError (code : Int) (msg : Bytes) :
    Finds svc pg (svc.setError code msg) w fun resp => resp.statusCode = code := by
  refine finds_ended (wp_setError svc code msg ?_ fun e => ⟨rfl, nofun⟩)
  intro resp hresp
  refine ⟨rfl, ?_⟩
  rintro _ ⟨⟩
  exact hresp

/-- An answer other than 200. -/
def Refused {α : Type} (a : Answered α) : Prop := ∃ resp, a = .error resp ∧ resp.statusCode ≠ 200

theorem finds_refuse {α : Type} (code : Int) (msg : String) (hcode : code ≠ 200) :
    Finds svc pg (refuse svc code msg : App (Answered α)) w Refused := by
  refine finds_ended (wp_refuse svc code msg ?_ fun e => ⟨rfl, nofun⟩)
  rintro resp hresp
  refine ⟨rfl, ?_⟩
  rintro _ ⟨⟩
  exact ⟨resp, rfl, by rwa [hresp]⟩

theorem finds_checkPassword (share : ShareRecord) (password : Bytes) :
    Finds svc pg (checkPassword svc share password) w fun a => Refused a ∨ a = .ok () := by
  refine finds_ended (wp_checkPassword svc share password ⟨rfl, ?_⟩ ?_ fun e => ⟨rfl, nofun⟩)
  · rintro _ ⟨⟩
    exact Or.inr rfl
  · intro resp hresp
    refine ⟨rfl, ?_⟩
    rintro _ ⟨⟩
    exact Or.inl ⟨resp, rfl, by omega⟩

theorem findByToken_ok {token : Bytes} {found : Option ShareRecord}
    (h : findByToken pg w token = .ok found) : found = (shareOf w token).map (shareRecord pg) := by
  simp only [findByToken, bind_eq_ok] at h
  obtain ⟨t, ht, hret⟩ := h
  obtain ⟨-, rfl⟩ := textParam_ok.mp ht
  exact (Except.ok.inj hret).symm

theorem findByToken_text {token : Bytes} (htext : validUtf8 (cstr token) = true) :
    findByToken pg w token = .ok ((shareOf w token).map (shareRecord pg)) := by
  unfold findByToken
  rw [textParam_ok.mpr ⟨htext, rfl⟩]
  rfl

/-- What follows a lookup by the token goes on with the row, in the world as it was. -/
theorem wp_findByToken {token : Bytes} {β : Type} {f : Option ShareRecord → App β}
    {Q : Except Exn β → World → Prop}
    (hfound : validUtf8 (cstr token) = true →
      (f ((shareOf w token).map (shareRecord pg))).wp (ofExec (exec svc pg)) Q w)
    (hrefused : validUtf8 (cstr token) ≠ true → ∀ e, Q (.error e) w) :
    (ask (.findByToken token) >>= f).wp (ofExec (exec svc pg)) Q w := by
  refine wp_request_bind trivial ?_ ?_
  · intro found w₁ hexec
    obtain ⟨hanswer, rfl⟩ := Prod.mk.inj
      (show (findByToken pg w token, w) = (Except.ok found, w₁) from hexec)
    obtain rfl := findByToken_ok hanswer
    refine hfound ?_
    simp only [findByToken, bind_eq_ok] at hanswer
    obtain ⟨t, ht, -⟩ := hanswer
    exact (textParam_ok.mp ht).1
  · intro e w₁ hexec
    obtain ⟨hanswer, rfl⟩ := Prod.mk.inj
      (show (findByToken pg w token, w) = (Except.error e, w₁) from hexec)
    refine hrefused (fun htext => ?_) e
    cases (findByToken_text htext).symm.trans hanswer

/-- What `resolve_share` does to the rows when it is the only one. -/
inductive Resolved (token : Bytes) (count : Bool) (shares : List ShareRow) :
    Except Exn (Answered ShareRecord) → World → Prop
  | failed {e : Exn} {w' : World} : GrownBy shares w'.shares →
      Resolved token count shares (.error e) w'
  | refused {a : Answered ShareRecord} {w' : World} : Refused a → w'.shares = shares →
      Resolved token count shares (.ok a) w'
  | seen {share : ShareRecord} {w' : World} : count = false → w'.shares = shares →
      Resolved token count shares (.ok (.ok share)) w'
  | counted {share : ShareRecord} {w' : World} {s : ShareRow} : count = true →
      shares.find? (·.shareToken = cstr token) = some s →
      (0 < s.maxDownloads → s.downloadCount < s.maxDownloads) →
      w'.shares = countedOnce s.id shares → Resolved token count shares (.ok (.ok share)) w'

/-- The counter is incremented by one, whatever happens to the cached record. -/
theorem resolved_countDownload (hpg : pg.Lawful svc.json) (token : Bytes) (s : ShareRow) :
    (countDownload svc token (shareRecord pg s)).wp (ofExec (exec svc pg))
      (fun r w' => (∀ a, r = .ok a → w'.shares = countedOnce s.id w.shares) ∧
        GrownBy w.shares w'.shares) w := by
  obtain ⟨rest, hsplit, hrest⟩ := countDownload_split svc token (shareRecord pg s)
  rw [hsplit]
  refine wp_request_bind trivial ?_ ?_
  · intro _ w₁ hexec
    rcases increment_cases hexec with ⟨e, he, -⟩ | ⟨u, hu, -, rfl⟩
    · cases he
    · obtain rfl : u = s.id := Except.ok.inj (hu.symm.trans (uuidParam_text hpg s.id))
      refine wp_mono (wp_of_callsOnly
        (fun w' => w'.shares = countedOnce s.id w.shares) ?_ hrest rfl) ?_
      · rintro w₁ c hc h₁
        refine ⟨trivial, fun r w₂ hexec₂ => ?_⟩
        have hkeep : touchesShares c = false := by
          rcases hc with hc | ⟨text, rfl⟩
          · cases c <;> first | rfl | cases hc
          · rfl
        rw [exec_shares hpg hkeep hexec₂, h₁]
      · rintro r w' hw'
        exact ⟨fun _ _ => hw', Or.inr ⟨s.id, hw'⟩⟩
  · intro e w₁ hexec
    rcases increment_cases hexec with ⟨_, -, rfl⟩ | ⟨_, -, h, -⟩
    · refine ⟨?_, Or.inl rfl⟩
      rintro _ ⟨⟩
    · cases h

/-- A part that only reads, seen as a way to be resolved. -/
theorem resolved_of_finds {token : Bytes} {count : Bool} {shares : List ShareRow}
    {p : App (Answered ShareRecord)} (hw : w.shares = shares) (hp : Finds svc pg p w Refused) :
    p.wp (ofExec (exec svc pg)) (Resolved token count shares) w := by
  refine wp_mono hp ?_
  rintro r _ ⟨⟨draws, rfl⟩, hr⟩
  cases r with
  | error e => exact .failed (Or.inl hw)
  | ok a => exact .refused (hr a rfl) hw

theorem resolved_of_token (hpg : pg.Lawful svc.json) (token password : Bytes) (count : Bool) :
    (resolveShare svc token password count).wp (ofExec (exec svc pg))
      (Resolved token count w.shares) w := by
  have herr : ∀ (e : Exn) draws, Resolved token count w.shares (.error e) { w with draws } :=
    fun e draws => .failed (Or.inl rfl)
  unfold resolveShare
  split
  · exact resolved_of_finds rfl (finds_refuse 400 _ (by decide))
  · refine wp_finds_bind (finds_ask rfl) (fun found draws hfound => ?_) herr
    have hshare := findByToken_ok hfound
    cases hs : shareOf w token with
    | none =>
        rw [hs] at hshare
        subst hshare
        exact resolved_of_finds rfl (finds_refuse 404 _ (by decide))
    | some s =>
        rw [hs] at hshare
        subst hshare
        dsimp only [Option.map_some]
        split
        · exact resolved_of_finds rfl (finds_refuse 403 _ (by decide))
        · refine wp_finds_bind (finds_reads (reads_shareExpired _)) (fun expired draws _ => ?_) herr
          split
          · exact resolved_of_finds rfl (finds_refuse 410 _ (by decide))
          · refine wp_finds_bind (finds_checkPassword _ _) (fun checked draws hchecked => ?_) herr
            rcases hchecked with ⟨resp, rfl, hresp⟩ | rfl
            · exact .refused ⟨resp, rfl, hresp⟩ rfl
            · dsimp only
              split
              · exact resolved_of_finds rfl (finds_refuse 403 _ (by decide))
              · rename_i hlimit
                cases count with
                | false => exact .seen rfl rfl
                | true =>
                    refine wp_seq (resolved_countDownload hpg token s) ?_ ?_
                    · rintro _ w' ⟨hcounted, -⟩
                      refine .counted rfl hs (fun hmax => ?_) (hcounted () rfl)
                      by_contra hge
                      exact hlimit ⟨rfl, hmax, not_lt.mp hge⟩
                    · rintro e w' ⟨-, hgrown⟩
                      exact .failed hgrown

/-- The disposition `handle_download` writes. -/
def Disposed (preview : Bool) (resp : HttpResponse) : Prop :=
  ∃ rest, disposition resp = ascii (if preview then "inline" else "attachment") ++ rest

theorem finds_deliverShare (preview : Bool) (share : ShareRecord) :
    Finds svc pg (deliverShare svc preview share) w fun resp =>
      resp.statusCode = 200 → Disposed preview resp := by
  refine finds_bind (finds_reads (reads_ask rfl)) fun file draws _ => ?_
  cases file with
  | none =>
      refine wp_mono (finds_setError 404 _) ?_
      rintro r w' ⟨hw', hr⟩
      refine ⟨hw', fun resp hresp h200 => ?_⟩
      rw [hr resp hresp] at h200
      exact absurd h200 (by decide)
  | some f =>
      refine finds_bind (finds_reads (reads_ask rfl)) fun chunkArr draws _ => ?_
      refine finds_bind (finds_reads (reads_ofJson _)) fun hashes draws _ => ?_
      refine finds_bind (finds_reads (reads_getChunked hashes)) fun content draws _ => ?_
      refine finds_pure fun _ => ⟨ascii "; filename=\"" ++ f.name ++ ascii "\"", ?_⟩
      unfold disposition HttpResponse.setBinary HttpResponse.setHeader
      dsimp only
      rw [lookup_setKey_ne (by decide), lookup_setKey_ne (by decide), lookup_setKey_self,
        Option.getD_some, ← List.append_assoc, ← List.append_assoc]
      cases preview <;> rfl

/-- What a request for a share does to the rows when it is the only one. -/
inductive Visited (req : HttpRequest) (shares : List ShareRow) :
    Except Exn HttpResponse → World → Prop
  | undelivered {answer : Except Exn HttpResponse} {w' : World} : GrownBy shares w'.shares →
      (∀ resp, answer = .ok resp → resp.statusCode ≠ 200) → Visited req shares answer w'
  | seen {resp : HttpResponse} {w' : World} : wantsSharePageRedirect req = false →
      countsDownload req = false → Disposed (isShareApiPreview req) resp → w'.shares = shares →
      Visited req shares (.ok resp) w'
  | counted {resp : HttpResponse} {w' : World} {s : ShareRow} : countsDownload req = true →
      Disposed (isShareApiPreview req) resp →
      shares.find? (·.shareToken = cstr (req.getPathParam (ascii "token"))) = some s →
      (0 < s.maxDownloads → s.downloadCount < s.maxDownloads) →
      w'.shares = countedOnce s.id shares → Visited req shares (.ok resp) w'

theorem visited_of_finds {req : HttpRequest} {shares : List ShareRow} {p : App HttpResponse}
    (hw : GrownBy shares w.shares) (hp : Finds svc pg p w fun resp => resp.statusCode ≠ 200) :
    p.wp (ofExec (exec svc pg)) (Visited req shares) w := by
  refine wp_mono hp ?_
  rintro r _ ⟨⟨draws, rfl⟩, hr⟩
  exact .undelivered hw hr

theorem finds_setError_ne (code : Int) (msg : Bytes) (hcode : code ≠ 200) :
    Finds svc pg (svc.setError code msg) w fun resp => resp.statusCode ≠ 200 := by
  refine wp_mono (finds_setError code msg) ?_
  rintro r w' ⟨hw', hr⟩
  refine ⟨hw', fun resp hresp => ?_⟩
  have hstatus : resp.statusCode = code := hr resp hresp
  exact fun h200 => hcode (hstatus.symm.trans h200)

/-- The answer to a share that has been resolved. -/
theorem visited_deliverShare {req : HttpRequest} {shares : List ShareRow} {preview : Bool}
    {share : ShareRecord} (hw : GrownBy shares w.shares)
    (hok : ∀ resp w', Disposed preview resp → w'.shares = w.shares →
      Visited req shares (.ok resp) w') :
    (deliverShare svc preview share).wp (ofExec (exec svc pg)) (Visited req shares) w := by
  refine wp_mono (finds_deliverShare preview share) ?_
  rintro r _ ⟨⟨draws, rfl⟩, hr⟩
  by_cases h200 : ∀ resp, r = .ok resp → resp.statusCode ≠ 200
  · exact .undelivered hw h200
  · push Not at h200
    obtain ⟨resp, rfl, h200⟩ := h200
    exact hok resp _ (hr resp rfl h200) rfl

theorem visited_handleShareDownload (hpg : pg.Lawful svc.json) (req : HttpRequest) :
    (handleShareDownload svc req).wp (ofExec (exec svc pg)) (Visited req w.shares) w := by
  refine wp_catch (M := Visited req w.shares) ?_ (fun _ _ h => h) ?_
  · dsimp only
    split
    · exact visited_of_finds (Or.inl rfl) (finds_setError_ne 400 _ (by decide))
    · split
      · refine visited_of_finds (Or.inl rfl) (finds_pure ?_)
        show (302 : Int) ≠ 200
        decide
      · rename_i hredirect
        refine wp_seq (resolved_of_token hpg _ _ _) ?_ ?_
        · intro resolved w₁ hresolved
          cases hresolved with
          | refused hrefused hw₁ =>
              obtain ⟨resp, rfl, hresp⟩ := hrefused
              exact visited_of_finds (Or.inl hw₁) (finds_pure hresp)
          | seen hcount hw₁ =>
              refine visited_deliverShare (Or.inl hw₁) fun resp w' hdisposed hw' => ?_
              exact .seen (eq_false_of_ne_true hredirect) hcount hdisposed (hw'.trans hw₁)
          | counted hcount hs hlimit hw₁ =>
              refine visited_deliverShare (Or.inr ⟨_, hw₁⟩) fun resp w' hdisposed hw' => ?_
              exact .counted hcount hdisposed hs hlimit (hw'.trans hw₁)
        · intro e w₁ hresolved
          cases hresolved with
          | failed hgrown => exact .undelivered hgrown fun _ h => nomatch h
  · intro e w₁ hvisited
    cases hvisited with
    | undelivered hgrown _ => exact visited_of_finds hgrown (finds_setError_ne 500 _ (by decide))

end Alone

/-! ## Requests one after the other -/

/-- A request, and the time at which it arrives. -/
def visit (svc : Services) (pg : Postgres) (w : World) (v : Int × HttpRequest) :
    Except Exn HttpResponse × World :=
  serve svc pg .shareDownload v.2 { w with time := v.1 }

def afterVisits (svc : Services) (pg : Postgres) (visits : List (Int × HttpRequest)) (w : World) :
    World :=
  visits.foldl (fun w v => (visit svc pg w v).2) w

/-- How many of the requests with this token are answered with an attachment. -/
def attachments (svc : Services) (pg : Postgres) (token : Bytes) :
    List (Int × HttpRequest) → World → Nat
  | [], _ => 0
  | v :: visits, w =>
      (if cstr (v.2.getPathParam (ascii "token")) = token ∧
          delivered "attachment" (visit svc pg w v).1 = true then 1 else 0) +
        attachments svc pg token visits (visit svc pg w v).2

/-- The request says what it is for, or is sent to the page. -/
def Announced (req : HttpRequest) : Prop :=
  isShareApiDownload req = true ∨ isShareApiPreview req = true ∨ wantsSharePageRedirect req = true

section Sequential

variable {svc : Services} {pg : Postgres} {w w' : World} {req : HttpRequest}
  {shares : List ShareRow} {answer : Except Exn HttpResponse}

theorem visited_visit (hpg : pg.Lawful svc.json) (w : World) (v : Int × HttpRequest) :
    Visited v.2 w.shares (visit svc pg w v).1 (visit svc pg w v).2 :=
  run_of_wp (@visited_handleShareDownload svc pg { w with time := v.1 } hpg v.2)

theorem not_delivered (h : ∀ resp, answer = .ok resp → resp.statusCode ≠ 200) (kind : String) :
    delivered kind answer = false := by
  cases answer with
  | error e => rfl
  | ok resp => simp [delivered, h resp rfl]

theorem delivered_disposed {preview : Bool} {resp : HttpResponse} (h : Disposed preview resp) :
    (delivered "attachment" (.ok resp) = true → preview = false) ∧
      (delivered "inline" (.ok resp) = true → preview = true) := by
  obtain ⟨rest, hrest⟩ := h
  simp only [delivered, hrest, Bool.and_eq_true, List.isPrefixOf_iff_prefix]
  cases preview with
  | false =>
      refine ⟨fun _ => rfl, ?_⟩
      rintro ⟨-, t, ht⟩
      cases ht
  | true =>
      refine ⟨?_, fun _ => rfl⟩
      rintro ⟨-, t, ht⟩
      cases ht

theorem Visited.grown (h : Visited req shares answer w') : GrownBy shares w'.shares := by
  cases h with
  | undelivered hgrown _ => exact hgrown
  | seen _ _ _ hw => exact Or.inl hw
  | counted _ _ _ _ hw => exact Or.inr ⟨_, hw⟩

/-- An announced request that is answered with an attachment is a counted one. -/
theorem Visited.attached (h : Visited req shares answer w') (hreq : Announced req)
    (hanswer : delivered "attachment" answer = true) : ∃ s,
    shares.find? (·.shareToken = cstr (req.getPathParam (ascii "token"))) = some s ∧
      (0 < s.maxDownloads → s.downloadCount < s.maxDownloads) ∧
        w'.shares = countedOnce s.id shares := by
  cases h with
  | undelivered _ hne =>
      rw [not_delivered hne] at hanswer
      cases hanswer
  | seen hredirect hcount hdisposed _ =>
      have hpreview := (delivered_disposed hdisposed).1 hanswer
      rcases hreq with hdownload | hpreview' | hredirect'
      · simp [countsDownload, hdownload, hpreview] at hcount
      · rw [hpreview] at hpreview'
        cases hpreview'
      · rw [hredirect] at hredirect'
        cases hredirect'
  | counted _ _ hs hlimit hw => exact ⟨_, hs, hlimit, hw⟩

theorem Visited.inlined (h : Visited req shares answer w')
    (hanswer : delivered "inline" answer = true) : w'.shares = shares := by
  cases h with
  | undelivered _ hne =>
      rw [not_delivered hne] at hanswer
      cases hanswer
  | seen _ _ _ hw => exact hw
  | counted hcount hdisposed _ _ _ =>
      have hpreview := (delivered_disposed hdisposed).2 hanswer
      simp [countsDownload, hpreview] at hcount

/-- What is left of the limit bounds the attachments to come. -/
theorem attachments_le (hpg : pg.Lawful svc.json) {token : Bytes}
    (visits : List (Int × HttpRequest)) (hvisits : ∀ v ∈ visits, Announced v.2) {s : ShareRow}
    (hs : w.shares.find? (·.shareToken = token) = some s) (hmax : 0 < s.maxDownloads) :
    (attachments svc pg token visits w : Int) ≤ max 0 (s.maxDownloads - s.downloadCount) := by
  induction visits generalizing w s with
  | nil => exact le_max_left _ _
  | cons v visits ih =>
      have hvisited := visited_visit hpg w v
      have hrest := fun u hu => hvisits u (List.mem_cons_of_mem v hu)
      rw [attachments]
      split
      · rename_i hattached
        obtain ⟨s₁, hs₁, hlimit, hw'⟩ := hvisited.attached (hvisits v List.mem_cons_self) hattached.2
        rw [hattached.1, hs] at hs₁
        cases hs₁
        have hnext := find_countedOnce_self hs
        rw [← hw'] at hnext
        have hle := ih hrest hnext hmax
        have hlt := hlimit hmax
        dsimp only at hle
        push_cast
        omega
      · obtain ⟨s', hs', hlater⟩ := hvisited.grown.later hs
        have hmax' : 0 < s'.maxDownloads := by rwa [hlater.maxDownloads]
        have hle := ih hrest hs' hmax'
        rw [hlater.maxDownloads] at hle
        have hcount := hlater.count_le
        push_cast
        omega

/-- **Announced downloads are counted and limited.** In a sequence of requests
that all say what they are for, every attachment counts one download of the
share, a preview leaves the shares as they are, and a limit is never exceeded. -/
theorem attachments_counted (hpg : pg.Lawful svc.json) (visits : List (Int × HttpRequest))
    (hvisits : ∀ v ∈ visits, Announced v.2) :
    (∀ before v later, visits = before ++ v :: later →
      (delivered "attachment" (visit svc pg (afterVisits svc pg before w) v).1 = true → ∃ s,
        shareOf (afterVisits svc pg before w) (v.2.getPathParam (ascii "token")) = some s ∧
          shareOf (visit svc pg (afterVisits svc pg before w) v).2
              (v.2.getPathParam (ascii "token")) =
            some { s with downloadCount := s.downloadCount + 1 }) ∧
      (delivered "inline" (visit svc pg (afterVisits svc pg before w) v).1 = true →
        (visit svc pg (afterVisits svc pg before w) v).2.shares =
          (afterVisits svc pg before w).shares)) ∧
    ∀ s, w.shares.find? (·.shareToken = s.shareToken) = some s → 0 ≤ s.downloadCount →
      0 < s.maxDownloads →
        (attachments svc pg s.shareToken visits w : Int) ≤ s.maxDownloads := by
  constructor
  · rintro before v later rfl
    have hvisited := visited_visit hpg (afterVisits svc pg before w) v
    constructor
    · intro hattached
      have hv : Announced v.2 := hvisits v (List.mem_append_right _ List.mem_cons_self)
      obtain ⟨s, hs, -, hw'⟩ := hvisited.attached hv hattached
      refine ⟨s, hs, ?_⟩
      unfold shareOf
      rw [hw']
      exact find_countedOnce_self hs
    · exact hvisited.inlined
  · intro s hs hcount hmax
    have hle := attachments_le hpg visits hvisits hs hmax
    omega

end Sequential

/-! ### A share with one download -/

def sharedToken : Bytes := ascii "abcdefgh"

def onceRow : ShareRow where
  id := sampleId 5
  fileId := sampleId 1
  ownerId := aliceId
  shareToken := sharedToken
  passwordHash := none
  expiresAt := none
  maxDownloads := 1
  downloadCount := 0
  createdAt := 0
  isRevoked := false

/-- Alice's file, shared for one download. -/
def oneShare : World := { oneFile with shares := [onceRow] }

/-- A request for the share with one more header. -/
def shareRequest (key value : String) : HttpRequest where
  method := .GET
  pathParams := [(ascii "token", sharedToken)]
  headers := [(ascii key, ascii value)]

/-- The front end gets its one download, and no second one. -/
theorem announced_at_most_once :
    (attachments sampleServices samplePostgres sharedToken
      (List.replicate 2 (0, shareRequest "X-Share-Download" "1")) oneShare : Int) ≤ 1 ∧
      delivered "attachment" (visit sampleServices samplePostgres oneShare
        (0, shareRequest "X-Share-Download" "1")).1 = true := by
  have hvisits : ∀ v ∈ List.replicate 2 ((0 : Int), shareRequest "X-Share-Download" "1"),
      Announced v.2 := by
    intro v hv
    rw [List.eq_of_mem_replicate hv]
    exact Or.inl (by decide)
  have hfound : oneShare.shares.find? (·.shareToken = onceRow.shareToken) = some onceRow := by
    simp [oneShare]
  have hmax : 0 < onceRow.maxDownloads := by decide
  refine ⟨?_, by decide +kernel⟩
  exact (attachments_counted samplePostgres_lawful _ hvisits).2 onceRow hfound (le_refl 0) hmax

/-- A client that accepts JSON and sends neither header is given the file each
time, and is not counted. -/
theorem unannounced_uncounted :
    attachments sampleServices samplePostgres sharedToken
        (List.replicate 2 (0, shareRequest "Accept" "application/json")) oneShare = 2 ∧
      (afterVisits sampleServices samplePostgres
        (List.replicate 2 (0, shareRequest "Accept" "application/json")) oneShare).shares.map
          (fun s => (s.maxDownloads, s.downloadCount)) = [(1, 0)] := by
  decide +kernel

end SolarDrive.Runs
