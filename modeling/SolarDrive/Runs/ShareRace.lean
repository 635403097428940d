import SolarDrive.Runs.ShareDownloads

/-!
# Downloads of a share side by side

The limit is checked on the row `find_by_token` returned, and the counter is
incremented by a later statement that does not look at the limit. As long as
no increment comes upon a share that has reached its limit in the meantime,
the requests answered with the file are no more than the limit: every one of
them has the increment in its log.
-/

namespace SolarDrive.Runs

open Lib Http Api Metadata Prog

/-- The calls of a download: of the shares it changes only counters. -/
def countsOnly : Call → Bool
  | .incrementDownloadCount _ => true
  | c => !touchesShares c

/-- The token names the share with this id all along. -/
def NamesShare (token id : Bytes) : (c : Call) → Except Exn c.Resp → Prop
  | .findByToken t, r => ∀ share, r = .ok (some share) → cstr t = token → share.id = id
  | _, _ => True

def Counted (id : Bytes) (log : Log) : Prop :=
  (⟨.incrementDownloadCount id, .ok ()⟩ : Event Call Call.Resp Exn) ∈ log

abbrev downloadLogs (token id : Bytes) : Interface Call Call.Resp Exn Log :=
  logInterface (fun _ c => countsOnly c = true) (NamesShare token id)

section Handler

variable {svc : Services} {token id : Bytes} {log : Log} {α : Type}

theorem countsOnly_of_reads {c : Call} (hc : readOnly c = true) : countsOnly c = true := by
  cases c <;> first | rfl | cases hc

theorem grows_looking {p : App α} (hp : Reads p) :
    p.wp (downloadLogs token id) (Grows (fun _ _ => True) log) log :=
  grows_of_callsOnly (S := fun c => readOnly c = true) (fun _ hc _ => countsOnly_of_reads hc) hp

/-- A result known from what ends the part. -/
theorem grows_ended {p : App α} {G : α → Log → Prop}
    (hp : p.wp (downloadLogs token id) (fun r log' => log' = log ∧ ∀ a, r = .ok a → G a log) log) :
    p.wp (downloadLogs token id) (Grows G log) log := by
  refine wp_mono hp ?_
  rintro r _ ⟨rfl, hr⟩
  exact ⟨List.Subset.refl _, hr⟩

/-- An answer 200 is given to a counted request. -/
abbrev CountedAnswer (id : Bytes) (resp : HttpResponse) (log : Log) : Prop :=
  resp.statusCode = 200 → Counted id log

theorem grows_setError (code : Int) (msg : Bytes) (hcode : code ≠ 200) :
    (svc.setError code msg).wp (downloadLogs token id) (Grows (CountedAnswer id) log) log := by
  refine grows_ended (wp_setError svc code msg ?_ fun e => ⟨rfl, nofun⟩)
  intro resp hresp
  refine ⟨rfl, ?_⟩
  rintro _ ⟨⟩
  exact fun h200 => absurd (hresp.symm.trans h200) hcode

/-- Who gets past a check has been counted, and who does not is refused. -/
def Passed (id : Bytes) (a : Answered α) (log : Log) : Prop :=
  match a with
  | .error resp => resp.statusCode ≠ 200
  | .ok _ => Counted id log

theorem grows_refuse (code : Int) (msg : String) (hcode : code ≠ 200) :
    (refuse svc code msg : App (Answered α)).wp (downloadLogs token id) (Grows (Passed id) log)
      log := by
  refine grows_ended (wp_refuse svc code msg ?_ fun e => ⟨rfl, nofun⟩)
  intro resp hresp
  refine ⟨rfl, ?_⟩
  rintro _ ⟨⟩
  show resp.statusCode ≠ 200
  rwa [hresp]

theorem grows_checkPassword (share : ShareRecord) (password : Bytes) :
    (checkPassword svc share password).wp (downloadLogs token id)
      (Grows (fun a _ => ∀ resp, a = .error resp → resp.statusCode ≠ 200) log) log := by
  refine grows_ended (wp_checkPassword svc share password ⟨rfl, ?_⟩ ?_ fun e => ⟨rfl, nofun⟩)
  · rintro _ ⟨⟩
    exact nofun
  · intro resp hresp
    refine ⟨rfl, ?_⟩
    rintro _ ⟨⟩ _ ⟨⟩
    omega

theorem grows_countDownload (t : Bytes) (share : ShareRecord) :
    (countDownload svc t share).wp (downloadLogs token id)
      (Grows (fun _ log' => Counted share.id log') log) log := by
  obtain ⟨rest, hsplit, hrest⟩ := countDownload_split svc t share
  rw [hsplit]
  refine grows_bind (grows_request rfl) fun _ log' _ hmem => ?_
  refine wp_mono (grows_of_callsOnly ?_ hrest) ?_
  · rintro c hc _
    rcases hc with hc | ⟨text, rfl⟩
    · exact countsOnly_of_reads hc
    · rfl
  · rintro r log'' ⟨hsub, -⟩
    exact ⟨hsub, fun _ _ => hsub hmem.1⟩

theorem grows_resolveShare {t : Bytes} (ht : cstr t = token) (password : Bytes) :
    (resolveShare svc t password true).wp (downloadLogs token id) (Grows (Passed id) log) log := by
  unfold resolveShare
  split
  · exact grows_refuse 400 _ (by decide)
  · refine grows_bind (grows_request rfl) fun found log₁ _ hfound => ?_
    cases found with
    | none => exact grows_refuse 404 _ (by decide)
    | some share =>
        have hid : share.id = id := hfound.2 share rfl ht
        dsimp only
        split
        · exact grows_refuse 403 _ (by decide)
        · refine grows_bind (grows_looking (reads_shareExpired share)) fun expired log₂ _ _ => ?_
          split
          · exact grows_refuse 410 _ (by decide)
          · refine grows_bind (grows_checkPassword share password) fun checked log₃ _ hchecked => ?_
            cases checked with
            | error resp => exact grows_pure (hchecked resp rfl)
            | ok _ =>
                dsimp only
                split
                · exact grows_refuse 403 _ (by decide)
                · refine grows_bind (grows_countDownload t share) fun _ log₄ _ hcounted => ?_
                  exact grows_pure (hid ▸ hcounted)

theorem grows_counted_request {req : HttpRequest} (hcount : countsDownload req = true)
    (ht : cstr (req.getPathParam (ascii "token")) = token) :
    (handleShareDownload svc req).wp (downloadLogs token id) (Grows (CountedAnswer id) log)
      log := by
  have hcount' : (isShareApiDownload req && !isShareApiPreview req) = true := hcount
  refine wp_catch (M := Grows (CountedAnswer id) log) ?_ (fun _ _ h => h) ?_
  · dsimp only
    split
    · exact grows_setError 400 _ (by decide)
    · split
      · refine grows_pure fun h200 => ?_
        have h302 : (302 : Int) = 200 := h200
        cases h302
      · rw [hcount']
        refine grows_bind (grows_resolveShare ht _) fun resolved log₁ _ hpassed => ?_
        cases resolved with
        | error resp => exact grows_pure fun h200 => absurd h200 hpassed
        | ok share =>
            refine wp_mono (grows_looking (reads_deliverShare svc _ share)) ?_
            rintro r log₂ ⟨hsub, -⟩
            exact ⟨hsub, fun _ _ _ => hsub hpassed⟩
  · rintro e log₁ ⟨hsub, -⟩
    refine wp_mono (grows_setError 500 _ (by decide)) ?_
    rintro r log₂ ⟨hsub', hr⟩
    exact ⟨List.Subset.trans hsub hsub', hr⟩

/-- A counted request for the share that is answered with the file. -/
theorem grows_handleShareDownload (req : HttpRequest) :
    (handleShareDownload svc req).wp (downloadLogs token id)
      (Grows (fun resp log' => resp.statusCode = 200 → countsDownload req = true →
        cstr (req.getPathParam (ascii "token")) = token → Counted id log') log) log := by
  by_cases hreq : countsDownload req = true ∧ cstr (req.getPathParam (ascii "token")) = token
  · refine wp_mono (grows_counted_request hreq.1 hreq.2) ?_
    rintro r log' ⟨hsub, hr⟩
    exact ⟨hsub, fun resp hresp h200 _ _ => hr resp hresp h200⟩
  · have hcalls : (handleShareDownload svc req).CallsOnly fun c => countsOnly c = true :=
      callsOnly_handleShareDownload (fun _ => countsOnly_of_reads) svc req (fun _ => rfl)
        fun _ _ _ => rfl
    refine wp_mono (grows_of_callsOnly (fun _ hc _ => hc) hcalls) ?_
    rintro r log' ⟨hsub, -⟩
    exact ⟨hsub, fun _ _ _ hcount ht => absurd ⟨hcount, ht⟩ hreq⟩

end Handler

/-! ## The pool -/

/-- No increment comes upon a share that has reached its limit. -/
def BelowLimit (pg : Postgres) {ι : Type} (w : World) (_ : Pool ι Call Call.Resp Exn HttpResponse)
    (_ : ι) (c : Call) (_ : World) : Prop :=
  ∀ id, c = .incrementDownloadCount id → ∀ s ∈ w.shares, pg.uuidParam id = .ok s.id →
    0 < s.maxDownloads → s.downloadCount < s.maxDownloads

/-- Every request has its own process. -/
def downloaders {ι : Type} (svc : Services) (reqs : ι → HttpRequest) :
    Pool ι Call Call.Resp Exn HttpResponse :=
  fun i => { log := [], prog := handleShareDownload svc (reqs i) }

section Pool

variable {ι : Type} [DecidableEq ι] {svc : Services} {pg : Postgres} {reqs : ι → HttpRequest}
  {w w' : World} {P : Pool ι Call Call.Resp Exn HttpResponse} {s₀ : ShareRow}

/-- Each process is on its way, the share is still there, and its counter is
between the downloads in the logs and the limit. -/
structure Limited (reqs : ι → HttpRequest) (s₀ : ShareRow) (w : World)
    (P : Pool ι Call Call.Resp Exn HttpResponse) : Prop where
  follows : ∀ i, Follows (fun _ c => countsOnly c = true) (NamesShare s₀.shareToken s₀.id.text)
    (Grows (fun resp log => resp.statusCode = 200 → countsDownload (reqs i) = true →
      cstr ((reqs i).getPathParam (ascii "token")) = s₀.shareToken → Counted s₀.id.text log) [])
    (P i)
  row : ∃ s, w.shares.find? (·.shareToken = s₀.shareToken) = some s ∧ Later s₀ s ∧
    s.downloadCount ≤ max s₀.downloadCount s₀.maxDownloads ∧
    ∀ S : Finset ι, (∀ i ∈ S, Counted s₀.id.text (P i).log) →
      S.card + s₀.downloadCount ≤ s.downloadCount

omit [DecidableEq ι] in
theorem limited_start (hs : w.shares.find? (·.shareToken = s₀.shareToken) = some s₀) :
    Limited reqs s₀ w (downloaders svc reqs) := by
  refine ⟨fun i => grows_handleShareDownload (reqs i), s₀, hs, ⟨rfl, rfl, le_refl _⟩,
    le_max_left _ _, fun S hS => ?_⟩
  obtain rfl : S = ∅ := by
    refine Finset.eq_empty_of_forall_notMem fun i hi => ?_
    exact absurd (hS i hi) (List.not_mem_nil)
  simp

/-- The outcome of a lookup by the token. -/
theorem namesShare_exec {c : Call} {r : Except Exn c.Resp} (h : exec svc pg c w = (r, w'))
    {s : ShareRow} (hs : w.shares.find? (·.shareToken = s₀.shareToken) = some s)
    (hid : s.id = s₀.id) : NamesShare s₀.shareToken s₀.id.text c r := by
  cases c with
  | findByToken t =>
      intro share hr ht
      have hfound : findByToken pg w t = .ok (some share) := by
        rw [← hr]
        exact congrArg Prod.fst h
      have hshare := findByToken_ok hfound
      unfold shareOf at hshare
      rw [ht, hs] at hshare
      cases hshare
      exact congrArg Uuid.text hid
  | _ => trivial

/-- An increment that succeeds counts one process more. -/
theorem card_le_succ {c : Call} {r : Except Exn c.Resp} {next : App HttpResponse} {i : ι}
    {s : ShareRow} {id : Bytes}
    (hcards : ∀ S : Finset ι, (∀ j ∈ S, Counted id (P j).log) →
      S.card + s₀.downloadCount ≤ s.downloadCount) {S : Finset ι}
    (hS : ∀ j ∈ S, Counted id (P.advance i c r next j).log) :
    S.card + s₀.downloadCount ≤ s.downloadCount + 1 := by
  have herase : ∀ j ∈ S.erase i, Counted id (P j).log := by
    intro j hj
    rcases Pool.mem_log_advance.mp (hS j (Finset.mem_of_mem_erase hj)) with hmem | ⟨rfl, -⟩
    · exact hmem
    · exact absurd rfl (Finset.ne_of_mem_erase hj)
  have hle := hcards (S.erase i) herase
  have hcard : S.card - 1 ≤ (S.erase i).card := Finset.pred_card_le_card_erase
  omega

/-- Any other event counts nobody. -/
theorem card_le_same {c : Call} {r : Except Exn c.Resp} {next : App HttpResponse} {i : ι}
    {s : ShareRow} {id : Bytes}
    (hne : (⟨c, r⟩ : Event Call Call.Resp Exn) ≠ ⟨.incrementDownloadCount id, .ok ()⟩)
    (hcards : ∀ S : Finset ι, (∀ j ∈ S, Counted id (P j).log) →
      S.card + s₀.downloadCount ≤ s.downloadCount) {S : Finset ι}
    (hS : ∀ j ∈ S, Counted id (P.advance i c r next j).log) :
    S.card + s₀.downloadCount ≤ s.downloadCount := by
  refine hcards S fun j hj => ?_
  rcases Pool.mem_log_advance.mp (hS j hj) with hmem | ⟨-, heq⟩
  · exact hmem
  · exact absurd heq.symm hne

theorem limited_step (hpg : pg.Lawful svc.json) (hmax : 0 < s₀.maxDownloads) {i : ι} {c : Call}
    {k : Except Exn c.Resp → App HttpResponse} {r : Except Exn c.Resp}
    (hinv : Limited reqs s₀ w P) (hcall : (P i).prog = .call c k)
    (hexec : exec svc pg c w = (r, w')) (hcond : BelowLimit pg w P i c w') :
    Limited reqs s₀ w' (P.advance i c r (k r)) := by
  obtain ⟨s, hs, hlater, hle, hcards⟩ := hinv.row
  refine ⟨?_, ?_⟩
  · exact Follows.advance hinv.follows hcall (namesShare_exec hexec hs hlater.id)
  · have hallowed := (hinv.follows i).pre_call hcall
    by_cases hinc : ∃ id, c = .incrementDownloadCount id
    · obtain ⟨id, rfl⟩ := hinc
      rcases increment_cases hexec with ⟨e, rfl, rfl⟩ | ⟨u, hu, rfl, rfl⟩
      · refine ⟨s, hs, hlater, hle, fun S hS => card_le_same ?_ hcards hS⟩
        intro heq
        cases heq
      · by_cases hsu : s.id = u
        · subst hsu
          have hlt := hcond id rfl s (List.mem_of_find?_eq_some hs) hu (by rwa [hlater.maxDownloads])
          rw [hlater.maxDownloads] at hlt
          refine ⟨_, find_countedOnce_self hs, ⟨hlater.id, hlater.maxDownloads, ?_⟩, ?_,
            fun S hS => card_le_succ hcards hS⟩
          · have hcount := hlater.count_le
            dsimp only
            omega
          · dsimp only
            omega
        · refine ⟨s, ?_, hlater, hle, fun S hS => card_le_same ?_ hcards hS⟩
          · show (countedOnce u w.shares).find? _ = _
            rw [find_countedOnce, hs, Option.map_some, if_neg hsu]
          · intro heq
            obtain rfl : id = s₀.id.text := by cases heq; rfl
            rw [uuidParam_text hpg, ← hlater.id] at hu
            exact hsu (Except.ok.inj hu)
    · have hkeep : touchesShares c = false := by
        cases c with
        | incrementDownloadCount id => exact absurd ⟨id, rfl⟩ hinc
        | _ => first | rfl | cases hallowed
      refine ⟨s, by rwa [exec_shares hpg hkeep hexec], hlater, hle, fun S hS =>
        card_le_same ?_ hcards hS⟩
      intro heq
      exact hinc ⟨_, congrArg Event.call heq⟩

/-- **A limit holds among requests side by side** as long as no increment comes
upon a share that has reached it. -/
theorem downloads_within_limit (hpg : pg.Lawful svc.json)
    (hs : w.shares.find? (·.shareToken = s₀.shareToken) = some s₀) (hcount : 0 ≤ s₀.downloadCount)
    (hmax : 0 < s₀.maxDownloads)
    (hrun : Pool.Run (exec svc pg) (BelowLimit pg) w (downloaders svc reqs) w' P) (S : Finset ι)
    (hS : ∀ i ∈ S, countsDownload (reqs i) = true ∧
      cstr ((reqs i).getPathParam (ascii "token")) = s₀.shareToken ∧
      ∃ resp, (P i).prog = .ret resp ∧ resp.statusCode = 200) :
    (S.card : Int) ≤ s₀.maxDownloads := by
  have hinv : Limited reqs s₀ w' P :=
    hrun.invariant (Limited reqs s₀) (limited_start hs) fun hinv hcall hexec hcond =>
      limited_step hpg hmax hinv hcall hexec hcond
  obtain ⟨s, -, -, hle, hcards⟩ := hinv.row
  have hcard := hcards S fun i hi => by
    obtain ⟨hcounts, htoken, resp, hprog, h200⟩ := hS i hi
    exact ((hinv.follows i).done hprog).2 resp rfl h200 hcounts htoken
  omega

end Pool

/-! ### Two downloads of a share with one -/

def twoDownloads : Fin 2 → HttpRequest := fun _ => shareRequest "X-Share-Download" "1"

def belowLimit (w : World) (_ : Pool (Fin 2) Call Call.Resp Exn HttpResponse) (_ : Fin 2)
    (c : Call) : Bool :=
  match c with
  | .incrementDownloadCount _ => w.shares.all fun s => decide (s.downloadCount < s.maxDownloads)
  | _ => true

def answered200 (p : Proc Call Call.Resp Exn HttpResponse) : Bool :=
  match p.prog with
  | .ret resp => resp.statusCode == 200
  | _ => false

theorem answered200_sound {p : Proc Call Call.Resp Exn HttpResponse} (h : answered200 p = true) :
    ∃ resp, p.prog = .ret resp ∧ resp.statusCode = 200 := by
  unfold answered200 at h
  split at h
  · exact ⟨_, ‹_›, by simpa using h⟩
  · cases h

/-- One after the other, only the first is given the file. -/
theorem one_download_in_turn : ∃ w P,
    Pool.Run (exec sampleServices samplePostgres) (BelowLimit samplePostgres) oneShare
      (downloaders sampleServices twoDownloads) w P ∧
    (∃ resp, (P 0).prog = .ret resp ∧ resp.statusCode = 200) ∧
    ∀ S : Finset (Fin 2), (∀ i ∈ S, ∃ resp, (P i).prog = .ret resp ∧ resp.statusCode = 200) →
      (S.card : Int) ≤ 1 := by
  have hbelow : ∀ w P i c w', belowLimit w P i c = true → BelowLimit samplePostgres w P i c w' := by
    rintro w P i _ w' hcheck id rfl s hs - -
    exact of_decide_eq_true (List.all_eq_true.mp hcheck s hs)
  have hrun : ((Pool.runSchedule (exec sampleServices samplePostgres) belowLimit
      [0, 0, 0, 0, 0, 0, 1] oneShare (downloaders sampleServices twoDownloads)).any fun p =>
        answered200 (p.2 0)) = true := by
    decide +kernel
  obtain ⟨⟨w, P⟩, hsched, hanswered⟩ := (Option.any_eq_true _ _).mp hrun
  have hr := Pool.run_of_schedule hbelow hsched
  have hfound : oneShare.shares.find? (·.shareToken = onceRow.shareToken) = some onceRow := by
    simp [oneShare]
  have hmax : 0 < onceRow.maxDownloads := by decide
  have hcounts : countsDownload (shareRequest "X-Share-Download" "1") = true := by decide
  have htoken : cstr ((shareRequest "X-Share-Download" "1").getPathParam (ascii "token")) =
      onceRow.shareToken := by decide
  refine ⟨w, P, hr, answered200_sound hanswered, fun S hS => ?_⟩
  exact downloads_within_limit samplePostgres_lawful hfound (le_refl 0) hmax hr S
    fun i hi => ⟨hcounts, htoken, hS i hi⟩

/-- Both read the row before either counts: the share with one download is
given out twice. -/
theorem limit_passed_twice : ∃ w P,
    Pool.Run (exec sampleServices samplePostgres) (fun _ _ _ _ _ => True) oneShare
      (downloaders sampleServices twoDownloads) w P ∧
    ∀ i, ∃ resp, (P i).prog = .ret resp ∧ resp.statusCode = 200 := by
  have hrun : ((Pool.runSchedule (exec sampleServices samplePostgres) (fun _ _ _ _ => true)
      [0, 1, 0, 0, 0, 0, 0, 1, 1, 1, 1, 1] oneShare (downloaders sampleServices twoDownloads)).any
        fun p => answered200 (p.2 0) && answered200 (p.2 1)) = true := by
    decide +kernel
  obtain ⟨⟨w, P⟩, hsched, hboth⟩ := (Option.any_eq_true _ _).mp hrun
  rw [Bool.and_eq_true] at hboth
  refine ⟨w, P, Pool.run_of_schedule (fun _ _ _ _ _ _ => trivial) hsched, fun i => ?_⟩
  match i with
  | 0 => exact answered200_sound hboth.1
  | 1 => exact answered200_sound hboth.2

end SolarDrive.Runs
