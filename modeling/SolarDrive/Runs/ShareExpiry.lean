import SolarDrive.Runs.ShareDownloads

/-!
# When a share expires

The expiry of a share passes through a text with a hand-made zone, a
`timestamptz` column, the text the session prints for it, and a parse that does
not look at the zone. What the database does with the two texts is `Zoned`;
`expiry_shift` follows an instant through all of it, and `expiry_exact` says
for which offsets and durations it comes out where it should.
-/

namespace SolarDrive.Runs

open Lib Http Api Metadata Prog

/-! ## The two texts -/

/-- A `timestamptz` literal stands for an instant, and is printed as local time
of the session with its zone behind it. -/
structure Zoned (pg : Postgres) (sessionOffset : Int) : Prop where
  timestampIn : ∀ (localTime : Int) (west : Bool) (digits : Bytes), (gmtime localTime).Plain →
    digits ≠ [] → digits.length ≤ 3 → (∀ c ∈ digits, isDigit c = true) → digitsValue digits < 16 →
    pg.timestampIn (putFields 84 (gmtime localTime) ++ (if west then DASH else PLUS) ::
        (digits ++ ascii ":00")) =
      some ((localTime + (if west then 1 else -1) * (3600 * digitsValue digits)) * 1000000)
  timestampOut : ∀ instant : Int, (gmtime (instant + sessionOffset)).Plain → ∃ zone,
    pg.timestampOut (instant * 1000000) = putFields SP (gmtime (instant + sessionOffset)) ++ zone

/-- Offsets from UTC, in seconds. -/
def IsUtcOffset (offset : Int) : Prop := -57600 < offset ∧ offset < 57600

/-- The instant at which a share of `h` hours ends, in nanoseconds. -/
def expiryNs (t h : Int) : Int := t + h * 3600 * 1000000000

section Texts

variable {svc : Services} {pg : Postgres} {z : Int}

/-- Truncating division, by the sign of the dividend. -/
theorem tdiv_cases (a b : Int) :
    (0 ≤ a ∧ a.tdiv b = a / b) ∨ (a < 0 ∧ a.tdiv b = -(-a / b)) := by
  rcases le_or_gt 0 a with ha | ha
  · exact Or.inl ⟨ha, Int.tdiv_eq_ediv_of_nonneg ha⟩
  · refine Or.inr ⟨ha, ?_⟩
    rw [← Int.tdiv_eq_ediv_of_nonneg (show 0 ≤ -a by omega), Int.neg_tdiv, neg_neg]

theorem putFields_ne_nil (separator : UInt8) (t : CivilTime) : putFields separator t ≠ [] := by
  unfold putFields
  simp

theorem mem_putFields {separator c : UInt8} {t : CivilTime} (ht : t.Plain)
    (hc : c ∈ putFields separator t) :
    isDigit c = true ∨ c = DASH ∨ c = COLON ∨ c = separator := by
  have hyear : ∀ c ∈ decimalInt t.year, isDigit c = true := by
    obtain ⟨m, hm⟩ := Int.eq_ofNat_of_zero_le (show 0 ≤ t.year by have := ht.year; omega)
    rw [hm]
    exact fun c hc => isDigit_of_mem_decimal hc
  have htwo : ∀ n : Int, 0 ≤ n ∧ n ≤ 99 → ∀ c ∈ twoDigits n, isDigit c = true :=
    fun n hn => (twoDigits_spec hn.1 hn.2).2.1
  have hmonth := htwo t.month (by have := ht.month; omega) c
  have hday := htwo t.day (by have := ht.day; omega) c
  have hhour := htwo t.hour (by have := ht.hour; omega) c
  have hminute := htwo t.minute (by have := ht.minute; omega) c
  have hsecond := htwo t.second (by have := ht.second; omega) c
  simp only [putFields, List.mem_append, List.mem_cons] at hc
  rcases hc with hc | hc | hc | hc | hc | hc | hc | hc | hc | hc | hc
  · exact Or.inl (hyear c hc)
  · exact Or.inr (Or.inl hc)
  · exact Or.inl (hmonth hc)
  · exact Or.inr (Or.inl hc)
  · exact Or.inl (hday hc)
  · exact Or.inr (Or.inr (Or.inr hc))
  · exact Or.inl (hhour hc)
  · exact Or.inr (Or.inr (Or.inl hc))
  · exact Or.inl (hminute hc)
  · exact Or.inr (Or.inr (Or.inl hc))
  · exact Or.inl (hsecond hc)

/-- The digits of the zone. -/
def zoneDigits (tzOffset : Int) : Bytes :=
  (if tzOffset < 10 then ascii "0" else []) ++ decimal tzOffset.natAbs

theorem zoneDigits_spec {n : Int} (hn : -16 < n ∧ n < 16) :
    zoneDigits n ≠ [] ∧ (zoneDigits n).length ≤ 3 ∧ (∀ c ∈ zoneDigits n, isDigit c = true) ∧
      digitsValue (zoneDigits n) = n.natAbs := by
  obtain ⟨hlow, hhigh⟩ := hn
  have hdigits : ∀ c ∈ zoneDigits n, isDigit c = true := by
    intro c hc
    rcases List.mem_append.mp hc with hc | hc
    · split at hc
      · rw [List.mem_singleton.mp hc]
        decide
      · cases hc
    · exact isDigit_of_mem_decimal hc
  refine ⟨?_, ?_, hdigits, ?_⟩ <;> clear hdigits <;> interval_cases n <;> decide

theorem expiryText_eq (ns h : Int) : expiryText svc ns h =
    putFields 84 (gmtime (toTimeT (Int.bmod (expiryNs ns h) (2 ^ 64)) + svc.gmtOffset)) ++
      (if svc.gmtOffset.tdiv 3600 < 0 then DASH else PLUS) ::
        (zoneDigits (svc.gmtOffset.tdiv 3600) ++ ascii ":00") := by
  unfold expiryText zoneDigits expiryNs
  rw [Int.add_bmod_bmod]
  dsimp only
  rw [putTime_eq]
  by_cases hneg : svc.gmtOffset.tdiv 3600 < 0
  · simp [hneg, not_le.mpr hneg, ascii, DASH]
  · simp [hneg, not_lt.mp hneg, ascii, PLUS]

/-- The wrapped instant is on the calendar the texts can show. -/
theorem plain_shifted (x : Int) {shift : Int} (hshift : -200000 ≤ shift ∧ shift ≤ 200000) :
    (gmtime (toTimeT (Int.bmod x (2 ^ 64)) + shift)).Plain := by
  have hlow := Int.le_bmod (x := x) (m := 2 ^ 64) (by decide)
  have hhigh := Int.bmod_lt (x := x) (m := 2 ^ 64) (by decide)
  have hsec : -9223372037 ≤ toTimeT (Int.bmod x (2 ^ 64)) ∧
      toTimeT (Int.bmod x (2 ^ 64)) ≤ 9223372037 := by
    unfold toTimeT
    rcases tdiv_cases (Int.bmod x (2 ^ 64)) 1000000000 with ⟨_, heq⟩ | ⟨_, heq⟩ <;>
      rw [heq] <;> constructor <;> omega
  exact plain_gmtime (by omega) (by omega)

theorem digit_ascii {c : UInt8} (hc : isDigit c = true) : c ≠ NUL ∧ c < 0x80 := by
  simp only [isDigit, Bool.and_eq_true, decide_eq_true_eq] at hc
  refine ⟨?_, UInt8.lt_of_le_of_lt hc.2 (by decide)⟩
  rintro rfl
  exact absurd hc.1 (by decide)

theorem hours_of_offset (hoffset : IsUtcOffset svc.gmtOffset) :
    -16 < svc.gmtOffset.tdiv 3600 ∧ svc.gmtOffset.tdiv 3600 < 16 := by
  obtain ⟨hlow, hhigh⟩ := hoffset
  rcases tdiv_cases svc.gmtOffset 3600 with ⟨_, heq⟩ | ⟨_, heq⟩ <;>
    rw [heq] <;> constructor <;> omega

theorem expiryText_ascii (hoffset : IsUtcOffset svc.gmtOffset) (ns h : Int) :
    ∀ c ∈ expiryText svc ns h, c ≠ NUL ∧ c < 0x80 := by
  obtain ⟨-, -, hdigits, -⟩ := zoneDigits_spec (hours_of_offset hoffset)
  have hplain := @plain_shifted (expiryNs ns h) svc.gmtOffset
    ⟨by have := hoffset.1; omega, by have := hoffset.2; omega⟩
  have hminutes : ∀ c ∈ ascii ":00", c ≠ NUL ∧ c < 0x80 := by simp [ascii, NUL]
  intro c hc
  rw [expiryText_eq] at hc
  rcases List.mem_append.mp hc with hc | hc
  · rcases mem_putFields hplain hc with hc | rfl | rfl | rfl
    · exact digit_ascii hc
    · decide
    · decide
    · decide
  · rcases List.mem_cons.mp hc with rfl | hc
    · split <;> decide
    · rcases List.mem_append.mp hc with hc | hc
      · exact digit_ascii (hdigits c hc)
      · exact hminutes c hc

theorem expiryText_ne_nil (ns h : Int) : expiryText svc ns h ≠ [] := by
  rw [expiryText_eq]
  simp

theorem expiryParam_some {text : Bytes} {t : Int} (hascii : ∀ c ∈ text, c ≠ NUL ∧ c < 0x80)
    (hne : text ≠ []) (hread : pg.timestampIn text = some t) :
    expiryParam pg text = .ok (some t) := by
  unfold expiryParam
  rw [textParam_of_ascii hascii]
  show (if text = [] then _ else _) = _
  rw [if_neg hne, hread]
  rfl

variable (hpg : Zoned pg z)

include hpg in
/-- The database keeps the wrapped instant, moved by what the zone leaves out of
the offset. -/
theorem expiryParam_expiryText (hoffset : IsUtcOffset svc.gmtOffset) (ns h : Int) :
    expiryParam pg (expiryText svc ns h) = .ok (some
      ((toTimeT (Int.bmod (expiryNs ns h) (2 ^ 64)) + svc.gmtOffset.tmod 3600) * 1000000)) := by
  obtain ⟨hne, hlen, hdigits, hvalue⟩ := zoneDigits_spec (hours_of_offset hoffset)
  have hhours := hours_of_offset hoffset
  have hplain := @plain_shifted (expiryNs ns h) svc.gmtOffset
    ⟨by have := hoffset.1; omega, by have := hoffset.2; omega⟩
  refine expiryParam_some (expiryText_ascii hoffset ns h) (expiryText_ne_nil ns h) ?_
  have hread := hpg.timestampIn _ (decide (svc.gmtOffset.tdiv 3600 < 0)) _ hplain hne hlen hdigits
    (by rw [hvalue]; omega)
  rw [expiryText_eq]
  simp only [decide_eq_true_eq] at hread
  rw [hread, hvalue, Int.tmod_def]
  congr 2
  split <;> omega

include hpg in
/-- What `resolve_share` makes of the text printed for a stored expiry. -/
theorem readExpiry_timestampOut {instant : Int} (hplain : (gmtime (instant + z)).Plain) :
    pg.timestampOut (instant * 1000000) ≠ [] ∧
      readExpiry (pg.timestampOut (instant * 1000000)) = some (instant + z) := by
  obtain ⟨zone, hout⟩ := hpg.timestampOut instant hplain
  rw [hout]
  constructor
  · simp [putFields_ne_nil]
  · unfold readExpiry
    rw [getTime_wrong_separator hplain (by decide), getTime_putFields hplain]
    simp [timegm_gmtime]

end Texts

/-! ## Creating -/

section Creating

variable {svc : Services} {pg : Postgres} {w : World}

theorem finds_randomChars : ∀ count : Nat,
    Finds svc pg (randomChars (count + 1)) w fun token => ∃ c rest, token = c :: rest ∧ c ≠ NUL := by
  intro count
  refine finds_bind (finds_reads (reads_ask rfl)) fun n draws _ => ?_
  refine finds_bind (finds_reads (reads_randomChars count)) fun rest draws _ => ?_
  refine finds_pure ⟨_, rest, rfl, ?_⟩
  have hchars : ∀ i < 36, tokenChars.getD i 0 ≠ NUL := by decide
  exact hchars (n % 36) (Nat.mod_lt n (by decide))

/-- A token is not empty, also as a C string. -/
theorem finds_generateToken : Finds svc pg generateToken w fun token => cstr token ≠ [] := by
  unfold generateToken
  generalize 10 = attempts
  induction attempts generalizing w with
  | zero => exact finds_raise _
  | succ attempts ih =>
      refine finds_bind (finds_randomChars 7) fun token draws htoken => ?_
      refine finds_bind (finds_reads (reads_ask rfl)) fun taken draws _ => ?_
      split
      · exact ih
      · obtain ⟨c, rest, rfl, hc⟩ := htoken
        refine finds_pure ?_
        simp [cstr, hc]

theorem finds_shareExpiry {h : Int} (hh : 0 < h) :
    Finds svc pg (shareExpiry svc h) w fun text => text = expiryText svc w.time h := by
  unfold shareExpiry
  rw [if_pos hh]
  refine finds_bind (finds_ask rfl) fun ns draws hns => finds_pure ?_
  rw [← Except.ok.inj (show (.ok w.time : Except Exn Int) = .ok ns from hns)]

/-- The row of a share that was asked for with this body. -/
structure SharedAs (svc : Services) (pg : Postgres) (body : ShareBody) (w : World)
    (s : ShareRow) : Prop where
  shareToken : ∃ token, pg.textParam token = .ok s.shareToken ∧ cstr token ≠ []
  fresh : ∀ s' ∈ w.shares, s'.shareToken ≠ s.shareToken
  expiresAt : expiryParam pg (expiryText svc w.time body.expiresInHours) = .ok s.expiresAt
  inForce : s.isRevoked = false

/-- After a request there is at most one share more. -/
def AddsShare (svc : Services) (pg : Postgres) (body : ShareBody) (w w' : World) : Prop :=
  w'.shares = w.shares ∨ ∃ s, SharedAs svc pg body w s ∧ w'.shares = w.shares ++ [s]

theorem AddsShare.congr {body : ShareBody} {w₁ w₂ : World} (h : AddsShare svc pg body w w₁)
    (hshares : w₂.shares = w₁.shares) : AddsShare svc pg body w w₂ := by
  rwa [AddsShare, hshares]

theorem touchesShares_of_reads (c : Call) (hc : readOnly c = true) : touchesShares c = false := by
  cases c <;> first | rfl | cases hc

theorem adds_keeping (hpg : pg.Lawful svc.json) {body : ShareBody} {w₁ : World} {α : Type}
    {p : App α} (h : AddsShare svc pg body w w₁)
    (hp : p.CallsOnly fun c => touchesShares c = false) :
    p.wp (ofExec (exec svc pg)) (fun _ w' => AddsShare svc pg body w w') w₁ := by
  refine wp_of_callsOnly (fun w' => AddsShare svc pg body w w') ?_ hp h
  intro w₂ c hc h₂
  exact ⟨trivial, fun r w₃ hexec => h₂.congr (exec_shares hpg hc hexec)⟩

theorem adds_insert {body : ShareBody} {record : ShareRecord} {w₁ w₂ : World}
    {r : Except Exn Bytes} (hexec : exec svc pg (.shareInsert record) w₁ = (r, w₂))
    (hw₁ : w₁.shares = w.shares) (htoken : cstr record.shareToken ≠ [])
    (hexpires : record.expiresAt = expiryText svc w.time body.expiresInHours) :
    AddsShare svc pg body w w₂ := by
  rcases exec_shareInsert hexec with rfl | ⟨s, hnew, rfl⟩
  · exact Or.inl hw₁
  · refine Or.inr ⟨s, ⟨⟨_, hnew.shareToken, htoken⟩, hw₁ ▸ hnew.fresh, ?_, hnew.inForce⟩, ?_⟩
    · rw [← hexpires]
      exact hnew.expiresAt
    · show w₁.shares ++ [s] = _
      rw [hw₁]

theorem adds_createShare (hpg : pg.Lawful svc.json) {body : ShareBody}
    (hh : 0 < body.expiresInHours) (userId : Bytes) {w₀ : World} (hshares : w₀.shares = w.shares)
    (htime : w₀.time = w.time) : (createShare svc userId body).wp (ofExec (exec svc pg))
      (fun _ w' => AddsShare svc pg body w w') w₀ := by
  have herr : ∀ draws, AddsShare svc pg body w { w₀ with draws } := fun draws => Or.inl hshares
  refine wp_finds_bind finds_generateToken (fun token draws htoken => ?_) fun e draws => herr draws
  refine wp_finds_bind (finds_shareExpiry hh) (fun expiresAt draws hexpires => ?_)
    fun e draws => herr draws
  refine wp_request_bind trivial ?_ ?_
  · intro id w₁ hexec
    have hadded : AddsShare svc pg body w w₁ :=
      adds_insert hexec hshares htoken (by rw [hexpires, ← htime])
    refine adds_keeping hpg hadded ?_
    refine callsOnly_bind (callsOnly_cacheShare touchesShares_of_reads svc (fun _ _ _ => rfl) _ _)
      fun _ => ?_
    exact callsOnly_bind (callsOnly_reads touchesShares_of_reads (reads_nullableText _)) fun _ =>
      callsOnly_reads touchesShares_of_reads (reads_setJson svc _)
  · intro e w₁ hexec
    exact adds_insert hexec hshares htoken (by rw [hexpires, ← htime])

theorem adds_handleShareCreate (hpg : pg.Lawful svc.json) {req : HttpRequest} {j : Json}
    {body : ShareBody} (hparse : svc.json.parse req.body = .ok j)
    (hbody : readShareBody j = .ok body) (hh : 0 < body.expiresInHours) :
    (handleShareCreate svc req).wp (ofExec (exec svc pg)) (fun _ w' => AddsShare svc pg body w w')
      w := by
  have hsame : ∀ draws, AddsShare svc pg body w { w with draws } := fun draws => Or.inl rfl
  have hreads : ∀ {w₁ : World} {p : App HttpResponse}, AddsShare svc pg body w w₁ → Reads p →
      p.wp (ofExec (exec svc pg)) (fun _ w' => AddsShare svc pg body w w') w₁ :=
    fun h hp => adds_keeping hpg h (hp.mono touchesShares_of_reads)
  refine wp_catch (M := fun _ w' => AddsShare svc pg body w w') ?_ (fun _ _ h => h)
    fun e w' h => hreads h (reads_catchJson svc _ e)
  split
  swap
  · exact hreads (hsame w.draws) (reads_setError svc _ _)
  refine wp_finds_bind (finds_jsonParse _) (fun j' draws hj' => ?_) fun e draws => hsame draws
  obtain rfl : j' = j := Except.ok.inj (hj'.symm.trans hparse)
  rw [hbody]
  refine wp_finds_bind (M := fun b => b = body) (finds_pure rfl) (fun b draws hb => ?_)
    fun e draws => hsame draws
  subst hb
  refine wp_finds_bind (finds_reads (reads_requireOwnedFile svc _ _)) (fun owned draws _ => ?_)
    fun e draws => hsame draws
  cases owned with
  | error resp => exact hsame draws
  | ok file => exact adds_createShare hpg hh req.authUserId rfl rfl

end Creating

/-! ## Resolving -/

/-- The request was answered 410. -/
def gone : Except Exn (Answered ShareRecord) → Bool
  | .ok (.error resp) => resp.statusCode == 410
  | _ => false

section Resolving

variable {svc : Services} {pg : Postgres} {w : World}

/-- A fixed message is always written. -/
theorem wp_refuse_ascii (hjson : svc.json.Lawful) {α : Type} (code : Int) (msg : String)
    (hmsg : validUtf8 (ascii msg) = true) {Q : Except Exn (Answered α) → World → Prop}
    (hok : ∀ resp, resp.statusCode = code → Q (.ok (.error resp)) w) :
    (refuse svc code msg : App (Answered α)).wp (ofExec (exec svc pg)) Q w := by
  unfold refuse
  rw [wp_bind]
  exact wp_setError_utf8 svc hjson code _ (fun _ resp hresp => hok resp hresp)
    fun h => absurd hmsg h

theorem wp_shareExpired {share : ShareRecord} {expiry : Int} (hne : share.expiresAt ≠ [])
    (hread : readExpiry share.expiresAt = some expiry) :
    (shareExpired share).wp (ofExec (exec svc pg))
      (fun r w' => w' = w ∧ r = .ok (decide (expiry < toTimeT w.time))) w := by
  unfold shareExpired
  rw [if_neg hne]
  refine wp_request_bind trivial ?_ ?_
  · intro ns w₁ hexec
    cases (show (Except.ok w.time, w) = (Except.ok ns, w₁) from hexec)
    rw [hread]
    exact ⟨rfl, rfl⟩
  · intro e w₁ hexec
    cases (show (Except.ok w.time, w) = (Except.error e, w₁) from hexec)

/-- After the expiry check no answer is a 410. -/
theorem not_gone_after (share : ShareRecord) (token password : Bytes) (count : Bool) :
    (do
      let checked ← checkPassword svc share password
      match checked with
      | .error resp => return .error resp
      | .ok () =>
          if count ∧ 0 < share.maxDownloads ∧ share.maxDownloads ≤ share.downloadCount then
            refuse svc 403 "download limit reached"
          else if count then
            countDownload svc token share
            return .ok { share with downloadCount := share.downloadCount + 1 }
          else return .ok share : App (Answered ShareRecord)).wp (ofExec (exec svc pg))
      (fun r _ => gone r = false) w := by
  have hcode : ∀ resp : HttpResponse, resp.statusCode ≠ 410 →
      gone (.ok (.error resp)) = false := by
    intro resp hne
    simp [gone, hne]
  rw [wp_bind]
  refine wp_checkPassword svc share password ?_ ?_ fun e => rfl
  · dsimp only
    split
    · exact wp_refuse svc 403 _ (fun resp hresp => hcode resp (by rw [hresp]; decide)) fun e => rfl
    · split
      · exact wp_seq (M := fun _ _ => True) (wp_ofExec.mpr trivial) (fun _ _ _ => rfl)
          fun _ _ _ => rfl
      · exact rfl
  · rintro resp (hresp | hresp)
    · exact hcode resp (by rw [hresp]; decide)
    · exact hcode resp (by rw [hresp]; decide)

/-- The share of a stored row, at the time of the request. -/
theorem gone_resolveShare (hjson : svc.json.Lawful) {token : Bytes} {s : ShareRow} {expiry : Int}
    (htoken : token ≠ []) (hutf : validUtf8 (cstr token) = true) (hs : shareOf w token = some s)
    (hforce : s.isRevoked = false) (hne : (shareRecord pg s).expiresAt ≠ [])
    (hread : readExpiry (shareRecord pg s).expiresAt = some expiry) (password : Bytes)
    (count : Bool) : (resolveShare svc token password count).wp (ofExec (exec svc pg))
      (fun r _ => gone r = decide (expiry < toTimeT w.time)) w := by
  have hlive : ¬ (shareRecord pg s).isRevoked = true := by
    show ¬ s.isRevoked = true
    rw [hforce]
    decide
  unfold resolveShare
  rw [if_neg htoken]
  refine wp_findByToken (fun _ => ?_) fun hbad => absurd hutf hbad
  rw [hs, Option.map_some]
  dsimp only
  rw [if_neg hlive]
  refine wp_seq (wp_shareExpired hne hread) ?_ ?_
  · rintro expired w₁ ⟨rfl, hexpired⟩
    cases hexpired
    by_cases hlt : expiry < toTimeT w₁.time
    · rw [if_pos (decide_eq_true hlt)]
      refine wp_refuse_ascii hjson 410 _ (by decide) fun resp hresp => ?_
      simp [gone, hresp, hlt]
    · rw [if_neg (by simpa using hlt), decide_eq_false hlt]
      exact not_gone_after (shareRecord pg s) token password count
  · rintro e w₁ ⟨-, herr⟩
    cases herr

end Resolving

/-! ## From creation to refusal -/

/-- Readings of `system_clock`, in nanoseconds. -/
def IsInstant (t : Int) : Prop := -2 ^ 63 ≤ t ∧ t < 2 ^ 63

/-- The last second such a reading can be in. -/
def lastSecond : Int := 9223372036

theorem toTimeT_bounds {t : Int} (ht : IsInstant t) :
    -lastSecond ≤ toTimeT t ∧ toTimeT t ≤ lastSecond := by
  obtain ⟨hlow, hhigh⟩ := ht
  unfold toTimeT lastSecond
  rcases tdiv_cases t 1000000000 with ⟨_, heq⟩ | ⟨_, heq⟩ <;>
    rw [heq] <;> constructor <;> omega

theorem toTimeT_seconds (s : Int) : toTimeT (s * 1000000000) = s :=
  Int.mul_tdiv_cancel s (by decide)

theorem isInstant_seconds {s : Int} (h : -lastSecond ≤ s ∧ s ≤ lastSecond) :
    IsInstant (s * 1000000000) := by
  unfold lastSecond at h
  unfold IsInstant
  omega

/-- Two expiries that no reading of the clock can tell apart are the same, or
neither is ever passed. -/
theorem clock_agrees {a b : Int} (hb : -lastSecond ≤ b) :
    (∀ t, IsInstant t → (a < toTimeT t ↔ b < toTimeT t)) ↔
      a = b ∨ (lastSecond ≤ a ∧ lastSecond ≤ b) := by
  constructor
  · intro h
    by_contra hne
    push Not at hne
    obtain ⟨hne, hlast⟩ := hne
    have hmin : -lastSecond ≤ lastSecond := by decide
    rcases lt_or_gt_of_ne hne with hlt | hlt
    · have hs := h _ (isInstant_seconds (s := min b lastSecond) (by omega))
      rw [toTimeT_seconds] at hs
      omega
    · have hs := h _ (isInstant_seconds (s := min a lastSecond) (by omega))
      rw [toTimeT_seconds] at hs
      omega
  · rintro (rfl | ⟨ha, hb'⟩) t ht
    · exact Iff.rfl
    · have htop := (toTimeT_bounds ht).2
      constructor <;> intro hlt <;> omega

/-- The end of the share is on the clock, and what the zone leaves out of the
local offset makes up for the session's; or else both the right expiry and the
one the code arrives at are beyond the clock. -/
def ExpiryRight (gmtOffset sessionOffset t h : Int) : Prop :=
  (expiryNs t h < 2 ^ 63 ∧ gmtOffset.tmod 3600 + sessionOffset = 0) ∨
    (lastSecond ≤ toTimeT (expiryNs t h) ∧
      lastSecond ≤ toTimeT (Int.bmod (expiryNs t h) (2 ^ 64)) + gmtOffset.tmod 3600 + sessionOffset)

theorem expiryRight_iff {gmtOffset z t h : Int} (ht : IsInstant t) (hh : 0 < h) :
    ExpiryRight gmtOffset z t h ↔
      toTimeT (Int.bmod (expiryNs t h) (2 ^ 64)) + gmtOffset.tmod 3600 + z =
          toTimeT (expiryNs t h) ∨
        (lastSecond ≤ toTimeT (Int.bmod (expiryNs t h) (2 ^ 64)) + gmtOffset.tmod 3600 + z ∧
          lastSecond ≤ toTimeT (expiryNs t h)) := by
  have hlow : -2 ^ 63 ≤ expiryNs t h := by
    have := ht.1
    unfold expiryNs
    omega
  unfold ExpiryRight
  by_cases hin : expiryNs t h < 2 ^ 63
  · have hself : Int.bmod (expiryNs t h) (2 ^ 64) = expiryNs t h :=
      Int.bmod_eq_of_le (by omega) (by omega)
    rw [hself]
    constructor
    · rintro (⟨-, h0⟩ | ⟨h1, h2⟩)
      · exact Or.inl (by omega)
      · exact Or.inr ⟨h2, h1⟩
    · rintro (h0 | ⟨h1, h2⟩)
      · exact Or.inl ⟨hin, by omega⟩
      · exact Or.inr ⟨h2, h1⟩
  · have hbeyond : lastSecond ≤ toTimeT (expiryNs t h) := by
      unfold lastSecond toTimeT
      rw [Int.tdiv_eq_ediv_of_nonneg (by omega)]
      omega
    constructor
    · rintro (⟨h1, -⟩ | ⟨h1, h2⟩)
      · exact absurd h1 hin
      · exact Or.inr ⟨h2, h1⟩
    · rintro (h0 | ⟨h1, h2⟩)
      · exact Or.inr ⟨hbeyond, by omega⟩
      · exact Or.inr ⟨h2, h1⟩

/-- The share is still there and in force. -/
def StillShared (s : ShareRow) (w : World) : Prop :=
  ∃ s', w.shares.find? (·.shareToken = s.shareToken) = some s' ∧ s'.expiresAt = s.expiresAt ∧
    s'.isRevoked = false

section Whole

variable {svc : Services} {pg : Postgres} {w : World} {z : Int}

/-- **Where an expiry ends up.** At any later time the share is refused exactly
when the clock is past the wrapped instant, moved by the minutes of the local
offset and by the offset of the session. -/
theorem expiry_shift (hjson : svc.json.Lawful) (hzoned : Zoned pg z) (hz : IsUtcOffset z)
    (hoffset : IsUtcOffset svc.gmtOffset) {body : ShareBody} {s : ShareRow}
    (hshared : SharedAs svc pg body w s) {w' : World} (hstill : StillShared s w')
    (password : Bytes) (count : Bool) :
    gone ((resolveShare svc s.shareToken password count).run (exec svc pg) w').1 = true ↔
      toTimeT (Int.bmod (expiryNs w.time body.expiresInHours) (2 ^ 64)) +
        svc.gmtOffset.tmod 3600 + z < toTimeT w'.time := by
  obtain ⟨token, htoken, hne⟩ := hshared.shareToken
  obtain ⟨hutf, heq⟩ := textParam_ok.mp htoken
  obtain ⟨s', hs', hexpires, hforce⟩ := hstill
  have hstored := hshared.expiresAt
  rw [expiryParam_expiryText hzoned hoffset] at hstored
  have hshift : -200000 ≤ svc.gmtOffset.tmod 3600 + z ∧ svc.gmtOffset.tmod 3600 + z ≤ 200000 := by
    obtain ⟨hlow, hhigh⟩ := hz
    rw [Int.tmod_def]
    rcases tdiv_cases svc.gmtOffset 3600 with ⟨_, heq⟩ | ⟨_, heq⟩ <;>
      rw [heq] <;> constructor <;> omega
  have hplain := plain_shifted (expiryNs w.time body.expiresInHours) hshift
  rw [← add_assoc] at hplain
  obtain ⟨hnonempty, hread⟩ := readExpiry_timestampOut hzoned hplain
  have htext : (shareRecord pg s').expiresAt = pg.timestampOut
      ((toTimeT (Int.bmod (expiryNs w.time body.expiresInHours) (2 ^ 64)) +
        svc.gmtOffset.tmod 3600) * 1000000) := by
    show (s'.expiresAt.map pg.timestampOut).getD [] = _
    rw [hexpires, ← Except.ok.inj hstored]
    rfl
  have hfound : shareOf w' s.shareToken = some s' := by
    rwa [shareOf, heq, cstr_cstr, ← heq]
  have hgone := run_of_wp (@gone_resolveShare svc pg w' hjson s.shareToken s' _ (by rwa [heq])
    (by rwa [heq, cstr_cstr]) hfound hforce (by rwa [htext]) (by rwa [htext]) password count)
  rw [hgone, decide_eq_true_iff]

/-- **A share expires when it should** exactly when the two offsets agree and
the end is on the clock. -/
theorem expiry_exact (hjson : svc.json.Lawful) (hpg : pg.Lawful svc.json) (hzoned : Zoned pg z)
    (hz : IsUtcOffset z) (hoffset : IsUtcOffset svc.gmtOffset) {req : HttpRequest} {j : Json}
    {body : ShareBody} (hparse : svc.json.parse req.body = .ok j)
    (hbody : readShareBody j = .ok body) (hh : 1 ≤ body.expiresInHours) (ht : IsInstant w.time)
    {s : ShareRow} (hcreated : (serve svc pg .shareCreate req w).2.shares = w.shares ++ [s]) :
    (∀ w', IsInstant w'.time → StillShared s w' → ∀ password count,
      (gone ((resolveShare svc s.shareToken password count).run (exec svc pg) w').1 = true ↔
        toTimeT (expiryNs w.time body.expiresInHours) < toTimeT w'.time)) ↔
      ExpiryRight svc.gmtOffset z w.time body.expiresInHours := by
  have hshared : SharedAs svc pg body w s := by
    rcases run_of_wp (adds_handleShareCreate hpg hparse hbody (by omega)) with hsame | ⟨s', hs', hadd⟩
    · have hsame' : w.shares ++ [s] = w.shares := hcreated.symm.trans hsame
      simp at hsame'
    · have hadd' : w.shares ++ [s] = w.shares ++ [s'] := hcreated.symm.trans hadd
      obtain rfl : s = s' := by simpa using hadd'
      exact hs'
  have hbound : -lastSecond ≤ toTimeT (expiryNs w.time body.expiresInHours) := by
    have hlow := ht.1
    unfold expiryNs lastSecond toTimeT
    rcases tdiv_cases (w.time + body.expiresInHours * 3600 * 1000000000) 1000000000 with ⟨_, heq⟩ | ⟨_, heq⟩ <;> rw [heq] <;> omega
  rw [expiryRight_iff ht (by omega), ← clock_agrees hbound]
  constructor
  · intro h t' ht'
    have hfind : (w.shares ++ [s]).find? (·.shareToken = s.shareToken) = some s := by
      have hnone : w.shares.find? (·.shareToken = s.shareToken) = none := by
        rw [List.find?_eq_none]
        intro s' hs'
        simpa using hshared.fresh s' hs'
      rw [List.find?_append, hnone]
      simp
    have hstill : StillShared s { w with shares := w.shares ++ [s], time := t' } :=
      ⟨s, hfind, rfl, hshared.inForce⟩
    rw [← h _ ht' hstill [] false]
    exact (expiry_shift hjson hzoned hz hoffset hshared hstill [] false).symm
  · intro h w' hw' hstill password count
    rw [expiry_shift hjson hzoned hz hoffset hshared hstill password count]
    exact h w'.time hw'

end Whole

/-! ### A session in UTC -/

/-- Reads the zone of an ISO 8601 literal. -/
def readZoned (text : Bytes) : Option Int := do
  let t ← getTime 84 text
  match text.drop 19 with
  | sign :: zone =>
      let hours : Int := digitsValue (zone.takeWhile isDigit)
      return (timegm t + (if sign = DASH then 1 else -1) * (3600 * hours)) * 1000000
  | [] => none

def zonedPostgres : Postgres :=
  { samplePostgres with
    timestampIn := readZoned
    timestampOut := fun t => putFields SP (gmtime (t / 1000000)) ++ ascii "+00" }

theorem zonedPostgres_lawful : zonedPostgres.Lawful sampleServices.json :=
  ⟨samplePostgres_lawful.uuidIn_text, samplePostgres_lawful.jsonbIn_dump,
    samplePostgres_lawful.parse_jsonbOut⟩

theorem length_putFields {separator : UInt8} {t : CivilTime} (ht : t.Plain) :
    (putFields separator t).length = 19 := by
  obtain ⟨m, hm⟩ := Int.eq_ofNat_of_zero_le (show 0 ≤ t.year by have := ht.year; omega)
  have hyear : (decimalInt t.year).length = 4 := by
    have hrange := ht.year
    rw [hm]
    exact length_decimal (n := m) (k := 3) (by omega) (by omega)
  have htwo : ∀ n : Int, 0 ≤ n ∧ n ≤ 99 → (twoDigits n).length = 2 :=
    fun n hn => (twoDigits_spec hn.1 hn.2).1
  simp only [putFields, List.length_append, List.length_cons, hyear,
    htwo t.month (by have := ht.month; omega), htwo t.day (by have := ht.day; omega),
    htwo t.hour (by have := ht.hour; omega), htwo t.minute (by have := ht.minute; omega),
    htwo t.second (by have := ht.second; omega)]

theorem zonedPostgres_zoned : Zoned zonedPostgres 0 where
  timestampIn localTime west digits hplain _ _ hdigits _ := by
    show readZoned _ = _
    unfold readZoned
    have htake : (digits ++ ascii ":00").takeWhile isDigit = digits := by
      rw [List.takeWhile_append_of_pos hdigits]
      simp [ascii, isDigit]
    rw [getTime_putFields hplain, List.drop_left' (length_putFields hplain)]
    simp only [Option.bind_eq_bind, Option.bind_some, htake, timegm_gmtime]
    cases west <;> rfl
  timestampOut instant _ := by
    refine ⟨ascii "+00", ?_⟩
    show putFields SP (gmtime (instant * 1000000 / 1000000)) ++ _ = _
    rw [Int.mul_ediv_cancel _ (by decide), add_zero]

/-- The sample server at an offset from UTC. -/
def servicesAt (gmtOffset : Int) : Services := { sampleServices with gmtOffset }

/-- Alice shares her file for one hour. -/
def shareForOneHour : HttpRequest where
  authUserId := aliceId.text
  body := ascii
    "\x7b\"expires_in_hours\":1,\"file_id\":\"10000000-0000-4000-8000-000000000000\"\x7d"

def oneHourDocument : Json :=
  .obj [(ascii "expires_in_hours", .int 1), (ascii "file_id", .str (sampleId 1).text)]

def oneHour : ShareBody where
  fileId := (sampleId 1).text
  expiresInHours := 1
  password := []
  maxDownloads := 0

theorem shareForOneHour_parse (gmtOffset : Int) :
    (servicesAt gmtOffset).json.parse shareForOneHour.body = .ok oneHourDocument := by
  have hflat : oneHourDocument.isFlat = true := by decide
  have hdump : JsonText.lib.dump oneHourDocument = .ok shareForOneHour.body := by decide +kernel
  exact (JsonText.lib_lawful.parse_dump hflat hdump).2

/-- Eight hours east the share of one hour lasts one hour. -/
theorem one_hour_at_eight_east : ∃ s,
    (serve (servicesAt 28800) zonedPostgres .shareCreate shareForOneHour oneFile).2.shares =
      oneFile.shares ++ [s] ∧
    ∀ w', IsInstant w'.time → StillShared s w' → ∀ password count,
      (gone ((resolveShare (servicesAt 28800) s.shareToken password count).run
          (exec (servicesAt 28800) zonedPostgres) w').1 = true ↔
        toTimeT (expiryNs 0 1) < toTimeT w'.time) := by
  have hlength : (serve (servicesAt 28800) zonedPostgres .shareCreate shareForOneHour
      oneFile).2.shares.length = 1 := by
    decide +kernel
  obtain ⟨s, hs⟩ := List.length_eq_one_iff.mp hlength
  have hjson : (servicesAt 28800).json.Lawful := JsonText.lib_lawful
  have hpg : zonedPostgres.Lawful (servicesAt 28800).json := zonedPostgres_lawful
  have hz : IsUtcOffset 0 := by constructor <;> decide
  have hoffset : IsUtcOffset (servicesAt 28800).gmtOffset := by constructor <;> decide
  have hread : readShareBody oneHourDocument = .ok oneHour := rfl
  have htime : IsInstant oneFile.time := by constructor <;> decide
  have hright : ExpiryRight (servicesAt 28800).gmtOffset 0 oneFile.time oneHour.expiresInHours :=
    Or.inl ⟨by decide, by decide⟩
  refine ⟨s, hs, ?_⟩
  exact (expiry_exact hjson hpg zonedPostgres_zoned hz hoffset (shareForOneHour_parse 28800) hread
    (by decide) htime hs).mpr hright

/-- Five and a half hours east it is still served ten minutes after its hour. -/
theorem one_hour_at_half_past_five : ∃ s,
    (serve (servicesAt 19800) zonedPostgres .shareCreate shareForOneHour oneFile).2.shares =
      oneFile.shares ++ [s] ∧
    toTimeT (expiryNs 0 1) < toTimeT 4200000000000 ∧
    gone ((resolveShare (servicesAt 19800) s.shareToken [] false).run
        (exec (servicesAt 19800) zonedPostgres)
          { oneFile with shares := [s], time := 4200000000000 }).1 = false := by
  have hrun : ((serve (servicesAt 19800) zonedPostgres .shareCreate shareForOneHour
      oneFile).2.shares.length == 1 &&
      (serve (servicesAt 19800) zonedPostgres .shareCreate shareForOneHour oneFile).2.shares.all
        fun s => !gone ((resolveShare (servicesAt 19800) s.shareToken [] false).run
          (exec (servicesAt 19800) zonedPostgres)
            { oneFile with shares := [s], time := 4200000000000 }).1) = true := by
    decide +kernel
  rw [Bool.and_eq_true, beq_iff_eq] at hrun
  obtain ⟨s, hs⟩ := List.length_eq_one_iff.mp hrun.1
  rw [hs] at hrun
  refine ⟨s, hs, by decide, ?_⟩
  simpa using hrun.2

end SolarDrive.Runs
