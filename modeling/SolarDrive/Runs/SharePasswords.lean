import SolarDrive.Http.HeaderValues
import SolarDrive.Lib.QueryText
import SolarDrive.Runs.FailedDownload

/-!
# The ways in which a share is given its password

A download gives it as a parameter of the query or in a header, and a share that is
saved has it in the JSON of the body. The parameter is read from the first
`password=` to the end of the query, as it stands there.
-/

namespace SolarDrive.Runs

open Lib Http Api Metadata Prog

/-! ## The password a request gives -/

/-- A parameter of the query, `name=value`. -/
def paramText (param : Bytes × Bytes) : Bytes := param.1 ++ ascii "=" ++ param.2

/-- The query of the front end, between other parameters. -/
def shareQuery (before after : List (Bytes × Bytes)) (password : Bytes) : Bytes :=
  paramsBefore (before.map paramText) ++ (ascii "password=" ++
    (encodeURIComponent password ++ paramsAfter (after.map paramText)))

/-- What the front end asks for. -/
def clientRequest (token : Bytes) (before after : List (Bytes × Bytes)) (password : Bytes) :
    HttpRequest where
  method := .GET
  query := shareQuery before after password
  pathParams := [(ascii "token", token)]
  headers := [(ascii "X-Share-Download", ascii "1")]

/-- The request for a share that a text is parsed to. -/
def Arrives (m : RequestText) (token : Bytes) (req : HttpRequest) : Prop :=
  ∃ parsed, HttpParser.fresh.feed m.wire = .ok (HttpParser.fresh, [parsed]) ∧
    req = parsed.setPathParam (ascii "token") token

/-- The body of a save has the token under one of two names. -/
def NamesToken (fields : List (Bytes × Json)) (token : Bytes) : Prop :=
  fields.lookup (ascii "share_token") = some (.str token) ∨
    fields.lookup (ascii "share_token") = none ∧ fields.lookup (ascii "token") = some (.str token)

/-- A request that gives a password, and the handler it gets to. -/
inductive Gives (svc : Services) (token : Bytes) (before after : List (Bytes × Bytes))
    (password : Bytes) : App HttpResponse → Prop
  | query {req : HttpRequest} :
      req.getPathParam (ascii "token") = token → wantsSharePageRedirect req = false →
      req.query = shareQuery before after password →
      Gives svc token before after password (handleShareDownload svc req)
  /-- The header stands in the text of the request, once, and the query has no password. -/
  | header {m : RequestText} {line : HeaderText} {req : HttpRequest} :
      line ∈ m.headers → line.name = ascii "X-Share-Password" → line.text = SP :: password →
      password.head? ≠ some SP →
      (∀ other ∈ m.headers, other.name = line.name → other = line) →
      (∀ other ∈ m.headers, other.value ≠ []) →
      (∀ q ∈ m.query, afterFirst (ascii "password=") q = none) →
      Arrives m token req → wantsSharePageRedirect req = false →
      Gives svc token before after password (handleShareDownload svc req)
  | save {req : HttpRequest} {fields : List (Bytes × Json)} :
      req.hasAuthUser = true → svc.json.parse req.body = .ok (.obj fields) →
      NamesToken fields token →
      fields.lookup (ascii "password") = some (.str password) →
      Gives svc token before after password (handleShareSave svc req)

section Given

variable {req : HttpRequest} {before after : List (Bytes × Bytes)} {password plain : Bytes}

theorem sharePassword_of_query {given : Bytes}
    (h : afterFirst (ascii "password=") req.query = some given) (hne : given ≠ []) :
    sharePassword req = given := by
  unfold sharePassword
  rw [h]
  exact if_neg hne

theorem sharePassword_of_header (h : afterFirst (ascii "password=") req.query = none) :
    sharePassword req = req.getHeader (ascii "X-Share-Password") := by
  unfold sharePassword
  rw [h]
  exact if_pos rfl

theorem query_of_sharePassword (hheader : req.getHeader (ascii "X-Share-Password") = [])
    (hne : password ≠ []) (h : sharePassword req = password) :
    afterFirst (ascii "password=") req.query = some password := by
  unfold sharePassword at h
  cases hfirst : afterFirst (ascii "password=") req.query with
  | none =>
      rw [hfirst] at h
      exact absurd (hheader.symm.trans h).symm hne
  | some given =>
      rw [hfirst, hheader, Option.getD_some] at h
      dsimp only at h
      split at h
      · exact absurd h.symm hne
      · rw [h]

theorem key_clean : AMP ∉ ascii "password=" ∧ ascii "password=" ≠ [] := by decide

/-- The query gives a text that is no longer than the encoded password exactly if that is
the text, it comes last, and nothing before it is taken for the key. -/
theorem afterFirst_shareQuery_iff (hlen : plain.length ≤ (encodeURIComponent password).length) :
    afterFirst (ascii "password=") (shareQuery before after password) = some plain ↔
      encodeURIComponent password = plain ∧ after = [] ∧
        ∀ x ∈ before, ¬ ascii "password=" <:+: paramText x := by
  unfold shareQuery
  rw [afterFirst_params_iff key_clean.1 key_clean.2 hlen, List.map_eq_nil_iff, List.forall_mem_map]

theorem lookup_headerMap {hs : List (Bytes × Bytes)} {name value : Bytes} (hmem : (name, value) ∈ hs)
    (honly : ∀ h ∈ hs, h.1 = name → h = (name, value)) : (headerMap hs).lookup name = some value := by
  induction hs using List.reverseRecOn with
  | nil => cases hmem
  | append_singleton hs last ih =>
      unfold headerMap at ih ⊢
      rw [List.foldl_append, List.foldl_cons, List.foldl_nil]
      by_cases hlast : last.1 = name
      · have hsame := honly last (List.mem_append_right hs List.mem_cons_self) hlast
        rw [hsame]
        exact lookup_setKey_self name value _
      · rw [lookup_setKey_ne (Ne.symm hlast)]
        refine ih ?_ fun h hh => honly h (List.mem_append_left _ hh)
        rcases List.mem_append.mp hmem with hmem | hmem
        · exact hmem
        · rw [List.mem_singleton] at hmem
          exact absurd (congrArg Prod.fst hmem).symm hlast

end Given

/-! ## Whether the password is taken -/

/-- The answer of a password that is missing or wrong. -/
def PasswordRefused (r : Except Exn HttpResponse) : Prop :=
  ∃ resp, r = .ok resp ∧ (resp.statusCode = 401 ∨ resp.statusCode = 403)

section Taken

variable {svc : Services} {pg : Postgres} {w : World} {s : ShareRow} {token p q : Bytes}
  {req : HttpRequest}

/-- Once a share opens with some password, any other is decided by the check alone. -/
theorem wp_resolveShare_opened (hjson : svc.json.Lawful) (hpg : pg.Lawful svc.json)
    (hopens : Opens svc pg token p w s) (count : Bool)
    {Q : Except Exn (Answered ShareRecord) → World → Prop}
    (hyes : Unlocks svc (shareRecord pg s) q → ∀ share w', Q (.ok (.ok share)) w')
    (hno : ¬ Unlocks svc (shareRecord pg s) q →
      ∀ resp, resp.statusCode = 401 ∨ resp.statusCode = 403 → Q (.ok (.error resp)) w) :
    (resolveShare svc token q count).wp (ofExec (exec svc pg)) Q w := by
  have hlive : (shareRecord pg s).isRevoked ≠ true := by
    show s.isRevoked ≠ true
    rw [hopens.live]
    decide
  unfold resolveShare
  rw [if_neg hopens.named]
  refine wp_findByToken (fun _ => ?_) fun hbad => absurd hopens.text hbad
  rw [hopens.row, Option.map_some]
  dsimp only
  rw [if_neg hlive, wp_bind]
  refine wp_shareExpired_iff (fun hexpired => absurd hexpired hopens.current) fun _ => ?_
  show Prog.wp _ (checkPassword svc (shareRecord pg s) q >>= _) _ w
  rw [wp_bind]
  refine wp_checkPassword_iff svc _ _ (fun hunlocks => ?_) hno fun _ => .inl hjson
  dsimp only
  split
  · rename_i hlimit
    exact absurd (hopens.limit hlimit.2.1) (not_lt.mpr hlimit.2.2)
  · split
    · rw [wp_bind]
      refine cached_countDownload _ (fun _ w₂ _ _ => hyes hunlocks _ w₂) fun e w₁ hinc => ?_
      rcases exec_increment_cases hpg s hinc with ⟨-, he, -⟩ | ⟨hrange, -, -⟩
      · cases he
      · exact absurd hopens.inRange hrange
    · exact hyes hunlocks _ w

theorem not_refused_error (e : Exn) : ¬ PasswordRefused (.error e) := by
  rintro ⟨resp, ⟨⟩, -⟩

theorem not_refused_ok {resp : HttpResponse} {code : Int} (hcode : resp.statusCode = code)
    (hother : code ≠ 401 ∧ code ≠ 403) : ¬ PasswordRefused (.ok resp) := by
  rintro ⟨resp', ⟨⟩, h⟩
  rw [hcode] at h
  exact h.elim hother.1 hother.2

/-- An error of another kind, if it can be written. -/
theorem accepted_setError (code : Int) (msg : Bytes) (hcode : code ≠ 401 ∧ code ≠ 403) :
    (svc.setError code msg).wp (ofExec (exec svc pg)) (fun r _ => ¬ PasswordRefused r) w :=
  wp_setError svc code msg (fun _ hresp => not_refused_ok hresp hcode) not_refused_error

/-- Whatever a part comes to, what follows accepts. -/
theorem accepted_bind {α : Type} {part : App α} {f : α → App HttpResponse}
    (hf : ∀ a w', (f a).wp (ofExec (exec svc pg)) (fun r _ => ¬ PasswordRefused r) w') :
    (part >>= f).wp (ofExec (exec svc pg)) (fun r _ => ¬ PasswordRefused r) w := by
  have hany : part.wp (ofExec (exec svc pg)) (fun _ _ => True) w :=
    wp_of_callsOnly (fun _ => True) (fun _ _ _ _ => ⟨trivial, fun _ _ _ => trivial⟩)
      (callsOnly_true part) trivial
  exact wp_seq hany (fun a w' _ => hf a w') fun e w' _ => not_refused_error e

theorem accepted_deliverShare (preview : Bool) (share : ShareRecord) :
    (deliverShare svc preview share).wp (ofExec (exec svc pg)) (fun r _ => ¬ PasswordRefused r) w := by
  refine accepted_bind fun file w' => ?_
  cases file with
  | none => exact accepted_setError 404 _ (by decide)
  | some f =>
      refine accepted_bind fun chunkArr w' => ?_
      refine accepted_bind fun hashes w' => ?_
      exact accepted_bind fun content w' => not_refused_ok (rfl : _ = (200 : Int)) (by decide)

theorem accepted_saveShare (userId : Bytes) (share : ShareRecord) :
    (saveShare svc userId share).wp (ofExec (exec svc pg)) (fun r _ => ¬ PasswordRefused r) w := by
  refine accepted_bind fun file w' => ?_
  cases file with
  | none => exact accepted_setError 404 _ (by decide)
  | some f =>
      refine accepted_bind fun name w' => ?_
      refine accepted_bind fun newId w' => ?_
      exact accepted_bind fun text w' => not_refused_ok (rfl : _ = (200 : Int)) (by decide)

/-- What a handler makes of the password, and of what comes after it. -/
theorem refused_iff_locked (hjson : svc.json.Lawful) (hpg : pg.Lawful svc.json)
    (hopens : Opens svc pg token p w s) (count : Bool) (f : ShareRecord → App HttpResponse)
    (hf : ∀ share w', (f share).wp (ofExec (exec svc pg)) (fun r _ => ¬ PasswordRefused r) w') :
    (do
      let resolved ← resolveShare svc token q count
      match resolved with
      | .error resp => return resp
      | .ok share => f share : App HttpResponse).wp (ofExec (exec svc pg))
        (fun r _ => PasswordRefused r ↔ ¬ Unlocks svc (shareRecord pg s) q) w := by
  rw [wp_bind]
  refine wp_resolveShare_opened hjson hpg hopens count (fun hunlocks share w' => ?_)
    fun hlocked resp hresp => ?_
  · exact wp_mono (hf share w') fun r _ h => iff_of_false h (not_not_intro hunlocks)
  · exact iff_of_true ⟨resp, rfl, hresp⟩ hlocked

theorem refused_download_iff (hjson : svc.json.Lawful) (hpg : pg.Lawful svc.json)
    (hopens : Opens svc pg token p w s) (htoken : req.getPathParam (ascii "token") = token)
    (hstays : wantsSharePageRedirect req = false) :
    PasswordRefused ((handleShareDownload svc req).run (exec svc pg) w).1 ↔
      ¬ Unlocks svc (shareRecord pg s) (sharePassword req) := by
  refine run_of_wp (Q := fun r _ => PasswordRefused r ↔ _) ?_
  refine wp_catch (M := fun r _ => PasswordRefused r ↔
    ¬ Unlocks svc (shareRecord pg s) (sharePassword req)) ?_ (fun _ _ h => h) fun e w' h => ?_
  · dsimp only
    rw [htoken, if_neg hopens.named, hstays]
    exact refused_iff_locked hjson hpg hopens _ _ fun share w' => accepted_deliverShare _ share
  · refine wp_mono (accepted_setError 500 _ (by decide)) fun r _ hr => ?_
    exact iff_of_false hr fun hlocked => not_refused_error e (h.mpr hlocked)

theorem readSaveBody_fields {fields : List (Bytes × Json)} (hnamed : token ≠ [])
    (htoken : NamesToken fields token)
    (hpassword : fields.lookup (ascii "password") = some (.str q)) :
    readSaveBody (.obj fields) = .ok (token, q) := by
  rcases htoken with htoken | ⟨hother, htoken⟩
  · simp only [readSaveBody, Json.value, htoken, hpassword, Json.getString]
    show (if token = [] then _ else _ : Except Bytes (Bytes × Bytes)) = _
    rw [if_neg hnamed]
    rfl
  · simp only [readSaveBody, Json.value, hother, htoken, hpassword, Json.getString]
    rfl

theorem refused_save_iff {fields : List (Bytes × Json)} (hjson : svc.json.Lawful)
    (hpg : pg.Lawful svc.json) (hopens : Opens svc pg token p w s) (hauth : req.hasAuthUser = true)
    (hparse : svc.json.parse req.body = .ok (.obj fields))
    (htoken : NamesToken fields token)
    (hpassword : fields.lookup (ascii "password") = some (.str q)) :
    PasswordRefused ((handleShareSave svc req).run (exec svc pg) w).1 ↔
      ¬ Unlocks svc (shareRecord pg s) q := by
  refine run_of_wp (Q := fun r _ => PasswordRefused r ↔ _) ?_
  refine wp_catch (M := fun r _ => PasswordRefused r ↔ ¬ Unlocks svc (shareRecord pg s) q) ?_
    (fun _ _ h => h) fun e w' h => ?_
  · rw [hauth]
    refine wp_bind.mpr (@wp_jsonParse svc pg w _ _ _ _ _ rfl (fun body hbody => ?_)
      fun what hbad => ?_)
    · cases hparse.symm.trans hbody
      dsimp only
      rw [readSaveBody_fields hopens.named htoken hpassword]
      exact refused_iff_locked hjson hpg hopens false _ fun share w' => accepted_saveShare _ share
    · cases hparse.symm.trans hbad
  · have hcatch : (svc.catchJson (ascii "save failed: ") e).wp (ofExec (exec svc pg))
        (fun r _ => ¬ PasswordRefused r) w' := by
      unfold Services.catchJson
      split
      · exact accepted_setError 400 _ (by decide)
      · exact accepted_setError 500 _ (by decide)
    exact wp_mono hcatch fun r _ hr => iff_of_false hr fun hlocked =>
      not_refused_error e (h.mpr hlocked)

end Taken

/-! ## All ways -/

section Ways

variable {svc : Services} {pg : Postgres} {w : World} {s : ShareRow} {token p q : Bytes}
  {req : HttpRequest} {before after : List (Bytes × Bytes)}

/-- The header of the text is the one that the handler asks for. -/
theorem sharePassword_arrived {m : RequestText} {line : HeaderText} (hmem : line ∈ m.headers)
    (hname : line.name = ascii "X-Share-Password") (htext : line.text = SP :: q)
    (hblank : q.head? ≠ some SP)
    (honly : ∀ other ∈ m.headers, other.name = line.name → other = line)
    (hfull : ∀ other ∈ m.headers, other.value ≠ [])
    (hquery : ∀ t ∈ m.query, afterFirst (ascii "password=") t = none)
    (harrives : Arrives m token req) :
    req.getPathParam (ascii "token") = token ∧ sharePassword req = q := by
  obtain ⟨parsed, hfeed, rfl⟩ := harrives
  obtain ⟨version, hhanded⟩ := ((delivered_iff m).mpr hfull).handed
  rw [hfeed] at hhanded
  simp only [Except.ok.injEq, Prod.mk.injEq, List.cons.injEq, and_true, true_and] at hhanded
  subst hhanded
  have hvalue : line.value = q := by
    unfold HeaderText.value
    rw [htext]
    cases q with
    | nil => rfl
    | cons c cs =>
        have hc : c ≠ SP := fun h => hblank (congrArg some h)
        simp [hc]
  refine ⟨?_, ?_⟩
  · unfold HttpRequest.getPathParam HttpRequest.setPathParam
    rw [lookup_setKey_self]
    rfl
  · have hnone : afterFirst (ascii "password=") (m.query.getD []) = none := by
      cases hq : m.query with
      | none => decide
      | some t => exact hquery t hq
    have hlookup : (headerMap m.pairs).lookup (ascii "X-Share-Password") = some q := by
      refine lookup_headerMap (List.mem_map.mpr ⟨line, hmem, by rw [hname, hvalue]⟩) ?_
      intro h hh hsame
      obtain ⟨other, hother, rfl⟩ := List.mem_map.mp hh
      rw [honly other hother (hsame.trans hname.symm), hname, hvalue]
    rw [sharePassword_of_header hnone]
    show ((headerMap m.pairs).lookup (ascii "X-Share-Password")).getD [] = q
    rw [hlookup]
    rfl

/-- A share with the hash of one password is opened by that one only. -/
theorem unlocks_iff (hdigest : ∀ d, svc.digest d ≠ [])
    (hinj : Function.Injective svc.sha256) (hhash : s.passwordHash = some (svc.sha256 p)) :
    Unlocks svc (shareRecord pg s) q ↔ q ≠ [] ∧ q = p := by
  have hrecord : (shareRecord pg s).passwordHash = svc.sha256 p := by
    simp only [shareRecord, hhash, Option.getD_some]
  unfold Unlocks
  rw [hrecord]
  constructor
  · rintro (hopen | ⟨hne, hsame⟩)
    · exact absurd hopen (sha256_ne_nil hdigest _)
    · exact ⟨hne, hinj hsame⟩
  · rintro ⟨hne, rfl⟩
    exact .inr ⟨hne, rfl⟩

theorem encodeURIComponent_ne_nil (hne : q ≠ []) : encodeURIComponent q ≠ [] := by
  intro h
  have hlength := congrArg List.length h
  rw [length_encodeURIComponent, List.length_nil] at hlength
  exact hne (List.eq_nil_of_length_eq_zero (by omega))

/-- A share that was created with `p` takes every password in the ways it is given exactly as it
should, if and only if `p` has nothing that the front end escapes, the parameter is the
last of the query and nothing before it contains `password=`. The header and the body of a
save need none of this. -/
theorem passwords_work_iff (hjson : svc.json.Lawful) (hpg : pg.Lawful svc.json)
    (hdigest : ∀ d, svc.digest d ≠ []) (hinj : Function.Injective svc.sha256)
    (hopens : Opens svc pg token p w s) (hhash : s.passwordHash = some (svc.sha256 p))
    (hutf8 : validUtf8 p = true) (before after : List (Bytes × Bytes)) :
    (∀ q handler, q ≠ [] → validUtf8 q = true → Gives svc token before after q handler →
      (PasswordRefused (handler.run (exec svc pg) w).1 ↔ q ≠ p)) ↔
    (∀ c ∈ p, isUriUnreserved c = true) ∧ after = [] ∧
      ∀ x ∈ before, ¬ ascii "password=" <:+: paramText x := by
  have hunlocks : ∀ q, Unlocks svc (shareRecord pg s) q ↔ q ≠ [] ∧ q = p :=
    fun q => unlocks_iff hdigest hinj hhash
  have hne : p ≠ [] := ((hunlocks p).mp hopens.unlocks).1
  have hrefused : ∀ {q}, q ≠ [] → (¬ Unlocks svc (shareRecord pg s) q ↔ q ≠ p) := by
    intro q hq
    rw [hunlocks q, not_and]
    exact ⟨fun h => h hq, fun h _ => h⟩
  constructor
  · intro h
    let req := clientRequest token before after p
    have htoken : req.getPathParam (ascii "token") = token := rfl
    have hstays : wantsSharePageRedirect req = false := rfl
    have haccepted := h p _ hne hutf8 (.query htoken hstays rfl)
    rw [refused_download_iff hjson hpg hopens htoken hstays, hunlocks] at haccepted
    have hgiven : sharePassword req = p := by
      by_contra hother
      exact haccepted.mp (fun hboth => hother hboth.2) rfl
    have hfound := query_of_sharePassword (rfl : req.getHeader (ascii "X-Share-Password") = []) hne hgiven
    have hle : p.length ≤ (encodeURIComponent p).length := by
      rw [length_encodeURIComponent]
      omega
    obtain ⟨hsame, hrest⟩ := (afterFirst_shareQuery_iff hle).mp hfound
    exact ⟨encodeURIComponent_eq_self_iff.mp hsame, hrest⟩
  · rintro ⟨hplain, hafter, hbefore⟩ q handler hq - hgives
    cases hgives with
    | query htoken hstays hquery =>
        have hfound := (@afterFirst_shareQuery_iff before after q _ (le_refl _)).mpr
          ⟨rfl, hafter, hbefore⟩
        rw [← hquery] at hfound
        have hgiven := sharePassword_of_query hfound (encodeURIComponent_ne_nil hq)
        rw [refused_download_iff hjson hpg hopens htoken hstays, hgiven,
          hrefused (encodeURIComponent_ne_nil hq), ne_eq, encodeURIComponent_eq_plain_iff hplain]
    | header hmem hname htext hblank honly hfull hquery harrives hstays =>
        obtain ⟨htoken, hgiven⟩ :=
          sharePassword_arrived hmem hname htext hblank honly hfull hquery harrives
        rw [refused_download_iff hjson hpg hopens htoken hstays, hgiven, hrefused hq]
    | save hauth hparse htoken hpassword =>
        rw [refused_save_iff hjson hpg hopens hauth hparse htoken hpassword, hrefused hq]

end Ways

/-! ### A share with a password -/

def lockedRow (password : Bytes) : ShareRow :=
  { onceRow with passwordHash := some (sampleServices.sha256 password) }

def lockedShare (password : Bytes) : World := { oneShare with shares := [lockedRow password] }

theorem lockedShare_opens (password : Bytes) (hne : password ≠ []) :
    Opens sampleServices samplePostgres sharedToken password (lockedShare password)
      (lockedRow password) where
  named := by decide
  text := by decide
  row := rfl
  live := rfl
  current := fun h => h.1 rfl
  unlocks := .inr ⟨hne, rfl⟩
  limit _ := show (0 : Int) < 1 by decide
  inRange row hrow _ := by
    rw [List.mem_singleton.mp hrow]
    show (0 : Int) + 1 < 2 ^ 31
    decide

/-- A plain password after another parameter. -/
theorem plain_password_accepted : ¬ PasswordRefused ((handleShareDownload sampleServices
    (clientRequest sharedToken [(ascii "from", ascii "mail")] [] (ascii "secret"))).run
      (exec sampleServices samplePostgres) (lockedShare (ascii "secret"))).1 := by
  have hworks := (passwords_work_iff sampleServices_lawful samplePostgres_lawful
    sampleServices_digest_ne_nil sampleServices_sha256_injective
    (lockedShare_opens (ascii "secret") (by decide)) rfl (by decide)
    [(ascii "from", ascii "mail")] []).mpr (by decide +kernel)
  intro hrefused
  exact (hworks _ _ (by decide) (by decide) (.query rfl rfl rfl)).mp hrefused rfl

/-- A password with a blank, as the front end sends it. -/
theorem escaped_password_refused : ¬ ∀ (svc : Services) (pg : Postgres) (w : World) (s : ShareRow)
    (token p : Bytes) (before after : List (Bytes × Bytes)), svc.json.Lawful →
    pg.Lawful svc.json → (∀ d, svc.digest d ≠ []) → Function.Injective svc.sha256 →
    Opens svc pg token p w s → s.passwordHash = some (svc.sha256 p) → validUtf8 p = true →
    ∀ q handler, q ≠ [] → validUtf8 q = true → Gives svc token before after q handler →
      (PasswordRefused (handler.run (exec svc pg) w).1 ↔ q ≠ p) := by
  intro h
  have hiff := h sampleServices samplePostgres (lockedShare (ascii "a b")) _ sharedToken
    (ascii "a b") [] [] sampleServices_lawful samplePostgres_lawful sampleServices_digest_ne_nil
    sampleServices_sha256_injective (lockedShare_opens (ascii "a b") (by decide)) rfl (by decide)
    (ascii "a b") _ (by decide) (by decide)
    (@Gives.query sampleServices sharedToken [] [] (ascii "a b")
      (clientRequest sharedToken [] [] (ascii "a b")) rfl rfl rfl)
  have hcode : ((handleShareDownload sampleServices
      (clientRequest sharedToken [] [] (ascii "a b"))).run (exec sampleServices samplePostgres)
        (lockedShare (ascii "a b"))).1.toOption.map (·.statusCode) = some 403 := by
    decide +kernel
  refine hiff.mp ?_ rfl
  cases hr : ((handleShareDownload sampleServices
      (clientRequest sharedToken [] [] (ascii "a b"))).run (exec sampleServices samplePostgres)
        (lockedShare (ascii "a b"))).1 with
  | error e =>
      rw [hr] at hcode
      cases hcode
  | ok resp =>
      rw [hr] at hcode
      exact ⟨resp, rfl, .inr (Option.some.inj hcode)⟩

end SolarDrive.Runs
