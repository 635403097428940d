import SolarDrive.Auth.Base64RoundTrip
import SolarDrive.Auth.Middleware
import SolarDrive.Runs.Drive
import SolarDrive.Runs.Fidelity
import SolarDrive.Runs.NameConflicts

/-!
# Accounts

Users are only ever added. Whatever runs side by side, an account is that of the
one registration that succeeded with its name, and its name and password are what
a login takes; the login issues a token for the id that the registration returned.
-/

namespace SolarDrive.Runs

open Lib Http Auth Api Metadata Prog

/-! ## Rows and registrations -/

section Users

variable {svc : Services} {pg : Postgres} {w w' : World}

theorem exec_users {c : Call} {r : Except Exn c.Resp} (hc : ∀ username password,
    c ≠ .registerUser username password) (h : exec svc pg c w = (r, w')) : w'.users = w.users := by
  have hw : w' = (exec svc pg c w).2 := by rw [h]
  by_cases hr : readOnly c = true
  · obtain ⟨draws, hd⟩ := @exec_readOnly svc pg c hr w
    rw [hw, hd]
  cases c with
  | put data => rcases exec_put h with ⟨rfl, -⟩ | ⟨-, -, rfl⟩ <;> rfl
  | redisSet key value ttl => rw [hw]; rfl
  | redisDel key => rw [hw]; rfl
  | hset key field value =>
      obtain ⟨redis, hh⟩ := hset_data key field value w
      rw [show w' = (hset key field value w).2 from hw, hh]
  | registerUser username password => exact absurd rfl (hc username password)
  | folderInsert folder => rcases exec_folderInsert h with rfl | ⟨row, -, rfl⟩ <;> rfl
  | folderSoftDelete id => rcases exec_folderSoftDelete h with rfl | ⟨u, -, rfl⟩ <;> rfl
  | folderRename id name => rcases exec_folderRename h with rfl | ⟨u, g, -, -, rfl⟩ <;> rfl
  | fileInsert file =>
      rcases exec_fileInsert_checked h with ⟨e, -, rfl⟩ | ⟨row, contents, -, -, -, rfl⟩ <;> rfl
  | insertLink file contentId =>
      rcases exec_insertLink h with ⟨e, -, rfl⟩ | ⟨row, -, -, rfl⟩ <;> rfl
  | fileSoftDelete id => rcases exec_fileSoftDelete h with ⟨e, -, rfl⟩ | ⟨u, -, -, rfl⟩ <;> rfl
  | shareInsert record => rcases exec_shareInsert h with rfl | ⟨row, -, rfl⟩ <;> rfl
  | incrementDownloadCount id =>
      obtain ⟨g, -, rfl⟩ := exec_incrementDownloadCount h
      rfl
  | revoke id ownerId => rcases exec_revoke h with rfl | ⟨u, owner, -, -, rfl⟩ <;> rfl
  | revokeByFileId fileId =>
      rcases exec_revokeByFileId h with ⟨e, -, -, rfl⟩ | ⟨u, -, -, rfl⟩ <;> rfl
  | purgeContent content =>
      cases exec_purgeContent h with
      | nothing => rfl
      | swept _ b => cases b <;> rfl
  | _ => exact absurd rfl hr

theorem Beside.users (h : Beside w w') : w'.users = w.users := by
  cases h <;> rfl

theorem text_injective {id id' : Uuid} (h : id.text = id'.text) : id = id' := by
  cases id
  cases id'
  cases h
  rfl

end Users

section Accounts

variable {svc : Services} {pg : Postgres} {ι α : Type} [DecidableEq ι] {w₀ w w' : World}
  {P₀ P : Pool ι Call Call.Resp Exn α}

/-- A call of a process that has registered the name, by the name as the database has it. -/
structure RegisteredAt (pg : Postgres) (P : Pool ι Call Call.Resp Exn α) (i : ι) (n : Nat)
    (name password : Bytes) (id : Uuid) (username : Bytes) : Prop where
  name : pg.textParam username = .ok name
  call : (P i).log[n]? = some ⟨.registerUser username password, .ok (some id.text)⟩

/-- A registration that has succeeded. -/
def Registered (pg : Postgres) (P : Pool ι Call Call.Resp Exn α) (name password : Bytes)
    (id : Uuid) : Prop :=
  ∃ i n username, RegisteredAt pg P i n name password id username

/-- A call in a log is an earlier one, or the one that has just been made. -/
theorem log_advance {i j : ι} {n : Nat} {c : Call} {r : Except Exn c.Resp} {next : App α}
    {e : Event Call Call.Resp Exn} : (P.advance i c r next j).log[n]? = some e ↔
      (P j).log[n]? = some e ∨ j = i ∧ n = (P i).log.length ∧ e = ⟨c, r⟩ := by
  by_cases hj : j = i
  · subst hj
    rw [Pool.advance_self, List.getElem?_append]
    split
    · rename_i hlt
      refine (or_iff_left ?_).symm
      rintro ⟨-, rfl, -⟩
      exact absurd hlt (Nat.lt_irrefl _)
    · rename_i hge
      have hnone : (P j).log[n]? = none := List.getElem?_eq_none (Nat.le_of_not_lt hge)
      rw [hnone, List.getElem?_singleton]
      constructor
      · intro h
        split at h
        · rename_i hzero
          exact .inr ⟨rfl, by omega, (Option.some.inj h).symm⟩
        · cases h
      · rintro (h | ⟨-, rfl, rfl⟩)
        · cases h
        · rw [if_pos (Nat.sub_self _)]
  · rw [Pool.advance_ne P hj]
    exact (or_iff_left fun h => hj h.1).symm

theorem RegisteredAt.advance {j : ι} {n : Nat} {name password username : Bytes} {id : Uuid}
    (h : RegisteredAt pg P j n name password id username) (i : ι) (c : Call)
    (r : Except Exn c.Resp) (next : App α) :
    RegisteredAt pg (P.advance i c r next) j n name password id username :=
  ⟨h.name, log_advance.mpr (.inl h.call)⟩

theorem Registered.advance {name password : Bytes} {id : Uuid}
    (h : Registered pg P name password id) (i : ι) (c : Call) (r : Except Exn c.Resp)
    (next : App α) : Registered pg (P.advance i c r next) name password id := by
  obtain ⟨j, n, username, hat⟩ := h
  exact ⟨j, n, username, hat.advance i c r next⟩

/-- A registration is an earlier one, or the call that has just been made. -/
theorem registered_of_advance {i j : ι} {n : Nat} {c : Call} {r : Except Exn c.Resp} {next : App α}
    {name password username : Bytes} {id : Uuid}
    (h : RegisteredAt pg (P.advance i c r next) j n name password id username) :
    RegisteredAt pg P j n name password id username ∨
      (j = i ∧ n = (P i).log.length) ∧ pg.textParam username = .ok name ∧
        (⟨.registerUser username password, .ok (some id.text)⟩ : Event Call Call.Resp Exn) = ⟨c, r⟩ := by
  rcases log_advance.mp h.call with hold | ⟨hj, hn, heq⟩
  · exact .inl ⟨h.name, hold⟩
  · exact .inr ⟨⟨hj, hn⟩, h.name, heq⟩

/-- The accounts are those of the registrations. -/
structure Accounts (svc : Services) (pg : Postgres) (w : World) (P : Pool ι Call Call.Resp Exn α) :
    Prop where
  names : (w.users.map UserRow.username).Nodup
  ids : (w.users.map UserRow.id).Nodup
  made : ∀ u ∈ w.users, ∃ password, u.passwordHash = svc.sha256 password ∧
    Registered pg P u.username password u.id
  kept : ∀ name password id, Registered pg P name password id →
    ∃ u ∈ w.users, u.username = name ∧ u.id = id ∧ u.passwordHash = svc.sha256 password
  once : ∀ name password id password' id' i n username j m username',
    RegisteredAt pg P i n name password id username →
      RegisteredAt pg P j m name password' id' username' → i = j ∧ n = m

omit [DecidableEq ι] in
theorem accounts_start (husers : w₀.users = []) (hlogs : ∀ i, (P₀ i).log = []) :
    Accounts svc pg w₀ P₀ := by
  have hnone : ∀ {i n name password id username},
      ¬ RegisteredAt pg P₀ i n name password id username := by
    intro i n name password id username h
    have hcall := h.call
    rw [hlogs i] at hcall
    cases hcall
  refine ⟨?_, ?_, ?_, ?_, fun _ _ _ _ _ _ _ _ _ _ _ h => absurd h hnone⟩
  · rw [husers]
    exact List.nodup_nil
  · rw [husers]
    exact List.nodup_nil
  · rw [husers]
    exact fun u hu => absurd hu List.not_mem_nil
  · rintro name password id ⟨i, n, username, h⟩
    exact absurd h hnone

/-- A call that adds no user and is no successful registration. -/
theorem Accounts.same (h : Accounts svc pg w P) (husers : w'.users = w.users) {i : ι} {c : Call}
    {r : Except Exn c.Resp} {next : App α}
    (hnot : ∀ username password (id : Bytes),
      (⟨.registerUser username password, .ok (some id)⟩ : Event Call Call.Resp Exn) ≠ ⟨c, r⟩) :
    Accounts svc pg w' (P.advance i c r next) := by
  have hold : ∀ {j n name password id username},
      RegisteredAt pg (P.advance i c r next) j n name password id username →
      RegisteredAt pg P j n name password id username := by
    intro j n name password id username hat
    exact (registered_of_advance hat).resolve_right fun hnew => hnot _ _ _ hnew.2.2
  refine ⟨husers ▸ h.names, husers ▸ h.ids, ?_, ?_, ?_⟩
  · rw [husers]
    intro u hu
    obtain ⟨password, hhash, hmade⟩ := h.made u hu
    exact ⟨password, hhash, hmade.advance i c r next⟩
  · rw [husers]
    rintro name password id ⟨j, n, username, hat⟩
    exact h.kept name password id ⟨j, n, username, hold hat⟩
  · exact fun _ _ _ _ _ _ _ _ _ _ _ hat hat' => h.once _ _ _ _ _ _ _ _ _ _ _ (hold hat) (hold hat')

/-- A registration adds the account that it is for. -/
theorem Accounts.registered (h : Accounts svc pg w P) {username password : Bytes} {row : UserRow}
    (hrow : CheckedUser pg svc username password w row) (husers : w'.users = w.users ++ [row])
    {i : ι} {next : App α} : Accounts svc pg w'
      (P.advance i (.registerUser username password) (.ok (some row.id.text)) next) := by
  have hnew : Registered pg (P.advance i (.registerUser username password) (.ok (some row.id.text))
      next) row.username password row.id :=
    ⟨i, _, username, hrow.username, log_advance.mpr (.inr ⟨rfl, rfl, rfl⟩)⟩
  -- a name that has been registered is not free
  have htaken : ∀ {j n password' id username'},
      ¬ RegisteredAt pg P j n row.username password' id username' := by
    intro j n password' id username' hat
    obtain ⟨u, hu, huname, -⟩ := h.kept _ _ _ ⟨j, n, username', hat⟩
    exact hrow.free u hu huname
  refine ⟨?_, ?_, fun u hu => ?_, fun name password' id hreg => ?_, ?_⟩
  · rw [husers, List.map_append, List.map_singleton]
    refine List.nodup_append.mpr ⟨h.names, List.nodup_singleton _, fun a ha b hb heq => ?_⟩
    obtain ⟨u, hu, rfl⟩ := List.mem_map.mp ha
    exact hrow.free u hu (heq.trans (List.mem_singleton.mp hb))
  · rw [husers, List.map_append, List.map_singleton]
    refine List.nodup_append.mpr ⟨h.ids, List.nodup_singleton _, fun a ha b hb heq => ?_⟩
    obtain ⟨u, hu, rfl⟩ := List.mem_map.mp ha
    exact hrow.fresh u hu (heq.trans (List.mem_singleton.mp hb))
  · rw [husers] at hu
    rcases List.mem_append.mp hu with hu | hu
    · obtain ⟨password', hhash, hmade⟩ := h.made u hu
      exact ⟨password', hhash, hmade.advance i _ _ next⟩
    · rw [List.mem_singleton.mp hu]
      exact ⟨password, hrow.passwordHash, hnew⟩
  · rw [husers]
    obtain ⟨j, n, username', hat⟩ := hreg
    rcases registered_of_advance hat with hat | ⟨-, hname, heq⟩
    · obtain ⟨u, hu, hsame⟩ := h.kept name password' id ⟨j, n, username', hat⟩
      exact ⟨u, List.mem_append_left _ hu, hsame⟩
    · obtain ⟨hcall, hr⟩ := Event.mk.inj heq
      obtain ⟨rfl, rfl⟩ := Call.registerUser.inj hcall
      have hid : id = row.id := text_injective (Option.some.inj (Except.ok.inj (eq_of_heq hr)))
      obtain rfl := Except.ok.inj (hname.symm.trans hrow.username)
      exact ⟨row, List.mem_append_right _ (List.mem_singleton_self _), rfl, hid.symm,
        hrow.passwordHash⟩
  · intro name password₁ id₁ password₂ id₂ j n username₁ k m username₂ hat₁ hat₂
    have hsame : ∀ {username' password'} {id' : Uuid}, pg.textParam username' = .ok name →
        (⟨.registerUser username' password', .ok (some id'.text)⟩ : Event Call Call.Resp Exn) =
          ⟨.registerUser username password, .ok (some row.id.text)⟩ → name = row.username := by
      intro username' password' id' hname heq
      obtain ⟨rfl, rfl⟩ := Call.registerUser.inj (Event.mk.inj heq).1
      exact Except.ok.inj (hname.symm.trans hrow.username)
    rcases registered_of_advance hat₁ with hat₁ | ⟨⟨rfl, rfl⟩, hname₁, heq₁⟩
    · rcases registered_of_advance hat₂ with hat₂ | ⟨-, hname₂, heq₂⟩
      · exact h.once _ _ _ _ _ _ _ _ _ _ _ hat₁ hat₂
      · obtain rfl := hsame hname₂ heq₂
        exact absurd hat₁ htaken
    · rcases registered_of_advance hat₂ with hat₂ | ⟨⟨rfl, rfl⟩, -, -⟩
      · obtain rfl := hsame hname₁ heq₁
        exact absurd hat₂ htaken
      · exact ⟨rfl, rfl⟩

theorem Accounts.call (h : Accounts svc pg w P) {i : ι} {c : Call} {r : Except Exn c.Resp}
    (hexec : exec svc pg c w = (r, w')) (next : App α) :
    Accounts svc pg w' (P.advance i c r next) := by
  by_cases hc : ∃ username password, c = .registerUser username password
  · obtain ⟨username, password, rfl⟩ := hc
    rcases exec_registerUser_checked hexec with ⟨rfl, hnot⟩ | ⟨row, hrow, rfl, rfl⟩
    · refine h.same (show w.skipUuids.users = w.users from rfl) fun username' password' id heq => ?_
      obtain ⟨-, hr⟩ := Event.mk.inj heq
      exact hnot id (eq_of_heq hr).symm
    · exact h.registered hrow rfl
  · have hother : ∀ username password, c ≠ .registerUser username password :=
      fun username password heq => hc ⟨username, password, heq⟩
    refine h.same (exec_users hother hexec) fun username password id heq => ?_
    exact hother username password (Event.mk.inj heq).1.symm

theorem accounts_run (husers : w₀.users = []) (hlogs : ∀ i, (P₀ i).log = [])
    (hrun : Pool.Interleaved (exec svc pg) Beside w₀ P₀ w P) : Accounts svc pg w P := by
  refine hrun.invariant (Accounts svc pg) (accounts_start husers hlogs) ?_ ?_
  · intro w₁ w₂ Q i c k r h _ hexec
    exact h.call hexec (k r)
  · intro w₁ w₂ Q h hbeside
    have hsame := hbeside.users
    exact ⟨hsame ▸ h.names, hsame ▸ h.ids, hsame ▸ h.made, hsame ▸ h.kept, h.once⟩

/-! ## Logins -/

omit [DecidableEq ι] in
theorem Accounts.same_account (h : Accounts svc pg w P) (hinj : Function.Injective svc.sha256)
    {name password password' : Bytes} {id id' : Uuid} (hreg : Registered pg P name password id)
    (hreg' : Registered pg P name password' id') : password = password' ∧ id = id' := by
  obtain ⟨u, hu, huname, rfl, huhash⟩ := h.kept _ _ _ hreg
  obtain ⟨v, hv, hvname, rfl, hvhash⟩ := h.kept _ _ _ hreg'
  obtain rfl : u = v := List.inj_on_of_nodup_map h.names hu hv (huname.trans hvname.symm)
  exact ⟨hinj (huhash.symm.trans hvhash), rfl⟩

omit [DecidableEq ι] in
theorem Accounts.login_iff (h : Accounts svc pg w P) (hinj : Function.Injective svc.sha256)
    {username name password : Bytes} {record : UserRecord} (hname : pg.textParam username = .ok name) :
    login pg svc w username password = .ok (some record) ↔
      ∃ id, Registered pg P name password id ∧ record = { id := id.text, username := name } := by
  have hlogin : login pg svc w username password = .ok ((w.users.find? fun u =>
      decide (u.username = name) && decide (u.passwordHash = svc.sha256 password)).map
        fun u => { id := u.id.text, username := u.username }) := by
    rw [login, hname]
    rfl
  rw [hlogin, Except.ok.injEq, Option.map_eq_some_iff]
  constructor
  · rintro ⟨u, hfind, rfl⟩
    have hu := List.mem_of_find?_eq_some hfind
    have hmatch := List.find?_some hfind
    rw [Bool.and_eq_true, decide_eq_true_eq, decide_eq_true_eq] at hmatch
    obtain ⟨password', hhash, hmade⟩ := h.made u hu
    obtain rfl := hinj (hhash.symm.trans hmatch.2)
    rw [hmatch.1] at hmade ⊢
    exact ⟨u.id, hmade, rfl⟩
  · rintro ⟨id, hreg, rfl⟩
    obtain ⟨u, hu, huname, rfl, huhash⟩ := h.kept _ _ _ hreg
    have hsome : (w.users.find? fun u => decide (u.username = name) &&
        decide (u.passwordHash = svc.sha256 password)).isSome = true := by
      refine List.find?_isSome.mpr ⟨u, hu, ?_⟩
      rw [huname, huhash, decide_eq_true rfl, decide_eq_true rfl]
      rfl
    obtain ⟨v, hfind⟩ := Option.isSome_iff_exists.mp hsome
    have hmatch := List.find?_some hfind
    rw [Bool.and_eq_true, decide_eq_true_eq, decide_eq_true_eq] at hmatch
    obtain rfl : v = u := List.inj_on_of_nodup_map h.names (List.mem_of_find?_eq_some hfind) hu
      (hmatch.1.trans huname.symm)
    exact ⟨v, hfind, by rw [huname]⟩

/-- Where the name is one for the database, a login is answered. -/
theorem login_total {username name password : Bytes} (hname : pg.textParam username = .ok name) :
    ∃ found, login pg svc w username password = .ok found := by
  rw [login, hname]
  exact ⟨_, rfl⟩

/-- **A name has one account, and its password is the one it was registered with.** Of the
registrations of a name, at the same time or later, one succeeds; and a login succeeds
with its password only, and finds the id that it returned. -/
theorem login_iff_registered (hinj : Function.Injective svc.sha256) (husers : w₀.users = [])
    (hlogs : ∀ i, (P₀ i).log = []) (hrun : Pool.Interleaved (exec svc pg) Beside w₀ P₀ w P)
    {username name : Bytes} (hname : pg.textParam username = .ok name) :
    (∀ password record, login pg svc w username password = .ok (some record) ↔
      ∃ id, Registered pg P name password id ∧ record = { id := id.text, username := name }) ∧
    (∀ password id password' id', Registered pg P name password id →
      Registered pg P name password' id' → password = password' ∧ id = id') ∧
    (∀ i n password id username j m password' id' username',
      RegisteredAt pg P i n name password id username →
        RegisteredAt pg P j m name password' id' username' → i = j ∧ n = m) ∧
    ∀ name' password password' id, Registered pg P name password id →
      Registered pg P name' password' id → name = name' := by
  have h := accounts_run husers hlogs hrun
  refine ⟨fun password record => h.login_iff hinj hname, fun _ _ _ _ => h.same_account hinj,
    fun _ _ _ _ _ _ _ _ _ _ => h.once _ _ _ _ _ _ _ _ _ _ _, fun name' password password' id hreg hreg' => ?_⟩
  obtain ⟨u, hu, huname, huid, -⟩ := h.kept _ _ _ hreg
  obtain ⟨v, hv, hvname, hvid, -⟩ := h.kept _ _ _ hreg'
  obtain rfl : u = v := List.inj_on_of_nodup_map h.ids hu hv (huid.trans hvid.symm)
  exact huname.symm.trans hvname

end Accounts

/-! ## Tokens -/

section Tokens

variable {svc : Services} {pg : Postgres} {w : World}

/-- The claims of a token that is issued at this time. -/
def claimsAt (svc : Services) (clock : Int) (userId username : Bytes) : JwtClaims :=
  issuedClaims clock { userId, username, exp := 0, iat := clock } svc.jwtTtlHours

/-- What a token lets in: shown for a protected path, it makes the request one of this user,
until it expires, and of nobody later or if the decoder cannot read its payload. -/
def Identifies (svc : Services) (token payload : Bytes) (claims : JwtClaims) : Prop :=
  ∀ now req, isWhitelisted req.path = false →
    extractToken (req.getHeader (ascii "Authorization")) = some token →
      if Readable payload ∧ now ≤ claims.exp then authenticate svc.jwt now req =
        { authenticated := true, userId := claims.userId, username := claims.username }
      else (authenticate svc.jwt now req).authenticated = false

/-- A token that `generate` gives at this time for the user. -/
structure IssuedAt (svc : Services) (clock : Int) (token userId username : Bytes) : Prop where
  generated : svc.jwt.generate clock { userId, username, exp := 0, iat := clock } svc.jwtTtlHours =
    .ok token
  identifies : ∃ payload,
    svc.json.dump (tokenPayload (claimsAt svc clock userId username)) = .ok payload ∧
      Identifies svc token payload (claimsAt svc clock userId username)

/-- A token that is shown for a protected path is verified. -/
theorem authenticate_shown {now : Int} {req : HttpRequest} {token : Bytes}
    (hpath : isWhitelisted req.path = false)
    (hshown : extractToken (req.getHeader (ascii "Authorization")) = some token) :
    authenticate svc.jwt now req = (svc.jwt.verify now token).elim
      { errorMsg := ascii "Invalid or expired token" } fun claims =>
        { authenticated := true, userId := claims.userId, username := claims.username } := by
  have hgiven : (req.getHeader (ascii "Authorization")).isEmpty = false := by
    rw [List.isEmpty_eq_false_iff]
    intro hempty
    rw [hempty] at hshown
    have hnone : extractToken [] = none := by decide
    cases hnone.symm.trans hshown
  unfold authenticate
  rw [if_neg (by rw [hpath]; decide)]
  dsimp only
  rw [if_neg (by rw [hgiven]; decide), hshown]
  dsimp only
  cases svc.jwt.verify now token with
  | none => rfl
  | some claims => rfl

theorem base64url_ascii {data : Bytes} {c : UInt8} (h : c ∈ base64urlEncode data) : c < 0x80 := by
  have hsafe := urlSafe_of_mem_encode h
  simp only [isUrlSafe, isDigit, DASH, Bool.or_eq_true, Bool.and_eq_true, decide_eq_true_eq,
    beq_iff_eq] at hsafe
  rcases hsafe with (((hsafe | hsafe) | hsafe) | rfl) | rfl
  · exact UInt8.lt_of_le_of_lt hsafe.2 (by decide)
  · exact UInt8.lt_of_le_of_lt hsafe.2 (by decide)
  · exact UInt8.lt_of_le_of_lt hsafe.2 (by decide)
  · decide
  · decide

theorem token_utf8 {clock ttl : Int} {claims : JwtClaims} {token : Bytes}
    (h : svc.jwt.generate clock claims ttl = .ok token) : validUtf8 token = true := by
  refine validUtf8_of_ascii fun c hc => ?_
  unfold JwtUtil.generate at h
  split at h
  · cases h
  · cases h
  · cases h
    simp only [JwtUtil.signatureOf, List.mem_append, List.mem_cons] at hc
    rcases hc with (hc | rfl | hc) | rfl | hc
    · exact base64url_ascii hc
    · decide
    · exact base64url_ascii hc
    · decide
    · exact base64url_ascii hc

/-- A token is issued for every user whose id and name are UTF-8. -/
theorem token_issued (hjson : svc.json.Lawful) {clock : Int} {userId username : Bytes}
    (hu : validUtf8 userId = true) (hn : validUtf8 username = true)
    (hclock : 0 ≤ clock ∧ clock < 2 ^ 63) :
    ∃ token, IssuedAt svc clock token userId username := by
  have hclaims : claimsAt svc clock userId username =
      { userId, username, exp := defaultExp clock svc.jwtTtlHours, iat := clock } := by
    simp [claimsAt, issuedClaims]
  have hexp : -(2 ^ 63) ≤ (claimsAt svc clock userId username).exp ∧
      (claimsAt svc clock userId username).exp < 2 ^ 63 := by
    rw [hclaims]
    exact ⟨Int.le_bmod (by norm_num), Int.bmod_lt (by norm_num)⟩
  have hrange : -(2 ^ 63) ≤ (claimsAt svc clock userId username).iat ∧
      (claimsAt svc clock userId username).iat < 2 ^ 63 := by
    have hlow : -(2 ^ 63) ≤ clock := by omega
    rw [hclaims]
    exact ⟨hlow, hclock.2⟩
  have hverify := fun now => @verify_generate svc.jwt hjson clock now svc.jwtTtlHours
    { userId, username, exp := 0, iat := clock } hu hn hexp hrange
  obtain ⟨payload, token, hdump, hgenerate, -⟩ := hverify 0
  refine ⟨token, hgenerate, payload, hdump, fun now req hpath hshown => ?_⟩
  obtain ⟨payload', token', hdump', hgenerate', hsame⟩ := hverify now
  obtain rfl : token = token' := Except.ok.inj (hgenerate.symm.trans hgenerate')
  obtain rfl : payload = payload' := Except.ok.inj (hdump.symm.trans hdump')
  change svc.jwt.verify now token = (if Readable payload ∧
    now ≤ (claimsAt svc clock userId username).exp then
      some (claimsAt svc clock userId username) else none) at hsame
  rw [authenticate_shown hpath hshown, hsame]
  split
  · rfl
  · rfl

end Tokens

/-! ## Answers to logins -/

section Answers

variable {svc : Services} {pg : Postgres} {w : World}

/-- A 200 with a token that is issued for the user at this time. -/
def TokenFor (svc : Services) (clock : Int) (resp : HttpResponse) (userId username : Bytes) : Prop :=
  ∃ token text, svc.json.dump (object [("token", .str token), ("user_id", .str userId),
      ("username", .str username)]) = .ok text ∧
    resp = HttpResponse.setJson {} text ∧ IssuedAt svc clock token userId username

theorem TokenFor.statusCode {clock : Int} {resp : HttpResponse} {userId username : Bytes}
    (h : TokenFor svc clock resp userId username) : resp.statusCode = 200 := by
  obtain ⟨token, text, -, rfl, -⟩ := h
  rfl

theorem wp_issueToken (hjson : svc.json.Lawful) {userId username : Bytes}
    (hu : validUtf8 userId = true) (hn : validUtf8 username = true)
    (htime : 0 ≤ toTimeT w.time ∧ toTimeT w.time < 2 ^ 63) :
    (issueToken svc userId username).wp (ofExec (exec svc pg)) (fun r w' => w' = w ∧ ∃ token,
      r = .ok token ∧ IssuedAt svc (toTimeT w.time) token userId username) w := by
  obtain ⟨token, hissued⟩ := @token_issued svc hjson _ userId username hu hn htime
  unfold issueToken
  refine wp_success_bind (show exec svc pg .now w = (.ok w.time, w) from rfl) ?_
  rw [hissued.generated]
  exact ⟨rfl, token, rfl, hissued⟩

theorem wp_tokenAnswer (hjson : svc.json.Lawful) {userId username : Bytes}
    (hu : validUtf8 userId = true) (hn : validUtf8 username = true)
    (htime : 0 ≤ toTimeT w.time ∧ toTimeT w.time < 2 ^ 63) :
    (tokenAnswer svc userId username).wp (ofExec (exec svc pg)) (fun r w' => w' = w ∧
      ∃ resp, r = .ok resp ∧ TokenFor svc (toTimeT w.time) resp userId username) w := by
  unfold tokenAnswer
  refine wp_seq (wp_issueToken hjson hu hn htime) ?_ ?_
  · rintro a w' ⟨rfl, token, heq, hissued⟩
    obtain rfl := Except.ok.inj heq
    refine wp_mono (wp_setJson_text hjson ?_ ?_ ?_) ?_
    any_goals simp only [List.map_cons, List.map_nil]
    · rfl
    · decide
    · simp only [List.forall_mem_cons]
      exact ⟨sendable_str (token_utf8 hissued.generated), sendable_str hu, sendable_str hn,
        fun j hj => absurd hj List.not_mem_nil⟩
    · rintro r w' ⟨rfl, text, hdump, rfl⟩
      exact ⟨rfl, _, rfl, a, text, hdump, rfl, hissued⟩
  · rintro e w' ⟨-, token, heq, -⟩
    cases heq

/-- **A login is answered with 401, or with a token for the user it is**, issued at the time of
the login. -/
theorem login_answers {ι α : Type} [DecidableEq ι] {w₀ : World} {P₀ P : Pool ι Call Call.Resp Exn α}
    (hjson : svc.json.Lawful) (hinj : Function.Injective svc.sha256) (husers : w₀.users = [])
    (hlogs : ∀ i, (P₀ i).log = []) (hrun : Pool.Interleaved (exec svc pg) Beside w₀ P₀ w P)
    (htime : 0 ≤ toTimeT w.time ∧ toTimeT w.time < 2 ^ 63) {req : HttpRequest} {body : Json}
    {username password name : Bytes} (hparse : svc.json.parse req.body = .ok body)
    (hread : readCredentials body = .ok (username, password))
    (hgiven : username ≠ [] ∧ password ≠ []) (hname : pg.textParam username = .ok name) :
    ∃ resp, serve svc pg .login req w = (.ok resp, w) ∧
      (resp.statusCode = 401 ∧ (∀ id, ¬ Registered pg P name password id) ∨
        ∃ id, Registered pg P name password id ∧ TokenFor svc (toTimeT w.time) resp id.text name) := by
  have h := accounts_run husers hlogs hrun
  obtain ⟨found, hfound⟩ : ∃ found, login pg svc w username password = .ok found := login_total hname
  have hwp : (handleLogin svc req).wp (ofExec (exec svc pg)) (fun r w' => w' = w ∧ ∃ resp,
      r = .ok resp ∧ (resp.statusCode = 401 ∧ found = none ∨
        ∃ user, found = some user ∧ TokenFor svc (toTimeT w.time) resp user.id user.username)) w := by
    refine wp_catch (M := fun r w' => w' = w ∧ ∃ resp, r = .ok resp ∧
      (resp.statusCode = 401 ∧ found = none ∨
        ∃ user, found = some user ∧ TokenFor svc (toTimeT w.time) resp user.id user.username)) ?_ ?_ ?_
    · refine wp_success_bind (exec_jsonParse hparse) ?_
      rw [hread]
      show (ite _ _ _ : App HttpResponse).wp _ _ w
      rw [if_neg (not_or.mpr hgiven)]
      refine wp_success_bind (show exec svc pg (.login username password) w = (.ok found, w) by
        rw [exec, hfound]) ?_
      cases found with
      | none =>
          refine wp_setError_utf8 svc hjson 401 _ (fun _ resp hcode => ?_) fun hbad => ?_
          · exact ⟨rfl, resp, rfl, .inl ⟨hcode, rfl⟩⟩
          · exact absurd (by decide) hbad
      | some user =>
          obtain ⟨id, -, rfl⟩ := (h.login_iff hinj hname).mp hfound
          obtain ⟨hutf8, rfl⟩ := textParam_ok.mp hname
          refine wp_mono (wp_tokenAnswer hjson (uuid_validUtf8 id) hutf8 htime) ?_
          rintro r w' ⟨rfl, resp, rfl, htoken⟩
          exact ⟨rfl, resp, rfl, .inr ⟨_, rfl, htoken⟩⟩
    · exact fun a w' ha => ha
    · rintro e w' ⟨-, resp, heq, -⟩
      cases heq
  obtain ⟨hw, resp, hresp, hanswer⟩ := run_of_wp hwp
  refine ⟨resp, Prod.ext hresp hw, hanswer.imp ?_ ?_⟩
  · rintro ⟨hcode, rfl⟩
    refine ⟨hcode, fun id hreg => ?_⟩
    cases hfound.symm.trans ((h.login_iff hinj hname).mpr ⟨id, hreg, rfl⟩)
  · rintro ⟨user, rfl, htoken⟩
    obtain ⟨id, hreg, rfl⟩ := (h.login_iff hinj hname).mp hfound
    exact ⟨id, hreg, htoken⟩

end Answers

/-! ### Two registrations of one name -/

/-- Two visitors want to be bob. -/
def bothAreBob : Pool (Fin 2) Call Call.Resp Exn Unit
  | 0 => only (.registerUser (ascii "bob") (ascii "x"))
  | 1 => only (.registerUser (ascii "bob") (ascii "y"))

def noUsers : World := { idsInTurn with users := [] }

theorem bob_run : ∃ w P, Pool.Interleaved (exec sampleServices samplePostgres) Beside noUsers
    bothAreBob w P ∧ w.time = 0 ∧
      Registered samplePostgres P (ascii "bob") (ascii "x") (sampleId 0) := by
  have hfirst : exec sampleServices samplePostgres (.registerUser (ascii "bob") (ascii "x")) noUsers =
      (.ok (some (sampleId 0).text), (exec sampleServices samplePostgres
        (.registerUser (ascii "bob") (ascii "x")) noUsers).2) := Prod.ext (by decide +kernel) rfl
  refine ⟨_, _, .call (i := 1) (.call (i := 0) .refl rfl hfirst) rfl rfl, by decide +kernel,
    0, 0, ascii "bob", rfl, log_advance.mpr (.inl (log_advance.mpr (.inr ⟨rfl, rfl, rfl⟩)))⟩

theorem bob_registered_once : ∃ w, (∃ record, login samplePostgres sampleServices w (ascii "bob")
    (ascii "x") = .ok (some record)) ∧ ∀ password record, login samplePostgres sampleServices w
      (ascii "bob") password = .ok (some record) → password = ascii "x" := by
  obtain ⟨w, P, hrun, -, hreg⟩ := bob_run
  obtain ⟨hlogin, honce, -⟩ := login_iff_registered sampleServices_sha256_injective
    (show noUsers.users = [] from rfl) (by decide) hrun
    (show samplePostgres.textParam (ascii "bob") = .ok (ascii "bob") from rfl)
  refine ⟨w, ⟨_, (hlogin _ _).mpr ⟨_, hreg, rfl⟩⟩, fun password record h => ?_⟩
  obtain ⟨id, hreg', -⟩ := (hlogin _ _).mp h
  exact (honce _ _ _ _ hreg' hreg).1

def bobsCredentials : Json := object [("password", .str (ascii "x")), ("username", .str (ascii "bob"))]

theorem bob_logs_in : ∃ w req resp, serve sampleServices samplePostgres .login req w = (.ok resp, w) ∧
    TokenFor sampleServices (toTimeT w.time) resp (sampleId 0).text (ascii "bob") := by
  obtain ⟨w, P, hrun, htime, hreg⟩ := bob_run
  obtain ⟨text, -, -, hparse⟩ := sampleServices_lawful.dump_flat bobsCredentials rfl (by decide)
  have hbody : sampleServices.json.parse (HttpRequest.body { body := text }) = .ok bobsCredentials :=
    hparse
  have hread : readCredentials bobsCredentials = .ok (ascii "bob", ascii "x") := rfl
  obtain ⟨resp, hserve, hanswer⟩ := login_answers sampleServices_lawful
    sampleServices_sha256_injective (show noUsers.users = [] from rfl) (by decide) hrun
    (by rw [htime]; decide) hbody hread (by decide)
    (show samplePostgres.textParam (ascii "bob") = .ok (ascii "bob") from rfl)
  refine ⟨w, _, resp, hserve, ?_⟩
  rcases hanswer with ⟨-, hnone⟩ | ⟨id, hid, htoken⟩
  · exact absurd hreg (hnone _)
  · have h := accounts_run (show noUsers.users = [] from rfl) (by decide) hrun
    obtain ⟨-, rfl⟩ := h.same_account sampleServices_sha256_injective hid hreg
    exact htoken

end SolarDrive.Runs
