import SolarDrive.Runs.ShareExpiry

/-!
# Revocation is permanent

A share is revoked by its owner, by the deletion of its file, or when it has
expired, and nothing takes the mark off its row again: no statement clears it,
and the collector deletes the row as a whole (`SharesMoved`). A request that
begins after that can be granted other shares only: it asks for one first, and
has found it in force before it goes on (`mayCall`).
-/

namespace SolarDrive.Runs

open Lib Http Api Metadata Prog

/-! ## The rows -/

section Rows

variable {svc : Services} {pg : Postgres} {c : Call} {w w' : World} {r : Except Exn c.Resp}
  {u : Uuid}

/-- What one statement does to the shares: rows are updated or deleted, and none
loses its mark, or there is a new one. -/
inductive SharesMoved (w w' : World) : Prop
  | kept : (w'.shares.map ShareRow.id).Sublist (w.shares.map ShareRow.id) →
      (∀ s' ∈ w'.shares, ∃ s ∈ w.shares, s'.id = s.id ∧
        (s.isRevoked = true → s'.isRevoked = true)) → SharesMoved w w'
  | added {row : ShareRow} : row.id = w.uuids 0 → (∀ s ∈ w.shares, s.id ≠ row.id) →
      w'.shares = w.shares ++ [row] → w'.uuids = w.skipUuids.uuids → SharesMoved w w'

theorem SharesMoved.same (h : w'.shares = w.shares) : SharesMoved w w' := by
  refine .kept ?_ fun s hs => ⟨s, h ▸ hs, rfl, fun hrev => hrev⟩
  rw [h]

theorem SharesMoved.updated {g : ShareRow → ShareRow}
    (hg : ∀ s, (g s).id = s.id ∧ (s.isRevoked = true → (g s).isRevoked = true))
    (h : w'.shares = w.shares.map g) : SharesMoved w w' := by
  refine .kept ?_ fun s' hs' => ?_
  · rw [h, List.map_map]
    have hids : ShareRow.id ∘ g = ShareRow.id := funext fun s => (hg s).1
    rw [hids]
  · rw [h] at hs'
    obtain ⟨s, hs, rfl⟩ := List.mem_map.mp hs'
    exact ⟨s, hs, (hg s).1, (hg s).2⟩

theorem SharesMoved.deleted {p : ShareRow → Bool} (h : w'.shares = w.shares.filter p) :
    SharesMoved w w' := by
  refine .kept ?_ fun s hs => ⟨s, ?_, rfl, fun hrev => hrev⟩
  · rw [h]
    exact List.filter_sublist.map _
  · rw [h] at hs
    exact List.mem_of_mem_filter hs

theorem sharesMoved_insert {record : ShareRecord} {r : Except Exn Bytes}
    (h : exec svc pg (.shareInsert record) w = (r, w')) : SharesMoved w w' := by
  rcases commit_cases h with ⟨e, -, rfl⟩ | ⟨t, hins, -⟩
  · exact .same rfl
  · simp only [shareInsert, bind_eq_ok, require_ok] at hins
    obtain ⟨file, -, owner, -, token, -, pass, -, expires, -, _, -, _, hfree, _, -, _, -, _, -,
      hret⟩ := hins
    cases hret
    refine .added rfl (fun s hs heq => ?_) rfl rfl
    simp only [Bool.not_eq_true', List.any_eq_false, decide_eq_true_eq] at hfree
    exact hfree s hs heq

theorem sharesMoved_exec (hpg : pg.Lawful svc.json) (h : exec svc pg c w = (r, w')) :
    SharesMoved w w' := by
  by_cases hc : touchesShares c = false
  · exact .same (exec_shares hpg hc h)
  cases c with
  | shareInsert record => exact sharesMoved_insert h
  | incrementDownloadCount id =>
      rcases increment_cases h with ⟨e, -, rfl⟩ | ⟨v, -, -, rfl⟩
      · exact .same rfl
      · refine .updated (fun s => ?_) rfl
        split
        · exact ⟨rfl, fun hrev => hrev⟩
        · exact ⟨rfl, fun hrev => hrev⟩
  | revoke id ownerId =>
      rcases exec_revoke h with rfl | ⟨v, owner, -, -, rfl⟩
      · exact .same rfl
      · refine .updated (fun s => ?_) rfl
        split
        · exact ⟨rfl, fun _ => rfl⟩
        · exact ⟨rfl, fun hrev => hrev⟩
  | revokeByFileId fileId =>
      rcases exec_revokeByFileId h with ⟨e, -, -, rfl⟩ | ⟨v, -, -, rfl⟩
      · exact .same rfl
      · refine .updated (fun s => ?_) rfl
        split
        · exact ⟨rfl, fun _ => rfl⟩
        · exact ⟨rfl, fun hrev => hrev⟩
  | purgeContent content =>
      cases exec_purgeContent h with
      | nothing => exact .same rfl
      | swept _ b _ _ _ _ _ _ =>
          cases b with
          | false => exact .same rfl
          | true => exact .deleted rfl
  | _ => exact absurd rfl hc

/-- A transaction takes no ids, or the next two. -/
theorem exec_uuids (hpg : pg.Lawful svc.json) (h : exec svc pg c w = (r, w')) :
    w'.uuids = w.uuids ∨ w'.uuids = w.skipUuids.uuids := by
  have hw : w' = (exec svc pg c w).2 := by rw [h]
  by_cases hr : readOnly c = true
  · obtain ⟨draws, hd⟩ := @exec_readOnly svc pg c hr w
    rw [hw, hd]
    exact Or.inl rfl
  cases c with
  | put data => rcases exec_put h with ⟨rfl, -⟩ | ⟨-, -, rfl⟩ <;> exact Or.inl rfl
  | redisSet key value ttl => exact Or.inl (by rw [hw]; rfl)
  | redisDel key => exact Or.inl (by rw [hw]; rfl)
  | hset key field value =>
      obtain ⟨redis, hh⟩ := hset_data key field value w
      have hw' : w' = (hset key field value w).2 := hw
      rw [hw', hh]
      exact Or.inl rfl
  | registerUser username password =>
      obtain ⟨users, rfl⟩ := exec_registerUser h
      exact Or.inr rfl
  | folderInsert folder =>
      rcases exec_folderInsert h with rfl | ⟨row, -, rfl⟩ <;> exact Or.inr rfl
  | folderSoftDelete id =>
      rcases exec_folderSoftDelete h with rfl | ⟨v, -, rfl⟩ <;> exact Or.inl rfl
  | folderRename id name =>
      rcases exec_folderRename h with rfl | ⟨v, g, -, -, rfl⟩ <;> exact Or.inl rfl
  | fileInsert file =>
      rcases exec_fileInsert hpg h with ⟨e, -, rfl⟩ | ⟨row, contents, d, -, -, -, -, rfl⟩ <;>
        exact Or.inr rfl
  | insertLink file contentId =>
      rcases exec_insertLink h with ⟨e, -, rfl⟩ | ⟨row, -, -, rfl⟩ <;> exact Or.inr rfl
  | fileSoftDelete id =>
      rcases exec_fileSoftDelete h with ⟨e, -, rfl⟩ | ⟨v, -, -, rfl⟩ <;> exact Or.inl rfl
  | shareInsert record => rcases exec_shareInsert h with rfl | ⟨row, -, rfl⟩ <;> exact Or.inr rfl
  | incrementDownloadCount id =>
      rcases increment_cases h with ⟨e, -, rfl⟩ | ⟨v, -, -, rfl⟩ <;> exact Or.inl rfl
  | revoke id ownerId =>
      rcases exec_revoke h with rfl | ⟨v, owner, -, -, rfl⟩ <;> exact Or.inl rfl
  | revokeByFileId fileId =>
      rcases exec_revokeByFileId h with ⟨e, -, -, rfl⟩ | ⟨v, -, -, rfl⟩ <;> exact Or.inl rfl
  | purgeContent content =>
      cases exec_purgeContent h with
      | nothing => exact Or.inl rfl
      | swept _ b => cases b <;> exact Or.inl rfl
  | _ => exact absurd rfl hr

/-- The primary key of the shares. -/
def IdsDistinct (w : World) : Prop := (w.shares.map ShareRow.id).Nodup

theorem SharesMoved.idsDistinct (h : SharesMoved w w') (hw : IdsDistinct w) : IdsDistinct w' := by
  cases h with
  | kept hids _ => exact hw.sublist hids
  | added _ hfresh hshares _ =>
      unfold IdsDistinct
      rw [hshares, List.map_append, List.nodup_append]
      refine ⟨hw, List.nodup_singleton _, ?_⟩
      rintro _ hid _ hnew rfl
      obtain ⟨s, hs, hsid⟩ := List.mem_map.mp hid
      exact hfresh s hs (hsid.trans (List.mem_singleton.mp hnew))

/-- The ids of the shares have been drawn from the ids to come at the start. -/
def Drawn (ids : Nat → Uuid) (w : World) : Prop :=
  ∃ m, (∀ n, w.uuids n = ids (n + m)) ∧ ∀ s ∈ w.shares, ∃ k < m, ids k = s.id

theorem SharesMoved.drawn {ids : Nat → Uuid} (h : SharesMoved w w')
    (huuids : w'.uuids = w.uuids ∨ w'.uuids = w.skipUuids.uuids) (hw : Drawn ids w) :
    Drawn ids w' := by
  obtain ⟨m, hshift, hdrawn⟩ := hw
  have hskip : ∀ n, w.skipUuids.uuids n = ids (n + (m + 2)) := by
    intro n
    show w.uuids (n + 2) = _
    rw [hshift]
    congr 1
    omega
  cases h with
  | kept _ hrows =>
      have hold : ∀ s' ∈ w'.shares, ∃ k < m, ids k = s'.id := by
        intro s' hs'
        obtain ⟨s, hs, hid, -⟩ := hrows s' hs'
        rw [hid]
        exact hdrawn s hs
      rcases huuids with heq | heq
      · exact ⟨m, fun n => heq ▸ hshift n, hold⟩
      · refine ⟨m + 2, fun n => heq ▸ hskip n, fun s' hs' => ?_⟩
        obtain ⟨k, hk, hid⟩ := hold s' hs'
        exact ⟨k, by omega, hid⟩
  | added hnew _ hshares heq =>
      refine ⟨m + 2, fun n => heq ▸ hskip n, fun s hs => ?_⟩
      rw [hshares] at hs
      rcases List.mem_append.mp hs with hs | hs
      · obtain ⟨k, hk, hid⟩ := hdrawn s hs
        exact ⟨k, by omega, hid⟩
      · refine ⟨m, by omega, ?_⟩
        rw [List.mem_singleton.mp hs, hnew, hshift, Nat.zero_add]

/-- `gen_random_uuid()` does not give this id twice. -/
def GivenOnce (u : Uuid) (ids : Nat → Uuid) : Prop := ∀ m n, ids m = u → ids n = u → m = n

/-- The id of a share is not drawn again. -/
theorem Drawn.notAgain {ids : Nat → Uuid} (h : Drawn ids w) {s : ShareRow} (hs : s ∈ w.shares)
    (honce : GivenOnce s.id ids) (n : Nat) : w.uuids n ≠ s.id := by
  obtain ⟨m, hshift, hdrawn⟩ := h
  obtain ⟨k, hk, hid⟩ := hdrawn s hs
  rw [hshift]
  intro heq
  have hkn := honce k (n + m) hid heq
  omega

/-- The share with this id is marked as long as it is there, and no other will
have the id. -/
structure Withdrawn (u : Uuid) (w : World) : Prop where
  revoked : ∀ s ∈ w.shares, s.id = u → s.isRevoked = true
  notDrawn : ∀ n, w.uuids n ≠ u

theorem Withdrawn.moved (h : Withdrawn u w) (hmoved : SharesMoved w w')
    (huuids : w'.uuids = w.uuids ∨ w'.uuids = w.skipUuids.uuids) : Withdrawn u w' := by
  refine ⟨fun s' hs' hid => ?_, fun n => ?_⟩
  · cases hmoved with
    | kept _ hrows =>
        obtain ⟨s, hs, hsame, hmark⟩ := hrows s' hs'
        exact hmark (h.revoked s hs (hsame.symm.trans hid))
    | added hnew _ hshares _ =>
        rw [hshares] at hs'
        rcases List.mem_append.mp hs' with hs | hs
        · exact h.revoked s' hs hid
        · rw [List.mem_singleton.mp hs, hnew] at hid
          exact absurd hid (h.notDrawn 0)
  · rcases huuids with heq | heq
    · rw [heq]
      exact h.notDrawn n
    · rw [heq]
      exact h.notDrawn (n + 2)

end Rows

/-! ## Who revokes -/

/-- What happens beside the requests and the collector: `revoke_expired` is run,
the clock goes on, a key of Redis runs out. -/
inductive Beside (w : World) : World → Prop
  | revokeExpired : Beside w (revokeExpired w).2
  | tick (time : Int) : Beside w { w with time }
  | expire (key : Bytes) : Beside w (redisDel key w)

theorem Beside.sharesMoved {w w' : World} (h : Beside w w') : SharesMoved w w' := by
  cases h with
  | revokeExpired =>
      refine .updated (fun s => ?_) rfl
      split
      · exact ⟨rfl, fun _ => rfl⟩
      · exact ⟨rfl, fun hrev => hrev⟩
  | tick time => exact .same rfl
  | expire key => exact .same rfl

theorem Beside.uuids {w w' : World} (h : Beside w w') : w'.uuids = w.uuids := by
  cases h <;> rfl

/-- One of the three ways to revoke a share has been taken. -/
inductive Revokes (svc : Services) (pg : Postgres) (s : ShareRow) (w : World) : World → Prop
  | byOwner {id ownerId : Bytes} {w' : World} : pg.uuidParam id = .ok s.id →
      pg.uuidParam ownerId = .ok s.ownerId → exec svc pg (.revoke id ownerId) w = (.ok (), w') →
      Revokes svc pg s w w'
  | byDeletion {fileId : Bytes} {w' : World} : pg.uuidParam fileId = .ok s.fileId →
      exec svc pg (.revokeByFileId fileId) w = (.ok (), w') → Revokes svc pg s w w'
  | byExpiry {expiresAt : Int} : s.expiresAt = some expiresAt → expiresAt < w.sqlNow →
      Revokes svc pg s w (revokeExpired w).2

section Writers

variable {svc : Services} {pg : Postgres} {w w' : World} {s : ShareRow}

/-- Each of them marks the row. -/
theorem Revokes.marks (h : Revokes svc pg s w w') (hs : s ∈ w.shares) :
    ∃ s' ∈ w'.shares, s'.id = s.id ∧ s'.isRevoked = true := by
  have hmark : ∀ {g : ShareRow → ShareRow}, w'.shares = w.shares.map g →
      (g s).id = s.id ∧ (g s).isRevoked = true → ∃ s' ∈ w'.shares, s'.id = s.id ∧
        s'.isRevoked = true := by
    intro g hshares hg
    rw [hshares]
    exact ⟨g s, List.mem_map_of_mem hs, hg⟩
  cases h with
  | @byOwner id ownerId _ hid howner hexec =>
      have hcommit : commit w (revoke pg id ownerId w) = (.ok (), w') := hexec
      rw [revoke, hid, howner] at hcommit
      cases hcommit
      refine hmark rfl ?_
      simp
  | @byDeletion fileId _ hfile hexec =>
      have hcommit : commit w (revokeByFileId pg fileId w) = (.ok (), w') := hexec
      rw [revokeByFileId, hfile] at hcommit
      cases hcommit
      refine hmark rfl ?_
      cases hrev : s.isRevoked <;> simp [hrev]
  | @byExpiry t ht hdue =>
      refine hmark rfl ?_
      cases hrev : s.isRevoked <;> simp [hrev, ht, hdue]

/-- With the primary key the mark is on all there is of the share. -/
theorem Revokes.withdrawn {ids : Nat → Uuid} (h : Revokes svc pg s w w') (hs : s ∈ w.shares)
    (hids : IdsDistinct w') (hdrawn : Drawn ids w') (honce : GivenOnce s.id ids) :
    Withdrawn s.id w' := by
  obtain ⟨s', hs', hid, hrev⟩ := h.marks hs
  refine ⟨fun t ht htid => ?_, fun n => ?_⟩
  swap
  · rw [← hid] at honce ⊢
    exact hdrawn.notAgain hs' honce n
  obtain rfl : t = s' := List.inj_on_of_nodup_map hids ht hs' (htid.trans hid.symm)
  exact hrev

end Writers

/-! ## A request for a share -/

/-- The process has come upon the share. -/
def CameUpon (u : Uuid) (log : Log) : Prop :=
  ∃ token share, (⟨.findByToken token, .ok (some share)⟩ : Event Call Call.Resp Exn) ∈ log ∧
    share.id = u.text

/-- The process has come upon a share in force, and not upon this one. -/
def Granted (u : Uuid) (log : Log) : Prop :=
  (∃ token share, (⟨.findByToken token, .ok (some share)⟩ : Event Call Call.Resp Exn) ∈ log ∧
    share.isRevoked = false) ∧ ¬ CameUpon u log

/-- What a request calls before it is granted a share. -/
def asksForShare : Call → Bool
  | .findByToken _ | .jsonParse _ => true
  | _ => false

/-- The process has only asked for a share. -/
def OnlyAsked (log : Log) : Prop := ∀ e ∈ log, asksForShare e.call = true

/-- A request asks for a share first, and goes on with another one only. -/
def mayCall (u : Uuid) (log : Log) (c : Call) : Prop :=
  OnlyAsked log ∧ asksForShare c = true ∨ Granted u log ∧ ∀ token, c ≠ .findByToken token

/-- The share is seen revoked. -/
def SeenRevoked (u : Uuid) : (c : Call) → Except Exn c.Resp → Prop
  | .findByToken _, r => ∀ share, r = .ok (some share) → share.id = u.text → share.isRevoked = true
  | _, _ => True

abbrev shareLogs (u : Uuid) : Interface Call Call.Resp Exn Log :=
  logInterface (mayCall u) (SeenRevoked u)

section Handlers

variable {svc : Services} {u : Uuid} {log : Log} {α : Type}

theorem cameUpon_append {c : Call} {r : Except Exn c.Resp} :
    CameUpon u (log ++ [⟨c, r⟩]) ↔ CameUpon u log ∨
      ∃ token share, (⟨c, r⟩ : Event Call Call.Resp Exn) = ⟨.findByToken token, .ok (some share)⟩ ∧
        share.id = u.text := by
  constructor
  · rintro ⟨token, share, hmem, hid⟩
    rcases List.mem_append.mp hmem with hmem | hmem
    · exact Or.inl ⟨token, share, hmem, hid⟩
    · exact Or.inr ⟨token, share, (List.mem_singleton.mp hmem).symm, hid⟩
  · rintro (⟨token, share, hmem, hid⟩ | ⟨token, share, heq, hid⟩)
    · exact ⟨token, share, List.mem_append_left _ hmem, hid⟩
    · exact ⟨token, share, List.mem_append_right _ (List.mem_singleton.mpr heq.symm), hid⟩

/-- Who does not look for shares does not come upon one. -/
theorem not_cameUpon_append {c : Call} {r : Except Exn c.Resp} (h : ¬ CameUpon u log)
    (hc : ∀ token, c ≠ .findByToken token) : ¬ CameUpon u (log ++ [⟨c, r⟩]) := by
  rw [cameUpon_append]
  rintro (hlog | ⟨token, share, heq, -⟩)
  · exact h hlog
  · exact hc token (congrArg Event.call heq)

theorem Granted.append (h : Granted u log) {c : Call} {r : Except Exn c.Resp}
    (hc : ∀ token, c ≠ .findByToken token) : Granted u (log ++ [⟨c, r⟩]) := by
  obtain ⟨⟨token, share, hmem, hforce⟩, hnot⟩ := h
  exact ⟨⟨token, share, List.mem_append_left _ hmem, hforce⟩, not_cameUpon_append hnot hc⟩

/-- The first share that a request comes upon, if it is in force. -/
theorem granted_found (h : ¬ CameUpon u log) {token : Bytes} {share : ShareRecord}
    (hseen : share.id = u.text → share.isRevoked = true) (hforce : share.isRevoked = false) :
    Granted u (log ++ [⟨.findByToken token, .ok (some share)⟩]) := by
  refine ⟨⟨token, share, List.mem_append_right _ (List.mem_singleton.mpr rfl), hforce⟩, ?_⟩
  rw [cameUpon_append]
  rintro (hlog | ⟨t, found, heq, hid⟩)
  · exact h hlog
  · cases heq
    rw [hseen hid] at hforce
    cases hforce

/-- A process that has been granted a share does not look for another one. -/
theorem wp_granted {p : App α} (hp : p.CallsOnly fun c => ∀ token, c ≠ .findByToken token)
    (h : Granted u log) : p.wp (shareLogs u) (fun _ log' => Granted u log') log := by
  refine wp_of_callsOnly (fun log' => Granted u log') (fun log' c hc h' => ?_) hp h
  refine ⟨Or.inr ⟨h', hc⟩, ?_⟩
  rintro r _ ⟨-, rfl⟩
  exact h'.append hc

/-- The outcome of `resolve_share`: a refusal, or another share. -/
def Sifted (u : Uuid) (r : Except Exn (Answered ShareRecord)) (log : Log) : Prop :=
  ∀ a, r = .ok a → Refused a ∨ Granted u log

theorem sifted_refuse (code : Int) (msg : String) (hcode : code ≠ 200) :
    (refuse svc code msg : App (Answered ShareRecord)).wp (shareLogs u) (Sifted u) log := by
  refine wp_refuse svc code msg ?_ fun e a ha => by cases ha
  rintro resp hresp _ ⟨⟩
  exact Or.inl ⟨resp, rfl, by rwa [hresp]⟩

/-- `resolve_share` from the check of the expiry on looks for no other share. -/
theorem grant_seeks_nothing (token password : Bytes) (count : Bool) (share : ShareRecord) : (do
    let expired ← shareExpired share
    if expired then refuse svc 410 "share has expired"
    else
      let checked ← checkPassword svc share password
      match checked with
      | .error resp => return .error resp
      | .ok () =>
          if count ∧ 0 < share.maxDownloads ∧ share.maxDownloads ≤ share.downloadCount then
            refuse svc 403 "download limit reached"
          else if count then
            countDownload svc token share
            return .ok { share with downloadCount := share.downloadCount + 1 }
          else return .ok share : App (Answered ShareRecord)).CallsOnly
      fun c => ∀ t, c ≠ .findByToken t := by
  refine callsOnly_bind (callsOnly_shareExpired nofun share) fun expired => ?_
  split
  · exact callsOnly_answered svc _ _
  refine callsOnly_bind (callsOnly_checkPassword svc share password) fun checked => ?_
  cases checked with
  | error resp => exact callsOnly_pure _
  | ok _ =>
      dsimp only
      split
      · exact callsOnly_answered svc _ _
      split
      · obtain ⟨rest, hsplit, hrest⟩ := @countDownload_rest svc (fun c => ∀ t, c ≠ .findByToken t)
          token nofun nofun nofun share
        rw [hsplit]
        exact callsOnly_bind (callsOnly_bind (callsOnly_request nofun) fun _ => hrest)
          fun _ => callsOnly_pure _
      · exact callsOnly_pure _

theorem sifted_resolveShare (token password : Bytes) (count : Bool) (hlog : OnlyAsked log)
    (h : ¬ CameUpon u log) :
    (resolveShare svc token password count).wp (shareLogs u) (Sifted u) log := by
  unfold resolveShare
  split
  · exact sifted_refuse 400 _ (by decide)
  refine wp_request_bind (Or.inl ⟨hlog, rfl⟩) ?_ ?_
  swap
  · rintro e _ ⟨-, rfl⟩ a ⟨⟩
  rintro found _ ⟨hseen, rfl⟩
  cases found with
  | none => exact sifted_refuse 404 _ (by decide)
  | some share =>
      dsimp only
      split
      · exact sifted_refuse 403 _ (by decide)
      · rename_i hforce
        have hgranted := @granted_found u log h token share (hseen share rfl)
          (eq_false_of_ne_true hforce)
        exact wp_mono (wp_granted (grant_seeks_nothing token password count share) hgranted)
          fun _ _ h' _ _ => Or.inr h'

/-- A 200 is answered on a share in force other than this one. -/
def TurnedAway (u : Uuid) (r : Except Exn HttpResponse) (log : Log) : Prop :=
  ∀ resp, r = .ok resp → resp.statusCode = 200 → Granted u log

theorem turnedAway_setError (code : Int) (msg : Bytes) (hcode : code ≠ 200) :
    (svc.setError code msg).wp (shareLogs u) (TurnedAway u) log := by
  refine wp_setError svc code msg ?_ fun e resp hresp => by cases hresp
  rintro resp hresp _ ⟨⟩ h200
  exact absurd (hresp.symm.trans h200) hcode

/-- What follows on `resolve_share`. -/
theorem turnedAway_resolved {k : ShareRecord → App HttpResponse} (token password : Bytes)
    (count : Bool) (hlog : OnlyAsked log) (h : ¬ CameUpon u log)
    (hk : ∀ share, (k share).CallsOnly fun c => ∀ t, c ≠ .findByToken t) : (do
      let resolved ← resolveShare svc token password count
      match resolved with
      | .error resp => return resp
      | .ok share => k share).wp (shareLogs u) (TurnedAway u) log := by
  refine wp_seq (sifted_resolveShare token password count hlog h) ?_ ?_
  · intro resolved log' hsifted
    cases resolved with
    | error resp =>
        rintro _ ⟨⟩ h200
        rcases hsifted _ rfl with ⟨resp', heq, hstatus⟩ | hgranted
        · cases heq
          exact absurd h200 hstatus
        · exact hgranted
    | ok share =>
        rcases hsifted _ rfl with ⟨resp, heq, -⟩ | hgranted
        · cases heq
        · exact wp_mono (wp_granted (hk share) hgranted) fun _ _ h' _ _ _ => h'
  · rintro e log' - resp ⟨⟩

theorem onlyAsked_nil : OnlyAsked [] := fun _ he => absurd he List.not_mem_nil

theorem not_cameUpon_nil : ¬ CameUpon u [] := by
  rintro ⟨token, share, hmem, -⟩
  cases hmem

theorem turnedAway_handleShareDownload (req : HttpRequest) :
    (handleShareDownload svc req).wp (shareLogs u) (TurnedAway u) [] := by
  refine wp_catch (M := TurnedAway u) ?_ (fun _ _ h => h) ?_
  · dsimp only
    split
    · exact turnedAway_setError 400 _ (by decide)
    split
    · rintro _ ⟨⟩ h302
      cases show (302 : Int) = 200 from h302
    · exact turnedAway_resolved _ _ _ onlyAsked_nil not_cameUpon_nil fun share =>
        callsOnly_deliverShare svc (fun _ => nofun) (fun _ => nofun) (fun _ => nofun) _ share
  · intro e log' _
    exact turnedAway_setError 500 _ (by decide)

theorem turnedAway_handleShareSave (req : HttpRequest) :
    (handleShareSave svc req).wp (shareLogs u) (TurnedAway u) [] := by
  refine wp_catch (M := TurnedAway u) ?_ (fun _ _ h => h) ?_
  · split
    swap
    · exact turnedAway_setError 401 _ (by decide)
    refine wp_request_bind (Or.inl ⟨onlyAsked_nil, rfl⟩) ?_ ?_
    swap
    · rintro e _ ⟨-, rfl⟩ resp ⟨⟩
    rintro body _ ⟨-, rfl⟩
    cases readSaveBody body with
    | error what => exact fun resp hresp => by cases hresp
    | ok fields =>
        obtain ⟨token, password⟩ := fields
        refine turnedAway_resolved token password false ?_ ?_ fun share => ?_
        · intro e he
          rw [List.mem_singleton.mp he]
          rfl
        · exact not_cameUpon_append not_cameUpon_nil nofun
        · refine callsOnly_bind (callsOnly_request nofun) fun file => ?_
          cases file with
          | none => exact callsOnly_ofJson _
          | some f =>
              refine callsOnly_bind (callsOnly_makeUniqueName (fun _ _ _ => nofun) nofun _ _ _)
                fun name => ?_
              exact callsOnly_bind (callsOnly_request nofun) fun _ =>
                callsOnly_bind (callsOnly_ofJson _) fun _ => callsOnly_pure _
  · intro e log' _
    unfold Services.catchJson
    split
    · exact turnedAway_setError 400 _ (by decide)
    · exact turnedAway_setError 500 _ (by decide)

end Handlers

/-! ## The server -/

/-- What a thread of the server works on. -/
inductive Job where
  | request (route : RouteName) (req : HttpRequest)
  | collect (batchLimit : Nat)

def Job.prog (svc : Services) : Job → App (Option HttpResponse)
  | .request route req => do
      let resp ← handler svc route req
      return some resp
  | .collect batchLimit => do
      let _ ← collectOrphans batchLimit
      return none

/-- Every job has its own process, and none has begun. -/
def allJobs {ι : Type} (svc : Services) (jobs : ι → Job) :
    Pool ι Call Call.Resp Exn (Option HttpResponse) :=
  fun i => { log := [], prog := (jobs i).prog svc }

/-- Downloads and previews are one route, saving is the other. -/
def opensShare : RouteName → Bool
  | .shareDownload | .shareSave => true
  | _ => false

section Pool

variable {ι : Type} {svc : Services} {pg : Postgres} {w w' : World} {u : Uuid}

/-- A request for a share on its way: it has only asked, or it has another share. -/
structure Barred (u : Uuid) (p : Proc Call Call.Resp Exn (Option HttpResponse)) : Prop where
  follows : Follows (mayCall u) (SeenRevoked u)
    (fun r log => ∀ resp, r = .ok (some resp) → resp.statusCode = 200 → Granted u log) p
  asked : OnlyAsked p.log ∨ Granted u p.log

theorem barred_start {route : RouteName} (hroute : opensShare route = true) (req : HttpRequest) :
    Barred u { log := [], prog := (Job.request route req).prog svc } := by
  have hturned : (handler svc route req).wp (shareLogs u) (TurnedAway u) [] := by
    cases route with
    | shareDownload => exact turnedAway_handleShareDownload req
    | shareSave => exact turnedAway_handleShareSave req
    | _ => cases hroute
  refine ⟨?_, Or.inl onlyAsked_nil⟩
  refine wp_seq hturned ?_ ?_
  · rintro resp log h _ ⟨⟩
    exact h resp rfl
  · rintro e log - resp ⟨⟩

theorem Barred.step {p : Proc Call Call.Resp Exn (Option HttpResponse)} (h : Barred u p) {c : Call}
    {k : Except Exn c.Resp → App (Option HttpResponse)} (hp : p.prog = .call c k)
    {r : Except Exn c.Resp} (hr : SeenRevoked u c r) :
    Barred u { log := p.log ++ [⟨c, r⟩], prog := k r } := by
  refine ⟨h.follows.step hp hr, ?_⟩
  rcases h.follows.pre_call hp with ⟨hasked, hc⟩ | ⟨hgranted, hc⟩
  · refine Or.inl fun e he => ?_
    rcases List.mem_append.mp he with he | he
    · exact hasked e he
    · rw [List.mem_singleton.mp he]
      exact hc
  · exact Or.inr (hgranted.append hc)

/-- The row of a withdrawn share is seen as it is. -/
theorem seenRevoked_exec (h : Withdrawn u w) {c : Call} {r : Except Exn c.Resp}
    (hexec : exec svc pg c w = (r, w')) : SeenRevoked u c r := by
  cases c with
  | findByToken token =>
      intro share hr hid
      have hfound : findByToken pg w token = .ok (some share) := by
        rw [← hr]
        exact congrArg Prod.fst hexec
      obtain ⟨s, hs, hrow⟩ := Option.map_eq_some_iff.mp (findByToken_ok hfound).symm
      subst hrow
      exact h.revoked s (List.mem_of_find?_eq_some hs) (Uuid.text_injective hid)
  | _ => trivial

variable [DecidableEq ι] {P P' : Pool ι Call Call.Resp Exn (Option HttpResponse)}

/-- Two shares never have the same id, and the ids they have were drawn. -/
theorem ids_run (hpg : pg.Lawful svc.json) {ids : Nat → Uuid}
    (hrun : Pool.Interleaved (exec svc pg) Beside w P w' P') (hw : IdsDistinct w ∧ Drawn ids w) :
    IdsDistinct w' ∧ Drawn ids w' := by
  refine hrun.invariant (fun w _ => IdsDistinct w ∧ Drawn ids w) hw ?_ ?_
  · rintro w₁ w₂ Q j c k r ⟨hdistinct, hdrawn⟩ _ hexec
    have hmoved := sharesMoved_exec hpg hexec
    exact ⟨hmoved.idsDistinct hdistinct, hmoved.drawn (exec_uuids hpg hexec) hdrawn⟩
  · rintro w₁ w₂ Q ⟨hdistinct, hdrawn⟩ hbeside
    have hmoved := hbeside.sharesMoved
    exact ⟨hmoved.idsDistinct hdistinct, hmoved.drawn (Or.inl hbeside.uuids) hdrawn⟩

theorem ids_initial (h₀ : Initial w) : IdsDistinct w ∧ Drawn w.uuids w := by
  unfold IdsDistinct
  rw [h₀.shares]
  refine ⟨List.nodup_nil, 0, fun n => rfl, fun s hs => ?_⟩
  rw [h₀.shares] at hs
  cases hs

/-- From the mark on, a request that has not begun is barred for good. -/
theorem barred_run (hpg : pg.Lawful svc.json)
    (hrun : Pool.Interleaved (exec svc pg) Beside w P w' P') (hwithdrawn : Withdrawn u w) {i : ι}
    (hbarred : Barred u (P i)) : Withdrawn u w' ∧ Barred u (P' i) := by
  refine hrun.invariant (fun w P => Withdrawn u w ∧ Barred u (P i)) ⟨hwithdrawn, hbarred⟩ ?_ ?_
  · rintro w₁ w₂ Q j c k r ⟨hm, hb⟩ hcall hexec
    refine ⟨hm.moved (sharesMoved_exec hpg hexec) (exec_uuids hpg hexec), ?_⟩
    by_cases hj : i = j
    · subst hj
      rw [Pool.advance_self]
      exact hb.step hcall (seenRevoked_exec hm hexec)
    · rw [Pool.advance_ne Q hj]
      exact hb
  · rintro w₁ w₂ Q ⟨hm, hb⟩ hbeside
    exact ⟨hm.moved hbeside.sharesMoved (Or.inl hbeside.uuids), hb⟩

/-- **Revocation is permanent.** A request that begins after the share was
revoked is answered with 200, reads an object or inserts a link only on another
share, which it has found in force; it has then not come upon this one. -/
theorem revocation_permanent (hpg : pg.Lawful svc.json) {jobs : ι → Job} {w₀ w₁ w₂ : World}
    {P₁ P₂ : Pool ι Call Call.Resp Exn (Option HttpResponse)} {s : ShareRow} (h₀ : Initial w₀)
    (hbefore : Pool.Interleaved (exec svc pg) Beside w₀ (allJobs svc jobs) w P)
    (hs : s ∈ w.shares) (honce : GivenOnce s.id w₀.uuids) (hrevokes : Revokes svc pg s w w₁)
    (hmoment : Pool.Interleaved (exec svc pg) Beside w P w₁ P₁)
    (hafter : Pool.Interleaved (exec svc pg) Beside w₁ P₁ w₂ P₂) {i : ι} {route : RouteName}
    {req : HttpRequest} (hjob : jobs i = .request route req) (hroute : opensShare route = true)
    (hbegins : (P₁ i).log = []) :
    (∀ resp, (P₂ i).prog = .ret (some resp) → resp.statusCode = 200 → Granted s.id (P₂ i).log) ∧
      ∀ e ∈ (P₂ i).log, (∃ hash, e.call = .get hash) ∨
        (∃ file contentId, e.call = .insertLink file contentId) → Granted s.id (P₂ i).log := by
  obtain ⟨hids, hdrawn⟩ := ids_run hpg (hbefore.trans hmoment) (ids_initial h₀)
  have hwithdrawn : Withdrawn s.id w₁ := hrevokes.withdrawn hs hids hdrawn honce
  have hstart : Barred s.id (P₁ i) := by
    rw [(hbefore.trans hmoment).untouched hbegins]
    show Barred s.id { log := [], prog := (jobs i).prog svc }
    rw [hjob]
    exact barred_start hroute req
  obtain ⟨-, hbarred⟩ := barred_run hpg hafter hwithdrawn hstart
  refine ⟨fun resp hprog => hbarred.follows.done hprog resp rfl, fun e he hgiven => ?_⟩
  rcases hbarred.asked with hasked | hgranted
  · have hasks := hasked e he
    rcases hgiven with ⟨hash, heq⟩ | ⟨file, contentId, heq⟩
    · rw [heq] at hasks
      cases hasks
    · rw [heq] at hasks
      cases hasks
  · exact hgranted

end Pool

/-! ### A share that has run out -/

/-- The new installation with the ids of the sample server in turn. -/
def idsInTurn : World := { twoUsers with uuids := fun n => sampleId (Fin.ofNat 8 (min n 7)) }

theorem givenOnce_third : GivenOnce (sampleId 2) idsInTurn.uuids := by
  have hid : ∀ i : Fin 8, sampleId i = sampleId 2 → i = 2 := by decide +kernel
  intro m n hm hn
  have hm' := congrArg Fin.val (hid _ hm)
  have hn' := congrArg Fin.val (hid _ hn)
  simp only [Fin.ofNat] at hm' hn'
  omega

/-- Alice uploads a file and shares it for an hour; somebody asks for it. -/
def sharedForAnHour : Fin 3 → Job
  | 0 => .request .upload
      { body := ascii "x", authUserId := aliceId.text, headers := [(ascii "X-File-Name", ascii "a")] }
  | 1 => .request .shareCreate shareForOneHour
  | 2 => .request .shareDownload (shareRequest "Accept" "application/json")

def statusOf (p : Proc Call Call.Resp Exn (Option HttpResponse)) : Option Int :=
  match p.prog with
  | .ret (some resp) => some resp.statusCode
  | _ => none

theorem statusOf_sound {p : Proc Call Call.Resp Exn (Option HttpResponse)} {code : Int}
    (h : statusOf p = some code) : ∃ resp, p.prog = .ret (some resp) ∧ resp.statusCode = code := by
  unfold statusOf at h
  split at h
  · exact ⟨_, ‹_›, Option.some.inj h⟩
  · cases h

/-- After its hour `revoke_expired` revokes the share, and the request that then
comes for it is refused. -/
theorem refused_after_an_hour : ∃ w₁ P₁ w₂ P₂ resp,
    Pool.Interleaved (exec sampleServices zonedPostgres) Beside idsInTurn
      (allJobs sampleServices sharedForAnHour) w₁ P₁ ∧ (P₁ 2).log = [] ∧
    Pool.Interleaved (exec sampleServices zonedPostgres) Beside w₁ P₁ w₂ P₂ ∧
    (P₂ 2).prog = .ret (some resp) ∧ resp.statusCode = 403 ∧
    ∀ e ∈ (P₂ 2).log, (∃ hash, e.call = .get hash) ∨
      (∃ file contentId, e.call = .insertLink file contentId) → Granted (sampleId 2) (P₂ 2).log := by
  have hrun : ((Pool.runSchedule (exec sampleServices zonedPostgres) (fun _ _ _ _ => true)
      (List.replicate 6 0 ++ List.replicate 14 1) idsInTurn
      (allJobs sampleServices sharedForAnHour)).any fun p =>
        (p.1.shares.map fun s => (s.id, s.expiresAt)) == [(sampleId 2, some 3600000000)] &&
          (p.2 2).log.isEmpty &&
          (Pool.runSchedule (exec sampleServices zonedPostgres) (fun _ _ _ _ => true) [2]
            (revokeExpired { p.1 with time := 3601000000000 }).2 p.2).any fun q =>
              statusOf (q.2 2) == some 403) = true := by
    decide +kernel
  obtain ⟨⟨w, P⟩, hsched, hp⟩ := (Option.any_eq_true _ _).mp hrun
  rw [Bool.and_eq_true, Bool.and_eq_true, beq_iff_eq] at hp
  obtain ⟨⟨hshares, hlog⟩, hlater⟩ := hp
  obtain ⟨⟨w₂, P₂⟩, hsched', hstatus⟩ := (Option.any_eq_true _ _).mp hlater
  -- the one share of the run, which the general theorem is applied to
  obtain ⟨s, hs⟩ : ∃ s, w.shares = [s] := by
    refine List.length_eq_one_iff.mp ?_
    have hlength := congrArg List.length hshares
    rwa [List.length_map] at hlength
  dsimp only at hshares
  rw [hs] at hshares
  obtain ⟨hid, hexpires⟩ := Prod.mk.inj (List.cons.inj hshares).1
  obtain ⟨resp, hresp, hcode⟩ := statusOf_sound (beq_iff_eq.mp hstatus)
  have hinitial : Initial idsInTurn := ⟨fun _ => rfl, rfl, rfl, rfl, rfl, fun _ => rfl⟩
  have hbefore : Pool.Interleaved (exec sampleServices zonedPostgres) Beside idsInTurn
      (allJobs sampleServices sharedForAnHour) { w with time := 3601000000000 } P :=
    .beside (Pool.interleaved_of_schedule hsched) (.tick _)
  have hmoment : Pool.Interleaved (exec sampleServices zonedPostgres) Beside
      { w with time := 3601000000000 } P (revokeExpired { w with time := 3601000000000 }).2 P :=
    .beside .refl .revokeExpired
  have hafter : Pool.Interleaved (exec sampleServices zonedPostgres) Beside
      (revokeExpired { w with time := 3601000000000 }).2 P w₂ P₂ :=
    Pool.interleaved_of_schedule hsched'
  have hmem : s ∈ { w with time := 3601000000000 }.shares := by
    show s ∈ w.shares
    rw [hs]
    exact List.mem_singleton.mpr rfl
  have honce : GivenOnce s.id idsInTurn.uuids := hid ▸ givenOnce_third
  have hpermanent := revocation_permanent zonedPostgres_lawful hinitial hbefore hmem honce
    (.byExpiry hexpires (by show (3600000000 : Int) < 3601000000000 / 1000; decide)) hmoment hafter
    (show sharedForAnHour 2 = .request .shareDownload _ from rfl) rfl (List.isEmpty_iff.mp hlog)
  rw [hid] at hpermanent
  exact ⟨_, P, w₂, P₂, resp, hbefore.trans hmoment, List.isEmpty_iff.mp hlog, hafter, hresp, hcode,
    hpermanent.2⟩

end SolarDrive.Runs
