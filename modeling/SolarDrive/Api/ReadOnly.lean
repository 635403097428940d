import SolarDrive.Api.Dispatch

/-!
# The parts of handlers that only read

Looking up folders, files, shares and sessions, choosing names and writing
answers: programs whose calls change nothing. Everything a handler changes is
outside of these.
-/

namespace SolarDrive.Api

open Lib Http Prog

/-- The calls that only read, or draw a random number. -/
def readOnly : Call → Bool
  | .put _ | .redisSet _ _ _ | .redisDel _ | .hset _ _ _ | .registerUser _ _ => false
  | .folderInsert _ | .folderSoftDelete _ | .folderRename _ _ => false
  | .fileInsert _ | .insertLink _ _ | .fileSoftDelete _ => false
  | .shareInsert _ | .incrementDownloadCount _ | .revoke _ _ | .revokeByFileId _ => false
  | .purgeContent _ => false
  | _ => true

def Reads {α : Type} (p : App α) : Prop := p.CallsOnly fun c => readOnly c = true

section Reads

variable {α β : Type}

theorem reads_pure (a : α) : Reads (pure a : App α) := trivial

theorem reads_ask {c : Call} (h : readOnly c = true) : Reads (ask c) := callsOnly_request h

theorem reads_bind {p : App α} {f : α → App β} (hp : Reads p) (hf : ∀ a, Reads (f a)) :
    Reads (p >>= f) := callsOnly_bind hp hf

/-- A step of the JSON library makes no call. -/
theorem callsOnly_ofJson {S : Call → Prop} (x : Except Bytes α) : (ofJson x).CallsOnly S := by
  cases x <;> trivial

theorem reads_ofJson (x : Except Bytes α) : Reads (ofJson x) := callsOnly_ofJson x

theorem reads_ofSto (name : String) (x : Except StoError α) : Reads (ofSto name x) := by
  cases x <;> trivial

end Reads

section Parts

variable (svc : Services)

theorem reads_setError (code : Int) (msg : Bytes) : Reads (svc.setError code msg) := reads_ofJson _

theorem reads_setJson (j : Json) : Reads (svc.setJson j) :=
  reads_bind (reads_ofJson _) fun _ => reads_pure _

theorem reads_catchStd (what : Bytes) (e : Exn) : Reads (svc.catchStd what e) :=
  reads_setError svc _ _

theorem reads_catchJson (what : Bytes) (e : Exn) : Reads (svc.catchJson what e) := by
  unfold Services.catchJson
  split <;> exact reads_setError svc _ _

/-- An answer and nothing more. -/
theorem callsOnly_answered {S : Call → Prop} {α : Type} (code : Int) (msg : Bytes) : (do
    let resp ← svc.setError code msg
    return .error resp : App (Answered α)).CallsOnly S :=
  callsOnly_bind (callsOnly_ofJson _) fun _ => callsOnly_pure _

theorem reads_answered {α : Type} (code : Int) (msg : Bytes) : Reads (do
    let resp ← svc.setError code msg
    return .error resp : App (Answered α)) := callsOnly_answered svc code msg

/-- It asks for the folder only, and draws no numbers. -/
theorem callsOnly_resolveFolderId {S : Call → Prop} (hS : ∀ id, S (.folderFindById id))
    (folderId userId : Bytes) : (resolveFolderId svc folderId userId).CallsOnly S := by
  unfold resolveFolderId
  split
  · exact callsOnly_pure _
  · refine callsOnly_bind (callsOnly_request (hS _)) fun folder => ?_
    cases folder with
    | none => exact callsOnly_answered svc _ _
    | some f =>
        dsimp only
        split
        · exact callsOnly_answered svc _ _
        · exact callsOnly_pure _

theorem reads_resolveFolderId (folderId userId : Bytes) :
    Reads (resolveFolderId svc folderId userId) :=
  callsOnly_resolveFolderId svc (fun _ => rfl) folderId userId

theorem reads_requireOwnedFile (userId fileId : Bytes) :
    Reads (requireOwnedFile svc userId fileId) := by
  unfold requireOwnedFile
  split
  · exact reads_answered svc _ _
  · refine reads_bind (reads_ask rfl) fun file => ?_
    cases file with
    | none => exact reads_answered svc _ _
    | some f => exact reads_pure _

theorem reads_ownedFolder (id userId : Bytes) : Reads (ownedFolder id userId) := by
  refine reads_bind (reads_ask rfl) fun folder => ?_
  cases folder <;> exact reads_pure _

/-- It asks whether names are taken, and for the time when all of them are. -/
theorem callsOnly_firstFreeName {S : Call → Prop}
    (hname : ∀ ownerId folderId name, S (.nameExistsInFolder ownerId folderId name))
    (stem ext ownerId folderId : Bytes) : ∀ count n : Nat,
    (firstFreeName stem ext ownerId folderId count n).CallsOnly S
  | 0, _ => callsOnly_pure _
  | count + 1, n => by
      refine callsOnly_bind (callsOnly_request (hname _ _ _)) fun taken => ?_
      split
      · exact callsOnly_firstFreeName hname stem ext ownerId folderId count (n + 1)
      · exact callsOnly_pure _

theorem callsOnly_makeUniqueName {S : Call → Prop}
    (hname : ∀ ownerId folderId name, S (.nameExistsInFolder ownerId folderId name))
    (hnow : S .now) (name ownerId folderId : Bytes) :
    (makeUniqueName name ownerId folderId).CallsOnly S := by
  refine callsOnly_bind (callsOnly_request (hname _ _ _)) fun taken => ?_
  split
  · refine callsOnly_bind (callsOnly_firstFreeName hname _ _ _ _ _ _) fun free => ?_
    cases free with
    | some candidate => exact callsOnly_pure _
    | none => exact callsOnly_bind (callsOnly_request hnow) fun _ => callsOnly_pure _
  · exact callsOnly_pure _

theorem reads_makeUniqueName (name ownerId folderId : Bytes) :
    Reads (makeUniqueName name ownerId folderId) :=
  callsOnly_makeUniqueName (S := fun c => readOnly c = true) (fun _ _ _ => rfl) rfl name ownerId
    folderId

theorem callsOnly_hsetAll {S : Call → Prop} (hhset : ∀ key field value, S (.hset key field value))
    (key : Bytes) : ∀ fields : List (Bytes × Bytes), (hsetAll key fields).CallsOnly S
  | [] => callsOnly_pure _
  | _ :: fields => callsOnly_bind (callsOnly_request (hhset _ _ _)) fun _ =>
      callsOnly_hsetAll hhset key fields

/-- A session is written field by field, and then given its time to live. -/
theorem callsOnly_saveToRedis {S : Call → Prop}
    (hhset : ∀ key field value, S (.hset key field value))
    (hexpire : ∀ key ttl, S (.expire key ttl)) (session : MultipartSession) :
    (saveToRedis svc session).CallsOnly S := by
  unfold saveToRedis
  split
  · refine callsOnly_bind (callsOnly_ofJson _) fun partHashes => ?_
    refine callsOnly_bind (callsOnly_ofJson _) fun uploaded => ?_
    exact callsOnly_bind (callsOnly_hsetAll hhset _ _) fun _ =>
      callsOnly_bind (callsOnly_request (hexpire _ _)) fun _ => callsOnly_pure _
  · exact callsOnly_pure _

/-- It reads the objects one by one. -/
theorem callsOnly_getChunked {S : Call → Prop} (hget : ∀ hash, S (.get hash)) :
    ∀ hashes : List Bytes, (getChunked hashes).CallsOnly S
  | [] => callsOnly_pure _
  | _ :: hashes => callsOnly_bind (callsOnly_request (hget _)) fun _ =>
      callsOnly_bind (callsOnly_getChunked hget hashes) fun _ => callsOnly_pure _

theorem reads_getChunked (hashes : List Bytes) : Reads (getChunked hashes) :=
  callsOnly_getChunked (S := fun c => readOnly c = true) (fun _ => rfl) hashes

/-! ## Sessions -/

/-- It reads its field. -/
theorem callsOnly_numberField {S : Call → Prop} {key : Bytes} {field : String}
    (hS : S (.hget key (ascii field))) (read : Bytes → Except StoError Int) (name : String)
    (default : Int) : (numberField key field read name default).CallsOnly S := by
  refine callsOnly_bind (callsOnly_request hS) fun text => ?_
  cases text with
  | none => exact callsOnly_pure _
  | some t =>
      show (ofSto name (read t)).CallsOnly S
      cases read t <;> trivial

theorem reads_numberField (key : Bytes) (field : String) (read : Bytes → Except StoError Int)
    (name : String) (default : Int) : Reads (numberField key field read name default) :=
  callsOnly_numberField (S := fun c => readOnly c = true) rfl read name default

/-- It reads its field and has it parsed. -/
theorem callsOnly_arrayField {S : Call → Prop} {key : Bytes} {field : String} {α : Type}
    (hS : S (.hget key (ascii field))) (hparse : ∀ text, S (.jsonParse text))
    (elem : Json → Except Bytes α) : (arrayField key field elem).CallsOnly S := by
  refine callsOnly_bind (callsOnly_request hS) fun text => ?_
  cases text with
  | none => exact callsOnly_pure _
  | some t =>
      dsimp only
      split
      · exact callsOnly_pure _
      · exact callsOnly_bind (callsOnly_request (hparse t)) fun _ => callsOnly_ofJson _

theorem reads_arrayField {α : Type} (key : Bytes) (field : String) (elem : Json → Except Bytes α) :
    Reads (arrayField key field elem) :=
  callsOnly_arrayField (S := fun c => readOnly c = true) rfl (fun _ => rfl) elem

theorem callsOnly_loadFields {S : Call → Prop} {key : Bytes}
    (hget : ∀ field, S (.hget key (ascii field))) (hparse : ∀ text, S (.jsonParse text))
    (uploadId fileName : Bytes) : (loadFields svc key uploadId fileName).CallsOnly S := by
  have hask : ∀ field, (ask (.hget key (ascii field))).CallsOnly S :=
    fun field => callsOnly_request (hget field)
  refine callsOnly_bind (hask _) fun _ => callsOnly_bind (hask _) fun _ =>
    callsOnly_bind (hask _) fun _ => ?_
  refine callsOnly_bind (callsOnly_numberField (hget _) _ _ _) fun _ =>
    callsOnly_bind (callsOnly_numberField (hget _) _ _ _) fun _ =>
    callsOnly_bind (callsOnly_numberField (hget _) _ _ _) fun _ => ?_
  exact callsOnly_bind (callsOnly_arrayField (hget _) hparse _) fun _ =>
    callsOnly_bind (callsOnly_arrayField (hget _) hparse _) fun _ => callsOnly_pure _

/-- It reads fields of its key, and has the two arrays parsed. -/
theorem callsOnly_loadFromRedis {S : Call → Prop} {uploadId : Bytes}
    (hget : ∀ field, S (.hget (sessionKey uploadId) (ascii field)))
    (hparse : ∀ text, S (.jsonParse text)) : (loadFromRedis svc uploadId).CallsOnly S := by
  unfold loadFromRedis
  split
  · refine callsOnly_bind (callsOnly_request (hget _)) fun fileName => ?_
    cases fileName with
    | none => exact callsOnly_pure _
    | some name => exact callsOnly_loadFields svc hget hparse uploadId name
  · exact callsOnly_pure _

theorem callsOnly_requireSession {S : Call → Prop} {uploadId : Bytes}
    (hget : ∀ field, S (.hget (sessionKey uploadId) (ascii field)))
    (hparse : ∀ text, S (.jsonParse text)) (req : HttpRequest) :
    (requireSession svc req uploadId).CallsOnly S := by
  refine callsOnly_bind (callsOnly_loadFromRedis svc hget hparse) fun session => ?_
  split
  · exact callsOnly_answered svc _ _
  · split
    · exact callsOnly_answered svc _ _
    · exact callsOnly_pure _

theorem reads_requireSession (req : HttpRequest) (uploadId : Bytes) :
    Reads (requireSession svc req uploadId) :=
  callsOnly_requireSession (S := fun c => readOnly c = true) svc (fun _ => rfl) (fun _ => rfl) req

theorem reads_startSession (init : InitBody) (userId folderId : Bytes) :
    Reads (startSession svc init userId folderId) := by
  refine reads_bind ?_ fun uploadId => ?_
  · exact reads_bind (reads_ask rfl) fun _ => reads_bind (reads_ask rfl) fun _ =>
      reads_bind (reads_ask rfl) fun _ => reads_bind (reads_ask rfl) fun _ => reads_pure _
  · dsimp only
    split
    · trivial
    · exact reads_pure _

/-! ## Shares -/

theorem reads_randomChars : ∀ count : Nat, Reads (randomChars count)
  | 0 => reads_pure _
  | count + 1 => reads_bind (reads_ask rfl) fun _ =>
      reads_bind (reads_randomChars count) fun _ => reads_pure _

theorem reads_generateToken : Reads generateToken := by
  have hfrom : ∀ attempts : Nat, Reads (generateTokenFrom attempts) := by
    intro attempts
    induction attempts with
    | zero => trivial
    | succ attempts ih =>
        refine reads_bind (reads_randomChars 8) fun token => ?_
        refine reads_bind (reads_ask rfl) fun taken => ?_
        split
        · exact ih
        · exact reads_pure _
  exact hfrom 10

theorem reads_shareExpiry (expiresInHours : Int) : Reads (shareExpiry svc expiresInHours) := by
  unfold shareExpiry
  split
  · exact reads_bind (reads_ask rfl) fun _ => reads_pure _
  · exact reads_pure _

theorem reads_nullableText (text : Bytes) : Reads (nullableText text) := by
  unfold nullableText
  split <;> trivial

theorem reads_shareItems : ∀ shares : List ShareRecord, Reads (shareItems shares)
  | [] => reads_pure _
  | _ :: rest => reads_bind (reads_bind (reads_nullableText _) fun _ => reads_pure _) fun _ =>
      reads_bind (reads_shareItems rest) fun _ => reads_pure _

theorem reads_refuse {α : Type} (code : Int) (msg : String) :
    Reads (refuse svc code msg : App (Answered α)) := reads_answered svc _ _

/-- It asks for the time. -/
theorem callsOnly_shareExpired {S : Call → Prop} (hnow : S .now) (share : ShareRecord) :
    (shareExpired share).CallsOnly S := by
  unfold shareExpired
  split
  · exact callsOnly_pure _
  · refine callsOnly_bind (callsOnly_request hnow) fun ns => ?_
    split <;> exact callsOnly_pure _

theorem reads_shareExpired (share : ShareRecord) : Reads (shareExpired share) :=
  callsOnly_shareExpired (S := fun c => readOnly c = true) rfl share

theorem callsOnly_checkPassword {S : Call → Prop} (share : ShareRecord) (password : Bytes) :
    (checkPassword svc share password).CallsOnly S := by
  unfold checkPassword
  split
  · exact callsOnly_pure _
  · split
    · exact callsOnly_bind (callsOnly_ofJson _) fun _ => callsOnly_pure _
    · split
      · exact callsOnly_answered svc _ _
      · exact callsOnly_pure _

theorem reads_checkPassword (share : ShareRecord) (password : Bytes) :
    Reads (checkPassword svc share password) := callsOnly_checkPassword svc share password

/-- A share looked at, not downloaded, is not counted. -/
theorem reads_resolveShare (token password : Bytes) :
    Reads (resolveShare svc token password false) := by
  unfold resolveShare
  split
  · exact reads_refuse svc _ _
  · refine reads_bind (reads_ask rfl) fun found => ?_
    cases found with
    | none => exact reads_refuse svc _ _
    | some share =>
        dsimp only
        split
        · exact reads_refuse svc _ _
        · refine reads_bind (reads_shareExpired share) fun expired => ?_
          split
          · exact reads_refuse svc _ _
          · refine reads_bind (reads_checkPassword svc share password) fun checked => ?_
            cases checked with
            | error resp => exact reads_pure _
            | ok _ =>
                simp only [Bool.false_eq_true, false_and, if_false]
                exact reads_pure _

/-! ## Answers -/

/-- An error is answered with its code, or its text cannot be written. -/
theorem wp_setError {σ : Type} {I : Interface Call Call.Resp Exn σ} {s : σ} (code : Int)
    (msg : Bytes) {Q : Except Exn HttpResponse → σ → Prop}
    (hok : ∀ resp, resp.statusCode = code → Q (.ok resp) s) (herr : ∀ e, Q (.error e) s) :
    (svc.setError code msg).wp I Q s := by
  unfold Services.setError HttpResponse.setError
  cases svc.json.dump (HttpResponse.errorDocument msg) with
  | error w => exact herr _
  | ok t => exact hok _ rfl

/-- An error is answered exactly if its text can be written. -/
theorem wp_setError_utf8 (hjson : svc.json.Lawful) {σ : Type} {I : Interface Call Call.Resp Exn σ}
    {s : σ} (code : Int) (msg : Bytes) {Q : Except Exn HttpResponse → σ → Prop}
    (hok : validUtf8 msg = true → ∀ resp, resp.statusCode = code → Q (.ok resp) s)
    (herr : validUtf8 msg ≠ true → ∀ e, Q (.error e) s) : (svc.setError code msg).wp I Q s := by
  have hiff := setError_ok_iff hjson {} code msg
  unfold Services.setError
  cases hset : HttpResponse.setError {} svc.json code msg with
  | error what =>
      refine herr (fun hmsg => ?_) _
      obtain ⟨resp, hresp⟩ := hiff.mpr hmsg
      rw [hset] at hresp
      cases hresp
  | ok resp =>
      refine hok (hiff.mp ⟨resp, hset⟩) resp ?_
      unfold HttpResponse.setError at hset
      split at hset
      · cases hset
      · cases hset
        rfl

theorem wp_refuse {σ α : Type} {I : Interface Call Call.Resp Exn σ} {s : σ} (code : Int)
    (msg : String) {Q : Except Exn (Answered α) → σ → Prop}
    (hok : ∀ resp, resp.statusCode = code → Q (.ok (.error resp)) s) (herr : ∀ e, Q (.error e) s) :
    (refuse svc code msg : App (Answered α)).wp I Q s := by
  unfold refuse
  rw [wp_bind]
  exact wp_setError svc code _ hok herr

/-- The password is the one of the share, or the share has none. -/
def Unlocks (share : ShareRecord) (password : Bytes) : Prop :=
  share.passwordHash = [] ∨ password ≠ [] ∧ svc.sha256 password = share.passwordHash

/-- The refusals are texts that a lawful library can write. -/
theorem wp_checkPassword_iff {σ : Type} {I : Interface Call Call.Resp Exn σ} {s : σ}
    (share : ShareRecord) (password : Bytes) {Q : Except Exn (Answered Unit) → σ → Prop}
    (hok : Unlocks svc share password → Q (.ok (.ok ())) s)
    (hrefused : ¬ Unlocks svc share password →
      ∀ resp, resp.statusCode = 401 ∨ resp.statusCode = 403 → Q (.ok (.error resp)) s)
    (herr : ¬ Unlocks svc share password → svc.json.Lawful ∨ ∀ e, Q (.error e) s) :
    (checkPassword svc share password).wp I Q s := by
  have hanswer : ∀ (code : Int) (msg : Bytes) (f : HttpResponse → HttpResponse),
      code = 401 ∨ code = 403 → validUtf8 msg = true →
      (∀ resp, (f resp).statusCode = resp.statusCode) → ¬ Unlocks svc share password → (do
        let resp ← svc.setError code msg
        return .error (f resp) : App (Answered Unit)).wp I Q s := by
    intro code msg f hcode hmsg hf hnot
    have hok : ∀ resp, resp.statusCode = code → Q (.ok (.error (f resp))) s := by
      rintro resp rfl
      exact hrefused hnot _ (by rwa [hf])
    rw [wp_bind]
    rcases herr hnot with hjson | herr
    · exact wp_setError_utf8 svc hjson code msg (fun _ => hok) fun hbad => absurd hmsg hbad
    · exact wp_setError svc code msg hok herr
  unfold checkPassword
  split
  · rename_i hopen
    exact hok (.inl hopen)
  · rename_i hlocked
    split
    · rename_i hempty
      exact hanswer 401 _ (·.setHeader (ascii "X-Share-Auth") (ascii "required")) (.inl rfl)
        (by decide) (fun _ => rfl) fun h => h.elim hlocked fun h => h.1 hempty
    · rename_i hgiven
      split
      · rename_i hwrong
        exact hanswer 403 _ id (.inr rfl) (by decide) (fun _ => rfl)
          fun h => h.elim hlocked fun h => hwrong h.2
      · rename_i hright
        exact hok (.inr ⟨hgiven, not_not.mp hright⟩)

/-- The password lets the request pass, or it is refused. -/
theorem wp_checkPassword {σ : Type} {I : Interface Call Call.Resp Exn σ} {s : σ}
    (share : ShareRecord) (password : Bytes) {Q : Except Exn (Answered Unit) → σ → Prop}
    (hok : Q (.ok (.ok ())) s)
    (hrefused : ∀ resp, resp.statusCode = 401 ∨ resp.statusCode = 403 → Q (.ok (.error resp)) s)
    (herr : ∀ e, Q (.error e) s) : (checkPassword svc share password).wp I Q s :=
  wp_checkPassword_iff svc share password (fun _ => hok) (fun _ => hrefused) fun _ => .inr herr

end Parts

end SolarDrive.Api
