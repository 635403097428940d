import SolarDrive.Lib.JsonText
import SolarDrive.Api.Dispatch

/-!
# Exceptions out of a handler

Every handler catches what its calls throw and answers with the text of the
exception. Writing that answer throws in turn when the text is not UTF-8, and
nothing catches that: a body like a quote and the byte `FF` makes the JSON
parser quote the byte back.

The environment may answer every call with anything. What has to be tracked is
one bit, whether the last outcome was an exception with unreadable text; a
`Straight` program goes on after a value and passes an exception through, so
at its end the bit and its own result agree. The one place that swallows an
exception (the cached counter of a share) is followed by another call.
-/

namespace SolarDrive.Api

open Lib Http Auth Prog

/-- An exception whose text `set_error` cannot write. -/
def unreadable {α : Type} : Except Exn α → Bool
  | .ok _ => false
  | .error e => !validUtf8 e.what

/-- Any outcome is possible; the ghost state says whether the last one was
unreadable. -/
def environment : Interface Call Call.Resp Exn Bool where
  pre := fun _ _ => True
  step := fun _ _ r b => b = unreadable r

/-- Only the last outcome counts. -/
def lastUnreadable (_ : Bool) (e : Event Call Call.Resp Exn) : Bool := unreadable e.outcome

/-- The last call of a trace threw an exception with unreadable text. -/
def EndsUnreadable (tr : List (Event Call Call.Resp Exn)) : Prop :=
  tr.foldl lastUnreadable false = true

/-! ## Texts of the JSON accessors -/

/-- An exception of `x` has a readable text. -/
def PlainError {α : Type} (x : Except Bytes α) : Prop := ∀ w, x = .error w → validUtf8 w = true

section Plain

variable {α β : Type}

theorem plain_ok (a : α) : PlainError (.ok a : Except Bytes α) := by
  rintro w ⟨⟩

theorem plain_bind {x : Except Bytes α} {f : α → Except Bytes β} (hx : PlainError x)
    (hf : ∀ a, PlainError (f a)) : PlainError (x >>= f) := by
  intro w hw
  cases x with
  | error e =>
      obtain rfl : e = w := Except.error.inj hw
      exact hx e rfl
  | ok a => exact hf a w hw

theorem typeName_ascii (j : Json) : ∀ c ∈ j.typeName, c < 0x80 := by
  cases j <;> simp only [Json.typeName] <;> exact ascii_of_all (by decide)

theorem plain_typeError302 (want : String) (j : Json) (h : ∀ c ∈ ascii want, c < 0x80) :
    validUtf8 (Json.typeError302 want j) = true := by
  unfold Json.typeError302
  rw [List.append_assoc, List.append_assoc, validUtf8_append_ascii (ascii_of_all (by decide)),
    validUtf8_append_ascii h, validUtf8_append_ascii (ascii_of_all (by decide))]
  exact validUtf8_of_ascii (typeName_ascii j)

theorem plain_getString (j : Json) : PlainError j.getString := by
  intro w hw
  cases j <;> cases hw <;> exact plain_typeError302 "string" _ (ascii_of_all (by decide))

theorem plain_getInt64 (j : Json) : PlainError j.getInt64 := by
  intro w hw
  cases j <;> cases hw <;> exact plain_typeError302 "number" _ (ascii_of_all (by decide))

theorem plain_getInt (j : Json) : PlainError j.getInt := by
  intro w hw
  cases j <;> cases hw <;> exact plain_typeError302 "number" _ (ascii_of_all (by decide))

theorem plain_getBool (j : Json) : PlainError j.getBool := by
  intro w hw
  cases j <;> cases hw <;> exact plain_typeError302 "boolean" _ (ascii_of_all (by decide))

theorem plain_mapM {f : Json → Except Bytes α} (hf : ∀ j, PlainError (f j)) :
    ∀ xs : List Json, PlainError (xs.mapM f)
  | [] => plain_ok []
  | x :: xs => by
      rw [List.mapM_cons]
      exact plain_bind (hf x) fun _ => plain_bind (plain_mapM hf xs) fun _ => plain_ok _

theorem plain_getArray {f : Json → Except Bytes α} (hf : ∀ j, PlainError (f j)) (j : Json) :
    PlainError (j.getArray f) := by
  cases j with
  | arr xs => exact plain_mapM hf xs
  | _ =>
      rintro w ⟨⟩
      exact plain_typeError302 "array" _ (ascii_of_all (by decide))

theorem plain_index (j : Json) (key : Bytes) : PlainError (j.index key) := by
  intro w hw
  cases j with
  | null => cases hw
  | obj kvs => cases hw
  | _ =>
      cases hw
      rw [validUtf8_append_ascii (ascii_of_all (by decide))]
      exact validUtf8_of_ascii (typeName_ascii _)

theorem plain_value (j : Json) (key : Bytes) {get : Json → Except Bytes α}
    (hget : ∀ j, PlainError (get j)) (default : α) : PlainError (j.value key get default) := by
  intro w hw
  cases j with
  | obj kvs =>
      simp only [Json.value] at hw
      split at hw
      · exact hget _ w hw
      · cases hw
  | _ =>
      cases hw
      rw [validUtf8_append_ascii (ascii_of_all (by decide))]
      exact validUtf8_of_ascii (typeName_ascii _)

end Plain

theorem plain_readCredentials (body : Json) : PlainError (readCredentials body) :=
  plain_bind (plain_index _ _) fun _ => plain_bind (plain_getString _) fun _ =>
    plain_bind (plain_index _ _) fun _ => plain_bind (plain_getString _) fun _ => plain_ok _

theorem plain_readInitBody (body : Json) : PlainError (readInitBody body) := by
  refine plain_bind (plain_index _ _) fun _ => plain_bind (plain_getString _) fun _ => ?_
  refine plain_bind (plain_index _ _) fun _ => plain_bind (plain_getInt64 _) fun _ => ?_
  refine plain_bind (plain_value _ _ plain_getString _) fun _ => ?_
  refine plain_bind (plain_index _ _) fun folder => ?_
  dsimp only
  split
  · exact plain_bind (plain_getString folder) fun _ => plain_ok _
  · exact plain_ok _

theorem plain_readParentId (body : Json) : PlainError (readParentId body) := by
  refine plain_bind (plain_index _ _) fun parent => ?_
  split
  · exact plain_getString parent
  · exact plain_ok _

theorem plain_readShareBody (body : Json) : PlainError (readShareBody body) := by
  refine plain_bind (plain_index _ _) fun _ => plain_bind (plain_getString _) fun _ => ?_
  refine plain_bind (plain_value _ _ plain_getInt _) fun _ => ?_
  refine plain_bind (plain_value _ _ plain_getString _) fun _ => ?_
  exact plain_bind (plain_value _ _ plain_getInt _) fun _ => plain_ok _

theorem plain_readSaveBody (body : Json) : PlainError (readSaveBody body) := by
  have hpassword : ∀ token : Bytes, PlainError (do
      let password ← body.value (ascii "password") Json.getString []
      pure (token, password)) :=
    fun token => plain_bind (plain_value _ _ plain_getString _) fun _ => plain_ok _
  refine plain_bind (plain_value _ _ plain_getString _) fun shareToken => ?_
  dsimp only
  split
  · exact plain_bind (plain_value _ _ plain_getString _) hpassword
  · exact hpassword shareToken

/-! ## Straight programs -/

/-- At the end the bit and the result agree: a value after a readable outcome,
or the exception the bit is about. -/
def Agrees {α : Type} (r : Except Exn α) (b : Bool) : Prop := b = unreadable r

/-- From a readable state the program ends in agreement. -/
def Straight {α : Type} (p : App α) : Prop := p.wp environment Agrees false

section Straight

variable {α β : Type}

theorem straight_ret (a : α) : Straight (.ret a : App α) := rfl

theorem straight_pure (a : α) : Straight (pure a : App α) := rfl

theorem straight_ask (c : Call) : Straight (ask c) :=
  wp_request.mpr ⟨trivial, fun _ _ hs => hs⟩

theorem straight_bind {p : App α} {f : α → App β} (hp : Straight p) (hf : ∀ a, Straight (f a)) :
    Straight (p >>= f) := by
  rw [Straight, wp_bind]
  refine wp_mono hp fun r b hb => ?_
  cases r with
  | ok a =>
      obtain rfl : b = false := hb
      exact hf a
  | error e => exact hb

theorem straight_throwStd {w : Bytes} (h : validUtf8 w = true) :
    Straight (throwStd w : App α) := by
  show false = !validUtf8 w
  rw [h]
  rfl

theorem straight_ofJson {x : Except Bytes α} (h : PlainError x) : Straight (ofJson x) := by
  cases x with
  | ok a => exact straight_ret a
  | error w =>
      show false = !validUtf8 w
      rw [h w rfl]
      rfl

theorem straight_ofSto {name : String} (h : validUtf8 (ascii name) = true)
    (x : Except StoError α) : Straight (ofSto name x) := by
  cases x with
  | ok a => exact straight_ret a
  | error e => exact straight_throwStd h

/-- A program that starts with a call does not look at the bit. -/
theorem straight_ask_bind {c : Call} {f : c.Resp → App β} (hf : ∀ a, Straight (f a)) (b : Bool) :
    (ask c >>= f).wp environment Agrees b :=
  straight_bind (straight_ask c) hf

end Straight

/-! ## Handlers -/

section Handlers

variable {svc : Services} (hjson : svc.json.Lawful)

include hjson

theorem straight_dump (j : Json) : Straight (ofJson (svc.json.dump j)) :=
  straight_ofJson fun w hw => hjson.dump_what j w hw

theorem straight_setError (code : Int) (msg : Bytes) : Straight (svc.setError code msg) :=
  straight_ofJson fun _ hw => setError_what hjson hw

theorem straight_setJson (j : Json) : Straight (svc.setJson j) :=
  straight_bind (straight_dump hjson j) fun _ => straight_pure _

omit hjson in
theorem straight_firstFreeName (stem ext ownerId folderId : Bytes) : ∀ count n : Nat,
    Straight (firstFreeName stem ext ownerId folderId count n)
  | 0, _ => straight_pure _
  | count + 1, n => by
      refine straight_bind (straight_ask _) fun taken => ?_
      split
      · exact straight_firstFreeName stem ext ownerId folderId count (n + 1)
      · exact straight_pure _

omit hjson in
theorem straight_makeUniqueName (name ownerId folderId : Bytes) :
    Straight (makeUniqueName name ownerId folderId) := by
  refine straight_bind (straight_ask _) fun taken => ?_
  split
  · refine straight_bind (straight_firstFreeName _ _ _ _ _ _) fun free => ?_
    cases free with
    | some candidate => exact straight_pure _
    | none => exact straight_bind (straight_ask _) fun _ => straight_pure _
  · exact straight_pure _

omit hjson in
theorem straight_putAll : ∀ chunks : List Bytes, Straight (putAll chunks)
  | [] => straight_pure _
  | _ :: chunks => straight_bind (straight_ask _) fun _ =>
      straight_bind (straight_putAll chunks) fun _ => straight_pure _

omit hjson in
theorem straight_getChunked : ∀ hashes : List Bytes, Straight (getChunked hashes)
  | [] => straight_pure _
  | _ :: hashes => straight_bind (straight_ask _) fun _ =>
      straight_bind (straight_getChunked hashes) fun _ => straight_pure _

theorem straight_resolveFolderId (folderId userId : Bytes) :
    Straight (resolveFolderId svc folderId userId) := by
  unfold resolveFolderId
  split
  · exact straight_pure _
  · refine straight_bind (straight_ask _) fun folder => ?_
    cases folder with
    | none => exact straight_bind (straight_setError hjson _ _) fun _ => straight_pure _
    | some f =>
        show Straight (if f.ownerId ≠ userId then _ else _)
        split
        · exact straight_bind (straight_setError hjson _ _) fun _ => straight_pure _
        · exact straight_pure _

theorem straight_requireOwnedFile (userId fileId : Bytes) :
    Straight (requireOwnedFile svc userId fileId) := by
  unfold requireOwnedFile
  split
  · exact straight_bind (straight_setError hjson _ _) fun _ => straight_pure _
  · refine straight_bind (straight_ask _) fun file => ?_
    cases file with
    | none => exact straight_bind (straight_setError hjson _ _) fun _ => straight_pure _
    | some f => exact straight_pure _

omit hjson in
theorem straight_linkExistingContent (content : FileRecord)
    (filename mimeType userId folderId : Bytes) :
    Straight (linkExistingContent content filename mimeType userId folderId) :=
  straight_bind (straight_makeUniqueName _ _ _) fun _ => straight_ask _

omit hjson in
theorem straight_rememberHash (hash contentId : Bytes) :
    Straight (rememberHash svc hash contentId) := by
  unfold rememberHash
  split
  · exact straight_bind (straight_ask _) fun _ => straight_pure _
  · exact straight_pure _

omit hjson in
theorem straight_indexContent (hash : Bytes) : Straight (indexContent svc hash) := by
  unfold indexContent
  split
  · refine straight_bind (straight_ask _) fun content => ?_
    cases content with
    | none => exact straight_pure _
    | some c => exact straight_rememberHash _ _
  · exact straight_pure _

theorem straight_uploadNew (body filename mimeType userId folderId fileHash : Bytes) :
    Straight (uploadNew svc body filename mimeType userId folderId fileHash) := by
  refine straight_bind (straight_putAll _) fun chunks => ?_
  refine straight_bind (straight_dump hjson _) fun _ => ?_
  refine straight_bind (straight_ask _) fun _ => ?_
  exact straight_bind (straight_indexContent _) fun _ => straight_setJson hjson _

theorem straight_uploadLookup (body filename mimeType userId folderId fileHash : Bytes) :
    Straight (uploadLookup svc body filename mimeType userId folderId fileHash) := by
  refine straight_bind (straight_ask _) fun content => ?_
  cases content with
  | none => exact straight_uploadNew hjson _ _ _ _ _ _
  | some c =>
      refine straight_bind (straight_rememberHash _ _) fun _ => ?_
      exact straight_bind (straight_linkExistingContent _ _ _ _ _) fun _ => straight_setJson hjson _

theorem straight_uploadContent (body filename mimeType userId folderId : Bytes) :
    Straight (uploadContent svc body filename mimeType userId folderId) := by
  unfold uploadContent
  split
  · refine straight_bind (straight_ask _) fun cached => ?_
    cases cached with
    | none => exact straight_uploadLookup hjson _ _ _ _ _ _
    | some _ =>
        refine straight_bind (straight_ask _) fun content => ?_
        cases content with
        | none => exact straight_uploadLookup hjson _ _ _ _ _ _
        | some c => exact straight_bind (straight_linkExistingContent _ _ _ _ _) fun _ =>
            straight_setJson hjson _
  · exact straight_uploadLookup hjson _ _ _ _ _ _

theorem straight_handleSingleUpload (req : HttpRequest) (userId : Bytes) :
    Straight (handleSingleUpload svc req userId) := by
  unfold handleSingleUpload
  split
  · exact straight_setError hjson _ _
  · split
    · exact straight_setError hjson _ _
    · refine straight_bind (straight_resolveFolderId hjson _ _) fun folder => ?_
      cases folder with
      | error resp => exact straight_pure _
      | ok folderId => exact straight_uploadContent hjson _ _ _ _ _

omit hjson in
theorem straight_hsetAll (key : Bytes) : ∀ fields : List (Bytes × Bytes),
    Straight (hsetAll key fields)
  | [] => straight_pure _
  | (_, _) :: rest => straight_bind (straight_ask _) fun _ => straight_hsetAll key rest

theorem straight_saveToRedis (session : MultipartSession) :
    Straight (saveToRedis svc session) := by
  unfold saveToRedis
  split
  · refine straight_bind (straight_dump hjson _) fun _ => ?_
    refine straight_bind (straight_dump hjson _) fun _ => ?_
    refine straight_bind (straight_hsetAll _ _) fun _ => ?_
    exact straight_bind (straight_ask _) fun _ => straight_pure _
  · exact straight_pure _

omit hjson in
theorem straight_numberField (key : Bytes) (field : String) (read : Bytes → Except StoError Int)
    {name : String} (h : validUtf8 (ascii name) = true) (default : Int) :
    Straight (numberField key field read name default) := by
  refine straight_bind (straight_ask _) fun text => ?_
  cases text with
  | none => exact straight_pure _
  | some t => exact straight_ofSto h _

omit hjson in
theorem straight_arrayField {α : Type} (key : Bytes) (field : String)
    {elem : Json → Except Bytes α} (h : ∀ j, PlainError (elem j)) :
    Straight (arrayField key field elem) := by
  refine straight_bind (straight_ask _) fun text => ?_
  cases text with
  | none => exact straight_pure _
  | some t =>
      show Straight (if t = [] then _ else _)
      split
      · exact straight_pure _
      · exact straight_bind (straight_ask _) fun arr => straight_ofJson (plain_getArray h arr)

omit hjson in
theorem straight_loadFromRedis (uploadId : Bytes) : Straight (loadFromRedis svc uploadId) := by
  unfold loadFromRedis
  split
  · refine straight_bind (straight_ask _) fun fileName => ?_
    cases fileName with
    | none => exact straight_pure _
    | some name =>
        refine straight_bind (straight_ask _) fun _ => straight_bind (straight_ask _) fun _ =>
          straight_bind (straight_ask _) fun _ => ?_
        refine straight_bind (straight_numberField _ _ _ (by decide) _) fun _ => ?_
        refine straight_bind (straight_numberField _ _ _ (by decide) _) fun _ => ?_
        refine straight_bind (straight_numberField _ _ _ (by decide) _) fun _ => ?_
        refine straight_bind (straight_arrayField _ _ plain_getString) fun _ => ?_
        exact straight_bind (straight_arrayField _ _ plain_getBool) fun _ => straight_pure _
  · exact straight_pure _

omit hjson in
theorem straight_deleteFromRedis (uploadId : Bytes) : Straight (deleteFromRedis svc uploadId) := by
  unfold deleteFromRedis
  split
  · exact straight_bind (straight_ask _) fun _ => straight_pure _
  · exact straight_pure _

theorem straight_requireSession (req : HttpRequest) (uploadId : Bytes) :
    Straight (requireSession svc req uploadId) := by
  refine straight_bind (straight_loadFromRedis _) fun session => ?_
  split
  · exact straight_bind (straight_setError hjson _ _) fun _ => straight_pure _
  · split
    · exact straight_bind (straight_setError hjson _ _) fun _ => straight_pure _
    · exact straight_pure _

omit hjson in
theorem straight_startSession (init : InitBody) (userId folderId : Bytes) :
    Straight (startSession svc init userId folderId) := by
  refine straight_bind ?_ fun uploadId => ?_
  · exact straight_bind (straight_ask _) fun _ => straight_bind (straight_ask _) fun _ =>
      straight_bind (straight_ask _) fun _ => straight_bind (straight_ask _) fun _ =>
        straight_pure _
  · dsimp only
    split
    · exact straight_throwStd (validUtf8_of_ascii (ascii_of_all (by decide)))
    · exact straight_pure _

theorem straight_storePart (session : MultipartSession) (partNum : Int) (body : Bytes) :
    Straight (storePart svc session partNum body) := by
  refine straight_bind (straight_ask _) fun hash => ?_
  refine straight_bind (straight_saveToRedis hjson _) fun _ => ?_
  exact straight_bind (straight_ask _) fun _ => straight_setJson hjson _

omit hjson in
theorem straight_createFile (session : MultipartSession) (chunkHashes hash : Bytes) :
    Straight (createFile svc session chunkHashes hash) := by
  refine straight_bind (straight_ask _) fun content => ?_
  cases content with
  | none =>
      refine straight_bind (straight_ask _) fun _ => ?_
      exact straight_bind (straight_indexContent _) fun _ => straight_pure _
  | some c =>
      refine straight_bind (straight_linkExistingContent _ _ _ _ _) fun _ => ?_
      exact straight_bind (straight_rememberHash _ _) fun _ => straight_pure _

theorem straight_finishSession (uploadId : Bytes) (session : MultipartSession) :
    Straight (finishSession svc uploadId session) := by
  refine straight_bind (straight_dump hjson _) fun chunkHashes => ?_
  refine straight_bind (straight_getChunked _) fun fullContent => ?_
  refine straight_bind (straight_createFile _ _ _) fun created => ?_
  refine straight_bind (straight_deleteFromRedis _) fun _ => ?_
  exact straight_bind (straight_ask _) fun _ => straight_setJson hjson _

omit hjson in
theorem straight_tryCollectContent (contentId : Bytes) :
    Straight (tryCollectContent contentId) := by
  unfold tryCollectContent
  split
  · exact straight_pure _
  · refine straight_bind (straight_ask _) fun content => ?_
    cases content with
    | none => exact straight_pure _
    | some c => exact straight_ask _

omit hjson in
theorem straight_ownedFolder (id userId : Bytes) : Straight (ownedFolder id userId) := by
  refine straight_bind (straight_ask _) fun folder => ?_
  cases folder with
  | none => exact straight_pure _
  | some f => exact straight_pure _

theorem straight_createFolder (userId parentId name : Bytes) :
    Straight (createFolder svc userId parentId name) := by
  refine straight_bind (straight_ask _) fun taken => ?_
  split
  · exact straight_setError hjson _ _
  · exact straight_bind (straight_ask _) fun _ => straight_setJson hjson _

omit hjson in
theorem straight_randomChars : ∀ count : Nat, Straight (randomChars count)
  | 0 => straight_pure _
  | count + 1 => straight_bind (straight_ask _) fun _ =>
      straight_bind (straight_randomChars count) fun _ => straight_pure _

omit hjson in
theorem straight_generateTokenFrom : ∀ attempts : Nat, Straight (generateTokenFrom attempts)
  | 0 => straight_throwStd (validUtf8_of_ascii (ascii_of_all (by decide)))
  | attempts + 1 => by
      refine straight_bind (straight_randomChars 8) fun token => ?_
      refine straight_bind (straight_ask _) fun taken => ?_
      split
      · exact straight_generateTokenFrom attempts
      · exact straight_pure _

omit hjson in
theorem straight_nullableText (text : Bytes) : Straight (nullableText text) := by
  unfold nullableText
  split
  · exact straight_throwStd (validUtf8_of_ascii (ascii_of_all (by decide)))
  · exact straight_ret _

omit hjson in
theorem straight_shareItems : ∀ shares : List ShareRecord, Straight (shareItems shares)
  | [] => straight_pure _
  | _ :: rest => straight_bind (straight_bind (straight_nullableText _) fun _ => straight_pure _)
      fun _ => straight_bind (straight_shareItems rest) fun _ => straight_pure _

theorem straight_createShare (userId : Bytes) (body : ShareBody) :
    Straight (createShare svc userId body) := by
  refine straight_bind (straight_generateTokenFrom _) fun token => ?_
  refine straight_bind ?_ fun expiresAt => ?_
  · unfold shareExpiry
    split
    · exact straight_bind (straight_ask _) fun _ => straight_pure _
    · exact straight_pure _
  · refine straight_bind (straight_ask _) fun _ => ?_
    refine straight_bind ?_ fun _ => ?_
    · unfold cacheShare
      split
      · refine straight_bind (straight_dump hjson _) fun _ => ?_
        exact straight_bind (straight_ask _) fun _ => straight_pure _
      · exact straight_pure _
    · exact straight_bind (straight_nullableText _) fun _ => straight_setJson hjson _

theorem straight_tokenAnswer (userId username : Bytes) :
    Straight (tokenAnswer svc userId username) := by
  refine straight_bind ?_ fun token => straight_setJson hjson _
  refine straight_bind (straight_ask _) fun ns => straight_ofJson ?_
  intro w hw
  exact generate_what hjson hw

/-! ## Shares

After a counted access the bit may be left on by the cached counter, but only
with a share in hand, and then a call follows. -/

/-- Agreement, except with a resolved share. -/
def AgreesUnlessResolved (r : Except Exn (Answered ShareRecord)) (b : Bool) : Prop :=
  match r with
  | .ok (.ok _) => True
  | r => Agrees r b

omit hjson in
theorem wp_of_straight {p : App (Answered ShareRecord)} (h : Straight p) :
    p.wp environment AgreesUnlessResolved false := by
  refine wp_mono h fun r b hb => ?_
  match r, hb with
  | .ok (.ok _), _ => trivial
  | .ok (.error _), hb => exact hb
  | .error _, hb => exact hb

omit hjson in
/-- Whatever happens to the cached counter, only an exception before it gets
out. -/
theorem wp_countDownload (token : Bytes) (share : ShareRecord) :
    (countDownload svc token share).wp environment
      (fun r b => match r with
        | .ok _ => True
        | .error e => b = !validUtf8 e.what) false := by
  unfold countDownload
  refine wp_request_bind trivial (fun _ b _ => ?_) fun e b hb => hb
  split
  · refine wp_request_bind trivial (fun cached b _ => ?_) fun e b hb => hb
    cases cached with
    | none => trivial
    | some text =>
        rw [wp_tryCatch]
        -- the handler of the inner `try` returns, so any end of the body will do
        have hall : ∀ {α : Type} (p : App α) (b : Bool), p.wp environment (fun _ _ => True) b := by
          intro α p
          induction p with
          | ret a => exact fun _ => trivial
          | raise e => exact fun _ => trivial
          | call c k ih => exact fun _ => ⟨trivial, fun r b' _ => ih r b'⟩
        refine wp_mono (hall _ b) fun r b' _ => ?_
        cases r with
        | ok a => trivial
        | error e => trivial
  · trivial

theorem straight_refuse {α : Type} (code : Int) (msg : String) :
    Straight (refuse svc code msg : App (Answered α)) :=
  straight_bind (straight_setError hjson _ _) fun _ => straight_pure _

theorem straight_checkPassword (share : ShareRecord) (password : Bytes) :
    Straight (checkPassword svc share password) := by
  unfold checkPassword
  split
  · exact straight_pure _
  · split
    · exact straight_bind (straight_setError hjson _ _) fun _ => straight_pure _
    · split
      · exact straight_bind (straight_setError hjson _ _) fun _ => straight_pure _
      · exact straight_pure _

omit hjson in
theorem straight_shareExpired (share : ShareRecord) : Straight (shareExpired share) := by
  unfold shareExpired
  split
  · exact straight_pure _
  · refine straight_bind (straight_ask _) fun ns => ?_
    split
    · exact straight_pure _
    · exact straight_pure _

omit hjson in
/-- A straight step in front of a resolution. -/
theorem resolves_bind {α : Type} {p : App α} {f : α → App (Answered ShareRecord)}
    (hp : Straight p) (hf : ∀ a, (f a).wp environment AgreesUnlessResolved false) :
    (p >>= f).wp environment AgreesUnlessResolved false := by
  rw [wp_bind]
  refine wp_mono hp fun r b hb => ?_
  cases r with
  | ok a =>
      obtain rfl : b = false := hb
      exact hf a
  | error e => exact hb

theorem wp_resolveShare (token password : Bytes) (count : Bool) :
    (resolveShare svc token password count).wp environment AgreesUnlessResolved false := by
  unfold resolveShare
  split
  · exact wp_of_straight (straight_refuse hjson _ _)
  · refine resolves_bind (straight_ask _) fun found => ?_
    cases found with
    | none => exact wp_of_straight (straight_refuse hjson _ _)
    | some share =>
        dsimp only
        split
        · exact wp_of_straight (straight_refuse hjson _ _)
        · refine resolves_bind (straight_shareExpired share) fun expired => ?_
          split
          · exact wp_of_straight (straight_refuse hjson _ _)
          · refine resolves_bind (straight_checkPassword hjson share password) fun checked => ?_
            cases checked with
            | error resp => exact wp_of_straight (straight_pure _)
            | ok _ =>
                dsimp only
                split
                · exact wp_of_straight (straight_refuse hjson _ _)
                · split
                  · rw [wp_bind]
                    refine wp_mono (wp_countDownload token share) fun r b hb => ?_
                    cases r with
                    | ok _ => trivial
                    | error e => exact hb
                  · exact wp_of_straight (straight_pure _)

theorem straight_deliverShare (preview : Bool) (share : ShareRecord) (b : Bool) :
    (deliverShare svc preview share).wp environment Agrees b := by
  refine straight_ask_bind (fun file => ?_) b
  cases file with
  | none => exact straight_setError hjson _ _
  | some f =>
      refine straight_bind (straight_ask _) fun chunkArr => ?_
      refine straight_bind (straight_ofJson (plain_getArray plain_getString _)) fun hashes => ?_
      exact straight_bind (straight_getChunked _) fun _ => straight_pure _

theorem straight_saveShare (userId : Bytes) (share : ShareRecord) (b : Bool) :
    (saveShare svc userId share).wp environment Agrees b := by
  refine straight_ask_bind (fun file => ?_) b
  cases file with
  | none => exact straight_setError hjson _ _
  | some f =>
      refine straight_bind (straight_makeUniqueName _ _ _) fun _ => ?_
      exact straight_bind (straight_ask _) fun _ => straight_setJson hjson _

/-- Resolve a share and go on with it, from whatever the bit is then. -/
theorem straight_resolved {token password : Bytes} {count : Bool}
    {k : ShareRecord → App HttpResponse} (hk : ∀ share b, (k share).wp environment Agrees b) :
    Straight (do
      let resolved ← resolveShare svc token password count
      match resolved with
      | .error resp => return resp
      | .ok share => k share) := by
  rw [Straight, wp_bind]
  refine wp_mono (wp_resolveShare hjson token password count) fun r b hb => ?_
  match r, hb with
  | .ok (.ok share), _ => exact hk share b
  | .ok (.error resp), hb => exact hb
  | .error e, hb => exact hb

/-! ## The catch clauses -/

/-- The program returns exactly when the last outcome was readable. -/
def ReturnsIfReadable (p : App HttpResponse) : Prop :=
  p.wp environment (fun r b => (∃ resp, r = .ok resp) ↔ b = false) false

theorem returns_setError {code : Int} {pre what : Bytes} (hpre : ∀ c ∈ pre, c < 0x80) (b : Bool)
    (hb : b = !validUtf8 what) :
    (svc.setError code (pre ++ what)).wp environment
      (fun r b => (∃ resp, r = .ok resp) ↔ b = false) b := by
  have hiff := setError_ok_iff hjson {} code (pre ++ what)
  rw [validUtf8_append_ascii hpre] at hiff
  unfold Services.setError
  cases hx : HttpResponse.setError {} svc.json code (pre ++ what) with
  | ok resp =>
      have hvalid : validUtf8 what = true := hiff.mp ⟨resp, hx⟩
      show (∃ resp', (.ok resp : Except Exn HttpResponse) = .ok resp') ↔ b = false
      rw [hb, hvalid]
      exact ⟨fun _ => rfl, fun _ => ⟨resp, rfl⟩⟩
  | error w =>
      have hvalid : validUtf8 what ≠ true := by
        intro hv
        obtain ⟨resp, hr⟩ := hiff.mpr hv
        rw [hx] at hr
        cases hr
      show (∃ resp', (.error ⟨.json, w⟩ : Except Exn HttpResponse) = .ok resp') ↔ b = false
      rw [hb, Bool.eq_false_iff.mpr hvalid]
      constructor
      · rintro ⟨_, ⟨⟩⟩
      · rintro ⟨⟩

theorem returns_tryCatch {p : App HttpResponse} {h : Exn → App HttpResponse} (hp : Straight p)
    (hh : ∀ e, ∃ code pre, (∀ c ∈ pre, c < 0x80) ∧ h e = svc.setError code (pre ++ e.what)) :
    ReturnsIfReadable (p.tryCatch h) := by
  rw [ReturnsIfReadable, wp_tryCatch]
  refine wp_mono hp fun r b hb => ?_
  cases r with
  | ok resp =>
      obtain rfl : b = false := hb
      exact ⟨fun _ => rfl, fun _ => ⟨resp, rfl⟩⟩
  | error e =>
      obtain ⟨code, pre, hpre, heq⟩ := hh e
      show (h e).wp environment _ b
      rw [heq]
      exact returns_setError hjson hpre b hb

theorem returns_catchStd {p : App HttpResponse} {what : Bytes} (hwhat : ∀ c ∈ what, c < 0x80)
    (hp : Straight p) : ReturnsIfReadable (p.tryCatch (svc.catchStd what)) :=
  returns_tryCatch hjson hp fun _ => ⟨500, what, hwhat, rfl⟩

theorem returns_catchJson {p : App HttpResponse} {what : Bytes} (hwhat : ∀ c ∈ what, c < 0x80)
    (hp : Straight p) : ReturnsIfReadable (p.tryCatch (svc.catchJson what)) := by
  refine returns_tryCatch hjson hp fun e => ?_
  unfold Services.catchJson
  split
  · exact ⟨400, ascii "invalid JSON: ", ascii_of_all (by decide), rfl⟩
  · exact ⟨500, what, hwhat, rfl⟩

theorem straight_authorizedBody {req : HttpRequest} {k : App HttpResponse} (hk : Straight k) :
    Straight (if req.hasAuthUser then k else svc.setError 401 (ascii "Unauthorized")) := by
  split
  · exact hk
  · exact straight_setError hjson _ _

theorem returns_handleRegister (req : HttpRequest) :
    ReturnsIfReadable (handleRegister svc req) := by
  refine returns_catchJson hjson (ascii_of_all (by decide)) ?_
  refine straight_bind (straight_ask _) fun body => ?_
  refine straight_bind (straight_ofJson (plain_readCredentials body)) fun credentials => ?_
  dsimp only
  split
  · exact straight_setError hjson _ _
  · refine straight_bind (straight_ask _) fun userId => ?_
    cases userId with
    | none => exact straight_setError hjson _ _
    | some id => exact straight_tokenAnswer hjson _ _

theorem returns_handleLogin (req : HttpRequest) : ReturnsIfReadable (handleLogin svc req) := by
  refine returns_catchJson hjson (ascii_of_all (by decide)) ?_
  refine straight_bind (straight_ask _) fun body => ?_
  refine straight_bind (straight_ofJson (plain_readCredentials body)) fun credentials => ?_
  dsimp only
  split
  · exact straight_setError hjson _ _
  · refine straight_bind (straight_ask _) fun user => ?_
    cases user with
    | none => exact straight_setError hjson _ _
    | some u => exact straight_tokenAnswer hjson _ _

theorem returns_uploadRoute (req : HttpRequest) : ReturnsIfReadable (uploadRoute svc req) :=
  returns_catchStd hjson (ascii_of_all (by decide))
    (straight_authorizedBody hjson (straight_handleSingleUpload hjson req _))

theorem returns_handleInit (req : HttpRequest) : ReturnsIfReadable (handleInit svc req) := by
  refine returns_catchJson hjson (ascii_of_all (by decide)) ?_
  split
  · exact straight_setError hjson _ _
  · refine straight_bind (straight_ask _) fun body => ?_
    refine straight_bind (straight_ofJson (plain_readInitBody body)) fun init => ?_
    split
    · exact straight_setError hjson _ _
    · split
      · exact straight_setError hjson _ _
      · refine straight_bind (straight_resolveFolderId hjson _ _) fun folder => ?_
        cases folder with
        | error resp => exact straight_pure _
        | ok folderId =>
            refine straight_bind (straight_startSession _ _ _) fun session => ?_
            exact straight_bind (straight_saveToRedis hjson _) fun _ => straight_setJson hjson _

theorem returns_handleUploadPart (req : HttpRequest) :
    ReturnsIfReadable (handleUploadPart svc req) := by
  refine returns_catchStd hjson (ascii_of_all (by decide)) ?_
  split
  · exact straight_setError hjson _ _
  · dsimp only
    split
    · exact straight_setError hjson _ _
    · refine straight_bind (straight_ofSto (by decide) _) fun partNum => ?_
      split
      · exact straight_setError hjson _ _
      · refine straight_bind (straight_requireSession hjson _ _) fun found => ?_
        cases found with
        | error resp => exact straight_pure _
        | ok session =>
            dsimp only
            split
            · exact straight_setError hjson _ _
            · split
              · exact straight_setError hjson _ _
              · exact straight_storePart hjson _ _ _

theorem returns_withSession {req : HttpRequest} {what : Bytes} (hwhat : ∀ c ∈ what, c < 0x80)
    {k : Bytes → MultipartSession → App HttpResponse} (hk : ∀ id session, Straight (k id session)) :
    ReturnsIfReadable (withSession svc req what k) := by
  refine returns_catchStd hjson hwhat ?_
  split
  · exact straight_setError hjson _ _
  · dsimp only
    split
    · exact straight_setError hjson _ _
    · refine straight_bind (straight_requireSession hjson _ _) fun found => ?_
      cases found with
      | error resp => exact straight_pure _
      | ok session => exact hk _ session

theorem returns_handleComplete (req : HttpRequest) :
    ReturnsIfReadable (handleComplete svc req) := by
  refine returns_withSession hjson (ascii_of_all (by decide)) fun uploadId session => ?_
  split
  · exact straight_setError hjson _ _
  · exact straight_finishSession hjson _ _

theorem returns_handleStatus (req : HttpRequest) : ReturnsIfReadable (handleStatus svc req) :=
  returns_withSession hjson (ascii_of_all (by decide)) fun _ _ => straight_setJson hjson _

theorem returns_handleAbort (req : HttpRequest) : ReturnsIfReadable (handleAbort svc req) :=
  returns_withSession hjson (ascii_of_all (by decide)) fun _ _ =>
    straight_bind (straight_deleteFromRedis _) fun _ => straight_pure _

theorem returns_handleFileList (req : HttpRequest) : ReturnsIfReadable (handleFileList svc req) :=
  returns_catchStd hjson (ascii_of_all (by decide)) (straight_authorizedBody hjson
    (straight_bind (straight_ask _) fun _ => straight_setJson hjson _))

theorem returns_handleFileDelete (req : HttpRequest) :
    ReturnsIfReadable (handleFileDelete svc req) := by
  refine returns_catchStd hjson (ascii_of_all (by decide)) (straight_authorizedBody hjson ?_)
  dsimp only
  split
  · exact straight_setError hjson _ _
  · refine straight_bind (straight_requireOwnedFile hjson _ _) fun owned => ?_
    cases owned with
    | error resp => exact straight_pure _
    | ok file =>
        refine straight_bind (straight_ask _) fun _ => straight_bind (straight_ask _) fun _ => ?_
        exact straight_bind (straight_tryCollectContent _) fun _ => straight_pure _

theorem returns_handleFolderList (req : HttpRequest) :
    ReturnsIfReadable (handleFolderList svc req) :=
  returns_catchStd hjson (ascii_of_all (by decide)) (straight_authorizedBody hjson
    (straight_bind (straight_ask _) fun _ => straight_setJson hjson _))

theorem returns_handleFolderCreate (req : HttpRequest) :
    ReturnsIfReadable (handleFolderCreate svc req) := by
  refine returns_catchJson hjson (ascii_of_all (by decide)) (straight_authorizedBody hjson ?_)
  refine straight_bind (straight_ask _) fun body => ?_
  refine straight_bind (straight_ofJson (plain_value _ _ plain_getString _)) fun name => ?_
  split
  · exact straight_setError hjson _ _
  · refine straight_bind (straight_ofJson (plain_readParentId body)) fun parentId => ?_
    split
    · exact straight_createFolder hjson _ _ _
    · refine straight_bind (straight_ownedFolder _ _) fun parent => ?_
      cases parent with
      | none => exact straight_setError hjson _ _
      | some f => exact straight_createFolder hjson _ _ _

theorem returns_handleFolderDelete (req : HttpRequest) :
    ReturnsIfReadable (handleFolderDelete svc req) := by
  refine returns_catchStd hjson (ascii_of_all (by decide)) (straight_authorizedBody hjson ?_)
  dsimp only
  split
  · exact straight_setError hjson _ _
  · refine straight_bind (straight_ownedFolder _ _) fun folder => ?_
    cases folder with
    | none => exact straight_setError hjson _ _
    | some f =>
        refine straight_bind (straight_ask _) fun occupied => ?_
        split
        · exact straight_setError hjson _ _
        · exact straight_bind (straight_ask _) fun _ => straight_pure _

theorem returns_handleFolderRename (req : HttpRequest) :
    ReturnsIfReadable (handleFolderRename svc req) := by
  refine returns_catchJson hjson (ascii_of_all (by decide)) (straight_authorizedBody hjson ?_)
  dsimp only
  split
  · exact straight_setError hjson _ _
  · refine straight_bind (straight_ownedFolder _ _) fun folder => ?_
    cases folder with
    | none => exact straight_setError hjson _ _
    | some f =>
        refine straight_bind (straight_ask _) fun body => ?_
        refine straight_bind (straight_ofJson (plain_value _ _ plain_getString _)) fun name => ?_
        split
        · exact straight_setError hjson _ _
        · refine straight_bind (straight_ask _) fun taken => ?_
          split
          · exact straight_setError hjson _ _
          · exact straight_bind (straight_ask _) fun _ => straight_setJson hjson _

theorem returns_handleShareCreate (req : HttpRequest) :
    ReturnsIfReadable (handleShareCreate svc req) := by
  refine returns_catchJson hjson (ascii_of_all (by decide)) (straight_authorizedBody hjson ?_)
  refine straight_bind (straight_ask _) fun body => ?_
  refine straight_bind (straight_ofJson (plain_readShareBody body)) fun share => ?_
  refine straight_bind (straight_requireOwnedFile hjson _ _) fun owned => ?_
  cases owned with
  | error resp => exact straight_pure _
  | ok file => exact straight_createShare hjson _ _

theorem returns_handleShareSave (req : HttpRequest) :
    ReturnsIfReadable (handleShareSave svc req) := by
  refine returns_catchJson hjson (ascii_of_all (by decide)) (straight_authorizedBody hjson ?_)
  refine straight_bind (straight_ask _) fun body => ?_
  refine straight_bind (straight_ofJson (plain_readSaveBody body)) fun save => ?_
  exact straight_resolved hjson fun share b => straight_saveShare hjson _ share b

theorem returns_handleShareList (req : HttpRequest) :
    ReturnsIfReadable (handleShareList svc req) := by
  refine returns_catchStd hjson (ascii_of_all (by decide)) (straight_authorizedBody hjson ?_)
  refine straight_bind (straight_ask _) fun shares => ?_
  exact straight_bind (straight_shareItems _) fun _ => straight_setJson hjson _

theorem returns_handleShareRevoke (req : HttpRequest) :
    ReturnsIfReadable (handleShareRevoke svc req) := by
  refine returns_catchStd hjson (ascii_of_all (by decide)) (straight_authorizedBody hjson ?_)
  dsimp only
  split
  · exact straight_setError hjson _ _
  · refine straight_bind (straight_ask _) fun found => ?_
    cases found with
    | none => exact straight_setError hjson _ _
    | some share =>
        dsimp only
        split
        · exact straight_setError hjson _ _
        · refine straight_bind (straight_ask _) fun _ => ?_
          split
          · exact straight_bind (straight_ask _) fun _ => straight_pure _
          · exact straight_pure _

theorem returns_handleShareDownload (req : HttpRequest) :
    ReturnsIfReadable (handleShareDownload svc req) := by
  refine returns_catchStd hjson (ascii_of_all (by decide)) ?_
  dsimp only
  split
  · exact straight_setError hjson _ _
  · split
    · exact straight_pure _
    · exact straight_resolved hjson fun share b => straight_deliverShare hjson _ share b

/-! ## The download route -/

/-- Its outer `try` has only readable texts to write. -/
theorem returns_downloadRoute (req : HttpRequest) :
    (downloadRoute svc req).wp environment (fun r _ => ∃ resp, r = .ok resp) false := by
  have hbody : ∀ fileId : Bytes, Straight (downloadOwned svc req.authUserId fileId) := by
    intro fileId
    refine straight_bind (straight_requireOwnedFile hjson _ _) fun owned => ?_
    cases owned with
    | error resp => exact straight_pure _
    | ok record =>
        refine straight_bind (straight_ask _) fun chunkJson => ?_
        refine straight_bind (straight_ofJson (plain_mapM plain_getString _)) fun hashes => ?_
        exact straight_bind (straight_getChunked _) fun _ => straight_pure _
  have hchosen : ∀ fileId : Bytes, Straight (if fileId = [] then
      svc.setError 400 (ascii "file_id is required")
      else downloadOwned svc req.authUserId fileId) := by
    intro fileId
    split
    · exact straight_setError hjson _ _
    · exact hbody fileId
  -- what the inner clause throws has a readable text, so the outer one can write it
  have houter : ∀ (code : Int) (msg : Bytes) (b : Bool),
      ((svc.setError code msg).tryCatch (svc.catchStd (ascii "download failed: "))).wp environment
        (fun r _ => ∃ resp, r = .ok resp) b := by
    intro code msg b
    cases hx : HttpResponse.setError {} svc.json code msg with
    | ok resp =>
        unfold Services.setError
        rw [hx]
        exact ⟨resp, rfl⟩
    | error w =>
        have hvalid : validUtf8 (ascii "download failed: " ++ w) = true := by
          rw [validUtf8_append_ascii (ascii_of_all (by decide)), setError_what hjson hx]
        obtain ⟨resp, hresp⟩ := (setError_ok_iff hjson {} 500 _).mpr hvalid
        unfold Services.setError
        rw [hx]
        show (ofJson (HttpResponse.setError {} svc.json 500 (ascii "download failed: " ++ w))).wp
          environment _ b
        rw [hresp]
        exact ⟨resp, rfl⟩
  rw [downloadRoute, wp_tryCatch, downloadHandle, wp_tryCatch]
  refine wp_mono (Q := Agrees) ?_ fun r b _ => ?_
  · show Straight _
    split
    · exact straight_setError hjson _ _
    · exact hchosen _
  · cases r with
    | ok resp => exact ⟨resp, rfl⟩
    | error e =>
        dsimp only
        split
        · exact wp_tryCatch.mp (houter _ _ b)
        · exact wp_tryCatch.mp (houter _ _ b)

end Handlers

/-- Every route but the download returns exactly when the last outcome was
readable. -/
theorem returns_handler {svc : Services} (hjson : svc.json.Lawful) {route : RouteName}
    (hroute : route ≠ .fileDownload) (req : HttpRequest) :
    ReturnsIfReadable (handler svc route req) := by
  cases route with
  | health => exact ⟨fun _ => rfl, fun _ => ⟨_, rfl⟩⟩
  | metrics => exact ⟨fun _ => rfl, fun _ => ⟨_, rfl⟩⟩
  | register => exact returns_handleRegister hjson req
  | login => exact returns_handleLogin hjson req
  | upload => exact returns_uploadRoute hjson req
  | uploadInit => exact returns_handleInit hjson req
  | uploadPart => exact returns_handleUploadPart hjson req
  | uploadComplete => exact returns_handleComplete hjson req
  | uploadStatus => exact returns_handleStatus hjson req
  | uploadAbort => exact returns_handleAbort hjson req
  | fileList => exact returns_handleFileList hjson req
  | fileDelete => exact returns_handleFileDelete hjson req
  | folderList => exact returns_handleFolderList hjson req
  | folderCreate => exact returns_handleFolderCreate hjson req
  | folderRename => exact returns_handleFolderRename hjson req
  | folderDelete => exact returns_handleFolderDelete hjson req
  | fileDownload => exact absurd rfl hroute
  | shareCreate => exact returns_handleShareCreate hjson req
  | shareSave => exact returns_handleShareSave hjson req
  | shareList => exact returns_handleShareList hjson req
  | shareRevoke => exact returns_handleShareRevoke hjson req
  | shareDownload => exact returns_handleShareDownload hjson req

/-- The handler a request is dispatched to. -/
def routeOf (req : HttpRequest) : Option RouteName :=
  (apiRouter.findRoute req.method req.path).map Prod.fst

theorem dispatch_of_routeOf_none {svc : Services} {req : HttpRequest} (h : routeOf req = none) :
    dispatch svc req = svc.setError 404 (ascii "Not Found") := by
  rw [routeOf, Option.map_eq_none_iff] at h
  rw [dispatch, HttpRouter.dispatch, h]
  rfl

theorem dispatch_of_routeOf_some {svc : Services} {req : HttpRequest} {route : RouteName}
    (h : routeOf req = some route) : ∃ req', dispatch svc req = handler svc route req' := by
  rw [routeOf, Option.map_eq_some_iff] at h
  obtain ⟨⟨name, params⟩, hfind, heq⟩ := h
  cases heq
  refine ⟨HttpRouter.setPathParams req params, ?_⟩
  rw [dispatch, HttpRouter.dispatch, hfind]
  rfl

/-- Dispatch returns, whatever the calls answer, exactly when the last of them did
not throw an exception with unreadable text; the download route, with two `try`
blocks around each other, always returns. -/
theorem returns_dispatch {svc : Services} (hjson : svc.json.Lawful) (req : HttpRequest)
    {tr : List (Event Call Call.Resp Exn)} {r : Except Exn HttpResponse}
    (htr : Trace (dispatch svc req) tr r) :
    (∃ resp, r = .ok resp) ↔ routeOf req = some .fileDownload ∨ ¬ EndsUnreadable tr := by
  have hstep : ∀ (b : Bool) (c : Call) (o : Except Exn c.Resp),
      environment.step b c o (lastUnreadable b ⟨c, o⟩) := fun _ _ _ => rfl
  have hreadable : ReturnsIfReadable (dispatch svc req) →
      ((∃ resp, r = .ok resp) ↔ ¬ EndsUnreadable tr) := by
    intro h
    have hend := wp_trace lastUnreadable hstep htr h
    rw [hend, EndsUnreadable, Bool.not_eq_true]
  cases hroute : routeOf req with
  | none =>
      have h404 : ReturnsIfReadable (dispatch svc req) := by
        rw [dispatch_of_routeOf_none hroute]
        exact returns_setError hjson (fun _ hc => absurd hc List.not_mem_nil) false (by decide)
      rw [hreadable h404]
      simp
  | some route =>
      obtain ⟨req', hd⟩ := @dispatch_of_routeOf_some svc _ _ hroute
      by_cases hdown : route = .fileDownload
      · subst hdown
        rw [hd] at htr
        have hend := wp_trace lastUnreadable hstep htr (returns_downloadRoute hjson req')
        simp only [true_or, iff_true]
        exact hend
      · rw [hreadable (hd ▸ returns_handler hjson hdown req')]
        simp [hdown]

end SolarDrive.Api
