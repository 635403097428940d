import SolarDrive.Api.Dispatch
import SolarDrive.Http.HeaderCase

/-!
# What the handlers read from the headers

Two of the routes read headers, by their exact spelling: the upload and the share
download. `SameReads` says when two header lists give a route the same values where
it uses them, and `handler_eq_iff` that this is when the route does the same.
-/

namespace SolarDrive.Api

open Lib Http Auth Prog

/-- The route gets the same from the headers of both requests. -/
def SameReads (svc : Services) (req req' : HttpRequest) : RouteName → Prop
  | .upload =>
      req.hasAuthUser = true → req.body ≠ [] → svc.oversized req.body.length = false →
        req.getHeader (ascii "X-Folder-Id") = req'.getHeader (ascii "X-Folder-Id") ∧
        resolveFilename req = resolveFilename req' ∧ resolveMimeType req = resolveMimeType req'
  | .shareDownload =>
      req.getPathParam (ascii "token") ≠ [] →
        wantsSharePageRedirect req = wantsSharePageRedirect req' ∧
        (wantsSharePageRedirect req = false →
          isShareApiPreview req = isShareApiPreview req' ∧
          (isShareApiDownload req && !isShareApiPreview req) =
            (isShareApiDownload req' && !isShareApiPreview req') ∧
          sharePassword req = sharePassword req')
  | _ => True

section Upload

variable {svc : Services} {userId body : Bytes}

/-- Redis knows the hash, the content is there, folders are the user's own. -/
def knownContent (userId : Bytes) : (c : Call) → Except Exn c.Resp
  | .redisGet _ => .ok (some [])
  | .findContentByHash _ => .ok (some {})
  | .folderFindById _ => .ok (some { ownerId := userId })
  | .nameExistsInFolder _ _ _ => .ok false
  | _ => .error { kind := .std, what := [] }

def linkOf (name mime userId folder : Bytes) : FileRecord :=
  { name, mimeType := if mime = [] then [] else mime, ownerId := userId, folderId := folder }

/-- An upload of known content inserts a link under the name and the type. -/
theorem uploadContent_link {catchAll : Exn → App HttpResponse} (svc : Services)
    (body name mime userId folder : Bytes) :
    ((uploadContent svc body name mime userId folder).tryCatch catchAll).callAfter
        (knownContent userId) (if svc.hasRedis then 3 else 2) =
      some (.insertLink (linkOf name mime userId folder) []) := by
  by_cases hredis : svc.hasRedis = true
  · unfold uploadContent
    simp only [hredis, if_true]
    rfl
  · unfold uploadContent uploadLookup rememberHash
    simp only [hredis]
    rfl

theorem resolveMimeType_ne (req : HttpRequest) : resolveMimeType req ≠ [] := by
  unfold resolveMimeType
  dsimp only
  split
  · decide
  · assumption

/-- The upload with the user, the body and the size checked. -/
def checkedUpload (svc : Services) (req : HttpRequest) (userId : Bytes) : App HttpResponse := do
  let folder ← resolveFolderId svc (req.getHeader (ascii "X-Folder-Id")) userId
  match folder with
  | .error resp => return resp
  | .ok folderId =>
      uploadContent svc req.body (resolveFilename req) (resolveMimeType req) userId folderId

/-- A folder is looked up first; then the upload goes on into it. -/
theorem checkedUpload_folder {req : HttpRequest} {catchAll : Exn → App HttpResponse}
    (hne : req.getHeader (ascii "X-Folder-Id") ≠ []) (n : Nat) :
    ((checkedUpload svc req userId).tryCatch catchAll).callAfter (knownContent userId) 0 =
        some (.folderFindById (req.getHeader (ascii "X-Folder-Id"))) ∧
      ((checkedUpload svc req userId).tryCatch catchAll).callAfter (knownContent userId) (n + 1) =
        ((uploadContent svc req.body (resolveFilename req) (resolveMimeType req) userId
          (req.getHeader (ascii "X-Folder-Id"))).tryCatch catchAll).callAfter
            (knownContent userId) n := by
  have howner : ¬ (userId ≠ userId) := fun h => h rfl
  unfold checkedUpload resolveFolderId
  rw [if_neg hne]
  refine ⟨rfl, ?_⟩
  change Prog.callAfter _ n (Prog.tryCatch (Prog.bind (if userId ≠ userId then _ else _) _) _) = _
  rw [if_neg howner]
  rfl

theorem checkedUpload_root {req : HttpRequest}
    (hempty : req.getHeader (ascii "X-Folder-Id") = []) :
    checkedUpload svc req userId =
      uploadContent svc req.body (resolveFilename req) (resolveMimeType req) userId [] := by
  unfold checkedUpload
  rw [hempty]
  rfl

theorem uploadContent_first {catchAll : Exn → App HttpResponse} (svc : Services)
    (body name mime userId folder id : Bytes) :
    ((uploadContent svc body name mime userId folder).tryCatch catchAll).callAfter
      (knownContent userId) 0 ≠ some (.folderFindById id) := by
  unfold uploadContent
  split
  · nofun
  · nofun

/-- The folder is the first thing an upload looks at; then the calls show the name
and the type. -/
theorem checkedUpload_inj {req req' : HttpRequest} {catchAll : Exn → App HttpResponse}
    (h : (checkedUpload svc req userId).tryCatch catchAll =
      (checkedUpload svc req' userId).tryCatch catchAll) :
    req.getHeader (ascii "X-Folder-Id") = req'.getHeader (ascii "X-Folder-Id") ∧
      resolveFilename req = resolveFilename req' ∧ resolveMimeType req = resolveMimeType req' := by
  have hlink : ∀ {r r' : HttpRequest} {folder : Bytes},
      linkOf (resolveFilename r) (resolveMimeType r) userId folder =
        linkOf (resolveFilename r') (resolveMimeType r') userId folder →
      resolveFilename r = resolveFilename r' ∧ resolveMimeType r = resolveMimeType r' := by
    intro r r' folder heq
    simpa [linkOf, resolveMimeType_ne] using heq
  have hcall := fun n => congrArg (Prog.callAfter (knownContent userId) n) h
  by_cases hempty : req.getHeader (ascii "X-Folder-Id") = []
  · by_cases hempty' : req'.getHeader (ascii "X-Folder-Id") = []
    · rw [checkedUpload_root hempty, checkedUpload_root hempty'] at hcall
      have hboth := hcall (if svc.hasRedis then 3 else 2)
      rw [uploadContent_link, uploadContent_link] at hboth
      exact ⟨hempty.trans hempty'.symm, hlink (Call.insertLink.inj (Option.some.inj hboth)).1⟩
    · have hfirst := hcall 0
      rw [checkedUpload_root hempty, (checkedUpload_folder hempty' 0).1] at hfirst
      exact absurd hfirst (uploadContent_first svc _ _ _ _ _ _)
  · by_cases hempty' : req'.getHeader (ascii "X-Folder-Id") = []
    · have hfirst := hcall 0
      rw [checkedUpload_root hempty', (checkedUpload_folder hempty 0).1] at hfirst
      exact absurd hfirst.symm (uploadContent_first svc _ _ _ _ _ _)
    · have hfirst := hcall 0
      rw [(checkedUpload_folder hempty 0).1, (checkedUpload_folder hempty' 0).1] at hfirst
      have hfolder := Call.folderFindById.inj (Option.some.inj hfirst)
      have hboth := hcall ((if svc.hasRedis then 3 else 2) + 1)
      rw [(checkedUpload_folder hempty _).2, (checkedUpload_folder hempty' _).2,
        uploadContent_link, uploadContent_link, hfolder] at hboth
      exact ⟨hfolder, hlink (Call.insertLink.inj (Option.some.inj hboth)).1⟩

theorem uploadRoute_eq_iff {req req' : HttpRequest} (hbody : req'.body = req.body)
    (huser : req'.authUserId = req.authUserId) :
    uploadRoute svc req = uploadRoute svc req' ↔ SameReads svc req req' .upload := by
  have hhas : req'.hasAuthUser = req.hasAuthUser := by
    rw [HttpRequest.hasAuthUser, huser]
    rfl
  have hchecked : ∀ r : HttpRequest, r.body = req.body →
      handleSingleUpload svc r r.authUserId = if req.body = [] then svc.setError 400 (ascii "Empty body")
        else if svc.oversized req.body.length then svc.setError 413 (ascii "file too large")
        else checkedUpload svc r r.authUserId := by
    intro r hr
    rw [← hr]
    rfl
  unfold uploadRoute
  rw [hhas, hchecked req rfl, hchecked req' hbody, huser]
  by_cases hauth : req.hasAuthUser = true
  · by_cases hempty : req.body = []
    · simp only [hauth, hempty, if_true]
      exact iff_of_true trivial fun _ hne => absurd hempty hne
    · by_cases hsize : svc.oversized req.body.length = true
      · simp only [hauth, hempty, hsize, if_true, if_false]
        exact iff_of_true trivial fun _ _ hsize' => absurd (hsize.symm.trans hsize') nofun
      · simp only [hauth, hempty, hsize, if_true, if_false, Bool.false_eq_true]
        constructor
        · exact fun h _ _ _ => checkedUpload_inj h
        · intro h
          obtain ⟨hfolder, hname, hmime⟩ := h hauth hempty (Bool.eq_false_iff.mpr hsize)
          rw [checkedUpload, checkedUpload, hfolder, hname, hmime, hbody]
  · simp only [hauth]
    exact iff_of_true rfl fun hauth' => absurd hauth' hauth

end Upload

section Share

variable {svc : Services}

/-- Any share there is, with any password. -/
def knownShare (share : ShareRecord) : (c : Call) → Except Exn c.Resp
  | .findByToken _ => .ok (some share)
  | .fileFindById _ => .ok (some {})
  | .jsonParse _ => .ok (.arr [])
  | _ => .error { kind := .std, what := [] }

/-- The download once the page redirect is ruled out. -/
def checkedDownload (svc : Services) (token password : Bytes) (counted preview : Bool) :
    App HttpResponse := do
  let resolved ← resolveShare svc token password counted
  match resolved with
  | .error resp => return resp
  | .ok share => deliverShare svc preview share

/-- A share without password, expiry and limit is counted, or its file is looked up. -/
theorem checkedDownload_open {token : Bytes} (htoken : token ≠ []) (what password : Bytes)
    (counted preview : Bool) :
    ((checkedDownload svc token password counted preview).tryCatch (svc.catchStd what)).callAfter
        (knownShare {}) 1 =
      some (if counted then .incrementDownloadCount [] else .fileFindById []) := by
  unfold checkedDownload resolveShare
  rw [if_neg htoken]
  cases counted
  · rfl
  · rfl

/-- An uncounted download of such a share shows whether it is a preview. -/
theorem checkedDownload_preview {token : Bytes} (htoken : token ≠ []) (what password : Bytes)
    (preview : Bool) :
    ((checkedDownload svc token password false preview).tryCatch (svc.catchStd what)).run
        (fun c s => (knownShare {} c, s)) () =
      (.ok ((HttpResponse.setHeader {} (ascii "Content-Disposition")
        ((if preview then ascii "inline" else ascii "attachment") ++ ascii "; filename=\"" ++ [] ++
          ascii "\"")).setBinary [] []), ()) := by
  unfold checkedDownload resolveShare
  rw [if_neg htoken]
  rfl

/-- With the password of a share the download goes on, without one it ends. -/
theorem checkedDownload_protected (hlen : ∀ d, 2 ≤ (svc.digest d).length) {token password : Bytes}
    (htoken : token ≠ []) (hpassword : password ≠ []) (what : Bytes) (counted preview : Bool) :
    ((checkedDownload svc token password counted preview).tryCatch (svc.catchStd what)).callAfter
        (knownShare { passwordHash := svc.sha256 password }) 1 =
      some (if counted then .incrementDownloadCount [] else .fileFindById []) ∧
    ((checkedDownload svc token [] counted preview).tryCatch (svc.catchStd what)).callAfter
        (knownShare { passwordHash := svc.sha256 password }) 1 = none := by
  have hlong := sha256_length hlen password
  have hhash : svc.sha256 password ≠ [] := List.ne_nil_of_length_pos (by omega)
  have hgiven : checkPassword svc { passwordHash := svc.sha256 password } password =
      .ret (.ok ()) := by
    unfold checkPassword
    rw [if_neg hhash, if_neg hpassword, if_neg (fun h => h rfl)]
    rfl
  have hmissing : checkPassword svc { passwordHash := svc.sha256 password } [] = (do
      let resp ← svc.setError 401 (ascii "password required")
      return .error (resp.setHeader (ascii "X-Share-Auth") (ascii "required"))) := by
    unfold checkPassword
    rw [if_neg hhash]
    rfl
  have hcatch : ∀ e, (svc.catchStd what e).callAfter
      (knownShare { passwordHash := svc.sha256 password }) 0 = none := by
    intro e
    unfold Services.catchStd Services.setError
    cases HttpResponse.setError {} svc.json 500 (what ++ e.what) with
    | ok resp => rfl
    | error w => rfl
  constructor
  · unfold checkedDownload resolveShare
    rw [if_neg htoken]
    change Prog.callAfter _ 0 (Prog.tryCatch (Prog.bind (Prog.bind (checkPassword svc
      { passwordHash := svc.sha256 password } password) _) _) _) = _
    rw [hgiven]
    cases counted
    · rfl
    · rfl
  · unfold checkedDownload resolveShare
    rw [if_neg htoken]
    change Prog.callAfter _ 0 (Prog.tryCatch (Prog.bind (Prog.bind (checkPassword svc
      { passwordHash := svc.sha256 password } []) _) _) _) = _
    rw [hmissing]
    unfold Services.setError
    cases HttpResponse.setError {} svc.json 401 (ascii "password required") with
    | ok resp => rfl
    | error w => exact hcatch _

theorem checkedDownload_inj {token password password' what : Bytes}
    {counted counted' preview preview' : Bool} (hlen : ∀ d, 2 ≤ (svc.digest d).length)
    (htoken : token ≠ [])
    (hpassword : password = password' ∨ password = [] ∨ password' = [])
    (hcounted : counted = true → preview = false) (hcounted' : counted' = true → preview' = false)
    (h : (checkedDownload svc token password counted preview).tryCatch (svc.catchStd what) =
      (checkedDownload svc token password' counted' preview').tryCatch (svc.catchStd what)) :
    preview = preview' ∧ counted = counted' ∧ password = password' := by
  have hcount : counted = counted' := by
    have hcall := congrArg (Prog.callAfter (knownShare {}) 1) h
    rw [checkedDownload_open htoken, checkedDownload_open htoken] at hcall
    cases counted
    · cases counted'
      · rfl
      · cases hcall
    · cases counted'
      · cases hcall
      · rfl
  have hpreview : preview = preview' := by
    cases counted
    · subst hcount
      have hrun := congrArg (fun p => p.run (fun c s => (knownShare {} c, s)) ()) h
      rw [checkedDownload_preview htoken, checkedDownload_preview htoken] at hrun
      have hheader := congrArg HttpResponse.headers (Except.ok.inj (Prod.mk.inj hrun).1)
      cases preview
      · cases preview'
        · rfl
        · exact absurd hheader (by decide)
      · cases preview'
        · exact absurd hheader (by decide)
        · rfl
    · rw [hcounted rfl, hcounted' hcount.symm]
  refine ⟨hpreview, hcount, ?_⟩
  rcases hpassword with heq | rfl | rfl
  · exact heq
  · by_contra hne
    have hcall := congrArg (Prog.callAfter (knownShare { passwordHash := svc.sha256 password' }) 1) h
    rw [(checkedDownload_protected hlen htoken (Ne.symm hne) what counted preview).2,
      (checkedDownload_protected hlen htoken (Ne.symm hne) what counted' preview').1] at hcall
    cases hcall
  · by_contra hne
    have hcall := congrArg (Prog.callAfter (knownShare { passwordHash := svc.sha256 password }) 1) h
    rw [(checkedDownload_protected hlen htoken hne what counted preview).1,
      (checkedDownload_protected hlen htoken hne what counted' preview').2] at hcall
    cases hcall

/-- A page redirect makes no call, a download does. -/
theorem checkedDownload_first {token : Bytes} (htoken : token ≠ []) (what password : Bytes)
    (counted preview : Bool) :
    (checkedDownload svc token password counted preview).tryCatch (svc.catchStd what) ≠
      .ret (sharePageRedirect token) := by
  unfold checkedDownload resolveShare
  rw [if_neg htoken]
  nofun

theorem sharePassword_renamed {req req' : HttpRequest} (h : SameRequest req req')
    (hnames : DistinctNames req.headers) :
    sharePassword req = sharePassword req' ∨ sharePassword req = [] ∨ sharePassword req' = [] := by
  have hheader := HttpParser.getHeader_renamed h hnames (ascii "X-Share-Password")
  obtain ⟨hs, rfl, -⟩ := h
  unfold sharePassword
  dsimp only
  split
  · exact hheader
  · exact .inl rfl

theorem handleShareDownload_eq_iff {req req' : HttpRequest} (hlen : ∀ d, 2 ≤ (svc.digest d).length)
    (h : SameRequest req req') (hnames : DistinctNames req.headers) :
    handleShareDownload svc req = handleShareDownload svc req' ↔
      SameReads svc req req' .shareDownload := by
  have hpassword := sharePassword_renamed h hnames
  have htoken : req'.getPathParam (ascii "token") = req.getPathParam (ascii "token") := by
    obtain ⟨hs, rfl, -⟩ := h
    rfl
  -- the header is read for the redirect, for the two API flags and for the password
  have hcheck : ∀ r : HttpRequest, handleShareDownload svc r =
      if r.getPathParam (ascii "token") = [] then
        (svc.setError 400 (ascii "missing share token")).tryCatch
          (svc.catchStd (ascii "download failed: "))
      else if wantsSharePageRedirect r then
        .ret (sharePageRedirect (r.getPathParam (ascii "token")))
      else
        (checkedDownload svc (r.getPathParam (ascii "token")) (sharePassword r)
          (isShareApiDownload r && !isShareApiPreview r) (isShareApiPreview r)).tryCatch
            (svc.catchStd (ascii "download failed: ")) := by
    intro r
    unfold handleShareDownload checkedDownload
    dsimp only
    split
    · rfl
    · split
      · rfl
      · rfl
  have hcounted : ∀ r : HttpRequest, (isShareApiDownload r && !isShareApiPreview r) = true →
      isShareApiPreview r = false := by
    intro r hr
    simpa using (Bool.and_eq_true_iff.mp hr).2
  rw [hcheck req, hcheck req', htoken]
  by_cases hempty : req.getPathParam (ascii "token") = []
  · rw [if_pos hempty, if_pos hempty]
    exact iff_of_true rfl fun hne => absurd hempty hne
  · rw [if_neg hempty, if_neg hempty]
    cases hredirect : wantsSharePageRedirect req
    · cases hredirect' : wantsSharePageRedirect req'
      · simp only [Bool.false_eq_true, if_false]
        constructor
        · intro heq
          obtain ⟨hpreview, hcount, hpwd⟩ := checkedDownload_inj hlen hempty hpassword
            (hcounted req) (hcounted req') heq
          exact fun _ => ⟨hredirect.trans hredirect'.symm, fun _ => ⟨hpreview, hcount, hpwd⟩⟩
        · intro hreads
          obtain ⟨hpreview, hcount, hpwd⟩ := (hreads hempty).2 hredirect
          rw [hcount, hpreview, hpwd]
      · simp only [Bool.false_eq_true, if_false, if_true]
        refine iff_of_false (checkedDownload_first hempty _ _ _ _) fun hreads => ?_
        cases hredirect.symm.trans ((hreads hempty).1.trans hredirect')
    · cases hredirect' : wantsSharePageRedirect req'
      · simp only [Bool.false_eq_true, if_false, if_true]
        refine iff_of_false (checkedDownload_first hempty _ _ _ _).symm fun hreads => ?_
        cases hredirect.symm.trans ((hreads hempty).1.trans hredirect')
      · simp only [if_true]
        refine iff_of_true trivial fun _ => ⟨hredirect.trans hredirect'.symm, fun h => ?_⟩
        cases hredirect.symm.trans h

end Share

/-! ## Every route -/

section Routes

variable {svc : Services} {req req' : HttpRequest}

/-- A route does the same with renamed headers exactly when it reads the same. -/
theorem handler_eq_iff (hlen : ∀ d, 2 ≤ (svc.digest d).length) (h : SameRequest req req')
    (hnames : DistinctNames req.headers) (route : RouteName) :
    handler svc route req = handler svc route req' ↔ SameReads svc req req' route := by
  cases route
  case upload =>
    obtain ⟨hs, rfl, -⟩ := h
    exact uploadRoute_eq_iff rfl rfl
  case shareDownload => exact handleShareDownload_eq_iff hlen h hnames
  all_goals
    obtain ⟨hs, rfl, -⟩ := h
    exact iff_of_true rfl trivial

theorem setPathParams_headers (hs : List (Bytes × Bytes)) (params : List (Bytes × Bytes)) :
    ∀ req : HttpRequest, HttpRouter.setPathParams { req with headers := hs } params =
      { HttpRouter.setPathParams req params with headers := hs } := by
  have hfold : ∀ req : HttpRequest,
      params.foldl (fun r p => r.setPathParam p.1 p.2) { req with headers := hs } =
        { params.foldl (fun r p => r.setPathParam p.1 p.2) req with headers := hs } := by
    induction params with
    | nil => exact fun _ => rfl
    | cons p params ih => exact fun req => ih (req.setPathParam p.1 p.2)
  exact fun req => hfold req.clearPathParams

theorem setPathParams_headers_eq (params : List (Bytes × Bytes)) (req : HttpRequest) :
    (HttpRouter.setPathParams req params).headers = req.headers := by
  have h := congrArg HttpRequest.headers (setPathParams_headers req.headers params req)
  exact h

/-- The router looks at the method and the path; what the handler reads decides. -/
theorem dispatch_eq_iff (hlen : ∀ d, 2 ≤ (svc.digest d).length) (h : SameRequest req req')
    (hnames : DistinctNames req.headers) :
    dispatch svc req = dispatch svc req' ↔ ∀ route r, apiRouter.dispatch req = some (route, r) →
      SameReads svc r { r with headers := req'.headers } route := by
  have hfind : apiRouter.findRoute req'.method req'.path =
      apiRouter.findRoute req.method req.path := by
    obtain ⟨hs, rfl, -⟩ := h
    rfl
  rw [dispatch, dispatch, HttpRouter.dispatch, HttpRouter.dispatch, hfind]
  obtain ⟨hs, rfl, hhs⟩ := h
  cases apiRouter.findRoute req.method req.path with
  | none => exact iff_of_true rfl (by simp)
  | some found =>
      obtain ⟨route, params⟩ := found
      simp only [Option.map_some, Option.some.injEq, Prod.mk.injEq, setPathParams_headers hs params]
      have hsame : SameRequest (HttpRouter.setPathParams req params)
          { HttpRouter.setPathParams req params with headers := hs } := by
        refine ⟨hs, rfl, ?_⟩
        rw [setPathParams_headers_eq]
        exact hhs
      rw [handler_eq_iff hlen hsame (by rw [setPathParams_headers_eq]; exact hnames)]
      constructor
      · rintro hreads route' r ⟨rfl, rfl⟩
        exact hreads
      · exact fun hreads => hreads route _ ⟨rfl, rfl⟩

end Routes

end SolarDrive.Api
