import SolarDrive.Api.Multipart
import SolarDrive.Api.Upload

/-!
# The course of a handler

Several results walk through the same handler, each over its own interface and
with its own assertions. The walk is made once, here: what holds at the end
(`Q`) follows from what each part of the handler makes of the assertions between
the parts: `P` at the start, `U` and `K` once content is unknown or known, `F`
with the folder, `S` with the session. A part comes with any continuation, so
that it can be gone through with whatever rule the interface has for it.
-/

namespace SolarDrive.Api

open Lib Http Prog

section Courses

variable {σ : Type} {I : Interface Call Call.Resp Exn σ} {svc : Services} {req : HttpRequest}
  {P : σ → Prop} {Q : Except Exn HttpResponse → σ → Prop} {s : σ}

section Upload

variable {body filename mimeType userId folderId : Bytes} {U : σ → Prop}
  {K : FileRecord → σ → Prop}

/-- Redis is asked, and the database once or twice; known content is linked, and
unknown content is stored. -/
theorem course_uploadContent
    (hcached : ∀ s (k : Option Bytes → App HttpResponse), P s → (∀ a s', P s' → (k a).wp I Q s') →
      (ask (.redisGet (hashKey (svc.sha256 body))) >>= k).wp I Q s)
    (hfind : ∀ s (k : Option FileRecord → App HttpResponse), P s →
      (∀ s', U s' → (k none).wp I Q s') → (∀ c s', K c s' → (k (some c)).wp I Q s') →
      (ask (.findContentByHash (svc.sha256 body)) >>= k).wp I Q s)
    (hagain : ∀ s, U s → P s)
    (hremember : ∀ c s (k : Unit → App HttpResponse), K c s →
      (∀ s', K c s' → (k ()).wp I Q s') →
      (rememberHash svc (svc.sha256 body) c.contentId >>= k).wp I Q s)
    (hlink : ∀ c s, K c s → (do
      let fileId ← linkExistingContent c filename mimeType userId folderId
      instantAnswer svc fileId (svc.sha256 body) c.size : App HttpResponse).wp I Q s)
    (hnew : ∀ s, U s →
      (uploadNew svc body filename mimeType userId folderId (svc.sha256 body)).wp I Q s)
    (hs : P s) : (uploadContent svc body filename mimeType userId folderId).wp I Q s := by
  have hlookup : ∀ s, P s →
      (uploadLookup svc body filename mimeType userId folderId (svc.sha256 body)).wp I Q s := by
    intro s hs
    refine hfind s _ hs hnew fun c s₁ hc => ?_
    exact hremember c s₁ _ hc fun s₂ hc₂ => hlink c s₂ hc₂
  unfold uploadContent
  dsimp only
  split
  · refine hcached s _ hs fun cached s₁ h₁ => ?_
    cases cached with
    | none => exact hlookup s₁ h₁
    | some _ => exact hfind s₁ _ h₁ (fun s₂ h₂ => hlookup s₂ (hagain s₂ h₂)) hlink
  · exact hlookup s hs

/-- The checks of a single upload, and the folder before the content. -/
theorem course_uploadRoute {F : Bytes → σ → Prop}
    (hrefused : ∀ code msg s, P s → (svc.setError code msg).wp I Q s)
    (hcaught : ∀ e s, Q (.error e) s → (svc.catchStd (ascii "upload failed: ") e).wp I Q s)
    (hfolder : ∀ s (k : Answered Bytes → App HttpResponse), P s →
      (∀ resp s', Q (.ok resp) s' → (k (.error resp)).wp I Q s') →
      (∀ id s', F id s' → (k (.ok id)).wp I Q s') →
      (resolveFolderId svc (req.getHeader (ascii "X-Folder-Id")) req.authUserId >>= k).wp I Q s)
    (hcontent : ∀ id s, F id s → svc.oversized req.body.length = false →
      (uploadContent svc req.body (resolveFilename req) (resolveMimeType req) req.authUserId id).wp
        I Q s)
    (hs : P s) : (uploadRoute svc req).wp I Q s := by
  refine wp_catch (M := Q) ?_ (fun _ _ h => h) hcaught
  split
  swap
  · exact hrefused _ _ _ hs
  unfold handleSingleUpload
  split
  · exact hrefused _ _ _ hs
  split
  · exact hrefused _ _ _ hs
  · rename_i hsmall
    exact hfolder s _ hs (fun _ _ h => h) fun id s' h' => hcontent id s' h' (by simpa using hsmall)

end Upload

/-- The checks of a request that works on a session, and the session before the work. -/
theorem course_withSession {what : Bytes} {k : Bytes → MultipartSession → App HttpResponse}
    {S : MultipartSession → σ → Prop}
    (hrefused : ∀ code msg s, P s → (svc.setError code msg).wp I Q s)
    (hcaught : ∀ e s, Q (.error e) s → (svc.catchStd what e).wp I Q s)
    (hload : ∀ s (f : Answered MultipartSession → App HttpResponse), P s → req.hasAuthUser = true →
      (∀ resp s', Q (.ok resp) s' → (f (.error resp)).wp I Q s') →
      (∀ session s', S session s' → (f (.ok session)).wp I Q s') →
      (requireSession svc req (req.getPathParam (ascii "upload_id")) >>= f).wp I Q s)
    (hk : ∀ session s, S session s →
      (k (req.getPathParam (ascii "upload_id")) session).wp I Q s)
    (hs : P s) : (withSession svc req what k).wp I Q s := by
  refine wp_catch (M := Q) ?_ (fun _ _ h => h) hcaught
  split
  · exact hrefused _ _ _ hs
  · rename_i hauth
    dsimp only
    split
    · exact hrefused _ _ _ hs
    · exact hload s _ hs (by simpa using hauth) (fun _ _ h => h) hk

end Courses

end SolarDrive.Api
