import SolarDrive.Api.Routes
import SolarDrive.Api.Multipart
import SolarDrive.Api.Share

/-!
# Registration, login, and the dispatch table

`handler` is what each registered route runs, and `dispatch` the router's turn
with a request: the handler of the route that matches, or 404.
-/

namespace SolarDrive.Api

open Lib Http Auth

/-! ## Registration and login -/

def issueToken (svc : Services) (userId username : Bytes) : App Bytes := do
  let ns ← ask .now
  ofJson (svc.jwt.generate (toTimeT ns) { userId, username, exp := 0, iat := toTimeT ns }
    svc.jwtTtlHours)

/-- The fields both handlers read. -/
def readCredentials (body : Json) : Except Bytes (Bytes × Bytes) := do
  let username ← (← body.index (ascii "username")).getString
  let password ← (← body.index (ascii "password")).getString
  return (username, password)

def tokenAnswer (svc : Services) (userId username : Bytes) : App HttpResponse := do
  let token ← issueToken svc userId username
  svc.setJson (object [("token", .str token), ("user_id", .str userId),
    ("username", .str username)])

def handleRegister (svc : Services) (req : HttpRequest) : App HttpResponse :=
  Prog.tryCatch (do
    let body ← ask (.jsonParse req.body)
    let (username, password) ← ofJson (readCredentials body)
    if username = [] ∨ password = [] then
      svc.setError 400 (ascii "username and password are required")
    else
      let userId ← ask (.registerUser username password)
      match userId with
      | none => svc.setError 409 (ascii "username already exists")
      | some id => tokenAnswer svc id username)
    (svc.catchJson (ascii "register failed: "))

def handleLogin (svc : Services) (req : HttpRequest) : App HttpResponse :=
  Prog.tryCatch (do
    let body ← ask (.jsonParse req.body)
    let (username, password) ← ofJson (readCredentials body)
    if username = [] ∨ password = [] then
      svc.setError 400 (ascii "username and password are required")
    else
      let user ← ask (.login username password)
      match user with
      | none => svc.setError 401 (ascii "invalid username or password")
      | some u => tokenAnswer svc u.id u.username)
    (svc.catchJson (ascii "login failed: "))

/-! ## Dispatch -/

def healthAnswer : HttpResponse :=
  HttpResponse.setJson {} (ascii "\x7b\"status\":\"ok\",\"service\":\"SolarDrive\"\x7d")

def metricsAnswer (svc : Services) : HttpResponse :=
  (HttpResponse.setBody {} svc.metrics).setHeader (ascii "Content-Type")
    (ascii "text/plain; version=0.0.4; charset=utf-8")

def handler (svc : Services) : RouteName → HttpRequest → App HttpResponse
  | .health, _ => return healthAnswer
  | .metrics, _ => return metricsAnswer svc
  | .register, req => handleRegister svc req
  | .login, req => handleLogin svc req
  | .upload, req => uploadRoute svc req
  | .uploadInit, req => handleInit svc req
  | .uploadPart, req => handleUploadPart svc req
  | .uploadComplete, req => handleComplete svc req
  | .uploadStatus, req => handleStatus svc req
  | .uploadAbort, req => handleAbort svc req
  | .fileList, req => handleFileList svc req
  | .fileDelete, req => handleFileDelete svc req
  | .folderList, req => handleFolderList svc req
  | .folderCreate, req => handleFolderCreate svc req
  | .folderRename, req => handleFolderRename svc req
  | .folderDelete, req => handleFolderDelete svc req
  | .fileDownload, req => downloadRoute svc req
  | .shareCreate, req => handleShareCreate svc req
  | .shareSave, req => handleShareSave svc req
  | .shareList, req => handleShareList svc req
  | .shareRevoke, req => handleShareRevoke svc req
  | .shareDownload, req => handleShareDownload svc req

/-- `HttpRouter::dispatch` over the registered routes. -/
def dispatch (svc : Services) (req : HttpRequest) : App HttpResponse :=
  match apiRouter.dispatch req with
  | none => svc.setError 404 (ascii "Not Found")
  | some (route, req') => handler svc route req'

end SolarDrive.Api
