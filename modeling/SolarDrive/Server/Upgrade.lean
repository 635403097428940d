import SolarDrive.Server.RequestCallback
import SolarDrive.Api.Services
import SolarDrive.Ws.Codec

/-!
# What a request on a connection is answered with

The request callback up to the point where it sends: whether it is an upgrade to
WebSocket, and if it is not, which response it gets and whether the connection is
kept. What other parts of the server have to say depends on a world `σ`.
-/

namespace SolarDrive.Http.HttpRequest

open Lib

/-- `find` does not return `npos`. -/
def containsText (s pat : Bytes) : Bool := (afterFirst pat s).isSome

def headerContainsToken (value token : Bytes) : Bool :=
  containsText (value.map toLower) (token.map toLower)

def wantsKeepAlive (r : HttpRequest) : Bool :=
  let connection := r.getHeaderIc (ascii "Connection")
  if headerContainsToken connection (ascii "close") then false
  else if headerContainsToken connection (ascii "keep-alive") then true
  else if containsText (r.version.map toLower) (ascii "1.0") then false
  else true

end SolarDrive.Http.HttpRequest

namespace SolarDrive.Server

open Lib Http Auth

def kMaxKeepAliveRequests : Nat := 1000

structure Metrics where
  totalRequests : Nat := 0
  errors : Nat := 0
  uploadBytes : Int := 0
  downloadBytes : Int := 0
  activeConnections : Int := 0

def Metrics.dumpJson (m : Metrics) : Bytes :=
  ascii "\x7b\"type\":\"metrics\",\"solardrive_requests_total\":" ++ decimal m.totalRequests ++
    ascii ",\"solardrive_errors_total\":" ++ decimal m.errors ++
    ascii ",\"solardrive_upload_bytes_total\":" ++ decimalInt m.uploadBytes ++
    ascii ",\"solardrive_download_bytes_total\":" ++ decimalInt m.downloadBytes ++
    ascii ",\"solardrive_active_connections\":" ++ decimalInt m.activeConnections ++ ascii "\x7d"

/-- The server around a connection. -/
structure Site (σ : Type) where
  jwt : JwtUtil
  /-- `EVP_sha1` and `EVP_EncodeBlock`. -/
  sha1 : Bytes → Bytes
  encodeBlock : Bytes → Bytes
  now : σ → Int
  /-- `hget`, if there is a client. -/
  redis : Option (σ → Bytes → Bytes → Option Bytes)
  peerIp : Bytes
  tryServe : HttpRequest → σ → Option HttpResponse
  allow : Bytes → σ → Bool × σ
  /-- The router and its handlers; none when one throws. -/
  dispatch : HttpRequest → σ → Option HttpResponse × σ
  metrics : σ → Metrics
  /-- The order in which the header map of a response is walked. -/
  walk : HttpResponse → List (Bytes × Bytes)

/-- How `try_handle_upgrade` ends. -/
inductive Upgrading where
  /-- It returns false. -/
  | declined
  | refused (resp : HttpResponse)
  /-- The session is the upload's, or none when it is for the metrics. -/
  | accepted (key : Bytes) (session : Option Bytes)
  /-- `set_error` throws. -/
  | exception
deriving DecidableEq

/-- What the request callback does with a request. -/
inductive Reply where
  | response (resp : HttpResponse) (keepAlive : Bool)
  | upgrade (key : Bytes) (session : Option Bytes)
  | exception
deriving DecidableEq

def isWebsocketUpgrade (req : HttpRequest) : Bool :=
  let upgrade := (req.getHeader (ascii "Upgrade")).map toLower
  if upgrade ≠ ascii "websocket" then false
  else
    let connection := (req.getHeader (ascii "Connection")).map toLower
    HttpRequest.containsText connection (ascii "upgrade")

def pathAfterPrefix (path pre : Bytes) : Bytes :=
  if path.length ≤ pre.length ∨ path.take pre.length ≠ pre then [] else path.drop pre.length

def websocketGuid : Bytes := ascii "258EAFA5-E914-47DA-95CA-C5AB0DC85B11"

namespace Site

variable {σ : Type} (S : Site σ)

def buildUpgradeResponse (key : Bytes) : Bytes :=
  ascii "HTTP/1.1 101 Switching Protocols\r\nUpgrade: websocket\r\nConnection: Upgrade\r\n" ++
    ascii "Sec-WebSocket-Accept: " ++ S.encodeBlock (S.sha1 (key ++ websocketGuid)) ++
    ascii "\r\n\r\n"

/-- The user, or what the refusal says. -/
def authenticateWs (req : HttpRequest) (world : σ) : Except Bytes Bytes :=
  let token := Api.queryParam req.query (ascii "token")
  let token :=
    if token.isEmpty then (extractToken (req.getHeader (ascii "Authorization"))).getD [] else token
  let authReq :=
    if token.isEmpty then req
    else req.addHeader (ascii "Authorization") (ascii "Bearer " ++ token)
  let auth := authenticate S.jwt (S.now world) authReq
  if auth.authenticated then .ok auth.userId else .error auth.errorMsg

def uploadSessionOwnedBy (uploadId userId : Bytes) (world : σ) : Bool :=
  match S.redis with
  | none => false
  | some hget => hget world (ascii "multipart:" ++ uploadId) (ascii "user_id") == some userId

/-- A response with this error. -/
def refuse (code : Int) (msg : Bytes) : Upgrading :=
  match HttpResponse.setError {} S.jwt.json code msg with
  | .ok resp => .refused resp
  | .error _ => .exception

def tryHandleUpgrade (req : HttpRequest) (world : σ) : Upgrading :=
  if req.method ≠ .GET || !isWebsocketUpgrade req then .declined
  else
    let wsKey := req.getHeader (ascii "Sec-WebSocket-Key")
    if wsKey.isEmpty then .declined
    else if req.path = ascii "/ws/metrics" then .accepted wsKey none
    else if startsWith req.path (ascii "/ws/upload/") then
      let uploadId := pathAfterPrefix req.path (ascii "/ws/upload/")
      if uploadId.isEmpty then S.refuse 400 (ascii "missing upload_id")
      else
        match S.authenticateWs req world with
        | .error msg => S.refuse 401 msg
        | .ok userId =>
            if S.uploadSessionOwnedBy uploadId userId world then .accepted wsKey (some uploadId)
            else S.refuse 403 (ascii "forbidden")
    else .declined

/-- The request callback from the static files on. -/
def serve (req : HttpRequest) (world : σ) : Option HttpResponse × σ :=
  match if req.method = .GET then S.tryServe req world else none with
  | some resp => (some resp, world)
  | none =>
      let clientIp := resolveClientIp (req.getHeaderIc (ascii "X-Forwarded-For")) S.peerIp
      let (allowed, world) := if isExempt req.path then (true, world) else S.allow clientIp world
      if !allowed then (some tooManyRequests, world)
      else if isWhitelisted req.path then S.dispatch req world
      else
        let auth := authenticate S.jwt (S.now world) req
        if auth.authenticated then S.dispatch (req.setAuthUser auth.userId auth.username) world
        else ((HttpResponse.setError {} S.jwt.json 401 auth.errorMsg).toOption, world)

/-- The reply to a request when so many have been answered, and the number and the
world after it. -/
def reply (req : HttpRequest) (count : Nat) (world : σ) : Reply × Nat × σ :=
  match S.tryHandleUpgrade req world with
  | .accepted key session => (.upgrade key session, count, world)
  | .refused resp => (.response resp false, count, world)
  | .exception => (.exception, count, world)
  | .declined =>
      let keepAlive := req.wantsKeepAlive && count < kMaxKeepAliveRequests
      match S.serve req world with
      | (some resp, world) => (.response resp keepAlive, count + 1, world)
      | (none, world) => (.exception, count + 1, world)

/-- The reply ends the connection. -/
def closes (req : HttpRequest) (count : Nat) (world : σ) : Bool :=
  match (S.reply req count world).1 with
  | .response _ keepAlive => !keepAlive
  | _ => false

/-- The text `send_response` sends. -/
def responseText (resp : HttpResponse) (keepAlive : Bool) : Bytes :=
  (resp.setCloseConnection (!keepAlive)).serialize (S.walk resp)

theorem responseText_ne (resp : HttpResponse) (keepAlive : Bool) :
    S.responseText resp keepAlive ≠ [] := by
  have hstart : ascii "HTTP/1.1 " ≠ [] := by decide
  unfold responseText HttpResponse.serialize
  simp [hstart]

theorem buildUpgradeResponse_ne (key : Bytes) : S.buildUpgradeResponse key ≠ [] := by
  have hend : ascii "\r\n\r\n" ≠ [] := by decide
  unfold buildUpgradeResponse
  exact List.append_ne_nil_of_right_ne_nil _ hend

end Site

/-- A server without uploads, the hash and its text tabulated for one key. -/
def sampleSite : Site Unit where
  jwt := sampleUtil
  sha1 data :=
    if data = ascii "dGhlIHNhbXBsZSBub25jZQ==" ++ websocketGuid then
      [179, 122, 79, 44, 192, 98, 79, 22, 144, 246, 70, 6, 207, 56, 89, 69, 178, 190, 196, 234]
    else []
  encodeBlock data :=
    if data = [179, 122, 79, 44, 192, 98, 79, 22, 144, 246, 70, 6, 207, 56, 89, 69, 178, 190, 196,
        234] then
      ascii "s3pPLMBiTxaQ9kYGzzhZRbK+xOo="
    else []
  now := fun _ => 1700000060
  redis := none
  peerIp := ascii "10.0.0.1"
  tryServe := fun _ _ => none
  allow := fun _ world => (true, world)
  dispatch := fun _ world => (some (HttpResponse.setJson {} (ascii "\x7b\x7d")), world)
  metrics := fun _ => {}
  walk := HttpResponse.headers

/-- A check of the server's health, the last one on its connection or not. -/
def healthRequest (connection : String) : Bytes :=
  ascii "GET /api/v1/health HTTP/1.1\r\nConnection: " ++ ascii connection ++ ascii "\r\n\r\n"

/-- The upgrade of a client that wants the metrics. -/
def upgradeText : Bytes :=
  ascii "GET /ws/metrics HTTP/1.1\r\nUpgrade: websocket\r\nConnection: Upgrade\r\n" ++
    ascii "Sec-WebSocket-Key: dGhlIHNhbXBsZSBub25jZQ==\r\n\r\n"

end SolarDrive.Server
