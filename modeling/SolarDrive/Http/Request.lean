import SolarDrive.Lib.Bytes

/-!
# HTTP requests

`HttpRequest` is filled in by the parser, completed by the router (path
parameters) and by the request callback (the authenticated user), and read
by the handlers. The header map is an association list: `addHeader`
overwrites, as `headers_[key] = val` does.
-/

namespace SolarDrive.Http

open Lib

inductive HttpMethod where
  | GET
  | POST
  | PUT
  | DELETE
  | UNKNOWN
deriving DecidableEq, Repr

structure HttpRequest where
  method : HttpMethod := .UNKNOWN
  path : Bytes := []
  query : Bytes := []
  version : Bytes := []
  headers : List (Bytes × Bytes) := []
  pathParams : List (Bytes × Bytes) := []
  body : Bytes := []
  authUserId : Bytes := []
  authUsername : Bytes := []
deriving DecidableEq, Repr

namespace HttpRequest

def addHeader (r : HttpRequest) (key val : Bytes) : HttpRequest :=
  { r with headers := setKey key val r.headers }

/-- The value of a header, the empty string when there is none. -/
def getHeader (r : HttpRequest) (key : Bytes) : Bytes :=
  (r.headers.lookup key).getD []

/-- Case-insensitive lookup. The list stands for the map in the order in which it is iterated,
which is not the order of insertion. -/
def getHeaderIc (r : HttpRequest) (key : Bytes) : Bytes :=
  ((r.headers.find? fun h => h.1.map toLower == key.map toLower).map Prod.snd).getD []

def clearPathParams (r : HttpRequest) : HttpRequest := { r with pathParams := [] }

def setPathParam (r : HttpRequest) (key val : Bytes) : HttpRequest :=
  { r with pathParams := setKey key val r.pathParams }

def getPathParam (r : HttpRequest) (key : Bytes) : Bytes :=
  (r.pathParams.lookup key).getD []

def setAuthUser (r : HttpRequest) (userId username : Bytes) : HttpRequest :=
  { r with authUserId := userId, authUsername := username }

def hasAuthUser (r : HttpRequest) : Bool := !r.authUserId.isEmpty

end HttpRequest

end SolarDrive.Http
