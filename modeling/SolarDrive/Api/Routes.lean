import SolarDrive.Http.Router

/-!
# The registered routes

The twenty-two routes of `register_api_routes`, in registration order. A
`RouteName` stands for the handler a route calls.
-/

namespace SolarDrive.Api

open Lib Http

inductive RouteName where
  | health
  | metrics
  | register
  | login
  | upload
  | uploadInit
  | uploadPart
  | uploadComplete
  | uploadStatus
  | uploadAbort
  | fileList
  | fileDelete
  | folderList
  | folderCreate
  | folderRename
  | folderDelete
  | fileDownload
  | shareCreate
  | shareSave
  | shareList
  | shareRevoke
  | shareDownload
deriving DecidableEq, Repr

/-- The five routes that need no login. -/
def RouteName.isPublic : RouteName → Bool
  | .health => true
  | .metrics => true
  | .register => true
  | .login => true
  | .shareDownload => true
  | _ => false

def routeTable : List (HttpMethod × Bytes × RouteName) :=
  [(.GET, ascii "/api/v1/health", .health),
    (.GET, ascii "/metrics", .metrics),
    (.POST, ascii "/api/v1/auth/register", .register),
    (.POST, ascii "/api/v1/auth/login", .login),
    (.POST, ascii "/api/v1/upload", .upload),
    (.POST, ascii "/api/v1/upload/init", .uploadInit),
    (.PUT, ascii "/api/v1/upload/{upload_id}/part/{part_num}", .uploadPart),
    (.POST, ascii "/api/v1/upload/{upload_id}/complete", .uploadComplete),
    (.GET, ascii "/api/v1/upload/{upload_id}", .uploadStatus),
    (.DELETE, ascii "/api/v1/upload/{upload_id}", .uploadAbort),
    (.GET, ascii "/api/v1/files", .fileList),
    (.DELETE, ascii "/api/v1/files/{id}", .fileDelete),
    (.GET, ascii "/api/v1/folders", .folderList),
    (.POST, ascii "/api/v1/folders", .folderCreate),
    (.PUT, ascii "/api/v1/folders/{id}", .folderRename),
    (.DELETE, ascii "/api/v1/folders/{id}", .folderDelete),
    (.GET, ascii "/api/v1/files/{id}", .fileDownload),
    (.POST, ascii "/api/v1/share", .shareCreate),
    (.POST, ascii "/api/v1/share/save", .shareSave),
    (.GET, ascii "/api/v1/shares", .shareList),
    (.DELETE, ascii "/api/v1/share/{token}", .shareRevoke),
    (.GET, ascii "/s/{token}", .shareDownload)]

def registerApiRoutes : Option (HttpRouter RouteName) :=
  routeTable.foldlM (fun router r => HttpRouter.addRoute router r.1 r.2.1 r.2.2) []

/-- Every pattern compiles. -/
theorem registerApiRoutes_isSome : registerApiRoutes.isSome = true := by
  unfold registerApiRoutes routeTable
  repeat rw [ascii_ofList]
  decide +kernel

@[irreducible] def apiRouter : HttpRouter RouteName := registerApiRoutes.get registerApiRoutes_isSome

theorem registerApiRoutes_eq : registerApiRoutes = some apiRouter := by
  unfold apiRouter
  exact (Option.some_get _).symm

theorem findRoute_of_registered {method : HttpMethod} {path : Bytes}
    {found : Option (RouteName × List (Bytes × Bytes))}
    (h : registerApiRoutes.map (fun router => router.findRoute method path) = some found) :
    apiRouter.findRoute method path = found := by
  rw [registerApiRoutes_eq] at h
  exact Option.some.inj h

end SolarDrive.Api
