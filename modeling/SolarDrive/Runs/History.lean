import SolarDrive.Metadata.Lookups
import SolarDrive.Runs.UploadDelete

/-!
# Sequential histories

Requests, runs of the collector, the clock and Redis' expiry, one after the
other: each request completes before the next begins.
-/

namespace SolarDrive.Runs

open Lib Http Api Metadata Prog

/-- One request of a route: the answer and the world after it. -/
def serve (svc : Services) (pg : Postgres) (route : RouteName) (req : HttpRequest) (w : World) :
    Except Exn HttpResponse × World :=
  (handler svc route req).run (exec svc pg) w

inductive Action where
  | request (route : RouteName) (req : HttpRequest)
  /-- The maintenance run of the collector. -/
  | collect (batchLimit : Nat)
  | tick (time : Int)
  /-- A key of Redis runs out. -/
  | expire (key : Bytes)

def act (svc : Services) (pg : Postgres) (w : World) : Action → World
  | .request route req => (serve svc pg route req w).2
  | .collect batchLimit => ((collectOrphans batchLimit).run (exec svc pg) w).2
  | .tick time => { w with time }
  | .expire key => redisDel key w

/-- A new installation: no files, no folders, no shares, nothing stored. -/
structure Initial (w : World) : Prop where
  store : ∀ h, w.store h = none
  files : w.files = []
  contents : w.contents = []
  folders : w.folders = []
  shares : w.shares = []
  redis : ∀ key, w.redis key = none

/-- What holds at the start and is kept by every action holds after a history. -/
theorem history_invariant {svc : Services} {pg : Postgres} {Inv : World → Prop} {w : World}
    (h₀ : Inv w) (hstep : ∀ w a, Inv w → Inv (act svc pg w a)) (actions : List Action) :
    Inv (actions.foldl (act svc pg) w) := by
  induction actions generalizing w with
  | nil => exact h₀
  | cons a actions ih => exact ih (hstep w a h₀)

/-- A property of the one run of a program over the world. -/
theorem run_of_wp {svc : Services} {pg : Postgres} {α : Type} {p : App α}
    {Q : Except Exn α → World → Prop} {w : World} (h : p.wp (ofExec (exec svc pg)) Q w) :
    Q (p.run (exec svc pg) w).1 (p.run (exec svc pg) w).2 := wp_ofExec.mp h

/-- Calls that change nothing. -/
theorem run_unchanged {svc : Services} {pg : Postgres} {α : Type} {p : App α} {w : World}
    (hp : p.CallsOnly fun c => ∀ w, (exec svc pg c w).2 = w) : (p.run (exec svc pg) w).2 = w := by
  have hsame : p.wp (ofExec (exec svc pg)) (fun _ w' => w' = w) w := by
    refine wp_of_callsOnly (fun w' => w' = w) ?_ hp rfl
    rintro w₁ c hc rfl
    refine ⟨trivial, fun r w' hexec => ?_⟩
    exact (congrArg Prod.snd hexec).symm.trans (hc w₁)
  exact run_of_wp hsame

/-! ### A new installation -/

def bobId : Uuid where
  text := ascii "b0000000-0000-4000-8000-000000000000"
  isText := by decide +kernel

/-- Alice and Bob have registered, and nothing else has happened. -/
def twoUsers : World where
  store _ := none
  files := []
  contents := []
  folders := []
  shares := []
  users := [{ id := aliceId, username := ascii "alice", passwordHash := [] },
    { id := bobId, username := ascii "bob", passwordHash := [] }]
  redis _ := none
  time := 0
  draws n := n
  uuids n := sampleId ⟨n % 8, Nat.mod_lt n (by decide)⟩

theorem twoUsers_initial : Initial twoUsers := ⟨fun _ => rfl, rfl, rfl, rfl, rfl, fun _ => rfl⟩

def uploadBy (user : Uuid) (name : String) (body : Bytes) : Action :=
  .request .upload
    { body, authUserId := user.text, headers := [(ascii "X-File-Name", ascii name)] }

/-- The start of an upload, with this document. -/
def initBy (user : Uuid) (document : Bytes) : Action :=
  .request .uploadInit { body := document, authUserId := user.text }

def partBy (user : Uuid) (uploadId : String) (part : Nat) (body : Bytes) : Action :=
  .request .uploadPart
    { body, authUserId := user.text
      pathParams := [(ascii "upload_id", ascii uploadId), (ascii "part_num", decimal part)] }

def completeBy (user : Uuid) (uploadId : String) : Action :=
  .request .uploadComplete
    { authUserId := user.text, pathParams := [(ascii "upload_id", ascii uploadId)] }

def deleteBy (user file : Uuid) : Action :=
  .request .fileDelete { authUserId := user.text, pathParams := [(ascii "id", file.text)] }

end SolarDrive.Runs
