import SolarDrive.Lib.Machine
import SolarDrive.Server.Session

/-!
# The registry and connections that have closed

Closing removes a connection from the session registry, once. So an upgrade may only
register a connection that is open, and stays open when the upgrade is answered:
`Timely` says when that is so, and `registry_alive` that it is enough.
-/

namespace SolarDrive.Server

open Lib Http Network Ws Lib.Machine

namespace Session

variable {σ : Type}

/-- An upgrade is accepted on an open connection, and if its answer is written at once
the write does not fail. -/
def Timely (S : Site σ) (kernel : Kernel) (s : Session σ) (event : SessionEvent σ) : Prop :=
  match event, s.pending with
  | .request, some (req :: _, _) =>
      match S.tryHandleUpgrade req s.world with
      | .accepted key _ => s.conn.state = .connected ∧
          (s.conn.outputBuffer.data = [] →
            kernel s.writes (S.buildUpgradeResponse key).length ≠ .error)
      | _ => True
  | _, _ => True

/-- A closed connection has no entries, and an open one has not been told to have closed. -/
structure Tidy (s : Session σ) : Prop where
  told : s.conn.state = .connected → s.disconnects = 0
  clean : s.conn.state = .disconnected → s.sessions = [] ∧ s.metrics = 0

section Steps

variable {S : Site σ} {kernel : Kernel} {s s' : Session σ}

theorem Tidy.follows (h : Tidy s) (hfollows : Follows s s') : Tidy s' := by
  rcases hfollows.entries with ⟨hstate, hdisconnects, hsessions, hmetrics⟩ |
    ⟨hstate, hsessions, hmetrics⟩
  · refine ⟨fun hopen => ?_, fun hclosed => ?_⟩
    · rw [hdisconnects]
      exact h.told (hstate ▸ hopen)
    · rw [hsessions, hmetrics]
      exact h.clean (hstate ▸ hclosed)
  · refine ⟨fun hopen => ?_, fun _ => ⟨hsessions, hmetrics⟩⟩
    rw [hstate] at hopen
    cases hopen

theorem Tidy.sendResponse {resp : HttpResponse} {keepAlive : Bool} (h : Tidy s)
    (hsteady : Steady s) : Tidy (s.sendResponse S kernel resp keepAlive) := by
  have hasked : Tidy (s.answering keepAlive) := ⟨h.told, h.clean⟩
  exact hasked.follows (follows_send (s := s.answering keepAlive) hsteady _)

/-- The connection is still open when an upgrade registers it. -/
theorem Tidy.upgrade {key : Bytes} {session : Option Bytes} (h : Tidy s) (hsound : Sound s)
    (hopen : s.conn.state = .connected)
    (hwritten : s.conn.outputBuffer.data = [] →
      kernel s.writes (S.buildUpgradeResponse key).length ≠ .error) :
    Tidy (s.upgrade S kernel key session) := by
  have hflow : s.conn.Flowing := by
    rcases hsound.steady with ⟨-, hflow⟩ | ⟨hclosed, -⟩
    · exact hflow
    · rw [hclosed] at hopen
      cases hopen
  have htold := h.told hopen
  rcases send_cases kernel (S.buildUpgradeResponse key) hopen hflow with
    ⟨conn, hsend, hopen', hflow', -⟩ | ⟨conn, hsend, hopen', hempty, hwhy⟩
  · have hnot : conn.state ≠ .disconnected := by
      rw [hopen']
      nofun
    unfold Session.upgrade
    rw [hsend]
    cases session with
    | none =>
        have hregistered : Tidy { s with
            conn
            writes := s.writes + 1
            metrics := s.metrics + 1
            context := .ws [] } := ⟨fun _ => htold, fun hclosed => absurd hclosed hnot⟩
        exact hregistered.follows (follows_send (.inl ⟨hopen', hflow'⟩) _)
    | some uploadId => exact ⟨fun _ => htold, fun hclosed => absurd hclosed hnot⟩
  -- nothing was left, so no response is being closed behind and the write has not failed
  · rcases hwhy with herror | hforce
    · exact absurd herror (hwritten hempty)
    · exact absurd hempty (hsound.draining hopen hforce)

theorem reply_upgrade {req : HttpRequest} {count count' : Nat} {world world' : σ} {key : Bytes}
    {session : Option Bytes}
    (h : S.reply req count world = (.upgrade key session, count', world')) :
    S.tryHandleUpgrade req world = .accepted key session := by
  unfold Site.reply at h
  split at h
  · rename_i hupgrade
    cases h
    exact hupgrade
  · cases h
  · cases h
  · dsimp only at h
    split at h <;> cases h

theorem Tidy.onRequest {req : HttpRequest} {rest : List HttpRequest} {e : Option StoError}
    (h : Tidy s) (hsound : Sound s) (hpending : s.pending = some (req :: rest, e))
    (htimely : Timely S kernel s .request) :
    Tidy ({ s with pending := some (rest, e) }.onRequest S kernel req) := by
  unfold Session.onRequest
  dsimp only
  split
  · rename_i key session count world hreply
    unfold Timely at htimely
    rw [hpending] at htimely
    dsimp only at htimely
    rw [reply_upgrade hreply] at htimely
    exact Tidy.upgrade ⟨h.told, h.clean⟩ ⟨hsound.steady, hsound.draining⟩ htimely.1 htimely.2
  · exact Tidy.sendResponse ⟨h.told, h.clean⟩ hsound.steady
  · exact ⟨h.told, h.clean⟩

theorem Tidy.handleRead {bytes : Bytes} (h : Tidy s) (hsound : Sound s) :
    Tidy (s.handleRead kernel bytes) := by
  unfold Session.handleRead
  split
  · exact h
  · dsimp only
    split
    · exact h.follows (follows_onFrames hsound _)
    · exact ⟨h.told, h.clean⟩
    · exact ⟨h.told, h.clean⟩

theorem Tidy.step {event : SessionEvent σ} (h : Tidy s) (hsound : Sound s)
    (htimely : Timely S kernel s event) (hstep : step S kernel s event = some s') : Tidy s' := by
  obtain ⟨-, hcase⟩ := step_cases hstep
  cases event with
  | read bytes =>
      obtain ⟨-, -, rfl⟩ := hcase
      exact h.handleRead hsound
  | request =>
      obtain ⟨req, rest, e, hpending, rfl⟩ := hcase
      exact h.onRequest hsound hpending htimely
  | fed =>
      obtain ⟨e, -, rfl⟩ := hcase
      exact ⟨h.told, h.clean⟩
  | writable =>
      obtain ⟨-, rfl⟩ := hcase
      exact h.follows (follows_handleWrite hsound.steady)
  | push text =>
      rw [hcase]
      exact h.follows (follows_send hsound.steady text)
  | hangUp =>
      obtain ⟨-, rfl⟩ := hcase
      exact h.follows (follows_handleClose hsound.steady)
  | forceClose =>
      obtain ⟨-, rfl⟩ := hcase
      exact h.follows (follows_forceClose hsound.steady)
  | destroyed =>
      obtain ⟨-, -, rfl⟩ := hcase
      exact ⟨h.told, h.clean⟩
  | unregistered uploadId =>
      rw [hcase]
      refine ⟨h.told, fun hclosed => ?_⟩
      obtain ⟨hsessions, hmetrics⟩ := h.clean hclosed
      exact ⟨by rw [hsessions]; rfl, hmetrics⟩
  | elsewhere world =>
      rw [hcase]
      exact ⟨h.told, h.clean⟩

end Steps

theorem tidy_run {S : Site σ} {kernel : Kernel} {world : σ} {es : List (SessionEvent σ)}
    {s : Session σ} (hrun : Run (step S kernel) (Timely S kernel) { world := world } es s) :
    Sound s ∧ Tidy s :=
  hrun.invariant (fun _ s => Sound s ∧ Tidy s) ⟨sound_established world, fun _ => rfl, nofun⟩
    fun h htimely hstep => ⟨h.1.step hstep, h.2.step h.1 htimely hstep⟩

/-- Once the connection callback has run with `kDisconnected` the connection has no
session and no subscription, in any run whose upgrades are timely. -/
theorem registry_alive {S : Site σ} {kernel : Kernel} {world : σ} {es : List (SessionEvent σ)}
    {s : Session σ} (hrun : Run (step S kernel) (Timely S kernel) { world := world } es s)
    (htold : 0 < s.disconnects) : s.sessions = [] ∧ s.metrics = 0 := by
  obtain ⟨hsound, htidy⟩ := tidy_run hrun
  rcases hsound.steady with ⟨hopen, -⟩ | ⟨hclosed, -⟩
  · rw [htidy.told hopen] at htold
    exact absurd htold (Nat.lt_irrefl 0)
  · exact htidy.clean hclosed

/-- A client subscribes and hangs up. -/
theorem subscriber_removed : ∃ s : Session Unit, Run (step sampleSite takesAll)
    (Timely sampleSite takesAll) { world := () } [.read upgradeText, .request, .fed, .hangUp] s ∧
    s.frames = [] ∧ s.handled.length = 1 ∧ s.sessions = [] ∧ s.metrics = 0 := by
  let check : Session Unit → SessionEvent Unit → Bool := fun s event =>
    match event with
    | .request => s.conn.state = .connected
    | _ => true
  have hcheck : ∀ s event, check s event = true → Timely sampleSite takesAll s event := by
    intro s event hok
    cases event with
    | request =>
        unfold Timely
        split
        · split
          · exact ⟨of_decide_eq_true hok, nofun⟩
          · trivial
        · trivial
    | _ => trivial
  have hrun : (exec (step sampleSite takesAll) check [.read upgradeText, .request, .fed, .hangUp]
      { world := () }).map (fun s => (s.disconnects, s.frames, s.handled.length)) =
      some (1, [], 1) := by decide +kernel
  obtain ⟨s, hexec, hend⟩ := Option.map_eq_some_iff.mp hrun
  simp only [Prod.mk.injEq] at hend
  have h := run_of_exec hcheck hexec
  exact ⟨s, h, hend.2.1, hend.2.2, registry_alive h (by rw [hend.1]; exact Nat.one_pos)⟩

/-- The write of the answer fails, which closes the connection, and the upgrade goes on
to subscribe it. -/
theorem closed_subscribed : ¬ ∀ (kernel : Kernel) (es : List (SessionEvent Unit))
    (s : Session Unit), Run (step sampleSite kernel) (fun _ _ => True) { world := () } es s →
    0 < s.disconnects → s.sessions = [] ∧ s.metrics = 0 := by
  intro h
  have hrun : (exec (step sampleSite fun _ _ => .error) (fun _ _ => true)
      [.read upgradeText, .request, .fed] { world := () }).map
      (fun s => (s.disconnects, s.metrics)) = some (1, 1) := by decide +kernel
  obtain ⟨s, hexec, hend⟩ := Option.map_eq_some_iff.mp hrun
  simp only [Prod.mk.injEq] at hend
  have hclean := h _ _ s (run_of_exec (fun _ _ _ => trivial) hexec)
    (by rw [hend.1]; exact Nat.one_pos)
  rw [hend.2] at hclean
  exact absurd hclean.2 (by decide)

end Session

end SolarDrive.Server
