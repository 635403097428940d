import SolarDrive.Lib.Machine
import SolarDrive.Server.Session

/-!
# A connection that is to be closed

The response that ends a connection leaves the closing to its write-complete
callback, which runs inside `send` or much later. Nothing stops the parser in
between: requests that have come with the last one, or come while its response
waits, are served, and their responses replace the callback. `Final` says that no
such request comes, and `closes_behind` that the connection then closes as it should.
-/

namespace SolarDrive.Server

open Lib Http Network Ws Lib.Machine

namespace Session

variable {σ : Type}

/-- A request that ends the connection is the last of its read, and no read after it
completes another one while its response waits. -/
def Final (S : Site σ) (s : Session σ) (event : SessionEvent σ) : Prop :=
  match event, s.pending with
  | .read bytes, _ => s.closing = true → s.conn.state = .connected → s.context = .http →
      (s.parser.deliveries (s.inputBuffer ++ bytes)).1 = []
  | .request, some (req :: rest, _) => S.closes req s.requestCount s.world = true → rest = []
  | _, _ => True

/-- Nothing is served behind the response that ends the connection, and its callback
stays in place. -/
structure Ending (s : Session σ) : Prop where
  late : s.late = []
  forced : s.closing = true → s.writeComplete = .forceClose
  last : s.closing = true → ∀ rest e, s.pending = some (rest, e) → rest = []

section Steps

variable {S : Site σ} {kernel : Kernel} {s s' : Session σ}

theorem Ending.follows (h : Ending s) (hfollows : Follows s s') : Ending s' := by
  refine ⟨hfollows.late.trans h.late, fun hclosing => ?_, fun hclosing rest e hpending => ?_⟩
  · rw [hfollows.writeComplete]
    exact h.forced (hfollows.closing ▸ hclosing)
  · exact h.last (hfollows.closing ▸ hclosing) rest e (hfollows.pending ▸ hpending)

theorem Ending.upgrade {key : Bytes} {session : Option Bytes} (h : Ending s) (hsound : Sound s) :
    Ending (s.upgrade S kernel key session) := by
  have hsend : Ending (s.send kernel (S.buildUpgradeResponse key)) :=
    h.follows (follows_send hsound.steady _)
  have hsound' : Sound (s.send kernel (S.buildUpgradeResponse key)) := hsound.send
  unfold Session.upgrade
  generalize s.send kernel (S.buildUpgradeResponse key) = sent at hsend hsound'
  cases session with
  | none =>
      have hregistered : Ending { sent with metrics := sent.metrics + 1, context := .ws [] } :=
        ⟨hsend.late, hsend.forced, hsend.last⟩
      exact hregistered.follows (follows_send
        (s := { sent with metrics := sent.metrics + 1, context := .ws [] }) hsound'.steady _)
  | some uploadId => exact ⟨hsend.late, hsend.forced, hsend.last⟩

theorem Ending.sendResponse {resp : HttpResponse} {keepAlive : Bool}
    (h : Ending (s.answering keepAlive)) (hsteady : Steady s) :
    Ending (s.sendResponse S kernel resp keepAlive) :=
  h.follows (follows_send (s := s.answering keepAlive) hsteady _)

theorem Ending.onRequest {req : HttpRequest} {rest : List HttpRequest} {e : Option StoError}
    (h : Ending s) (hsound : Sound s) (hpending : s.pending = some (req :: rest, e))
    (hfinal : Final S s .request) :
    Ending ({ s with pending := some (rest, e) }.onRequest S kernel req) := by
  -- a request is left of the read, so no response has ended the connection yet
  have hserving : s.closing = false := by
    rw [Bool.eq_false_iff]
    intro hclosing
    cases h.last hclosing _ _ hpending
  unfold Final at hfinal
  rw [hpending] at hfinal
  unfold Session.onRequest
  dsimp only
  split
  · refine Ending.upgrade ⟨?_, ?_, ?_⟩ ⟨hsound.steady, hsound.draining⟩
    · rw [hserving]
      exact h.late
    · intro hclosing
      change s.closing = true at hclosing
      rw [hserving] at hclosing
      cases hclosing
    · intro hclosing
      change s.closing = true at hclosing
      rw [hserving] at hclosing
      cases hclosing
  · rename_i resp keepAlive count world hreply
    refine Ending.sendResponse ⟨?_, fun hclosing => ?_, fun hclosing rest' e' hrest => ?_⟩ hsound.steady
    · change (if s.closing = true then s.late ++ [req] else s.late) = []
      rw [hserving]
      exact h.late
    · change (s.closing || !keepAlive) = true at hclosing
      change (if keepAlive = true then WriteComplete.nothing else .forceClose) = .forceClose
      rw [hserving, Bool.false_or, Bool.not_eq_true'] at hclosing
      rw [hclosing]
      rfl
    · change (s.closing || !keepAlive) = true at hclosing
      rw [hserving, Bool.false_or] at hclosing
      have hcloses : S.closes req s.requestCount s.world = true := by
        unfold Site.closes
        rw [hreply]
        exact hclosing
      cases hrest
      exact hfinal hcloses
  · refine ⟨?_, h.forced, fun hclosing => ?_⟩
    · rw [hserving]
      exact h.late
    · change s.closing = true at hclosing
      rw [hserving] at hclosing
      cases hclosing

theorem Ending.handleRead {bytes : Bytes} (h : Ending s) (hsound : Sound s)
    (hpending : s.pending = none) (hfinal : Final S s (.read bytes)) :
    Ending (s.handleRead kernel bytes) := by
  unfold Session.handleRead
  split
  · exact h
  · rename_i hconnected
    dsimp only
    split
    · exact h.follows (follows_onFrames hsound _)
    · rename_i hhttp
      refine ⟨h.late, h.forced, fun hclosing rest e hrest => ?_⟩
      have hopen : s.conn.state = .connected := by
        simpa [TcpConnection.isConnected] using hconnected
      have hrest : (s.parser.deliveries (s.inputBuffer ++ bytes)).1 = rest :=
        congrArg Prod.fst (Option.some.inj hrest)
      rw [← hrest]
      exact hfinal hclosing hopen hhttp
    · refine ⟨h.late, h.forced, fun _ rest e hrest => ?_⟩
      change s.pending = some (rest, e) at hrest
      rw [hpending] at hrest
      cases hrest

theorem Ending.step {event : SessionEvent σ} (h : Ending s) (hsound : Sound s)
    (hfinal : Final S s event) (hstep : step S kernel s event = some s') : Ending s' := by
  obtain ⟨-, hcase⟩ := step_cases hstep
  cases event with
  | read bytes =>
      obtain ⟨hpending, -, rfl⟩ := hcase
      exact h.handleRead hsound hpending hfinal
  | request =>
      obtain ⟨req, rest, e, hpending, rfl⟩ := hcase
      exact h.onRequest hsound hpending hfinal
  | fed =>
      obtain ⟨e, -, rfl⟩ := hcase
      exact ⟨h.late, h.forced, nofun⟩
  | writable =>
      obtain ⟨-, rfl⟩ := hcase
      exact h.follows (follows_handleWrite hsound.steady)
  | push text =>
      rw [hcase]
      exact h.follows (follows_send hsound.steady text)
  | hangUp =>
      obtain ⟨-, rfl⟩ := hcase
      exact h.follows (follows_handleClose hsound.steady)
  | forceClose =>
      obtain ⟨-, rfl⟩ := hcase
      exact h.follows (follows_forceClose hsound.steady)
  | destroyed =>
      obtain ⟨-, -, rfl⟩ := hcase
      exact ⟨h.late, h.forced, h.last⟩
  | unregistered uploadId =>
      rw [hcase]
      exact ⟨h.late, h.forced, h.last⟩
  | elsewhere world =>
      rw [hcase]
      exact ⟨h.late, h.forced, h.last⟩

end Steps

theorem ending_run {S : Site σ} {kernel : Kernel} {world : σ} {es : List (SessionEvent σ)}
    {s : Session σ} (hrun : Run (step S kernel) (Final S) { world := world } es s) :
    Sound s ∧ Ending s :=
  hrun.invariant (fun _ s => Sound s ∧ Ending s) ⟨sound_established world, rfl, nofun, nofun⟩
    fun h hfinal hstep => ⟨h.1.step hstep, h.2.step h.1 hfinal hstep⟩

/-- No request is passed on behind a response that ends the connection, and with its
output drained the connection has closed. -/
theorem closes_behind {S : Site σ} {kernel : Kernel} {world : σ} {es : List (SessionEvent σ)}
    {s : Session σ} (hrun : Run (step S kernel) (Final S) { world := world } es s) :
    s.late = [] ∧
      (s.closing = true → s.conn.outputBuffer.data = [] → s.conn.state = .disconnected) := by
  obtain ⟨hsound, hending⟩ := ending_run hrun
  refine ⟨hending.late, fun hclosing hdrained => ?_⟩
  rcases hsound.steady with ⟨hopen, -⟩ | ⟨hclosed, -⟩
  · exact absurd hdrained (hsound.draining hopen (hending.forced hclosing))
  · exact hclosed

/-- The response waits for the socket, and the connection closes behind it. -/
theorem closes_behind_health : ∃ s : Session Unit, Run
    (step sampleSite fun n asked => if n = 0 then .again else .accepted asked) (Final sampleSite)
    { world := () } [.read (healthRequest "close"), .request, .fed, .writable] s ∧
    s.closing = true ∧ s.conn.state = .disconnected := by
  let check : Session Unit → SessionEvent Unit → Bool := fun s event =>
    match event with
    | .read _ => !s.closing
    | .request => (s.pending.map fun p => p.1.length) = some 1
    | _ => true
  have hcheck : ∀ s event, check s event = true → Final sampleSite s event := by
    intro s event hok
    cases event with
    | read bytes =>
        unfold Final
        dsimp only
        intro hclosing
        simp [check, hclosing] at hok
    | request =>
        unfold Final
        split
        · contradiction
        · rename_i req rest e _ hpending
          intro _
          simpa [check, hpending] using hok
        · trivial
    | _ => trivial
  have hrun : (exec (step sampleSite fun n asked => if n = 0 then .again else .accepted asked)
      check [.read (healthRequest "close"), .request, .fed, .writable] { world := () }).map
      (fun s => (s.closing, s.conn.outputBuffer.data)) = some (true, []) := by decide +kernel
  obtain ⟨s, hexec, hend⟩ := Option.map_eq_some_iff.mp hrun
  simp only [Prod.mk.injEq] at hend
  have h := run_of_exec hcheck hexec
  exact ⟨s, h, hend.1, (closes_behind h).2 hend.1 hend.2⟩

/-- A second request has come with the one that ends the connection. It is served, and
its response replaces the callback: all is written and the connection stays open. -/
theorem served_behind_close : ¬ ∀ (kernel : Kernel) (es : List (SessionEvent Unit))
    (s : Session Unit), Run (step sampleSite kernel) (fun _ _ => True) { world := () } es s →
    s.late = [] ∧
      (s.closing = true → s.conn.outputBuffer.data = [] → s.conn.state = .disconnected) := by
  intro h
  have hrun : (exec (step sampleSite fun n _ => if n = 0 then .again else .accepted 4096)
      (fun _ _ => true) [.read (healthRequest "close" ++ healthRequest "keep-alive"), .request,
        .request, .fed, .writable] { world := () }).map
      (fun s => (s.late.length, s.closing, s.conn.outputBuffer.data, s.conn.state)) =
      some (1, true, [], .connected) := by decide +kernel
  obtain ⟨s, hexec, hend⟩ := Option.map_eq_some_iff.mp hrun
  simp only [Prod.mk.injEq] at hend
  obtain ⟨-, hcloses⟩ := h _ _ s (run_of_exec (fun _ _ _ => trivial) hexec)
  have hclosed := hcloses hend.2.1 hend.2.2.1
  rw [hend.2.2.2] at hclosed
  cases hclosed

end Session

end SolarDrive.Server
