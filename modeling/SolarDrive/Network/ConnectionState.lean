import SolarDrive.Lib.Machine

/-!
# The state of a connection

The loop thread and any number of other threads load, store, exchange and
compare-exchange `state_`. What the loop thread is in the middle of is a stack;
each of its frames ends in one access of the state, after which the rest of what
it called is pushed. The callbacks are code that can send, shut down and close.

Only the loop thread disconnects, so its exchanges agree. The store that
`force_close` makes on another thread after its load can undo one of them.
-/

namespace SolarDrive.Network

inductive ConnState where
  | connecting
  | connected
  | disconnecting
  | disconnected
deriving DecidableEq

/-- What the loop thread does next. -/
inductive Frame where
  | establish
  /-- The connection callback asks whether the state is `kConnected`. -/
  | callback
  /-- It asks whether the state is `kDisconnected`. -/
  | callbackElse
  | closeCallback
  /-- `handle_close`. -/
  | close
  | destroy
  | destroyStore
  | read
  | write
  /-- The end of `handle_write`, when everything is written. -/
  | finishWrite
  | send
  | sendInLoop
  | shutdown
  | shutdownInLoop
  | forceClose
  | forceCloseStore
  /-- The rest of a callback. -/
  | user
deriving DecidableEq

/-- How a read or a write of the socket ends. -/
inductive Outcome where
  /-- With what the callback is told of: data read, or everything written. -/
  | complete
  | partly
  | failure
deriving DecidableEq

structure Connection where
  state : ConnState := .connecting
  loop : List Frame := []
  /-- Other threads between the load and the store of `force_close`. -/
  forcing : Nat := 0
  /-- Tasks that other threads have queued, or are about to. -/
  shutdownTasks : Nat := 0
  forceCloseTasks : Nat := 0
  /-- What the connection callback was invoked with. -/
  invoked : List ConnState := []
  closeCalls : Nat := 0
  /-- The part of this connection in `active_connections`. -/
  active : Int := 0
deriving DecidableEq

inductive ConnEvent where
  /-- The loop thread begins a task or an event of the channel. -/
  | begin (frame : Frame)
  /-- The task of a `shutdown`. -/
  | shutdownTask
  | forceCloseTask
  /-- The next access of the loop thread. -/
  | act (outcome : Outcome)
  /-- A callback calls a function of the connection. -/
  | call (frame : Frame)
  /-- It returns. -/
  | leave
  /-- `shutdown` on another thread. -/
  | shutdown
  | forceCloseLoad
  | forceCloseStore
deriving DecidableEq

/-- The tasks of the server and the callbacks of the channel. -/
def Frame.begins : Frame → Bool
  | .establish | .destroy | .read | .write | .close | .send => true
  | _ => false

def Frame.callable : Frame → Bool
  | .send | .shutdown | .forceClose => true
  | _ => false

namespace Connection

/-- The state is one that a close starts from. -/
def isOpen (q : Connection) : Bool := q.state = .connected || q.state = .disconnecting

/-- One access, by the frame that was on top of the stack. -/
def run (q : Connection) (outcome : Outcome) : Frame → Connection
  | .establish =>
      if q.state = .connecting then
        { q with state := .connected, loop := .callback :: q.loop }
      else q
  | .callback =>
      if q.state = .connected then
        { q with
          invoked := q.invoked ++ [.connected], active := q.active + 1, loop := .user :: q.loop }
      else { q with loop := .callbackElse :: q.loop }
  | .callbackElse =>
      if q.state = .disconnected then
        { q with
          invoked := q.invoked ++ [.disconnected], active := q.active - 1
          loop := .user :: q.loop }
      else q
  | .closeCallback => { q with closeCalls := q.closeCalls + 1 }
  | .close =>
      if q.isOpen then
        { q with state := .disconnected, loop := .callback :: .closeCallback :: q.loop }
      else { q with state := .disconnected }
  | .destroy => if q.isOpen then { q with loop := .destroyStore :: q.loop } else q
  | .destroyStore => { q with state := .disconnected }
  | .read =>
      if q.state = .connected then
        match outcome with
        | .complete => { q with loop := .user :: q.loop }
        | .partly => q
        | .failure => { q with loop := .close :: q.loop }
      else q
  | .write =>
      match outcome with
      | .complete => { q with loop := .user :: .finishWrite :: q.loop }
      | .partly => q
      | .failure => { q with loop := .close :: q.loop }
  | .finishWrite =>
      if q.state = .disconnecting then { q with loop := .shutdownInLoop :: q.loop } else q
  | .send => if q.state = .connected then { q with loop := .sendInLoop :: q.loop } else q
  | .sendInLoop =>
      if q.state = .connected then
        match outcome with
        | .complete => { q with loop := .user :: q.loop }
        | .partly => q
        | .failure => { q with loop := .close :: q.loop }
      else q
  | .shutdown =>
      if q.state = .connected then
        { q with state := .disconnecting, loop := .shutdownInLoop :: q.loop }
      else q
  | .shutdownInLoop => q
  | .forceClose => if q.isOpen then { q with loop := .forceCloseStore :: q.loop } else q
  | .forceCloseStore => { q with state := .disconnecting, loop := .close :: q.loop }
  | .user => q

def step (q : Connection) : ConnEvent → Option Connection
  | .begin frame => if q.loop = [] ∧ Frame.begins frame then some { q with loop := [frame] } else none
  | .shutdownTask =>
      if q.loop = [] ∧ 0 < q.shutdownTasks then
        some { q with loop := [.shutdownInLoop], shutdownTasks := q.shutdownTasks - 1 }
      else none
  | .forceCloseTask =>
      if q.loop = [] ∧ 0 < q.forceCloseTasks then
        some { q with loop := [.close], forceCloseTasks := q.forceCloseTasks - 1 }
      else none
  | .act outcome =>
      match q.loop with
      | [] => none
      | .user :: _ => none
      | frame :: rest => some ({ q with loop := rest }.run outcome frame)
  | .call frame =>
      match q.loop with
      | .user :: _ =>
          if Frame.callable frame then some { q with loop := frame :: q.loop } else none
      | _ => none
  | .leave =>
      match q.loop with
      | .user :: rest => some { q with loop := rest }
      | _ => none
  | .shutdown =>
      if q.state = .connected then
        some { q with state := .disconnecting, shutdownTasks := q.shutdownTasks + 1 }
      else some q
  | .forceCloseLoad => if q.isOpen then some { q with forcing := q.forcing + 1 } else some q
  | .forceCloseStore =>
      if 0 < q.forcing then
        some { q with
          state := .disconnecting, forcing := q.forcing - 1
          forceCloseTasks := q.forceCloseTasks + 1 }
      else none

/-- Another thread stores no state over a disconnected one, and does not begin a
close between the connection and the callback that announces it. -/
def Untorn (q : Connection) (e : ConnEvent) : Prop :=
  (e = .forceCloseStore → q.state ≠ .disconnected) ∧
  (e = .shutdown ∨ e = .forceCloseStore →
    ¬ (q.state = .connected ∧ q.loop.head? = some .callback))

instance (q : Connection) (e : ConnEvent) : Decidable (q.Untorn e) :=
  inferInstanceAs (Decidable ((_ → _ ≠ _) ∧ (_ ∨ _ → ¬ (_ ∧ _))))

/-! ## The story of a connection -/

/-- Frames that come right after the access that pushed them. -/
def loud : Option Frame → Bool
  | some .callback | some .callbackElse | some .forceCloseStore => true
  | _ => false

/-- Frames that wait for a callback to return. -/
def waits : Frame → Bool
  | .user | .finishWrite | .closeCallback => true
  | _ => false

/-- The calls of `close_cb_`, made or to be made. -/
def closes (q : Connection) : Nat := q.closeCalls + q.loop.count .closeCallback

/-- The connection callback is about to be invoked. -/
def announcing (q : Connection) : Prop :=
  q.loop.head? = some .callback ∨ q.loop.head? = some .callbackElse

/-- What has been called, by the state. -/
def Story (q : Connection) : Prop :=
  match q.state with
  | .connecting => q.invoked = [] ∧ q.closes = 0 ∧ loud q.loop.head? = false
  | .connected => q.closes = 0 ∧ ((q.invoked = [] ∧ q.loop.head? = some .callback) ∨
      (q.invoked = [.connected] ∧ q.loop.head? ≠ some .callback ∧
        q.loop.head? ≠ some .callbackElse))
  | .disconnecting => q.closes = 0 ∧ q.invoked = [.connected] ∧ ¬ q.announcing
  | .disconnected => q.loop.head? ≠ some .forceCloseStore ∧
      ((q.closes = 0 ∧ (q.invoked = [] ∨ q.invoked = [.connected]) ∧ ¬ q.announcing) ∨
      (q.closeCalls = 0 ∧ q.loop.count .closeCallback = 1 ∧ q.invoked = [.connected] ∧
        q.announcing) ∨
      (q.closes = 1 ∧ q.invoked = [.connected, .disconnected] ∧ ¬ q.announcing))

structure Told (q : Connection) : Prop where
  story : Story q
  shape : ∀ f ∈ q.loop.tail, waits f = true
  forcing : 0 < q.forcing → q.state ≠ .connecting
  active : q.active = (q.invoked.count .connected : Int) - q.invoked.count .disconnected

section Story

variable {q q' : Connection}

theorem loud_eq_false {f : Option Frame} :
    loud f = false ↔ f ≠ some .callback ∧ f ≠ some .callbackElse ∧ f ≠ some .forceCloseStore := by
  cases f with
  | none => simp [loud]
  | some f => cases f <;> simp [loud]

theorem loud_of_waits {rest : List Frame} (h : ∀ f ∈ rest, waits f = true) :
    loud rest.head? = false := by
  cases rest with
  | nil => rfl
  | cons f rest =>
      have hf := h f List.mem_cons_self
      cases f <;> simp_all [waits, loud]

/-- Nothing is told while the top of the stack is not loud, before and after. -/
theorem Story.quiet (h : Story q) (hloud : loud q.loop.head? = false)
    (hstate : q'.state = q.state) (hinvoked : q'.invoked = q.invoked)
    (hcalls : q'.closeCalls = q.closeCalls) (hcloses : q'.closes = q.closes)
    (hloud' : loud q'.loop.head? = false) : Story q' := by
  unfold Story announcing at h ⊢
  rw [hstate, hinvoked, hcalls, hcloses]
  rw [loud_eq_false] at hloud hloud'
  cases hs : q.state <;> simp_all [loud_eq_false]

end Story

section Steps

variable {q q' : Connection} {frame : Frame} {rest : List Frame} {outcome : Outcome}

/-- A frame that is not loud is replaced by frames that are not, and the state stays. -/
theorem Told.replace (h : Told q) (frames : List Frame) (hloop : q.loop = frame :: rest)
    (hloud : loud (some frame) = false) (hnot : frame ≠ .closeCallback)
    (hnew : q' = { q with loop := frames ++ rest })
    (hhead : loud frames.head? = false) (hcount : frames.count .closeCallback = 0)
    (hwaits : ∀ f ∈ frames.tail, waits f = true) : Told q' := by
  obtain ⟨hstory, hshape, hforcing, hactive⟩ := h
  rw [hloop, List.tail_cons] at hshape
  subst hnew
  have hcloses : closes { q with loop := frames ++ rest } = q.closes := by
    unfold closes
    rw [hloop, List.count_append, hcount, List.count_cons_of_ne hnot, Nat.zero_add]
  constructor
  · refine hstory.quiet ?_ rfl rfl rfl hcloses ?_
    · rw [hloop]
      exact hloud
    · show loud (frames ++ rest).head? = false
      cases frames with
      | nil => exact loud_of_waits hshape
      | cons f frames => exact hhead
  · intro f hf
    have hf : f ∈ (frames ++ rest).tail := hf
    cases frames with
    | nil => exact hshape f (List.mem_of_mem_tail hf)
    | cons f' frames =>
        rcases List.mem_append.mp hf with hf | hf
        · exact hwaits f hf
        · exact hshape f hf
  · exact hforcing
  · exact hactive

theorem Told.run (h : Told q) (hloop : q.loop = frame :: rest) :
    Told ({ q with loop := rest }.run outcome frame) := by
  have hstory := h.story
  have hshape : ∀ f ∈ rest, waits f = true := by
    have hold := h.shape
    rw [hloop] at hold
    exact hold
  have hquiet := loud_eq_false.mp (loud_of_waits hshape)
  unfold Story announcing closes at hstory
  rw [hloop] at hstory
  cases frame with
  | establish =>
      dsimp only [Connection.run]
      split
      · rename_i hstate
        rw [hstate] at hstory
        refine ⟨?_, hshape, nofun, h.active⟩
        simp_all [Story, closes]
      · exact h.replace [] hloop rfl nofun rfl rfl rfl nofun
  | callback =>
      dsimp only [Connection.run]
      split
      · rename_i hstate
        rw [hstate] at hstory
        refine ⟨?_, hshape, h.forcing, ?_⟩
        · simp_all [Story, closes]
        · have hactive := h.active
          simp_all
      · rename_i hstate
        refine ⟨?_, hshape, h.forcing, h.active⟩
        cases hs : q.state <;> simp_all [Story, announcing, closes, loud]
  | callbackElse =>
      dsimp only [Connection.run]
      split
      · rename_i hstate
        rw [hstate] at hstory
        refine ⟨?_, hshape, h.forcing, ?_⟩
        · simp_all [Story, announcing, closes]
        · have hactive := h.active
          simp_all
      · rename_i hstate
        refine ⟨?_, fun f hf => hshape f (List.mem_of_mem_tail hf), h.forcing, h.active⟩
        cases hs : q.state <;> simp_all [loud]
  | closeCallback =>
      refine ⟨?_, fun f hf => hshape f (List.mem_of_mem_tail hf), h.forcing, h.active⟩
      cases hs : q.state <;> simp_all [Connection.run, Story, announcing, closes, loud]
      all_goals omega
  | close =>
      dsimp only [Connection.run]
      split
      · rename_i hopen
        have hopen : q.isOpen = true := hopen
        refine ⟨?_, ?_, fun _ => nofun, h.active⟩
        · cases hs : q.state <;> simp_all [isOpen, Story, announcing, closes, loud]
        · intro f hf
          rcases List.mem_cons.mp hf with rfl | hf
          · rfl
          · exact hshape f hf
      · rename_i hclosed
        have hclosed : ¬ q.isOpen = true := hclosed
        refine ⟨?_, fun f hf => hshape f (List.mem_of_mem_tail hf), fun _ => nofun, h.active⟩
        cases hs : q.state <;> simp_all [isOpen, Story, announcing, closes, loud]
  | destroy =>
      dsimp only [Connection.run]
      split
      · exact h.replace [.destroyStore] hloop rfl nofun rfl rfl rfl nofun
      · exact h.replace [] hloop rfl nofun rfl rfl rfl nofun
  | destroyStore =>
      refine ⟨?_, fun f hf => hshape f (List.mem_of_mem_tail hf), fun _ => nofun, h.active⟩
      cases hs : q.state <;> simp_all [Connection.run, Story, announcing, closes, loud]
  | read =>
      dsimp only [Connection.run]
      split
      · cases outcome with
        | complete => exact h.replace [.user] hloop rfl nofun rfl rfl rfl nofun
        | partly => exact h.replace [] hloop rfl nofun rfl rfl rfl nofun
        | failure => exact h.replace [.close] hloop rfl nofun rfl rfl rfl nofun
      · exact h.replace [] hloop rfl nofun rfl rfl rfl nofun
  | write =>
      cases outcome with
      | complete => exact h.replace [.user, .finishWrite] hloop rfl nofun rfl rfl rfl (by simp [waits])
      | partly => exact h.replace [] hloop rfl nofun rfl rfl rfl nofun
      | failure => exact h.replace [.close] hloop rfl nofun rfl rfl rfl nofun
  | finishWrite =>
      dsimp only [Connection.run]
      split
      · exact h.replace [.shutdownInLoop] hloop rfl nofun rfl rfl rfl nofun
      · exact h.replace [] hloop rfl nofun rfl rfl rfl nofun
  | send =>
      dsimp only [Connection.run]
      split
      · exact h.replace [.sendInLoop] hloop rfl nofun rfl rfl rfl nofun
      · exact h.replace [] hloop rfl nofun rfl rfl rfl nofun
  | sendInLoop =>
      dsimp only [Connection.run]
      split
      · cases outcome with
        | complete => exact h.replace [.user] hloop rfl nofun rfl rfl rfl nofun
        | partly => exact h.replace [] hloop rfl nofun rfl rfl rfl nofun
        | failure => exact h.replace [.close] hloop rfl nofun rfl rfl rfl nofun
      · exact h.replace [] hloop rfl nofun rfl rfl rfl nofun
  | shutdown =>
      dsimp only [Connection.run]
      split
      · rename_i hstate
        have hstate : q.state = .connected := hstate
        refine ⟨?_, hshape, fun _ => nofun, h.active⟩
        simp_all [Story, announcing, closes]
      · exact h.replace [] hloop rfl nofun rfl rfl rfl nofun
  | shutdownInLoop => exact h.replace [] hloop rfl nofun rfl rfl rfl nofun
  | forceClose =>
      dsimp only [Connection.run]
      split
      · rename_i hopen
        have hopen : q.isOpen = true := hopen
        refine ⟨?_, hshape, h.forcing, h.active⟩
        cases hs : q.state <;> simp_all [isOpen, Story, announcing, closes, loud]
      · exact h.replace [] hloop rfl nofun rfl rfl rfl nofun
  | forceCloseStore =>
      refine ⟨?_, hshape, fun _ => nofun, h.active⟩
      cases hs : q.state <;> simp_all [Connection.run, Story, announcing, closes, loud]
  | user => exact h.replace [] hloop rfl nofun rfl rfl rfl nofun

theorem Told.step {e : ConnEvent} (h : Told q) (hcond : Untorn q e)
    (hstep : step q e = some q') : Told q' := by
  have hstory := h.story
  unfold Story announcing closes at hstory
  cases e with
  | begin frame =>
      simp only [Connection.step, Option.ite_none_right_eq_some, Option.some.injEq] at hstep
      obtain ⟨⟨hloop, hbegins⟩, rfl⟩ := hstep
      refine ⟨h.story.quiet (by rw [hloop]; rfl) rfl rfl rfl ?_ ?_, nofun, h.forcing, h.active⟩
      · cases frame <;> simp_all [closes, Frame.begins]
      · cases frame <;> simp_all [loud, Frame.begins]
  | shutdownTask =>
      simp only [Connection.step, Option.ite_none_right_eq_some, Option.some.injEq] at hstep
      obtain ⟨⟨hloop, -⟩, rfl⟩ := hstep
      refine ⟨h.story.quiet (by rw [hloop]; rfl) rfl rfl rfl ?_ rfl, nofun, h.forcing, h.active⟩
      simp [closes, hloop]
  | forceCloseTask =>
      simp only [Connection.step, Option.ite_none_right_eq_some, Option.some.injEq] at hstep
      obtain ⟨⟨hloop, -⟩, rfl⟩ := hstep
      refine ⟨h.story.quiet (by rw [hloop]; rfl) rfl rfl rfl ?_ rfl, nofun, h.forcing, h.active⟩
      simp [closes, hloop]
  | act outcome =>
      unfold Connection.step at hstep
      dsimp only at hstep
      split at hstep
      · cases hstep
      · cases hstep
      · rename_i frame rest hnot hloop
        cases hstep
        exact h.run hloop
  | call frame =>
      unfold Connection.step at hstep
      dsimp only at hstep
      split at hstep
      · rename_i rest hloop
        simp only [Option.ite_none_right_eq_some, Option.some.injEq] at hstep
        obtain ⟨hcallable, rfl⟩ := hstep
        have hshape := h.shape
        refine ⟨h.story.quiet (by rw [hloop]; rfl) rfl rfl rfl ?_ ?_, ?_, h.forcing, h.active⟩
        · cases frame <;> simp_all [closes, Frame.callable]
        · cases frame <;> simp_all [loud, Frame.callable]
        · intro f hf
          have hf : f ∈ q.loop := hf
          rw [hloop] at hf hshape
          rcases List.mem_cons.mp hf with rfl | hf
          · rfl
          · exact hshape f hf
      · cases hstep
  | leave =>
      unfold Connection.step at hstep
      dsimp only at hstep
      split at hstep
      · rename_i rest hloop
        cases hstep
        exact h.replace [] hloop rfl nofun rfl rfl rfl nofun
      · cases hstep
  | shutdown =>
      unfold Connection.step at hstep
      dsimp only at hstep
      split at hstep
      · rename_i hstate
        cases hstep
        have hnot := hcond.2 (Or.inl rfl)
        refine ⟨?_, h.shape, fun _ => nofun, h.active⟩
        simp_all [Story, announcing, closes]
      · cases hstep
        exact h
  | forceCloseLoad =>
      unfold Connection.step at hstep
      dsimp only at hstep
      split at hstep
      · rename_i hopen
        cases hstep
        refine ⟨h.story, h.shape, fun _ hstate => ?_, h.active⟩
        have hstate : q.state = .connecting := hstate
        simp [isOpen, hstate] at hopen
      · cases hstep
        exact h
  | forceCloseStore =>
      simp only [Connection.step, Option.ite_none_right_eq_some, Option.some.injEq] at hstep
      obtain ⟨hforcing, rfl⟩ := hstep
      have hconnecting := h.forcing hforcing
      have hdisconnected := hcond.1 rfl
      have hnot := hcond.2 (Or.inr rfl)
      refine ⟨?_, h.shape, fun _ => nofun, h.active⟩
      cases hs : q.state <;> simp_all [Story, announcing, closes]

/-- A disconnected connection stays disconnected, whatever the loop thread does. -/
theorem run_disconnected (h : Told q) (hloop : q.loop = frame :: rest)
    (hstate : q.state = .disconnected) :
    ({ q with loop := rest }.run outcome frame).state = .disconnected := by
  have hstory := h.story
  unfold Story at hstory
  rw [hstate, hloop] at hstory
  cases frame with
  | forceCloseStore => exact absurd rfl hstory.1
  | read => cases outcome <;> simp [Connection.run, hstate]
  | write => cases outcome <;> simp [Connection.run, hstate]
  | sendInLoop => cases outcome <;> simp [Connection.run, hstate]
  | _ => simp [Connection.run, isOpen, hstate]

theorem stays_disconnected {e : ConnEvent} (h : Told q) (hcond : Untorn q e)
    (hstep : step q e = some q') (hstate : q.state = .disconnected) :
    q'.state = .disconnected := by
  cases e with
  | forceCloseStore => exact absurd hstate (hcond.1 rfl)
  | act outcome =>
      unfold Connection.step at hstep
      dsimp only at hstep
      split at hstep
      · cases hstep
      · cases hstep
      · rename_i frame rest hnot hloop
        cases hstep
        exact run_disconnected h hloop hstate
  | call frame =>
      unfold Connection.step at hstep
      dsimp only at hstep
      split at hstep
      · simp only [Option.ite_none_right_eq_some, Option.some.injEq] at hstep
        obtain ⟨-, rfl⟩ := hstep
        exact hstate
      · cases hstep
  | leave =>
      unfold Connection.step at hstep
      dsimp only at hstep
      split at hstep
      · cases hstep
        exact hstate
      · cases hstep
  | shutdown =>
      unfold Connection.step at hstep
      rw [hstate] at hstep
      cases hstep
      exact hstate
  | forceCloseLoad =>
      unfold Connection.step isOpen at hstep
      rw [hstate] at hstep
      cases hstep
      exact hstate
  | _ =>
      simp only [Connection.step, Option.ite_none_right_eq_some, Option.some.injEq] at hstep
      obtain ⟨-, rfl⟩ := hstep
      exact hstate

/-- The three chapters of the story. -/
theorem Told.invoked (h : Told q) : q.invoked = [] ∨ q.invoked = [.connected] ∨
    q.invoked = [.connected, .disconnected] := by
  have hstory := h.story
  unfold Story at hstory
  cases hs : q.state with
  | connecting =>
      rw [hs] at hstory
      exact Or.inl hstory.1
  | connected =>
      rw [hs] at hstory
      rcases hstory.2 with ⟨hinvoked, -⟩ | ⟨hinvoked, -⟩
      · exact Or.inl hinvoked
      · exact Or.inr (Or.inl hinvoked)
  | disconnecting =>
      rw [hs] at hstory
      exact Or.inr (Or.inl hstory.2.1)
  | disconnected =>
      rw [hs] at hstory
      rcases hstory.2 with ⟨-, hinvoked | hinvoked, -⟩ | ⟨-, -, hinvoked, -⟩ | ⟨-, hinvoked, -⟩
      · exact Or.inl hinvoked
      · exact Or.inr (Or.inl hinvoked)
      · exact Or.inr (Or.inl hinvoked)
      · exact Or.inr (Or.inr hinvoked)

theorem Told.closeCalls (h : Told q) : q.closeCalls = 0 ∨
    (q.closeCalls ≤ 1 ∧ q.invoked = [.connected, .disconnected]) := by
  have hstory := h.story
  unfold Story closes at hstory
  cases hs : q.state with
  | disconnected =>
      rw [hs] at hstory
      rcases hstory.2 with ⟨hnone, -⟩ | ⟨hnone, -⟩ | ⟨hone, hinvoked, -⟩
      · exact Or.inl (by omega)
      · exact Or.inl hnone
      · exact Or.inr ⟨by omega, hinvoked⟩
  | connecting =>
      rw [hs] at hstory
      exact Or.inl (by omega)
  | connected =>
      rw [hs] at hstory
      exact Or.inl (by omega)
  | disconnecting =>
      rw [hs] at hstory
      exact Or.inl (by omega)

end Steps

open Lib.Machine

theorem told_run {es : List ConnEvent} {q : Connection} (hrun : Run step Untorn {} es q) :
    Told q :=
  hrun.invariant (fun _ q => Told q) ⟨⟨rfl, rfl, rfl⟩, nofun, nofun, rfl⟩
    fun h hcond hstep => h.step hcond hstep

/-- While other threads do not tear a close or the first callback, the connection
callback is invoked with `kConnected` and then with `kDisconnected`, each once at
most; the close callback comes after both, once at most; no access leaves
`kDisconnected`, and `active_connections` counts the connection between the two. -/
theorem callbacks_once {es : List ConnEvent} {q : Connection} (hrun : Run step Untorn {} es q) :
    q.invoked <+: [.connected, .disconnected] ∧
    q.closeCalls ≤ 1 ∧ (q.closeCalls = 1 → q.invoked = [.connected, .disconnected]) ∧
    q.active = (if q.invoked = [.connected] then 1 else 0) ∧
    ∀ e q', Untorn q e → step q e = some q' → q.state = .disconnected →
      q'.state = .disconnected := by
  have h := told_run hrun
  have hactive := h.active
  refine ⟨?_, ?_, ?_, ?_, fun e q' hcond hstep hstate => stays_disconnected h hcond hstep hstate⟩
  · rcases h.invoked with hinvoked | hinvoked | hinvoked
    · rw [hinvoked]
      exact List.nil_prefix
    · rw [hinvoked]
      exact ⟨[.disconnected], rfl⟩
    · exact hinvoked ▸ List.prefix_rfl
  · rcases h.closeCalls with hcalls | ⟨hcalls, -⟩
    · omega
    · exact hcalls
  · intro hone
    rcases h.closeCalls with hcalls | ⟨-, hinvoked⟩
    · omega
    · exact hinvoked
  · rcases h.invoked with hinvoked | hinvoked | hinvoked
    · rw [hactive, hinvoked]
      rfl
    · rw [hactive, hinvoked]
      rfl
    · rw [hactive, hinvoked]
      rfl

/-- A connection is established, shut down by another thread while a third one is
in `force_close`, and closed by its peer. -/
theorem callbacks_in_turn : ∃ q, Run step Untorn {}
    [.begin .establish, .act .complete, .act .complete, .leave, .forceCloseLoad, .shutdown,
      .forceCloseStore, .begin .read, .act .complete, .forceCloseTask, .act .complete,
      .act .complete, .act .complete, .leave, .act .complete, .shutdownTask, .act .complete] q ∧
    q.invoked <+: [.connected, .disconnected] ∧ q.closeCalls = 1 ∧
    q.invoked = [.connected, .disconnected] ∧ q.active = 0 := by
  have hexec : exec step (fun q e => decide (q.Untorn e))
      [.begin .establish, .act .complete, .act .complete, .leave, .forceCloseLoad, .shutdown,
      .forceCloseStore, .begin .read, .act .complete, .forceCloseTask, .act .complete,
      .act .complete, .act .complete, .leave, .act .complete, .shutdownTask, .act .complete] {} =
      some { state := .disconnected, invoked := [.connected, .disconnected], closeCalls := 1 } := by
    decide
  have hrun := run_of_exec (fun q e h => of_decide_eq_true h) hexec
  obtain ⟨hbegins, -, htwo, hactive, -⟩ := callbacks_once hrun
  exact ⟨_, hrun, hbegins, rfl, htwo rfl, hactive⟩

/-- Another thread loads `kConnected`, the peer closes, and the thread stores
`kDisconnecting`: its task closes the connection a second time. -/
theorem force_close_tears : ∃ q, Run step (fun _ _ => True) {}
    [.begin .establish, .act .complete, .act .complete, .leave, .forceCloseLoad, .begin .read,
      .act .failure, .act .complete, .act .complete, .act .complete, .leave, .act .complete,
      .forceCloseStore, .forceCloseTask, .act .complete, .act .complete, .act .complete, .leave,
      .act .complete] q ∧
    q.invoked = [.connected, .disconnected, .disconnected] ∧ q.closeCalls = 2 ∧
    q.active = -1 := by
  have hexec : exec step (fun _ _ => true)
      [.begin .establish, .act .complete, .act .complete, .leave, .forceCloseLoad, .begin .read,
      .act .failure, .act .complete, .act .complete, .act .complete, .leave, .act .complete,
      .forceCloseStore, .forceCloseTask, .act .complete, .act .complete, .act .complete, .leave,
      .act .complete] {} =
      some { state := .disconnected, invoked := [.connected, .disconnected, .disconnected]
             closeCalls := 2, active := -1 } := by decide
  exact ⟨_, run_of_exec (fun _ _ _ => trivial) hexec, rfl, rfl, rfl⟩

end Connection

end SolarDrive.Network
