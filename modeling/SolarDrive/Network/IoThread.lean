import SolarDrive.Network.LoopTasks

/-!
# An IO thread

`start_loop` starts a thread and sleeps until the thread has published its loop;
the destructor stops the loop and joins the thread. The loop is the machine of
`EventLoop`, here together with the thread that runs it and the one that owns it.
As long as nobody else stops the loop, the handle is good from `start_loop` to the
destructor, and the destructor comes to its end.
-/

namespace SolarDrive.Network

/-- Where the owner is, in `start_loop` or in the destructor. -/
inductive OwnerPlace where
  | idle
  /-- About to take the mutex, for the first time or after a wakeup. -/
  | locking
  /-- With the mutex, at the test of the predicate. -/
  | testing
  | asleep
  /-- Past the wait, about to read `loop_` for the return. -/
  | returning
  /-- `start_loop` has returned a pointer, or null. -/
  | started (pointer : Bool)
  /-- `loop_` is set, and the owner is about to stop the loop. -/
  | stopping
  /-- Between the store of `stop_` and the write to the eventfd. -/
  | waking
  | joining
  | joined
  /-- `loop_` is null, and a thread that nobody has joined is destroyed. -/
  | terminated
  /-- The eventfd that is written is of a loop that is gone. -/
  | stray
deriving DecidableEq

/-- Where the thread is in `thread_func`. -/
inductive IoPlace where
  | absent
  /-- About to construct the loop. -/
  | constructing
  /-- About to take the mutex with the loop made. -/
  | publishing
  | setting
  /-- In the callback. -/
  | calling
  | looping
  /-- About to take the mutex after the loop. -/
  | clearing
  | erasing
  /-- About to destroy the loop. -/
  | leaving
  | finished
deriving DecidableEq

inductive Side where
  | owner
  | io
deriving DecidableEq

structure IoThread where
  owner : OwnerPlace := .idle
  io : IoPlace := .absent
  mutex : Option Side := none
  /-- `loop_` is not null. -/
  loopSet : Bool := false
  loop : EventLoop := {}
deriving DecidableEq

inductive IoEvent where
  /-- `start_loop` creates the thread. -/
  | start
  | lock (side : Side)
  /-- The predicate of the wait. -/
  | test
  /-- A wakeup that nobody sent. -/
  | stir
  /-- `start_loop` returns. -/
  | answer
  /-- The destructor reads `loop_`. -/
  | destroy
  | setStop
  | wake
  | join
  | construct
  /-- `loop_` is set and the owner notified. -/
  | publish
  /-- A step of the loop, or another thread's call of it. -/
  | loop (e : LoopEvent)
  /-- `loop` has returned. -/
  | finish
  | erase
  /-- The loop is destroyed, and the thread ends. -/
  | leave
deriving DecidableEq

/-- The pointer is not yet set. -/
@[grind]
def IoPlace.before : IoPlace → Bool
  | .absent | .constructing | .publishing | .setting => true
  | _ => false

/-- The pointer is set, and `loop` has not returned. -/
@[grind]
def IoPlace.up : IoPlace → Bool
  | .calling | .looping => true
  | _ => false

/-- There is a loop. -/
@[grind]
def IoPlace.alive : IoPlace → Bool
  | .absent | .constructing | .finished => false
  | _ => true

/-- Calls of other threads. -/
def LoopEvent.isForeign : LoopEvent → Bool
  | .push _ | .wakeup | .requestStop | .wakeupStop => true
  | _ => false

/-- The loop is stopped by this. -/
def LoopEvent.stops : LoopEvent → Bool
  | .requestStop | .wakeupStop | .stopHere => true
  | _ => false

/-- Somebody else than the destructor stops the loop. -/
def IoEvent.stops : IoEvent → Bool
  | .loop e => e.stops
  | _ => false

namespace IoThread

/-- A step of the loop in its thread. -/
def stepLoop (m : IoThread) (e : LoopEvent) : Option IoThread :=
  if e.isForeign then
    if m.io.alive then (m.loop.step e).map fun loop => { m with loop } else none
  else
    match m.io with
    | .calling =>
        (m.loop.step e).map fun loop =>
          { m with loop, io := if e = .enter then .looping else .calling }
    | .looping =>
        if m.loop.phase = .outside then none else (m.loop.step e).map fun loop => { m with loop }
    | _ => none

def step (m : IoThread) : IoEvent → Option IoThread
  | .start =>
      if m.owner = .idle then some { m with owner := .locking, io := .constructing } else none
  | .lock .owner =>
      if m.owner = .locking ∧ m.mutex = none then
        some { m with owner := .testing, mutex := some .owner }
      else none
  | .lock .io =>
      if m.mutex = none then
        match m.io with
        | .publishing => some { m with io := .setting, mutex := some .io }
        | .clearing => some { m with io := .erasing, mutex := some .io }
        | _ => none
      else none
  | .test =>
      if m.owner = .testing then
        some { m with owner := if m.loopSet then .returning else .asleep, mutex := none }
      else none
  | .stir => if m.owner = .asleep then some { m with owner := .locking } else none
  | .answer => if m.owner = .returning then some { m with owner := .started m.loopSet } else none
  | .destroy =>
      match m.owner with
      | .started _ => some { m with owner := if m.loopSet then .stopping else .terminated }
      | _ => none
  | .setStop =>
      if m.owner = .stopping then
        (m.loop.step .requestStop).map fun loop => { m with owner := .waking, loop }
      else none
  | .wake =>
      if m.owner = .waking then
        if m.io.alive then
          (m.loop.step .wakeupStop).map fun loop => { m with owner := .joining, loop }
        else some { m with owner := .stray }
      else none
  | .join =>
      if m.owner = .joining ∧ m.io = .finished then some { m with owner := .joined } else none
  | .construct => if m.io = .constructing then some { m with io := .publishing } else none
  | .publish =>
      if m.io = .setting then
        some { m with
          io := .calling, loopSet := true, mutex := none
          owner := if m.owner = .asleep then .locking else m.owner }
      else none
  | .loop e => m.stepLoop e
  | .finish =>
      if m.io = .looping ∧ m.loop.phase = .outside then some { m with io := .clearing } else none
  | .erase =>
      if m.io = .erasing then some { m with io := .leaving, loopSet := false, mutex := none }
      else none
  | .leave => if m.io = .leaving then some { m with io := .finished } else none

end IoThread

/-- The destructor has set `stop_`. -/
@[grind]
def OwnerPlace.asked : OwnerPlace → Bool
  | .waking | .joining | .joined | .stray => true
  | _ => false

/-- The owner goes on with a pointer it has found. -/
@[grind]
def OwnerPlace.hasPointer : OwnerPlace → Bool
  | .returning | .started _ | .stopping => true
  | _ => false

@[grind →]
theorem OwnerPlace.not_asked {p : OwnerPlace} (h : p.hasPointer = true) : p.asked = false := by
  cases p <;> first | rfl | cases h

theorem IoPlace.not_before {p : IoPlace} (h : p.up = true) : p.before = false := by
  cases p <;> first | rfl | cases h

/-! ## The loop in its thread -/

namespace EventLoop

variable {q q' : EventLoop} {e : LoopEvent}

/-- While nobody stops a loop that runs, it goes on. -/
theorem Moves.goes_on (h : Moves q e q') (he : e.stops = false) (hstop : q.stop = false) :
    q'.stop = false ∧ (q'.phase = .outside ↔ q.phase = .outside ∧ e ≠ .enter) := by
  cases h <;> simp_all [LoopEvent.stops]

theorem Moves.stays_outside (h : Moves q e q') (he : e ≠ .enter) (hphase : q.phase = .outside) :
    q'.phase = .outside := by
  cases h <;> simp_all

/-- A stop that is asked for stays, until the loop is left. -/
theorem Moves.stays_asked (h : Moves q e q') (hstop : q.stop = true) :
    q'.stop = true ∨ q.phase ≠ .outside ∧ q'.phase = .outside := by
  cases h <;> simp_all

theorem Moves.stopping_eq (h : Moves q e q') (he : e.stops = false) : q'.stopping = q.stopping := by
  cases h <;> simp_all [LoopEvent.stops]

/-- The loop does not poll with a stop and without a wakeup. -/
theorem Moves.seen (h : Moves q e q') (he : e.stops = false)
    (hseen : q.stop = true → q.phase = .polling → 0 < q.wakeupFd) :
    q'.stop = true → q'.phase = .polling → 0 < q'.wakeupFd := by
  cases h <;> simp_all [LoopEvent.stops]

theorem Moves.foreign_phase (h : Moves q e q') (he : e.isForeign = true) : q'.phase = q.phase := by
  cases h <;> simp_all [LoopEvent.isForeign]

end EventLoop

namespace IoThread

open EventLoop

/-- What holds of the two threads as long as nobody else stops the loop. -/
structure Sound (m : IoThread) : Prop where
  ownerLock : m.mutex = some .owner ↔ m.owner = .testing
  ioLock : m.mutex = some .io ↔ m.io = .setting ∨ m.io = .erasing
  pointer : m.loopSet = true ↔ m.io.up = true ∨ m.io = .clearing ∨ m.io = .erasing
  absent : m.owner = .idle ↔ m.io = .absent
  waits : m.owner = .asleep → m.loopSet = false
  handle : m.owner.hasPointer = true → m.loopSet = true
  started : ∀ pointer, m.owner = .started pointer → pointer = true
  quiet : m.owner.asked = false → m.loop.stop = false ∧ (m.io.before = true ∨ m.io.up = true)
  entered : m.io.before = true ∨ m.io = .calling → m.loop.phase = .outside
  inside : m.owner.asked = false → m.io = .looping → m.loop.phase ≠ .outside
  asked : m.owner.asked = true → m.io.before = false ∧
    (m.io.up = true → m.loop.stop = true ∨ m.io = .looping ∧ m.loop.phase = .outside)
  announced : m.owner = .waking → 0 < m.loop.stopping
  seen : m.owner ≠ .waking → m.owner ≠ .stray → m.loop.stop = true → m.loop.phase = .polling →
    0 < m.loop.wakeupFd
  live : m.owner ≠ .terminated
  joined : m.owner = .joined → m.io = .finished

theorem sound_new : Sound {} := by
  constructor <;> simp [IoPlace.up, IoPlace.before, OwnerPlace.asked, OwnerPlace.hasPointer]

variable {m m' : IoThread} {e : IoEvent}

/-- Where the owner goes between the start and the stop of the loop, and who holds the mutex
then. -/
inductive OwnerMoves (m : IoThread) : OwnerPlace → Option Side → Prop
  | lock : m.owner = .locking → m.mutex = none → OwnerMoves m .testing (some .owner)
  | found : m.owner = .testing → m.loopSet = true → OwnerMoves m .returning none
  | sleep : m.owner = .testing → m.loopSet = false → OwnerMoves m .asleep none
  | stir : m.owner = .asleep → OwnerMoves m .locking m.mutex
  | answer : m.owner = .returning → OwnerMoves m (.started m.loopSet) m.mutex
  | destroy {pointer : Bool} : m.owner = .started pointer →
      OwnerMoves m (if m.loopSet then .stopping else .terminated) m.mutex
  | join : m.owner = .joining → m.io = .finished → OwnerMoves m .joined m.mutex

section Owner

variable {p : OwnerPlace} {lock : Option Side}

theorem OwnerMoves.asked_eq (h : OwnerMoves m p lock) : p.asked = m.owner.asked := by
  cases h <;> grind

/-- The moves start after the thread has been created, and neither start nor end at the
eventfd. -/
theorem OwnerMoves.apart (h : OwnerMoves m p lock) :
    (m.owner ≠ .idle ∧ m.owner ≠ .waking ∧ m.owner ≠ .stray) ∧ p ≠ .idle ∧ p ≠ .waking := by
  cases h <;> grind

theorem OwnerMoves.locked (h : OwnerMoves m p lock)
    (hlock : m.mutex = some .owner ↔ m.owner = .testing) :
    (lock = some .owner ↔ p = .testing) ∧ (lock = some .io ↔ m.mutex = some .io) := by
  cases h <;> grind

/-- Past the wait the pointer is good. -/
theorem OwnerMoves.good (h : OwnerMoves m p lock) (hhandle : m.owner.hasPointer = true → m.loopSet = true) :
    (p = .asleep → m.loopSet = false) ∧ (p.hasPointer = true → m.loopSet = true) ∧
      (∀ pointer, p = .started pointer → pointer = true) ∧ p ≠ .terminated := by
  cases h <;> grind

theorem OwnerMoves.joins (h : OwnerMoves m p lock) (hp : p = .joined) : m.io = .finished := by
  cases h <;> grind

theorem Sound.owner_moves (h : Sound m) (hmoves : OwnerMoves m p lock) :
    Sound { m with owner := p, mutex := lock } := by
  have hasked := hmoves.asked_eq
  obtain ⟨⟨hidle, hwaking, hstray⟩, hidle', hwaking'⟩ := hmoves.apart
  obtain ⟨hheld, hother⟩ := hmoves.locked h.ownerLock
  obtain ⟨hwaits, hhandle, hstarted, hlive⟩ := hmoves.good h.handle
  exact
    { ownerLock := hheld
      ioLock := hother.trans h.ioLock
      pointer := h.pointer
      absent := iff_of_false hidle' fun habsent => hidle (h.absent.mpr habsent)
      waits := hwaits
      handle := hhandle
      started := hstarted
      quiet := fun hnot => h.quiet (hasked.symm.trans hnot)
      entered := h.entered
      inside := fun hnot => h.inside (hasked.symm.trans hnot)
      asked := fun hyes => h.asked (hasked.symm.trans hyes)
      announced := fun hp => absurd hp hwaking'
      seen := fun _ _ => h.seen hwaking hstray
      live := hlive
      joined := hmoves.joins }

end Owner

/-- The thread is created. -/
theorem Sound.created (h : Sound m) (hidle : m.owner = .idle) :
    Sound { m with owner := .locking, io := .constructing } := by
  have habsent := h.absent.mp hidle
  have hunset : m.loopSet ≠ true := fun hset => by
    rcases h.pointer.mp hset with hup | hio | hio
    · rw [habsent] at hup
      cases hup
    · rw [habsent] at hio
      cases hio
    · rw [habsent] at hio
      cases hio
  have hnot : m.owner.asked = false := by rw [hidle]; rfl
  obtain ⟨hstop, -⟩ := h.quiet hnot
  have houtside := h.entered (.inl (by rw [habsent]; rfl))
  have hfree : m.mutex ≠ some .owner ∧ m.mutex ≠ some .io := by
    constructor
    · rw [Ne, h.ownerLock, hidle]
      simp
    · rw [Ne, h.ioLock, habsent]
      simp
  exact
    { ownerLock := iff_of_false hfree.1 (by simp)
      ioLock := iff_of_false hfree.2 (by simp)
      pointer := iff_of_false hunset (by simp [IoPlace.up])
      absent := by simp
      waits := by simp
      handle := by simp [OwnerPlace.hasPointer]
      started := by simp
      quiet := fun _ => ⟨hstop, .inl rfl⟩
      entered := fun _ => houtside
      inside := by simp
      asked := by simp [OwnerPlace.asked]
      announced := by simp
      seen := fun _ _ hset => by rw [hstop] at hset; cases hset
      live := by simp
      joined := by simp }

/-- The steps of the owner. -/
theorem Sound.owner_step (h : Sound m) (hstep : m.step e = some m')
    (he : e = .start ∨ e = .lock .owner ∨ e = .test ∨ e = .stir ∨ e = .answer ∨ e = .destroy ∨
      e = .join) : Sound m' := by
  rcases he with rfl | rfl | rfl | rfl | rfl | rfl | rfl
  · obtain ⟨hidle, rfl⟩ := Option.ite_none_right_eq_some.mp hstep |>.imp_right Option.some.inj
    exact h.created hidle
  · obtain ⟨hguard, rfl⟩ := Option.ite_none_right_eq_some.mp hstep |>.imp_right Option.some.inj
    exact h.owner_moves (.lock hguard.1 hguard.2)
  · obtain ⟨htesting, rfl⟩ := Option.ite_none_right_eq_some.mp hstep |>.imp_right Option.some.inj
    by_cases hset : m.loopSet = true
    · rw [if_pos hset]
      exact h.owner_moves (.found htesting hset)
    · rw [if_neg hset]
      exact h.owner_moves (.sleep htesting (Bool.eq_false_iff.mpr hset))
  · obtain ⟨hasleep, rfl⟩ := Option.ite_none_right_eq_some.mp hstep |>.imp_right Option.some.inj
    exact h.owner_moves (.stir hasleep)
  · obtain ⟨hreturning, rfl⟩ := Option.ite_none_right_eq_some.mp hstep |>.imp_right Option.some.inj
    exact h.owner_moves (.answer hreturning)
  · rw [step] at hstep
    split at hstep
    · rename_i hstarted
      cases hstep
      exact h.owner_moves (.destroy hstarted)
    · cases hstep
  · obtain ⟨hguard, rfl⟩ := Option.ite_none_right_eq_some.mp hstep |>.imp_right Option.some.inj
    exact h.owner_moves (.join hguard.1 hguard.2)

/-- Where the thread goes outside of its loop, who holds the mutex then, and whether the
pointer is set. -/
inductive IoMoves (m : IoThread) : IoPlace → Option Side → Bool → Prop
  | construct : m.io = .constructing → IoMoves m .publishing m.mutex m.loopSet
  | lock : m.io = .publishing → m.mutex = none → IoMoves m .setting (some .io) m.loopSet
  | publish : m.io = .setting → IoMoves m .calling none true
  | finish : m.io = .looping → m.loop.phase = .outside → IoMoves m .clearing m.mutex m.loopSet
  | relock : m.io = .clearing → m.mutex = none → IoMoves m .erasing (some .io) m.loopSet
  | erase : m.io = .erasing → IoMoves m .leaving none false
  | leave : m.io = .leaving → IoMoves m .finished m.mutex m.loopSet

section Thread

variable {place : IoPlace} {lock : Option Side} {set : Bool}

theorem IoMoves.locked (h : IoMoves m place lock set)
    (hlock : m.mutex = some .io ↔ m.io = .setting ∨ m.io = .erasing) :
    (lock = some .io ↔ place = .setting ∨ place = .erasing) ∧
      (lock = some .owner ↔ m.mutex = some .owner) := by
  cases h <;> grind

theorem IoMoves.pointer (h : IoMoves m place lock set)
    (hpointer : m.loopSet = true ↔ m.io.up = true ∨ m.io = .clearing ∨ m.io = .erasing) :
    (set = true ↔ place.up = true ∨ place = .clearing ∨ place = .erasing) ∧
      (m.loopSet = true → set = true ∨ m.io = .erasing) := by
  cases h <;> grind

/-- The thread is there, and comes neither into its loop nor back before it. -/
theorem IoMoves.forward (h : IoMoves m place lock set) :
    m.io ≠ .absent ∧ place ≠ .absent ∧ m.io ≠ .finished ∧ place ≠ .looping ∧
      (place.before = true → m.io.before = true) ∧ (place.up = true → m.io.before = true) ∧
      (m.io.before = true → place.before = true ∨ place.up = true) ∧
      (m.io.up = true → m.io = .looping ∧ m.loop.phase = .outside) := by
  cases h <;> grind

/-- Until the destructor has asked for the stop, the thread is on its way into the loop. -/
theorem Sound.io_moves (h : Sound m) (hmoves : IoMoves m place lock set) {owner : OwnerPlace}
    (howner : owner = m.owner ∧ (m.owner = .asleep → set = false) ∨
      m.owner = .asleep ∧ owner = .locking) :
    Sound { m with owner, io := place, mutex := lock, loopSet := set } := by
  obtain ⟨hheld, hother⟩ := hmoves.locked h.ioLock
  obtain ⟨hpointer, hkept⟩ := hmoves.pointer h.pointer
  obtain ⟨hthere, hthere', hnotDone, hnotIn, hbefore, hup, hgoes, hleaves⟩ := hmoves.forward
  have hasked : owner.asked = m.owner.asked := by grind
  have hpointers : owner.hasPointer = true → m.owner = owner := by grind
  have hquiet : m.owner.asked = false → m.io.before = true := by
    intro hnot
    refine (h.quiet hnot).2.resolve_right fun hio => ?_
    obtain ⟨hlooping, houtside⟩ := hleaves hio
    exact h.inside hnot hlooping houtside
  exact
    { ownerLock := by
        rw [hother, h.ownerLock]
        grind
      ioLock := hheld
      pointer := hpointer
      absent := by
        refine iff_of_false (fun hidle => ?_) hthere'
        exact hthere (h.absent.mp (by grind))
      waits := by grind
      handle := fun hp => by
        have hbefore' := hquiet (by grind)
        have hset := h.handle (hpointers hp ▸ hp)
        grind
      started := fun pointer hp => h.started pointer (by grind)
      quiet := fun hnot => by
        have hnot' := hasked.symm.trans hnot
        exact ⟨(h.quiet hnot').1, hgoes (hquiet hnot')⟩
      entered := fun hplace => h.entered (.inl (by grind))
      inside := fun _ hplace => absurd hplace hnotIn
      asked := fun hyes => by
        have hnot := (h.asked (hasked.symm.trans hyes)).1
        grind
      announced := fun hwaking => h.announced (by grind)
      seen := fun hwaking hstray => h.seen (by grind) (by grind)
      live := by
        have := h.live
        grind
      joined := fun hjoined => absurd (h.joined (by grind)) hnotDone }

end Thread

/-- The steps of the thread outside of its loop. -/
theorem Sound.io_step (h : Sound m) (hstep : m.step e = some m')
    (he : e = .lock .io ∨ e = .construct ∨ e = .publish ∨ e = .finish ∨ e = .erase ∨ e = .leave) :
    Sound m' := by
  have hstays : m.owner = m.owner ∧ (m.owner = .asleep → m.loopSet = false) := ⟨rfl, h.waits⟩
  rcases he with rfl | rfl | rfl | rfl | rfl | rfl
  · obtain ⟨hfree, hstep⟩ := Option.ite_none_right_eq_some.mp hstep
    split at hstep
    · rename_i hio
      cases hstep
      exact h.io_moves (.lock hio hfree) (.inl hstays)
    · rename_i hio
      cases hstep
      exact h.io_moves (.relock hio hfree) (.inl hstays)
    · cases hstep
  · obtain ⟨hio, rfl⟩ := Option.ite_none_right_eq_some.mp hstep |>.imp_right Option.some.inj
    exact h.io_moves (.construct hio) (.inl hstays)
  · obtain ⟨hio, rfl⟩ := Option.ite_none_right_eq_some.mp hstep |>.imp_right Option.some.inj
    refine h.io_moves (.publish hio) ?_
    by_cases hasleep : m.owner = .asleep
    · exact .inr ⟨hasleep, if_pos hasleep⟩
    · exact .inl ⟨if_neg hasleep, fun hsleeps => absurd hsleeps hasleep⟩
  · obtain ⟨hguard, rfl⟩ := Option.ite_none_right_eq_some.mp hstep |>.imp_right Option.some.inj
    exact h.io_moves (.finish hguard.1 hguard.2) (.inl hstays)
  · obtain ⟨hio, rfl⟩ := Option.ite_none_right_eq_some.mp hstep |>.imp_right Option.some.inj
    exact h.io_moves (.erase hio) (.inl ⟨rfl, fun _ => rfl⟩)
  · obtain ⟨hio, rfl⟩ := Option.ite_none_right_eq_some.mp hstep |>.imp_right Option.some.inj
    exact h.io_moves (.leave hio) (.inl hstays)

/-- The destructor has set the flag, and goes on to the eventfd and past it. -/
theorem Sound.stop_moves (h : Sound m) {p : OwnerPlace} {loop : EventLoop}
    (hfrom : m.owner = .stopping ∨ m.owner = .waking) (hto : p = .waking ∨ p = .joining ∨ p = .stray)
    (hphase : loop.phase = m.loop.phase)
    (hstop : loop.stop = true ∨ m.owner = .waking ∧ loop.stop = m.loop.stop)
    (hannounced : p = .waking → 0 < loop.stopping) (hwritten : p = .joining → 0 < loop.wakeupFd) :
    Sound { m with owner := p, loop } := by
  have hasked : p.asked = true := by grind
  have hbefore : m.io.before = false := by
    rcases hfrom with hstopping | hwaking
    · rcases h.pointer.mp (h.handle (by rw [hstopping]; rfl)) with hup | hio | hio
      · exact IoPlace.not_before hup
      · rw [hio]
        rfl
      · rw [hio]
        rfl
    · exact (h.asked (by rw [hwaking]; rfl)).1
  exact
    { ownerLock := by
        rw [h.ownerLock]
        grind
      ioLock := h.ioLock
      pointer := h.pointer
      absent := by
        refine iff_of_false (by grind) fun hio => ?_
        rw [hio] at hbefore
        cases hbefore
      waits := by grind
      handle := by grind
      started := by grind
      quiet := fun hnot => by
        rw [hasked] at hnot
        cases hnot
      entered := fun hplace => hphase.trans (h.entered hplace)
      inside := fun hnot => by
        rw [hasked] at hnot
        cases hnot
      asked := fun _ => by
        refine ⟨hbefore, fun hup => ?_⟩
        rcases hstop with hset | ⟨hwaking, hsame⟩
        · exact .inl hset
        · rw [hsame, hphase]
          exact (h.asked (by rw [hwaking]; rfl)).2 hup
      announced := hannounced
      seen := fun hwaking hstray _ _ =>
        hwritten ((hto.resolve_left hwaking).resolve_right hstray)
      live := by grind
      joined := by grind }

/-- The destructor stops the loop: first the flag, then the eventfd. -/
theorem Sound.stop_step (h : Sound m) (hstep : m.step e = some m')
    (he : e = .setStop ∨ e = .wake) : Sound m' := by
  rcases he with rfl | rfl
  · obtain ⟨hstopping, hstep⟩ := Option.ite_none_right_eq_some.mp hstep
    obtain ⟨loop, hloop, rfl⟩ := Option.map_eq_some_iff.mp hstep
    cases moves_of_step hloop
    exact h.stop_moves (.inl hstopping) (.inl rfl) rfl (.inl rfl) (fun _ => Nat.succ_pos _) (by simp)
  · obtain ⟨hwaking, hstep⟩ := Option.ite_none_right_eq_some.mp hstep
    split at hstep
    · obtain ⟨loop, hloop, rfl⟩ := Option.map_eq_some_iff.mp hstep
      cases moves_of_step hloop
      exact h.stop_moves (.inr hwaking) (.inr (.inl rfl)) rfl (.inr ⟨hwaking, rfl⟩) (by simp)
        fun _ => Nat.succ_pos _
    · cases hstep
      exact h.stop_moves (.inr hwaking) (.inr (.inr rfl)) rfl (.inr ⟨hwaking, rfl⟩) (by simp)
        (by simp)

/-- Another state of the loop, with the thread where it was or gone into the loop. -/
theorem Sound.with_loop (h : Sound m) {place : IoPlace} {loop : EventLoop}
    (hplace : place = m.io ∨ m.io = .calling ∧ place = .looping)
    (hquiet : m.loop.stop = false → loop.stop = false)
    (hentered : place.before = true ∨ place = .calling → loop.phase = .outside)
    (hinside : m.owner.asked = false → place = .looping → loop.phase ≠ .outside)
    (hasked : m.owner.asked = true → place.up = true →
      loop.stop = true ∨ place = .looping ∧ loop.phase = .outside)
    (hcount : loop.stopping = m.loop.stopping)
    (hseen : (m.loop.stop = true → m.loop.phase = .polling → 0 < m.loop.wakeupFd) →
      loop.stop = true → loop.phase = .polling → 0 < loop.wakeupFd) :
    Sound { m with io := place, loop } := by
  have hup : place.up = m.io.up ∧ place.before = m.io.before := by grind
  have hrest : ∀ other, other ≠ .calling → other ≠ .looping → (place = other ↔ m.io = other) := by
    grind
  exact
    { ownerLock := h.ownerLock
      ioLock := by
        rw [h.ioLock, hrest .setting (by simp) (by simp), hrest .erasing (by simp) (by simp)]
      pointer := by
        rw [h.pointer, hup.1, hrest .clearing (by simp) (by simp), hrest .erasing (by simp) (by simp)]
      absent := h.absent.trans (hrest .absent (by simp) (by simp)).symm
      waits := h.waits
      handle := h.handle
      started := h.started
      quiet := fun hnot => by
        obtain ⟨hstop, hio⟩ := h.quiet hnot
        rw [hup.1, hup.2]
        exact ⟨hquiet hstop, hio⟩
      entered := hentered
      inside := hinside
      asked := fun hyes => ⟨hup.2.trans (h.asked hyes).1, hasked hyes⟩
      announced := fun hwaking => hcount ▸ h.announced hwaking
      seen := fun hwaking hstray => hseen (h.seen hwaking hstray)
      live := h.live
      joined := fun hjoined => (hrest .finished (by simp) (by simp)).mpr (h.joined hjoined) }

/-- The steps of the loop, and what other threads queue. -/
theorem Sound.loop_step (h : Sound m) {e : LoopEvent} (he : e.stops = false)
    (hstep : m.step (.loop e) = some m') : Sound m' := by
  have hstep : m.stepLoop e = some m' := hstep
  unfold stepLoop at hstep
  split at hstep
  · rename_i hforeign
    obtain ⟨-, hstep⟩ := Option.ite_none_right_eq_some.mp hstep
    obtain ⟨loop, hloop, rfl⟩ := Option.map_eq_some_iff.mp hstep
    have hmoves := moves_of_step hloop
    have hphase := hmoves.foreign_phase hforeign
    refine h.with_loop (.inl rfl) (fun hstop => (hmoves.goes_on he hstop).1)
      (fun hplace => hphase.trans (h.entered hplace)) (fun hnot hio => hphase ▸ h.inside hnot hio)
      (fun hyes hup => ?_) (hmoves.stopping_eq he) (hmoves.seen he)
    rcases (h.asked hyes).2 hup with hstop | ⟨hio, houtside⟩
    · refine .inl ((hmoves.stays_asked hstop).resolve_right fun hleft => ?_)
      exact hleft.1 (hphase ▸ hleft.2)
    · exact .inr ⟨hio, hphase.trans houtside⟩
  · split at hstep
    · rename_i hio
      obtain ⟨loop, hloop, rfl⟩ := Option.map_eq_some_iff.mp hstep
      have hmoves := moves_of_step hloop
      have houtside := h.entered (.inr hio)
      have henter : (if e = .enter then IoPlace.looping else .calling) = .looping → e = .enter := by
        grind
      refine h.with_loop (by grind) (fun hstop => (hmoves.goes_on he hstop).1)
        (fun hplace => hmoves.stays_outside (by grind) houtside) (fun hnot hplace hphase => ?_)
        (fun hyes _ => ?_) (hmoves.stopping_eq he) (hmoves.seen he)
      · exact ((hmoves.goes_on he (h.quiet hnot).1).2.mp hphase).2 (henter hplace)
      · rcases (h.asked hyes).2 (by rw [hio]; rfl) with hstop | ⟨hlooping, -⟩
        · exact .inl ((hmoves.stays_asked hstop).resolve_right fun hleft => hleft.1 houtside)
        · rw [hio] at hlooping
          cases hlooping
    · rename_i hio
      obtain ⟨hinside, hstep⟩ := Option.ite_none_left_eq_some.mp hstep
      obtain ⟨loop, hloop, rfl⟩ := Option.map_eq_some_iff.mp hstep
      have hmoves := moves_of_step hloop
      refine h.with_loop (.inl rfl) (fun hstop => (hmoves.goes_on he hstop).1) (by grind)
        (fun hnot _ hphase => ?_) (fun hyes hup => ?_) (hmoves.stopping_eq he) (hmoves.seen he)
      · exact hinside ((hmoves.goes_on he (h.quiet hnot).1).2.mp hphase).1
      · rcases (h.asked hyes).2 hup with hstop | ⟨-, houtside⟩
        · exact (hmoves.stays_asked hstop).imp_right fun hleft => ⟨hio, hleft.2⟩
        · exact absurd houtside hinside
    · cases hstep

theorem Sound.step (h : Sound m) (he : e.stops = false) (hstep : m.step e = some m') : Sound m' := by
  cases e with
  | loop e => exact h.loop_step he hstep
  | setStop => exact h.stop_step hstep (by simp)
  | wake => exact h.stop_step hstep (by simp)
  | lock side =>
      cases side with
      | owner => exact h.owner_step hstep (by simp)
      | io => exact h.io_step hstep (by simp)
  | construct => exact h.io_step hstep (by simp)
  | publish => exact h.io_step hstep (by simp)
  | finish => exact h.io_step hstep (by simp)
  | erase => exact h.io_step hstep (by simp)
  | leave => exact h.io_step hstep (by simp)
  | _ => exact h.owner_step hstep (by simp)

open Lib.Machine

theorem sound_run {es : List IoEvent} (hrun : Run step (fun _ e => e.stops = false) {} es m) :
    Sound m :=
  hrun.invariant (fun _ m => Sound m) sound_new fun h he hstep => h.step he hstep

/-! ## The start -/

/-- The steps of `start_loop`, and those of the thread before its callback. -/
def isStart : IoEvent → Bool
  | .lock _ | .test | .answer | .construct | .publish => true
  | _ => false

/-- The steps left to the owner until `start_loop` returns; the notification pays
for the way back to the predicate. -/
def ownerToStart : OwnerPlace → Nat
  | .locking => 6
  | .testing => 5
  | .asleep => 4
  | .returning => 1
  | _ => 0

/-- The owner is in `start_loop` or past it, and not yet in the destructor. -/
def begun : OwnerPlace → Bool
  | .locking | .testing | .asleep | .returning | .started _ => true
  | _ => false

theorem not_asked_of_begun {p : OwnerPlace} (h : begun p = true) : p.asked = false := by
  cases p <;> first | rfl | cases h

def ioToStart : IoPlace → Nat
  | .constructing => 6
  | .publishing => 5
  | .setting => 4
  | _ => 0

theorem toStart_lt (h : Sound m) (hbegun : begun m.owner = true) (he : isStart e = true)
    (hstep : m.step e = some m') : begun m'.owner = true ∧
      ownerToStart m'.owner + ioToStart m'.io < ownerToStart m.owner + ioToStart m.io := by
  have hquiet := (h.quiet (not_asked_of_begun hbegun)).2
  cases e with
  | lock side =>
      cases side with
      | owner =>
          obtain ⟨hguard, rfl⟩ :=
            Option.ite_none_right_eq_some.mp hstep |>.imp_right Option.some.inj
          rw [hguard.1]
          exact ⟨rfl, Nat.add_lt_add_right (show 5 < 6 by decide) _⟩
      | io =>
          obtain ⟨-, hstep⟩ := Option.ite_none_right_eq_some.mp hstep
          split at hstep
          · rename_i hio
            cases hstep
            rw [hio]
            exact ⟨hbegun, Nat.add_lt_add_left (show 4 < 5 by decide) _⟩
          · rename_i hio
            rw [hio] at hquiet
            rcases hquiet with hnot | hnot <;> cases hnot
          · cases hstep
  | test =>
      obtain ⟨hguard, rfl⟩ := Option.ite_none_right_eq_some.mp hstep |>.imp_right Option.some.inj
      rw [hguard]
      cases m.loopSet with
      | true => exact ⟨rfl, Nat.add_lt_add_right (show 1 < 5 by decide) _⟩
      | false => exact ⟨rfl, Nat.add_lt_add_right (show 4 < 5 by decide) _⟩
  | answer =>
      obtain ⟨hguard, rfl⟩ := Option.ite_none_right_eq_some.mp hstep |>.imp_right Option.some.inj
      rw [hguard]
      exact ⟨rfl, Nat.add_lt_add_right (show 0 < 1 by decide) _⟩
  | construct =>
      obtain ⟨hguard, rfl⟩ := Option.ite_none_right_eq_some.mp hstep |>.imp_right Option.some.inj
      rw [hguard]
      exact ⟨hbegun, Nat.add_lt_add_left (show 5 < 6 by decide) _⟩
  | publish =>
      obtain ⟨hguard, rfl⟩ := Option.ite_none_right_eq_some.mp hstep |>.imp_right Option.some.inj
      rw [hguard]
      dsimp only
      split
      · rename_i hasleep
        rw [hasleep]
        exact ⟨rfl, by decide⟩
      · exact ⟨hbegun, Nat.add_lt_add_left (show 0 < 4 by decide) _⟩
  | _ => cases he

/-- With the owner in `start_loop`, one of the two threads can go on. -/
theorem starts (h : Sound m) (hbegun : begun m.owner = true) (howner : ownerToStart m.owner ≠ 0) :
    ∃ e, isStart e = true ∧ m.step e ≠ none := by
  have hquiet := (h.quiet (not_asked_of_begun hbegun)).2
  have hnotErasing : m.io ≠ .erasing := by
    intro hio
    rw [hio] at hquiet
    rcases hquiet with hnot | hnot <;> cases hnot
  have hsetting : m.io = .setting → ∃ e, isStart e = true ∧ m.step e ≠ none :=
    fun hio => ⟨.publish, rfl, by simp [step, hio]⟩
  have hlocked : m.mutex ≠ none → m.owner ≠ .testing → m.io = .setting := by
    intro hmutex htesting
    cases hside : m.mutex with
    | none => exact absurd hside hmutex
    | some side =>
        cases side with
        | owner => exact absurd (h.ownerLock.mp hside) htesting
        | io => exact (h.ioLock.mp hside).resolve_right hnotErasing
  cases hplace : m.owner with
  | locking =>
      by_cases hmutex : m.mutex = none
      · exact ⟨.lock .owner, rfl, by simp [step, hplace, hmutex]⟩
      · exact hsetting (hlocked hmutex (by simp [hplace]))
  | testing => exact ⟨.test, rfl, by simp [step, hplace]⟩
  | asleep =>
      have hunset := h.waits hplace
      have hbefore : m.io.before = true := by
        refine hquiet.resolve_right fun hup => ?_
        rw [h.pointer.mpr (.inl hup)] at hunset
        cases hunset
      cases hio : m.io with
      | absent =>
          rw [h.absent.mpr hio] at hplace
          cases hplace
      | constructing => exact ⟨.construct, rfl, by simp [step, hio]⟩
      | publishing =>
          by_cases hmutex : m.mutex = none
          · exact ⟨.lock .io, rfl, by simp [step, hio, hmutex]⟩
          · exact hsetting (hlocked hmutex (by simp [hplace]))
      | setting => exact hsetting hio
      | _ =>
          rw [hio] at hbefore
          cases hbefore
  | returning => exact ⟨.answer, rfl, by simp [step, hplace]⟩
  | _ =>
      rw [hplace] at howner
      exact absurd rfl howner

/-! ## The stop -/

/-- The loop's own steps, without those that queue. -/
def isTurn : LoopEvent → Bool
  | .enter | .drain | .exchange | .check | .activate _ | .handleRead | .swap | .task | .done => true
  | _ => false

/-- The steps of the destructor once the flag is set, and those of the thread. -/
def isStop : IoEvent → Bool
  | .wake | .join | .lock .io | .finish | .erase | .leave => true
  | .loop e => isTurn e
  | _ => false

/-- The steps left to a loop that is to stop: it may go once through the tasks. -/
def loopToStop (q : EventLoop) : Nat :=
  match q.phase with
  | .outside => 0
  | .draining => if 0 < q.wakeupFd then 3 else 2
  | .starting => 1
  | .atHead => 1
  | .running _ rest => 2 + rest.length
  | .dispatching false => 3 + q.pendingTasks.length
  | .dispatching true => 4 + q.pendingTasks.length
  | .polling => 5 + q.pendingTasks.length

def ioToStop (m : IoThread) : Nat :=
  match m.io with
  | .calling => 9
  | .looping => 5 + loopToStop m.loop
  | .clearing => 4
  | .erasing => 3
  | .leaving => 2
  | _ => 0

/-- A write to the eventfd may cost the drain one more read. -/
def ownerToStop : OwnerPlace → Nat
  | .waking => 3
  | .joining => 1
  | _ => 0

theorem loopToStop_le (q : EventLoop) :
    loopToStop q ≤ 5 + q.pendingTasks.length + (batch q.phase).length := by
  unfold loopToStop batch
  split <;> (try split) <;> simp_all <;> omega

theorem isTurn_own {e : LoopEvent} (he : isTurn e = true) : e.isForeign = false := by
  cases e <;> first | rfl | cases he

theorem enters {q q' : EventLoop} {e : LoopEvent} (h : Moves q e q') (he : isTurn e = true)
    (hphase : q.phase = .outside) : e = .enter ∧ q' = { q with phase := .draining } := by
  cases h <;> simp_all [isTurn]

/-- A turn that starts with a stop asked for leads out of the loop. -/
theorem loopToStop_lt {q q' : EventLoop} {e : LoopEvent} (h : Moves q e q') (he : isTurn e = true)
    (hstop : q.stop = true) (hphase : q.phase ≠ .outside) : loopToStop q' < loopToStop q := by
  cases h with
  | enter houtside => exact absurd houtside hphase
  | drained hdraining hpos => simp [loopToStop, hdraining, hpos]
  | drainEnds hdraining hzero => simp [loopToStop, hdraining, hzero]
  | exchange hstarting => simp [loopToStop, hstarting, hstop]
  | check hhead => simp [loopToStop, hhead, hstop]
  | activate readable hpolling _ => cases readable <;> simp [loopToStop, hpolling]
  | handleRead hdispatching => simp [loopToStop, hdispatching]
  | swap hdispatching => simp [loopToStop, hdispatching]
  | task current t rest hrunning => simp [loopToStop, hrunning]
  | done current hrunning => simp [loopToStop, hrunning]
  | _ => cases he

theorem toStop_lt (h : Sound m) (hasked : m.owner.asked = true) (he : isStop e = true)
    (hstep : m.step e = some m') : m'.owner.asked = true ∧
      ownerToStop m'.owner + m'.ioToStop < ownerToStop m.owner + m.ioToStop := by
  obtain ⟨hnotBefore, hup⟩ := h.asked hasked
  cases e with
  | wake =>
      obtain ⟨hguard, hstep⟩ := Option.ite_none_right_eq_some.mp hstep
      split at hstep
      · obtain ⟨loop, hloop, rfl⟩ := Option.map_eq_some_iff.mp hstep
        cases moves_of_step hloop
        refine ⟨rfl, ?_⟩
        rw [hguard]
        cases hio : m.io with
        | looping =>
            cases hphase : m.loop.phase with
            | draining =>
                simp only [ownerToStop, ioToStop, loopToStop, hphase, hio]
                split <;> split <;> omega
            | dispatching readable =>
                cases readable <;> simp [ownerToStop, ioToStop, loopToStop, hphase, hio]
            | _ => simp [ownerToStop, ioToStop, loopToStop, hphase, hio]
        | _ => simp [ownerToStop, ioToStop, hio]
      · cases hstep
        rw [hguard]
        exact ⟨rfl, Nat.add_lt_add_right (show 0 < 3 by decide) _⟩
  | join =>
      obtain ⟨hguard, rfl⟩ := Option.ite_none_right_eq_some.mp hstep |>.imp_right Option.some.inj
      rw [hguard.1]
      exact ⟨rfl, Nat.add_lt_add_right (show 0 < 1 by decide) _⟩
  | lock side =>
      cases side with
      | owner => cases he
      | io =>
          obtain ⟨-, hstep⟩ := Option.ite_none_right_eq_some.mp hstep
          split at hstep
          · rename_i hio
            rw [hio] at hnotBefore
            cases hnotBefore
          · rename_i hio
            cases hstep
            refine ⟨hasked, Nat.add_lt_add_left ?_ _⟩
            simp [ioToStop, hio]
          · cases hstep
  | finish =>
      obtain ⟨hguard, rfl⟩ := Option.ite_none_right_eq_some.mp hstep |>.imp_right Option.some.inj
      refine ⟨hasked, Nat.add_lt_add_left ?_ _⟩
      simp [ioToStop, loopToStop, hguard.1, hguard.2]
  | erase =>
      obtain ⟨hguard, rfl⟩ := Option.ite_none_right_eq_some.mp hstep |>.imp_right Option.some.inj
      refine ⟨hasked, Nat.add_lt_add_left ?_ _⟩
      simp [ioToStop, hguard]
  | leave =>
      obtain ⟨hguard, rfl⟩ := Option.ite_none_right_eq_some.mp hstep |>.imp_right Option.some.inj
      refine ⟨hasked, Nat.add_lt_add_left ?_ _⟩
      simp [ioToStop, hguard]
  | loop e =>
      have hstep : m.stepLoop e = some m' := hstep
      unfold stepLoop at hstep
      rw [if_neg (by simp [isTurn_own he])] at hstep
      split at hstep
      · rename_i hio
        obtain ⟨loop, hloop, rfl⟩ := Option.map_eq_some_iff.mp hstep
        refine ⟨hasked, Nat.add_lt_add_left ?_ _⟩
        obtain ⟨rfl, rfl⟩ := enters (moves_of_step hloop) he (h.entered (.inr hio))
        simp only [ioToStop, loopToStop, hio, if_true]
        split <;> omega
      · rename_i hio
        obtain ⟨hinside, hstep⟩ := Option.ite_none_left_eq_some.mp hstep
        obtain ⟨loop, hloop, rfl⟩ := Option.map_eq_some_iff.mp hstep
        refine ⟨hasked, Nat.add_lt_add_left ?_ _⟩
        have hstop := (hup (by rw [hio]; rfl)).resolve_right fun hend => hinside hend.2
        have hless := loopToStop_lt (moves_of_step hloop) he hstop hinside
        simpa [ioToStop, hio] using hless
      · cases hstep
  | _ => cases he

/-- While the owner has not joined, one of the two threads can go on, and the loop
has not only other channels to wait for. -/
theorem stops (h : Sound m) (howner : m.owner = .waking ∨ m.owner = .joining) :
    ∃ e, isStop e = true ∧ e ≠ .loop (.activate false) ∧ m.step e ≠ none := by
  rcases howner with hwaking | hjoining
  · refine ⟨.wake, rfl, by simp, ?_⟩
    have hannounced := h.announced hwaking
    cases halive : m.io.alive <;> simp [step, EventLoop.step, hwaking, halive, hannounced]
  have hasked : m.owner.asked = true := by
    rw [hjoining]
    rfl
  obtain ⟨hnotBefore, hup⟩ := h.asked hasked
  cases hio : m.io with
  | calling =>
      refine ⟨.loop .enter, rfl, by simp, ?_⟩
      simp [step, stepLoop, EventLoop.step, LoopEvent.isForeign, hio, h.entered (.inr hio)]
  | looping =>
      have hloop : ∀ e, isTurn e = true → m.loop.phase ≠ .outside → m.loop.step e ≠ none →
          m.step (.loop e) ≠ none := by
        intro e he hinside hgoes
        show m.stepLoop e ≠ none
        simpa [stepLoop, isTurn_own he, hio, hinside] using hgoes
      cases hphase : m.loop.phase with
      | outside => exact ⟨.finish, rfl, by simp, by simp [step, hio, hphase]⟩
      | draining =>
          refine ⟨.loop .drain, rfl, by simp, hloop _ rfl (by simp [hphase]) ?_⟩
          by_cases hpos : 0 < m.loop.wakeupFd <;> simp [EventLoop.step, hphase, hpos]
      | starting =>
          exact ⟨.loop .exchange, rfl, by simp,
            hloop _ rfl (by simp [hphase]) (by simp [EventLoop.step, hphase])⟩
      | atHead =>
          exact ⟨.loop .check, rfl, by simp,
            hloop _ rfl (by simp [hphase]) (by simp [EventLoop.step, hphase])⟩
      | polling =>
          have hstop := (hup (by rw [hio]; rfl)).resolve_right fun hend => by
            rw [hphase] at hend
            cases hend.2
          have hwritten := h.seen (by simp [hjoining]) (by simp [hjoining]) hstop hphase
          exact ⟨.loop (.activate true), rfl, by simp,
            hloop _ rfl (by simp [hphase]) (by simp [EventLoop.step, hphase, hwritten])⟩
      | dispatching readable =>
          cases readable with
          | true =>
              exact ⟨.loop .handleRead, rfl, by simp,
                hloop _ rfl (by simp [hphase]) (by simp [EventLoop.step, hphase])⟩
          | false =>
              exact ⟨.loop .swap, rfl, by simp,
                hloop _ rfl (by simp [hphase]) (by simp [EventLoop.step, hphase])⟩
      | running current rest =>
          cases rest with
          | nil =>
              exact ⟨.loop .done, rfl, by simp,
                hloop _ rfl (by simp [hphase]) (by simp [EventLoop.step, hphase])⟩
          | cons t rest =>
              exact ⟨.loop .task, rfl, by simp,
                hloop _ rfl (by simp [hphase]) (by simp [EventLoop.step, hphase])⟩
  | clearing =>
      refine ⟨.lock .io, rfl, by simp, ?_⟩
      have hfree : m.mutex = none := by
        cases hmutex : m.mutex with
        | none => rfl
        | some side =>
            cases side with
            | owner =>
                have htesting := h.ownerLock.mp hmutex
                rw [hjoining] at htesting
                cases htesting
            | io =>
                have hheld := h.ioLock.mp hmutex
                rw [hio] at hheld
                rcases hheld with hheld | hheld <;> cases hheld
      simp [step, hio, hfree]
  | erasing => exact ⟨.erase, rfl, by simp, by simp [step, hio]⟩
  | leaving => exact ⟨.leave, rfl, by simp, by simp [step, hio]⟩
  | finished => exact ⟨.join, rfl, by simp, by simp [step, hio, hjoining]⟩
  | _ =>
      rw [hio] at hnotBefore
      cases hnotBefore

/-! ## Runs -/

theorem not_stops_of_isStart (he : isStart e = true) : e.stops = false := by
  cases e <;> first | rfl | cases he

theorem not_stops_of_isStop (he : isStop e = true) : e.stops = false := by
  cases e with
  | loop e => cases e <;> first | rfl | cases he
  | _ => rfl

theorem start_run {work : List IoEvent} (h : Sound m) (hbegun : begun m.owner = true)
    (hwork : Run step (fun _ e => isStart e = true) m work m') :
    Sound m' ∧ begun m'.owner = true ∧
      work.length + (ownerToStart m'.owner + ioToStart m'.io) ≤
        ownerToStart m.owner + ioToStart m.io := by
  induction hwork with
  | nil => exact ⟨h, hbegun, by simp⟩
  | snoc _ he hstep ih =>
      obtain ⟨hsound, hnot, hbound⟩ := ih
      obtain ⟨hnot', hless⟩ := toStart_lt hsound hnot he hstep
      refine ⟨hsound.step (not_stops_of_isStart he) hstep, hnot', ?_⟩
      rw [List.length_append, List.length_singleton]
      omega

theorem stop_run {work : List IoEvent} (h : Sound m) (hasked : m.owner.asked = true)
    (hwork : Run step (fun _ e => isStop e = true) m work m') :
    Sound m' ∧ m'.owner.asked = true ∧
      work.length + (ownerToStop m'.owner + m'.ioToStop) ≤ ownerToStop m.owner + m.ioToStop := by
  induction hwork with
  | nil => exact ⟨h, hasked, by simp⟩
  | snoc _ he hstep ih =>
      obtain ⟨hsound, hyes, hbound⟩ := ih
      obtain ⟨hyes', hless⟩ := toStop_lt hsound hyes he hstep
      refine ⟨hsound.step (not_stops_of_isStop he) hstep, hyes', ?_⟩
      rw [List.length_append, List.length_singleton]
      omega

/-- **`start_loop` returns a loop, and the loop is there until its destructor stops it.** From the
creation of the thread the two have at most twelve steps, and they are only done when
`start_loop` has returned a pointer; the destructor finds it set. -/
theorem start_returns {es : List IoEvent} (hrun : Run step (fun _ e => e.stops = false) {} es m) :
    (∀ pointer, m.owner = .started pointer → pointer = true ∧ m.io.up = true) ∧
      (m.owner = .stopping → m.io.up = true) ∧ m.owner ≠ .terminated ∧
      ∀ work m', begun m.owner = true → Run step (fun _ e => isStart e = true) m work m' →
        work.length ≤ 12 ∧
          ((∀ e, isStart e = true → m'.step e = none) → m'.owner = .started true) := by
  have h := sound_run hrun
  have hup : m.owner.hasPointer = true → m.io.up = true := by
    intro hpointer
    refine ((h.quiet (OwnerPlace.not_asked hpointer)).2).resolve_left fun hbefore => ?_
    have hset := h.pointer.mp (h.handle hpointer)
    cases hio : m.io <;> simp [IoPlace.up, IoPlace.before, hio] at hbefore hset
  refine ⟨fun pointer hstarted => ⟨h.started pointer hstarted, hup (by rw [hstarted]; rfl)⟩,
    fun hstopping => hup (by rw [hstopping]; rfl), h.live, fun work m' hbegun hwork => ?_⟩
  obtain ⟨hsound, hbegun', hbound⟩ := start_run h hbegun hwork
  have howner : ownerToStart m.owner ≤ 6 := by cases m.owner <;> simp [ownerToStart]
  have hio : ioToStart m.io ≤ 6 := by cases m.io <;> simp [ioToStart]
  refine ⟨by omega, fun hstuck => ?_⟩
  have hdone : ownerToStart m'.owner = 0 := by
    refine Nat.eq_zero_of_not_pos fun hleft => ?_
    obtain ⟨e, he, hgoes⟩ := starts hsound hbegun' (Nat.ne_of_gt hleft)
    exact hgoes (hstuck e he)
  cases hplace : m'.owner with
  | started pointer => rw [hsound.started pointer hplace]
  | _ => simp [begun, ownerToStart, hplace] at hbegun' hdone

/-- The owner sleeps when the loop is published. -/
def asleepAtStart : IoThread :=
  { owner := .asleep, io := .constructing }

theorem asleepAtStart_run :
    Run step (fun _ e => e.stops = false) {} [.start, .lock .owner, .test] asleepAtStart := by
  have hexec : exec step (fun _ e => !e.stops) [.start, .lock .owner, .test] {} =
      some asleepAtStart := by decide
  exact run_of_exec (fun _ e he => by simpa using he) hexec

theorem sleeper_started : ∃ m', Run step (fun _ e => isStart e = true) asleepAtStart
    [.construct, .lock .io, .publish, .lock .owner, .test, .answer] m' ∧
      m'.owner = .started true ∧ m'.io.up = true := by
  have hexec : exec step (fun _ e => isStart e)
      [.construct, .lock .io, .publish, .lock .owner, .test, .answer] asleepAtStart =
      some { owner := .started true, io := .calling, loopSet := true } := by decide
  have hwork := run_of_exec (fun _ _ he => he) hexec
  have hall := (start_returns asleepAtStart_run).2.2.2 _ _ rfl hwork
  refine ⟨_, hwork, hall.2 fun e he => ?_, rfl⟩
  cases e with
  | lock side => cases side <;> rfl
  | test => rfl
  | answer => rfl
  | construct => rfl
  | publish => rfl
  | _ => cases he

/-- **The destructor comes to its end.** Once `stop_` is set, the loop runs what it has taken and
what is pending at most, and the two threads are only done when the thread has
ended and is joined; unless the loop was gone before the destructor has written its eventfd. -/
theorem stop_joins {es : List IoEvent} (hrun : Run step (fun _ e => e.stops = false) {} es m)
    (howner : m.owner = .waking ∨ m.owner = .joining) {work : List IoEvent}
    (hwork : Run step (fun _ e => isStop e = true) m work m') :
    work.length ≤ 13 + m.loop.pendingTasks.length + (batch m.loop.phase).length ∧
      ((∀ e, isStop e = true → e ≠ .loop (.activate false) → m'.step e = none) →
        m'.owner = .joined ∧ m'.io = .finished ∨ m'.owner = .stray) := by
  have hasked : m.owner.asked = true := by rcases howner with h | h <;> rw [h] <;> rfl
  obtain ⟨hsound, hasked', hbound⟩ := stop_run (sound_run hrun) hasked hwork
  have hown : ownerToStop m.owner ≤ 3 := by cases m.owner <;> simp [ownerToStop]
  have hio : m.ioToStop ≤ 10 + m.loop.pendingTasks.length + (batch m.loop.phase).length := by
    have hloop := loopToStop_le m.loop
    unfold ioToStop
    split <;> omega
  refine ⟨by omega, fun hstuck => ?_⟩
  have hdone : ¬ (m'.owner = .waking ∨ m'.owner = .joining) := by
    intro hleft
    obtain ⟨e, he, hne, hgoes⟩ := stops hsound hleft
    exact hgoes (hstuck e he hne)
  cases hplace : m'.owner with
  | joined => exact .inl ⟨rfl, hsound.joined hplace⟩
  | stray => exact .inr rfl
  | _ => simp [OwnerPlace.asked, hplace] at hasked' hdone

/-- The loop polls with a task pushed to it when the destructor sets `stop_`. -/
theorem polling_joined : ∃ m m', Run step (fun _ e => e.stops = false) {}
    [.start, .construct, .lock .io, .publish, .lock .owner, .test, .answer, .loop .enter,
      .loop .drain, .loop .exchange, .loop .check, .loop (.push 1), .destroy, .setStop] m ∧
    m.loop.phase = .polling ∧
    Run step (fun _ e => isStop e = true) m
      [.wake, .loop (.activate true), .loop .handleRead, .loop .swap, .loop .task, .loop .done,
        .loop .check, .finish, .lock .io, .erase, .leave, .join] m' ∧
    (m'.owner = .joined ∧ m'.io = .finished ∨ m'.owner = .stray) := by
  have hexec : exec step (fun _ e => !e.stops)
      [.start, .construct, .lock .io, .publish, .lock .owner, .test, .answer, .loop .enter,
        .loop .drain, .loop .exchange, .loop .check, .loop (.push 1), .destroy, .setStop] {} =
      some { owner := .waking, io := .looping, loopSet := true
             loop := { phase := .polling, pendingTasks := [1], stop := true, pushing := 1
                       stopping := 1 } } := by decide
  have hexec' : exec step (fun _ e => isStop e)
      [.wake, .loop (.activate true), .loop .handleRead, .loop .swap, .loop .task, .loop .done,
        .loop .check, .finish, .lock .io, .erase, .leave, .join]
      { owner := .waking, io := .looping, loopSet := true
        loop := { phase := .polling, pendingTasks := [1], stop := true, pushing := 1
                  stopping := 1 } } =
      some { owner := .joined, io := .finished
             loop := { stop := true, pushing := 1 } } := by decide
  have hrun : Run step (fun _ e => e.stops = false) {} _ _ :=
    run_of_exec (fun _ e he => by simpa using he) hexec
  have hwork := run_of_exec (fun _ _ he => he) hexec'
  refine ⟨_, _, hrun, rfl, hwork, (stop_joins hrun (.inl rfl) hwork).2 fun e he _ => ?_⟩
  cases e with
  | wake => rfl
  | join => rfl
  | lock side => cases side <;> rfl
  | finish => rfl
  | erase => rfl
  | leave => rfl
  | loop e => cases e <;> rfl
  | _ => cases he

end IoThread

end SolarDrive.Network
