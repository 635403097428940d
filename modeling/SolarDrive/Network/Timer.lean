import Mathlib.Algebra.Group.Nat.Defs
import Mathlib.Logic.Function.Basic
import Mathlib.Data.List.Sort

/-!
# Timers

The timer objects, the kernel's timerfd and the queue that ties them together.
A timer is named by its sequence number, so that no two timers ever share a
name; `live` says whether the object still exists, and `fault` is raised by any
use of one that does not.

Nanoseconds of the steady clock are integers. The order of timers with the same
expiration is that of their addresses, which can be anything.
-/

namespace SolarDrive.Network

structure Timer where
  expiration : Int
  /-- `interval_` in ticks of the clock; `none` when it is not positive. -/
  interval : Option Int

def Timer.repeats (t : Timer) : Bool := t.interval.isSome

def Timer.restart (t : Timer) (now : Int) : Timer :=
  { t with expiration := now + t.interval.getD 0 }

/-! ## The timerfd -/

structure TimeSpec where
  sec : Int
  nsec : Int

def TimeSpec.nanoseconds (ts : TimeSpec) : Int := ts.sec * 1000000000 + ts.nsec

/-- `time_from_now`; `duration_cast` drops what is less than a microsecond. -/
def timeFromNow (current when : Int) : TimeSpec :=
  let usec := if current < when then (when - current) / 1000 else 100
  { sec := usec / 1000000, nsec := usec % 1000000 * 1000 }

def durationToSpec (ms : Int) : TimeSpec :=
  if ms ≤ 0 then { sec := 0, nsec := 1 } else { sec := ms / 1000, nsec := ms % 1000 * 1000000 }

/-- The next expiry, when there is one, and the interval after it. -/
structure TimerFd where
  next : Option Int := none
  interval : Int := 0

namespace TimerFd

/-- `timerfd_settime`; a zero value disarms. -/
def settime (now : Int) (value interval : TimeSpec) : TimerFd where
  next := if value.nanoseconds = 0 then none else some (now + value.nanoseconds)
  interval := interval.nanoseconds

/-- The clock moves on: an expiry that has passed is followed by the next one of
its interval, or by none. -/
def elapse (now : Int) (fd : TimerFd) : TimerFd :=
  match fd.next with
  | none => fd
  | some n =>
      if now < n then fd
      else if fd.interval = 0 then { fd with next := none }
      else { fd with next := some (n + fd.interval * ((now - n) / fd.interval + 1)) }

end TimerFd

/-! ## The queue -/

/-- Where the allocator puts the timers; no object is at the last address. -/
structure Addresses where
  addr : Nat → Nat
  lt_max : ∀ t, addr t < 2 ^ 64 - 1

abbrev TimerEntry : Type := Int × Nat

/-- What `handle_read` is doing. -/
inductive Phase where
  /-- It is not running. -/
  | idle
  /-- Between two timers of the batch. -/
  | batch (current : Int) (rest : List Nat)
  /-- In the callback of a timer. -/
  | callback (current : Int) (timer : Nat) (rest : List Nat)
deriving DecidableEq

structure TimerQueue where
  timer : Nat → Timer
  /-- `s_num_created_`: the timers with smaller numbers have been allocated. -/
  created : Nat
  live : Nat → Bool
  timers : List TimerEntry
  callingExpiredTimers : Bool
  cancelingTimers : List Nat
  pendingCancelTimers : List Nat
  timerfd : TimerFd
  /-- Timers whose `add_timer_in_loop` is a task of the loop that has not run. -/
  adding : List Nat
  phase : Phase
  clock : Int
  /-- The calls of `reset_timerfd`, the last one first: the clock and the argument. -/
  resets : List (Int × Int)
  /-- A timer was used after its deletion. -/
  fault : Bool

namespace TimerQueue

variable (mem : Addresses) (now : Int)

/-- A member function of the timer is called. -/
def touch (t : Nat) (q : TimerQueue) : TimerQueue := { q with fault := q.fault || !q.live t }

def delete (t : Nat) (q : TimerQueue) : TimerQueue :=
  { q.touch t with live := Function.update q.live t false }

def resetTimerfd (expiration : Int) (q : TimerQueue) : TimerQueue :=
  { q with
    timerfd := .settime now (timeFromNow now expiration) (durationToSpec 0)
    resets := (now, expiration) :: q.resets }

/-- The order of the pairs. -/
def entryLe (a b : TimerEntry) : Prop :=
  a.1 < b.1 ∨ (a.1 = b.1 ∧ mem.addr a.2 ≤ mem.addr b.2)

instance : DecidableRel (entryLe mem) := fun _ _ => inferInstanceAs (Decidable (_ ∨ _ ∧ _))

/-- `std::set::emplace`. -/
def emplace (entry : TimerEntry) (timers : List TimerEntry) : List TimerEntry :=
  if entry ∈ timers then timers else timers.orderedInsert (entryLe mem) entry

/-- `std::set<Timer*>::insert`; the order of the set carries no meaning. -/
def setInsert (t : Nat) (ts : List Nat) : List Nat := if t ∈ ts then ts else t :: ts

def insert (t : Nat) (q : TimerQueue) : TimerQueue :=
  let expiration := (q.timer t).expiration
  let earliestChanged := q.timers.head?.all fun e => expiration < e.1
  let q := { q.touch t with timers := emplace mem (expiration, t) q.timers }
  if earliestChanged then q.resetTimerfd now expiration else q

def addTimerInLoop (t : Nat) (q : TimerQueue) : TimerQueue :=
  if t ∈ q.pendingCancelTimers then
    { q with pendingCancelTimers := q.pendingCancelTimers.erase t }.delete t
  else q.insert mem now t

/-- `if (!timers_.empty()) reset_timerfd(timers_.begin()->first)`. -/
def rearm (q : TimerQueue) : TimerQueue :=
  match q.timers with
  | [] => q
  | e :: _ => q.resetTimerfd now e.1

def cancelInLoop (t : Nat) (q : TimerQueue) : TimerQueue :=
  let q := q.touch t
  let entry : TimerEntry := ((q.timer t).expiration, t)
  if entry ∈ q.timers then
    let earliest := q.timers.head? = some entry
    let q := { q with timers := q.timers.erase entry }
    if q.callingExpiredTimers then { q with cancelingTimers := setInsert t q.cancelingTimers }
    else
      let q := q.delete t
      if earliest then q.rearm now else q
  else if q.callingExpiredTimers then { q with cancelingTimers := setInsert t q.cancelingTimers }
  else { q with pendingCancelTimers := setInsert t q.pendingCancelTimers }

/-- Before the sentry `(when, UINTPTR_MAX)`. -/
def beforeSentry (when : Int) (e : TimerEntry) : Bool :=
  e.1 < when || (e.1 = when && mem.addr e.2 < 2 ^ 64 - 1)

/-- `handle_read` up to its loop: `get_expired`, and the flag. -/
def beginRead (q : TimerQueue) : TimerQueue :=
  { q with
    timers := q.timers.dropWhile (beforeSentry mem now)
    callingExpiredTimers := true
    phase := .batch now ((q.timers.takeWhile (beforeSentry mem now)).map Prod.snd) }

/-- The end of a timer's turn: it starts again or is deleted. -/
def endTurn (current : Int) (t : Nat) (q : TimerQueue) : TimerQueue :=
  let q := q.touch t
  if (q.timer t).repeats ∧ t ∉ q.cancelingTimers then
    { q with timer := Function.update q.timer t ((q.timer t).restart current) }.insert mem now t
  else q.delete t

/-- One turn of the loop over `canceling_timers_`. -/
def sweep (q : TimerQueue) (t : Nat) : TimerQueue :=
  { q.touch t with timers := q.timers.erase ((q.timer t).expiration, t) }.delete t

/-- `handle_read` after its loop. -/
def endRead (q : TimerQueue) : TimerQueue :=
  { q.cancelingTimers.foldl sweep { q with callingExpiredTimers := false, phase := .idle } with
    cancelingTimers := [] }.rearm now

/-- `~TimerQueue`. -/
def destroy (q : TimerQueue) : TimerQueue :=
  (q.timers.map Prod.snd ++ q.pendingCancelTimers ++ q.cancelingTimers).foldl
    (fun q t => q.delete t) q

/-- `new Timer`. -/
def allocate (when : Int) (interval : Option Int) (q : TimerQueue) : TimerQueue :=
  { q with
    timer := Function.update q.timer q.created { expiration := when, interval }
    created := q.created + 1
    live := Function.update q.live q.created true }

end TimerQueue

/-! ## Steps of the loop -/

inductive Event where
  /-- `add_timer` on another thread: the timer is allocated and its task queued. -/
  | submit (when : Int) (interval : Option Int)
  /-- The task of such a timer runs. -/
  | addQueued (timer : Nat)
  /-- `add_timer` on the loop's thread. -/
  | add (when : Int) (interval : Option Int)
  /-- `cancel_in_loop`, called on the loop's thread or run as a task. -/
  | cancel (timer : Nat)
  /-- `handle_read` begins. -/
  | read
  /-- The next timer of the batch is run. -/
  | run (timer : Nat)
  /-- The next timer of the batch has been cancelled. -/
  | skip (timer : Nat)
  /-- The callback returns. -/
  | done
  /-- The batch is over, and `handle_read` returns. -/
  | finish
deriving DecidableEq

/-- The timer that is cancelled. -/
def Event.cancelled : Event → Option Nat
  | .cancel t => some t
  | _ => none

namespace TimerQueue

/-- What happens in an event, at this reading of the clock. -/
def react (mem : Addresses) (now : Int) (q : TimerQueue) : Event → Option TimerQueue
  | .submit when interval =>
      some { q.allocate when interval with adding := q.adding ++ [q.created] }
  | .addQueued t =>
      if q.phase = .idle ∧ t ∈ q.adding then
        some ({ q with adding := q.adding.erase t }.addTimerInLoop mem now t)
      else none
  | .add when interval =>
      match q.phase with
      | .batch _ _ => none
      | _ => some ((q.allocate when interval).addTimerInLoop mem now q.created)
  | .cancel t =>
      match q.phase with
      | .batch _ _ => none
      | _ => if t < q.created then some (q.cancelInLoop now t) else none
  | .read =>
      match q.phase with
      | .idle => some (q.beginRead mem now)
      | _ => none
  | .run t =>
      match q.phase with
      | .batch current (u :: rest) =>
          if u = t ∧ t ∉ q.cancelingTimers then
            some { q.touch t with phase := .callback current t rest }
          else none
      | _ => none
  | .skip t =>
      match q.phase with
      | .batch current (u :: rest) =>
          if u = t ∧ t ∈ q.cancelingTimers then
            some ({ q with phase := .batch current rest }.endTurn mem now current t)
          else none
      | _ => none
  | .done =>
      match q.phase with
      | .callback current t rest =>
          some ({ q with phase := .batch current rest }.endTurn mem now current t)
      | _ => none
  | .finish =>
      match q.phase with
      | .batch _ [] => some (q.endRead now)
      | _ => none

/-- The clock moves on, and then an event happens. The clock does not go back. -/
def step (mem : Addresses) (q : TimerQueue) (e : Int × Event) : Option TimerQueue :=
  if q.clock ≤ e.1 then
    react mem e.1 { q with clock := e.1, timerfd := q.timerfd.elapse e.1 } e.2
  else none

/-- A new queue. -/
def start (clock : Int) : TimerQueue where
  timer _ := { expiration := 0, interval := none }
  created := 0
  live _ := false
  timers := []
  callingExpiredTimers := false
  cancelingTimers := []
  pendingCancelTimers := []
  timerfd := {}
  adding := []
  phase := .idle
  clock
  resets := []
  fault := false

end TimerQueue

end SolarDrive.Network
