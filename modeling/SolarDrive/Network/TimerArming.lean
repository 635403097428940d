import SolarDrive.Network.TimerPlaces

/-!
# When the timerfd is armed

The timerfd follows the last call of `reset_timerfd`, and that call asked for an
expiration no later than any in the queue. So a queue that is not empty is
served, unless the call was made less than a microsecond before its expiration:
the conversion rounds that to zero, which disarms. Nothing else ever disarms,
so the interval of one nanosecond outlasts the last timer.
-/

namespace SolarDrive.Network

/-- `time_from_now` gives zero. -/
def RoundedOff (r : Int × Int) : Prop := r.1 < r.2 ∧ r.2 - r.1 < 1000

instance (r : Int × Int) : Decidable (RoundedOff r) := inferInstanceAs (Decidable (_ ∧ _))

/-- It will have been readable by then. -/
def TimerFd.fires (fd : TimerFd) (later : Int) : Prop := ∃ n ∈ fd.next, n ≤ later

namespace TimerQueue

/-- What the timerfd does, given the calls of `reset_timerfd`. -/
def Timed (clock : Int) (fd : TimerFd) : List (Int × Int) → Prop
  | [] => fd.next = none
  | r :: _ => fd.interval = 1 ∧ (RoundedOff r → fd.next = none) ∧ (¬ RoundedOff r →
      ∃ n, fd.next = some n ∧ clock < n ∧ (n ≤ r.2 ∨ (r.2 ≤ clock ∧ n ≤ clock + 100000)))

/-- The last call was for no later time than any in the queue. -/
def Aimed (timers : List TimerEntry) (resets : List (Int × Int)) : Prop :=
  ∀ e ∈ timers, ∃ r ∈ resets.head?, r.2 ≤ e.1

/-- It was for the first of the queue. -/
def Exact (timers : List TimerEntry) (resets : List (Int × Int)) : Prop :=
  ∀ e ∈ timers.head?, ∃ r ∈ resets.head?, r.2 = e.1

section Clock

variable {clock now : Int} {fd : TimerFd} {resets : List (Int × Int)}

theorem Timed.elapse (h : Timed clock fd resets) (hclock : clock ≤ now) :
    Timed now (fd.elapse now) resets := by
  unfold TimerFd.elapse
  cases resets with
  | nil =>
      have hnone : fd.next = none := h
      rw [hnone]
      exact hnone
  | cons r resets =>
      obtain ⟨hinterval, hoff, hon⟩ := h
      by_cases hr : RoundedOff r
      · rw [hoff hr]
        exact ⟨hinterval, hoff, fun hnot => absurd hr hnot⟩
      · obtain ⟨n, hnext, hfuture, haim⟩ := hon hr
        rw [hnext]
        dsimp only
        rw [if_neg (by omega : ¬ fd.interval = 0)]
        split
        · rename_i hlt
          exact ⟨hinterval, fun hoff => absurd hoff hr, fun _ => ⟨n, hnext, hlt, by omega⟩⟩
        · rename_i hpast
          refine ⟨hinterval, fun hoff => absurd hoff hr, fun _ => ⟨now + 1, ?_, by omega, by omega⟩⟩
          rw [hinterval, Int.ediv_one]
          have heq : n + 1 * (now - n + 1) = now + 1 := by omega
          rw [heq]

theorem timed_settime (now expiration : Int) (resets : List (Int × Int)) :
    Timed now (.settime now (timeFromNow now expiration) (durationToSpec 0))
      ((now, expiration) :: resets) := by
  refine ⟨rfl, fun ⟨hlt, hgap⟩ => ?_, fun hnot => ?_⟩
  · dsimp only at hlt hgap
    have hzero : (expiration - now) / 1000 = 0 := by omega
    simp [TimerFd.settime, timeFromNow, TimeSpec.nanoseconds, hlt, hzero]
  · have hvalue : (timeFromNow now expiration).nanoseconds =
        if now < expiration then (expiration - now) / 1000 * 1000 else 100000 := by
      unfold timeFromNow TimeSpec.nanoseconds
      split <;> dsimp only <;> omega
    unfold RoundedOff at hnot
    dsimp only at hnot
    refine ⟨now + (timeFromNow now expiration).nanoseconds, ?_, ?_, ?_⟩
    · apply if_neg
      rw [hvalue]
      split <;> omega
    · rw [hvalue]
      split <;> omega
    · rw [hvalue]
      dsimp only
      split <;> omega

end Clock

section Insertion

variable {mem : Addresses} {entry e : TimerEntry} {timers rest : List TimerEntry}

theorem mem_emplace (hmem : e ∈ emplace mem entry timers) : e = entry ∨ e ∈ timers := by
  unfold emplace at hmem
  split at hmem
  · exact Or.inr hmem
  · exact (List.mem_orderedInsert _).mp hmem

theorem head_le (hsorted : (e :: rest).Pairwise (entryLe mem)) (hmem : entry ∈ e :: rest) :
    e.1 ≤ entry.1 := by
  rcases List.mem_cons.mp hmem with rfl | hmem
  · exact le_refl _
  · have hle := (List.pairwise_cons.mp hsorted).1 entry hmem
    unfold entryLe at hle
    omega

/-- An entry earlier than all of the queue goes to its front. -/
theorem emplace_first (hsorted : timers.Pairwise (entryLe mem))
    (hfirst : ∀ e ∈ timers.head?, entry.1 < e.1) :
    emplace mem entry timers = entry :: timers := by
  cases timers with
  | nil => rfl
  | cons e rest =>
      have hlt := hfirst e rfl
      have hnot : entry ∉ e :: rest := fun hmem => by
        have hle := head_le hsorted hmem
        omega
      unfold emplace
      have hle : entryLe mem entry e := Or.inl hlt
      rw [if_neg hnot, List.orderedInsert_cons_of_le _ _ hle]

/-- A later one does not change the first expiration. -/
theorem emplace_later (hle : e.1 ≤ entry.1) :
    ∀ e' ∈ (emplace mem entry (e :: rest)).head?, e'.1 = e.1 := by
  intro e' he'
  unfold emplace at he'
  split at he'
  · cases he'
    rfl
  · rw [List.orderedInsert_cons] at he'
    split at he'
    · rename_i hord
      cases he'
      unfold entryLe at hord
      omega
    · cases he'
      rfl

end Insertion

section Operations

variable {mem : Addresses} {now : Int} {q : TimerQueue}

/-- The timerfd is up to date with the calls of `reset_timerfd`, and they with the queue. -/
structure Tracked (now : Int) (q : TimerQueue) : Prop where
  aimed : Aimed q.timers q.resets
  timed : Timed now q.timerfd q.resets

theorem Aimed.of_sublist {timers timers' : List TimerEntry} {resets : List (Int × Int)}
    (h : Aimed timers resets) (hsub : timers'.Sublist timers) : Aimed timers' resets :=
  fun e he => h e (hsub.subset he)

theorem tracked_insert (hsorted : q.timers.Pairwise (entryLe mem)) (h : Tracked now q) (t : Nat) :
    Tracked now (q.insert mem now t) ∧ (Exact q.timers q.resets →
      Exact (q.insert mem now t).timers (q.insert mem now t).resets) := by
  unfold insert
  dsimp only [touch]
  split
  · -- the new timer is the earliest: the descriptor is set for it
    rename_i hearliest
    have hfirst : ∀ e ∈ q.timers.head?, (q.timer t).expiration < e.1 := by
      intro e he
      rw [Option.mem_def.mp he] at hearliest
      simpa using hearliest
    have hemplace : emplace mem ((q.timer t).expiration, t) q.timers =
        ((q.timer t).expiration, t) :: q.timers := emplace_first hsorted hfirst
    rw [hemplace]
    refine ⟨⟨?_, timed_settime _ _ _⟩, fun _ => ?_⟩
    · intro e he
      refine ⟨_, rfl, ?_⟩
      dsimp only
      rcases List.mem_cons.mp he with rfl | he
      · exact le_refl _
      · cases htimers : q.timers with
        | nil =>
            rw [htimers] at he
            cases he
        | cons e' rest =>
            rw [htimers] at he hsorted hfirst
            exact le_trans (le_of_lt (hfirst e' rfl)) (head_le hsorted he)
    · intro e he
      cases he
      exact ⟨_, rfl, rfl⟩
  · -- the descriptor stays set for an entry that is not later
    rename_i hearliest
    cases htimers : q.timers with
    | nil =>
        rw [htimers] at hearliest
        exact absurd rfl hearliest
    | cons e rest =>
        have hle : e.1 ≤ (q.timer t).expiration := by
          rw [htimers] at hearliest
          simpa using hearliest
        have haimed := h.aimed
        rw [htimers] at haimed
        obtain ⟨r, hr, hrle⟩ := haimed e List.mem_cons_self
        refine ⟨⟨?_, h.timed⟩, fun hexact => ?_⟩
        · intro e' he'
          rcases mem_emplace he' with rfl | he'
          · exact ⟨r, hr, le_trans hrle hle⟩
          · exact haimed e' he'
        · intro e' he'
          obtain ⟨r', hr', heq⟩ := hexact e rfl
          exact ⟨r', hr', heq.trans (emplace_later hle e' he').symm⟩

theorem tracked_rearm (hsorted : q.timers.Pairwise (entryLe mem))
    (htimed : Timed now q.timerfd q.resets) :
    Tracked now (q.rearm now) ∧ Exact (q.rearm now).timers (q.rearm now).resets := by
  unfold rearm
  split
  · rename_i htimers
    refine ⟨⟨fun e he => ?_, htimed⟩, fun e he => ?_⟩
    · rw [htimers] at he
      cases he
    · rw [htimers] at he
      cases he
  · rename_i e rest htimers
    rw [htimers] at hsorted
    refine ⟨⟨fun e' he' => ⟨_, rfl, ?_⟩, timed_settime _ _ _⟩, fun e' he' => ⟨_, rfl, ?_⟩⟩
    · have he' : e' ∈ q.timers := he'
      rw [htimers] at he'
      exact head_le hsorted he'
    · have he' : q.timers.head? = some e' := he'
      rw [htimers] at he'
      cases he'
      rfl

/-- Taking out an entry that is not the first. -/
theorem Exact.erase {entry : TimerEntry} {timers : List TimerEntry} {resets : List (Int × Int)}
    (h : Exact timers resets) (hnot : timers.head? ≠ some entry) :
    Exact (timers.erase entry) resets := by
  cases timers with
  | nil => exact h
  | cons e rest =>
      have hne : e ≠ entry := fun heq => hnot (congrArg some heq)
      rw [List.erase_cons_tail (by simpa using hne)]
      exact h

end Operations

section Steps

open Lib.Machine

variable {mem : Addresses} {now clock : Int} {q q' : TimerQueue} {e : Event}

/-- Between two steps of the loop the last call was for the first timer of the queue. -/
def Settled (now : Int) (q : TimerQueue) : Prop :=
  Tracked now q ∧ (q.phase = .idle → Exact q.timers q.resets)

theorem phase_insert (mem : Addresses) (now : Int) (q : TimerQueue) (t : Nat) : (q.insert mem now t).phase = q.phase := by
  unfold insert
  dsimp only
  split <;> rfl

theorem settled_insert (hsorted : q.timers.Pairwise (entryLe mem)) (h : Settled now q) (t : Nat) :
    Settled now (q.insert mem now t) := by
  obtain ⟨htracked, hexact⟩ := h
  obtain ⟨htracked', hexact'⟩ := tracked_insert hsorted htracked t
  rw [← phase_insert mem now q t] at hexact
  exact ⟨htracked', fun hidle => hexact' (hexact hidle)⟩

theorem settled_addTimer (hsorted : q.timers.Pairwise (entryLe mem)) (h : Settled now q)
    (t : Nat) : Settled now (q.addTimerInLoop mem now t) := by
  unfold addTimerInLoop
  split
  · exact ⟨⟨h.1.aimed, h.1.timed⟩, h.2⟩
  · exact settled_insert hsorted h t

theorem settled_cancel (hp : Placed mem q) (h : Settled now q) (t : Nat) :
    Settled now (q.cancelInLoop now t) := by
  obtain ⟨⟨haimed, htimed⟩, hexact⟩ := h
  have hsub : (q.timers.erase ((q.timer t).expiration, t)).Sublist q.timers := List.erase_sublist
  unfold cancelInLoop
  dsimp only [touch]
  split
  · split
    · rename_i hcalling
      exact ⟨⟨haimed.of_sublist hsub, htimed⟩, fun hidle => absurd hidle (hp.calling.mp hcalling)⟩
    · split
      · have hrearm := @tracked_rearm mem now (delete t { q.touch t with
          timers := q.timers.erase ((q.timer t).expiration, t) }) (hp.sorted.sublist hsub) htimed
        exact ⟨hrearm.1, fun _ => hrearm.2⟩
      · rename_i hnot
        exact ⟨⟨haimed.of_sublist hsub, htimed⟩, fun hidle => (hexact hidle).erase hnot⟩
  · split
    · exact ⟨⟨haimed, htimed⟩, hexact⟩
    · exact ⟨⟨haimed, htimed⟩, hexact⟩

theorem settled_endTurn (hsorted : q.timers.Pairwise (entryLe mem)) (h : Settled now q)
    (current : Int) (t : Nat) : Settled now (q.endTurn mem now current t) := by
  unfold endTurn
  dsimp only
  split
  · exact settled_insert (q := { q.touch t with
      timer := Function.update q.timer t ((q.timer t).restart current) }) hsorted
      ⟨⟨h.1.aimed, h.1.timed⟩, h.2⟩ t
  · exact ⟨⟨h.1.aimed, h.1.timed⟩, h.2⟩

theorem Settled.react (hp : Placed mem q) (h : Settled now q)
    (hreact : react mem now q e = some q') : Settled now q' := by
  obtain ⟨⟨haimed, htimed⟩, hexact⟩ := h
  unfold TimerQueue.react at hreact
  cases e with
  | submit when interval =>
      cases hreact
      exact ⟨⟨haimed, htimed⟩, hexact⟩
  | addQueued t =>
      simp only [Option.ite_none_right_eq_some, Option.some.injEq] at hreact
      obtain ⟨-, rfl⟩ := hreact
      exact settled_addTimer (q := { q with adding := q.adding.erase t }) hp.sorted
        ⟨⟨haimed, htimed⟩, hexact⟩ t
  | add when interval =>
      dsimp only at hreact
      split at hreact
      · cases hreact
      · cases hreact
        exact settled_addTimer (q := q.allocate when interval) hp.sorted
          ⟨⟨haimed, htimed⟩, hexact⟩ q.created
  | cancel t =>
      dsimp only at hreact
      split at hreact
      · cases hreact
      · simp only [Option.ite_none_right_eq_some, Option.some.injEq] at hreact
        obtain ⟨-, rfl⟩ := hreact
        exact settled_cancel hp ⟨⟨haimed, htimed⟩, hexact⟩ t
  | read =>
      dsimp only at hreact
      split at hreact
      · cases hreact
        exact ⟨⟨haimed.of_sublist (List.dropWhile_sublist _), htimed⟩, nofun⟩
      · cases hreact
  | run t =>
      dsimp only at hreact
      split at hreact
      · simp only [Option.ite_none_right_eq_some, Option.some.injEq] at hreact
        obtain ⟨-, rfl⟩ := hreact
        exact ⟨⟨haimed, htimed⟩, nofun⟩
      · cases hreact
  | skip t =>
      dsimp only at hreact
      split at hreact
      · rename_i current u rest hphase
        simp only [Option.ite_none_right_eq_some, Option.some.injEq] at hreact
        obtain ⟨-, rfl⟩ := hreact
        exact settled_endTurn (q := { q with phase := .batch current rest }) hp.sorted
          ⟨⟨haimed, htimed⟩, nofun⟩ current t
      · cases hreact
  | done =>
      dsimp only at hreact
      split at hreact
      · rename_i current t rest hphase
        cases hreact
        exact settled_endTurn (q := { q with phase := .batch current rest }) hp.sorted
          ⟨⟨haimed, htimed⟩, nofun⟩ current t
      · cases hreact
  | finish =>
      dsimp only at hreact
      split at hreact
      · cases hreact
        unfold endRead
        obtain ⟨timers', live', fault', hsub, hsweep⟩ := foldl_sweep q.cancelingTimers
          { q with callingExpiredTimers := false, phase := .idle }
        rw [hsweep]
        have hrearm := @tracked_rearm mem now { q with
          callingExpiredTimers := false, phase := .idle, timers := timers', live := live'
          fault := fault', cancelingTimers := [] } (hp.sorted.sublist hsub) htimed
        exact ⟨hrearm.1, fun _ => hrearm.2⟩
      · cases hreact

theorem settled_run {cond : TimerQueue → Int × Event → Prop} {es : List (Int × Event)}
    (hrun : Run (step mem) cond (start clock) es q) :
    Placed mem q ∧ Settled q.clock q := by
  apply hrun.invariant fun _ q => Placed mem q ∧ Settled q.clock q
  · exact ⟨placed_start clock, ⟨nofun, rfl⟩, fun _ => nofun⟩
  · rintro - q q' ⟨now, e⟩ ⟨hp, ⟨haimed, htimed⟩, hexact⟩ - hstep
    have hp' := hp.step hstep
    have hclock : q'.clock = now := by
      obtain ⟨-, fd₀, q₁, fd, rs, -, rfl⟩ := step_cases hp hstep
      rfl
    rw [hclock]
    unfold step at hstep
    split at hstep
    · rename_i hle
      have hmoved := hp.moved hle (q.timerfd.elapse now) q.resets
      have hsettled : Settled now (q.moved now (q.timerfd.elapse now) q.resets) :=
        ⟨⟨haimed, htimed.elapse hle⟩, hexact⟩
      exact ⟨hp', hsettled.react hmoved hstep⟩
    · cases hstep

end Steps

open Lib.Machine

/-- A queue that is not empty has its timerfd armed in time, for its first
expiration or for a hundred microseconds from now when that has passed, exactly
when the last `reset_timerfd` did not round off what was left. A batch may take
the timer it was called for out of the queue; then the delay can be that of one
that had passed, until the batch is over. -/
theorem armed_exactly {mem : Addresses} {clock : Int} {es : List (Int × Event)} {q : TimerQueue}
    {e : TimerEntry} {rest : List TimerEntry}
    (hrun : Run (step mem) (fun _ _ => True) (start clock) es q) (htimers : q.timers = e :: rest) :
    ∃ r ∈ q.resets.head?, ((∃ n, q.timerfd.next = some n ∧
        (n ≤ e.1 ∨ ((e.1 ≤ q.clock ∨ q.phase ≠ .idle) ∧ n ≤ q.clock + 100000))) ↔
      ¬ RoundedOff r) := by
  obtain ⟨-, ⟨haimed, htimed⟩, hexact⟩ := settled_run hrun
  rw [htimers] at haimed hexact
  obtain ⟨r, hr, hle⟩ := haimed e List.mem_cons_self
  refine ⟨r, hr, ?_⟩
  cases hresets : q.resets with
  | nil =>
      rw [hresets] at hr
      cases hr
  | cons r' resets =>
      rw [hresets] at hr htimed hexact
      cases hr
      obtain ⟨-, hoff, hon⟩ := htimed
      constructor
      · rintro ⟨n, hnext, -⟩ hrounded
        rw [hoff hrounded] at hnext
        cases hnext
      · intro hnot
        obtain ⟨n, hnext, -, haim⟩ := hon hnot
        refine ⟨n, hnext, ?_⟩
        rcases haim with haim | ⟨hpast, hsoon⟩
        · exact Or.inl (le_trans haim hle)
        · by_cases hidle : q.phase = .idle
          · obtain ⟨r, hr, heq⟩ := hexact hidle e rfl
            cases hr
            exact Or.inr ⟨Or.inl (le_of_eq_of_le heq.symm hpast), hsoon⟩
          · exact Or.inr ⟨Or.inr hidle, hsoon⟩

/-- The queue is between two steps, a timer is left, and the timerfd is armed for it. -/
theorem armed_after_batch : ∃ q, Run (step someAddresses) (fun _ _ => True) (start 0)
    [(0, .add 5000 none), (0, .add 9000 (some 4000)), (5000, .read), (5000, .run 0), (5100, .done),
      (5200, .finish)] q ∧
    q.phase = .idle ∧ q.timers = [(9000, 1)] ∧ ∃ n, q.timerfd.next = some n ∧
      (n ≤ 9000 ∨ ((9000 ≤ q.clock ∨ q.phase ≠ .idle) ∧ n ≤ q.clock + 100000)) := by
  obtain ⟨q, hexec, hend⟩ := Option.map_eq_some_iff.mp
    (show (exec (step someAddresses) (fun _ _ => true)
      [(0, .add 5000 none), (0, .add 9000 (some 4000)), (5000, .read), (5000, .run 0),
      (5100, .done), (5200, .finish)] (start 0)).map
      (fun q => (q.phase, q.timers, q.resets.head?)) =
      some (.idle, [(9000, 1)], some (5200, 9000)) by decide)
  obtain ⟨hidle, htimers, hresets⟩ : q.phase = .idle ∧ q.timers = [(9000, 1)] ∧
      q.resets.head? = some (5200, 9000) := by simpa using hend
  have hrun : Run (step someAddresses) (fun _ _ => True) (start 0) _ q :=
    run_of_exec (fun _ _ _ => trivial) hexec
  obtain ⟨r, hr, hiff⟩ := armed_exactly hrun htimers
  rw [hresets] at hr
  cases hr
  exact ⟨q, hrun, hidle, htimers, hiff.mpr (by decide)⟩

/-- Half a microsecond is rounded to nothing: the timer is queued and the timerfd disarmed. -/
theorem half_microsecond_disarms : ∃ q, Run (step someAddresses) (fun _ _ => True) (start 0)
    [(0, .add 500 none)] q ∧ q.timers = [(500, 0)] ∧ q.timerfd.next = none := by
  obtain ⟨q, hexec, hend⟩ := Option.map_eq_some_iff.mp
    (show (exec (step someAddresses) (fun _ _ => true) [(0, .add 500 none)] (start 0)).map
      (fun q => (q.timers, q.timerfd.next)) = some ([(500, 0)], none) by decide)
  obtain ⟨htimers, hnext⟩ : q.timers = [(500, 0)] ∧ q.timerfd.next = none := by simpa using hend
  exact ⟨q, run_of_exec (fun _ _ _ => trivial) hexec, htimers, hnext⟩

/-- Whatever is left in the queue, the timerfd is silent only when no timer was ever
queued or the last `reset_timerfd` rounded off what was left. Otherwise it has an
expiry to come and one every nanosecond after it. -/
theorem silent_exactly {mem : Addresses} {clock : Int} {es : List (Int × Event)} {q : TimerQueue}
    (hrun : Run (step mem) (fun _ _ => True) (start clock) es q) :
    ((∀ later, ¬ q.timerfd.fires later) ↔ ∀ r ∈ q.resets.head?, RoundedOff r) ∧
    ((∃ r ∈ q.resets.head?, ¬ RoundedOff r) →
      q.timerfd.interval = 1 ∧ ∃ n, q.timerfd.next = some n ∧ q.clock < n) := by
  obtain ⟨-, ⟨-, htimed⟩, -⟩ := settled_run hrun
  have hsilent : (∀ later, ¬ q.timerfd.fires later) ↔ q.timerfd.next = none := by
    constructor
    · intro h
      cases hnext : q.timerfd.next with
      | none => rfl
      | some n => exact absurd ⟨n, hnext, le_refl n⟩ (h n)
    · rintro hnone later ⟨n, hn, -⟩
      rw [hnone] at hn
      cases hn
  rw [hsilent]
  cases hresets : q.resets with
  | nil =>
      rw [hresets] at htimed
      exact ⟨⟨fun _ => nofun, fun _ => htimed⟩, fun ⟨r, hr, _⟩ => nomatch hr⟩
  | cons r resets =>
      rw [hresets] at htimed
      obtain ⟨hinterval, hoff, hon⟩ := htimed
      constructor
      · constructor
        · intro hnone r' hr'
          cases hr'
          by_contra hnot
          obtain ⟨n, hnext, -⟩ := hon hnot
          rw [hnone] at hnext
          cases hnext
        · exact fun h => hoff (h r rfl)
      · rintro ⟨r', hr', hnot⟩
        cases hr'
        obtain ⟨n, hnext, hfuture, -⟩ := hon hnot
        exact ⟨hinterval, n, hnext, hfuture⟩

/-- The first timer is cancelled when it is due, another one added half a
microsecond before its expiration, and the batch that was due for the first runs it. -/
theorem silent_after_rounding : ∃ q, Run (step someAddresses) (fun _ _ => True) (start 0)
    [(0, .add 5000 none), (5000, .cancel 0), (5000, .add 5500 none), (5600, .read), (5600, .run 1),
      (5700, .done), (5800, .finish)] q ∧
    q.phase = .idle ∧ q.timers = [] ∧ ∀ later, ¬ q.timerfd.fires later := by
  obtain ⟨q, hexec, hend⟩ := Option.map_eq_some_iff.mp
    (show (exec (step someAddresses) (fun _ _ => true)
      [(0, .add 5000 none), (5000, .cancel 0), (5000, .add 5500 none), (5600, .read),
      (5600, .run 1), (5700, .done), (5800, .finish)] (start 0)).map
      (fun q => (q.phase, q.timers, q.resets.head?)) = some (.idle, [], some (5000, 5500)) by decide)
  obtain ⟨hidle, htimers, hresets⟩ : q.phase = .idle ∧ q.timers = [] ∧
      q.resets.head? = some (5000, 5500) := by simpa using hend
  have hrun : Run (step someAddresses) (fun _ _ => True) (start 0) _ q :=
    run_of_exec (fun _ _ _ => trivial) hexec
  refine ⟨q, hrun, hidle, htimers, (silent_exactly hrun).1.mpr fun r hr => ?_⟩
  rw [hresets] at hr
  cases hr
  decide

/-- One timer is added and runs. The queue is empty, `handle_read` has returned a
second time, and the timerfd fires every nanosecond. -/
theorem empty_queue_fires : ∃ q, Run (step someAddresses) (fun _ _ => True) (start 0)
    [(0, .add 5000 none), (5000, .read), (5000, .run 0), (5100, .done), (5200, .finish),
      (5300, .read), (5400, .finish)] q ∧
    q.phase = .idle ∧ q.timers = [] ∧ q.timerfd.next = some 5401 ∧ q.timerfd.interval = 1 := by
  obtain ⟨q, hexec, hend⟩ := Option.map_eq_some_iff.mp
    (show (exec (step someAddresses) (fun _ _ => true)
      [(0, .add 5000 none), (5000, .read), (5000, .run 0), (5100, .done), (5200, .finish),
      (5300, .read), (5400, .finish)] (start 0)).map
      (fun q => (q.phase, q.timers, q.timerfd.next, q.timerfd.interval)) =
      some (.idle, [], some 5401, 1) by decide)
  obtain ⟨hidle, htimers, hnext, hinterval⟩ : q.phase = .idle ∧ q.timers = [] ∧
      q.timerfd.next = some 5401 ∧ q.timerfd.interval = 1 := by simpa using hend
  exact ⟨q, run_of_exec (fun _ _ _ => trivial) hexec, hidle, htimers, hnext, hinterval⟩

end TimerQueue

end SolarDrive.Network
