import SolarDrive.Lib.Machine
import SolarDrive.Network.Timer

/-!
# Where the timers are

A timer is in the queue, in the batch `handle_read` is at, or waiting for its
`add_timer_in_loop` to run, and only in one of these places. `Effect` says what
an event can do to everything but the timerfd; `Placed` is the invariant every
run keeps, whatever is cancelled and when.
-/

namespace SolarDrive.Network

/-- The timers of the batch whose turn is not over. -/
def Phase.members : Phase → List Nat
  | .idle => []
  | .batch _ rest => rest
  | .callback _ t rest => t :: rest

namespace TimerQueue

/-- How often a timer is in the queue. -/
def queued (q : TimerQueue) (u : Nat) : Nat := (q.timers.map Prod.snd).count u

/-- In how many places a timer is. -/
def places (q : TimerQueue) (u : Nat) : Nat :=
  q.queued u + q.phase.members.count u + q.adding.count u

/-- The clock and the timerfd move on. -/
def moved (q : TimerQueue) (now : Int) (timerfd : TimerFd)
    (resets : List (Int × Int)) : TimerQueue :=
  { q with clock := now, timerfd, resets }

/-- `insert` without the timerfd. -/
def enqueue (mem : Addresses) (t : Nat) (q : TimerQueue) : TimerQueue :=
  { q.touch t with timers := q.timers.orderedInsert (entryLe mem) ((q.timer t).expiration, t) }

/-! ## The order of the queue -/

section Order

variable {mem : Addresses} {entry : TimerEntry} {timers : List TimerEntry}

instance : Std.Total (entryLe mem) where
  total a b := by
    unfold entryLe
    omega

instance : IsTrans TimerEntry (entryLe mem) where
  trans a b c := by
    unfold entryLe
    omega

/-- In a sorted queue the entries before the sentry are those that are due. -/
theorem mem_takeWhile_sentry {when : Int} : ∀ {timers : List TimerEntry},
    timers.Pairwise (entryLe mem) →
    (entry ∈ timers.takeWhile (beforeSentry mem when) ↔ entry ∈ timers ∧ entry.1 ≤ when)
  | [], _ => by simp
  | e :: es, h => by
      have hsentry : beforeSentry mem when e = true ↔ e.1 ≤ when := by
        have hmax := mem.lt_max e.2
        simp only [beforeSentry, Bool.or_eq_true, decide_eq_true_eq, Bool.and_eq_true]
        omega
      rw [List.pairwise_cons] at h
      by_cases he : e.1 ≤ when
      · rw [List.takeWhile_cons_of_pos (hsentry.mpr he), List.mem_cons, List.mem_cons,
          mem_takeWhile_sentry h.2]
        constructor
        · rintro (rfl | ⟨hmem, hle⟩)
          · exact ⟨Or.inl rfl, he⟩
          · exact ⟨Or.inr hmem, hle⟩
        · rintro ⟨rfl | hmem, hle⟩
          · exact Or.inl rfl
          · exact Or.inr ⟨hmem, hle⟩
      · have hstop : ¬ beforeSentry mem when e = true := fun hb => he (hsentry.mp hb)
        rw [List.takeWhile_cons_of_neg hstop]
        constructor
        · intro hmem
          cases hmem
        · rintro ⟨hmem, hle⟩
          rcases List.mem_cons.mp hmem with rfl | hmem
          · exact absurd hle he
          · have hge : e.1 ≤ entry.1 := by
              have hord := h.1 entry hmem
              unfold entryLe at hord
              omega
            omega

theorem count_orderedInsert (entry : TimerEntry) (timers : List TimerEntry) (u : Nat) :
    ((timers.orderedInsert (entryLe mem) entry).map Prod.snd).count u =
      (timers.map Prod.snd).count u + if entry.2 = u then 1 else 0 := by
  rw [((timers.perm_orderedInsert (entryLe mem) entry).map Prod.snd).count_eq, List.map_cons,
    List.count_cons]
  simp only [beq_iff_eq]

theorem count_erase (hmem : entry ∈ timers) (u : Nat) :
    ((timers.erase entry).map Prod.snd).count u + (if entry.2 = u then 1 else 0) =
      (timers.map Prod.snd).count u := by
  rw [((List.perm_cons_erase hmem).map Prod.snd).count_eq, List.map_cons, List.count_cons]
  simp only [beq_iff_eq]

theorem count_dropWhile (timers : List TimerEntry) (p : TimerEntry → Bool) (u : Nat) :
    ((timers.dropWhile p).map Prod.snd).count u + ((timers.takeWhile p).map Prod.snd).count u =
      (timers.map Prod.snd).count u := by
  conv_rhs => rw [← List.takeWhile_append_dropWhile (p := p) (l := timers), List.map_append,
    List.count_append]
  exact Nat.add_comm _ _

end Order

/-! ## What an event does -/

/-- The ways an event can change the queue, but for the clock and the timerfd. -/
inductive Effect (mem : Addresses) (now : Int) (q : TimerQueue) : Event → TimerQueue → Prop
  | submit (when : Int) (interval : Option Int) :
      Effect mem now q (.submit when interval)
        { q.allocate when interval with adding := q.adding ++ [q.created] }
  | dropped {t : Nat} (hidle : q.phase = .idle) (hadding : t ∈ q.adding)
      (hpending : t ∈ q.pendingCancelTimers) :
      Effect mem now q (.addQueued t)
        (delete t { q with
          adding := q.adding.erase t, pendingCancelTimers := q.pendingCancelTimers.erase t })
  | queued {t : Nat} (hidle : q.phase = .idle) (hadding : t ∈ q.adding)
      (hpending : t ∉ q.pendingCancelTimers) :
      Effect mem now q (.addQueued t) (enqueue mem t { q with adding := q.adding.erase t })
  | add (when : Int) (interval : Option Int) :
      Effect mem now q (.add when interval)
        (enqueue mem q.created (q.allocate when interval))
  | found {t : Nat} (hcalling : q.callingExpiredTimers = true)
      (hmem : ((q.timer t).expiration, t) ∈ q.timers) :
      Effect mem now q (.cancel t)
        { q.touch t with
          timers := q.timers.erase ((q.timer t).expiration, t)
          cancelingTimers := setInsert t q.cancelingTimers }
  | foundIdle {t : Nat} (hcalling : q.callingExpiredTimers = false)
      (hmem : ((q.timer t).expiration, t) ∈ q.timers) :
      Effect mem now q (.cancel t)
        (delete t { q.touch t with timers := q.timers.erase ((q.timer t).expiration, t) })
  | notFound {t : Nat} (hcalling : q.callingExpiredTimers = true)
      (hmem : ((q.timer t).expiration, t) ∉ q.timers) (hcreated : t < q.created) :
      Effect mem now q (.cancel t)
        { q.touch t with cancelingTimers := setInsert t q.cancelingTimers }
  | notFoundIdle {t : Nat} (hcalling : q.callingExpiredTimers = false)
      (hmem : ((q.timer t).expiration, t) ∉ q.timers) (hcreated : t < q.created) :
      Effect mem now q (.cancel t)
        { q.touch t with pendingCancelTimers := setInsert t q.pendingCancelTimers }
  | read (hidle : q.phase = .idle) : Effect mem now q .read (q.beginRead mem now)
  | run {t : Nat} {current : Int} {rest : List Nat} (hphase : q.phase = .batch current (t :: rest))
      (hnot : t ∉ q.cancelingTimers) :
      Effect mem now q (.run t) { q.touch t with phase := .callback current t rest }
  | skip {t : Nat} {current : Int} {rest : List Nat}
      (hphase : q.phase = .batch current (t :: rest)) (hmem : t ∈ q.cancelingTimers) :
      Effect mem now q (.skip t) (delete t { q.touch t with phase := .batch current rest })
  | again {t : Nat} {current : Int} {rest : List Nat} (hphase : q.phase = .callback current t rest)
      (hrepeats : (q.timer t).repeats = true) (hnot : t ∉ q.cancelingTimers) :
      Effect mem now q .done
        (enqueue mem t { q.touch t with
          phase := .batch current rest
          timer := Function.update q.timer t ((q.timer t).restart current) })
  | ended {t : Nat} {current : Int} {rest : List Nat} (hphase : q.phase = .callback current t rest)
      (hnot : (q.timer t).repeats = true → t ∈ q.cancelingTimers) :
      Effect mem now q .done (delete t { q.touch t with phase := .batch current rest })
  | finish {current : Int} (hphase : q.phase = .batch current []) :
      Effect mem now q .finish
        { q.cancelingTimers.foldl sweep { q with callingExpiredTimers := false, phase := .idle } with
          cancelingTimers := [] }

section Effects

variable (mem : Addresses) (now : Int) {q : TimerQueue} {t : Nat}

theorem insert_eq (h : q.queued t = 0) : ∃ fd rs,
    q.insert mem now t = (q.enqueue mem t).moved q.clock fd rs := by
  have hnot : ((q.timer t).expiration, t) ∉ q.timers := by
    intro hmem
    have hin : t ∈ q.timers.map Prod.snd := List.mem_map.mpr ⟨_, hmem, rfl⟩
    have hpos := List.count_pos_iff.mpr hin
    unfold TimerQueue.queued at h
    omega
  simp only [insert, emplace, if_neg hnot]
  split
  · exact ⟨_, _, rfl⟩
  · exact ⟨q.timerfd, q.resets, rfl⟩

theorem rearm_eq (q : TimerQueue) : ∃ fd rs, q.rearm now = q.moved q.clock fd rs := by
  unfold rearm
  split
  · exact ⟨q.timerfd, q.resets, rfl⟩
  · exact ⟨_, _, rfl⟩

end Effects

/-- The loop over `canceling_timers_` takes timers out of the queue and deletes them. -/
theorem foldl_sweep (ts : List Nat) (q : TimerQueue) : ∃ timers' live' fault',
    timers'.Sublist q.timers ∧
    ts.foldl sweep q = { q with timers := timers', live := live', fault := fault' } := by
  induction ts generalizing q with
  | nil => exact ⟨q.timers, q.live, q.fault, List.Sublist.refl _, rfl⟩
  | cons t ts ih =>
      obtain ⟨timers', live', fault', hsub, heq⟩ := ih (q.sweep t)
      exact ⟨timers', live', fault', hsub.trans List.erase_sublist, heq⟩

/-! ## The invariant -/

/-- A timer is in one place at most, and the queue is in order. -/
structure Placed (mem : Addresses) (q : TimerQueue) : Prop where
  once : ∀ u, q.places u ≤ 1
  created : ∀ u, 0 < q.places u → u < q.created
  pending : ∀ u ∈ q.pendingCancelTimers, u < q.created
  times : ∀ e ∈ q.timers, e.1 = (q.timer e.2).expiration
  sorted : q.timers.Pairwise (entryLe mem)
  due : ∀ u ∈ q.phase.members, (q.timer u).expiration ≤ q.clock
  calling : q.callingExpiredTimers = true ↔ q.phase ≠ .idle
  canceling : q.phase = .idle → q.cancelingTimers = []

section Invariant

variable {mem : Addresses} {now : Int} {q q' : TimerQueue} {t : Nat} {e : Event}

theorem Placed.moved (h : Placed mem q) (hclock : q.clock ≤ now) (fd : TimerFd)
    (rs : List (Int × Int)) : Placed mem (q.moved now fd rs) :=
  { h with
    due := fun u hu => le_trans (h.due u hu) hclock }

theorem Placed.free (h : Placed mem q) (ht : q.created ≤ t) : q.places t = 0 := by
  by_contra hne
  have hlt := h.created t (Nat.pos_of_ne_zero hne)
  omega

/-- Every answer of the queue has one of the effects. -/
theorem effect_of_react (h : Placed mem q) (hreact : react mem now q e = some q') :
    ∃ q₁ fd rs, Effect mem now q e q₁ ∧ q' = q₁.moved q.clock fd rs := by
  cases e with
  | submit when interval =>
      cases hreact
      exact ⟨_, q.timerfd, q.resets, .submit when interval, rfl⟩
  | addQueued t =>
      simp only [react, Option.ite_none_right_eq_some, Option.some.injEq] at hreact
      obtain ⟨⟨hidle, hadding⟩, rfl⟩ := hreact
      unfold addTimerInLoop
      split
      · rename_i hpending
        exact ⟨_, q.timerfd, q.resets, .dropped hidle hadding hpending, rfl⟩
      · rename_i hpending
        have hqueued : queued { q with adding := q.adding.erase t } t = 0 := by
          have honce := h.once t
          have hpos := List.count_pos_iff.mpr hadding
          unfold places at honce
          show q.queued t = 0
          omega
        obtain ⟨fd, rs, hinsert⟩ := insert_eq mem now hqueued
        exact ⟨_, fd, rs, .queued hidle hadding hpending, hinsert⟩
  | add when interval =>
      have hadd : some ((q.allocate when interval).addTimerInLoop mem now q.created) = some q' := by
        unfold react at hreact
        dsimp only at hreact
        split at hreact
        · cases hreact
        · exact hreact
      cases hadd
      have hpending : q.created ∉ (q.allocate when interval).pendingCancelTimers := fun hmem =>
        absurd (h.pending _ hmem) (Nat.lt_irrefl _)
      have hqueued : queued (q.allocate when interval) q.created = 0 := by
        have hfree := h.free (le_refl q.created)
        unfold places at hfree
        show q.queued q.created = 0
        omega
      obtain ⟨fd, rs, hinsert⟩ := insert_eq mem now hqueued
      unfold addTimerInLoop
      rw [if_neg hpending, hinsert]
      exact ⟨_, fd, rs, .add when interval, rfl⟩
  | cancel t =>
      have hcancel : t < q.created ∧ q.cancelInLoop now t = q' := by
        unfold react at hreact
        dsimp only at hreact
        split at hreact
        · cases hreact
        · simpa using hreact
      obtain ⟨hcreated, rfl⟩ := hcancel
      unfold cancelInLoop
      dsimp only [touch]
      by_cases hmem : ((q.timer t).expiration, t) ∈ q.timers
      · rw [if_pos hmem]
        rcases Bool.eq_false_or_eq_true q.callingExpiredTimers with hcalling | hcalling
        · rw [if_pos hcalling]
          exact ⟨_, q.timerfd, q.resets, .found hcalling hmem, rfl⟩
        · rw [if_neg (ne_true_of_eq_false hcalling)]
          split
          · obtain ⟨fd, rs, hrearm⟩ := rearm_eq now (delete t { q.touch t with
              timers := q.timers.erase ((q.timer t).expiration, t) })
            exact ⟨_, fd, rs, .foundIdle hcalling hmem, hrearm⟩
          · exact ⟨_, q.timerfd, q.resets, .foundIdle hcalling hmem, rfl⟩
      · rw [if_neg hmem]
        rcases Bool.eq_false_or_eq_true q.callingExpiredTimers with hcalling | hcalling
        · rw [if_pos hcalling]
          exact ⟨_, q.timerfd, q.resets, .notFound hcalling hmem hcreated, rfl⟩
        · rw [if_neg (ne_true_of_eq_false hcalling)]
          exact ⟨_, q.timerfd, q.resets, .notFoundIdle hcalling hmem hcreated, rfl⟩
  | read =>
      unfold react at hreact
      dsimp only at hreact
      split at hreact
      · rename_i hidle
        cases hreact
        exact ⟨_, q.timerfd, q.resets, .read hidle, rfl⟩
      · cases hreact
  | run t =>
      unfold react at hreact
      dsimp only at hreact
      split at hreact
      · rename_i current u rest hphase
        simp only [Option.ite_none_right_eq_some, Option.some.injEq] at hreact
        obtain ⟨⟨rfl, hnot⟩, rfl⟩ := hreact
        exact ⟨_, q.timerfd, q.resets, .run hphase hnot, rfl⟩
      · cases hreact
  | skip t =>
      unfold react at hreact
      dsimp only at hreact
      split at hreact
      · rename_i current u rest hphase
        simp only [Option.ite_none_right_eq_some, Option.some.injEq] at hreact
        obtain ⟨⟨rfl, hmem⟩, rfl⟩ := hreact
        refine ⟨_, q.timerfd, q.resets, .skip hphase hmem, ?_⟩
        unfold endTurn
        rw [if_neg fun hc => hc.2 hmem]
        rfl
      · cases hreact
  | done =>
      unfold react at hreact
      dsimp only at hreact
      split at hreact
      · rename_i current t rest hphase
        cases hreact
        unfold endTurn
        dsimp only [touch]
        split
        · rename_i hagain
          have hqueued : queued { q.touch t with
              phase := .batch current rest
              timer := Function.update q.timer t ((q.timer t).restart current) } t = 0 := by
            have honce := h.once t
            unfold places at honce
            rw [hphase] at honce
            show q.queued t = 0
            simp only [Phase.members, List.count_cons_self] at honce
            omega
          obtain ⟨fd, rs, hinsert⟩ := insert_eq mem now hqueued
          exact ⟨_, fd, rs, .again hphase hagain.1 hagain.2, hinsert⟩
        · rename_i hover
          refine ⟨_, q.timerfd, q.resets, .ended hphase fun hrepeats => ?_, rfl⟩
          by_contra hnot
          exact hover ⟨hrepeats, hnot⟩
      · cases hreact
  | finish =>
      unfold react at hreact
      dsimp only at hreact
      split at hreact
      · rename_i current hphase
        cases hreact
        obtain ⟨fd, rs, hrearm⟩ := rearm_eq now { q.cancelingTimers.foldl sweep
            { q with callingExpiredTimers := false, phase := .idle } with cancelingTimers := [] }
        refine ⟨_, fd, rs, .finish hphase, ?_⟩
        unfold endRead
        rw [hrearm]
        obtain ⟨timers', live', fault', -, hsweep⟩ := foldl_sweep q.cancelingTimers
          { q with callingExpiredTimers := false, phase := .idle }
        rw [hsweep]
      · cases hreact

theorem queued_pos {entry : TimerEntry} (hmem : entry ∈ q.timers) : 0 < q.queued entry.2 :=
  List.count_pos_iff.mpr (List.mem_map.mpr ⟨entry, hmem, rfl⟩)

theorem places_pos {entry : TimerEntry} (hmem : entry ∈ q.timers) : 0 < q.places entry.2 :=
  Nat.lt_of_lt_of_le (queued_pos hmem) (Nat.le_trans (Nat.le_add_right _ _) (Nat.le_add_right _ _))

theorem Placed.idle_of_not_calling (h : Placed mem q) (hcalling : q.callingExpiredTimers = false) :
    q.phase = .idle := by
  by_contra hne
  rw [h.calling.mpr hne] at hcalling
  cases hcalling

theorem mem_setInsert {ts : List Nat} {u : Nat} : u ∈ setInsert t ts ↔ u = t ∨ u ∈ ts := by
  unfold setInsert
  split
  · rename_i hmem
    constructor
    · exact Or.inr
    · rintro (rfl | h)
      · exact hmem
      · exact h
  · exact List.mem_cons

theorem places_enqueue (t u : Nat) :
    (q.enqueue mem t).places u = q.places u + if t = u then 1 else 0 := by
  simp only [TimerQueue.places, TimerQueue.queued, enqueue, touch, count_orderedInsert]
  omega

theorem places_leaveAdding (hmem : t ∈ q.adding) (u : Nat) :
    places { q with adding := q.adding.erase t } u + (if t = u then 1 else 0) = q.places u := by
  have hcount := (List.perm_cons_erase hmem).count_eq u
  rw [List.count_cons] at hcount
  simp only [TimerQueue.places, TimerQueue.queued, beq_iff_eq] at hcount ⊢
  omega

theorem places_leaveTimers {entry : TimerEntry} (hmem : entry ∈ q.timers) (u : Nat) :
    places { q with timers := q.timers.erase entry } u + (if entry.2 = u then 1 else 0) =
      q.places u := by
  have hcount := count_erase hmem u
  simp only [TimerQueue.places, TimerQueue.queued]
  omega

theorem places_leaveBatch {current : Int} {rest : List Nat} (hphase : q.phase.members = t :: rest)
    (u : Nat) :
    places { q with phase := .batch current rest } u + (if t = u then 1 else 0) = q.places u := by
  have hcount : q.phase.members.count u = rest.count u + if t = u then 1 else 0 := by
    rw [hphase, List.count_cons]
    simp only [beq_iff_eq]
  unfold TimerQueue.places
  rw [hcount]
  simp only [TimerQueue.queued, Phase.members]
  omega

theorem places_beginRead (hidle : q.phase = .idle) (u : Nat) :
    (q.beginRead mem now).places u = q.places u := by
  have hcount := count_dropWhile q.timers (beforeSentry mem now) u
  simp only [TimerQueue.places, TimerQueue.queued, beginRead, hidle, Phase.members,
    List.count_nil]
  omega

/-- No event puts a timer anywhere it was not, but for a new one. -/
theorem Effect.places (h : Effect mem now q e q') (u : Nat) :
    (q'.created = q.created ∧ q'.places u ≤ q.places u) ∨
    (q'.created = q.created + 1 ∧ q'.places u ≤ q.places u + if q.created = u then 1 else 0) := by
  cases h with
  | submit when interval =>
      right
      refine ⟨rfl, ?_⟩
      simp only [TimerQueue.places, TimerQueue.queued, allocate, List.count_append,
        List.count_singleton, beq_iff_eq]
      omega
  | add when interval => exact Or.inr ⟨rfl, le_of_eq (places_enqueue q.created u)⟩
  | dropped hidle hadding hpending =>
      exact Or.inl ⟨rfl, Nat.le.intro (places_leaveAdding hadding u)⟩
  | queued hidle hadding hpending =>
      refine Or.inl ⟨rfl, ?_⟩
      rw [places_enqueue, places_leaveAdding hadding]
  | found hcalling hmem => exact Or.inl ⟨rfl, Nat.le.intro (places_leaveTimers hmem u)⟩
  | foundIdle hcalling hmem => exact Or.inl ⟨rfl, Nat.le.intro (places_leaveTimers hmem u)⟩
  | notFound hcalling hmem hcreated => exact Or.inl ⟨rfl, le_refl _⟩
  | notFoundIdle hcalling hmem hcreated => exact Or.inl ⟨rfl, le_refl _⟩
  | read hidle => exact Or.inl ⟨rfl, le_of_eq (places_beginRead hidle u)⟩
  | run hphase hnot =>
      refine Or.inl ⟨rfl, ?_⟩
      simp only [TimerQueue.places, hphase]
      exact le_refl _
  | skip hphase hmem =>
      exact Or.inl ⟨rfl, Nat.le.intro (places_leaveBatch (congrArg Phase.members hphase) u)⟩
  | again hphase hrepeats hnot =>
      refine Or.inl ⟨rfl, ?_⟩
      rw [places_enqueue]
      exact le_of_eq (places_leaveBatch (congrArg Phase.members hphase) u)
  | ended hphase hnot =>
      exact Or.inl ⟨rfl, Nat.le.intro (places_leaveBatch (congrArg Phase.members hphase) u)⟩
  | finish hphase =>
      obtain ⟨timers', live', fault', hsub, hsweep⟩ := foldl_sweep q.cancelingTimers
        { q with callingExpiredTimers := false, phase := .idle }
      rw [hsweep]
      refine Or.inl ⟨rfl, ?_⟩
      have hcount := (hsub.map Prod.snd).count_le u
      dsimp only at hcount
      simp only [TimerQueue.places, TimerQueue.queued, hphase, Phase.members]
      omega

/-- A timer of the queue is known, and is not the next to be allocated. -/
theorem Placed.ne_created (h : Placed mem q) {entry : TimerEntry} (hmem : entry ∈ q.timers) :
    entry.2 ≠ q.created := by
  intro heq
  have hpos := queued_pos hmem
  have hfree := h.free (le_of_eq heq.symm)
  unfold TimerQueue.places at hfree
  omega

/-- A timer of the batch is not in the queue. -/
theorem Placed.batch_ne (h : Placed mem q) {rest : List Nat} (hphase : q.phase.members = t :: rest)
    {entry : TimerEntry} (hmem : entry ∈ q.timers) : entry.2 ≠ t := by
  rintro rfl
  have hpos := queued_pos hmem
  have honce := h.once entry.2
  unfold TimerQueue.places at honce
  rw [hphase, List.count_cons_self] at honce
  omega

theorem Placed.rest_ne (h : Placed mem q) {rest : List Nat} (hphase : q.phase.members = t :: rest)
    {u : Nat} (hmem : u ∈ rest) : u ≠ t := by
  rintro rfl
  have hpos := List.count_pos_iff.mpr hmem
  have honce := h.once u
  unfold TimerQueue.places at honce
  rw [hphase, List.count_cons_self] at honce
  omega

theorem Effect.times (h : Effect mem now q e q') (hp : Placed mem q) :
    ∀ entry ∈ q'.timers, entry.1 = (q'.timer entry.2).expiration := by
  have hold := hp.times
  cases h with
  | submit when interval =>
      intro entry hmem
      rw [hold entry hmem]
      exact congrArg Timer.expiration (Function.update_of_ne (hp.ne_created hmem) _ _).symm
  | add when interval =>
      intro entry hmem
      rcases (List.mem_orderedInsert _).mp hmem with rfl | hmem
      · rfl
      · rw [hold entry hmem]
        exact congrArg Timer.expiration (Function.update_of_ne (hp.ne_created hmem) _ _).symm
  | queued hidle hadding hpending =>
      intro entry hmem
      rcases (List.mem_orderedInsert _).mp hmem with rfl | hmem
      · rfl
      · exact hold entry hmem
  | found hcalling hmem => exact fun entry hentry => hold entry (List.mem_of_mem_erase hentry)
  | foundIdle hcalling hmem => exact fun entry hentry => hold entry (List.mem_of_mem_erase hentry)
  | read hidle => exact fun entry hentry => hold entry ((List.dropWhile_sublist _).subset hentry)
  | @again t current rest hphase hrepeats hnot =>
      intro entry hmem
      rcases (List.mem_orderedInsert _).mp hmem with rfl | hmem
      · rfl
      · have hne := hp.batch_ne (congrArg Phase.members hphase) hmem
        rw [hold entry hmem]
        exact congrArg Timer.expiration (Function.update_of_ne hne _ _).symm
  | finish hphase =>
      obtain ⟨timers', live', fault', hsub, hsweep⟩ := foldl_sweep q.cancelingTimers
        { q with callingExpiredTimers := false, phase := .idle }
      rw [hsweep]
      exact fun entry hentry => hold entry (hsub.subset hentry)
  | _ => exact hold

theorem Effect.sorted (h : Effect mem now q e q') (hp : Placed mem q) :
    q'.timers.Pairwise (entryLe mem) := by
  have hold := hp.sorted
  cases h with
  | add when interval => exact hold.orderedInsert _ _
  | queued hidle hadding hpending => exact hold.orderedInsert _ _
  | found hcalling hmem => exact hold.sublist List.erase_sublist
  | foundIdle hcalling hmem => exact hold.sublist List.erase_sublist
  | read hidle => exact hold.sublist (List.dropWhile_sublist _)
  | again hphase hrepeats hnot => exact hold.orderedInsert _ _
  | finish hphase =>
      obtain ⟨timers', live', fault', hsub, hsweep⟩ := foldl_sweep q.cancelingTimers
        { q with callingExpiredTimers := false, phase := .idle }
      rw [hsweep]
      exact hold.sublist hsub
  | _ => exact hold

theorem Effect.due (h : Effect mem now q e q') (hp : Placed mem q) (hclock : q.clock = now) :
    ∀ u ∈ q'.phase.members, (q'.timer u).expiration ≤ q'.clock := by
  have hold := hp.due
  have hnew : ∀ u ∈ q.phase.members, u ≠ q.created := by
    rintro u hu rfl
    have hpos := List.count_pos_iff.mpr hu
    have hfree := hp.free (le_refl q.created)
    unfold TimerQueue.places at hfree
    omega
  cases h with
  | submit when interval =>
      intro u hu
      refine le_trans (le_of_eq ?_) (hold u hu)
      exact congrArg Timer.expiration (Function.update_of_ne (hnew u hu) _ _)
  | add when interval =>
      intro u hu
      refine le_trans (le_of_eq ?_) (hold u hu)
      exact congrArg Timer.expiration (Function.update_of_ne (hnew u hu) _ _)
  | read hidle =>
      intro u hu
      obtain ⟨entry, hentry, rfl⟩ := List.mem_map.mp hu
      obtain ⟨hmem, hle⟩ := (mem_takeWhile_sentry hp.sorted).mp hentry
      show (q.timer entry.2).expiration ≤ q.clock
      rw [← hp.times entry hmem, hclock]
      exact hle
  | run hphase hnot =>
      rw [hphase] at hold
      exact hold
  | skip hphase hmem =>
      rw [hphase] at hold
      exact fun u hu => hold u (List.mem_cons_of_mem _ hu)
  | again hphase hrepeats hnot =>
      intro u hu
      have hne := hp.rest_ne (congrArg Phase.members hphase) hu
      rw [hphase] at hold
      refine le_trans (le_of_eq ?_) (hold u (List.mem_cons_of_mem _ hu))
      exact congrArg Timer.expiration (Function.update_of_ne hne _ _)
  | ended hphase hnot =>
      rw [hphase] at hold
      exact fun u hu => hold u (List.mem_cons_of_mem _ hu)
  | finish hphase =>
      obtain ⟨timers', live', fault', -, hsweep⟩ := foldl_sweep q.cancelingTimers
        { q with callingExpiredTimers := false, phase := .idle }
      rw [hsweep]
      intro u hu
      cases hu
  | _ => exact hold

theorem Effect.flags (h : Effect mem now q e q') (hp : Placed mem q) :
    (q'.callingExpiredTimers = true ↔ q'.phase ≠ .idle) ∧
    (q'.phase = .idle → q'.cancelingTimers = []) ∧
    ∀ u ∈ q'.pendingCancelTimers, u < q'.created := by
  have hpending := hp.pending
  have hcall := hp.calling
  have hcanceling := hp.canceling
  have hbusy : ∀ p : Phase, q.phase ≠ .idle → p ≠ .idle →
      (q.callingExpiredTimers = true ↔ p ≠ .idle) ∧ (p = .idle → q.cancelingTimers = []) :=
    fun p hne hne' => ⟨⟨fun _ => hne', fun _ => hcall.mpr hne⟩, fun h => absurd h hne'⟩
  cases h with
  | submit when interval =>
      exact ⟨hcall, hcanceling, fun u hu => Nat.lt_succ_of_lt (hpending u hu)⟩
  | add when interval =>
      exact ⟨hcall, hcanceling, fun u hu => Nat.lt_succ_of_lt (hpending u hu)⟩
  | dropped hidle hadding hmem =>
      exact ⟨hcall, hcanceling, fun u hu => hpending u (List.mem_of_mem_erase hu)⟩
  | found hcalling hmem =>
      exact ⟨hcall, fun hidle => absurd hidle (hcall.mp hcalling), hpending⟩
  | notFound hcalling hmem hcreated =>
      exact ⟨hcall, fun hidle => absurd hidle (hcall.mp hcalling), hpending⟩
  | notFoundIdle hcalling hmem hcreated =>
      refine ⟨hcall, hcanceling, fun u hu => ?_⟩
      rcases mem_setInsert.mp hu with rfl | hu
      · exact hcreated
      · exact hpending u hu
  | read hidle =>
      exact ⟨⟨fun _ => nofun, fun _ => rfl⟩, nofun, hpending⟩
  | @run t current rest hphase hnot =>
      obtain ⟨hflag, hset⟩ := hbusy (.callback current t rest) (hphase ▸ nofun) nofun
      exact ⟨hflag, hset, hpending⟩
  | @skip t current rest hphase hmem =>
      obtain ⟨hflag, hset⟩ := hbusy (.batch current rest) (hphase ▸ nofun) nofun
      exact ⟨hflag, hset, hpending⟩
  | @again t current rest hphase hrepeats hnot =>
      obtain ⟨hflag, hset⟩ := hbusy (.batch current rest) (hphase ▸ nofun) nofun
      exact ⟨hflag, hset, hpending⟩
  | @ended t current rest hphase hnot =>
      obtain ⟨hflag, hset⟩ := hbusy (.batch current rest) (hphase ▸ nofun) nofun
      exact ⟨hflag, hset, hpending⟩
  | finish hphase =>
      obtain ⟨timers', live', fault', -, hsweep⟩ := foldl_sweep q.cancelingTimers
        { q with callingExpiredTimers := false, phase := .idle }
      rw [hsweep]
      exact ⟨⟨fun h => absurd h Bool.false_ne_true, fun h => absurd rfl h⟩, fun _ => rfl, hpending⟩
  | _ => exact ⟨hcall, hcanceling, hpending⟩

theorem Effect.clock (h : Effect mem now q e q') : q'.clock = q.clock := by
  cases h with
  | finish hphase =>
      obtain ⟨timers', live', fault', -, hsweep⟩ := foldl_sweep q.cancelingTimers
        { q with callingExpiredTimers := false, phase := .idle }
      rw [hsweep]
  | _ => rfl

theorem Placed.effect (hp : Placed mem q) (h : Effect mem now q e q') (hclock : q.clock = now) :
    Placed mem q' := by
  have hfresh := hp.free (le_refl q.created)
  constructor
  · intro u
    have honce := hp.once u
    rcases h.places u with ⟨-, hle⟩ | ⟨-, hle⟩
    · omega
    · split at hle
      · rename_i heq
        rw [← heq, hfresh] at hle
        rw [← heq]
        exact hle
      · omega
  · intro u hpos
    have hknown := hp.created u
    rcases h.places u with ⟨hcreated, hle⟩ | ⟨hcreated, hle⟩
    · have hold := hknown (by omega)
      omega
    · by_cases heq : q.created = u
      · omega
      · rw [if_neg heq] at hle
        have hold := hknown (by omega)
        omega
  · exact (h.flags hp).2.2
  · exact h.times hp
  · exact h.sorted hp
  · exact h.due hp hclock
  · exact (h.flags hp).1
  · exact (h.flags hp).2.1

end Invariant

/-! ## Runs -/

section Runs

variable {mem : Addresses} {now : Int} {q q' : TimerQueue} {e : Event}

/-- A step lets time pass and has one of the effects. -/
theorem step_cases (h : Placed mem q) (hstep : step mem q (now, e) = some q') :
    q.clock ≤ now ∧ ∃ fd₀ q₁ fd rs, Effect mem now (q.moved now fd₀ q.resets) e q₁ ∧
      q' = q₁.moved now fd rs := by
  unfold step at hstep
  split at hstep
  · rename_i hclock
    obtain ⟨q₁, fd, rs, heffect, heq⟩ := effect_of_react (h.moved hclock _ _) hstep
    exact ⟨hclock, _, q₁, fd, rs, heffect, heq⟩
  · cases hstep

theorem Placed.step (h : Placed mem q) (hstep : step mem q (now, e) = some q') :
    Placed mem q' := by
  obtain ⟨hclock, fd₀, q₁, fd, rs, heffect, rfl⟩ := step_cases h hstep
  exact ((h.moved hclock _ _).effect heffect rfl).moved (le_of_eq heffect.clock) _ _

theorem placed_start (clock : Int) : Placed mem (start clock) where
  once _ := Nat.zero_le 1
  created _ h := absurd h (Nat.lt_irrefl 0)
  pending _ h := absurd h List.not_mem_nil
  times _ h := absurd h List.not_mem_nil
  sorted := .nil
  due _ h := absurd h List.not_mem_nil
  calling := by simp [start]
  canceling _ := rfl

end Runs

/-- An allocator that gives every timer the next sixteen bytes, and starts again. -/
def someAddresses : Addresses where
  addr t := t % 1048576 * 16
  lt_max t := by omega

end TimerQueue

end SolarDrive.Network
