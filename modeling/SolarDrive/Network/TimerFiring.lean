import SolarDrive.Network.TimerPlaces

/-!
# When timers run

A timer is run when it has expired, at most once unless it repeats, and not any
more after it was cancelled; a batch runs every timer that was due when it began,
but for those cancelled before their turn. Only a cancel from a callback, of a
timer whose addition is still a task of the loop, is lost.
-/

namespace SolarDrive.Network

/-- The timers of the batch whose turn has not come. -/
def Phase.waiting : Phase → List Nat
  | .idle => []
  | .batch _ rest => rest
  | .callback _ _ rest => rest

namespace TimerQueue

/-- How often a timer that does not repeat is still going to run. -/
def turns (q : TimerQueue) (u : Nat) : Nat :=
  q.queued u + q.phase.waiting.count u + q.adding.count u

/-- A callback cancels no timer that is still to be added. -/
def CancelsAdded (q : TimerQueue) (e : Int × Event) : Prop :=
  ∀ t ∈ e.2.cancelled, q.callingExpiredTimers = true → t ∉ q.adding

instance (q : TimerQueue) (e : Int × Event) : Decidable (q.CancelsAdded e) :=
  inferInstanceAs (Decidable (∀ t ∈ e.2.cancelled, _ → _))

/-- A cancelled timer is not in the queue; wherever else it is, its cancellation is known. -/
structure Stopped (q : TimerQueue) (t : Nat) : Prop where
  created : t < q.created
  queued : q.queued t = 0
  adding : t ∈ q.adding → t ∈ q.pendingCancelTimers
  batch : t ∈ q.phase.members → t ∈ q.cancelingTimers

section Effects

variable {mem : Addresses} {now : Int} {q q' : TimerQueue} {e : Event}

theorem Phase.count_waiting_le (p : Phase) (u : Nat) : p.waiting.count u ≤ p.members.count u := by
  cases p with
  | idle => exact le_refl _
  | batch current rest => exact le_refl _
  | callback current t rest => exact (List.sublist_cons_self t rest).count_le u

theorem Placed.adding_nodup (h : Placed mem q) : q.adding.Nodup := by
  rw [List.nodup_iff_count_le_one]
  intro u
  have honce := h.once u
  unfold TimerQueue.places at honce
  omega

theorem Placed.queued_eq_zero (h : Placed mem q) {t : Nat}
    (hnot : ((q.timer t).expiration, t) ∉ q.timers) : q.queued t = 0 := by
  by_contra hne
  obtain ⟨entry, hmem, rfl⟩ := List.mem_map.mp (List.count_pos_iff.mp (Nat.pos_of_ne_zero hne))
  rw [← h.times entry hmem] at hnot
  exact hnot hmem

theorem turns_le_places (u : Nat) : q.turns u ≤ q.places u := by
  have hle := Phase.count_waiting_le q.phase u
  unfold turns TimerQueue.places
  omega

theorem Effect.repeats (h : Effect mem now q e q') {u : Nat} (hu : u < q.created) :
    (q'.timer u).repeats = (q.timer u).repeats := by
  cases h with
  | submit when interval =>
      exact congrArg Timer.repeats (Function.update_of_ne (Nat.ne_of_lt hu) _ _)
  | add when interval =>
      exact congrArg Timer.repeats (Function.update_of_ne (Nat.ne_of_lt hu) _ _)
  | @again t current rest hphase hrepeats hnot =>
      show (Function.update q.timer t ((q.timer t).restart current) u).repeats = _
      by_cases heq : u = t
      · subst heq
        rw [Function.update_self]
        rfl
      · rw [Function.update_of_ne heq]
  | finish hphase =>
      obtain ⟨timers', live', fault', -, hsweep⟩ := foldl_sweep q.cancelingTimers
        { q with callingExpiredTimers := false, phase := .idle }
      rw [hsweep]
  | _ => rfl

/-- Every run of a timer that does not repeat is one of its turns. -/
theorem Effect.turns (h : Effect mem now q e q') {u : Nat} (hu : u < q.created)
    (hrepeats : (q.timer u).repeats = false) :
    q'.turns u + (if e = .run u then 1 else 0) ≤ q.turns u := by
  cases h with
  | submit when interval =>
      rw [if_neg (by simp)]
      simp only [TimerQueue.turns, TimerQueue.queued, allocate, List.count_append,
        List.count_singleton, beq_iff_eq, if_neg (Nat.ne_of_gt hu)]
      exact le_refl _
  | add when interval =>
      rw [if_neg (by simp)]
      simp only [TimerQueue.turns, TimerQueue.queued, enqueue, touch, allocate,
        count_orderedInsert, if_neg (Nat.ne_of_gt hu)]
      exact le_refl _
  | @dropped t hidle hadding hpending =>
      rw [if_neg (by simp)]
      have hcount := (List.erase_sublist (a := t) (l := q.adding)).count_le u
      simp only [TimerQueue.turns, TimerQueue.queued, delete, touch]
      omega
  | @queued t hidle hadding hpending =>
      rw [if_neg (by simp)]
      have hcount := (List.perm_cons_erase hadding).count_eq u
      rw [List.count_cons] at hcount
      simp only [TimerQueue.turns, TimerQueue.queued, enqueue, touch, count_orderedInsert,
        beq_iff_eq] at hcount ⊢
      omega
  | found hcalling hmem =>
      rw [if_neg (by simp)]
      have hcount := count_erase hmem u
      simp only [TimerQueue.turns, TimerQueue.queued, touch]
      omega
  | foundIdle hcalling hmem =>
      rw [if_neg (by simp)]
      have hcount := count_erase hmem u
      simp only [TimerQueue.turns, TimerQueue.queued, delete, touch]
      omega
  | notFound hcalling hmem hcreated =>
      rw [if_neg (by simp)]
      exact le_refl _
  | notFoundIdle hcalling hmem hcreated =>
      rw [if_neg (by simp)]
      exact le_refl _
  | read hidle =>
      rw [if_neg (by simp)]
      have hcount := count_dropWhile q.timers (beforeSentry mem now) u
      simp only [TimerQueue.turns, TimerQueue.queued, beginRead, hidle, Phase.waiting,
        List.count_nil]
      omega
  | @run t current rest hphase hnot =>
      simp only [TimerQueue.turns, TimerQueue.queued, hphase, Phase.waiting, touch,
        List.count_cons, beq_iff_eq, Event.run.injEq]
      omega
  | skip hphase hmem =>
      rw [if_neg (by simp)]
      simp only [TimerQueue.turns, TimerQueue.queued, hphase, Phase.waiting, delete, touch,
        List.count_cons]
      omega
  | @again t current rest hphase hagain hnot =>
      rw [if_neg (by simp)]
      -- it repeats and `u` does not, so it is not `u` that is put back
      have hne : t ≠ u := by
        rintro rfl
        rw [hagain] at hrepeats
        cases hrepeats
      simp only [TimerQueue.turns, TimerQueue.queued, hphase, Phase.waiting, enqueue, touch,
        count_orderedInsert, if_neg hne]
      exact le_refl _
  | ended hphase hnot =>
      rw [if_neg (by simp)]
      simp only [TimerQueue.turns, TimerQueue.queued, hphase, Phase.waiting, delete, touch]
      exact le_refl _
  | finish hphase =>
      rw [if_neg (by simp)]
      obtain ⟨timers', live', fault', hsub, hsweep⟩ := foldl_sweep q.cancelingTimers
        { q with callingExpiredTimers := false, phase := .idle }
      rw [hsweep]
      have hcount := (hsub.map Prod.snd).count_le u
      dsimp only at hcount
      simp only [TimerQueue.turns, TimerQueue.queued, hphase, Phase.waiting]
      omega

/-- A cancelled timer stays cancelled. -/
theorem Stopped.effect {t : Nat} (h : Stopped q t)
    (hp : Placed mem q) (heffect : Effect mem now q e q') : Stopped q' t := by
  obtain ⟨hcreated, hqueued, hadding, hbatch⟩ := h
  have hnotin : ∀ {entry : TimerEntry}, entry ∈ q.timers → entry.2 ≠ t := by
    rintro entry hmem rfl
    have hpos := queued_pos hmem
    omega
  cases heffect with
  | submit when interval =>
      refine ⟨Nat.lt_succ_of_lt hcreated, hqueued, fun hmem => ?_, hbatch⟩
      rcases List.mem_append.mp hmem with hmem | hmem
      · exact hadding hmem
      · rw [List.mem_singleton] at hmem
        omega
  | add when interval =>
      refine ⟨Nat.lt_succ_of_lt hcreated, ?_, hadding, hbatch⟩
      simp only [TimerQueue.queued, enqueue, touch, allocate, count_orderedInsert,
        if_neg (Nat.ne_of_gt hcreated)]
      exact hqueued
  | @dropped u hidle hmem hpending =>
      refine ⟨hcreated, hqueued, fun ht => ?_, hbatch⟩
      have hne : t ≠ u := by
        rintro rfl
        exact hp.adding_nodup.not_mem_erase ht
      exact (List.mem_erase_of_ne hne).mpr (hadding (List.mem_of_mem_erase ht))
  | @queued u hidle hmem hpending =>
      -- had it been cancelled while it waited to be added, it would be dropped
      have hne : u ≠ t := fun heq => hpending (heq ▸ hadding (heq ▸ hmem))
      refine ⟨hcreated, ?_, fun ht => hadding (List.mem_of_mem_erase ht), hbatch⟩
      simp only [TimerQueue.queued, enqueue, touch, count_orderedInsert, if_neg hne]
      exact hqueued
  | @found u hcalling hmem =>
      refine ⟨hcreated, ?_, hadding, fun ht => mem_setInsert.mpr (Or.inr (hbatch ht))⟩
      have hcount := count_erase hmem t
      unfold TimerQueue.queued at hqueued ⊢
      dsimp only
      omega
  | @foundIdle u hcalling hmem =>
      refine ⟨hcreated, ?_, hadding, hbatch⟩
      have hcount := count_erase hmem t
      unfold TimerQueue.queued at hqueued ⊢
      show ((q.timers.erase _).map Prod.snd).count t = 0
      omega
  | notFound hcalling hmem _ =>
      exact ⟨hcreated, hqueued, hadding, fun ht => mem_setInsert.mpr (Or.inr (hbatch ht))⟩
  | notFoundIdle hcalling hmem _ =>
      exact ⟨hcreated, hqueued, fun ht => mem_setInsert.mpr (Or.inr (hadding ht)), hbatch⟩
  | read hidle =>
      have hcount := count_dropWhile q.timers (beforeSentry mem now) t
      unfold TimerQueue.queued at hqueued
      refine ⟨hcreated, ?_, hadding, fun ht => ?_⟩
      · show ((q.timers.dropWhile _).map Prod.snd).count t = 0
        omega
      · have hpos := List.count_pos_iff.mpr ht
        simp only [beginRead, Phase.members] at hpos
        omega
  | run hphase hnot =>
      rw [hphase] at hbatch
      exact ⟨hcreated, hqueued, hadding, hbatch⟩
  | skip hphase hmem =>
      rw [hphase] at hbatch
      exact ⟨hcreated, hqueued, hadding, fun ht => hbatch (List.mem_cons_of_mem _ ht)⟩
  | @again u current rest hphase hrepeats hnot =>
      rw [hphase] at hbatch
      -- cancelled during the batch it is canceling, and is not put back
      have hne : u ≠ t := fun heq => hnot (heq ▸ hbatch (heq ▸ List.mem_cons_self))
      refine ⟨hcreated, ?_, hadding, fun ht => hbatch (List.mem_cons_of_mem _ ht)⟩
      simp only [TimerQueue.queued, enqueue, touch, count_orderedInsert, if_neg hne]
      exact hqueued
  | ended hphase hnot =>
      rw [hphase] at hbatch
      exact ⟨hcreated, hqueued, hadding, fun ht => hbatch (List.mem_cons_of_mem _ ht)⟩
  | finish hphase =>
      obtain ⟨timers', live', fault', hsub, hsweep⟩ := foldl_sweep q.cancelingTimers
        { q with callingExpiredTimers := false, phase := .idle }
      rw [hsweep]
      have hcount := (hsub.map Prod.snd).count_le t
      refine ⟨hcreated, ?_, hadding, fun ht => absurd ht List.not_mem_nil⟩
      unfold TimerQueue.queued at hqueued
      show (timers'.map Prod.snd).count t = 0
      dsimp only at hcount
      omega

theorem stopped_cancel {t : Nat} (hp : Placed mem q) (hcond : q.CancelsAdded (now, .cancel t))
    (heffect : Effect mem now q (.cancel t) q') : Stopped q' t := by
  have honce := hp.once t
  unfold TimerQueue.places at honce
  cases heffect with
  | found hcalling hmem =>
      have hcount := count_erase hmem t
      have hpos : 0 < q.queued t := queued_pos hmem
      rw [if_pos rfl] at hcount
      refine ⟨hp.created t (places_pos hmem), ?_, fun ht => ?_, fun ht => ?_⟩
      · unfold TimerQueue.queued at honce ⊢
        dsimp only
        omega
      · have htpos := List.count_pos_iff.mpr ht
        dsimp only [touch] at htpos
        omega
      · exact mem_setInsert.mpr (Or.inl rfl)
  | foundIdle hcalling hmem =>
      have hcount := count_erase hmem t
      have hpos : 0 < q.queued t := queued_pos hmem
      rw [if_pos rfl] at hcount
      refine ⟨hp.created t (places_pos hmem), ?_, fun ht => ?_, fun ht => ?_⟩
      · unfold TimerQueue.queued at honce ⊢
        show ((q.timers.erase _).map Prod.snd).count t = 0
        omega
      · have htpos := List.count_pos_iff.mpr ht
        dsimp only [delete, touch] at htpos
        omega
      · have htpos := List.count_pos_iff.mpr ht
        dsimp only [delete, touch] at htpos
        omega
  | notFound hcalling hmem hcreated =>
      exact ⟨hcreated, hp.queued_eq_zero hmem, fun ht => absurd ht (hcond t rfl hcalling),
        fun _ => mem_setInsert.mpr (Or.inl rfl)⟩
  | notFoundIdle hcalling hmem hcreated =>
      refine ⟨hcreated, hp.queued_eq_zero hmem, fun _ => mem_setInsert.mpr (Or.inl rfl),
        fun ht => ?_⟩
      have hidle := hp.idle_of_not_calling hcalling
      have ht : t ∈ q.phase.members := ht
      rw [hidle] at ht
      cases ht

end Effects

open Lib.Machine

section Runs

variable {mem : Addresses} {cond : TimerQueue → Int × Event → Prop} {clock now : Int}
  {es : List (Int × Event)} {q q' : TimerQueue} {t : Nat}

theorem placed_run (hrun : Run (step mem) cond (start clock) es q) : Placed mem q :=
  hrun.invariant (fun _ q => Placed mem q) (placed_start clock) fun h _ hstep => h.step hstep

/-- The timer that starts to run is the next of the batch, and has not been cancelled. -/
theorem run_cases (hp : Placed mem q) (hstep : step mem q (now, .run t) = some q') :
    q.clock ≤ now ∧ t ∈ q.phase.members ∧ t ∉ q.cancelingTimers := by
  obtain ⟨hclock, fd₀, q₁, fd, rs, heffect, rfl⟩ := step_cases hp hstep
  cases heffect with
  | run hphase hnot =>
      have hphase : q.phase = _ := hphase
      rw [hphase]
      exact ⟨hclock, List.mem_cons_self, hnot⟩

/-- No timer runs early. -/
theorem expired_of_run (hp : Placed mem q) (hstep : step mem q (now, .run t) = some q') :
    (q.timer t).expiration ≤ now := by
  obtain ⟨hclock, hmem, -⟩ := run_cases hp hstep
  exact le_trans (hp.due t hmem) hclock

/-- The runs so far and the turns to come of a timer that does not repeat. -/
theorem runs_turns (hrun : Run (step mem) cond (start clock) es q) :
    (∀ u, q.created ≤ u → es.countP (fun e => e.2 = .run u) = 0) ∧
    ∀ u, (q.timer u).repeats = false →
      es.countP (fun e => e.2 = .run u) + q.turns u ≤ 1 := by
  have hinv : Placed mem q ∧ (∀ u, q.created ≤ u → es.countP (fun e => e.2 = .run u) = 0) ∧
      ∀ u, (q.timer u).repeats = false →
        es.countP (fun e => e.2 = .run u) + q.turns u ≤ 1 := by
    apply hrun.invariant fun es q => Placed mem q ∧
      (∀ u, q.created ≤ u → es.countP (fun e => e.2 = .run u) = 0) ∧
      ∀ u, (q.timer u).repeats = false → es.countP (fun e => e.2 = .run u) + q.turns u ≤ 1
    · exact ⟨placed_start clock, fun _ _ => rfl, fun _ _ => Nat.zero_le 1⟩
    · rintro es q q' ⟨now, e⟩ ⟨hp, hnone, honce⟩ - hstep
      have hp' := hp.step hstep
      obtain ⟨hclock, fd₀, q₁, fd, rs, heffect, rfl⟩ := step_cases hp hstep
      have hrun_created : ∀ u, e = .run u → u < q.created := by
        rintro u rfl
        obtain ⟨-, hmem, -⟩ := run_cases hp hstep
        refine hp.created u ?_
        have hpos := List.count_pos_iff.mpr hmem
        unfold TimerQueue.places
        omega
      have hcount : ∀ u, (es ++ [(now, e)]).countP (fun e => e.2 = .run u) =
          es.countP (fun e => e.2 = .run u) + if e = .run u then 1 else 0 := by
        intro u
        rw [List.countP_append, List.countP_singleton]
        simp only [decide_eq_true_eq]
      have hgrown : q.created ≤ q₁.created := by
        rcases heffect.places 0 with ⟨heq, -⟩ | ⟨heq, -⟩
        · exact le_of_eq heq.symm
        · exact le_trans (Nat.le_succ _) (le_of_eq heq.symm)
      have hnew : ∀ u, q.created ≤ u →
          (es ++ [(now, e)]).countP (fun e => e.2 = .run u) = 0 := by
        intro u hu
        have hne : e ≠ .run u := fun heq => Nat.not_lt_of_le hu (hrun_created u heq)
        rw [hcount, hnone u hu, if_neg hne]
      refine ⟨hp', fun u hu => hnew u (le_trans hgrown hu), fun u hrepeats => ?_⟩
      by_cases hu : u < q.created
      · have hold : (q.timer u).repeats = false := (heffect.repeats hu).symm.trans hrepeats
        have hturns : q₁.turns u + (if e = .run u then 1 else 0) ≤ q.turns u :=
          heffect.turns hu hold
        have hle := honce u hold
        have hmoved : (q₁.moved now fd rs).turns u = q₁.turns u := rfl
        rw [hcount, hmoved]
        omega
      · rw [hnew u (Nat.le_of_not_lt hu), Nat.zero_add]
        exact le_trans (turns_le_places u) (hp'.once u)
  exact hinv.2

theorem stopped_run (hrun : Run (step mem) CancelsAdded (start clock) es q) :
    ∀ e ∈ es, ∀ u, e.2 = .cancel u → Stopped q u := by
  have hinv : Placed mem q ∧ ∀ e ∈ es, ∀ u, e.2 = .cancel u → Stopped q u := by
    apply hrun.invariant fun es q => Placed mem q ∧ ∀ e ∈ es, ∀ u, e.2 = .cancel u → Stopped q u
    · exact ⟨placed_start clock, nofun⟩
    · rintro es q q' ⟨now, e⟩ ⟨hp, hstopped⟩ hcond hstep
      have hp' := hp.step hstep
      obtain ⟨hclock, fd₀, q₁, fd, rs, heffect, rfl⟩ := step_cases hp hstep
      have hmoved := hp.moved hclock fd₀ q.resets
      refine ⟨hp', fun e' he' u hu => ?_⟩
      have hstop : Stopped q₁ u := by
        rcases List.mem_append.mp he' with he' | he'
        · have hold := hstopped e' he' u hu
          have hold' : Stopped (q.moved now fd₀ q.resets) u :=
            ⟨hold.created, hold.queued, hold.adding, hold.batch⟩
          exact hold'.effect hmoved heffect
        · rw [List.mem_singleton.mp he'] at hu
          subst hu
          exact stopped_cancel hmoved hcond heffect
      exact ⟨hstop.created, hstop.queued, hstop.adding, hstop.batch⟩
  exact hinv.2

/-- What a batch has done so far with the timers that were due when it began. -/
structure Batch (due : List Nat) (batch : List (Int × Event)) (q : TimerQueue) : Prop where
  busy : q.phase ≠ .idle
  canceling : ∀ u ∈ q.cancelingTimers, ∃ e ∈ batch, e.2 = .cancel u
  due : ∀ u ∈ due, (∃ e ∈ batch, e.2 = .run u) ∨ u ∈ q.phase.waiting ∨
    ∃ front e back, batch = front ++ e :: back ∧ e.2 = .skip u ∧ ∃ e' ∈ front, e'.2 = .cancel u

theorem Batch.effect {due : List Nat} {batch : List (Int × Event)} {e : Event}
    (h : Batch due batch q) (hne : e ≠ .finish) (heffect : Effect mem now q e q') :
    Batch due (batch ++ [(now, e)]) q' := by
  obtain ⟨hbusy, hcanceling, hdue⟩ := h
  have hcanceling' : ∀ u ∈ q.cancelingTimers, ∃ e' ∈ batch ++ [(now, e)], e'.2 = .cancel u := by
    intro u hu
    obtain ⟨e', hmem, heq⟩ := hcanceling u hu
    exact ⟨e', List.mem_append_left _ hmem, heq⟩
  -- a timer leaves the waiting ones by its run, or by the skip of a cancelled one
  have hdue' : ∀ waiting : List Nat, ∀ u ∈ due, (u ∈ q.phase.waiting → u ∈ waiting ∨ e = .run u ∨
      (e = .skip u ∧ u ∈ q.cancelingTimers)) →
      (∃ e' ∈ batch ++ [(now, e)], e'.2 = .run u) ∨ u ∈ waiting ∨
      ∃ front e' back, batch ++ [(now, e)] = front ++ e' :: back ∧ e'.2 = .skip u ∧
        ∃ e'' ∈ front, e''.2 = .cancel u := by
    intro waiting u hu hwaiting
    rcases hdue u hu with ⟨e', hmem, heq⟩ | hmem | ⟨front, e', back, hsplit, heq, hcancel⟩
    · exact Or.inl ⟨e', List.mem_append_left _ hmem, heq⟩
    · rcases hwaiting hmem with hmem | heq | ⟨heq, hin⟩
      · exact Or.inr (Or.inl hmem)
      · exact Or.inl ⟨(now, e), List.mem_append_right _ List.mem_cons_self, heq⟩
      · exact Or.inr (Or.inr ⟨batch, (now, e), [], rfl, heq, hcanceling u hin⟩)
    · refine Or.inr (Or.inr ⟨front, e', back ++ [(now, e)], ?_, heq, hcancel⟩)
      rw [hsplit, List.append_assoc, List.cons_append]
  have hcancel : ∀ t, e = .cancel t → ∀ u ∈ setInsert t q.cancelingTimers,
      ∃ e' ∈ batch ++ [(now, e)], e'.2 = .cancel u := by
    rintro t rfl u hu
    rcases mem_setInsert.mp hu with rfl | hu
    · exact ⟨(now, .cancel u), List.mem_append_right _ List.mem_cons_self, rfl⟩
    · exact hcanceling' u hu
  cases heffect with
  | dropped hidle hadding hpending => exact absurd hidle hbusy
  | queued hidle hadding hpending => exact absurd hidle hbusy
  | read hidle => exact absurd hidle hbusy
  | finish hphase => exact absurd rfl hne
  | found hcalling hmem =>
      exact ⟨hbusy, hcancel _ rfl, fun u hu => hdue' _ u hu fun hw => Or.inl hw⟩
  | notFound hcalling hmem hcreated =>
      exact ⟨hbusy, hcancel _ rfl, fun u hu => hdue' _ u hu fun hw => Or.inl hw⟩
  | @run t current rest hphase hnot =>
      refine ⟨nofun, hcanceling', fun u hu => hdue' rest u hu fun hw => ?_⟩
      rw [hphase] at hw
      rcases List.mem_cons.mp hw with rfl | hw
      · exact Or.inr (Or.inl rfl)
      · exact Or.inl hw
  | @skip t current rest hphase hmem =>
      refine ⟨nofun, hcanceling', fun u hu => hdue' rest u hu fun hw => ?_⟩
      rw [hphase] at hw
      rcases List.mem_cons.mp hw with rfl | hw
      · exact Or.inr (Or.inr ⟨rfl, hmem⟩)
      · exact Or.inl hw
  | @again t current rest hphase hrepeats hnot =>
      refine ⟨nofun, hcanceling', fun u hu => hdue' rest u hu fun hw => ?_⟩
      rw [hphase] at hw
      exact Or.inl hw
  | @ended t current rest hphase hnot =>
      refine ⟨nofun, hcanceling', fun u hu => hdue' rest u hu fun hw => ?_⟩
      rw [hphase] at hw
      exact Or.inl hw
  | _ => exact ⟨hbusy, hcanceling', fun u hu => hdue' _ u hu fun hw => Or.inl hw⟩

/-- A whole batch: every timer that was due has run, or was cancelled before its turn. -/
theorem batch_run {q₁ q₂ q₃ : TimerQueue} {batch : List (Int × Event)} {later : Int}
    (hp : Placed mem q) (hread : step mem q (now, .read) = some q₁)
    (hbatch : Run (step mem) cond q₁ batch q₂) (hnot : ∀ e ∈ batch, e.2 ≠ .finish)
    (hfinish : step mem q₂ (later, .finish) = some q₃) {entry : TimerEntry}
    (hmem : entry ∈ q.timers) (hdue : entry.1 ≤ now) :
    (∃ e ∈ batch, e.2 = .run entry.2) ∨
    ∃ front e back, batch = front ++ e :: back ∧ e.2 = .skip entry.2 ∧
      ∃ e' ∈ front, e'.2 = .cancel entry.2 := by
  obtain ⟨hclock, fd₀, r₁, fd, rs, heffect, rfl⟩ := step_cases hp hread
  have hinv : Placed mem q₂ ∧ ((∀ e ∈ batch, e.2 ≠ .finish) → Batch [entry.2] batch q₂) := by
    apply hbatch.invariant fun batch q₂ => Placed mem q₂ ∧
      ((∀ e ∈ batch, e.2 ≠ .finish) → Batch [entry.2] batch q₂)
    · refine ⟨hp.step hread, fun _ => ?_⟩
      cases heffect with
      | read hidle =>
          have hnone : q.cancelingTimers = [] := hp.canceling hidle
          refine ⟨nofun, fun u hu => ?_, fun u hu => Or.inr (Or.inl ?_)⟩
          · have hu : u ∈ q.cancelingTimers := hu
            rw [hnone] at hu
            cases hu
          · rw [List.mem_singleton.mp hu]
            exact List.mem_map.mpr
              ⟨entry, (mem_takeWhile_sentry hp.sorted).mpr ⟨hmem, hdue⟩, rfl⟩
    · rintro batch s s' ⟨now', e⟩ ⟨hps, hold⟩ - hstep
      refine ⟨hps.step hstep, fun hnot => ?_⟩
      obtain ⟨-, fd₀', s₁, fd', rs', heffect', rfl⟩ := step_cases hps hstep
      have hbatch := hold fun e he => hnot e (List.mem_append_left _ he)
      have hmoved : Batch [entry.2] batch (s.moved now' fd₀' s.resets) :=
        ⟨hbatch.busy, hbatch.canceling, hbatch.due⟩
      have hne : e ≠ .finish := hnot (now', e) (List.mem_append_right _ List.mem_cons_self)
      have hnext := hmoved.effect hne heffect'
      exact ⟨hnext.busy, hnext.canceling, hnext.due⟩
  obtain ⟨hp₂, hend⟩ := hinv
  obtain ⟨-, fd₂, s₂, fd', rs', hlast, -⟩ := step_cases hp₂ hfinish
  cases hlast with
  | finish hphase =>
      have hphase : q₂.phase = _ := hphase
      rcases (hend hnot).due entry.2 List.mem_cons_self with hrun | hwaiting | hskip
      · exact Or.inl hrun
      · rw [hphase] at hwaiting
        cases hwaiting
      · exact Or.inr hskip

end Runs

/-- While callbacks cancel no timer whose addition is still a task of the loop:
no timer runs early or after it was cancelled, one that does not repeat runs at
most once, and a batch runs all that is due but what is cancelled before its turn. -/
theorem firing_discipline {mem : Addresses} {clock : Int} {es : List (Int × Event)}
    {q : TimerQueue} (hrun : Run (step mem) CancelsAdded (start clock) es q) :
    (∀ now t q', step mem q (now, .run t) = some q' →
      (q.timer t).expiration ≤ now ∧ ∀ e ∈ es, e.2 ≠ .cancel t) ∧
    (∀ t, (q.timer t).repeats = false → es.countP (fun e => e.2 = .run t) ≤ 1) ∧
    ∀ now q₁ batch q₂ later q₃, step mem q (now, .read) = some q₁ →
      Run (step mem) CancelsAdded q₁ batch q₂ → (∀ e ∈ batch, e.2 ≠ .finish) →
      step mem q₂ (later, .finish) = some q₃ → ∀ entry ∈ q.timers, entry.1 ≤ now →
      (∃ e ∈ batch, e.2 = .run entry.2) ∨
      ∃ front e back, batch = front ++ e :: back ∧ e.2 = .skip entry.2 ∧
        ∃ e' ∈ front, e'.2 = .cancel entry.2 := by
  have hp := placed_run hrun
  refine ⟨fun now t q' hstep => ⟨expired_of_run hp hstep, fun e he heq => ?_⟩, fun t hrepeats => ?_,
    fun now q₁ batch q₂ later q₃ hread hbatch hnot hfinish entry hmem hdue =>
      batch_run hp hread hbatch hnot hfinish hmem hdue⟩
  · obtain ⟨-, hmem, hnot⟩ := run_cases hp hstep
    exact hnot ((stopped_run hrun e he t heq).batch hmem)
  · have hle := (runs_turns hrun).2 t hrepeats
    omega

/-- Two timers are due in a batch, and the callback of the first cancels the other. -/
theorem firing_in_turn : ∃ q, Run (step someAddresses) CancelsAdded (start 0)
    [(0, .add 10 none), (0, .submit 12 (some 5)), (1, .addQueued 1), (15, .read), (15, .run 0),
      (15, .cancel 1), (16, .done), (16, .skip 1), (16, .finish)] q ∧
    (∀ now q', step someAddresses q (now, .run 1) ≠ some q') ∧ (q.timer 0).repeats = false := by
  obtain ⟨q, hexec, hrepeats⟩ := Option.map_eq_some_iff.mp
    (show (exec (step someAddresses) (fun q e => decide (q.CancelsAdded e))
      [(0, .add 10 none), (0, .submit 12 (some 5)), (1, .addQueued 1), (15, .read), (15, .run 0),
      (15, .cancel 1), (16, .done), (16, .skip 1), (16, .finish)] (start 0)).map
      (fun q => (q.timer 0).repeats) = some false by decide)
  have hrun := run_of_exec (fun q e h => of_decide_eq_true h) hexec
  refine ⟨q, hrun, fun now q' hstep => ?_, hrepeats⟩
  exact ((firing_discipline hrun).1 now 1 q' hstep).2 (15, .cancel 1) (by simp) rfl

/-- Another thread adds a timer; before the loop gets to it a callback cancels it.
The batch deletes the timer, and then it is put into the queue and runs. -/
theorem cancelled_timer_runs : ∃ q, Run (step someAddresses) (fun _ _ => True) (start 0)
    [(0, .add 10 none), (1, .submit 20 none), (10, .read), (10, .run 0), (10, .cancel 1),
      (11, .done), (11, .finish), (12, .addQueued 1), (20, .read), (20, .run 1)] q := by
  obtain ⟨q, hexec⟩ := Option.isSome_iff_exists.mp
    (show (exec (step someAddresses) (fun _ _ => true)
      [(0, .add 10 none), (1, .submit 20 none), (10, .read), (10, .run 0), (10, .cancel 1),
      (11, .done), (11, .finish), (12, .addQueued 1), (20, .read), (20, .run 1)]
      (start 0)).isSome = true by decide)
  exact ⟨q, run_of_exec (fun _ _ _ => trivial) hexec⟩

end TimerQueue

end SolarDrive.Network
