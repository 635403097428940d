import SolarDrive.Network.TimerPlaces

/-!
# Who deletes a timer

Every live timer has one owner: the queue, the batch, the task that is going to
add it, or the set of timers cancelled by the callbacks of the batch. A cancel
keeps this as long as it finds the timer in the queue, or between two calls of
`handle_read` still waiting to be added. Any other cancel makes a second owner,
or reads a timer that has none.
-/

namespace SolarDrive.Network

namespace TimerQueue

def owners (q : TimerQueue) (u : Nat) : Nat := q.places u + q.cancelingTimers.count u

structure Owned (q : TimerQueue) : Prop where
  safe : q.fault = false
  once : ∀ u, q.owners u ≤ 1
  live : ∀ u, q.live u = true ↔ 0 < q.owners u
  created : ∀ u, 0 < q.owners u → u < q.created

/-- The timers cancelled before their addition are still waiting for it. -/
structure Waiting (q : TimerQueue) : Prop where
  adding : ∀ u ∈ q.pendingCancelTimers, u ∈ q.adding
  nodup : q.pendingCancelTimers.Nodup

/-- A timer is cancelled when it is in the queue, has been cancelled by this
batch before, or, while no batch is being run, is still to be added. -/
def Cancellable (q : TimerQueue) (e : Int × Event) : Prop :=
  ∀ t ∈ e.2.cancelled, ((q.timer t).expiration, t) ∈ q.timers ∨ t ∈ q.cancelingTimers ∨
    (q.callingExpiredTimers = false ∧ t ∈ q.adding)

instance (q : TimerQueue) (e : Int × Event) : Decidable (q.Cancellable e) :=
  inferInstanceAs (Decidable (∀ t ∈ e.2.cancelled, _ ∨ _ ∨ (_ ∧ _)))

section Owners

variable {q q' : TimerQueue} {t : Nat}

theorem Owned.keep (h : Owned q) (howners : ∀ u, q'.owners u = q.owners u)
    (hlive : q'.live = q.live) (hcreated : q'.created = q.created) (hfault : q'.fault = false) :
    Owned q' := by
  constructor
  · exact hfault
  · intro u
    rw [howners]
    exact h.once u
  · intro u
    rw [howners, hlive]
    exact h.live u
  · intro u
    rw [howners, hcreated]
    exact h.created u

theorem Owned.drop (h : Owned q)
    (howners : ∀ u, q'.owners u + (if t = u then 1 else 0) = q.owners u)
    (hlive : q'.live = Function.update q.live t false) (hcreated : q'.created = q.created)
    (hfault : q'.fault = false) : Owned q' := by
  constructor
  · exact hfault
  · intro u
    have honce := h.once u
    have hu := howners u
    omega
  · intro u
    have honce := h.once u
    have hu := howners u
    rw [hlive]
    by_cases heq : t = u
    · subst heq
      rw [if_pos rfl] at hu
      rw [Function.update_self]
      constructor
      · intro hfalse
        cases hfalse
      · intro hpos
        omega
    · rw [if_neg heq, Nat.add_zero] at hu
      rw [Function.update_of_ne (Ne.symm heq), hu]
      exact h.live u
  · intro u hpos
    have hu := howners u
    rw [hcreated]
    exact h.created u (by omega)

theorem Owned.new (h : Owned q) (hfree : q.owners q.created = 0)
    (howners : ∀ u, q'.owners u = q.owners u + if q.created = u then 1 else 0)
    (hlive : q'.live = Function.update q.live q.created true)
    (hcreated : q'.created = q.created + 1) (hfault : q'.fault = false) : Owned q' := by
  constructor
  · exact hfault
  · intro u
    have honce := h.once u
    rw [howners]
    split
    · rename_i heq
      rw [← heq, hfree]
    · exact honce
  · intro u
    rw [howners, hlive]
    by_cases heq : q.created = u
    · subst heq
      rw [Function.update_self, if_pos rfl]
      exact ⟨fun _ => Nat.succ_pos _, fun _ => rfl⟩
    · rw [Function.update_of_ne (Ne.symm heq), if_neg heq]
      exact h.live u
  · intro u hpos
    rw [howners] at hpos
    rw [hcreated]
    by_cases heq : q.created = u
    · omega
    · rw [if_neg heq] at hpos
      have hlt := h.created u hpos
      omega

theorem Owned.cleared (h : Owned q)
    (howners : ∀ u, q'.owners u + q.cancelingTimers.count u = q.owners u)
    (hlive : ∀ u, q'.live u = true ↔ q.live u = true ∧ u ∉ q.cancelingTimers)
    (hcreated : q'.created = q.created) (hfault : q'.fault = false) : Owned q' := by
  constructor
  · exact hfault
  · intro u
    have honce := h.once u
    have hu := howners u
    omega
  · intro u
    have honce := h.once u
    have hu := howners u
    rw [hlive, h.live, ← List.count_eq_zero]
    omega
  · intro u hpos
    have hu := howners u
    rw [hcreated]
    exact h.created u (by omega)

theorem Owned.live_of_place (h : Owned q) (hpos : 0 < q.places t) : q.live t = true :=
  (h.live t).mpr (Nat.lt_of_lt_of_le hpos (Nat.le_add_right _ _))

theorem Owned.live_of_canceling (h : Owned q) (hmem : t ∈ q.cancelingTimers) : q.live t = true :=
  (h.live t).mpr (Nat.lt_of_lt_of_le (List.count_pos_iff.mpr hmem) (Nat.le_add_left _ _))

theorem Owned.not_canceling (h : Owned q) (hpos : 0 < q.places t) : t ∉ q.cancelingTimers := by
  intro hmem
  have honce := h.once t
  have hcount := List.count_pos_iff.mpr hmem
  unfold owners at honce
  omega

theorem owners_of_places {k u : Nat} (hplaces : q'.places u + k = q.places u)
    (hcanceling : q'.cancelingTimers = q.cancelingTimers) :
    q'.owners u + k = q.owners u := by
  unfold owners
  rw [hcanceling]
  omega

theorem places_pos_of_adding (hmem : t ∈ q.adding) : 0 < q.places t := by
  have hpos := List.count_pos_iff.mpr hmem
  unfold TimerQueue.places
  omega

theorem places_pos_of_phase {rest : List Nat} (hphase : q.phase.members = t :: rest) :
    0 < q.places t := by
  unfold TimerQueue.places
  rw [hphase, List.count_cons_self]
  omega

end Owners

section Deletions

/-- Deleting different timers that are live is safe. -/
theorem foldl_delete_safe {ts : List Nat} : ∀ {q : TimerQueue}, ts.Nodup →
    (∀ t ∈ ts, q.live t = true) → q.fault = false →
    (ts.foldl (fun q t => q.delete t) q).fault = false := by
  induction ts with
  | nil => exact fun _ _ hsafe => hsafe
  | cons t ts ih =>
      intro q hnodup hlive hsafe
      rw [List.nodup_cons] at hnodup
      apply ih hnodup.2
      · intro u hu
        have hne : u ≠ t := fun heq => hnodup.1 (heq ▸ hu)
        show Function.update q.live t false u = true
        rw [Function.update_of_ne hne]
        exact hlive u (List.mem_cons_of_mem _ hu)
      · show (q.fault || !q.live t) = false
        rw [hsafe, hlive t List.mem_cons_self]
        rfl

/-- The loop over `canceling_timers_`, when its timers are live and not in the queue. -/
theorem foldl_sweep_live {ts : List Nat} : ∀ {q : TimerQueue}, ts.Nodup →
    (∀ t ∈ ts, q.live t = true ∧ q.queued t = 0) →
    ∃ live', (∀ u, live' u = true ↔ q.live u = true ∧ u ∉ ts) ∧
      ts.foldl sweep q = { q with live := live' } := by
  induction ts with
  | nil => exact fun {q} _ _ => ⟨q.live, by simp, rfl⟩
  | cons t ts ih =>
      intro q hnodup hlive
      rw [List.nodup_cons] at hnodup
      obtain ⟨htlive, htqueued⟩ := hlive t List.mem_cons_self
      have hsweep : q.sweep t = { q with live := Function.update q.live t false } := by
        have hnot : ((q.timer t).expiration, t) ∉ q.timers := by
          intro hmem
          have hpos : 0 < q.queued t := queued_pos hmem
          omega
        unfold sweep delete touch
        dsimp only
        rw [List.erase_of_not_mem hnot, htlive, Bool.not_true, Bool.or_false, Bool.or_false]
      have hrest : ∀ u ∈ ts, (q.sweep t).live u = true ∧ (q.sweep t).queued u = 0 := by
        intro u hu
        have hne : u ≠ t := fun heq => hnodup.1 (heq ▸ hu)
        obtain ⟨hulive, huqueued⟩ := hlive u (List.mem_cons_of_mem _ hu)
        rw [hsweep]
        constructor
        · show Function.update q.live t false u = true
          rw [Function.update_of_ne hne]
          exact hulive
        · exact huqueued
      obtain ⟨live', hlive', heq⟩ := ih hnodup.2 hrest
      rw [hsweep] at heq hlive'
      refine ⟨live', fun u => ?_, ?_⟩
      · rw [hlive' u, List.mem_cons]
        by_cases hut : u = t
        · subst hut
          simp
        · show Function.update q.live t false u = true ∧ u ∉ ts ↔ _
          rw [Function.update_of_ne hut]
          simp [hut]
      · rw [List.foldl_cons, hsweep, heq]

end Deletions

section Steps

variable {mem : Addresses} {now : Int} {q q' : TimerQueue} {e : Event}

theorem Cancellable.adding {t : Nat} (hcond : q.Cancellable (now, .cancel t)) (hp : Placed mem q)
    (hcalling : q.callingExpiredTimers = false)
    (hnot : ((q.timer t).expiration, t) ∉ q.timers) : t ∈ q.adding := by
  rcases hcond t rfl with hin | hin | ⟨-, hin⟩
  · exact absurd hin hnot
  · rw [hp.canceling (hp.idle_of_not_calling hcalling)] at hin
    cases hin
  · exact hin

/-- One case per effect: who owns what after it. -/
theorem Owned.effect (h : Owned q) (hp : Placed mem q)
    (hcond : q.Cancellable (now, e)) (heffect : Effect mem now q e q') : Owned q' := by
  have hsafe := h.safe
  have hfree : q.owners q.created = 0 := by
    by_contra hne
    exact absurd (h.created _ (Nat.pos_of_ne_zero hne)) (Nat.lt_irrefl _)
  cases heffect with
  | submit when interval =>
      refine h.new hfree (fun u => ?_) rfl rfl hsafe
      simp only [owners, TimerQueue.places, TimerQueue.queued, allocate, List.count_append,
        List.count_singleton, beq_iff_eq]
      omega
  | add when interval =>
      refine h.new hfree (fun u => ?_) rfl rfl ?_
      · unfold owners
        rw [places_enqueue]
        exact Nat.add_right_comm _ _ _
      · simp [enqueue, touch, allocate, hsafe]
  | @dropped t hidle hadding hpending =>
      have hlive := h.live_of_place (places_pos_of_adding hadding)
      refine h.drop (t := t) (fun u => ?_) rfl rfl ?_
      · exact owners_of_places (places_leaveAdding hadding u) rfl
      · simp [delete, touch, hsafe, hlive]
  | @queued t hidle hadding hpending =>
      have hlive := h.live_of_place (places_pos_of_adding hadding)
      refine h.keep (fun u => ?_) rfl rfl ?_
      · unfold owners
        rw [places_enqueue, places_leaveAdding hadding]
        rfl
      · simp [enqueue, touch, hsafe, hlive]
  | @found t hcalling hmem =>
      -- out of the set and into the canceling ones: one owner before and after
      have hpos := places_pos hmem
      have hlive := h.live_of_place hpos
      refine h.keep (fun u => ?_) rfl rfl ?_
      · have hplaces := places_leaveTimers hmem u
        unfold owners setInsert
        rw [if_neg (h.not_canceling hpos), List.count_cons, ← hplaces]
        simp only [beq_iff_eq]
        exact (Nat.add_assoc _ _ _).symm.trans (Nat.add_right_comm _ _ _)
      · simp [touch, hsafe, hlive]
  | @foundIdle t hcalling hmem =>
      have hlive := h.live_of_place (places_pos hmem)
      refine h.drop (t := t) (fun u => ?_) rfl rfl ?_
      · exact owners_of_places (places_leaveTimers hmem u) rfl
      · simp [delete, touch, hsafe, hlive]
  | @notFound t hcalling hmem hcreated =>
      -- not in the set, and the loop is in a batch: it is canceling already
      have hcanceling : t ∈ q.cancelingTimers := by
        rcases hcond t rfl with hin | hin | ⟨hidle, -⟩
        · exact absurd hin hmem
        · exact hin
        · rw [hcalling] at hidle
          cases hidle
      refine h.keep (fun u => ?_) rfl rfl ?_
      · unfold setInsert
        rw [if_pos hcanceling]
        rfl
      · simp [touch, hsafe, h.live_of_canceling hcanceling]
  | @notFoundIdle t hcalling hmem hcreated =>
      have hadding := hcond.adding hp hcalling hmem
      refine h.keep (fun u => rfl) rfl rfl ?_
      simp [touch, hsafe, h.live_of_place (places_pos_of_adding hadding)]
  | read hidle =>
      refine h.keep (fun u => ?_) rfl rfl hsafe
      unfold owners
      rw [places_beginRead hidle]
      rfl
  | run hphase hnot =>
      have hlive := h.live_of_place (places_pos_of_phase (congrArg Phase.members hphase))
      refine h.keep (fun u => ?_) rfl rfl ?_
      · simp only [owners, TimerQueue.places, hphase]
        rfl
      · simp [touch, hsafe, hlive]
  | skip hphase hmem =>
      -- a timer that has a turn left has its owner in the batch, so it is not canceling
      have hpos := places_pos_of_phase (congrArg Phase.members hphase)
      exact absurd hmem (h.not_canceling hpos)
  | @again t current rest hphase hrepeats hnot =>
      have hmembers := congrArg Phase.members hphase
      have hlive := h.live_of_place (places_pos_of_phase hmembers)
      refine h.keep (fun u => ?_) rfl rfl ?_
      · unfold owners
        rw [places_enqueue, ← places_leaveBatch hmembers u]
        rfl
      · simp [enqueue, touch, hsafe, hlive]
  | @ended t current rest hphase hnot =>
      have hmembers := congrArg Phase.members hphase
      have hlive := h.live_of_place (places_pos_of_phase hmembers)
      refine h.drop (t := t) (fun u => ?_) rfl rfl ?_
      · exact owners_of_places (places_leaveBatch hmembers u) rfl
      · simp [delete, touch, hsafe, hlive]
  | finish hphase =>
      have hnodup : q.cancelingTimers.Nodup := by
        rw [List.nodup_iff_count_le_one]
        intro u
        exact le_trans (Nat.le_add_left _ _) (h.once u)
      -- the sweep deletes each canceling timer once, and nobody else owns it
      have hsweepable : ∀ u ∈ q.cancelingTimers, q.live u = true ∧ q.queued u = 0 := by
        intro u hu
        refine ⟨h.live_of_canceling hu, ?_⟩
        by_contra hne
        refine h.not_canceling ?_ hu
        unfold TimerQueue.places
        omega
      obtain ⟨live', hlive', hsweep⟩ := foldl_sweep_live
        (q := { q with callingExpiredTimers := false, phase := .idle }) hnodup hsweepable
      rw [hsweep]
      refine h.cleared (fun u => ?_) hlive' rfl hsafe
      simp only [owners, TimerQueue.places, TimerQueue.queued, hphase, Phase.members,
        List.count_nil]
      omega

theorem Waiting.effect (h : Waiting q) (hp : Placed mem q) (hcond : q.Cancellable (now, e))
    (heffect : Effect mem now q e q') : Waiting q' := by
  obtain ⟨hadding, hnodup⟩ := h
  cases heffect with
  | submit when interval =>
      exact ⟨fun u hu => List.mem_append_left _ (hadding u hu), hnodup⟩
  | @dropped t hidle hmem hpending =>
      refine ⟨fun u hu => ?_, hnodup.erase t⟩
      obtain ⟨hne, hu⟩ := hnodup.mem_erase_iff.mp hu
      exact (List.mem_erase_of_ne hne).mpr (hadding u hu)
  | @queued t hidle hmem hpending =>
      refine ⟨fun u hu => ?_, hnodup⟩
      have hne : u ≠ t := fun heq => hpending (heq ▸ hu)
      exact (List.mem_erase_of_ne hne).mpr (hadding u hu)
  | @notFoundIdle t hcalling hmem hcreated =>
      have htadding := hcond.adding hp hcalling hmem
      constructor
      · intro u hu
        rcases mem_setInsert.mp hu with rfl | hu
        · exact htadding
        · exact hadding u hu
      · show (setInsert t q.pendingCancelTimers).Nodup
        unfold setInsert
        split
        · exact hnodup
        · rename_i hnot
          exact hnodup.cons hnot
  | finish hphase =>
      obtain ⟨timers', live', fault', -, hsweep⟩ := foldl_sweep q.cancelingTimers
        { q with callingExpiredTimers := false, phase := .idle }
      rw [hsweep]
      exact ⟨hadding, hnodup⟩
  | _ => exact ⟨hadding, hnodup⟩

/-- The destructor deletes the timers of the queue and those waiting for their addition. -/
theorem destroy_safe (h : Owned q) (hp : Placed mem q) (hw : Waiting q)
    (hidle : q.phase = .idle) : q.destroy.fault = false := by
  have hnone := hp.canceling hidle
  apply foldl_delete_safe
  · rw [hnone, List.append_nil, List.nodup_append]
    refine ⟨?_, hw.nodup, ?_⟩
    · rw [List.nodup_iff_count_le_one]
      intro u
      have honce := hp.once u
      unfold TimerQueue.places TimerQueue.queued at honce
      omega
    · rintro u hu v hv rfl
      have honce := hp.once u
      have hqueued := List.count_pos_iff.mpr hu
      have hadding := List.count_pos_iff.mpr (hw.adding u hv)
      unfold TimerQueue.places TimerQueue.queued at honce
      omega
  · intro u hu
    rw [hnone, List.append_nil, List.mem_append] at hu
    rcases hu with hu | hu
    · obtain ⟨entry, hmem, rfl⟩ := List.mem_map.mp hu
      exact h.live_of_place (places_pos hmem)
    · exact h.live_of_place (places_pos_of_adding (hw.adding u hu))
  · exact h.safe

end Steps

open Lib.Machine

theorem owned_run {mem : Addresses} {clock : Int} {es : List (Int × Event)} {q : TimerQueue}
    (hrun : Run (step mem) Cancellable (start clock) es q) :
    Owned q ∧ Placed mem q ∧ Waiting q := by
  apply hrun.invariant fun _ q => Owned q ∧ Placed mem q ∧ Waiting q
  · refine ⟨⟨rfl, fun _ => Nat.zero_le 1, fun _ => ?_, fun _ h => absurd h (Nat.lt_irrefl 0)⟩,
      placed_start clock, ⟨nofun, List.nodup_nil⟩⟩
    exact ⟨fun h => absurd h Bool.false_ne_true, fun h => absurd h (Nat.lt_irrefl 0)⟩
  · rintro - q q' ⟨now, e⟩ ⟨h, hp, hw⟩ hcond hstep
    obtain ⟨hclock, fd₀, q₁, fd, rs, heffect, rfl⟩ := step_cases hp hstep
    have hmoved := hp.moved hclock fd₀ q.resets
    have hcond' : (q.moved now fd₀ q.resets).Cancellable (now, e) := hcond
    have h₀ : Owned (q.moved now fd₀ q.resets) := ⟨h.safe, h.once, h.live, h.created⟩
    have hw₀ : Waiting (q.moved now fd₀ q.resets) := ⟨hw.adding, hw.nodup⟩
    have h₁ := h₀.effect hmoved hcond' heffect
    have hw₁ := hw₀.effect hmoved hcond' heffect
    exact ⟨⟨h₁.safe, h₁.once, h₁.live, h₁.created⟩, hp.step hstep, ⟨hw₁.adding, hw₁.nodup⟩⟩

/-- While every cancel finds its timer in the queue, or waiting to be added, or
cancelled already, no timer is used after its deletion, by the destructor either. -/
theorem timers_owned {mem : Addresses} {clock : Int} {es : List (Int × Event)} {q : TimerQueue}
    (hrun : Run (step mem) Cancellable (start clock) es q) :
    q.fault = false ∧ (q.phase = .idle → q.destroy.fault = false) := by
  obtain ⟨h, hp, hw⟩ := owned_run hrun
  exact ⟨h.safe, destroy_safe h hp hw⟩

/-- A timer is added by another thread, and one that repeats by the loop; that one
cancels itself when it is in the queue again, and then the first is cancelled. -/
theorem timers_owned_in_turn : ∃ q, Run (step someAddresses) Cancellable (start 0)
    [(0, .submit 30 none), (0, .add 10 (some 10)), (0, .addQueued 0), (10, .read), (10, .run 1),
      (11, .done), (11, .finish), (12, .cancel 1), (12, .submit 40 none), (13, .cancel 2),
      (14, .cancel 0)] q ∧
    q.fault = false ∧ q.phase = .idle ∧ q.destroy.fault = false := by
  obtain ⟨q, hexec, hidle⟩ := Option.map_eq_some_iff.mp
    (show (exec (step someAddresses) (fun q e => decide (q.Cancellable e))
      [(0, .submit 30 none), (0, .add 10 (some 10)), (0, .addQueued 0), (10, .read), (10, .run 1),
      (11, .done), (11, .finish), (12, .cancel 1), (12, .submit 40 none), (13, .cancel 2),
      (14, .cancel 0)] (start 0)).map TimerQueue.phase = some .idle by decide)
  have hrun := run_of_exec (fun q e h => of_decide_eq_true h) hexec
  obtain ⟨hsafe, hdestroy⟩ := timers_owned hrun
  exact ⟨q, hrun, hsafe, hidle, hdestroy hidle⟩

/-- A timer that cancels itself in its callback is deleted after its turn, and
read and deleted again at the end of the batch. -/
theorem own_cancel_deletes_twice : ∃ q, Run (step someAddresses) (fun _ _ => True) (start 0)
    [(0, .add 10 none), (10, .read), (10, .run 0), (10, .cancel 0), (11, .done), (11, .finish)] q ∧
    q.fault = true := by
  obtain ⟨q, hexec, hfault⟩ := Option.map_eq_some_iff.mp
    (show (exec (step someAddresses) (fun _ _ => true)
      [(0, .add 10 none), (10, .read), (10, .run 0), (10, .cancel 0), (11, .done), (11, .finish)]
      (start 0)).map TimerQueue.fault = some true by decide)
  exact ⟨q, run_of_exec (fun _ _ _ => trivial) hexec, hfault⟩

end TimerQueue

end SolarDrive.Network
