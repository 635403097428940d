import Mathlib.Data.List.Nodup
import Mathlib.Data.List.Range
import SolarDrive.Lib.Lending

/-!
# The connection pool

`acquire` waits for a connection and wraps it in a `Guard`, whose destructor
gives it back with `release`. A thread that runs a DAO function has one guard at
a time. The queue, the lock and the condition variable are those of
`Lib.Lending`, with the connections for resources.
-/

namespace SolarDrive.Metadata

open Lib.Lending Lib.Machine

/-- The threads `T` share connections `C`. -/
abbrev DbPool (T C : Type) : Type := Monitor T C

namespace DbPool

variable {T C : Type}

/-- The loop of the constructor; the first connection that cannot be opened ends it. -/
def openAll (connect : Nat → Option C) : Nat → Option (List C)
  | 0 => some []
  | i + 1 => do
      let opened ← openAll connect i
      let conn ← connect i
      return opened ++ [conn]

/-- `DbPool::DbPool`. -/
def new (connect : Nat → Option C) (poolSize : Int) : Option (DbPool T C) :=
  (openAll connect poolSize.toNat).map fun opened => { idle := opened }

/-- The connection is in the thread's guard, or between it and the queue. -/
def Uses (pool : DbPool T C) (t : T) (c : C) : Prop := c ∈ (pool.place t).held

/-- Two connections are not the same object. -/
def Distinct (connect : Nat → Option C) : Prop :=
  ∀ i j c, connect i = some c → connect j = some c → i = j

theorem openAll_spec {connect : Nat → Option C} : ∀ {n : Nat} {opened : List C},
    openAll connect n = some opened → (List.range n).map connect = opened.map some
  | 0, opened, h => by
      cases h
      rfl
  | n + 1, opened, h => by
      obtain ⟨before, hbefore, h⟩ := Option.bind_eq_some_iff.mp h
      obtain ⟨conn, hconn, h⟩ := Option.bind_eq_some_iff.mp h
      cases h
      rw [List.range_succ, List.map_append, openAll_spec hbefore, List.map_append]
      show before.map some ++ [connect n] = _
      rw [hconn]
      rfl

theorem nodup_opened {connect : Nat → Option C} (hdistinct : Distinct connect) {n : Nat}
    {opened : List C} (h : openAll connect n = some opened) : opened.Nodup := by
  have hmap := openAll_spec h
  have hsome : ∀ i ∈ List.range n, ∃ c, connect i = some c := by
    intro i hi
    have hmem : connect i ∈ opened.map some := hmap ▸ List.mem_map_of_mem hi
    obtain ⟨c, -, hc⟩ := List.mem_map.mp hmem
    exact ⟨c, hc.symm⟩
  have hnodup : ((List.range n).map connect).Nodup := by
    refine List.nodup_range.map_on fun i hi j _ heq => ?_
    obtain ⟨c, hc⟩ := hsome i hi
    exact hdistinct i j c hc (heq ▸ hc)
  rw [hmap] at hnodup
  exact hnodup.of_map

section Runs

variable [Fintype T] [DecidableEq T] {connect : Nat → Option C} {poolSize : Int}
  {pool pool' : DbPool T C} {es es' : List (Event T)}

/-- **In every interleaving each connection that was opened is idle or with one
thread**, and at most one thread is at the queue. -/
theorem connections_exclusive (hdistinct : Distinct connect)
    (hnew : new connect poolSize = some pool)
    (hrun : Run Monitor.step (fun _ _ => True) pool es pool') :
    (∀ c, (∃ i < poolSize.toNat, connect i = some c) ↔ c ∈ pool'.idle ∨ ∃ t, pool'.Uses t c) ∧
      pool'.idle.Nodup ∧
      (∀ t c, pool'.Uses t c → c ∉ pool'.idle ∧ ∀ u, pool'.Uses u c → u = t) ∧
      ∀ t u, (pool'.place t).ownsLock = true → (pool'.place u).ownsLock = true → t = u := by
  obtain ⟨opened, hopen, rfl⟩ := Option.map_eq_some_iff.mp hnew
  have hsound := Monitor.sound_run hrun
  have hnodup : (opened : Multiset C).Nodup := Multiset.coe_nodup.mpr (nodup_opened hdistinct hopen)
  refine ⟨fun c => ?_, ?_, fun t c ht => hsound.exclusive hnodup ht, fun t u ht hu => ?_⟩
  · refine Iff.trans ?_ (hsound.mem_iff c)
    rw [Multiset.mem_coe]
    have hmem : c ∈ opened ↔ some c ∈ (List.range poolSize.toNat).map connect := by
      rw [openAll_spec hopen]
      exact (List.mem_map_of_injective (Option.some_injective C)).symm
    rw [hmem, List.mem_map]
    simp only [List.mem_range]
  · exact Multiset.coe_nodup.mp (Multiset.nodup_of_le hsound.idle_le hnodup)
  · exact Option.some.inj (((hsound.locked t).mp ht).symm.trans ((hsound.locked u).mp hu))

/-- Of three threads and one connection: the third takes it before the second, which
was woken for it, and which sleeps again. -/
def overtaken : List (Event (Fin 3)) :=
  [.acquire 0, .lock 0, .take 0, .acquire 1, .lock 1, .sleep 1, .release 0, .lock 0, .put 0,
    .acquire 2, .lock 2, .take 2, .notify 0 (some 1), .lock 1, .sleep 1]

theorem opens_one : new (some : Nat → Option Nat) 1 = some ({ idle := [0] } : DbPool (Fin 3) Nat) :=
  rfl

theorem overtaken_exclusive : ∃ pool : DbPool (Fin 3) Nat,
    Run Monitor.step (fun _ _ => True) { idle := [0] } overtaken pool ∧
      pool.Uses 2 0 ∧ ∀ u, pool.Uses u 0 → u = 2 := by
  obtain ⟨pool, hexec, huses⟩ : ∃ pool : DbPool (Fin 3) Nat,
      exec Monitor.step (fun _ _ => true) overtaken { idle := [0] } = some pool ∧
        pool.place 2 = .holding 0 := ⟨_, rfl, by decide⟩
  have huses : pool.Uses 2 0 := by
    rw [Uses, huses]
    exact Multiset.mem_singleton_self 0
  have hrun := run_of_exec (fun _ _ _ => trivial) hexec
  have hdistinct : Distinct (some : Nat → Option Nat) := fun i j c hi hj =>
    Option.some.inj (hi.trans hj.symm)
  have hall := connections_exclusive hdistinct opens_one hrun
  exact ⟨pool, hrun, huses, (hall.2.2.1 2 0 huses).2⟩

/-- **With a connection to lend nobody waits for ever.** A thread that sleeps while
a connection is idle is about to be woken or overtaken; and however the threads
that have begun an `acquire` or hold a guard are scheduled, without new calls and
stray wakeups they take at most eight steps each, and can only stop when all of
them are through. -/
theorem everyone_served (hsize : 0 < poolSize) (hnew : new connect poolSize = some pool)
    (hrun : Run Monitor.step (fun _ _ => True) pool es pool') :
    ((∃ t, (pool'.place t).isAsleep = true) → pool'.idle ≠ [] →
        ∃ t, 0 < (pool'.place t).alert) ∧
      ∀ (work : List (Event T)) (final : DbPool T C),
        Run Monitor.step (fun _ e => e.isWork = true) pool' work final →
        work.length ≤ 8 * Fintype.card T ∧
          ((∀ e, e.isWork = true → final.step e = none) → ∀ t, final.place t = .outside) := by
  obtain ⟨opened, hopen, rfl⟩ := Option.map_eq_some_iff.mp hnew
  have hsound := Monitor.sound_run hrun
  have hne : (opened : Multiset C) ≠ 0 := by
    have hlen : poolSize.toNat = opened.length := by
      have := congrArg List.length (openAll_spec hopen)
      rwa [List.length_map, List.length_map, List.length_range] at this
    intro hzero
    rw [Multiset.coe_eq_zero] at hzero
    rw [hzero, List.length_nil] at hlen
    omega
  refine ⟨fun hsleeper hidle => hsound.someone_on_the_way hsleeper hidle, fun work final hwork => ?_⟩
  have hlength := Monitor.length_le_rank hwork
  have hbound := Monitor.total_rank_le pool'
  refine ⟨by omega, fun hstuck t => ?_⟩
  have hfinal : Monitor.Sound (opened : Multiset C) final := by
    apply hwork.invariant fun _ m => Monitor.Sound (opened : Multiset C) m
    · exact hsound
    · exact fun h _ hstep => h.step hstep
  by_contra ht
  obtain ⟨e, m', he, hstep⟩ := hfinal.goes_on hne ⟨t, ht⟩
  rw [hstuck e he] at hstep
  cases hstep

/-- From there: the third returns it, and the second gets it and returns it. -/
def workedOff : List (Event (Fin 3)) :=
  [.release 2, .lock 2, .put 2, .notify 2 (some 1), .lock 1, .take 1, .release 1, .lock 1, .put 1,
    .notify 1 none]

theorem overtaken_served : ∃ pool final : DbPool (Fin 3) Nat,
    Run Monitor.step (fun _ _ => True) { idle := [0] } overtaken pool ∧
      (pool.place 1).isAsleep = true ∧
      Run Monitor.step (fun _ e => e.isWork = true) pool workedOff final ∧
      ∀ t, final.place t = .outside := by
  obtain ⟨pool, final, hexec, hwork, hasleep, hstuck⟩ : ∃ pool final : DbPool (Fin 3) Nat,
      exec Monitor.step (fun _ _ => true) overtaken { idle := [0] } = some pool ∧
        exec Monitor.step (fun _ e => e.isWork) workedOff pool = some final ∧
        (pool.place 1).isAsleep = true ∧
        ∀ t u, final.step (.lock t) = none ∧ final.step (.take t) = none ∧
          final.step (.sleep t) = none ∧ final.step (.release t) = none ∧
          final.step (.put t) = none ∧ final.step (.notify t none) = none ∧
          final.step (.notify t (some u)) = none := ⟨_, _, rfl, rfl, by decide, by decide⟩
  have hrun := run_of_exec (fun _ _ _ => trivial) hexec
  have hrest := run_of_exec (fun _ _ h => h) hwork
  refine ⟨pool, final, hrun, hasleep, hrest, ?_⟩
  refine ((everyone_served Int.one_pos opens_one hrun).2 workedOff final hrest).2 ?_
  intro e he
  cases e with
  | acquire t => cases he
  | stir t => cases he
  | lock t => exact (hstuck t t).1
  | take t => exact (hstuck t t).2.1
  | sleep t => exact (hstuck t t).2.2.1
  | release t => exact (hstuck t t).2.2.2.1
  | put t => exact (hstuck t t).2.2.2.2.1
  | notify t woken =>
      cases woken with
      | none => exact (hstuck t t).2.2.2.2.2.1
      | some u => exact (hstuck t u).2.2.2.2.2.2

end Runs

end DbPool

end SolarDrive.Metadata
