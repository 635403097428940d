import SolarDrive.Lib.SlidingWindow
import SolarDrive.Cache.RateLimiter

/-!
# The limiter counts exactly

The sorted set of a client is pruned, extended only when a call is allowed, and dropped
when it expires; `Tracks` relates it to the log of all calls that were allowed. Its members
are built from the time and a counter that wraps around. Two calls at one time never get
the same member: once a call is refused all further ones at that time are, so the members
of one time come from consecutive counts, fewer than the limit.
-/

namespace SolarDrive.Cache

open Lib Lib.SlidingWindow

/-! ## Members -/

theorem decimalInt_injective : Function.Injective decimalInt := by
  have hdash : ∀ m n : Nat, decimal m ≠ DASH :: decimal n := by
    intro m n h
    have hmem : DASH ∈ decimal m := by
      rw [h]
      exact List.mem_cons_self
    exact absurd (isDigit_of_mem_decimal hmem) (by decide)
  intro a b h
  cases a with
  | ofNat m =>
      cases b with
      | ofNat n => exact congrArg Int.ofNat (decimal_injective h)
      | negSucc n => exact absurd h (hdash m (n + 1))
  | negSucc m =>
      cases b with
      | ofNat n => exact absurd h.symm (hdash n (m + 1))
      | negSucc n =>
          have hsucc := decimal_injective (List.cons.inj h).2
          exact congrArg Int.negSucc (Nat.succ_injective hsucc)

theorem colon_not_mem_decimalInt (v : Int) : COLON ∉ decimalInt v := by
  have hdecimal : ∀ n : Nat, COLON ∉ decimal n := fun n h =>
    absurd (isDigit_of_mem_decimal h) (by decide)
  cases v with
  | ofNat n => exact hdecimal n
  | negSucc n =>
      intro h
      rcases List.mem_cons.mp h with h | h
      · exact absurd h (by decide)
      · exact hdecimal (n + 1) h

/-- A member tells its time and its count. -/
theorem memberOf_injective {ts ts' : Int} {seq seq' : UInt64}
    (h : memberOf ts seq = memberOf ts' seq') : ts = ts' ∧ seq = seq' := by
  have hcut := cutAt_append (decimal seq.toNat) (colon_not_mem_decimalInt ts)
  rw [show decimalInt ts ++ COLON :: decimal seq.toNat = memberOf ts' seq' from h] at hcut
  unfold memberOf at hcut
  rw [cutAt_append _ (colon_not_mem_decimalInt ts'), Option.some.injEq, Prod.mk.injEq] at hcut
  exact ⟨(decimalInt_injective hcut.1).symm,
    UInt64.toNat_inj.mp (decimal_injective hcut.2).symm⟩

/-- A count that lies fewer than 2^64 steps back is another one. -/
theorem sub_ne_self {seq : UInt64} {i : Nat} (hpos : 0 < i) (hlt : i < 2 ^ 64) :
    seq - UInt64.ofNat i ≠ seq := by
  intro h
  have hzero : UInt64.ofNat i = 0 := by grind
  have hnat := congrArg UInt64.toNat hzero
  rw [UInt64.toNat_ofNat_of_lt' hlt] at hnat
  simp at hnat
  omega

/-! ## The sorted set and the log -/

/-- The set of a client after the calls up to `T`, when `log` are the times of those that
were allowed. -/
structure Tracks (L : Nat) (W : Int) (k : SortedSet) (seq : UInt64) (log : List Int) (T : Int) :
    Prop where
  log_le : ∀ u ∈ log, u ≤ T
  /-- All up to some time that lies outside of every window to come has been removed. -/
  scores : ∃ cut ≤ T - W, k.entries.map Prod.snd = log.filter fun u => decide (cut < u)
  /-- When the set expires, none of its members counts. -/
  expires : ∀ e, k.expireAt = some e → ∀ x ∈ k.entries, x.2 + W ≤ e
  members : ∀ x ∈ k.entries, ∃ s, x.1 = memberOf x.2 s
  /-- No further call at `T` is allowed, or all members of that time have recent counts. -/
  counts : L ≤ recent W log T ∨
    ∀ x ∈ k.entries, x.2 = T → ∃ i, 0 < i ∧ i ≤ log.count T ∧ x.1 = memberOf T (seq - UInt64.ofNat i)

section Step

variable {L : Nat} {W : Int} {k : SortedSet} {seq : UInt64} {log : List Int} {T t : Int}

theorem tracks_empty (seq : UInt64) (T : Int) : Tracks L W {} seq [] T where
  log_le := by simp
  scores := ⟨T - W, le_refl _, rfl⟩
  expires := by
    intro e h
    cases h
  members := by simp
  counts := .inr (by simp)

/-- After pruning the set is the window that ends now. -/
theorem pruned_scores (h : Tracks L W k seq log T) (ht : T ≤ t) :
    (k.pruned t W).entries.map Prod.snd = log.filter fun u => decide (t - W < u) := by
  obtain ⟨cut, hcut, hscores⟩ := h.scores
  have hfilter : (k.entries.filter fun e => decide (t - W < e.2)).map Prod.snd =
      log.filter fun u => decide (t - W < u) := by
    rw [← filter_filter_of_le (show cut ≤ t - W by omega), ← hscores, List.filter_map]
    rfl
  unfold SortedSet.pruned
  rw [SortedSet.entries_zremrangebyscore]
  rcases SortedSet.live_cases t k with hlive | ⟨hlive, e, hexpire, hgone⟩
  · rw [hlive]
    exact hfilter
  · -- nothing that has expired is in the window
    have hnone : (k.entries.filter fun e => decide (t - W < e.2)) = [] := by
      refine List.filter_eq_nil_iff.mpr fun x hx => ?_
      have hold := h.expires e hexpire x hx
      rw [decide_eq_true_eq]
      omega
    rw [hlive, ← hfilter, hnone]
    rfl

theorem mem_pruned {x : Bytes × Int} (hx : x ∈ (k.pruned t W).entries) : x ∈ k.entries := by
  unfold SortedSet.pruned at hx
  rw [SortedSet.entries_zremrangebyscore] at hx
  have hmem := List.mem_of_mem_filter hx
  rcases SortedSet.live_cases t k with hlive | ⟨hlive, -⟩
  · rwa [hlive] at hmem
  · rw [hlive] at hmem
    cases hmem

/-- Its size is the number of calls allowed in the window. -/
theorem length_pruned (h : Tracks L W k seq log T) (ht : T ≤ t) :
    (k.pruned t W).entries.length = recent W log t := by
  rw [recent_eq_of_le fun u hu => le_trans (h.log_le u hu) ht, ← pruned_scores h ht,
    List.length_map]

theorem expireAt_pruned {e : Int} (h : (k.pruned t W).expireAt = some e) : k.expireAt = some e := by
  have hlive := SortedSet.expireAt_zremrangebyscore h
  rcases SortedSet.live_cases t k with heq | ⟨heq, -⟩
  · rwa [heq] at hlive
  · rw [heq] at hlive
    cases hlive

/-- What is in the set has a time of the log. -/
theorem score_mem {x : Bytes × Int} (h : Tracks L W k seq log T) (hx : x ∈ k.entries) :
    x.2 ∈ log := by
  obtain ⟨cut, -, hscores⟩ := h.scores
  have hmem : x.2 ∈ k.entries.map Prod.snd := List.mem_map_of_mem hx
  rw [hscores] at hmem
  exact List.mem_of_mem_filter hmem

/-- While there is room no member of the set is the next one. -/
theorem member_fresh (h : Tracks L W k seq log T) (hL : L < 2 ^ 31) (hW : 0 < W) (ht : T ≤ t)
    (hroom : recent W log t < L) : memberOf t seq ∉ k.entries.map Prod.fst := by
  intro hmem
  obtain ⟨x, hx, hname⟩ := List.mem_map.mp hmem
  obtain ⟨s, hs⟩ := h.members x hx
  obtain ⟨htime, -⟩ := memberOf_injective (hs.symm.trans hname)
  have hlast := h.log_le x.2 (score_mem h hx)
  obtain rfl : T = t := by omega
  rcases h.counts with hfull | hcounts
  · omega
  · obtain ⟨i, hpos, hle, hi⟩ := hcounts x hx htime
    obtain ⟨-, hseq⟩ := memberOf_injective (hi.symm.trans hname)
    have hcount : log.count T ≤ recent W log T := by
      unfold recent List.count
      refine List.countP_mono_left fun u hu hu' => ?_
      rw [beq_iff_eq] at hu'
      rw [decide_eq_true_eq]
      omega
    exact sub_ne_self hpos (by omega) hseq

/-- A call that is refused: the set is pruned only. -/
theorem Tracks.refused (h : Tracks L W k seq log T) (ht : T ≤ t)
    (hfull : L ≤ recent W log t) : Tracks L W (k.pruned t W) (seq + 1) log t where
  log_le := fun u hu => le_trans (h.log_le u hu) ht
  scores := ⟨t - W, le_refl _, pruned_scores h ht⟩
  expires := fun e he x hx => h.expires e (expireAt_pruned he) x (mem_pruned hx)
  members := fun x hx => h.members x (mem_pruned hx)
  counts := .inl hfull

/-- A call that is allowed: its time is added under a member of its own. -/
theorem Tracks.allowed (h : Tracks L W k seq log T) (hL : L < 2 ^ 31) (hW : 0 < W) (ht : T ≤ t)
    (hroom : recent W log t < L) :
    Tracks L W (((k.pruned t W).zadd t (memberOf t seq)).pexpire t W) (seq + 1) (log ++ [t]) t := by
  have hfresh : memberOf t seq ∉ (k.pruned t W).entries.map Prod.fst := by
    intro hmem
    obtain ⟨x, hx, hname⟩ := List.mem_map.mp hmem
    exact member_fresh h hL hW ht hroom (List.mem_map.mpr ⟨x, mem_pruned hx, hname⟩)
  have hadd : ((k.pruned t W).zadd t (memberOf t seq)).pexpire t W =
      { entries := (k.pruned t W).entries ++ [(memberOf t seq, t)], expireAt := some (t + W) } := by
    unfold SortedSet.zadd
    rw [if_neg hfresh]
    rfl
  rw [hadd]
  refine ⟨?_, ⟨t - W, le_refl _, ?_⟩, ?_, ?_, ?_⟩
  · intro u hu
    rcases List.mem_append.mp hu with hu | hu
    · exact le_trans (h.log_le u hu) ht
    · exact le_of_eq (List.mem_singleton.mp hu)
  · have hnew : t - W < t := by omega
    rw [List.map_append, pruned_scores h ht, List.filter_append]
    simp [hnew]
  · rintro e he x hx
    cases he
    rcases List.mem_append.mp hx with hx | hx
    · have hlast := h.log_le x.2 (score_mem h (mem_pruned hx))
      omega
    · rw [List.mem_singleton.mp hx]
  · intro x hx
    rcases List.mem_append.mp hx with hx | hx
    · exact h.members x (mem_pruned hx)
    · rw [List.mem_singleton.mp hx]
      exact ⟨seq, rfl⟩
  · refine .inr fun x hx htime => ?_
    rw [List.count_append, List.count_singleton_self]
    rcases List.mem_append.mp hx with hx | hx
    · have hold := mem_pruned hx
      have hlast := h.log_le x.2 (score_mem h hold)
      obtain rfl : T = t := by omega
      rcases h.counts with hfull | hcounts
      · omega
      · obtain ⟨i, hpos, hle, hi⟩ := hcounts x hold htime
        refine ⟨i + 1, Nat.succ_pos i, by omega, ?_⟩
        have hback : seq - UInt64.ofNat i = seq + 1 - UInt64.ofNat (i + 1) := by
          have hone : UInt64.ofNat (i + 1) = UInt64.ofNat i + 1 := UInt64.ofNat_add i 1
          grind
        rw [hi, hback]
    · rw [List.mem_singleton.mp hx]
      refine ⟨1, Nat.one_pos, by omega, ?_⟩
      simp

end Step

/-! ## Runs -/

/-- The calls of one client at some times, each answered by Redis. -/
def callsAt (client : Bytes) (times : List Int) : List Call :=
  times.map fun ts => { client, ts, exchange := .answered }

/-- The times of a run with the answers of the limiter. -/
def history (limit windowMs : Int) (w : World) (client : Bytes) (times : List Int) :
    List (Int × Bool) :=
  (serve limit windowMs w (callsAt client times)).map fun s => (s.call.ts, s.allowed)

section Run

variable {L : Nat} {W : Int} {client : Bytes} {w : World} {log : List Int} {T t : Int}

/-- One call, answered as by the machine that keeps the whole log. -/
theorem allow_tracks (hL : 0 < L) (hrange : L < 2 ^ 31) (hW : 0 < W) (hclient : client ≠ [])
    (hredis : w.redis = some ⟨true, false⟩) (ht : T ≤ t)
    (h : Tracks L W (w.keys (cstr (keyOf client))) w.seq log T) :
    (allow L W w client t .answered).2.1 = decide (recent W log t < L) ∧
      (allow L W w client t .answered).1.redis = some ⟨true, false⟩ ∧
      Tracks L W ((allow L W w client t .answered).1.keys (cstr (keyOf client)))
        (allow L W w client t .answered).1.seq
        (if recent W log t < L then log ++ [t] else log) t := by
  have hlength := length_pruned h ht
  rw [allow_sent (by omega) hW hclient hredis rfl]
  unfold sentBy redisCommand evalScript SortedSet.script
  dsimp only
  rw [if_neg Bool.false_ne_true]
  dsimp only
  by_cases hroom : recent W log t < L
  · have hguard : ¬ ((L : Int) ≤
        ((w.keys (cstr (keyOf client))).pruned t W).entries.length) := by omega
    rw [if_neg hguard, if_pos hroom]
    dsimp only
    rw [Function.update_self, decide_eq_true hroom]
    exact ⟨rfl, rfl, h.allowed hrange hW ht hroom⟩
  · have hguard : (L : Int) ≤ ((w.keys (cstr (keyOf client))).pruned t W).entries.length := by
      omega
    rw [if_pos hguard, if_neg hroom]
    dsimp only
    rw [Function.update_self, decide_eq_false hroom]
    exact ⟨rfl, rfl, h.refused ht (Nat.le_of_not_lt hroom)⟩

/-- So is a whole run. -/
theorem history_eq (hL : 0 < L) (hrange : L < 2 ^ 31) (hW : 0 < W) (hclient : client ≠ []) :
    ∀ {times : List Int} {w : World} {log : List Int} {T : Int},
      w.redis = some ⟨true, false⟩ → Tracks L W (w.keys (cstr (keyOf client))) w.seq log T →
      times.Pairwise (· ≤ ·) → (∀ t ∈ times, T ≤ t) →
      history L W w client times = answers L W log times
  | [], _, _, _, _, _, _, _ => rfl
  | t :: times, w, log, T, hredis, h, hsorted, hfirst => by
      obtain ⟨hnext, hrest⟩ := List.pairwise_cons.mp hsorted
      obtain ⟨hallowed, hredis', htracks⟩ := allow_tracks hL hrange hW hclient hredis
        (hfirst t List.mem_cons_self) h
      have ih := history_eq hL hrange hW hclient hredis' htracks hrest hnext
      change (t, (allow L W w client t .answered).2.1) ::
        history L W (allow L W w client t .answered).1 client times = _
      rw [ih, hallowed, answers]
      simp only [decide_eq_true_eq]

end Run

/-- **The limiter is an exact sliding window.** A call is allowed exactly when fewer than `L`
of the earlier ones were allowed in the window that ends with it; and no window of that
length, wherever it ends, has more than `L` calls that were allowed. -/
theorem exact_window {L : Nat} {W : Int} {client : Bytes} {w : World} {times : List Int}
    (hL : 0 < L) (hrange : L < 2 ^ 31) (hW : 0 < W) (hclient : client ≠ [])
    (hredis : w.redis = some ⟨true, false⟩) (hnew : w.keys (cstr (keyOf client)) = {})
    (hsorted : times.Pairwise (· ≤ ·)) :
    (∀ earlier t later, times = earlier ++ t :: later →
      history L W w client (earlier ++ [t]) = history L W w client earlier ++
        [(t, decide (recent W (admitted (history L W w client earlier)) t < L))]) ∧
    ∀ a, recent W (admitted (history L W w client times)) a ≤ L := by
  have hstart : ∀ T, Tracks L W (w.keys (cstr (keyOf client))) w.seq [] T := by
    intro T
    rw [hnew]
    exact tracks_empty w.seq T
  have heq : ∀ ts : List Int, ts.Pairwise (· ≤ ·) →
      history L W w client ts = answers L W [] ts := by
    intro ts hts
    cases ts with
    | nil => rfl
    | cons t ts =>
        refine history_eq hL hrange hW hclient hredis (hstart t) hts fun u hu => ?_
        rcases List.mem_cons.mp hu with rfl | hu
        · exact le_refl u
        · exact (List.pairwise_cons.mp hts).1 u hu
  constructor
  · rintro earlier t later rfl
    rw [List.append_cons] at hsorted
    have hupto : (earlier ++ [t]).Pairwise (· ≤ ·) :=
      hsorted.sublist (List.sublist_append_left _ _)
    have hearlier : earlier.Pairwise (· ≤ ·) := hupto.sublist (List.sublist_append_left _ _)
    rw [heq _ hupto, heq _ hearlier, answers_append, List.nil_append]
  · intro a
    rw [heq times hsorted]
    have hall := admitted_answers (L := L) (W := W) times .nil hsorted (by simp)
    rw [List.nil_append] at hall
    exact hall.recent_le a

/-- Three calls a minute with a limit of two: the second at the same instant as the first is
allowed and the third is not; when the first two leave the window another one is. -/
theorem two_a_minute : history 2 60000
      { redis := some ⟨true, false⟩, seq := 0, keys := fun _ => {} } (ascii "10.0.0.1")
      [1000, 1000, 30000, 61000] = [(1000, true), (1000, true), (30000, false), (61000, true)] ∧
    recent 60000 (admitted (history 2 60000
      { redis := some ⟨true, false⟩, seq := 0, keys := fun _ => {} } (ascii "10.0.0.1")
      [1000, 1000, 30000, 61000])) 60999 ≤ 2 :=
  ⟨by decide +kernel,
    (exact_window (L := 2) (by decide) (by decide) (by decide) (by decide) rfl rfl
      (by decide)).2 60999⟩

end SolarDrive.Cache
