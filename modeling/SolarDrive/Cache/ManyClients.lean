import SolarDrive.Cache.ExactWindow

/-!
# Many clients

All clients count with one counter and keep their sets in one Redis. A call of another
client leaves a set alone but moves the counter on, so the members of one time no longer
come from consecutive counts; they are still apart while fewer than 2^64 calls fall on it.
Then a client among others is answered as if it were alone.
-/

namespace SolarDrive.Cache

open Lib Lib.SlidingWindow

/-- A call that is counted in the window of a client: Redis sees the key up to a NUL. -/
def SameWindow (client other : Bytes) : Prop :=
  other ≠ [] ∧ cstr (keyOf other) = cstr (keyOf client)

instance (client other : Bytes) : Decidable (SameWindow client other) :=
  inferInstanceAs (Decidable (_ ∧ _))

/-- Calls of any clients, each answered by Redis. -/
def interleaved (calls : List (Bytes × Int)) : List Call :=
  calls.map fun c => { client := c.1, ts := c.2, exchange := .answered }

/-- What a run answers to one client. -/
def answersTo (client : Bytes) (run : List Served) : List (Int × Bool) :=
  (run.filter fun s => SameWindow client s.call.client).map fun s => (s.call.ts, s.allowed)

/-- When a client calls. -/
def timesOf (client : Bytes) (calls : List (Bytes × Int)) : List Int :=
  (calls.filter fun c => SameWindow client c.1).map Prod.snd

/-- The set of a client among others: `past` are the times of all calls so far, and the
members of the last of them have counts that lie no more than its calls back. -/
structure Shared (W : Int) (k : SortedSet) (seq : UInt64) (past log : List Int) (T : Int) :
    Prop where
  tracks : Tracks 0 W k seq log T
  counts : ∀ x ∈ k.entries, x.2 = T →
    ∃ i, 0 < i ∧ i ≤ past.count T ∧ x.1 = memberOf T (seq - UInt64.ofNat i)

/-! ## One call -/

section Step

variable {L : Nat} {W : Int} {k : SortedSet} {seq : UInt64} {past log : List Int} {T t : Int}

theorem Tracks.later (h : Tracks 0 W k seq log T) (ht : T ≤ t) (seq' : UInt64) :
    Tracks 0 W k seq' log t where
  log_le := fun u hu => le_trans (h.log_le u hu) ht
  scores := by
    obtain ⟨cut, hcut, hscores⟩ := h.scores
    exact ⟨cut, by omega, hscores⟩
  expires := h.expires
  members := h.members
  counts := .inl (Nat.zero_le _)

/-- A member of the present time was there at the last one. -/
theorem Shared.same_time (h : Shared W k seq past log T) (ht : T ≤ t) {x : Bytes × Int}
    (hx : x ∈ k.entries) (htime : x.2 = t) : T = t := by
  have hlast := h.tracks.log_le x.2 (score_mem h.tracks hx)
  omega

/-- A call that adds nothing to the set: of another client, or refused. -/
theorem Shared.counted (h : Shared W k seq past log T) (ht : T ≤ t) {k' : SortedSet}
    (htracks : Tracks 0 W k' (seq + 1) log t) (hsub : ∀ x ∈ k'.entries, x ∈ k.entries) :
    Shared W k' (seq + 1) (past ++ [t]) log t where
  tracks := htracks
  counts := by
    intro x hx htime
    obtain rfl := h.same_time ht (hsub x hx) htime
    obtain ⟨i, hpos, hle, hi⟩ := h.counts x (hsub x hx) htime
    rw [List.count_append, List.count_singleton_self]
    refine ⟨i + 1, Nat.succ_pos i, by omega, ?_⟩
    have hback : seq - UInt64.ofNat i = seq + 1 - UInt64.ofNat (i + 1) := by
      have hone : UInt64.ofNat (i + 1) = UInt64.ofNat i + 1 := UInt64.ofNat_add i 1
      grind
    rw [hi, hback]

/-- A call that does not reach Redis. -/
theorem Shared.skipped (h : Shared W k seq past log T) (ht : T ≤ t) :
    Shared W k seq (past ++ [t]) log t where
  tracks := h.tracks.later ht seq
  counts := by
    intro x hx htime
    obtain rfl := h.same_time ht hx htime
    obtain ⟨i, hpos, hle, hi⟩ := h.counts x hx htime
    rw [List.count_append]
    exact ⟨i, hpos, by omega, hi⟩

theorem Shared.other (h : Shared W k seq past log T) (ht : T ≤ t) :
    Shared W k (seq + 1) (past ++ [t]) log t :=
  h.counted ht (h.tracks.later ht (seq + 1)) fun _ hx => hx

theorem Shared.refused (h : Shared W k seq past log T) (ht : T ≤ t) :
    Shared W (k.pruned t W) (seq + 1) (past ++ [t]) log t :=
  h.counted ht (h.tracks.refused ht (Nat.zero_le _)) fun _ hx => mem_pruned hx

/-- The next member is new: fewer than 2^64 calls came at its time. -/
theorem Shared.member_fresh (h : Shared W k seq past log T) (ht : T ≤ t)
    (hcount : past.count t < 2 ^ 64) : memberOf t seq ∉ (k.pruned t W).entries.map Prod.fst := by
  intro hmem
  obtain ⟨x, hx, hname⟩ := List.mem_map.mp hmem
  have hold := mem_pruned hx
  obtain ⟨s, hs⟩ := h.tracks.members x hold
  obtain ⟨htime, -⟩ := memberOf_injective (hs.symm.trans hname)
  obtain rfl := h.same_time ht hold htime
  obtain ⟨i, hpos, hle, hi⟩ := h.counts x hold htime
  obtain ⟨-, hseq⟩ := memberOf_injective (hi.symm.trans hname)
  exact sub_ne_self hpos (by omega) hseq

theorem Shared.allowed (h : Shared W k seq past log T) (hW : 0 < W) (ht : T ≤ t)
    (hcount : past.count t < 2 ^ 64) :
    Shared W (((k.pruned t W).zadd t (memberOf t seq)).pexpire t W) (seq + 1) (past ++ [t])
      (log ++ [t]) t := by
  have hpruned := h.refused ht
  have hadd : ((k.pruned t W).zadd t (memberOf t seq)).pexpire t W =
      { entries := (k.pruned t W).entries ++ [(memberOf t seq, t)], expireAt := some (t + W) } := by
    unfold SortedSet.zadd
    rw [if_neg (h.member_fresh ht hcount)]
    rfl
  rw [hadd]
  refine ⟨⟨?_, ⟨t - W, le_refl _, ?_⟩, ?_, ?_, .inl (Nat.zero_le _)⟩, ?_⟩
  · intro u hu
    rcases List.mem_append.mp hu with hu | hu
    · exact hpruned.tracks.log_le u hu
    · exact le_of_eq (List.mem_singleton.mp hu)
  · have hnew : t - W < t := by omega
    rw [List.map_append, pruned_scores h.tracks ht, List.filter_append]
    simp [hnew]
  · rintro e he x hx
    cases he
    rcases List.mem_append.mp hx with hx | hx
    · have hlast := hpruned.tracks.log_le x.2 (score_mem hpruned.tracks hx)
      omega
    · rw [List.mem_singleton.mp hx]
  · intro x hx
    rcases List.mem_append.mp hx with hx | hx
    · exact hpruned.tracks.members x hx
    · rw [List.mem_singleton.mp hx]
      exact ⟨seq, rfl⟩
  · intro x hx htime
    rcases List.mem_append.mp hx with hx | hx
    · exact hpruned.counts x hx htime
    · rw [List.mem_singleton.mp hx, List.count_append, List.count_singleton_self]
      exact ⟨1, Nat.one_pos, by omega, by simp⟩

end Step

/-! ## Calls in a world -/

section Run

variable {L : Nat} {W : Int} {client : Bytes} {w : World} {past log : List Int} {T t : Int}

/-- An answered call runs the script on the set of its key. -/
theorem allow_answered {name : Bytes} (hL : 0 < L) (hW : 0 < W) (hname : name ≠ [])
    (hredis : w.redis = some ⟨true, false⟩) :
    allow L W w name t .answered =
      ({ redis := some ⟨true, false⟩, seq := w.seq + 1
         keys := Function.update w.keys (cstr (keyOf name))
           ((w.keys (cstr (keyOf name))).script t W L (memberOf t w.seq)).1 },
        decide (((w.keys (cstr (keyOf name))).script t W L (memberOf t w.seq)).2 = 1),
        some ((w.keys (cstr (keyOf name))).script t W L (memberOf t w.seq)).2) := by
  rw [allow_sent (by omega) hW hname hredis rfl]
  unfold sentBy redisCommand evalScript
  dsimp only
  rw [if_neg Bool.false_ne_true]

/-- A call of the client itself. -/
theorem allow_own {name : Bytes} (hL : 0 < L) (hW : 0 < W) (hname : SameWindow client name)
    (hredis : w.redis = some ⟨true, false⟩) (ht : T ≤ t) (hcount : past.count t < 2 ^ 64)
    (h : Shared W (w.keys (cstr (keyOf client))) w.seq past log T) :
    (allow L W w name t .answered).2.1 = decide (recent W log t < L) ∧
      (allow L W w name t .answered).1.redis = some ⟨true, false⟩ ∧
      Shared W ((allow L W w name t .answered).1.keys (cstr (keyOf client)))
        (allow L W w name t .answered).1.seq (past ++ [t])
        (if recent W log t < L then log ++ [t] else log) t := by
  have hlength := length_pruned h.tracks ht
  rw [allow_answered hL hW hname.1 hredis, hname.2]
  dsimp only
  rw [Function.update_self]
  unfold SortedSet.script
  dsimp only
  by_cases hroom : recent W log t < L
  · have hguard : ¬ ((L : Int) ≤
        ((w.keys (cstr (keyOf client))).pruned t W).entries.length) := by omega
    rw [if_neg hguard, if_pos hroom, decide_eq_true hroom]
    exact ⟨rfl, rfl, h.allowed hW ht hcount⟩
  · have hguard : (L : Int) ≤ ((w.keys (cstr (keyOf client))).pruned t W).entries.length := by
      omega
    rw [if_pos hguard, if_neg hroom, decide_eq_false hroom]
    exact ⟨rfl, rfl, h.refused ht⟩

/-- A call that is counted elsewhere, or nowhere. -/
theorem allow_other {name : Bytes} (hL : 0 < L) (hW : 0 < W) (hname : ¬SameWindow client name)
    (hredis : w.redis = some ⟨true, false⟩) (ht : T ≤ t)
    (h : Shared W (w.keys (cstr (keyOf client))) w.seq past log T) :
    (allow L W w name t .answered).1.redis = some ⟨true, false⟩ ∧
      Shared W ((allow L W w name t .answered).1.keys (cstr (keyOf client)))
        (allow L W w name t .answered).1.seq (past ++ [t]) log t := by
  by_cases hempty : name = []
  · rw [allow_open fun hsent => hsent.2.1 hempty]
    exact ⟨hredis, h.skipped ht⟩
  · have hkey : cstr (keyOf client) ≠ cstr (keyOf name) := fun e => hname ⟨hempty, e.symm⟩
    rw [allow_answered hL hW hempty hredis]
    dsimp only
    rw [Function.update_of_ne hkey]
    exact ⟨rfl, h.other ht⟩

/-- The answers to the client are those of the machine that keeps its whole log. -/
theorem answersTo_eq (hL : 0 < L) (hW : 0 < W) : ∀ {calls : List (Bytes × Int)} {w : World}
    {past log : List Int} {T : Int}, w.redis = some ⟨true, false⟩ →
    Shared W (w.keys (cstr (keyOf client))) w.seq past log T →
    (calls.map Prod.snd).Pairwise (· ≤ ·) → (∀ c ∈ calls, T ≤ c.2) →
    (∀ u, (past ++ calls.map Prod.snd).count u ≤ 2 ^ 64) →
    answersTo client (serve L W w (interleaved calls)) = answers L W log (timesOf client calls)
  | [], _, _, _, _, _, _, _, _, _ => rfl
  | (name, t) :: calls, w, past, log, T, hredis, h, hsorted, hfirst, hcount => by
      obtain ⟨hnext, hrest⟩ := List.pairwise_cons.mp hsorted
      have ht : T ≤ t := hfirst (name, t) List.mem_cons_self
      have hnext' : ∀ c ∈ calls, t ≤ c.2 := fun c hc => hnext c.2 (List.mem_map_of_mem hc)
      have hcount' : ∀ u, (past ++ [t] ++ calls.map Prod.snd).count u ≤ 2 ^ 64 := by
        intro u
        rw [List.append_assoc]
        exact hcount u
      have hbefore : past.count t < 2 ^ 64 := by
        have hall := hcount t
        rw [List.map_cons, List.count_append, List.count_cons_self] at hall
        omega
      unfold interleaved
      rw [List.map_cons, serve]
      by_cases hname : SameWindow client name
      · obtain ⟨hallowed, hredis', hshared⟩ := allow_own hL hW hname hredis ht hbefore h
        have ih := answersTo_eq hL hW hredis' hshared hrest hnext' hcount'
        have htimes : timesOf client ((name, t) :: calls) = t :: timesOf client calls := by
          unfold timesOf
          rw [List.filter_cons_of_pos (by simpa using hname), List.map_cons]
        rw [htimes, answers]
        unfold answersTo
        rw [List.filter_cons_of_pos (by simpa using hname), List.map_cons]
        simp only [decide_eq_true_eq]
        rw [← ih, ← hallowed]
        rfl
      · obtain ⟨hredis', hshared⟩ := allow_other hL hW hname hredis ht h
        have ih := answersTo_eq hL hW hredis' hshared hrest hnext' hcount'
        have htimes : timesOf client ((name, t) :: calls) = timesOf client calls := by
          unfold timesOf
          rw [List.filter_cons_of_neg (by simpa using hname)]
        rw [htimes, ← ih]
        unfold answersTo
        rw [List.filter_cons_of_neg (by simpa using hname)]
        rfl

end Run

/-- **Clients do not slow each other down:** in a run of calls of any clients a client
gets the answers it would get if it alone made its calls. -/
theorem answered_as_if_alone {L : Nat} {W : Int} {client : Bytes} {w : World}
    {calls : List (Bytes × Int)} (hL : 0 < L) (hrange : L < 2 ^ 31) (hW : 0 < W)
    (hclient : client ≠ []) (hredis : w.redis = some ⟨true, false⟩)
    (hnew : w.keys (cstr (keyOf client)) = {}) (hsorted : (calls.map Prod.snd).Pairwise (· ≤ ·))
    (hcount : ∀ t, (calls.map Prod.snd).count t ≤ 2 ^ 64) :
    answersTo client (serve L W w (interleaved calls)) =
      history L W w client (timesOf client calls) := by
  cases calls with
  | nil => rfl
  | cons c cs =>
      have hfirst : ∀ c' ∈ c :: cs, c.2 ≤ c'.2 := by
        intro c' hc'
        rcases List.mem_cons.mp hc' with rfl | hc'
        · exact le_refl _
        · exact (List.pairwise_cons.mp hsorted).1 c'.2 (List.mem_map_of_mem hc')
      have hshared : Shared W (w.keys (cstr (keyOf client))) w.seq [] [] c.2 := by
        rw [hnew]
        exact ⟨tracks_empty w.seq c.2, by simp⟩
      have htracks : Tracks L W (w.keys (cstr (keyOf client))) w.seq [] c.2 := by
        rw [hnew]
        exact tracks_empty w.seq c.2
      have hsublist : (timesOf client (c :: cs)).Sublist ((c :: cs).map Prod.snd) :=
        List.filter_sublist.map Prod.snd
      rw [answersTo_eq hL hW hredis hshared hsorted hfirst hcount,
        history_eq hL hrange hW hclient hredis htracks (hsorted.sublist hsublist)]
      intro u hu
      obtain ⟨c', hc', rfl⟩ := List.mem_map.mp (hsublist.subset hu)
      exact hfirst c' hc'

/-- Two clients call at one instant, with a limit of one: each has its first call allowed. -/
theorem two_at_one_instant :
    answersTo (ascii "10.0.0.2") (serve 1 60000
      { redis := some ⟨true, false⟩, seq := 0, keys := fun _ => {} } (interleaved
        [(ascii "10.0.0.1", 1000), (ascii "10.0.0.2", 1000), (ascii "10.0.0.2", 1000)])) =
      history 1 60000 { redis := some ⟨true, false⟩, seq := 0, keys := fun _ => {} }
        (ascii "10.0.0.2") [1000, 1000] ∧
    history 1 60000 { redis := some ⟨true, false⟩, seq := 0, keys := fun _ => {} }
      (ascii "10.0.0.2") [1000, 1000] = [(1000, true), (1000, false)] :=
  ⟨answered_as_if_alone (L := 1) (by decide) (by decide) (by decide) (by decide) rfl rfl
    (by decide) fun t => le_trans List.count_le_length (by decide), by decide +kernel⟩

end SolarDrive.Cache
