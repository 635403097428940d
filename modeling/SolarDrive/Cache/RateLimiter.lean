import SolarDrive.Lib.Bytes
import Mathlib.Logic.Function.Basic

/-!
# The rate limiter

`allow` runs a script over a sorted set of Redis, through a client whose connection can
break. The Redis side has what the script uses: scores, removal by score, expiry. The times
are those of the system clock in milliseconds; it counts nanoseconds in 64 bits, so they
are whole numbers that the doubles of the script hold exactly.

A broken connection stays broken and gives no reply, which `sliding_window_allow` takes for
a full window. `fails_open_iff` says when the limiter keeps its promise to let requests
through without Redis.
-/

namespace SolarDrive.Cache

open Lib

/-! ## Redis -/

/-- A sorted set, its members with their scores, and when it expires. A key that does not
exist is a set without members. -/
structure SortedSet where
  entries : List (Bytes × Int) := []
  expireAt : Option Int := none
deriving DecidableEq

abbrev Keys : Type := Bytes → SortedSet

namespace SortedSet

/-- What is found at a time; a key is gone when its time has passed. -/
def live (now : Int) (k : SortedSet) : SortedSet :=
  match k.expireAt with
  | none => k
  | some e => if e < now then {} else k

/-- `ZREMRANGEBYSCORE key -inf max`; a set that is empty is deleted. -/
def zremrangebyscore (max : Int) (k : SortedSet) : SortedSet :=
  let entries := k.entries.filter fun e => decide (max < e.2)
  if entries = [] then {} else { k with entries }

/-- `ZADD`: a member that is there gets the new score. -/
def zadd (score : Int) (member : Bytes) (k : SortedSet) : SortedSet :=
  if member ∈ k.entries.map Prod.fst then
    { k with entries := k.entries.map fun e => if e.1 = member then (member, score) else e }
  else { k with entries := k.entries ++ [(member, score)] }

def pexpire (now ttl : Int) (k : SortedSet) : SortedSet := { k with expireAt := some (now + ttl) }

/-- What is left of the set when its members up to the start of the window are removed. -/
def pruned (now windowMs : Int) (k : SortedSet) : SortedSet :=
  (k.live now).zremrangebyscore (now - windowMs)

/-- `kScript`, with what it returns. -/
def script (now windowMs limit : Int) (member : Bytes) (k : SortedSet) : SortedSet × Int :=
  let k := k.pruned now windowMs
  if limit ≤ k.entries.length then (k, 0)
  else ((k.zadd now member).pexpire now windowMs, 1)

/-- A set is found as it is, or it has expired. -/
theorem live_cases (now : Int) (k : SortedSet) :
    k.live now = k ∨ k.live now = {} ∧ ∃ e, k.expireAt = some e ∧ e < now := by
  unfold live
  cases hexpire : k.expireAt with
  | none => exact .inl rfl
  | some e =>
      dsimp only
      by_cases hgone : e < now
      · exact .inr ⟨if_pos hgone, e, rfl, hgone⟩
      · exact .inl (if_neg hgone)

theorem entries_zremrangebyscore (max : Int) (k : SortedSet) :
    (k.zremrangebyscore max).entries = k.entries.filter fun e => decide (max < e.2) := by
  unfold zremrangebyscore
  dsimp only
  split
  · rename_i hnone
    exact hnone.symm
  · rfl

theorem expireAt_zremrangebyscore {max e : Int} {k : SortedSet}
    (h : (k.zremrangebyscore max).expireAt = some e) : k.expireAt = some e := by
  unfold zremrangebyscore at h
  dsimp only at h
  split at h
  · cases h
  · exact h

end SortedSet

/-- `EVAL` of the script on a key. -/
def evalScript (key : Bytes) (now windowMs limit : Int) (member : Bytes) (keys : Keys) :
    Keys × Int :=
  let (k, n) := (keys key).script now windowMs limit member
  (Function.update keys key k, n)

/-! ## The client -/

inductive Reply where
  | integer (n : Int)
  | other

/-- The context of hiredis: null or not, and whether it has its error set. -/
structure RedisClient where
  connected : Bool
  broken : Bool

/-- What happens to a command that is sent on a connection that is not broken: Redis runs
it and the reply comes; Redis refuses it with another reply, whatever it has done; or the
connection is lost, before the command was run or after. -/
inductive Exchange where
  | answered
  | refused (after : Keys)
  | lost (ran : Bool)

/-- What came of a command: the reply, the client, the keys, and what was returned if the
script ran to its end. -/
structure Sent where
  reply : Option Reply
  client : RedisClient
  keys : Keys
  returned : Option Int

/-- `redisCommand`: null on a broken connection, which stays so. -/
def redisCommand (run : Keys → Keys × Int) (x : Exchange) (c : RedisClient) (keys : Keys) : Sent :=
  if c.broken then { reply := none, client := c, keys, returned := none }
  else
    match x with
    | .answered =>
        { reply := some (.integer (run keys).2), client := c, keys := (run keys).1
          returned := some (run keys).2 }
    | .refused after => { reply := some .other, client := c, keys := after, returned := none }
    | .lost true =>
        { reply := none, client := { c with broken := true }, keys := (run keys).1
          returned := some (run keys).2 }
    | .lost false =>
        { reply := none, client := { c with broken := true }, keys, returned := none }

/-- `RedisClient::sliding_window_allow`, the command sent if there is one. -/
def slidingWindowAllow (key : Bytes) (nowMs windowMs limit : Int) (member : Bytes) (x : Exchange)
    (c : RedisClient) (keys : Keys) : Bool × Sent :=
  if c.connected = false ∨ limit ≤ 0 ∨ windowMs ≤ 0 ∨ key = [] ∨ member = [] then
    (true, { reply := none, client := c, keys, returned := none })
  else
    let sent := redisCommand (evalScript (cstr key) nowMs windowMs limit (cstr member)) x c keys
    let allowed :=
      match sent.reply with
      | some (.integer n) => decide (n = 1)
      | _ => false
    (allowed, sent)

/-! ## The limiter -/

/-- The limiter's pointer to the client and its counter, with the keys of Redis. -/
structure World where
  redis : Option RedisClient
  seq : UInt64
  keys : Keys

def memberOf (ts : Int) (seq : UInt64) : Bytes := decimalInt ts ++ COLON :: decimal seq.toNat

def keyOf (client : Bytes) : Bytes := ascii "ratelimit:ip:" ++ client

def kWindowSeconds : Int := 60

/-- `allow` at a time, with the window as a parameter; the script's result if it ran. -/
def allow (limit windowMs : Int) (w : World) (client : Bytes) (ts : Int) (x : Exchange) :
    World × Bool × Option Int :=
  if limit ≤ 0 ∨ client = [] then (w, true, none)
  else
    match w.redis with
    | none => (w, true, none)
    | some c =>
        if c.connected = false then (w, true, none)
        else
          let member := memberOf ts w.seq
          let seq := w.seq + 1
          let (allowed, sent) :=
            slidingWindowAllow (keyOf client) ts windowMs limit member x c w.keys
          ({ redis := some sent.client, seq, keys := sent.keys }, allowed, sent.returned)

/-! ## Failing open -/

/-- A request to the limiter, and what happens to its command. -/
structure Call where
  client : Bytes
  ts : Int
  exchange : Exchange

/-- One step of a run: the state before, the request and what came of it. -/
structure Served where
  before : World
  call : Call
  allowed : Bool
  returned : Option Int

/-- A run of requests. -/
def serve (limit windowMs : Int) : World → List Call → List Served
  | _, [] => []
  | w, c :: calls =>
      let (w', allowed, returned) := allow limit windowMs w c.client c.ts c.exchange
      { before := w, call := c, allowed, returned } :: serve limit windowMs w' calls

/-- A request is refused only when the script ran and found the window full. -/
def Served.FailsOpen (s : Served) : Prop := s.allowed = false → s.returned = some 0

/-- As many members as the limit allows lie in the window. -/
def WindowFull (limit windowMs : Int) (w : World) (c : Call) : Prop :=
  limit ≤ ((w.keys (cstr (keyOf c.client))).pruned c.ts windowMs).entries.length

/-- If the command is sent, then on a connection that is not broken, and its reply is the
integer that the script returned; or it is lost behind a script that found the window full. -/
def InTouch (limit windowMs : Int) (w : World) (c : Call) : Prop :=
  0 < limit → c.client ≠ [] → ∀ r, w.redis = some r → r.connected = true →
    r.broken = false ∧ (c.exchange = .answered ∨
      (c.exchange = .lost true ∧ WindowFull limit windowMs w c))

/-! ## When a command is sent -/

theorem memberOf_ne (ts : Int) (seq : UInt64) : memberOf ts seq ≠ [] := by
  intro h
  exact absurd (List.append_eq_nil_iff.mp h).2 (List.cons_ne_nil _ _)

theorem keyOf_ne (client : Bytes) : keyOf client ≠ [] := by
  intro h
  exact absurd (List.append_eq_nil_iff.mp h).1 (by decide)

theorem nul_not_mem_memberOf (ts : Int) (seq : UInt64) : NUL ∉ memberOf ts seq := by
  intro h
  rcases List.mem_append.mp h with h | h
  · exact nul_not_mem_decimalInt ts h
  · rcases List.mem_cons.mp h with h | h
    · exact absurd h (by decide)
    · exact nul_not_mem_decimal seq.toNat h

section Allow

variable {limit windowMs : Int} {w : World} {client : Bytes} {ts : Int} {x : Exchange}
  {c : RedisClient}

/-- The command that a request sends. -/
def sentBy (limit windowMs : Int) (w : World) (client : Bytes) (ts : Int) (x : Exchange)
    (c : RedisClient) : Sent :=
  redisCommand (evalScript (cstr (keyOf client)) ts windowMs limit (memberOf ts w.seq)) x c w.keys

/-- Where the guards let a request through, the answer is whether the reply is 1. -/
theorem allow_sent (hlimit : 0 < limit) (hwindow : 0 < windowMs) (hclient : client ≠ [])
    (hredis : w.redis = some c) (hconnected : c.connected = true) :
    allow limit windowMs w client ts x =
      ({ redis := some (sentBy limit windowMs w client ts x c).client, seq := w.seq + 1
         keys := (sentBy limit windowMs w client ts x c).keys },
        (match (sentBy limit windowMs w client ts x c).reply with
          | some (.integer n) => decide (n = 1)
          | _ => false),
        (sentBy limit windowMs w client ts x c).returned) := by
  have hguard : ¬ (c.connected = false ∨ limit ≤ 0 ∨ windowMs ≤ 0 ∨ keyOf client = [] ∨
      memberOf ts w.seq = []) := by
    rintro (h | h | h | h | h)
    · exact absurd hconnected (by rw [h]; decide)
    · omega
    · omega
    · exact keyOf_ne client h
    · exact memberOf_ne ts w.seq h
  unfold allow
  rw [if_neg (by rintro (h | h); exacts [by omega, hclient h]), hredis]
  dsimp only
  rw [if_neg (by rw [hconnected]; decide)]
  unfold slidingWindowAllow
  rw [if_neg hguard, cstr_of_not_mem (nul_not_mem_memberOf ts w.seq)]
  rfl

/-- Without a limit, a client or a connection a request is let through. -/
theorem allow_open (h : ¬ (0 < limit ∧ client ≠ [] ∧ ∃ c, w.redis = some c ∧ c.connected = true)) :
    allow limit windowMs w client ts x = (w, true, none) := by
  unfold allow
  split
  · rfl
  · rename_i hguard
    cases hredis : w.redis with
    | none => rfl
    | some c =>
        dsimp only
        split
        · rfl
        · rename_i hconnected
          refine absurd ⟨?_, ?_, c, hredis, Bool.eq_true_of_not_eq_false hconnected⟩ h
          · exact Int.not_le.mp fun hle => hguard (.inl hle)
          · exact fun hnil => hguard (.inr hnil)

/-- The script returns 0 when the window is full and 1 when it is not. -/
theorem returned_eq (limit windowMs : Int) (w : World) (client : Bytes) (ts : Int) :
    (evalScript (cstr (keyOf client)) ts windowMs limit (memberOf ts w.seq) w.keys).2 =
      if limit ≤ ((w.keys (cstr (keyOf client))).pruned ts windowMs).entries.length then 0
      else 1 := by
  unfold evalScript SortedSet.script
  dsimp only
  split <;> rfl

end Allow

/-- A single request: it fails open exactly when the client is in touch with Redis. -/
theorem allow_fails_open_iff {limit windowMs : Int} (hwindow : 0 < windowMs) (w : World)
    (c : Call) :
    ((allow limit windowMs w c.client c.ts c.exchange).2.1 = false →
      (allow limit windowMs w c.client c.ts c.exchange).2.2 = some 0) ↔
    InTouch limit windowMs w c := by
  by_cases hsent : 0 < limit ∧ c.client ≠ [] ∧ ∃ r, w.redis = some r ∧ r.connected = true
  · obtain ⟨hlimit, hclient, r, hredis, hconnected⟩ := hsent
    have hreturned := returned_eq limit windowMs w c.client c.ts
    have htouch : InTouch limit windowMs w c ↔ r.broken = false ∧ (c.exchange = .answered ∨
        (c.exchange = .lost true ∧ WindowFull limit windowMs w c)) := by
      constructor
      · intro h
        exact h hlimit hclient r hredis hconnected
      · intro h _ _ r' hr' _
        rw [hredis, Option.some.injEq] at hr'
        exact hr' ▸ h
    rw [htouch, allow_sent hlimit hwindow hclient hredis hconnected]
    unfold sentBy redisCommand
    cases hbroken : r.broken with
    | true => simp
    | false =>
        rw [if_neg Bool.false_ne_true]
        cases hx : c.exchange with
        | answered =>
            dsimp only
            rw [hreturned]
            split
            · simp
            · simp
        | refused after => simp
        | lost ran =>
            cases ran with
            | false => simp
            | true =>
                unfold WindowFull
                dsimp only
                rw [hreturned]
                split
                · rename_i hfull
                  simp [hfull]
                · rename_i hroom
                  simp [hroom]
  · rw [allow_open hsent]
    constructor
    · intro _ hlimit hclient r hredis hconnected
      exact absurd ⟨hlimit, hclient, r, hredis, hconnected⟩ hsent
    · intro _ h
      cases h

/-- A run of requests is served one by one, each from the state it finds. -/
theorem served_eq {limit windowMs : Int} {s : Served} : ∀ {calls : List Call} {w : World},
    s ∈ serve limit windowMs w calls →
    s.allowed = (allow limit windowMs s.before s.call.client s.call.ts s.call.exchange).2.1 ∧
      s.returned = (allow limit windowMs s.before s.call.client s.call.ts s.call.exchange).2.2
  | [], _, h => by cases h
  | c :: calls, w, h => by
      rw [serve] at h
      rcases List.mem_cons.mp h with rfl | h
      · exact ⟨rfl, rfl⟩
      · exact served_eq h

/-- **The limiter fails open while it is in touch with Redis.** Over any run of requests,
with failures at any point, none is refused without a full window exactly when no
command meets a connection that is lost or a reply that is not an integer. -/
theorem fails_open_iff (limit : Int) (w : World) (calls : List Call) :
    (∀ s ∈ serve limit (kWindowSeconds * 1000) w calls, s.FailsOpen) ↔
      ∀ s ∈ serve limit (kWindowSeconds * 1000) w calls,
        InTouch limit (kWindowSeconds * 1000) s.before s.call := by
  refine forall₂_congr fun s hs => ?_
  obtain ⟨hallowed, hreturned⟩ := served_eq hs
  unfold Served.FailsOpen
  rw [hallowed, hreturned]
  exact allow_fails_open_iff (by decide) s.before s.call

/-- Redis goes away before the first request; it and all after it are refused. -/
theorem refused_without_redis : ¬ ∀ (limit : Int) (w : World) (calls : List Call),
    ∀ s ∈ serve limit (kWindowSeconds * 1000) w calls, s.FailsOpen := by
  intro h
  have hrefused := h 5 { redis := some { connected := true, broken := false }, seq := 0,
                         keys := fun _ => {} }
    [⟨ascii "10.0.0.1", 1700000000000, .lost false⟩, ⟨ascii "10.0.0.2", 1700000060001, .answered⟩]
    _ (List.mem_cons_of_mem _ (List.mem_cons_self)) (by decide +kernel)
  cases hrefused

end SolarDrive.Cache
