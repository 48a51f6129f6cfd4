import Cti.RateLimit

set_option autoImplicit false

/- The token buckets that live in Redis, and when they are those of the process. -/
namespace Cti

open Py (Str)

/-- What the script keeps under a key: the fields `t` and `u`. -/
structure RedisHash where
  tokens : Rat
  updatedAt : Rat

/-- `_LUA`, on the hash that is stored: whether the request is allowed, the tokens that are left,
and the hash that is stored afterwards. -/
def luaScript (stored : Option RedisHash) (now rate cap cost : Rat) : Bool × Rat × RedisHash :=
  let tokens := (stored.map RedisHash.tokens).getD cap
  let updated := (stored.map RedisHash.updatedAt).getD now
  let delta := max 0 (now - updated)
  let tokens := min cap (tokens + delta * rate)
  if cost ≤ tokens then (true, tokens - cost, ⟨tokens - cost, now⟩)
  else (false, tokens, ⟨tokens, now⟩)

/-- A key of Redis with the end of its life. -/
structure RedisEntry where
  hash : RedisHash
  expiresAt : Rat

abbrev Redis := Str → Option RedisEntry

/-- How long a key stays after it was written, in seconds. -/
def keyLifetime : Rat := 3600

/-- The hash of a key that has not expired. -/
def Redis.live (redis : Redis) (name : Str) (clock : Rat) : Option RedisHash :=
  match redis name with
  | some entry => if entry.expiresAt < clock then none else some entry.hash
  | none => none

/-- `eval` of the script, which runs as one step. -/
def Redis.eval (redis : Redis) (name : Str) (now rate cap cost : Rat) : Bool × Rat × Redis :=
  let (allowed, tokens, hash) := luaScript (redis.live name now) now rate cap cost
  (allowed, tokens, Function.update redis name (some ⟨hash, now + keyLifetime⟩))

namespace TokenBucket

variable (limiter : TokenBucket) (keyPrefix : Str)

/-- `_try_redis`: how long to wait, and the keys afterwards. -/
def tryRedis (redis : Redis) (key : Str) (cost now : Rat) : Rat × Redis :=
  let (allowed, tokens, redis) := redis.eval (keyPrefix ++ key) now limiter.rate limiter.burst cost
  if allowed then (0, redis) else (max 0 ((cost - tokens) / limiter.rate), redis)

/-- What `_try_redis` answers, call after call. -/
def redisWaits (redis : Redis) : List LimiterCall → List Rat
  | [] => []
  | call :: calls =>
      let (wait, redis) := limiter.tryRedis keyPrefix redis call.key call.cost call.now
      wait :: redisWaits redis calls

/-- What `_try_local` answers, call after call. -/
def localWaits (limiter : TokenBucket) : List LimiterCall → List Rat
  | [] => []
  | call :: calls =>
      (limiter.tryLocal call.key call.cost call.now).1 :: localWaits (limiter.step call) calls

end TokenBucket

/-- The key of a call and its time. -/
def LimiterCall.slot (call : LimiterCall) : Str × Rat := (call.key, call.now)

/-- No key is left alone until Redis drops it, unless its bucket has filled up by then. `last`
tells when a key was called before. -/
def KeptAlive (rate burst : Rat) (last : Str → Option Rat) : List (Str × Rat) → Prop
  | [] => True
  | (key, now) :: schedule =>
      (∀ t, last key = some t → now - t ≤ keyLifetime ∨ burst ≤ rate * (now - t)) ∧
        KeptAlive rate burst (Function.update last key (some now)) schedule

/-- Redis and the process answer alike, whatever the requests of a schedule cost. -/
def RedisAgrees (limiter : TokenBucket) (keyPrefix : Str) (schedule : List (Str × Rat)) : Prop :=
  ∀ calls : List LimiterCall, calls.map LimiterCall.slot = schedule →
    (∀ call ∈ calls, 0 ≤ call.cost) →
    limiter.redisWaits keyPrefix (fun _ => none) calls = limiter.localWaits calls

/-- A key that was called at `t` is stored on both sides, with the same tokens. -/
def MirroredKey (limiter : TokenBucket) (redis : Redis) (keyPrefix key : Str) (t : Rat) : Prop :=
  ∃ b, limiter.buckets key = some b ∧ b.updatedAt = t ∧
    redis (keyPrefix ++ key) = some ⟨⟨b.tokens, t⟩, t + keyLifetime⟩ ∧
    min 0 limiter.burst ≤ b.tokens ∧ b.tokens ≤ limiter.burst

/-- Redis has what the process has. -/
structure Mirrored (limiter : TokenBucket) (redis : Redis) (keyPrefix : Str)
    (last : Str → Option Rat) : Prop where
  rate : 0 < limiter.rate
  called : ∀ key t, last key = some t → MirroredKey limiter redis keyPrefix key t
  fresh : ∀ key, last key = none → limiter.buckets key = none ∧ redis (keyPrefix ++ key) = none

/-- The tokens that the script finds, refilled. -/
def luaRefilled (stored : Option RedisHash) (now rate cap : Rat) : Rat :=
  min cap ((stored.map RedisHash.tokens).getD cap +
    max 0 (now - (stored.map RedisHash.updatedAt).getD now) * rate)

theorem luaScript_eq (stored : Option RedisHash) (now rate cap cost : Rat) :
    luaScript stored now rate cap cost =
      (decide (cost ≤ luaRefilled stored now rate cap),
        luaRefilled stored now rate cap - if cost ≤ luaRefilled stored now rate cap then cost else 0,
        ⟨luaRefilled stored now rate cap - if cost ≤ luaRefilled stored now rate cap then cost else 0,
          now⟩) := by
  unfold luaScript
  by_cases enough : cost ≤ luaRefilled stored now rate cap
  · have same := enough
    unfold luaRefilled at same
    simp only [enough, same, ↓reduceIte, decide_true]
    rfl
  · have same := enough
    unfold luaRefilled at same
    simp only [enough, same, ↓reduceIte, decide_false, sub_zero]
    rfl

variable {limiter : TokenBucket} {redis : Redis} {keyPrefix : Str} {last : Str → Option Rat}

theorem tryLocal_wait (limiter : TokenBucket) (key : Str) (cost now : Rat) :
    (limiter.tryLocal key cost now).1 =
      if cost ≤ limiter.refilled key now then 0
      else (cost - limiter.refilled key now) / limiter.rate := by
  unfold TokenBucket.tryLocal
  dsimp only
  split
  · rfl
  · rfl

/-- Where the script finds what the process has, it answers the same and leaves the same. -/
theorem tryRedis_eq (positive : 0 < limiter.rate) {key : Str} {cost now : Rat}
    (same : luaRefilled (redis.live (keyPrefix ++ key) now) now limiter.rate limiter.burst =
      limiter.refilled key now) :
    limiter.tryRedis keyPrefix redis key cost now =
      ((limiter.tryLocal key cost now).1,
        Function.update redis (keyPrefix ++ key)
          (some ⟨⟨limiter.refilled key now - if cost ≤ limiter.refilled key now then cost else 0, now⟩,
            now + keyLifetime⟩)) := by
  unfold TokenBucket.tryRedis Redis.eval
  rw [luaScript_eq, same, tryLocal_wait]
  by_cases enough : cost ≤ limiter.refilled key now
  · simp only [enough, decide_true, ↓reduceIte]
  · have missing : 0 ≤ (cost - limiter.refilled key now) / limiter.rate :=
      div_nonneg (sub_nonneg.mpr (not_le.mp enough).le) positive.le
    simp only [enough, decide_false, Bool.false_eq_true, ↓reduceIte, sub_zero, max_eq_right missing]

theorem refilled_of_bucket {key : Str} {b : Bucket} (found : limiter.buckets key = some b)
    (now : Rat) :
    limiter.refilled key now =
      min limiter.burst (b.tokens + max 0 (now - b.updatedAt) * limiter.rate) := by
  simp only [TokenBucket.refilled, TokenBucket.bucket, found, Option.getD_some]

/-- The script finds what the process has, also in a key that expired with a full bucket. -/
theorem Mirrored.refill (mirrored : Mirrored limiter redis keyPrefix last) {key : Str} {now : Rat}
    (ordered : ∀ t, last key = some t → t ≤ now)
    (alive : ∀ t, last key = some t →
      now - t ≤ keyLifetime ∨ limiter.burst ≤ limiter.rate * (now - t)) :
    luaRefilled (redis.live (keyPrefix ++ key) now) now limiter.rate limiter.burst =
      limiter.refilled key now := by
  cases called : last key with
  | none =>
      obtain ⟨none, unset⟩ := mirrored.fresh key called
      simp [Redis.live, unset, luaRefilled, TokenBucket.refilled, TokenBucket.bucket, none]
  | some t =>
      obtain ⟨b, found, time, stored, floor, _⟩ := mirrored.called key t called
      rw [refilled_of_bucket found, time]
      by_cases expired : t + keyLifetime < now
      · have full : limiter.burst ≤ limiter.rate * (now - t) := by
          rcases alive t called with early | full
          · exact absurd early (by linarith)
          · exact full
        have elapsed : max 0 (now - t) = now - t := max_eq_right (sub_nonneg.mpr (ordered t called))
        have gained : 0 ≤ (now - t) * limiter.rate :=
          mul_nonneg (sub_nonneg.mpr (ordered t called)) mirrored.rate.le
        have filled : limiter.burst ≤ b.tokens + max 0 (now - t) * limiter.rate := by
          rw [elapsed, mul_comm (now - t)] at *
          rcases le_total 0 limiter.burst with roomy | negative
          · rw [min_eq_left roomy] at floor
            linarith
          · rw [min_eq_right negative] at floor
            linarith
        simp only [Redis.live, stored, expired, ↓reduceIte, luaRefilled, Option.map_none,
          Option.getD_none, sub_self, max_self, zero_mul, add_zero, min_self, min_eq_left filled]
      · simp only [Redis.live, stored, expired, ↓reduceIte, luaRefilled, Option.map_some,
          Option.getD_some]

/-- The least that a bucket holds: nothing, or all of a negative burst. -/
theorem Mirrored.floor (mirrored : Mirrored limiter redis keyPrefix last) (key : Str) (now : Rat) :
    min 0 limiter.burst ≤ limiter.refilled key now := by
  cases called : last key with
  | none =>
      have unset := (mirrored.fresh key called).1
      simp [TokenBucket.refilled, TokenBucket.bucket, unset]
  | some t =>
      obtain ⟨b, found, _, _, floor, _⟩ := mirrored.called key t called
      have grown : 0 ≤ max 0 (now - b.updatedAt) * limiter.rate :=
        mul_nonneg (le_max_left _ _) mirrored.rate.le
      rw [refilled_of_bucket found]
      apply le_min (min_le_right _ _)
      linarith

/-- A bucket that is written on both sides. -/
theorem Mirrored.write (mirrored : Mirrored limiter redis keyPrefix last) (key : Str) {b : Bucket}
    {now : Rat} (time : b.updatedAt = now) (floor : min 0 limiter.burst ≤ b.tokens)
    (full : b.tokens ≤ limiter.burst) :
    Mirrored (limiter.setBucket key b)
      (Function.update redis (keyPrefix ++ key) (some ⟨⟨b.tokens, now⟩, now + keyLifetime⟩)) keyPrefix
      (Function.update last key (some now)) := by
  have apart : ∀ key', key' ≠ key → keyPrefix ++ key' ≠ keyPrefix ++ key :=
    fun key' other same => other (List.append_cancel_left same)
  constructor
  · exact mirrored.rate
  · intro key' t called
    by_cases own : key' = key
    · rw [own, Function.update_self, Option.some.injEq] at called
      rw [own, ← called]
      exact ⟨b, TokenBucket.setBucket_self limiter key b, time, Function.update_self _ _ _, floor,
        full⟩
    · rw [Function.update_of_ne own] at called
      obtain ⟨b', found, time', stored, bounds⟩ := mirrored.called key' t called
      refine ⟨b', ?_, time', ?_, bounds⟩
      · rw [TokenBucket.setBucket_other limiter b own, found]
      · rw [Function.update_of_ne (apart key' own), stored]
  · intro key' unset
    by_cases own : key' = key
    · rw [own, Function.update_self] at unset
      cases unset
    · rw [Function.update_of_ne own] at unset
      rw [TokenBucket.setBucket_other limiter b own, Function.update_of_ne (apart key' own)]
      exact mirrored.fresh key' unset

/-- One call, on both sides. -/
theorem Mirrored.step (mirrored : Mirrored limiter redis keyPrefix last) {call : LimiterCall}
    (cost : 0 ≤ call.cost) (ordered : ∀ t, last call.key = some t → t ≤ call.now)
    (alive : ∀ t, last call.key = some t →
      call.now - t ≤ keyLifetime ∨ limiter.burst ≤ limiter.rate * (call.now - t)) :
    (limiter.tryRedis keyPrefix redis call.key call.cost call.now).1 =
        (limiter.tryLocal call.key call.cost call.now).1 ∧
      Mirrored (limiter.step call) (limiter.tryRedis keyPrefix redis call.key call.cost call.now).2
        keyPrefix (Function.update last call.key (some call.now)) := by
  have answer := @tryRedis_eq _ _ keyPrefix mirrored.rate call.key call.cost call.now
    (mirrored.refill ordered alive)
  obtain ⟨_, b, written, time, left⟩ :=
    TokenBucket.tryLocal_spec limiter call.key call.cost call.now mirrored.rate
  have moved : limiter.step call = limiter.setBucket call.key b := written
  have floor : min 0 limiter.burst ≤ b.tokens := by
    rw [left]
    split
    · rename_i enough
      exact (min_le_left 0 limiter.burst).trans (sub_nonneg.mpr enough)
    · rw [sub_zero]
      exact mirrored.floor call.key call.now
  have full : b.tokens ≤ limiter.burst := by
    have refilled : limiter.refilled call.key call.now ≤ limiter.burst :=
      TokenBucket.refilled_le call.key call.now
    rw [left]
    split
    · linarith
    · linarith
  rw [answer, moved, ← left]
  exact ⟨rfl, mirrored.write call.key time floor full⟩

/-- The calls of a schedule come after those before it. -/
def Follows (last : Str → Option Rat) (schedule : List (Str × Rat)) : Prop :=
  (∀ key t, last key = some t → ∀ slot ∈ schedule, t ≤ slot.2) ∧
    schedule.Pairwise fun slot slot' => slot.2 ≤ slot'.2

theorem Follows.tail {key : Str} {now : Rat} {schedule : List (Str × Rat)}
    (follows : Follows last ((key, now) :: schedule)) :
    Follows (Function.update last key (some now)) schedule := by
  obtain ⟨after, sorted⟩ := follows
  obtain ⟨first, sorted⟩ := List.pairwise_cons.mp sorted
  refine ⟨?_, sorted⟩
  intro key' t called slot member
  by_cases own : key' = key
  · rw [own, Function.update_self, Option.some.injEq] at called
    rw [← called]
    exact first slot member
  · rw [Function.update_of_ne own] at called
    exact after key' t called slot (List.mem_cons_of_mem _ member)

theorem redisWaits_cons (limiter : TokenBucket) (keyPrefix : Str) (redis : Redis)
    (call : LimiterCall)
    (calls : List LimiterCall) :
    limiter.redisWaits keyPrefix redis (call :: calls) =
      (limiter.tryRedis keyPrefix redis call.key call.cost call.now).1 ::
        limiter.redisWaits keyPrefix
          (limiter.tryRedis keyPrefix redis call.key call.cost call.now).2 calls := by
  rw [TokenBucket.redisWaits]

theorem localWaits_cons (limiter : TokenBucket) (call : LimiterCall) (calls : List LimiterCall) :
    limiter.localWaits (call :: calls) =
      (limiter.tryLocal call.key call.cost call.now).1 :: (limiter.step call).localWaits calls := by
  rw [TokenBucket.localWaits]

/-- `_try_redis` reads the rate and the burst only. -/
theorem redisWaits_congr {other : TokenBucket} (rate : other.rate = limiter.rate)
    (burst : other.burst = limiter.burst) (redis : Redis) (calls : List LimiterCall) :
    other.redisWaits keyPrefix redis calls = limiter.redisWaits keyPrefix redis calls := by
  induction calls generalizing redis with
  | nil => rfl
  | cons call calls ih =>
      have same : other.tryRedis keyPrefix redis call.key call.cost call.now =
          limiter.tryRedis keyPrefix redis call.key call.cost call.now := by
        unfold TokenBucket.tryRedis
        rw [rate, burst]
      rw [redisWaits_cons, redisWaits_cons, same, ih]

/-- A whole schedule, on both sides. -/
theorem Mirrored.waits (mirrored : Mirrored limiter redis keyPrefix last) {calls : List LimiterCall}
    (costs : ∀ call ∈ calls, 0 ≤ call.cost) (follows : Follows last (calls.map LimiterCall.slot))
    (alive : KeptAlive limiter.rate limiter.burst last (calls.map LimiterCall.slot)) :
    limiter.redisWaits keyPrefix redis calls = limiter.localWaits calls := by
  induction calls generalizing limiter redis last with
  | nil => rfl
  | cons call calls ih =>
      obtain ⟨now, later⟩ := alive
      have ordered : ∀ t, last call.key = some t → t ≤ call.now := fun t called =>
        follows.1 call.key t called (call.key, call.now) List.mem_cons_self
      obtain ⟨answer, next⟩ := mirrored.step (costs call List.mem_cons_self) ordered now
      obtain ⟨rate, burst⟩ := TokenBucket.step_rate limiter call
      have rest := ih next (fun call' member => costs call' (List.mem_cons_of_mem _ member))
        follows.tail (by rw [rate, burst]; exact later)
      rw [redisWaits_congr rate burst] at rest
      rw [redisWaits_cons, localWaits_cons, answer, rest]

theorem keptAlive_of_burst {rate burst : Rat} (positive : 0 < rate)
    (small : burst ≤ keyLifetime * rate)
    (last : Str → Option Rat) (schedule : List (Str × Rat)) :
    KeptAlive rate burst last schedule := by
  induction schedule generalizing last with
  | nil => trivial
  | cons slot schedule ih =>
      refine ⟨?_, ih _⟩
      intro t _
      rcases le_or_gt (slot.2 - t) keyLifetime with early | late
      · exact Or.inl early
      · have gained := mul_le_mul_of_nonneg_right late.le positive.le
        exact Or.inr (by linarith)

/-- A request for all the tokens of a key leaves none. -/
theorem drained_step (positive : 0 < limiter.rate)
    (drained : ∀ key b, limiter.buckets key = some b → b.tokens = 0) (key : Str) (now : Rat) :
    ∀ key' b, (limiter.step ⟨key, limiter.refilled key now, now⟩).buckets key' = some b →
      b.tokens = 0 := by
  intro key' b found
  by_cases own : key' = key
  · obtain ⟨_, b', written, _, left⟩ :=
      TokenBucket.tryLocal_spec limiter key (limiter.refilled key now) now positive
    rw [own, TokenBucket.step, written, TokenBucket.setBucket_self] at found
    cases found
    rw [left, if_pos le_rfl, sub_self]
  · rw [TokenBucket.step_other limiter own] at found
    exact drained key' b found

/-- Redis grants a whole burst on a key that expired with its tokens spent, and the process
refuses it. -/
theorem Mirrored.forgets (mirrored : Mirrored limiter redis keyPrefix last)
    (drained : ∀ key b, limiter.buckets key = some b → b.tokens = 0) {key : Str} {t now : Rat}
    (called : last key = some t) (late : keyLifetime < now - t)
    (short : limiter.rate * (now - t) < limiter.burst) :
    (limiter.tryRedis keyPrefix redis key limiter.burst now).1 = 0 ∧
      0 < (limiter.tryLocal key limiter.burst now).1 := by
  obtain ⟨b, found, time, stored, _, _⟩ := mirrored.called key t called
  constructor
  · have expired : t + keyLifetime < now := by linarith
    simp only [TokenBucket.tryRedis, Redis.eval, luaScript_eq, Redis.live, stored, expired,
      ↓reduceIte, luaRefilled, Option.map_none, Option.getD_none, sub_self, max_self, zero_mul,
      add_zero, min_self, le_refl, decide_true]
  · have elapsed : max 0 (now - t) = now - t := by
      apply max_eq_right
      exact (show (0 : Rat) ≤ keyLifetime by norm_num [keyLifetime]).trans late.le
    have little : limiter.refilled key now < limiter.burst := by
      rw [refilled_of_bucket found, time, drained key b found, zero_add, elapsed,
        mul_comm (now - t)]
      exact (min_le_right _ _).trans_lt short
    rw [tryLocal_wait, if_neg (not_le.mpr little)]
    exact div_pos (sub_pos.mpr little) mirrored.rate

/-- A key that expires before it is full shows: once its tokens are spent, Redis grants a whole
burst where the process refuses it. -/
theorem Mirrored.differ (mirrored : Mirrored limiter redis keyPrefix last)
    (drained : ∀ key b, limiter.buckets key = some b → b.tokens = 0) {schedule : List (Str × Rat)}
    (follows : Follows last schedule) (roomy : 0 < limiter.burst)
    (lost : ¬ KeptAlive limiter.rate limiter.burst last schedule) :
    ∃ calls : List LimiterCall, calls.map LimiterCall.slot = schedule ∧
      (∀ call ∈ calls, 0 ≤ call.cost) ∧
      limiter.redisWaits keyPrefix redis calls ≠ limiter.localWaits calls := by
  induction schedule generalizing limiter redis last with
  | nil => exact absurd trivial lost
  | cons slot schedule ih =>
      obtain ⟨key, now⟩ := slot
      have ordered : ∀ t, last key = some t → t ≤ now := fun t called =>
        follows.1 key t called (key, now) List.mem_cons_self
      by_cases alive : ∀ t, last key = some t →
          now - t ≤ keyLifetime ∨ limiter.burst ≤ limiter.rate * (now - t)
      · -- Everything there is is spent, so that the keys stay drained.
        have cost : 0 ≤ limiter.refilled key now := by
          have floor := mirrored.floor key now
          rwa [min_eq_left roomy.le] at floor
        let call : LimiterCall := ⟨key, limiter.refilled key now, now⟩
        obtain ⟨answer, next⟩ := @Mirrored.step _ _ _ _ mirrored call cost ordered alive
        obtain ⟨rate, burst⟩ := TokenBucket.step_rate limiter call
        have later : ¬ KeptAlive (limiter.step call).rate (limiter.step call).burst
            (Function.update last key (some now)) schedule := by
          rw [rate, burst]
          exact fun kept => lost ⟨alive, kept⟩
        obtain ⟨calls, slots, costs, differ⟩ := ih next (drained_step mirrored.rate drained key now)
          follows.tail (by rw [burst]; exact roomy) later
        rw [redisWaits_congr rate burst] at differ
        refine ⟨call :: calls, ?_, ?_, ?_⟩
        · rw [List.map_cons, slots]
          rfl
        · exact List.forall_mem_cons.mpr ⟨cost, costs⟩
        · intro same
          apply differ
          rw [redisWaits_cons, localWaits_cons] at same
          exact (List.cons.inj same).2
      · push Not at alive
        obtain ⟨t, called, late, short⟩ := alive
        obtain ⟨granted, refused⟩ := mirrored.forgets drained called late short
        refine ⟨⟨key, limiter.burst, now⟩ :: schedule.map fun slot => ⟨slot.1, 0, slot.2⟩,
          ?_, ?_, ?_⟩
        · have slots : (schedule.map fun slot => (⟨slot.1, 0, slot.2⟩ : LimiterCall)).map
              LimiterCall.slot = schedule := by
            rw [List.map_map]
            exact List.map_id _
          rw [List.map_cons, slots]
          rfl
        · rw [List.forall_mem_cons]
          refine ⟨roomy.le, ?_⟩
          intro call member
          obtain ⟨slot, _, rfl⟩ := List.mem_map.mp member
          exact le_rfl
        · intro same
          rw [redisWaits_cons, localWaits_cons] at same
          have heads := (List.cons.inj same).1
          rw [granted] at heads
          rw [← heads] at refused
          exact absurd refused (lt_irrefl 0)

theorem mirrored_init {ratePerSec : Rat} {burst : Option Rat}
    (built : TokenBucket.init ratePerSec burst = .ok limiter) :
    Mirrored limiter (fun _ => none) keyPrefix (fun _ => none) := by
  obtain ⟨positive, rfl⟩ := TokenBucket.init_ok built
  exact ⟨positive, nofun, fun _ _ => ⟨rfl, rfl⟩⟩

/-- From the same start Redis answers as the process does for as long as no key expires. -/
theorem agrees_iff_keptAlive {limiter : TokenBucket} {keyPrefix : Str}
    (mirrored : Mirrored limiter (fun _ => none) keyPrefix (fun _ => none))
    {schedule : List (Str × Rat)} (sorted : schedule.Pairwise fun slot slot' => slot.2 ≤ slot'.2) :
    RedisAgrees limiter keyPrefix schedule ↔
      KeptAlive limiter.rate limiter.burst (fun _ => none) schedule := by
  have drained : ∀ key b, limiter.buckets key = some b → b.tokens = 0 := by
    intro key b found
    rw [(mirrored.fresh key rfl).1] at found
    cases found
  have follows : Follows (fun _ => none) schedule := ⟨nofun, sorted⟩
  constructor
  · intro agree
    by_contra lost
    have roomy : 0 < limiter.burst := by
      by_contra small
      apply lost
      apply keptAlive_of_burst mirrored.rate
      have lifetime : 0 < keyLifetime * limiter.rate :=
        mul_pos (by norm_num [keyLifetime]) mirrored.rate
      linarith
    obtain ⟨calls, slots, costs, differ⟩ := mirrored.differ drained follows roomy lost
    exact differ (agree calls slots costs)
  · intro alive calls slots costs
    rw [← slots] at follows alive
    exact mirrored.waits costs follows alive

/-- Two calls of one key, further apart than its life and closer than it takes to fill up. -/
theorem exists_expired {rate burst : Rat} (positive : 0 < rate)
    (large : keyLifetime * rate < burst) :
    ∃ gap : Rat, 0 ≤ gap ∧ ¬ KeptAlive rate burst (fun _ => none) [([], 0), ([], gap)] := by
  obtain ⟨gap, long, short⟩ := exists_between ((lt_div_iff₀ positive).mpr large)
  have later : (0 : Rat) ≤ gap := by
    have lifetime : (0 : Rat) ≤ keyLifetime := by norm_num [keyLifetime]
    linarith
  refine ⟨gap, later, fun alive => ?_⟩
  rcases alive.2.1 0 (Function.update_self _ _ _) with early | full
  · rw [sub_zero] at early
    linarith
  · rw [sub_zero, mul_comm] at full
    have less := (lt_div_iff₀ positive).mp short
    linarith

/-- Redis answers a schedule as the process does, whatever its requests cost, exactly when no key
expires before its bucket is full; and every schedule when a bucket always fills up in the life
of a key. -/
theorem redis_agrees_iff {ratePerSec : Rat} {burst : Option Rat} {limiter : TokenBucket}
    (built : TokenBucket.init ratePerSec burst = .ok limiter) (keyPrefix : Str) :
    (∀ schedule : List (Str × Rat), (schedule.Pairwise fun slot slot' => slot.2 ≤ slot'.2) →
      (RedisAgrees limiter keyPrefix schedule ↔
        KeptAlive limiter.rate limiter.burst (fun _ => none) schedule)) ∧
    ((∀ schedule : List (Str × Rat), (schedule.Pairwise fun slot slot' => slot.2 ≤ slot'.2) →
      RedisAgrees limiter keyPrefix schedule) ↔ limiter.burst ≤ keyLifetime * limiter.rate) := by
  have mirrored : Mirrored limiter (fun _ => none) keyPrefix (fun _ => none) := mirrored_init built
  refine ⟨fun schedule sorted => agrees_iff_keptAlive mirrored sorted, ?_, ?_⟩
  · intro all
    by_contra large
    obtain ⟨gap, later, lost⟩ := exists_expired mirrored.rate (not_le.mp large)
    have apart : ([([], 0), ([], gap)] : List (Str × Rat)).Pairwise
        fun slot slot' => slot.2 ≤ slot'.2 := by
      simpa using later
    exact lost ((agrees_iff_keptAlive mirrored apart).mp (all _ apart))
  · intro small schedule sorted
    exact (agrees_iff_keptAlive mirrored sorted).mpr (keptAlive_of_burst mirrored.rate small _ _)

/-- One request every two hours. -/
def slowLimiter : TokenBucket := ⟨1 / 7200, 1, fun _ => none⟩

def slowSchedule : List (Str × Rat) := [("a".toList, 0), ("a".toList, 3601)]

theorem redis_agrees_iff_slow :
    TokenBucket.init (1 / 7200) none = .ok slowLimiter ∧
      (RedisAgrees slowLimiter "cti:rl:".toList slowSchedule ↔
        KeptAlive slowLimiter.rate slowLimiter.burst (fun _ => none) slowSchedule) := by
  have built : TokenBucket.init (1 / 7200) none = .ok slowLimiter := by
    rw [TokenBucket.init, if_neg (by norm_num)]
    norm_num [slowLimiter]
  exact ⟨built,
    (redis_agrees_iff built "cti:rl:".toList).1 slowSchedule (by norm_num [slowSchedule])⟩

/-- A second request, a little over an hour after the first: the process has it wait for the
rest of the two hours, and Redis has forgotten the first. -/
theorem redis_forgets :
    TokenBucket.init (1 / 7200) none = .ok slowLimiter ∧
      slowLimiter.localWaits [⟨"a".toList, 1, 0⟩, ⟨"a".toList, 1, 3601⟩] = [0, 3599] ∧
      slowLimiter.redisWaits "cti:rl:".toList (fun _ => none)
        [⟨"a".toList, 1, 0⟩, ⟨"a".toList, 1, 3601⟩] = [0, 0] ∧
      ¬ RedisAgrees slowLimiter "cti:rl:".toList slowSchedule := by
  have built : TokenBucket.init (1 / 7200) none = .ok slowLimiter := by
    rw [TokenBucket.init, if_neg (by norm_num)]
    norm_num [slowLimiter]
  have process : slowLimiter.localWaits [⟨"a".toList, 1, 0⟩, ⟨"a".toList, 1, 3601⟩] = [0, 3599] := by
    decide +kernel
  have shared : slowLimiter.redisWaits "cti:rl:".toList (fun _ => none)
      [⟨"a".toList, 1, 0⟩, ⟨"a".toList, 1, 3601⟩] = [0, 0] := by
    decide +kernel
  refine ⟨built, process, shared, ?_⟩
  intro agree
  have same := agree [⟨"a".toList, 1, 0⟩, ⟨"a".toList, 1, 3601⟩] rfl (by norm_num)
  rw [process, shared] at same
  norm_num at same

end Cti
