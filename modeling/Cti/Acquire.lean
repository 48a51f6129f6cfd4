import Cti.RateLimit

set_option autoImplicit false

/- The loop of `TokenBucket.acquire`, and the limiter of all hosts. -/
namespace Cti

open Py (Str)

namespace TokenBucket

variable {limiter : TokenBucket} {key : Str} {cost : Rat}

/-- `acquire` without Redis and without another caller, at the readings of the clock that its
rounds take: `none` is still in the loop. -/
def acquire (limiter : TokenBucket) (key : Str) (cost : Rat) : List Rat → Option TokenBucket
  | [] => none
  | now :: readings =>
      let (wait, limiter) := limiter.tryLocal key cost now
      if wait ≤ 0 then some limiter else acquire limiter key cost readings

/-- A round that has to wait sleeps that long at least before the next one. -/
def Sleeps (limiter : TokenBucket) (key : Str) (cost : Rat) : List Rat → Prop
  | now :: later :: readings =>
      (0 < (limiter.tryLocal key cost now).1 → now + (limiter.tryLocal key cost now).1 ≤ later) ∧
        Sleeps (limiter.tryLocal key cost now).2 key cost (later :: readings)
  | _ => True

/-- After the wait that a refusal asks for the request is granted, and the loop ends in its
second round or before. -/
structure Ends (limiter : TokenBucket) (key : Str) (cost : Rat) : Prop where
  retry : ∀ now later, 0 < (limiter.tryLocal key cost now).1 →
    now + (limiter.tryLocal key cost now).1 ≤ later →
    ((limiter.tryLocal key cost now).2.tryLocal key cost later).1 ≤ 0
  returns : ∀ readings, 2 ≤ readings.length → limiter.Sleeps key cost readings →
    (limiter.acquire key cost (readings.take 2)).isSome = true

/-- What a refusal answers and what it leaves behind. -/
theorem tryLocal_refused (positive : 0 < limiter.rate) {now : Rat}
    (refused : 0 < (limiter.tryLocal key cost now).1) :
    (limiter.tryLocal key cost now).1 = (cost - limiter.refilled key now) / limiter.rate ∧
      ∃ b, (limiter.tryLocal key cost now).2 = limiter.setBucket key b ∧ b.updatedAt = now ∧
        b.tokens = limiter.refilled key now := by
  have spec := (tryLocal_spec limiter key cost now positive).1
  have short : ¬ cost ≤ limiter.refilled key now := fun enough =>
    absurd (spec.mpr enough) (not_le.mpr refused)
  unfold tryLocal
  simp only [short, ↓reduceIte]
  exact ⟨trivial, _, rfl, rfl, rfl⟩

/-- The wait is as long as it takes for the missing tokens to come in. -/
theorem retry_granted (positive : 0 < limiter.rate) (within : cost ≤ limiter.burst)
    {now later : Rat}
    (refused : 0 < (limiter.tryLocal key cost now).1)
    (slept : now + (limiter.tryLocal key cost now).1 ≤ later) :
    ((limiter.tryLocal key cost now).2.tryLocal key cost later).1 ≤ 0 := by
  obtain ⟨wait, b, written, time, left⟩ := tryLocal_refused positive refused
  rw [wait] at slept
  rw [written]
  apply (tryLocal_spec (limiter.setBucket key b) key cost later positive).1.mpr
  have enough : cost ≤ b.tokens + max 0 (later - b.updatedAt) * limiter.rate := by
    have elapsed :
        (cost - limiter.refilled key now) / limiter.rate ≤ max 0 (later - b.updatedAt) := by
      have ahead := le_max_right 0 (later - b.updatedAt)
      rw [time] at ahead ⊢
      linarith
    have gained := (div_le_iff₀ positive).mp elapsed
    rw [left]
    linarith
  simp only [refilled, bucket, setBucket_self, Option.getD_some]
  exact le_min within enough

/-- More than the burst is never there. -/
theorem refused_above_burst (positive : 0 < limiter.rate) (above : limiter.burst < cost)
    (now : Rat) :
    0 < (limiter.tryLocal key cost now).1 := by
  have spec := (tryLocal_spec limiter key cost now positive).1
  have full : limiter.refilled key now ≤ limiter.burst := refilled_le key now
  by_contra granted
  have enough := spec.mp (not_lt.mp granted)
  linarith

theorem acquire_above_burst (positive : 0 < limiter.rate) (above : limiter.burst < cost)
    (readings : List Rat) : limiter.acquire key cost readings = none := by
  induction readings generalizing limiter with
  | nil => rfl
  | cons now readings ih =>
      have refused := @refused_above_burst limiter key cost positive above now
      obtain ⟨_, b, written, _, _⟩ := tryLocal_refused positive refused
      have rest := @ih (limiter.tryLocal key cost now).2 (by rw [written]; exact positive)
        (by rw [written]; exact above)
      unfold acquire
      simp only [not_le.mpr refused, ↓reduceIte]
      exact rest

/-- Two rounds are enough for what the burst has room for. -/
theorem acquire_within_burst (positive : 0 < limiter.rate) (within : cost ≤ limiter.burst)
    {readings : List Rat} (rounds : 2 ≤ readings.length)
    (sleeps : limiter.Sleeps key cost readings) :
    (limiter.acquire key cost (readings.take 2)).isSome = true := by
  obtain ⟨now, later, rest, rfl⟩ : ∃ now later rest, readings = now :: later :: rest := by
    match readings, rounds with
    | now :: later :: rest, _ => exact ⟨now, later, rest, rfl⟩
  simp only [List.take_succ_cons, List.take_zero, acquire]
  by_cases granted : (limiter.tryLocal key cost now).1 ≤ 0
  · simp only [granted, ↓reduceIte, Option.isSome_some]
  · have refused := not_le.mp granted
    have second := retry_granted positive within refused (sleeps.1 refused)
    simp only [granted, second, ↓reduceIte, Option.isSome_some]

theorem ends_iff (positive : 0 < limiter.rate) : limiter.Ends key cost ↔ cost ≤ limiter.burst := by
  constructor
  · intro ends
    by_contra above
    have first := @refused_above_burst limiter key cost positive (not_le.mp above) 0
    have granted := ends.retry 0 (0 + (limiter.tryLocal key cost 0).1) first le_rfl
    obtain ⟨_, b, written, _, _⟩ := tryLocal_refused positive first
    rw [written] at granted
    have second := @refused_above_burst (limiter.setBucket key b) key cost positive
      (not_le.mp above) (0 + (limiter.tryLocal key cost 0).1)
    exact absurd granted (not_le.mpr second)
  · intro within
    exact ⟨fun _ _ refused slept => retry_granted positive within refused slept,
      fun _ rounds sleeps => acquire_within_burst positive within rounds sleeps⟩

/-- `acquire` ends, for a limiter in any state, when the request fits into the burst, and never
ends otherwise. -/
theorem acquire_ends_iff {ratePerSec : Rat} {burst : Option Rat} {built : TokenBucket}
    (init : TokenBucket.init ratePerSec burst = .ok built) (buckets : Str → Option Bucket)
    (key : Str) (cost : Rat) :
    (Ends { built with buckets := buckets } key cost ↔ cost ≤ built.burst) ∧
      (¬ cost ≤ built.burst → ∀ readings,
        acquire { built with buckets := buckets } key cost readings = none) := by
  obtain ⟨positive, rfl⟩ := init_ok init
  refine ⟨ends_iff positive, ?_⟩
  intro above
  exact @acquire_above_burst ⟨ratePerSec, burst.getD (max 1 ratePerSec), buckets⟩ key cost positive
    (not_le.mp above)

/-- Five requests a second on average, and never a whole one at once. -/
def halfLimiter : TokenBucket := ⟨5, 1 / 2, fun _ => none⟩

theorem acquire_ends_iff_half :
    Ends { halfLimiter with buckets := fun _ => none } "a".toList (1 / 2) ∧
      (1 / 2 : Rat) ≤ halfLimiter.burst := by
  have built : TokenBucket.init 5 (some (1 / 2)) = .ok halfLimiter := by
    rw [TokenBucket.init, if_neg (by norm_num)]
    rfl
  have within : (1 / 2 : Rat) ≤ halfLimiter.burst := le_rfl
  exact ⟨(acquire_ends_iff built (fun _ => none) "a".toList (1 / 2)).1.mpr within, within⟩

/-- The constructor takes a burst of one half, and the default cost of one never fits into it. -/
theorem acquire_never_ends :
    TokenBucket.init 5 (some (1 / 2)) = .ok halfLimiter ∧ ¬ Ends halfLimiter "a".toList 1 ∧
      ∀ readings, acquire halfLimiter "a".toList 1 readings = none := by
  have built : TokenBucket.init 5 (some (1 / 2)) = .ok halfLimiter := by
    rw [TokenBucket.init, if_neg (by norm_num)]
    rfl
  have positive : 0 < halfLimiter.rate := by norm_num [halfLimiter]
  have above : halfLimiter.burst < 1 := by norm_num [halfLimiter]
  refine ⟨built, ?_, acquire_above_burst positive above⟩
  rw [ends_iff positive]
  exact not_le.mpr above

end TokenBucket

/-- A `TokenBucket` for the hosts that have a rate of their own, and one for the others. -/
structure HostRateLimiter where
  default : TokenBucket
  buckets : List (Str × TokenBucket)

def HostRateLimiter.init (defaultRps : Rat) (overrides : List (Str × Rat)) :
    Except Exc HostRateLimiter := do
  let default ← TokenBucket.init defaultRps none
  let buckets ← overrides.mapM fun entry => do return (entry.1, ← TokenBucket.init entry.2 none)
  return ⟨default, buckets⟩

/-- The bucket that `HostRateLimiter.acquire` asks. -/
def HostRateLimiter.bucketOf (limiter : HostRateLimiter) (host : Str) : TokenBucket :=
  (limiter.buckets.lookup host).getD limiter.default

theorem init_default {rps : Rat} {limiter : TokenBucket}
    (built : TokenBucket.init rps none = .ok limiter) : 0 < limiter.rate ∧ 1 ≤ limiter.burst := by
  obtain ⟨positive, rfl⟩ := TokenBucket.init_ok built
  exact ⟨positive, le_max_left _ _⟩

/-- Every bucket of the limiter has room for the default cost. -/
theorem HostRateLimiter.acquire_ends {defaultRps : Rat} {overrides : List (Str × Rat)}
    {limiter : HostRateLimiter} (built : HostRateLimiter.init defaultRps overrides = .ok limiter)
    (host key : Str) {cost : Rat} (small : cost ≤ 1) : (limiter.bucketOf host).Ends key cost := by
  obtain ⟨default, first, built⟩ := bind_ok.mp built
  obtain ⟨buckets, own, built⟩ := bind_ok.mp built
  cases built
  have roomy : 0 < (bucketOf ⟨default, buckets⟩ host).rate ∧
      1 ≤ (bucketOf ⟨default, buckets⟩ host).burst := by
    unfold bucketOf
    cases found : buckets.lookup host with
    | none => exact init_default first
    | some limiter =>
        obtain ⟨before, after, inside, _⟩ := List.lookup_eq_some_iff.mp found
        obtain ⟨entry, _, made⟩ := mem_mapM_ok own (host, limiter) (by simp [inside])
        obtain ⟨limiter', made, same⟩ := bind_ok.mp made
        cases same
        exact init_default made
  exact (TokenBucket.ends_iff roomy.1).mpr (small.trans roomy.2)

end Cti
