import Cti.Acquire
import Cti.RetryLoop

set_option autoImplicit false

/- Any number of callers in `TokenBucket.acquire` at once. -/
namespace Cti

open Py (Str)

namespace TokenBucket

variable {limiter : TokenBucket} {key : Str} {cost : Rat}

theorem tryLocal_rate (limiter : TokenBucket) (key : Str) (cost now : Rat) :
    (limiter.tryLocal key cost now).2.rate = limiter.rate ∧
      (limiter.tryLocal key cost now).2.burst = limiter.burst :=
  limiter.step_rate ⟨key, cost, now⟩

/-- The key of another caller does not see a try. -/
theorem tryLocal_other (limiter : TokenBucket) {key' : Str} (other : key' ≠ key) (now t : Rat) :
    (limiter.tryLocal key cost now).2.refilled key' t = limiter.refilled key' t := by
  let call : LimiterCall := ⟨key, cost, now⟩
  have same : (limiter.step call).buckets key' = limiter.buckets key' := limiter.step_other other
  change (limiter.tryLocal key cost now).2.buckets key' = limiter.buckets key' at same
  obtain ⟨rate, burst⟩ := tryLocal_rate limiter key cost now
  simp only [refilled, bucket, same, rate, burst]

/-- A refusal takes nothing from its key. -/
theorem refused_keeps (positive : 0 < limiter.rate) {now t : Rat}
    (refused : 0 < (limiter.tryLocal key cost now).1) (later : now ≤ t) :
    limiter.refilled key t ≤ (limiter.tryLocal key cost now).2.refilled key t := by
  obtain ⟨_, b, written, time, left⟩ := tryLocal_refused positive refused
  have rate : (limiter.setBucket key b).rate = limiter.rate := rfl
  rw [written]
  simp only [refilled, bucket, setBucket_self, Option.getD_some, time, rate] at left ⊢
  rw [left, max_eq_right (sub_nonneg.mpr later)]
  have gained : 0 ≤ (t - now) * limiter.rate := mul_nonneg (sub_nonneg.mpr later) positive.le
  refine le_min (min_le_left _ _) ?_
  rw [← min_add_add_right]
  refine min_le_min (le_add_of_nonneg_right gained) ?_
  cases found : limiter.buckets key with
  | none =>
      simp only [Option.getD_none, sub_self, max_self, zero_mul, add_zero]
      exact le_add_of_nonneg_right gained
  | some stored =>
      simp only [Option.getD_some]
      have elapsed : max 0 (t - stored.updatedAt) ≤ max 0 (now - stored.updatedAt) + (t - now) := by
        refine max_le (add_nonneg (le_max_left _ _) (sub_nonneg.mpr later)) ?_
        have ahead := le_max_right 0 (now - stored.updatedAt)
        linarith
      have gain := mul_le_mul_of_nonneg_right elapsed positive.le
      rw [add_mul] at gain
      linarith

end TokenBucket

/-- What a caller of `acquire` asks for. -/
structure LimiterRequest where
  key : Str
  cost : Rat

section contention

variable {ι : Type}

/-- Callers of `acquire` on one limiter. A caller that is in the loop sleeps until a time. No
request is above the burst. -/
structure Acquirers (calls : ι → LimiterRequest) where
  limiter : TokenBucket
  now : Rat
  wakes : ι → Option Rat
  positive : 0 < limiter.rate
  within : ∀ i, (calls i).cost ≤ limiter.burst

variable {calls : ι → LimiterRequest}

namespace Acquirers

/-- What `_try` answers a caller. -/
def wait (s : Acquirers calls) (i : ι) (now : Rat) : Rat :=
  (s.limiter.tryLocal (calls i).key (calls i).cost now).1

theorem wait_iff (s : Acquirers calls) (i : ι) (now : Rat) :
    s.wait i now ≤ 0 ↔ (calls i).cost ≤ s.limiter.refilled (calls i).key now :=
  (TokenBucket.tryLocal_spec s.limiter _ _ now s.positive).1

variable [DecidableEq ι]

/-- A round of a caller's loop: it returns, or sleeps again. -/
def round (s : Acquirers calls) (i : ι) (now : Rat) : Acquirers calls where
  limiter := (s.limiter.tryLocal (calls i).key (calls i).cost now).2
  now := now
  wakes := Function.update s.wakes i (if s.wait i now ≤ 0 then none else some (now + s.wait i now))
  positive := by
    rw [(TokenBucket.tryLocal_rate s.limiter _ _ now).1]
    exact s.positive
  within j := by
    rw [(TokenBucket.tryLocal_rate s.limiter _ _ now).2]
    exact s.within j

/-- A caller whose sleep is over tries; the clock does not go back. -/
inductive Step (s : Acquirers calls) (i : ι) : Bool → Acquirers calls → Prop
  | round {wake now : Rat} (sleeps : s.wakes i = some wake) (awake : wake ≤ now)
      (clock : s.now ≤ now) : Step s i (decide (s.wait i now ≤ 0)) (s.round i now)

/-- Once it is awake, what a caller asks for is there. -/
def Due (s : Acquirers calls) (i : ι) : Prop :=
  ∀ wake, s.wakes i = some wake → ∀ t, wake ≤ t → s.now ≤ t →
    (calls i).cost ≤ s.limiter.refilled (calls i).key t

variable {s s' : Acquirers calls}

theorem Step.leaves {i : ι} {granted : Bool} (step : s.Step i granted s')
    (returned : granted = true) : ¬ (s'.wakes i).isSome := by
  cases step with
  | @round wake now sleeps awake clock =>
      change ¬ (Function.update s.wakes i _ i).isSome
      rw [Function.update_self, if_pos (of_decide_eq_true returned)]
      exact Bool.false_ne_true

theorem Step.refused {i : ι} (step : s.Step i false s') : ¬ s.Due i ∧ s'.Due i := by
  generalize answer : false = granted at step
  cases step with
  | @round wake now sleeps awake clock =>
      have refused : ¬ s.wait i now ≤ 0 := of_decide_eq_false answer.symm
      constructor
      · intro due
        exact refused ((s.wait_iff i now).mpr (due wake sleeps now awake clock))
      · intro wake' sleeps' t awake' clock'
        have until_then : (s.round i now).wakes i = some (now + s.wait i now) := by
          change Function.update s.wakes i _ i = _
          rw [Function.update_self, if_neg refused]
        rw [until_then] at sleeps'
        cases sleeps'
        have granted := TokenBucket.retry_granted s.positive (s.within i) (not_le.mp refused) awake'
        exact ((s.round i now).wait_iff i t).mp granted

theorem Step.keeps {i j : ι} {granted : Bool} (step : s.Step i granted s')
    (apart : granted = false ∨ (calls i).key ≠ (calls j).key) (other : j ≠ i) (due : s.Due j) :
    s'.Due j := by
  cases step with
  | @round wake now sleeps awake clock =>
      intro wake' sleeps' t awake' later
      have still : s.wakes j = some wake' := by
        change Function.update s.wakes i _ j = _ at sleeps'
        rwa [Function.update_of_ne other] at sleeps'
      have enough := due wake' still t awake' (clock.trans later)
      by_cases same : (calls j).key = (calls i).key
      · have refused : ¬ s.wait i now ≤ 0 := by
          rcases apart with answer | apart
          · exact of_decide_eq_false answer
          · exact absurd same.symm apart
        have kept := TokenBucket.refused_keeps s.positive (not_le.mp refused) later
        rw [same] at enough ⊢
        exact enough.trans kept
      · change _ ≤ (s.limiter.tryLocal (calls i).key (calls i).cost now).2.refilled _ t
        rw [TokenBucket.tryLocal_other s.limiter same]
        exact enough

theorem Step.absent {i j : ι} {granted : Bool} (step : s.Step i granted s')
    (gone : ¬ (s.wakes j).isSome) : ¬ (s'.wakes j).isSome := by
  cases step with
  | @round wake now sleeps awake clock =>
      have other : j ≠ i := by
        rintro rfl
        rw [sleeps] at gone
        exact gone rfl
      change ¬ (Function.update s.wakes i _ j).isSome
      rwa [Function.update_of_ne other]

/-- The callers of a key are rivals. -/
def contest (calls : ι → LimiterRequest) : RetryLoop.Contest (Acquirers calls) ι Str where
  key i := (calls i).key
  step := Step
  waiting s i := (s.wakes i).isSome
  due := Due
  tries s i granted s' step := by
    cases step with
    | round sleeps awake clock => rw [sleeps]; rfl
  leaves _ _ _ step := step.leaves rfl
  absent _ _ _ _ _ step := step.absent
  refused _ _ _ step := step.refused
  keeps _ _ _ _ _ step := step.keeps

/-- Any calls of `acquire`, on a limiter in any state. -/
def start {ratePerSec : Rat} {burst : Option Rat} {built : TokenBucket}
    (init : TokenBucket.init ratePerSec burst = .ok built) (buckets : Str → Option Bucket)
    (within : ∀ i, (calls i).cost ≤ built.burst) (arrival : ι → Rat) (now : Rat) :
    Acquirers calls where
  limiter := { built with buckets := buckets }
  now := now
  wakes i := some (arrival i)
  positive := by
    obtain ⟨positive, rfl⟩ := TokenBucket.init_ok init
    exact positive
  within := within

end Acquirers

end contention

end Cti
