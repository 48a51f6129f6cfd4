import Mathlib.Algebra.Order.Field.Rat
import Mathlib.Logic.Function.Basic
import Mathlib.Tactic.NormNum
import Cti.Amortized
import Cti.FeedRuns

set_option autoImplicit false

/- The token buckets of `core/ratelimit.py`, in process and over exact numbers. The lock makes
a call of `_try_local` one step. -/
namespace Cti

open Py (Str)

structure Bucket where
  capacity : Rat
  rate : Rat
  tokens : Rat
  updatedAt : Rat

/-- A `TokenBucket` without Redis; `buckets` is its `_local`. -/
structure TokenBucket where
  rate : Rat
  burst : Rat
  buckets : Str → Option Bucket

def TokenBucket.init (ratePerSec : Rat) (burst : Option Rat) : Except Exc TokenBucket :=
  if ratePerSec ≤ 0 then
    .error (foreignExc "ValueError".toList "rate_per_sec must be > 0".toList)
  else
    .ok ⟨ratePerSec, burst.getD (max 1 ratePerSec), fun _ => none⟩

namespace TokenBucket

variable (limiter : TokenBucket)

/-- The bucket of a key, which is full when it is made. -/
def bucket (key : Str) (now : Rat) : Bucket :=
  (limiter.buckets key).getD ⟨limiter.burst, limiter.rate, limiter.burst, now⟩

/-- The tokens of a key, refilled up to a moment. -/
def refilled (key : Str) (now : Rat) : Rat :=
  let b := limiter.bucket key now
  let elapsed := max 0 (now - b.updatedAt)
  min limiter.burst (b.tokens + elapsed * limiter.rate)

def setBucket (key : Str) (b : Bucket) : TokenBucket :=
  { limiter with buckets := Function.update limiter.buckets key (some b) }

/-- `_try_local`: how long to wait, and the buckets afterwards. -/
def tryLocal (key : Str) (cost now : Rat) : Rat × TokenBucket :=
  let b := limiter.bucket key now
  let tokens := limiter.refilled key now
  if cost ≤ tokens then
    (0, limiter.setBucket key { b with tokens := tokens - cost, updatedAt := now })
  else
    ((cost - tokens) / limiter.rate, limiter.setBucket key { b with tokens := tokens, updatedAt := now })

end TokenBucket

/-- A call of `_try_local`, with the reading of the clock that it takes. -/
structure LimiterCall where
  key : Str
  cost : Rat
  now : Rat

namespace TokenBucket

def step (limiter : TokenBucket) (call : LimiterCall) : TokenBucket :=
  (limiter.tryLocal call.key call.cost call.now).2

def run (limiter : TokenBucket) (calls : List LimiterCall) : TokenBucket := calls.foldl step limiter

/-- What a call takes from a key; `acquire` goes on when it need not wait. -/
def grant (key : Str) (limiter : TokenBucket) (call : LimiterCall) : Rat :=
  if call.key = key ∧ (limiter.tryLocal call.key call.cost call.now).1 ≤ 0 then call.cost else 0

/-- The total cost that the calls are granted on a key. -/
def granted (key : Str) : TokenBucket → List LimiterCall → Rat
  | _, [] => 0
  | limiter, call :: calls => grant key limiter call + granted key (limiter.step call) calls

/-- Every bucket holds between nothing and the burst. -/
structure Bounded (limiter : TokenBucket) : Prop where
  rate : 0 < limiter.rate
  burst : 0 ≤ limiter.burst
  tokens : ∀ key b, limiter.buckets key = some b → 0 ≤ b.tokens ∧ b.tokens ≤ limiter.burst

variable {limiter : TokenBucket}

theorem init_ok {ratePerSec : Rat} {burst : Option Rat}
    (built : TokenBucket.init ratePerSec burst = .ok limiter) :
    0 < ratePerSec ∧ limiter = ⟨ratePerSec, burst.getD (max 1 ratePerSec), fun _ => none⟩ := by
  unfold TokenBucket.init at built
  split at built
  · cases built
  · rename_i positive
    cases built
    exact ⟨lt_of_not_ge positive, rfl⟩

theorem init_bounded {ratePerSec : Rat} {burst : Option Rat}
    (built : TokenBucket.init ratePerSec burst = .ok limiter) (nonneg : 0 ≤ limiter.burst) :
    limiter.Bounded := by
  obtain ⟨positive, rfl⟩ := init_ok built
  exact ⟨positive, nonneg, nofun⟩

theorem Bounded.bucket (bounded : limiter.Bounded) (key : Str) (now : Rat) :
    0 ≤ (limiter.bucket key now).tokens ∧ (limiter.bucket key now).tokens ≤ limiter.burst := by
  unfold TokenBucket.bucket
  cases found : limiter.buckets key with
  | none => exact ⟨bounded.burst, le_rfl⟩
  | some b => exact bounded.tokens key b found

theorem refilled_le (key : Str) (now : Rat) : limiter.refilled key now ≤ limiter.burst :=
  min_le_left _ _

theorem Bounded.refilled (bounded : limiter.Bounded) (key : Str) (now : Rat) :
    0 ≤ limiter.refilled key now := by
  have filled := (bounded.bucket key now).1
  have grown : 0 ≤ max 0 (now - (limiter.bucket key now).updatedAt) * limiter.rate :=
    mul_nonneg (le_max_left _ _) bounded.rate.le
  exact le_min bounded.burst (add_nonneg filled grown)

/-- A key gets no more than the rate while time goes by. -/
theorem Bounded.refilled_grows (bounded : limiter.Bounded) (key : Str) {t t' : Rat} (later : t ≤ t') :
    limiter.refilled key t' ≤ limiter.refilled key t + limiter.rate * (t' - t) := by
  have gained : 0 ≤ limiter.rate * (t' - t) := mul_nonneg bounded.rate.le (sub_nonneg.mpr later)
  cases found : limiter.buckets key with
  | none =>
      have full : ∀ now, limiter.refilled key now = limiter.burst := by
        intro now
        simp [TokenBucket.refilled, TokenBucket.bucket, found]
      rw [full, full]
      exact le_add_of_nonneg_right gained
  | some b =>
      have elapsed : max 0 (t' - b.updatedAt) ≤ max 0 (t - b.updatedAt) + (t' - t) := by
        refine max_le (add_nonneg (le_max_left _ _) (sub_nonneg.mpr later)) ?_
        have ahead := le_max_right 0 (t - b.updatedAt)
        linarith
      have gain := mul_le_mul_of_nonneg_right elapsed bounded.rate.le
      simp only [TokenBucket.refilled, TokenBucket.bucket, found, Option.getD_some]
      rw [← min_add_add_right]
      refine min_le_min (le_add_of_nonneg_right gained) ?_
      rw [add_mul] at gain
      linarith

/-- A call need not wait where there are enough tokens; it writes what is left of them, at its
time. -/
theorem tryLocal_spec (limiter : TokenBucket) (key : Str) (cost now : Rat)
    (positive : 0 < limiter.rate) :
    ((limiter.tryLocal key cost now).1 ≤ 0 ↔ cost ≤ limiter.refilled key now) ∧
      ∃ b, (limiter.tryLocal key cost now).2 = limiter.setBucket key b ∧ b.updatedAt = now ∧
        b.tokens = limiter.refilled key now -
          if cost ≤ limiter.refilled key now then cost else 0 := by
  unfold TokenBucket.tryLocal
  by_cases enough : cost ≤ limiter.refilled key now
  · simp only [enough, ↓reduceIte, le_refl, true_and]
    exact ⟨_, rfl, rfl, rfl⟩
  · have missing : 0 < (cost - limiter.refilled key now) / limiter.rate :=
      div_pos (sub_pos.mpr (lt_of_not_ge enough)) positive
    simp only [enough, ↓reduceIte, not_le.mpr missing, true_and, sub_zero]
    exact ⟨_, rfl, rfl, rfl⟩

theorem setBucket_self (limiter : TokenBucket) (key : Str) (b : Bucket) :
    (limiter.setBucket key b).buckets key = some b := by
  simp [setBucket]

theorem setBucket_other (limiter : TokenBucket) {key key' : Str} (b : Bucket) (other : key' ≠ key) :
    (limiter.setBucket key b).buckets key' = limiter.buckets key' := by
  simp [setBucket, other]

/-- A call leaves the buckets of the other keys alone. -/
theorem step_other (limiter : TokenBucket) {call : LimiterCall} {key : Str} (other : key ≠ call.key) :
    (limiter.step call).buckets key = limiter.buckets key := by
  unfold step tryLocal
  dsimp only
  split
  · exact setBucket_other limiter _ other
  · exact setBucket_other limiter _ other

theorem step_rate (limiter : TokenBucket) (call : LimiterCall) :
    (limiter.step call).rate = limiter.rate ∧ (limiter.step call).burst = limiter.burst := by
  unfold step tryLocal
  dsimp only
  split
  · exact ⟨rfl, rfl⟩
  · exact ⟨rfl, rfl⟩

/-- The tokens that a call leaves to its key. -/
theorem Bounded.step_self (bounded : limiter.Bounded) (call : LimiterCall) :
    ∃ b, (limiter.step call).buckets call.key = some b ∧ b.updatedAt = call.now ∧
      b.tokens = limiter.refilled call.key call.now - grant call.key limiter call := by
  obtain ⟨allowed, b, written, time, left⟩ :=
    tryLocal_spec limiter call.key call.cost call.now bounded.rate
  refine ⟨b, ?_, time, ?_⟩
  · unfold TokenBucket.step
    rw [written]
    exact setBucket_self limiter call.key b
  · simp only [left, grant, allowed, true_and]

theorem Bounded.grant_le (bounded : limiter.Bounded) (call : LimiterCall) :
    grant call.key limiter call ≤ limiter.refilled call.key call.now := by
  have allowed := (tryLocal_spec limiter call.key call.cost call.now bounded.rate).1
  unfold grant
  split
  · rename_i granted
    exact allowed.mp granted.2
  · exact bounded.refilled call.key call.now

theorem grant_nonneg (key : Str) (limiter : TokenBucket) {call : LimiterCall} (cost : 0 ≤ call.cost) :
    0 ≤ grant key limiter call := by
  unfold grant
  split
  · exact cost
  · exact le_rfl

theorem grant_other (limiter : TokenBucket) {call : LimiterCall} {key : Str} (other : key ≠ call.key) :
    grant key limiter call = 0 := by
  simp [grant, Ne.symm other]

theorem Bounded.step (bounded : limiter.Bounded) {call : LimiterCall} (cost : 0 ≤ call.cost) :
    (limiter.step call).Bounded := by
  obtain ⟨rate, burst⟩ := step_rate limiter call
  refine ⟨by rw [rate]; exact bounded.rate, by rw [burst]; exact bounded.burst, ?_⟩
  intro key b found
  rw [burst]
  by_cases own : key = call.key
  · subst own
    obtain ⟨b', written, _, left⟩ := bounded.step_self call
    rw [written] at found
    cases found
    rw [left]
    have enough := bounded.grant_le call
    have spent := grant_nonneg call.key limiter cost
    have full : limiter.refilled call.key call.now ≤ limiter.burst := refilled_le call.key call.now
    constructor
    · linarith
    · linarith
  · rw [step_other limiter own] at found
    exact bounded.tokens key b found

/-- At the time of a call its key pays for what the call is granted, and no other key does. -/
theorem Bounded.step_pays (bounded : limiter.Bounded) {call : LimiterCall} (cost : 0 ≤ call.cost)
    (key : Str) :
    grant key limiter call + (limiter.step call).refilled key call.now =
      limiter.refilled key call.now := by
  have after := bounded.step cost
  obtain ⟨rate, burst⟩ := step_rate limiter call
  by_cases own : key = call.key
  · subst own
    obtain ⟨b, written, time, left⟩ := bounded.step_self call
    have held := (after.tokens call.key b written).2
    have still : (limiter.step call).refilled call.key call.now = b.tokens := by
      simp only [TokenBucket.refilled, TokenBucket.bucket, written, Option.getD_some, time]
      simpa using held
    rw [still, left]
    exact add_sub_cancel _ _
  · have same : (limiter.step call).refilled key call.now = limiter.refilled key call.now := by
      simp only [TokenBucket.refilled, TokenBucket.bucket, step_other limiter own, rate, burst]
    rw [same, grant_other limiter own, zero_add]

/-- The account of a key: its credit is what it could take at once. -/
def account (key : Str) (rate burst : Rat) : Amortized.Account TokenBucket LimiterCall Rat where
  step := step
  time call := call.now
  spend := grant key
  credit limiter now := limiter.refilled key now
  rate := rate
  Inv limiter := limiter.Bounded ∧ limiter.rate = rate ∧ limiter.burst = burst
  Admissible call := 0 ≤ call.cost
  keeps limiter call cost inv := by
    obtain ⟨bounded, rate, burst⟩ := inv
    obtain ⟨rate', burst'⟩ := step_rate limiter call
    exact ⟨bounded.step cost, rate'.trans rate, burst'.trans burst⟩
  nonneg limiter now inv := inv.1.refilled key now
  grows limiter t t' inv later := by
    obtain ⟨bounded, rfl, _⟩ := inv
    exact bounded.refilled_grows key later
  pays limiter call cost inv := (inv.1.step_pays cost key).le

theorem granted_eq (key : Str) (rate burst : Rat) (limiter : TokenBucket) (calls : List LimiterCall) :
    granted key limiter calls = (account key rate burst).spent limiter calls := by
  induction calls generalizing limiter with
  | nil => rfl
  | cons call calls ih =>
      unfold granted Amortized.Account.spent
      rw [ih]
      rfl

/-- What calls that follow one another are granted, whatever was called before. -/
theorem Bounded.granted_le (bounded : limiter.Bounded) {calls : List LimiterCall}
    {start finish : Rat} (costs : ∀ call ∈ calls, 0 ≤ call.cost)
    (sorted : calls.Pairwise fun call call' => call.now ≤ call'.now)
    (after : ∀ call ∈ calls, start ≤ call.now) (before : ∀ call ∈ calls, call.now ≤ finish)
    (window : start ≤ finish) (key : Str) :
    granted key limiter calls ≤ limiter.burst + limiter.rate * (finish - start) := by
  have spent := (account key limiter.rate limiter.burst).spent_le ⟨bounded, rfl, rfl⟩ costs sorted
    after before window
  rw [granted_eq key limiter.rate limiter.burst]
  refine spent.trans ?_
  exact add_le_add_left (refilled_le key start) _

theorem Bounded.run (bounded : limiter.Bounded) {calls : List LimiterCall}
    (costs : ∀ call ∈ calls, 0 ≤ call.cost) :
    (limiter.run calls).Bounded ∧ (limiter.run calls).rate = limiter.rate ∧
      (limiter.run calls).burst = limiter.burst :=
  (account [] limiter.rate limiter.burst).inv_foldl ⟨bounded, rfl, rfl⟩ costs

/-- The calls of a window come between its first and its last. -/
theorem window_between {calls : List LimiterCall}
    (sorted : calls.Pairwise fun call call' => call.now ≤ call'.now) {i j : Nat} (order : i ≤ j)
    (bound : j < calls.length) {call : LimiterCall} (member : call ∈ (calls.take (j + 1)).drop i) :
    calls[i].now ≤ call.now ∧ call.now ≤ calls[j].now := by
  have ascending := List.pairwise_iff_getElem.mp sorted
  obtain ⟨k, inside, rfl⟩ := List.getElem_of_mem member
  rw [List.getElem_drop, List.getElem_take]
  rw [List.length_drop, List.length_take] at inside
  constructor
  · rcases Nat.eq_zero_or_pos k with rfl | positive
    · exact le_rfl
    · exact ascending i (i + k) _ _ (by omega)
  · rcases Nat.lt_or_ge (i + k) j with earlier | late
    · exact ascending (i + k) j _ _ earlier
    · have last : i + k = j := by omega
      simp only [last, le_rfl]

/-- The limiter keeps every bucket between nothing and the burst, grants every key in every
window of calls no more than the burst and what the rate gives it, and keeps the keys apart. -/
theorem tryLocal_rate_bound {ratePerSec : Rat} {burst : Option Rat} {limiter : TokenBucket}
    (built : TokenBucket.init ratePerSec burst = .ok limiter) (nonneg : 0 ≤ limiter.burst)
    (calls : List LimiterCall) (costs : ∀ call ∈ calls, 0 ≤ call.cost)
    (sorted : calls.Pairwise fun call call' => call.now ≤ call'.now) :
    (∀ n key b, (limiter.run (calls.take n)).buckets key = some b →
      0 ≤ b.tokens ∧ b.tokens ≤ limiter.burst) ∧
    (∀ (key : Str) (i j : Nat) (_ : i ≤ j) (_ : j < calls.length),
      granted key (limiter.run (calls.take i)) ((calls.take (j + 1)).drop i) ≤
        limiter.burst + limiter.rate * (calls[j].now - calls[i].now)) ∧
    ∀ (n : Nat) (_ : n < calls.length) (key : Str), key ≠ calls[n].key →
      (limiter.run (calls.take (n + 1))).buckets key = (limiter.run (calls.take n)).buckets key := by
  have bounded := init_bounded built nonneg
  have after : ∀ n, (limiter.run (calls.take n)).Bounded ∧
      (limiter.run (calls.take n)).rate = limiter.rate ∧
      (limiter.run (calls.take n)).burst = limiter.burst :=
    fun n => bounded.run fun call member => costs call (List.mem_of_mem_take member)
  refine ⟨?_, ?_, ?_⟩
  · intro n key b found
    obtain ⟨kept, _, burst⟩ := after n
    rw [← burst]
    exact kept.tokens key b found
  · intro key i j order bound
    obtain ⟨kept, rate, burst⟩ := after i
    rw [← rate, ← burst]
    have between : ∀ call ∈ (calls.take (j + 1)).drop i,
        calls[i].now ≤ call.now ∧ call.now ≤ calls[j].now :=
      fun call member => window_between sorted order bound member
    refine kept.granted_le ?_ ?_ (fun call member => (between call member).1)
      (fun call member => (between call member).2) ?_ key
    · intro call member
      exact costs call (List.mem_of_mem_take (List.mem_of_mem_drop member))
    · exact (sorted.sublist (List.take_sublist _ _)).sublist (List.drop_sublist _ _)
    · rcases Nat.lt_or_ge i j with earlier | late
      · exact List.pairwise_iff_getElem.mp sorted i j _ _ earlier
      · have same : i = j := by omega
        subst same
        exact le_rfl
  · intro n bound key other
    unfold TokenBucket.run
    rw [List.take_add_one, List.getElem?_eq_getElem bound, List.foldl_append]
    exact step_other _ other

/-- Ten requests a second, at most two at once. -/
def hostLimiter : TokenBucket := ⟨10, 2, fun _ => none⟩

/-- Three requests to a host at once with one to another host among them, and one more after a
tenth of a second. -/
def hostCalls : List LimiterCall :=
  [⟨"a".toList, 1, 0⟩, ⟨"b".toList, 1, 0⟩, ⟨"a".toList, 1, 0⟩, ⟨"a".toList, 1, 0⟩,
    ⟨"a".toList, 1, 1 / 10⟩]

theorem tryLocal_rate_bound_host :
    TokenBucket.init 10 (some 2) = .ok hostLimiter ∧
      granted "a".toList hostLimiter hostCalls = 3 ∧
      granted "a".toList (hostLimiter.run (hostCalls.take 0)) ((hostCalls.take 5).drop 0) ≤
        hostLimiter.burst + hostLimiter.rate * (1 / 10 - 0) := by
  have built : TokenBucket.init 10 (some 2) = .ok hostLimiter := by
    rw [TokenBucket.init, if_neg (by norm_num)]
    rfl
  have bound := (tryLocal_rate_bound built (by norm_num [hostLimiter]) hostCalls
    (by norm_num [hostCalls]) (by norm_num [hostCalls])).2.1 "a".toList 0 4 (by decide) (by decide)
  exact ⟨built, by decide +kernel, bound⟩

end TokenBucket

end Cti
