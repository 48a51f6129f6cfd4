import Cti.RedisLimit

set_option autoImplicit false

/- One key of Redis that several workers ask for, each with a clock of its own. -/
namespace Cti

/-- An execution of the script: what the worker's clock shows, and what it asks for. -/
structure ScriptCall where
  now : Rat
  cost : Rat

/-- The total cost that executions on one key are granted, when the key never expires. -/
def scriptGranted (rate cap : Rat) : Option RedisHash → List ScriptCall → Rat
  | _, [] => 0
  | stored, call :: calls =>
      let (allowed, _, hash) := luaScript stored call.now rate cap call.cost
      (if allowed then call.cost else 0) + scriptGranted rate cap (some hash) calls

/-- What the steps forward from one reading to the next bring in; a step that is longer than it
takes to fill the bucket counts as the bucket. -/
def jumpCredit (rate cap : Rat) : List Rat → Rat
  | now :: later :: readings =>
      min cap (rate * max 0 (later - now)) + jumpCredit rate cap (later :: readings)
  | _ => 0

/-- Executions at these readings are granted the burst and what the rate gives in the time from
`a` to `b`, and no more. -/
def SkewBounded (rate cap a b : Rat) (readings : List Rat) : Prop :=
  ∀ calls : List ScriptCall, calls.map ScriptCall.now = readings → (∀ call ∈ calls, 0 ≤ call.cost) →
    scriptGranted rate cap none calls ≤ cap + rate * (b - a)

variable {rate cap : Rat}

theorem scriptGranted_cons (stored : Option RedisHash) (call : ScriptCall)
    (calls : List ScriptCall) :
    scriptGranted rate cap stored (call :: calls) =
      (if call.cost ≤ luaRefilled stored call.now rate cap then call.cost else 0) +
        scriptGranted rate cap
          (some ⟨luaRefilled stored call.now rate cap -
            if call.cost ≤ luaRefilled stored call.now rate cap then call.cost else 0, call.now⟩)
          calls := by
  simp only [scriptGranted, luaScript_eq, decide_eq_true_eq]

theorem luaRefilled_none (now : Rat) : luaRefilled none now rate cap = cap := by
  simp [luaRefilled]

theorem luaRefilled_some (hash : RedisHash) (now : Rat) :
    luaRefilled (some hash) now rate cap =
      min cap (hash.tokens + rate * max 0 (now - hash.updatedAt)) := by
  rw [mul_comm]
  rfl

/-- Refilling adds no more than the step forward brings in. -/
theorem luaRefilled_le {hash : RedisHash} (tokens : 0 ≤ hash.tokens) (now : Rat) :
    luaRefilled (some hash) now rate cap ≤
      hash.tokens + min cap (rate * max 0 (now - hash.updatedAt)) := by
  rw [luaRefilled_some, ← min_add_add_left]
  exact min_le_min (le_add_of_nonneg_left tokens) le_rfl

theorem luaRefilled_nonneg (positive : 0 < rate) (roomy : 0 ≤ cap) {hash : RedisHash}
    (tokens : 0 ≤ hash.tokens) (now : Rat) : 0 ≤ luaRefilled (some hash) now rate cap := by
  have gained : 0 ≤ rate * max 0 (now - hash.updatedAt) := mul_nonneg positive.le (le_max_left _ _)
  rw [luaRefilled_some]
  exact le_min roomy (add_nonneg tokens gained)

/-- A grant comes out of what was found, and leaves no debt. -/
theorem grant_bounds {found cost : Rat} (nonneg : 0 ≤ found) :
    (0 ≤ found - if cost ≤ found then cost else 0) := by
  split
  · rename_i enough
    exact sub_nonneg.mpr enough
  · rw [sub_zero]
    exact nonneg

/-- Executions spend what is stored and what the steps forward bring in. -/
theorem scriptGranted_le (positive : 0 < rate) (roomy : 0 ≤ cap) {hash : RedisHash}
    (tokens : 0 ≤ hash.tokens) (calls : List ScriptCall) :
    scriptGranted rate cap (some hash) calls ≤
      hash.tokens + jumpCredit rate cap (hash.updatedAt :: calls.map ScriptCall.now) := by
  induction calls generalizing hash with
  | nil => simpa [scriptGranted, jumpCredit] using tokens
  | cons call calls ih =>
      have found := luaRefilled_nonneg positive roomy tokens call.now
      have gained := @luaRefilled_le rate cap hash tokens call.now
      have rest := @ih ⟨luaRefilled (some hash) call.now rate cap -
        if call.cost ≤ luaRefilled (some hash) call.now rate cap then call.cost else 0, call.now⟩
        (grant_bounds found)
      rw [scriptGranted_cons, List.map_cons, jumpCredit]
      dsimp only at rest
      linarith

/-- Workers that take all there is at every reading get all that the steps forward bring in. -/
theorem scriptGranted_drain (positive : 0 < rate) (roomy : 0 ≤ cap) (updatedAt : Rat)
    (readings : List Rat) :
    ∃ calls : List ScriptCall, calls.map ScriptCall.now = readings ∧
      (∀ call ∈ calls, 0 ≤ call.cost) ∧
      scriptGranted rate cap (some ⟨0, updatedAt⟩) calls =
        jumpCredit rate cap (updatedAt :: readings) := by
  induction readings generalizing updatedAt with
  | nil => exact ⟨[], rfl, nofun, rfl⟩
  | cons now readings ih =>
      obtain ⟨calls, times, costs, total⟩ := ih now
      have found := @luaRefilled_nonneg rate cap positive roomy ⟨0, updatedAt⟩ le_rfl now
      refine ⟨⟨now, luaRefilled (some ⟨0, updatedAt⟩) now rate cap⟩ :: calls, ?_, ?_, ?_⟩
      · rw [List.map_cons, times]
      · exact List.forall_mem_cons.mpr ⟨found, costs⟩
      · rw [scriptGranted_cons, if_pos le_rfl, sub_self, total, jumpCredit, luaRefilled_some,
          zero_add]

/-- Readings that never go back take no step twice. -/
theorem jumpCredit_sorted (positive : 0 < rate) {a b : Rat} (interval : a ≤ b) {readings : List Rat}
    (within : ∀ now ∈ readings, a ≤ now ∧ now ≤ b) (sorted : readings.Pairwise (· ≤ ·)) :
    jumpCredit rate cap readings ≤ rate * (b - a) := by
  induction readings generalizing a with
  | nil => exact mul_nonneg positive.le (sub_nonneg.mpr interval)
  | cons now readings ih =>
      cases readings with
      | nil => exact mul_nonneg positive.le (sub_nonneg.mpr interval)
      | cons later readings =>
          obtain ⟨ahead, sorted⟩ := List.pairwise_cons.mp sorted
          have order : now ≤ later := ahead later List.mem_cons_self
          have inside := within now List.mem_cons_self
          have beyond : ∀ reading ∈ later :: readings, later ≤ reading ∧ reading ≤ b := by
            intro reading member
            refine ⟨?_, (within reading (List.mem_cons_of_mem _ member)).2⟩
            rcases List.mem_cons.mp member with rfl | member
            · exact le_rfl
            · exact (List.pairwise_cons.mp sorted).1 reading member
          have rest := ih (beyond later List.mem_cons_self).2 beyond sorted
          have step : min cap (rate * max 0 (later - now)) ≤ rate * (later - a) := by
            have longer : max 0 (later - now) ≤ later - a := max_le (by linarith) (by linarith)
            exact (min_le_right _ _).trans (mul_le_mul_of_nonneg_left longer positive.le)
          have whole : rate * (later - a) + rate * (b - later) = rate * (b - a) := by
            rw [← mul_add, add_comm, sub_add_sub_cancel]
          rw [jumpCredit]
          linarith

/-- The shared bucket keeps to its bound, whatever the requests at these readings cost, exactly
when the steps forward from reading to reading bring in no more than the whole interval; readings
that never go back always do. -/
theorem shared_bucket_bound_iff (positive : 0 < rate) (roomy : 0 ≤ cap) {a b : Rat}
    (interval : a ≤ b) (readings : List Rat) (within : ∀ now ∈ readings, a ≤ now ∧ now ≤ b) :
    (SkewBounded rate cap a b readings ↔ jumpCredit rate cap readings ≤ rate * (b - a)) ∧
      (readings.Pairwise (· ≤ ·) → jumpCredit rate cap readings ≤ rate * (b - a)) := by
  have whole : 0 ≤ rate * (b - a) := mul_nonneg positive.le (sub_nonneg.mpr interval)
  refine ⟨?_, jumpCredit_sorted positive interval within⟩
  cases readings with
  | nil =>
      refine ⟨fun _ => whole, ?_⟩
      intro _ calls none _
      rw [List.map_eq_nil_iff.mp none]
      exact add_nonneg roomy whole
  | cons now readings =>
      constructor
      · intro bounded
        obtain ⟨calls, times, costs, total⟩ := scriptGranted_drain positive roomy now readings
        have spent := bounded (⟨now, cap⟩ :: calls) (by rw [List.map_cons, times])
          (List.forall_mem_cons.mpr ⟨roomy, costs⟩)
        rw [scriptGranted_cons, luaRefilled_none, if_pos le_rfl, sub_self, total] at spent
        linarith
      · intro credit calls times costs
        cases calls with
        | nil => cases times
        | cons call calls =>
            rw [List.map_cons, List.cons.injEq] at times
            have rest := @scriptGranted_le rate cap positive roomy
              ⟨cap - if call.cost ≤ cap then call.cost else 0, call.now⟩ (grant_bounds roomy) calls
            rw [scriptGranted_cons, luaRefilled_none]
            dsimp only at rest
            rw [times.1, times.2] at rest
            rw [times.1]
            linarith

/-- Two workers, whose clocks are a second apart, take turns. -/
def skewedReadings : List Rat := [0, 1, 0, 1]

theorem shared_bucket_bound_iff_skewed :
    SkewBounded 1 1 0 2 skewedReadings ∧ jumpCredit 1 1 skewedReadings ≤ 1 * (2 - 0) := by
  have small : jumpCredit 1 1 skewedReadings ≤ 1 * (2 - 0) := by decide +kernel
  have bound := (@shared_bucket_bound_iff 1 1 (by norm_num) (by norm_num) 0 2 (by norm_num)
    skewedReadings (by norm_num [skewedReadings])).1
  exact ⟨bound.mpr small, small⟩

/-- The same second is credited whenever the worker that is behind was last. -/
theorem skewed_clocks_overrun :
    (∀ now ∈ skewedReadings, 0 ≤ now ∧ now ≤ 1) ∧
      scriptGranted 1 1 none [⟨0, 1⟩, ⟨1, 1⟩, ⟨0, 0⟩, ⟨1, 1⟩] = 3 ∧
      ¬ SkewBounded 1 1 0 1 skewedReadings := by
  have three : scriptGranted 1 1 none [⟨0, 1⟩, ⟨1, 1⟩, ⟨0, 0⟩, ⟨1, 1⟩] = 3 := by decide +kernel
  refine ⟨by norm_num [skewedReadings], three, ?_⟩
  intro bounded
  have spent := bounded [⟨0, 1⟩, ⟨1, 1⟩, ⟨0, 0⟩, ⟨1, 1⟩] rfl (by norm_num)
  rw [three] at spent
  norm_num at spent

end Cti
