import Mathlib.Algebra.BigOperators.Group.Finset.Piecewise
import Mathlib.Algebra.Group.Action.Defs
import Mathlib.Algebra.Order.BigOperators.Group.Finset

set_option autoImplicit false

/- Callers that retry until they are granted what they ask for. A caller that has been refused is
granted its next try, unless a rival is granted in between: then its tries are bounded by what its
rivals are granted, and finitely many callers all come through. -/
namespace RetryLoop

variable {σ ι κ : Type}

/-- Callers in their loops. A step is a try of one of them, granted or refused; callers of one key
are rivals. -/
structure Contest (σ ι κ : Type) where
  key : ι → κ
  step : σ → ι → Bool → σ → Prop
  waiting : σ → ι → Prop
  due : σ → ι → Prop
  tries : ∀ s i granted s', step s i granted s' → waiting s i
  leaves : ∀ s i s', step s i true s' → ¬ waiting s' i
  absent : ∀ s i granted s' j, step s i granted s' → ¬ waiting s j → ¬ waiting s' j
  refused : ∀ s i s', step s i false s' → ¬ due s i ∧ due s' i
  keeps : ∀ s i granted s' j, step s i granted s' → (granted = false ∨ key i ≠ key j) → j ≠ i →
    due s j → due s' j

variable (contest : Contest σ ι κ)

/-- A run, with its tries in their order. -/
inductive Contest.Run (start : σ) : List (ι × Bool) → σ → Prop
  | idle : Contest.Run start [] start
  | step {log : List (ι × Bool)} {s s' : σ} {i : ι} {granted : Bool}
      (run : Contest.Run start log s) (step : contest.step s i granted s') :
      Contest.Run start (log ++ [(i, granted)]) s'

section counting

variable [DecidableEq ι]

/-- How often a caller has tried. -/
def attempts (i : ι) (log : List (ι × Bool)) : Nat := log.countP fun e => e.1 = i

def refusals (i : ι) (log : List (ι × Bool)) : Nat := log.countP fun e => e.1 = i ∧ e.2 = false

def grants (i : ι) (log : List (ι × Bool)) : Nat := log.countP fun e => e.1 = i ∧ e.2 = true

theorem attempts_eq (i : ι) (log : List (ι × Bool)) :
    attempts i log = refusals i log + grants i log := by
  induction log with
  | nil => rfl
  | cons e log ih =>
      obtain ⟨j, granted⟩ := e
      unfold attempts refusals grants at ih ⊢
      rw [List.countP_cons, List.countP_cons, List.countP_cons, ih]
      cases granted <;> by_cases own : j = i <;> simp [own] <;> omega

variable {contest} {start s s' : σ} {log : List (ι × Bool)}

theorem log_length_eq {callers : Finset ι} (among : ∀ e ∈ log, e.1 ∈ callers) :
    log.length = ∑ i ∈ callers, attempts i log := by
  induction log with
  | nil => exact (Finset.sum_const_zero).symm
  | cons e log ih =>
      obtain ⟨first, rest⟩ := List.forall_mem_cons.mp among
      have each : ∀ i ∈ callers, attempts i (e :: log) = attempts i log + if e.1 = i then 1 else 0 := by
        intro i _
        unfold attempts
        rw [List.countP_cons]
        simp only [decide_eq_true_eq]
      rw [List.length_cons, Finset.sum_congr rfl each, Finset.sum_add_distrib, ih rest,
        Finset.sum_ite_eq callers e.1, if_pos first]

theorem Contest.Run.grants_le (run : contest.Run start log s) (i : ι) :
    grants i log ≤ 1 ∧ (contest.waiting s i → grants i log = 0) := by
  induction run with
  | idle => exact ⟨Nat.zero_le 1, fun _ => rfl⟩
  | @step log s s' j granted run step ih =>
      have earlier : grants i (log ++ [(j, granted)]) =
          grants i log + if j = i ∧ granted = true then 1 else 0 := by
        unfold grants
        rw [List.countP_append, List.countP_singleton]
        simp only [decide_eq_true_eq]
      have still : contest.waiting s' i → contest.waiting s i := fun waits => by
        by_contra gone
        exact contest.absent s j granted s' i step gone waits
      by_cases own : j = i ∧ granted = true
      · obtain ⟨rfl, rfl⟩ := own
        have first := ih.2 (contest.tries s j true s' step)
        rw [earlier, first]
        refine ⟨by simp, fun waits => ?_⟩
        exact absurd waits (contest.leaves s j s' step)
      · rw [earlier, if_neg own]
        exact ⟨ih.1, fun waits => ih.2 (still waits)⟩

section rivals

variable [DecidableEq κ]

/-- What the rivals of a caller were granted. -/
def Contest.rivalGrants (contest : Contest σ ι κ) (i : ι) (log : List (ι × Bool)) : Nat :=
  log.countP fun e => (e.1 ≠ i ∧ contest.key e.1 = contest.key i) ∧ e.2 = true

/-- Between two refusals of a caller a rival was granted. -/
theorem Contest.Run.refusals_le (run : contest.Run start log s) (i : ι) :
    refusals i log ≤ contest.rivalGrants i log + 1 ∧
      (¬ contest.due s i → contest.waiting s i → refusals i log ≤ contest.rivalGrants i log) := by
  induction run with
  | idle => exact ⟨Nat.zero_le _, fun _ _ => Nat.zero_le _⟩
  | @step log s s' j granted run step ih =>
      have counted : refusals i (log ++ [(j, granted)]) =
          refusals i log + if j = i ∧ granted = false then 1 else 0 := by
        unfold refusals
        rw [List.countP_append, List.countP_singleton]
        simp only [decide_eq_true_eq]
      have rivals : contest.rivalGrants i (log ++ [(j, granted)]) =
          contest.rivalGrants i log +
            if (j ≠ i ∧ contest.key j = contest.key i) ∧ granted = true then 1 else 0 := by
        unfold Contest.rivalGrants
        rw [List.countP_append, List.countP_singleton]
        simp only [decide_eq_true_eq]
      by_cases own : j = i
      · subst own
        cases granted with
        | false =>
            obtain ⟨pending, due⟩ := contest.refused s j s' step
            have before := ih.2 pending (contest.tries s j false s' step)
            rw [counted, rivals]
            refine ⟨by simp; omega, fun undue => absurd due undue⟩
        | true =>
            rw [counted, rivals]
            refine ⟨by simpa using ih.1, fun _ waits => ?_⟩
            exact absurd waits (contest.leaves s j s' step)
      · have still : contest.waiting s' i → contest.waiting s i := fun waits => by
          by_contra gone
          exact contest.absent s j granted s' i step gone waits
        rw [counted, rivals, if_neg (fun both => own both.1), Nat.add_zero]
        by_cases rival : (j ≠ i ∧ contest.key j = contest.key i) ∧ granted = true
        · rw [if_pos rival]
          exact ⟨by omega, fun _ _ => ih.1⟩
        · rw [if_neg rival, Nat.add_zero]
          refine ⟨ih.1, fun undue waits => ih.2 (fun due => undue ?_) (still waits)⟩
          refine contest.keeps s j granted s' i step ?_ (Ne.symm own) due
          by_cases same : contest.key j = contest.key i
          · exact Or.inl (Bool.eq_false_iff.mpr fun grant => rival ⟨⟨own, same⟩, grant⟩)
          · exact Or.inr same

/-- One try to be refused, one to be granted, and one for each grant of a rival. -/
theorem Contest.Run.attempts_le (run : contest.Run start log s) (i : ι) :
    attempts i log ≤ contest.rivalGrants i log + 2 := by
  have refused := (run.refusals_le i).1
  have granted := (run.grants_le i).1
  rw [attempts_eq]
  omega

/-- The rivals of a caller are granted once each. -/
theorem Contest.Run.rivalGrants_le (run : contest.Run start log s) {callers : Finset ι}
    (among : ∀ e ∈ log, e.1 ∈ callers) {i : ι} (member : i ∈ callers) :
    contest.rivalGrants i log + 1 ≤ callers.card := by
  have others : contest.rivalGrants i log ≤ ∑ j ∈ callers.erase i, grants j log := by
    clear run
    induction log with
    | nil => exact Nat.zero_le _
    | cons e log ih =>
        obtain ⟨first, rest⟩ := List.forall_mem_cons.mp among
        have each : ∀ j ∈ callers.erase i, grants j (e :: log) =
            grants j log + if e.1 = j ∧ e.2 = true then 1 else 0 := by
          intro j _
          unfold grants
          rw [List.countP_cons]
          simp only [decide_eq_true_eq]
        rw [Finset.sum_congr rfl each, Finset.sum_add_distrib]
        unfold Contest.rivalGrants at ih ⊢
        rw [List.countP_cons]
        refine Nat.add_le_add (ih rest) ?_
        split
        · rename_i rival
          simp only [decide_eq_true_eq] at rival
          have inside : e.1 ∈ callers.erase i := Finset.mem_erase.mpr ⟨rival.1.1, first⟩
          have one := Finset.single_le_sum (f := fun j => if e.1 = j ∧ e.2 = true then 1 else 0)
            (fun _ _ => Nat.zero_le _) inside
          simpa [rival.2] using one
        · exact Nat.zero_le _
  have once : ∑ j ∈ callers.erase i, grants j log ≤ ∑ j ∈ callers.erase i, 1 :=
    Finset.sum_le_sum fun j _ => (run.grants_le j).1
  rw [Finset.sum_const, smul_eq_mul, mul_one] at once
  have size := Finset.card_erase_add_one member
  omega

/-- Finitely many callers try a bounded number of times in all. -/
theorem Contest.Run.length_le (run : contest.Run start log s) {callers : Finset ι}
    (among : ∀ e ∈ log, e.1 ∈ callers) : log.length ≤ callers.card * (callers.card + 1) := by
  have each : ∀ i ∈ callers, attempts i log ≤ callers.card + 1 := by
    intro i member
    have tried := run.attempts_le i
    have rivals := run.rivalGrants_le among member
    omega
  have whole := Finset.sum_le_sum each
  rw [Finset.sum_const, smul_eq_mul] at whole
  rw [log_length_eq among]
  exact whole

end rivals

end counting

end RetryLoop
