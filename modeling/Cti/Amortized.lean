import Mathlib.Algebra.Order.Field.Basic
import Mathlib.Tactic.Linarith

set_option autoImplicit false

/- Systems whose events spend a credit that grows with time: what they can spend in a window
of time is bounded by the credit at its start and by its length. -/
namespace Amortized

variable {σ ε K : Type} [Field K] [LinearOrder K] [IsStrictOrderedRing K]

/-- What an event spends, and the credit that a state has at a time. -/
structure Account (σ ε K : Type) [Field K] [LinearOrder K] [IsStrictOrderedRing K] where
  step : σ → ε → σ
  time : ε → K
  spend : σ → ε → K
  credit : σ → K → K
  rate : K
  Inv : σ → Prop
  Admissible : ε → Prop
  keeps : ∀ s e, Admissible e → Inv s → Inv (step s e)
  nonneg : ∀ s t, Inv s → 0 ≤ credit s t
  grows : ∀ s t t', Inv s → t ≤ t' → credit s t' ≤ credit s t + rate * (t' - t)
  pays : ∀ s e, Admissible e → Inv s → spend s e + credit (step s e) (time e) ≤ credit s (time e)

variable (account : Account σ ε K)

/-- All that the events spend. -/
def Account.spent : σ → List ε → K
  | _, [] => 0
  | s, e :: events => account.spend s e + Account.spent (account.step s e) events

theorem Account.inv_foldl {s : σ} {events : List ε} (inv : account.Inv s)
    (admissible : ∀ e ∈ events, account.Admissible e) :
    account.Inv (events.foldl account.step s) := by
  induction events generalizing s with
  | nil => exact inv
  | cons e events ih =>
      have first := account.keeps s e (admissible e List.mem_cons_self) inv
      exact ih first fun later member => admissible later (List.mem_cons_of_mem e member)

/-- Events between two moments spend no more than the credit at the first and what has come
in until the second. -/
theorem Account.spent_le {s : σ} {events : List ε} {start finish : K} (inv : account.Inv s)
    (admissible : ∀ e ∈ events, account.Admissible e)
    (sorted : events.Pairwise fun e e' => account.time e ≤ account.time e')
    (after : ∀ e ∈ events, start ≤ account.time e) (before : ∀ e ∈ events, account.time e ≤ finish)
    (window : start ≤ finish) :
    account.spent s events ≤ account.credit s start + account.rate * (finish - start) := by
  induction events generalizing s start with
  | nil =>
      have grown := account.grows s start finish inv window
      have paid := account.nonneg s finish inv
      exact paid.trans grown
  | cons e events ih =>
      obtain ⟨later, sorted⟩ := List.pairwise_cons.mp sorted
      have good := admissible e List.mem_cons_self
      have rest : account.spent (account.step s e) events ≤
          account.credit (account.step s e) (account.time e) +
            account.rate * (finish - account.time e) :=
        ih (account.keeps s e good inv)
          (fun e' member => admissible e' (List.mem_cons_of_mem e member)) sorted later
          (fun e' member => before e' (List.mem_cons_of_mem e member))
          (before e List.mem_cons_self)
      have grown := account.grows s start (account.time e) inv (after e List.mem_cons_self)
      have paid := account.pays s e good inv
      have total : account.rate * (account.time e - start) +
          account.rate * (finish - account.time e) = account.rate * (finish - start) := by
        rw [← mul_add, add_comm, sub_add_sub_cancel]
      unfold Account.spent
      linarith

end Amortized
