import Mathlib.Algebra.Order.Ring.Rat
import Mathlib.Data.List.Induction
import Mathlib.Tactic.Linarith
import Mathlib.Tactic.NormNum
import Cti.CircuitBreaker

set_option autoImplicit false

/- A circuit breaker against the history of its calls. -/
namespace Cti

open Py (Str)

/-- A call on a breaker, with the clock reading that it takes. -/
inductive BreakerCall where
  | before (now : Rat)
  | onSuccess
  | onFailure (now : Rat)

namespace BreakerCall

def reading : BreakerCall → Option Rat
  | .before now => some now
  | .onSuccess => none
  | .onFailure now => some now

def isSuccess : BreakerCall → Bool
  | .onSuccess => true
  | _ => false

def isFailure : BreakerCall → Bool
  | .onFailure _ => true
  | _ => false

@[simp] theorem isSuccess_before (now : Rat) : (before now).isSuccess = false := rfl
@[simp] theorem isSuccess_onSuccess : onSuccess.isSuccess = true := rfl
@[simp] theorem isSuccess_onFailure (now : Rat) : (onFailure now).isSuccess = false := rfl
@[simp] theorem isFailure_before (now : Rat) : (before now).isFailure = false := rfl
@[simp] theorem isFailure_onSuccess : onSuccess.isFailure = false := rfl
@[simp] theorem isFailure_onFailure (now : Rat) : (onFailure now).isFailure = true := rfl
@[simp] theorem reading_before (now : Rat) : (before now).reading = some now := rfl
@[simp] theorem reading_onSuccess : onSuccess.reading = none := rfl
@[simp] theorem reading_onFailure (now : Rat) : (onFailure now).reading = some now := rfl

end BreakerCall

/-- What a call does; a `before` that raises leaves the breaker as it is. -/
def CircuitBreaker.step (policy : CircuitPolicy) (sourceId : Str) (breaker : CircuitBreaker) :
    BreakerCall → CircuitBreaker
  | .before now =>
      match breaker.before policy sourceId now with
      | .ok next => next
      | .error _ => breaker
  | .onSuccess => breaker.onSuccess
  | .onFailure now => breaker.onFailure policy now

def CircuitBreaker.run (policy : CircuitPolicy) (sourceId : Str) (calls : List BreakerCall) :
    CircuitBreaker :=
  calls.foldl (CircuitBreaker.step policy sourceId) .init

section history

variable (calls : List BreakerCall)

/-- The failures since the last success, or since the start. -/
def failuresSince : Nat :=
  (calls.reverse.takeWhile fun call => !call.isSuccess).countP BreakerCall.isFailure

/-- The time of the last failure. -/
def lastFailure : Option Rat :=
  (calls.reverse.find? BreakerCall.isFailure).bind BreakerCall.reading

theorem failuresSince_before (now : Rat) :
    failuresSince (calls ++ [.before now]) = failuresSince calls := by
  simp [failuresSince]

theorem failuresSince_onSuccess : failuresSince (calls ++ [.onSuccess]) = 0 := by
  simp [failuresSince]

theorem failuresSince_onFailure (now : Rat) :
    failuresSince (calls ++ [.onFailure now]) = failuresSince calls + 1 := by
  simp [failuresSince, List.countP_cons]

theorem lastFailure_before (now : Rat) :
    lastFailure (calls ++ [.before now]) = lastFailure calls := by
  simp [lastFailure]

theorem lastFailure_onFailure (now : Rat) :
    lastFailure (calls ++ [.onFailure now]) = some now := by
  simp [lastFailure, List.find?_cons]

end history

variable {policy : CircuitPolicy} {sourceId : Str}

theorem CircuitBreaker.run_snoc (policy : CircuitPolicy) (sourceId : Str)
    (calls : List BreakerCall) (call : BreakerCall) :
    CircuitBreaker.run policy sourceId (calls ++ [call]) =
      (CircuitBreaker.run policy sourceId calls).step policy sourceId call := by
  simp [CircuitBreaker.run]

/-- A breaker as its history says: below the threshold it is closed, and from there on it
remembers the last failure, half open only once the time to recover has passed. -/
structure CircuitBreaker.Follows (policy : CircuitPolicy) (breaker : CircuitBreaker)
    (calls : List BreakerCall) : Prop where
  failures : breaker.failures = failuresSince calls
  closed : (failuresSince calls : Int) < policy.failureThreshold → breaker.state = .closed
  tripped : policy.failureThreshold ≤ failuresSince calls →
    lastFailure calls = some breaker.openedAt ∧
      (breaker.state = .open' ∨ breaker.state = .halfOpen ∧
        ∃ call ∈ calls, ∃ now, call.reading = some now ∧
          policy.recoverySeconds ≤ now - breaker.openedAt)

namespace CircuitBreaker.Follows

variable {breaker : CircuitBreaker} {calls : List BreakerCall}

theorem start (positive : 1 ≤ policy.failureThreshold) : Follows policy .init [] := by
  refine ⟨rfl, fun _ => rfl, ?_⟩
  intro tripped
  have none : failuresSince [] = 0 := rfl
  rw [none] at tripped
  have impossible : policy.failureThreshold ≤ 0 := tripped
  omega

/-- A `before` does not change what the history says of a breaker. -/
theorem later (follows : breaker.Follows policy calls) (now : Rat) :
    breaker.Follows policy (calls ++ [.before now]) := by
  refine ⟨?_, ?_, ?_⟩
  · rw [failuresSince_before]
    exact follows.failures
  · rw [failuresSince_before]
    exact follows.closed
  · rw [failuresSince_before, lastFailure_before]
    intro many
    obtain ⟨last, opened | ⟨half, call, member, passed⟩⟩ := follows.tripped many
    · exact ⟨last, Or.inl opened⟩
    · exact ⟨last, Or.inr ⟨half, call, List.mem_append_left _ member, passed⟩⟩

theorem before (follows : breaker.Follows policy calls) (now : Rat) :
    (breaker.step policy sourceId (.before now)).Follows policy (calls ++ [.before now]) := by
  have later := follows.later now
  unfold CircuitBreaker.step CircuitBreaker.before
  by_cases opened : breaker.state = .open'
  · by_cases recovered : policy.recoverySeconds ≤ now - breaker.openedAt
    · simp only [opened, recovered, ↓reduceIte]
      refine ⟨later.failures, ?_, ?_⟩
      · intro few
        have shut := later.closed few
        rw [opened] at shut
        cases shut
      · intro many
        exact ⟨(later.tripped many).1, Or.inr ⟨rfl, .before now, by simp, now, rfl, recovered⟩⟩
    · simp only [opened, recovered, ↓reduceIte]
      exact later
  · simp only [opened, ↓reduceIte]
    exact later

theorem onSuccess (positive : 1 ≤ policy.failureThreshold) :
    (breaker.step policy sourceId .onSuccess).Follows policy (calls ++ [.onSuccess]) := by
  refine ⟨?_, fun _ => rfl, ?_⟩
  · rw [failuresSince_onSuccess]
    rfl
  · rw [failuresSince_onSuccess]
    intro many
    have impossible : policy.failureThreshold ≤ 0 := many
    omega

theorem onFailure (follows : breaker.Follows policy calls) (now : Rat) :
    (breaker.step policy sourceId (.onFailure now)).Follows policy (calls ++ [.onFailure now]) := by
  have counted : breaker.failures + 1 = (failuresSince calls + 1 : Nat) := by
    rw [follows.failures]
    rfl
  unfold CircuitBreaker.step CircuitBreaker.onFailure
  dsimp only
  split
  · rename_i trips
    refine ⟨?_, ?_, ?_⟩
    · rw [failuresSince_onFailure]
      exact counted
    · rw [failuresSince_onFailure]
      intro few
      rcases trips with half | many
      · have shut : breaker.state = .closed := follows.closed (by omega)
        rw [half] at shut
        cases shut
      · omega
    · rw [lastFailure_onFailure]
      exact fun _ => ⟨rfl, Or.inl rfl⟩
  · rename_i stays
    obtain ⟨_, few⟩ := not_or.mp stays
    refine ⟨?_, ?_, ?_⟩
    · rw [failuresSince_onFailure]
      exact counted
    · intro _
      exact follows.closed (by omega)
    · rw [failuresSince_onFailure]
      intro many
      omega

/-- Every breaker follows the history of its calls. -/
theorem run (positive : 1 ≤ policy.failureThreshold) (calls : List BreakerCall) :
    (CircuitBreaker.run policy sourceId calls).Follows policy calls := by
  induction calls using List.reverseRecOn with
  | nil => exact start positive
  | append_singleton calls call ih =>
      rw [CircuitBreaker.run_snoc]
      cases call with
      | before now => exact ih.before now
      | onSuccess => exact onSuccess positive
      | onFailure now => exact ih.onFailure now

end CircuitBreaker.Follows

end Cti
