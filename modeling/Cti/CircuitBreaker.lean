import Cti.Models

set_option autoImplicit false

namespace Cti

open Py (Str)

structure CircuitPolicy where
  failureThreshold : Int
  recoverySeconds : Rat

inductive CircuitState where
  | closed
  | open'
  | halfOpen
  deriving DecidableEq

structure CircuitBreaker where
  state : CircuitState
  failures : Int
  openedAt : Rat

def CircuitBreaker.init : CircuitBreaker := ⟨.closed, 0, 0⟩

/-- `before`, at a reading of the monotonic clock. -/
def CircuitBreaker.before (breaker : CircuitBreaker) (policy : CircuitPolicy) (sourceId : Str)
    (now : Rat) : Except Exc CircuitBreaker :=
  if breaker.state = .open' then
    if policy.recoverySeconds ≤ now - breaker.openedAt then .ok { breaker with state := .halfOpen }
    else .error (ClassName.circuitOpen.exc ("circuit open for source ".toList ++ sourceId))
  else .ok breaker

def CircuitBreaker.onSuccess (breaker : CircuitBreaker) : CircuitBreaker :=
  { breaker with failures := 0, state := .closed }

def CircuitBreaker.onFailure (breaker : CircuitBreaker) (policy : CircuitPolicy) (now : Rat) :
    CircuitBreaker :=
  let failures := breaker.failures + 1
  if breaker.state = .halfOpen ∨ policy.failureThreshold ≤ failures then
    ⟨.open', failures, now⟩
  else { breaker with failures := failures }

end Cti
