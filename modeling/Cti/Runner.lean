import Mathlib.Logic.Function.Basic
import Mathlib.Logic.Relation
import Cti.CircuitBreaker
import Cti.FeedRuns
import Cti.Outcome

set_option autoImplicit false

/- Any number of `FeedRunner.execute` calls, on any number of workers, that share one
database. A transaction is one step; so is every other await. -/
namespace Cti

open Py (Str)

/-- What the runner needs to know of a pipeline: how an attempt starts on a context, its
steps, how it ends, and the context as it leaves it. -/
structure PipelineSystem where
  State : Type
  Start : RunContext → State → Prop
  Step : State → State → Prop
  Outcome : State → Except ExcTree RunResult → Prop
  context : State → RunContext

/-- A call of `execute`. -/
structure Job where
  worker : Nat
  sourceId : Str
  runId : Uuid
  circuit : CircuitPolicy
  maxAttempts : Int
  pipeline : PipelineSystem

/-- `isinstance(exc, (TransientError, RateLimited))`: a group is neither. -/
def ExcTree.retryable : ExcTree → Bool
  | .leaf e => e.isA .transientError || e.isA .rateLimited
  | .group _ _ _ => false

/-- The exception that `except PermanentError` catches, if it does. -/
def ExcTree.permanent : ExcTree → Option Exc
  | .leaf e => if e.isA .permanentError then some e else none
  | .group _ _ _ => none

/-- `isinstance(exc, Exception)`. -/
def ExcTree.isException (tree : ExcTree) : Bool := tree.flatten.all fun e => e.isA .exception

/-- An error of the database driver. -/
structure DbFailure where
  exc : Exc
  exception : exc.isA .exception = true
  foreign : exc.isA .ctiError = false

/-- Where a call stands. -/
inductive Phase (P : PipelineSystem) where
  | admitting
  | building
  | opening
  | attempting (k : Nat) (attempt : P.State)
  | finalizing (result : RunResult) (attempt : P.State)
  | reporting (state : RunState)
  | failing (tree : ExcTree)
  | burying (exc : Exc)
  | closing (exit : Except ExcTree RunState)
  | ended (exit : Except ExcTree RunState)

/-- A call in progress; `outcomes` are those of its attempts so far. -/
structure Execution (P : PipelineSystem) where
  phase : Phase P
  outcomes : List (Except ExcTree RunResult)

def Execution.init (P : PipelineSystem) : Execution P := ⟨.admitting, []⟩

/-- The breakers of each worker, by source, and the database of all of them. -/
structure Shared where
  breakers : Nat → Str → CircuitBreaker
  db : Db

def Shared.breaker (sh : Shared) (job : Job) : CircuitBreaker := sh.breakers job.worker job.sourceId

def Shared.setBreaker (sh : Shared) (job : Job) (breaker : CircuitBreaker) : Shared :=
  { sh with
    breakers := Function.update sh.breakers job.worker
      (Function.update (sh.breakers job.worker) job.sourceId breaker) }

def Shared.setDb (sh : Shared) (db : Db) : Shared := { sh with db := db }

/-- The context of a new run. -/
def Job.context (job : Job) (watermark : Dict) : RunContext :=
  ⟨job.runId, job.sourceId, watermark, none⟩

variable (job : Job)

/-- One step of `execute`. -/
inductive JobStep : Shared → Execution job.pipeline → Shared → Execution job.pipeline → Prop
  | refuse (sh : Shared) (x : Execution job.pipeline) (now : Rat) (e : Exc)
      (phase : x.phase = .admitting)
      (refused : (sh.breaker job).before job.circuit job.sourceId now = .error e) :
      JobStep sh x sh { x with phase := .ended (.ok .failed) }
  | permit (sh : Shared) (x : Execution job.pipeline) (now : Rat) (breaker : CircuitBreaker)
      (phase : x.phase = .admitting)
      (admitted : (sh.breaker job).before job.circuit job.sourceId now = .ok breaker) :
      JobStep sh x (sh.setBreaker job breaker) { x with phase := .building }
  | build (sh : Shared) (x : Execution job.pipeline) (phase : x.phase = .building) :
      JobStep sh x sh { x with phase := .opening }
  | buildFail (sh : Shared) (x : Execution job.pipeline) (tree : ExcTree)
      (phase : x.phase = .building) :
      JobStep sh x sh { x with phase := .ended (.error tree) }
  | openRun (sh : Shared) (x : Execution job.pipeline) (now : Int) (db : Db) (row : FeedRunRow)
      (watermark : Dict) (attempt : job.pipeline.State) (phase : x.phase = .opening)
      (opened : Cti.openRun sh.db job.sourceId job.runId now = .ok (db, row, watermark))
      (start : job.pipeline.Start (job.context watermark) attempt) :
      JobStep sh x (sh.setDb (markRunning db row)) { x with phase := .attempting 1 attempt }
  | openRefused (sh : Shared) (x : Execution job.pipeline) (now : Int) (e : Exc)
      (phase : x.phase = .opening)
      (refused : Cti.openRun sh.db job.sourceId job.runId now = .error e) :
      JobStep sh x sh { x with phase := .failing (.leaf e) }
  | openFail (sh : Shared) (x : Execution job.pipeline) (failure : DbFailure)
      (phase : x.phase = .opening) :
      JobStep sh x sh { x with phase := .failing (.leaf failure.exc) }
  | attempt (sh : Shared) (x : Execution job.pipeline) (k : Nat)
      (attempt attempt' : job.pipeline.State) (phase : x.phase = .attempting k attempt)
      (step : job.pipeline.Step attempt attempt') :
      JobStep sh x sh { x with phase := .attempting k attempt' }
  | succeed (sh : Shared) (x : Execution job.pipeline) (k : Nat) (attempt : job.pipeline.State)
      (outcome : Except ExcTree RunResult) (started finished : Int) (result : RunResult)
      (phase : x.phase = .attempting k attempt) (settled : job.pipeline.Outcome attempt outcome)
      (returned : runWithOutcome (job.pipeline.context attempt) started finished outcome =
        .ok result) :
      JobStep sh x sh ⟨.finalizing result attempt, x.outcomes ++ [outcome]⟩
  | retry (sh : Shared) (x : Execution job.pipeline) (k : Nat)
      (attempt attempt' : job.pipeline.State) (outcome : Except ExcTree RunResult)
      (started finished : Int) (tree : ExcTree) (phase : x.phase = .attempting k attempt)
      (settled : job.pipeline.Outcome attempt outcome)
      (raised : runWithOutcome (job.pipeline.context attempt) started finished outcome =
        .error tree)
      (retryable : tree.retryable = true) (left : (k : Int) < job.maxAttempts)
      (start : job.pipeline.Start (job.pipeline.context attempt) attempt') :
      JobStep sh x sh ⟨.attempting (k + 1) attempt', x.outcomes ++ [outcome]⟩
  | giveUp (sh : Shared) (x : Execution job.pipeline) (k : Nat) (attempt : job.pipeline.State)
      (outcome : Except ExcTree RunResult) (started finished : Int) (tree : ExcTree)
      (phase : x.phase = .attempting k attempt) (settled : job.pipeline.Outcome attempt outcome)
      (raised : runWithOutcome (job.pipeline.context attempt) started finished outcome =
        .error tree)
      (stop : ¬ (tree.retryable = true ∧ (k : Int) < job.maxAttempts)) :
      JobStep sh x sh ⟨.failing tree, x.outcomes ++ [outcome]⟩
  | finalize (sh : Shared) (x : Execution job.pipeline) (result : RunResult)
      (attempt : job.pipeline.State) (row : FeedRunRow) (now : Int)
      (phase : x.phase = .finalizing result attempt) (found : sh.db.run job.runId = some row) :
      JobStep sh x (sh.setDb (finalizeRun sh.db row result now))
        { x with phase := .reporting result.state }
  | finalizeMissing (sh : Shared) (x : Execution job.pipeline) (result : RunResult)
      (attempt : job.pipeline.State) (phase : x.phase = .finalizing result attempt)
      (missing : sh.db.run job.runId = none) :
      JobStep sh x sh { x with phase := .failing (.leaf (foreignExc "AssertionError".toList [])) }
  | finalizeFail (sh : Shared) (x : Execution job.pipeline) (result : RunResult)
      (attempt : job.pipeline.State) (failure : DbFailure)
      (phase : x.phase = .finalizing result attempt) :
      JobStep sh x sh { x with phase := .failing (.leaf failure.exc) }
  | report (sh : Shared) (x : Execution job.pipeline) (state : RunState) (now : Rat)
      (phase : x.phase = .reporting state) :
      JobStep sh x
        (sh.setBreaker job (if state = .success then (sh.breaker job).onSuccess
          else (sh.breaker job).onFailure job.circuit now))
        { x with phase := .closing (.ok state) }
  | failPermanent (sh : Shared) (x : Execution job.pipeline) (tree : ExcTree) (e : Exc)
      (now : Rat) (phase : x.phase = .failing tree) (permanent : tree.permanent = some e) :
      JobStep sh x (sh.setBreaker job ((sh.breaker job).onFailure job.circuit now))
        { x with phase := .burying e }
  | failOther (sh : Shared) (x : Execution job.pipeline) (tree : ExcTree) (now : Rat)
      (phase : x.phase = .failing tree) (other : tree.permanent = none)
      (exception : tree.isException = true) :
      JobStep sh x (sh.setBreaker job ((sh.breaker job).onFailure job.circuit now))
        { x with phase := .closing (.ok .failed) }
  | failBase (sh : Shared) (x : Execution job.pipeline) (tree : ExcTree)
      (phase : x.phase = .failing tree) (other : tree.permanent = none)
      (base : tree.isException = false) :
      JobStep sh x sh { x with phase := .closing (.error tree) }
  | bury (sh : Shared) (x : Execution job.pipeline) (e : Exc) (traceback : Str) (now : Int)
      (phase : x.phase = .burying e) :
      JobStep sh x (sh.setDb (recordDeadLetter sh.db job.runId job.sourceId e traceback now))
        { x with phase := .closing (.ok .failed) }
  | buryFail (sh : Shared) (x : Execution job.pipeline) (e : Exc) (failure : DbFailure)
      (phase : x.phase = .burying e) :
      JobStep sh x sh { x with phase := .closing (.error (.leaf failure.exc)) }
  | close (sh : Shared) (x : Execution job.pipeline) (exit : Except ExcTree RunState)
      (phase : x.phase = .closing exit) :
      JobStep sh x sh { x with phase := .ended exit }

section system

variable {ι : Type} [DecidableEq ι] (jobs : ι → Job)

/-- The whole system: the calls and what they share. -/
structure Manager where
  shared : Shared
  execution : (i : ι) → Execution (jobs i).pipeline

def Manager.init (sh : Shared) : Manager jobs := ⟨sh, fun i => .init (jobs i).pipeline⟩

/-- One of the calls takes a step. -/
inductive ManagerStep : Manager jobs → ι → Manager jobs → Prop
  | mk (m : Manager jobs) (i : ι) (sh : Shared) (x : Execution (jobs i).pipeline)
      (step : JobStep (jobs i) m.shared (m.execution i) sh x) :
      ManagerStep m i ⟨sh, Function.update m.execution i x⟩

def ManagerReaches : Manager jobs → Manager jobs → Prop :=
  Relation.ReflTransGen fun m m' => ∃ i, ManagerStep jobs m i m'

variable {jobs}

/-- A step is one of its call and leaves the other calls alone. -/
theorem ManagerStep.inv {m m' : Manager jobs} {j : ι} (step : ManagerStep jobs m j m') :
    JobStep (jobs j) m.shared (m.execution j) m'.shared (m'.execution j) ∧
      ∀ i, i ≠ j → m'.execution i = m.execution i := by
  cases step with
  | mk sh x step =>
      dsimp only
      rw [Function.update_self]
      exact ⟨step, fun i other => Function.update_of_ne other x m.execution⟩

/-- What the steps of a call keep holds of it in every run, whatever the others do. -/
theorem manager_local (Local : (i : ι) → Execution (jobs i).pipeline → Prop)
    (fresh : ∀ i, Local i (.init (jobs i).pipeline))
    (step : ∀ i sh x sh' x', JobStep (jobs i) sh x sh' x' → Local i x → Local i x')
    {sh : Shared} {m : Manager jobs} (run : ManagerReaches jobs (.init jobs sh) m) :
    ∀ i, Local i (m.execution i) := by
  induction run with
  | refl => exact fresh
  | tail _ last ih =>
      obtain ⟨j, taken⟩ := last
      obtain ⟨own, others⟩ := taken.inv
      intro i
      by_cases self : i = j
      · subst self
        exact step i _ _ _ _ own (ih i)
      · rw [others i self]
        exact ih i

/-- What every step of every call keeps of the database holds of it in every run. -/
theorem manager_db (Local : (i : ι) → Execution (jobs i).pipeline → Prop) (Global : Db → Prop)
    (fresh : ∀ i, Local i (.init (jobs i).pipeline))
    (step : ∀ i sh x sh' x', JobStep (jobs i) sh x sh' x' → Local i x → Local i x')
    (keeps : ∀ i sh x sh' x', JobStep (jobs i) sh x sh' x' → Local i x → Global sh.db →
      Global sh'.db)
    {sh : Shared} {m : Manager jobs} (run : ManagerReaches jobs (.init jobs sh) m)
    (start : Global sh.db) : Global m.shared.db := by
  induction run with
  | refl => exact start
  | tail before last ih =>
      obtain ⟨j, taken⟩ := last
      exact keeps j _ _ _ _ taken.inv.1 (manager_local Local fresh step before j) ih

end system

end Cti
