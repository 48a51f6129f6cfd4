import Cti.Runner

set_option autoImplicit false

namespace Cti

open Py (Str)

section retry

/-- Every leaf is a `TransientError`. -/
def ExcTree.AllTransient (tree : ExcTree) : Prop := ∀ e ∈ tree.flatten, e.isA .transientError = true

/-- The attempt was a failure with transient leaves only. -/
def FailedTransiently (outcome : Except ExcTree RunResult) : Prop :=
  ∃ tree, outcome = .error tree ∧ tree.AllTransient

/-- The attempt was a success or a failure with a `PermanentError` leaf. -/
def Settled (outcome : Except ExcTree RunResult) : Prop :=
  ∀ tree, outcome = .error tree → ∃ e ∈ tree.flatten, e.isA .permanentError = true

/-- A next attempt is made exactly when fewer than the allowed ones were made and the last one
failed transiently; none is made after a success or a permanent failure. -/
structure RetryContract (maxAttempts : Int) (outcomes : List (Except ExcTree RunResult)) : Prop where
  due : ∀ k outcome, outcomes[k]? = some outcome →
    (k + 1 < outcomes.length ↔ ((k + 1 : Nat) : Int) < maxAttempts ∧ FailedTransiently outcome)
  stops : ∀ k outcome, outcomes[k]? = some outcome → Settled outcome → ¬ k + 1 < outcomes.length

theorem not_retryable {ctx : RunContext} {started finished : Int}
    {outcome : Except ExcTree RunResult} {tree : ExcTree}
    (raised : runWithOutcome ctx started finished outcome = .error tree) :
    tree.retryable = false := by
  obtain ⟨_, foreign⟩ := runWithOutcome_error raised
  cases tree with
  | group message head tail => rfl
  | leaf e =>
      have cti := foreign e (by simp [ExcTree.flatten])
      have transient : e.isA .transientError = false :=
        Exc.not_isA_of_mro (by decide : ClassName.ctiError ∈ ClassName.transientError.mro) cti
      have limited : e.isA .rateLimited = false :=
        Exc.not_isA_of_mro (by decide : ClassName.ctiError ∈ ClassName.rateLimited.mro) cti
      simp [ExcTree.retryable, transient, limited]

theorem not_permanent {ctx : RunContext} {started finished : Int}
    {outcome : Except ExcTree RunResult} {tree : ExcTree}
    (raised : runWithOutcome ctx started finished outcome = .error tree) :
    tree.permanent = none := by
  obtain ⟨_, foreign⟩ := runWithOutcome_error raised
  cases tree with
  | group message head tail => rfl
  | leaf e =>
      have cti := foreign e (by simp [ExcTree.flatten])
      have permanent : e.isA .permanentError = false :=
        Exc.not_isA_of_mro (by decide : ClassName.ctiError ∈ ClassName.permanentError.mro) cti
      simp [ExcTree.permanent, permanent]

/-- A call makes its attempts before it has any outcome, and has one outcome at most. -/
def Execution.Single {P : PipelineSystem} (x : Execution P) : Prop :=
  x.outcomes.length ≤ 1 ∧
    match x.phase with
    | .admitting | .building | .opening | .attempting _ _ => x.outcomes = []
    | _ => True

theorem single_step {job : Job} {sh sh' : Shared} {x x' : Execution job.pipeline}
    (step : JobStep job sh x sh' x') (single : x.Single) : x'.Single := by
  obtain ⟨few, early⟩ := single
  cases step with
  | succeed k attempt outcome started finished result phase settled returned =>
      rw [phase] at early
      simp [Execution.Single, early]
  | retry k attempt attempt' outcome started finished tree phase settled raised retryable left start =>
      rw [not_retryable raised] at retryable
      cases retryable
  | giveUp k attempt outcome started finished tree phase settled raised stop =>
      rw [phase] at early
      simp [Execution.Single, early]
  | attempt k attempt attempt' phase step =>
      rw [phase] at early
      exact ⟨few, early⟩
  | permit now breaker phase admitted =>
      rw [phase] at early
      exact ⟨few, early⟩
  | build phase =>
      rw [phase] at early
      exact ⟨few, early⟩
  | openRun now db row watermark attempt phase opened start =>
      rw [phase] at early
      exact ⟨few, early⟩
  | _ => exact ⟨few, trivial⟩

/-- Whatever its attempts come to, `execute` makes one at most. -/
theorem outcomes_single {ι : Type} [DecidableEq ι] {jobs : ι → Job} {sh : Shared}
    {m : Manager jobs} (run : ManagerReaches jobs (.init jobs sh) m) (i : ι) :
    (m.execution i).outcomes.length ≤ 1 :=
  (manager_local (fun i x => x.Single) (fun _ => ⟨by simp [Execution.init], rfl⟩)
    (fun _ _ _ _ _ step single => single_step step single) run i).1

theorem retryContract_single {maxAttempts : Int} {outcomes : List (Except ExcTree RunResult)}
    (single : outcomes.length ≤ 1) :
    RetryContract maxAttempts outcomes ↔
      ¬ (1 < maxAttempts ∧ ∃ first, outcomes.head? = some first ∧ FailedTransiently first) := by
  cases outcomes with
  | nil =>
      refine iff_of_true ⟨?_, ?_⟩ (by simp)
      · intro k outcome found
        simp at found
      · intro k outcome found
        simp at found
  | cons first rest =>
      have alone : rest = [] := by simpa using single
      subst alone
      constructor
      · rintro contract ⟨allowed, _, ⟨⟩, transient⟩
        have again := (contract.due 0 first rfl).mpr ⟨by simpa using allowed, transient⟩
        simp at again
      · intro undue
        refine ⟨?_, fun k outcome found _ => by simp⟩
        intro k outcome found
        obtain ⟨rfl, rfl⟩ : k = 0 ∧ first = outcome := by
          cases k with
          | zero => simpa using found
          | succ k => simp at found
        refine iff_of_false (by simp) ?_
        rintro ⟨allowed, transient⟩
        exact undue ⟨by simpa using allowed, first, rfl, transient⟩

/-- The calls of `execute` keep the retry contract exactly when no second attempt is due:
the first one did not fail transiently, or it was the only one allowed. -/
theorem retry_contract_iff {ι : Type} [DecidableEq ι] (jobs : ι → Job) (sh : Shared)
    (m : Manager jobs) (run : ManagerReaches jobs (.init jobs sh) m) (i : ι)
    (exit : Except ExcTree RunState) (_ended : (m.execution i).phase = .ended exit) :
    RetryContract (jobs i).maxAttempts (m.execution i).outcomes ↔
      ¬ (1 < (jobs i).maxAttempts ∧
        ∃ first, (m.execution i).outcomes.head? = some first ∧ FailedTransiently first) :=
  retryContract_single (outcomes_single run i)

/-- A pipeline whose attempts all come to one outcome. -/
def scripted (outcome : Except ExcTree RunResult) : PipelineSystem where
  State := RunContext
  Start ctx attempt := attempt = ctx
  Step _ _ := False
  Outcome _ outcome' := outcome' = outcome
  context := id

/-- The only call on a fresh worker, with the default policies. -/
def feedJob (outcome : Except ExcTree RunResult) : Unit → Job := fun _ =>
  { worker := 0
    sourceId := "feed".toList
    runId := 1
    circuit := ⟨5, 300⟩
    maxAttempts := 5
    pipeline := scripted outcome }

def feedShared : Shared := ⟨fun _ _ => .init, ⟨[⟨"feed".toList, none⟩], [], []⟩⟩

/-- The row of that call. -/
def feedRow : FeedRunRow :=
  { id := 1, sourceId := "feed".toList, state := .pending, startedAt := 0, finishedAt := none,
    fetchedBytes := 0, recordsIn := 0, recordsOut := 0, error := none, watermark := [],
    rawUri := none }

theorem feed_opened : openRun feedShared.db "feed".toList 1 0 =
    .ok ({ feedShared.db with feedRuns := [feedRow] }, feedRow, []) := by
  simp [openRun, Db.source, feedShared, feedRow]

theorem feed_running : (markRunning { feedShared.db with feedRuns := [feedRow] } feedRow).run 1 =
    some { feedRow with state := .running } := by
  simp [markRunning, Db.setRun, Db.run, feedRow]

section scripted

variable (outcome : Except ExcTree RunResult)

/-- Some run that comes by the state ends with the outcome as its only one. -/
private def Finishes (state : RunState) (m : Manager (feedJob outcome)) : Prop :=
  ManagerReaches (feedJob outcome) (.init _ feedShared) m →
    ∃ m, ManagerReaches (feedJob outcome) (.init _ feedShared) m ∧
      (m.execution ()).phase = .ended (.ok state) ∧ (m.execution ()).outcomes = [outcome]

variable {outcome}

private theorem Finishes.step {state : RunState} {m m' : Manager (feedJob outcome)}
    (step : ManagerStep _ m () m') (rest : Finishes outcome state m') : Finishes outcome state m :=
  fun run => rest (run.tail ⟨(), step⟩)

/-- An outcome that `run_with_outcome` makes a result of. -/
theorem scripted_run {result : RunResult}
    (mapped : runWithOutcome ⟨1, "feed".toList, [], none⟩ 0 0 outcome = .ok result) :
    ∃ m, ManagerReaches (feedJob outcome) (.init _ feedShared) m ∧
      (m.execution ()).phase = .ended (.ok result.state) ∧
      (m.execution ()).outcomes = [outcome] := by
  suffices finishes : Finishes outcome result.state (.init _ feedShared) from finishes .refl
  refine .step (.mk _ () _ _ (.permit _ _ 0 _ rfl rfl)) ?_
  refine .step (.mk _ () _ _ (.build _ _ rfl)) ?_
  refine .step (.mk _ () _ _ (.openRun _ _ 0 _ _ _ _ rfl feed_opened rfl)) ?_
  refine .step (.mk _ () _ _ (.succeed _ _ 1 _ outcome 0 0 result rfl rfl mapped)) ?_
  refine .step (.mk _ () _ _ (.finalize _ _ result _ _ 0 rfl feed_running)) ?_
  refine .step (.mk _ () _ _ (.report _ _ result.state 0 rfl)) ?_
  refine .step (.mk _ () _ _ (.close _ _ (.ok result.state) rfl)) ?_
  exact fun run => ⟨_, run, rfl, rfl⟩

end scripted

/-- What the task group raises when one stage fails with the exception. -/
def failedWith (e : Exc) : Except ExcTree RunResult :=
  .error (.group "unhandled errors in a TaskGroup".toList (.leaf e) [])

theorem retry_contract_permanent :
    ∃ m, ManagerReaches (feedJob (failedWith (ClassName.permanentError.exc [])))
        (.init _ feedShared) m ∧ RetryContract 5 (m.execution ()).outcomes := by
  obtain ⟨m, run, ended, outcomes⟩ :=
    scripted_run (show runWithOutcome _ 0 0 (failedWith (ClassName.permanentError.exc [])) = _ from rfl)
  refine ⟨m, run, (retry_contract_iff _ feedShared m run () _ ended).mpr ?_⟩
  rintro ⟨_, first, found, tree, same, transient⟩
  rw [outcomes] at found
  cases found
  cases same
  have member := transient (ClassName.permanentError.exc []) (by simp [ExcTree.flatten])
  cases member

/-- A source that answers 503 is not tried again. -/
theorem retry_contract_broken :
    ∃ m, ManagerReaches (feedJob (failedWith (ClassName.transientError.exc
        "upstream 503 on https://feed".toList))) (.init _ feedShared) m ∧
      (m.execution ()).phase = .ended (.ok .partialSuccess) ∧
      ¬ RetryContract 5 (m.execution ()).outcomes := by
  obtain ⟨m, run, ended, outcomes⟩ :=
    scripted_run (show runWithOutcome _ 0 0 (failedWith (ClassName.transientError.exc
      "upstream 503 on https://feed".toList)) = _ from rfl)
  refine ⟨m, run, ended, ?_⟩
  intro contract
  rw [outcomes] at contract
  have again := (contract.due 0 _ rfl).mpr ⟨by decide, _, rfl, by simp [ExcTree.flatten,
    ExcTree.flattenAll, ExcTree.AllTransient, ClassName.mro]⟩
  simp at again

end retry

section deadLetter

/-- The pipeline raised a tree with a `PermanentError` leaf. -/
def RaisedPermanent (outcomes : List (Except ExcTree RunResult)) : Prop :=
  ∃ tree, .error tree ∈ outcomes ∧ ∃ e ∈ tree.flatten, e.isA .permanentError = true

/-- The dead letters of one run. -/
def deadLettersOf (job : Job) (db : Db) : List DeadLetterRow :=
  db.deadLetters.filter fun row => row.feedRunId = job.runId ∧ row.sourceId = job.sourceId

/-- One more dead letter of the run than at the start if its pipeline raised a permanent
error, and no more otherwise. -/
def DeadLetterContract (job : Job) (before after : Db)
    (outcomes : List (Except ExcTree RunResult)) : Prop :=
  (RaisedPermanent outcomes →
      (deadLettersOf job after).length = (deadLettersOf job before).length + 1) ∧
    (¬ RaisedPermanent outcomes → deadLettersOf job after = deadLettersOf job before)

/-- A call never gets to its dead letter. -/
def Execution.Unburied {P : PipelineSystem} (x : Execution P) : Prop :=
  match x.phase with
  | .failing tree => tree.permanent = none
  | .burying _ => False
  | _ => True

theorem DbFailure.not_permanent (failure : DbFailure) :
    (ExcTree.leaf failure.exc).permanent = none := by
  have permanent : failure.exc.isA .permanentError = false :=
    Exc.not_isA_of_mro (by decide : ClassName.ctiError ∈ ClassName.permanentError.mro)
      failure.foreign
  simp [ExcTree.permanent, permanent]

theorem unburied_step {job : Job} {sh sh' : Shared} {x x' : Execution job.pipeline}
    (step : JobStep job sh x sh' x') (unburied : x.Unburied) : x'.Unburied := by
  cases step with
  | openRefused now e phase refused =>
      have foreign := openRun_error refused
      simp [Execution.Unburied, ExcTree.permanent, foreign]
  | openFail failure phase => exact failure.not_permanent
  | giveUp k attempt outcome started finished tree phase settled raised stop =>
      exact not_permanent raised
  | finalizeMissing result attempt phase missing => rfl
  | finalizeFail result attempt failure phase => exact failure.not_permanent
  | failPermanent tree e now phase permanent =>
      unfold Execution.Unburied at unburied
      rw [phase] at unburied
      rw [unburied] at permanent
      cases permanent
  | _ => trivial

theorem unburied_deadLetters {job : Job} {sh sh' : Shared} {x x' : Execution job.pipeline}
    (step : JobStep job sh x sh' x') (unburied : x.Unburied) :
    sh'.db.deadLetters = sh.db.deadLetters := by
  cases step with
  | openRun now db row watermark attempt phase opened start =>
      obtain ⟨rfl, _⟩ := openRun_ok opened
      rfl
  | finalize result attempt row now phase found => exact finalizeRun_deadLetters _ _ _ _
  | bury e traceback now phase =>
      unfold Execution.Unburied at unburied
      rw [phase] at unburied
      exact unburied.elim
  | _ => rfl

/-- No call of `execute` ever writes a dead letter. -/
theorem deadLetters_unchanged {ι : Type} [DecidableEq ι] {jobs : ι → Job} {sh : Shared}
    {m : Manager jobs} (run : ManagerReaches jobs (.init jobs sh) m) :
    m.shared.db.deadLetters = sh.db.deadLetters :=
  manager_db (fun _ x => x.Unburied) (fun db => db.deadLetters = sh.db.deadLetters)
    (fun _ => trivial) (fun _ _ _ _ _ step unburied => unburied_step step unburied)
    (fun _ _ _ _ _ step unburied same => (unburied_deadLetters step unburied).trans same) run rfl

/-- The calls of `execute` keep the dead-letter contract exactly when their pipeline raises no
permanent error. -/
theorem dead_letter_contract_iff {ι : Type} [DecidableEq ι] (jobs : ι → Job) (sh : Shared)
    (m : Manager jobs) (run : ManagerReaches jobs (.init jobs sh) m) (i : ι)
    (exit : Except ExcTree RunState) (_ended : (m.execution i).phase = .ended exit) :
    DeadLetterContract (jobs i) sh.db m.shared.db (m.execution i).outcomes ↔
      ¬ RaisedPermanent (m.execution i).outcomes := by
  have same : deadLettersOf (jobs i) m.shared.db = deadLettersOf (jobs i) sh.db := by
    unfold deadLettersOf
    rw [deadLetters_unchanged run]
  unfold DeadLetterContract
  rw [same]
  constructor
  · rintro ⟨one, _⟩ permanent
    have := one permanent
    omega
  · intro none
    exact ⟨fun permanent => absurd permanent none, fun _ => rfl⟩

theorem dead_letter_contract_transient :
    ∃ m, ManagerReaches (feedJob (failedWith (ClassName.transientError.exc [])))
        (.init _ feedShared) m ∧
      DeadLetterContract (feedJob (failedWith (ClassName.transientError.exc [])) ()) feedShared.db
        m.shared.db (m.execution ()).outcomes := by
  obtain ⟨m, run, ended, outcomes⟩ :=
    scripted_run (show runWithOutcome _ 0 0 (failedWith (ClassName.transientError.exc [])) = _ from rfl)
  refine ⟨m, run, (dead_letter_contract_iff _ feedShared m run () _ ended).mpr ?_⟩
  rintro ⟨tree, raised, e, leaf, permanent⟩
  rw [outcomes, List.mem_singleton] at raised
  cases raised
  simp only [ExcTree.flatten, ExcTree.flattenAll, List.append_nil, List.mem_singleton] at leaf
  subst leaf
  cases permanent

/-- A blocked URL fails the run and leaves no dead letter. -/
theorem dead_letter_missing :
    ∃ m, ManagerReaches (feedJob (failedWith (ClassName.egressBlocked.exc [])))
        (.init _ feedShared) m ∧
      (m.execution ()).phase = .ended (.ok .failed) ∧
      RaisedPermanent (m.execution ()).outcomes ∧ m.shared.db.deadLetters = [] ∧
      ¬ DeadLetterContract (feedJob (failedWith (ClassName.egressBlocked.exc [])) ()) feedShared.db
        m.shared.db (m.execution ()).outcomes := by
  obtain ⟨m, run, ended, outcomes⟩ :=
    scripted_run (show runWithOutcome _ 0 0 (failedWith (ClassName.egressBlocked.exc [])) = _ from rfl)
  have permanent : RaisedPermanent (m.execution ()).outcomes := by
    rw [outcomes]
    exact ⟨_, List.mem_singleton.mpr rfl, ClassName.egressBlocked.exc [], by simp [ExcTree.flatten],
      rfl⟩
  have none : m.shared.db.deadLetters = [] := deadLetters_unchanged run
  refine ⟨m, run, ended, permanent, none, ?_⟩
  intro contract
  have one := contract.1 permanent
  simp [deadLettersOf, none, feedShared] at one

end deadLetter

end Cti
