import Cti.FetchState

set_option autoImplicit false

/- What becomes of the row of a run. -/
namespace Cti

open Py (Str)

variable {S : Type}

/-- The row of the run is committed as running. -/
def Db.Running (db : Db) (runId : Uuid) : Prop :=
  ∃ row, db.run runId = some row ∧ row.state = .running ∧ row.finishedAt = none

/-- The row of the run is committed as ended in the given state. -/
def Db.Reported (db : Db) (runId : Uuid) (state : RunState) : Prop :=
  ∃ row, db.run runId = some row ∧ row.state = state ∧ state.Terminal ∧ row.finishedAt.isSome

/-- What may happen to a row: it is made as running, and a running one becomes terminal. -/
inductive RowMove : Option FeedRunRow → Option FeedRunRow → Prop
  | same (row : Option FeedRunRow) : RowMove row row
  | opened (row : FeedRunRow) (running : row.state = .running) : RowMove none (some row)
  | finalized (row row' : FeedRunRow) (running : row.state = .running)
      (terminal : row'.state.Terminal) : RowMove (some row) (some row')

section step

variable {job : Job} {sh sh' : Shared} {x x' : Execution job.pipeline}

/-- The rows after a step: it opens the row of its run, finalizes it or touches none. -/
theorem JobStep.run_cases (step : JobStep job sh x sh' x') :
    (∀ id, sh'.db.run id = sh.db.run id) ∨
      (∃ attempt row, x.phase = .opening ∧ x' = { x with phase := .attempting 1 attempt } ∧
        sh.db.run job.runId = none ∧ row.state = .running ∧ row.finishedAt = none ∧
        ∀ id, sh'.db.run id = if id = job.runId then some row else sh.db.run id) ∨
      ∃ result attempt row now, x.phase = .finalizing result attempt ∧
        x' = { x with phase := .reporting result.state } ∧ sh.db.run job.runId = some row ∧
        ∀ id, sh'.db.run id =
          if id = job.runId then some (row.finalized result now) else sh.db.run id := by
  cases step with
  | openRun now db row watermark attempt phase opened start =>
      refine Or.inr (Or.inl ⟨attempt, { row with state := .running }, phase, rfl,
        (openRun_ok opened).2.2.2, rfl, (openRun_row opened).2, ?_⟩)
      exact openRun_run opened
  | finalize result attempt row now phase found =>
      exact Or.inr (Or.inr ⟨result, attempt, row, now, phase, rfl, found,
        finalizeRun_rows found result now⟩)
  | _ => exact Or.inl fun _ => rfl

theorem JobStep.run_other (step : JobStep job sh x sh' x') {id : Uuid} (other : id ≠ job.runId) :
    sh'.db.run id = sh.db.run id := by
  rcases step.run_cases with same | ⟨_, _, _, _, _, _, _, rows⟩ | ⟨_, _, _, _, _, _, _, rows⟩
  · exact same id
  · rw [rows, if_neg other]
  · rw [rows, if_neg other]

theorem JobStep.run_stored (step : JobStep job sh x sh' x') {id : Uuid}
    (stored : sh.db.run id ≠ none) : sh'.db.run id ≠ none := by
  rcases step.run_cases with same | ⟨_, _, _, _, _, _, _, rows⟩ | ⟨_, _, _, _, _, _, _, rows⟩
  · rwa [same]
  · rw [rows]
    split
    · exact nofun
    · exact stored
  · rw [rows]
    split
    · exact nofun
    · exact stored

/-- The call has committed the row of its run; its first attempt follows at once. -/
def Execution.Opened {P : PipelineSystem} (x : Execution P) : Prop := x.InRun ∨ x.outcomes ≠ []

/-- A call is past the opening of its run only if it was so before or has just opened it. -/
theorem JobStep.opened (step : JobStep job sh x sh' x') (opened : x'.Opened) :
    x.Opened ∨ x.phase = .opening ∧ sh.db.run job.runId = none ∧ sh'.db.Running job.runId := by
  have inside : x.InRun → x.Opened := Or.inl
  unfold Execution.InRun at inside
  cases step with
  | openRun now db row watermark attempt phase result start =>
      exact Or.inr ⟨phase, (openRun_ok result).2.2.2, _, (openRun_run result _).trans (if_pos rfl),
        rfl, (openRun_row result).2⟩
  | attempt k attempt attempt' phase taken => exact Or.inl (inside (by rw [phase]; trivial))
  | succeed k attempt outcome started finished result phase settled returned =>
      exact Or.inl (inside (by rw [phase]; trivial))
  | retry k attempt attempt' outcome started finished tree phase settled raised retryable left start =>
      exact Or.inl (inside (by rw [phase]; trivial))
  | giveUp k attempt outcome started finished tree phase settled raised stop =>
      exact Or.inl (inside (by rw [phase]; trivial))
  | _ => exact Or.inl (opened.elim False.elim Or.inr)

theorem JobStep.running (step : JobStep job sh x sh' x')
    (running : x.InRun → sh.db.Running job.runId) (inRun : x'.InRun) :
    sh'.db.Running job.runId := by
  unfold Execution.InRun at running
  cases step with
  | openRun now db row watermark attempt phase result start =>
      exact ⟨_, (openRun_run result _).trans (if_pos rfl), rfl, (openRun_row result).2⟩
  | attempt k attempt attempt' phase taken => exact running (by rw [phase]; trivial)
  | succeed k attempt outcome started finished result phase settled returned =>
      exact running (by rw [phase]; trivial)
  | retry k attempt attempt' outcome started finished tree phase settled raised retryable left start =>
      exact running (by rw [phase]; trivial)
  | _ => exact inRun.elim

end step

section manager

variable {ι : Type} [DecidableEq ι] {jobs : ι → Job}

/-- The rows of the calls: each call that has opened its run has one of its own, which is
running as long as the call has not finalized it. -/
structure Rows (m : Manager jobs) : Prop where
  stored : ∀ i, (m.execution i).Opened → m.shared.db.run (jobs i).runId ≠ none
  apart : ∀ i j, i ≠ j → (m.execution i).Opened → (m.execution j).Opened →
    (jobs i).runId ≠ (jobs j).runId
  running : ∀ i, (m.execution i).InRun → m.shared.db.Running (jobs i).runId

omit [DecidableEq ι] in
theorem rows_init (sh : Shared) : Rows (.init jobs sh) := by
  have unopened : ∀ i, ¬ ((Manager.init jobs sh).execution i).Opened := by
    intro i opened
    rcases opened with inRun | some
    · exact inRun
    · exact some rfl
  exact ⟨fun i opened => absurd opened (unopened i), fun i _ _ opened => absurd opened (unopened i),
    fun i inRun => absurd (Or.inl inRun) (unopened i)⟩

/-- No call touches the row of another. -/
theorem Rows.run_kept {m m' : Manager jobs} {i j : ι} (rows : Rows m)
    (taken : ManagerStep jobs m j m') (other : i ≠ j) (opened : (m.execution i).Opened) :
    m'.shared.db.run (jobs i).runId = m.shared.db.run (jobs i).runId := by
  have step := taken.inv.1
  rcases step.run_cases with same | ⟨_, _, _, _, absent, _⟩ | ⟨_, _, _, _, phase, _⟩
  · exact same _
  · refine step.run_other ?_
    intro same
    exact rows.stored i opened (same ▸ absent)
  · refine step.run_other (rows.apart i j other opened (Or.inl ?_))
    simp [Execution.InRun, phase]

theorem Rows.step {m m' : Manager jobs} {j : ι} (rows : Rows m) (taken : ManagerStep jobs m j m') :
    Rows m' := by
  obtain ⟨step, others⟩ := taken.inv
  -- A call that opens its run now takes an id that no other call has.
  have new : (m'.execution j).Opened → ∀ i, i ≠ j → (m.execution i).Opened →
      (jobs i).runId ≠ (jobs j).runId := by
    intro opened i other before same
    rcases step.opened opened with old | ⟨_, absent, _⟩
    · exact rows.apart i j other before old same
    · exact rows.stored i before (same ▸ absent)
  refine ⟨?_, ?_, ?_⟩
  · intro i opened
    by_cases self : i = j
    · subst self
      rcases step.opened opened with old | ⟨_, _, row, found, _⟩
      · exact step.run_stored (rows.stored i old)
      · rw [found]
        exact nofun
    · rw [others i self] at opened
      exact step.run_stored (rows.stored i opened)
  · intro i k other first second
    by_cases self : i = j
    · subst self
      rw [others k (Ne.symm other)] at second
      exact (new first k (Ne.symm other) second).symm
    · rw [others i self] at first
      by_cases self' : k = j
      · subst self'
        exact new second i other first
      · rw [others k self'] at second
        exact rows.apart i k other first second
  · intro i inRun
    by_cases self : i = j
    · subst self
      exact step.running (rows.running i) inRun
    · rw [others i self] at inRun
      unfold Db.Running
      rw [rows.run_kept taken self (Or.inl inRun)]
      exact rows.running i inRun

theorem rows_reached {sh : Shared} {m : Manager jobs}
    (run : ManagerReaches jobs (.init jobs sh) m) : Rows m := by
  induction run with
  | refl => exact rows_init sh
  | tail _ last ih =>
      obtain ⟨j, taken⟩ := last
      exact ih.step taken

end manager

/-- How the outcomes of a call that returns a state bear on its row. -/
def Settles (db : Db) (runId : Uuid) (outcomes : List (Except ExcTree RunResult))
    (state : RunState) : Prop :=
  db.Reported runId state ∧ (∀ outcome ∈ outcomes, Mapped outcome) ∨
    db.Running runId ∧ ∃ outcome ∈ outcomes, ¬ Mapped outcome

/-- Where the row of a call is, at each of its phases. -/
def Tracked (job : Job) (db : Db) (x : Execution job.pipeline) : Prop :=
  match x.phase with
  | .attempting _ _ => x.outcomes = []
  | .finalizing result _ => x.outcomes ≠ [] ∧ (∀ outcome ∈ x.outcomes, Mapped outcome) ∧
      result.state.Terminal
  | .reporting state => x.outcomes ≠ [] ∧ db.Reported job.runId state ∧
      ∀ outcome ∈ x.outcomes, Mapped outcome
  | .failing tree => x.outcomes ≠ [] → tree.permanent = none ∧ db.Running job.runId ∧
      ∃ outcome ∈ x.outcomes, ¬ Mapped outcome
  | .closing exit => x.outcomes ≠ [] → ∀ state, exit = .ok state →
      Settles db job.runId x.outcomes state
  | .ended exit => x.outcomes ≠ [] → ∀ state, exit = .ok state →
      Settles db job.runId x.outcomes state
  | _ => x.outcomes = []

theorem Tracked.congr {job : Job} {db db' : Db} {x : Execution job.pipeline}
    (same : x.Opened → db'.run job.runId = db.run job.runId) (tracked : Tracked job db x) :
    Tracked job db' x := by
  obtain ⟨phase, outcomes⟩ := x
  cases phase with
  | reporting state =>
      unfold Tracked Db.Reported at tracked ⊢
      rw [same (Or.inr tracked.1)]
      exact tracked
  | failing tree =>
      intro some
      unfold Tracked Db.Running at tracked
      unfold Db.Running
      rw [same (Or.inr some)]
      exact tracked some
  | closing exit =>
      intro some
      unfold Tracked Settles Db.Reported Db.Running at tracked
      unfold Settles Db.Reported Db.Running
      rw [same (Or.inr some)]
      exact tracked some
  | ended exit =>
      intro some
      unfold Tracked Settles Db.Reported Db.Running at tracked
      unfold Settles Db.Reported Db.Running
      rw [same (Or.inr some)]
      exact tracked some
  | _ => exact tracked

/-- The transaction that finalizes the run fails. -/
def CommitFails (job : Job) (sh : Shared) (x x' : Execution job.pipeline) : Prop :=
  (∃ result attempt, x.phase = .finalizing result attempt) ∧ sh.db.run job.runId ≠ none ∧
    ∃ tree, x'.phase = .failing tree

theorem Tracked.step {job : Job} {sh sh' : Shared} {x x' : Execution job.pipeline}
    (terminal : ∀ a result, job.pipeline.Outcome a (.ok result) → result.state.Terminal)
    (step : JobStep job sh x sh' x') (commits : ¬ CommitFails job sh x x')
    (running : x.InRun → sh.db.Running job.runId) (tracked : Tracked job sh.db x) :
    Tracked job sh'.db x' := by
  unfold Execution.InRun at running
  unfold Tracked at tracked
  cases step with
  | refuse now e phase refused =>
      rw [phase] at tracked
      exact fun some => absurd tracked some
  | permit now breaker phase admitted =>
      rw [phase] at tracked
      exact tracked
  | build phase =>
      rw [phase] at tracked
      exact tracked
  | buildFail tree phase =>
      rw [phase] at tracked
      exact fun some => absurd tracked some
  | openRun now db row watermark attempt phase opened start =>
      rw [phase] at tracked
      exact tracked
  | openRefused now e phase refused =>
      rw [phase] at tracked
      exact fun some => absurd tracked some
  | openFail failure phase =>
      rw [phase] at tracked
      exact fun some => absurd tracked some
  | attempt k attempt attempt' phase taken =>
      rw [phase] at tracked
      exact tracked
  | succeed k attempt outcome started finished result phase settled returned =>
      rw [phase] at tracked running
      refine ⟨by simp, ?_, ?_⟩
      · intro other member
        rw [tracked, List.nil_append, List.mem_singleton] at member
        rw [member]
        exact runWithOutcome_mapped returned
      · refine runWithOutcome_terminal ?_ returned
        rintro result' rfl
        exact terminal attempt result' settled
  | retry k attempt attempt' outcome started finished tree phase settled raised retryable left start =>
      rw [not_retryable raised] at retryable
      cases retryable
  | giveUp k attempt outcome started finished tree phase settled raised stop =>
      rw [phase] at running
      intro _
      exact ⟨not_permanent raised, running trivial, outcome, by simp,
        runWithOutcome_unmapped raised⟩
  | finalize result attempt row now phase found =>
      rw [phase] at tracked
      refine ⟨tracked.1, ⟨row.finalized result now, ?_, rfl, tracked.2.2, rfl⟩, tracked.2.1⟩
      exact (finalizeRun_rows found result now _).trans (if_pos rfl)
  | finalizeMissing result attempt phase missing =>
      rw [phase] at running
      obtain ⟨row, found, _⟩ := running trivial
      rw [missing] at found
      cases found
  | finalizeFail result attempt failure phase =>
      rw [phase] at running
      obtain ⟨row, found, _⟩ := running trivial
      exact absurd ⟨⟨result, attempt, phase⟩, by rw [found]; exact nofun, _, rfl⟩ commits
  | report state now phase =>
      rw [phase] at tracked
      intro _ state' same
      cases same
      exact Or.inl tracked.2
  | failPermanent tree e now phase permanent =>
      rw [phase] at tracked
      by_contra some
      have none := (tracked some).1
      rw [permanent] at none
      cases none
  | failOther tree now phase other exception =>
      rw [phase] at tracked
      intro some state same
      exact Or.inr (tracked some).2
  | failBase tree phase other base => exact nofun
  | bury e traceback now phase =>
      rw [phase] at tracked
      exact fun some => absurd tracked some
  | buryFail e failure phase => exact nofun
  | close exit phase =>
      rw [phase] at tracked
      exact tracked

section runs

variable {ι : Type} [DecidableEq ι] {jobs : ι → Job}

/-- Runs in which the finalizing transaction of the call does not fail. -/
def CommittingReaches (i : ι) : Manager jobs → Manager jobs → Prop :=
  Relation.ReflTransGen fun m m' => ∃ j, ManagerStep jobs m j m' ∧
    (j = i → ¬ CommitFails (jobs j) m.shared (m.execution j) (m'.execution j))

theorem CommittingReaches.reaches {i : ι} {m m' : Manager jobs} (run : CommittingReaches i m m') :
    ManagerReaches jobs m m' :=
  Relation.ReflTransGen.mono (fun _ _ step => ⟨step.choose, step.choose_spec.1⟩) _ _ run

def Phase.Finalizing {P : PipelineSystem} : Phase P → Prop
  | .finalizing _ _ => True
  | _ => False

/-- A step of a call that is not about to finalize its run. -/
theorem JobStep.committing {i : ι} {m : Manager jobs} {sh : Shared}
    {x : Execution (jobs i).pipeline} (step : JobStep (jobs i) m.shared (m.execution i) sh x)
    (early : ¬ (m.execution i).phase.Finalizing) :
    ∃ m', CommittingReaches i m m' ∧ m'.shared = sh ∧ m'.execution i = x := by
  refine ⟨_, .single ⟨i, .mk m i sh x step, ?_⟩, rfl, Function.update_self i x m.execution⟩
  rintro _ ⟨⟨result, attempt, phase⟩, _⟩
  rw [phase] at early
  exact early trivial

theorem tracked_reached {i : ι} {sh : Shared} {m : Manager jobs}
    (terminal : ∀ a result, (jobs i).pipeline.Outcome a (.ok result) → result.state.Terminal)
    (run : CommittingReaches i (.init jobs sh) m) :
    Tracked (jobs i) m.shared.db (m.execution i) := by
  induction run with
  | refl => rfl
  | tail before last ih =>
      obtain ⟨j, taken, commits⟩ := last
      have rows := rows_reached (CommittingReaches.reaches before)
      obtain ⟨step, others⟩ := taken.inv
      by_cases self : i = j
      · subst self
        exact ih.step terminal step (commits rfl) (rows.running i)
      · rw [others i self]
        exact ih.congr (rows.run_kept taken self)

/-- What is to be finalized has come to an end. -/
theorem finalizing_terminal {sh : Shared} {m : Manager jobs}
    (terminal : ∀ i a result, (jobs i).pipeline.Outcome a (.ok result) → result.state.Terminal)
    (run : ManagerReaches jobs (.init jobs sh) m) (i : ι) {result : RunResult}
    {attempt : (jobs i).pipeline.State}
    (phase : (m.execution i).phase = .finalizing result attempt) : result.state.Terminal := by
  refine manager_local (fun i x => ∀ result attempt, x.phase = .finalizing result attempt →
    result.state.Terminal) (fun _ _ _ => nofun) ?_ run i result attempt phase
  intro i sh x sh' x' step _ result attempt phase
  cases step with
  | succeed k attempt' outcome started finished result' phase' settled returned =>
      cases phase
      refine runWithOutcome_terminal ?_ returned
      rintro result' rfl
      exact terminal i attempt result' settled
  | _ => cases phase

theorem row_moves {sh : Shared} {m m' : Manager jobs} {j : ι}
    (terminal : ∀ i a result, (jobs i).pipeline.Outcome a (.ok result) → result.state.Terminal)
    (run : ManagerReaches jobs (.init jobs sh) m) (taken : ManagerStep jobs m j m') (id : Uuid) :
    RowMove (m.shared.db.run id) (m'.shared.db.run id) := by
  have rows := rows_reached run
  rcases taken.inv.1.run_cases with same | ⟨attempt, row, _, _, absent, running, _, after⟩ |
    ⟨result, attempt, row, now, phase, _, found, after⟩
  · rw [same]
    exact .same _
  · rw [after]
    split
    · rename_i own
      rw [own, absent]
      exact .opened row running
    · exact .same _
  · rw [after]
    split
    · rename_i own
      obtain ⟨row', found', running, _⟩ := rows.running j (by simp [Execution.InRun, phase])
      rw [own, found']
      exact .finalized row' _ running (finalizing_terminal terminal run j phase)
    · exact .same _

end runs

theorem outcome_terminal {R : Runtime} {spec : PipelineSpec S} {a : Attempt R spec}
    {result : RunResult} (settled : (netSystem R spec).Outcome a (.ok result)) :
    result.state.Terminal := by
  obtain ⟨_, started, finished, outcome⟩ := settled
  unfold pipelineResult at outcome
  split at outcome
  · cases outcome
    trivial
  · cases outcome

/-- When the commits of the runner succeed, a call that has opened its run and returns a state
has a row of that state exactly when every exception tree that its pipeline raised has an
exception of the framework in it. Rows only move from running to a terminal state. -/
theorem run_row_reported_iff {ι : Type} [DecidableEq ι] {R : Runtime} (feeds : ι → Feed S)
    (sh : Shared) :
    (∀ (i : ι) (m : Manager fun i => (feeds i).job R) (state : RunState),
      CommittingReaches i (.init _ sh) m → (m.execution i).Opened →
      (m.execution i).phase = .ended (.ok state) →
      (m.shared.db.Reported (feeds i).runId state ↔
        ∀ outcome ∈ (m.execution i).outcomes, Mapped outcome)) ∧
    ∀ (m m' : Manager fun i => (feeds i).job R) (j : ι),
      ManagerReaches _ (.init _ sh) m → ManagerStep _ m j m' →
      ∀ id, RowMove (m.shared.db.run id) (m'.shared.db.run id) := by
  have terminal : ∀ i a result, ((feeds i).job R).pipeline.Outcome a (.ok result) →
      result.state.Terminal := fun i a result settled => outcome_terminal settled
  constructor
  · intro i m state run opened phase
    have tracked := tracked_reached (terminal i) run
    have attempted : (m.execution i).outcomes ≠ [] := by
      rcases opened with inRun | attempted
      · simp [Execution.InRun, phase] at inRun
      · exact attempted
    unfold Tracked at tracked
    rw [phase] at tracked
    rcases tracked attempted state rfl with ⟨reported, mapped⟩ | ⟨running, outcome, member, unmapped⟩
    · exact iff_of_true reported mapped
    · refine iff_of_false ?_ (fun mapped => unmapped (mapped outcome member))
      rintro ⟨row, found, same, terminal, finished⟩
      obtain ⟨row', found', _, unfinished⟩ := running
      have stored : m.shared.db.run (feeds i).runId = some row' := found'
      rw [found] at stored
      cases stored
      rw [unfinished] at finished
      cases finished
  · intro m m' j run taken id
    exact row_moves terminal run taken id

section counterexample

/-- What `json.loads` raises on a malformed document. -/
def notJson : Failure := ctiFailure .valueError rfl "Expecting value".toList

/-- The only call on a fresh worker, for a source whose documents are malformed. -/
def malformedFeed : Unit → Feed Unit := fun _ =>
  { worker := 0
    sourceId := "feed".toList
    runId := 1
    circuit := ⟨5, 300⟩
    maxAttempts := 5
    spec := (rejectingSource notJson).pipeline asciiRuntime taggedUpstream }

abbrev MalformedManager : Type := Manager fun i => (malformedFeed i).job asciiRuntime

def malformedAttempt (s : (rejectingNet notJson).State) :
    Attempt asciiRuntime ((rejectingSource notJson).pipeline asciiRuntime taggedUpstream) :=
  ⟨(zeroClock, feedContext), s⟩

private theorem malformed_step {m : MalformedManager} {sh : Shared}
    {x : Execution ((malformedFeed ()).job asciiRuntime).pipeline}
    (step : JobStep ((malformedFeed ()).job asciiRuntime) m.shared (m.execution ()) sh x)
    (early : ¬ (m.execution ()).phase.Finalizing) :
    ∃ m' : MalformedManager, CommittingReaches () m m' ∧ m'.shared = sh ∧ m'.execution () = x :=
  JobStep.committing (i := ()) step early

/-- The steps of an attempt commit nothing. -/
theorem malformed_attempts {s t : (rejectingNet notJson).State} {allowed}
    (run : (rejectingNet notJson).Reaches allowed s t) {m : MalformedManager} {k : Nat}
    (phase : (m.execution ()).phase = .attempting k (malformedAttempt s)) :
    ∃ m' : MalformedManager, CommittingReaches () m m' ∧ m'.shared = m.shared ∧
      (m'.execution ()).phase = .attempting k (malformedAttempt t) := by
  induction run with
  | refl => exact ⟨m, .refl, rfl, phase⟩
  | tail _ last ih =>
      obtain ⟨label, _, taken⟩ := last
      obtain ⟨m', before, same, now⟩ := ih
      obtain ⟨m'', after, same', now'⟩ := malformed_step
        (.attempt _ _ k _ (malformedAttempt _) now ⟨label, _, taken, rfl⟩) (by rw [now]; exact id)
      exact ⟨m'', before.trans after, same'.trans same, congrArg Execution.phase now'⟩

theorem malformed_started :
    ∃ m : MalformedManager, CommittingReaches () (.init _ feedShared) m ∧
      m.shared.db.Running 1 ∧
      (m.execution ()).phase = .attempting 1 (malformedAttempt (rejectingStart notJson)) := by
  obtain ⟨m₁, run₁, shared₁, now₁⟩ := @malformed_step (.init _ feedShared) _ _
    (.permit _ _ 0 _ rfl rfl) id
  obtain ⟨m₂, run₂, shared₂, now₂⟩ := @malformed_step m₁ _ _
    (.build _ _ (congrArg Execution.phase now₁)) (by rw [now₁]; exact id)
  have opened : openRun m₂.shared.db "feed".toList 1 0 =
      .ok ({ feedShared.db with feedRuns := [feedRow] }, feedRow, []) := by
    rw [shared₂, shared₁]
    exact feed_opened
  obtain ⟨m₃, run₃, shared₃, now₃⟩ := @malformed_step m₂ _ _
    (.openRun _ _ 0 _ _ _ (malformedAttempt (rejectingStart notJson)) (congrArg Execution.phase now₂)
      opened ⟨zeroClock, (), rfl⟩) (by rw [now₂]; exact id)
  refine ⟨m₃, (run₁.trans run₂).trans run₃, ?_, congrArg Execution.phase now₃⟩
  rw [shared₃]
  exact ⟨_, feed_running, rfl, rfl⟩

/-- What the task group raises then. -/
def malformedTree : ExcTree := .group "unhandled errors in a TaskGroup".toList notJson.1 []

theorem malformed_raised (ctx : RunContext) :
    runWithOutcome ctx 0 0 (.error malformedTree) = .error malformedTree := rfl

/-- The call reports FAILED and its row stays RUNNING. -/
theorem run_row_left_running :
    ∃ m : MalformedManager, CommittingReaches () (.init _ feedShared) m ∧
      (m.execution ()).Opened ∧ (m.execution ()).phase = .ended (.ok .failed) ∧
      m.shared.db.Running 1 ∧ ¬ m.shared.db.Reported 1 .failed := by
  obtain ⟨u, attempted, ended, errors, _⟩ := rejecting_spoils notJson
  obtain ⟨m₁, run₁, running, now₁⟩ := malformed_started
  obtain ⟨m₂, run₂, shared₂, now₂⟩ := malformed_attempts attempted now₁
  have raised : pipelineResult 0 0 u = .error malformedTree := by
    unfold pipelineResult
    rw [errors]
    rfl
  have settled : ((malformedFeed ()).job asciiRuntime).pipeline.Outcome (malformedAttempt u)
      (.error malformedTree) := ⟨ended, 0, 0, raised.symm⟩
  have final : ¬ (malformedTree.retryable = true ∧
      ((1 : Nat) : Int) < ((malformedFeed ()).job asciiRuntime).maxAttempts) := by
    rintro ⟨retryable, _⟩
    cases retryable
  have giveUp : JobStep ((malformedFeed ()).job asciiRuntime) m₂.shared (m₂.execution ()) m₂.shared
      ⟨.failing malformedTree, (m₂.execution ()).outcomes ++ [.error malformedTree]⟩ :=
    @JobStep.giveUp ((malformedFeed ()).job asciiRuntime) m₂.shared (m₂.execution ()) 1
      (malformedAttempt u) (.error malformedTree) 0 0 malformedTree now₂ settled
      (malformed_raised _) final
  obtain ⟨m₃, run₃, shared₃, now₃⟩ := malformed_step giveUp (by rw [now₂]; exact id)
  obtain ⟨m₄, run₄, shared₄, now₄⟩ := @malformed_step m₃ _ _
    (.failOther _ _ malformedTree 0 (congrArg Execution.phase now₃) rfl rfl) (by rw [now₃]; exact id)
  obtain ⟨m₅, run₅, shared₅, now₅⟩ := @malformed_step m₄ _ _
    (.close _ _ (.ok .failed) (congrArg Execution.phase now₄)) (by rw [now₄]; exact id)
  have stranded : m₅.shared.db.Running 1 := by
    rw [shared₅, shared₄, shared₃, shared₂]
    exact running
  refine ⟨m₅, (((run₁.trans run₂).trans run₃).trans run₄).trans run₅, Or.inr ?_,
    congrArg Execution.phase now₅, stranded, ?_⟩
  · rw [now₅, now₄, now₃]
    simp
  · rintro ⟨row, found, failed, _⟩
    obtain ⟨row', found', running', _⟩ := stranded
    rw [found] at found'
    cases found'
    rw [failed] at running'
    cases running'

end counterexample

end Cti
