import Cti.Lifecycle

set_option autoImplicit false

/- What the calls of `execute` report to their breakers. -/
namespace Cti

open Py (Str)

variable {call : LifecycleCall}

/-- One outcome was reported, and it was a success exactly if the call returned one. -/
def ReportsOnce (reports : List BreakerReport) (exit : Except ExcTree RunState) : Prop :=
  reports.count .onSuccess + reports.count .onFailure = 1 ∧
    (.onSuccess ∈ reports ↔ exit = .ok .success)

/-- What gets out of the pipeline and of the plugins is an `Exception`. -/
structure LifecycleCall.OnlyExceptions (call : LifecycleCall) : Prop where
  pipeline : ∀ attempt tree, call.job.pipeline.Outcome attempt (.error tree) →
    tree.isException = true
  acloses : ∀ plugin, Swallowed call.acloses plugin

/-- The outcome has been reported as it stands. -/
def ReportedAs (exit : Except ExcTree RunState) (reports : List BreakerReport) : Prop :=
  match exit with
  | .ok .success => reports = [.admitted, .onSuccess]
  | _ => reports = [.admitted, .onFailure]

theorem ReportedAs.once {exit : Except ExcTree RunState} {reports : List BreakerReport}
    (reported : ReportedAs exit reports) : ReportsOnce reports exit := by
  unfold ReportedAs at reported
  split at reported
  · subst reported
    exact ⟨rfl, by simp⟩
  · rename_i failed
    subst reported
    refine ⟨rfl, ?_⟩
    simpa using failed

/-- What a call has reported so far, as long as nothing but an `Exception` is raised. -/
def Lifecycle.Reporting (call : LifecycleCall) (l : Lifecycle call.job.pipeline) : Prop :=
  match l.execution.phase with
  | .admitting => l.reports = []
  | .burying _ => l.reports = [.admitted, .onFailure]
  | .closing exit => ReportedAs exit l.reports
  | .ended exit => l.reports = [.refused] ∨ ReportedAs exit l.reports ∨
      l.reports = [.admitted] ∧ ¬ call.source.Loads call.loads
  | .failing tree => l.reports = [.admitted] ∧ tree.isException = true
  | _ => l.reports = [.admitted]

theorem openRun_exception {db : Db} {sourceId : Str} {runId : Uuid} {now : Int} {e : Exc}
    (refused : openRun db sourceId runId now = .error e) : e.isA .exception = true := by
  unfold openRun at refused
  split at refused
  · cases refused
    rfl
  · split at refused
    · cases refused
      rfl
    · cases refused

theorem leaf_isException {e : Exc} (exception : e.isA .exception = true) :
    (ExcTree.leaf e).isException = true := by
  simp [ExcTree.isException, ExcTree.flatten, exception]

theorem Lifecycle.Reporting.step (only : call.OnlyExceptions) {sh sh' : Shared}
    {l l' : Lifecycle call.job.pipeline} (reporting : l.Reporting call)
    (step : LifecycleStep call sh l sh' l') : l'.Reporting call := by
  unfold Lifecycle.Reporting at reporting
  cases step with
  | build spec made phase built =>
      rw [phase] at reporting
      exact reporting
  | buildFail e made phase failed =>
      rw [phase] at reporting
      exact Or.inr (Or.inr ⟨reporting, (buildInstances_error failed).1⟩)
  | close exit phase =>
      rw [phase] at reporting
      have quiet := closePlugins_quiet only.acloses l.closing
      unfold Lifecycle.Reporting
      dsimp only
      rw [quiet]
      exact Or.inr (Or.inl reporting)
  | run _ x outside step =>
      unfold Lifecycle.Reporting
      cases step with
      | refuse now e phase refused =>
          rw [phase] at reporting
          rw [phase, reporting]
          exact Or.inl rfl
      | permit now breaker phase admitted =>
          rw [phase] at reporting
          rw [phase, reporting]
          rfl
      | build phase => exact absurd phase (Phase.not_replaced outside).1
      | buildFail tree phase => exact absurd phase (Phase.not_replaced outside).1
      | openRefused now e phase refused =>
          rw [phase] at reporting
          rw [phase, reporting]
          exact ⟨rfl, leaf_isException (openRun_exception refused)⟩
      | openFail failure phase =>
          rw [phase] at reporting
          rw [phase, reporting]
          exact ⟨rfl, leaf_isException failure.exception⟩
      | giveUp k attempt outcome started finished tree phase settled raised stop =>
          rw [phase] at reporting
          rw [phase, reporting]
          obtain ⟨rfl, _⟩ := runWithOutcome_error raised
          exact ⟨rfl, only.pipeline attempt tree settled⟩
      | finalizeMissing result attempt phase missing =>
          rw [phase] at reporting
          rw [phase, reporting]
          exact ⟨rfl, rfl⟩
      | finalizeFail result attempt failure phase =>
          rw [phase] at reporting
          rw [phase, reporting]
          exact ⟨rfl, leaf_isException failure.exception⟩
      | report state now phase =>
          rw [phase] at reporting
          rw [phase, reporting]
          cases state with
          | _ => rfl
      | failPermanent tree e now phase permanent =>
          rw [phase] at reporting
          rw [phase, reporting.1]
          rfl
      | failOther tree now phase other exception =>
          rw [phase] at reporting
          rw [phase, reporting.1]
          rfl
      | failBase tree phase other base =>
          rw [phase] at reporting
          obtain ⟨_, exception⟩ := reporting
          rw [base] at exception
          cases exception
      | bury e traceback now phase =>
          rw [phase] at reporting
          rw [phase, reporting]
          rfl
      | buryFail e failure phase =>
          rw [phase] at reporting
          rw [phase, reporting]
          rfl
      | close exit phase => exact absurd phase ((Phase.not_replaced outside).2 exit)
      | _ =>
          rw [‹l.execution.phase = _›] at reporting
          rw [‹l.execution.phase = _›, reporting]
          rfl

theorem CallRun.reporting (only : call.OnlyExceptions) {sh : Shared}
    {l : Lifecycle call.job.pipeline} (run : CallRun call false sh l) : l.Reporting call := by
  induction run with
  | start sh => exact rfl
  | step _ step ih => exact ih.step only step
  | others _ sh' ih => exact ih
  | cancel _ tree allowed inside base ih => cases allowed

/-- What a call has reported where a plugin does not load. -/
def Lifecycle.Silent {P : PipelineSystem} (l : Lifecycle P) : Prop :=
  match l.execution.phase with
  | .admitting => l.reports = []
  | .building => l.reports = [.admitted]
  | .ended _ => l.reports = [.refused] ∨ l.reports = [.admitted]
  | _ => False

theorem Lifecycle.Silent.outside {P : PipelineSystem} {l : Lifecycle P} (silent : l.Silent) :
    l.execution.phase.inBody = false := by
  unfold Lifecycle.Silent at silent
  cases phase : l.execution.phase with
  | admitting => rfl
  | building => rfl
  | ended exit => rfl
  | _ =>
      rw [phase] at silent
      exact silent.elim

theorem Lifecycle.Silent.step (stopped : ¬ call.source.Loads call.loads) {sh sh' : Shared}
    {l l' : Lifecycle call.job.pipeline} (silent : l.Silent)
    (step : LifecycleStep call sh l sh' l') : l'.Silent := by
  have outside := silent.outside
  unfold Lifecycle.Silent at silent
  cases step with
  | build spec made phase built => exact absurd (buildInstances_ok built).1 stopped
  | buildFail e made phase failed =>
      rw [phase] at silent
      exact Or.inr silent
  | close exit phase =>
      rw [phase] at silent
      exact silent.elim
  | run _ x place step =>
      rcases place with admitting | inside
      · rw [admitting] at silent
        unfold Lifecycle.Silent
        dsimp only
        rcases step.admitting admitting with building | refused
        · rw [building, admitting, silent]
          rfl
        · rw [refused, admitting, silent]
          exact Or.inl rfl
      · rw [outside] at inside
        cases inside

/-- An admitted call that ends otherwise than by a cancellation has reported one outcome, as
long as every plugin of its source loads and nothing but an `Exception` is raised; and it has
reported none where a plugin does not load. -/
theorem execute_reports {sh : Shared} {l : Lifecycle call.job.pipeline}
    (run : CallRun call false sh l) {exit : Except ExcTree RunState}
    (ended : l.execution.phase = .ended exit) (admitted : .admitted ∈ l.reports) :
    (call.source.Loads call.loads → call.OnlyExceptions → ReportsOnce l.reports exit) ∧
      (ReportsOnce l.reports exit → call.source.Loads call.loads) := by
  constructor
  · intro all only
    have reporting := run.reporting only
    unfold Lifecycle.Reporting at reporting
    rw [ended] at reporting
    rcases reporting with refused | reported | ⟨_, stopped⟩
    · rw [refused] at admitted
      simp at admitted
    · exact reported.once
    · exact absurd all stopped
  · intro once
    by_contra stopped
    have silent : l.Silent := by
      clear ended admitted once
      induction run with
      | start sh => exact rfl
      | step _ step ih => exact ih.step stopped step
      | others _ sh' ih => exact ih
      | cancel _ tree allowed inside base ih => cases allowed
    unfold Lifecycle.Silent at silent
    rw [ended] at silent
    obtain ⟨one, _⟩ := once
    rcases silent with refused | alone
    · rw [refused] at one
      cases one
    · rw [alone] at one
      cases one

/-- A call whose plugins load and that cannot open its run reports a failure. -/
theorem execute_reports_lines :
    ∃ (sh : Shared) (l : Lifecycle (linesCall "txt".toList).job.pipeline),
      CallRun (linesCall "txt".toList) false sh l ∧ ReportsOnce l.reports (.ok .failed) := by
  obtain ⟨sh, l, run, ended, reports⟩ := lines_closed
  have admitted : BreakerReport.admitted ∈ l.reports := by
    rw [reports]
    exact List.mem_cons_self
  refine ⟨sh, l, run, (execute_reports run ended admitted).1 rfl ⟨?_, ?_⟩⟩
  · intro attempt tree raised
    cases raised
    rfl
  · intro plugin tree raised
    cases raised

/-- A call whose parser cannot be found is let in by its breaker and reports nothing. -/
theorem execute_reports_silent :
    ∃ (sh : Shared) (l : Lifecycle (linesCall "nope".toList).job.pipeline)
      (exit : Except ExcTree RunState), CallRun (linesCall "nope".toList) false sh l ∧
        l.execution.phase = .ended exit ∧ .admitted ∈ l.reports ∧ ¬ ReportsOnce l.reports exit := by
  obtain ⟨sh, l, e, run, ended, reports, _, _⟩ := lines_stranded
  refine ⟨sh, l, _, run, ended, by rw [reports]; exact List.mem_singleton_self _, ?_⟩
  rintro ⟨one, _⟩
  rw [reports] at one
  cases one

end Cti
