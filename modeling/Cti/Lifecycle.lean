import Cti.Contracts
import Cti.Instances

set_option autoImplicit false

/- A call of `execute` with the plugin instances that it makes and closes, and with what it
tells its breaker. -/
namespace Cti

open Py (Str)

/-- What a call has to do with its breaker: `before` returned or raised, or the outcome of the
run was reported. -/
inductive BreakerReport where
  | admitted
  | refused
  | onSuccess
  | onFailure
  deriving DecidableEq

/-- What a step from one phase to another does to the breaker. -/
def Phase.report {P : PipelineSystem} : Phase P → Phase P → List BreakerReport
  | .admitting, .building => [.admitted]
  | .admitting, _ => [.refused]
  | .reporting state, _ => if state = .success then [.onSuccess] else [.onFailure]
  | .failing _, .burying _ => [.onFailure]
  | .failing _, .closing (.ok _) => [.onFailure]
  | _, _ => []

/-- The breaker of the call after the reports. -/
def Reported (job : Job) (sh sh' : Shared) : List BreakerReport → Prop
  | [.admitted] => ∃ now, (sh.breaker job).before job.circuit job.sourceId now = .ok (sh'.breaker job)
  | [.onSuccess] => sh'.breaker job = (sh.breaker job).onSuccess
  | [.onFailure] => ∃ now, sh'.breaker job = (sh.breaker job).onFailure job.circuit now
  | _ => sh'.breakers = sh.breakers

theorem Shared.breaker_setBreaker (sh : Shared) (job : Job) (breaker : CircuitBreaker) :
    (sh.setBreaker job breaker).breaker job = breaker := by
  simp [Shared.setBreaker, Shared.breaker]

/-- The reports of a step are what the step does to the breaker of the call. -/
theorem JobStep.reported {job : Job} {sh sh' : Shared} {x x' : Execution job.pipeline}
    (step : JobStep job sh x sh' x') : Reported job sh sh' (x.phase.report x'.phase) := by
  cases step with
  | permit now breaker phase admitted =>
      rw [phase]
      exact ⟨now, by rw [Shared.breaker_setBreaker]; exact admitted⟩
  | report state now phase =>
      rw [phase]
      by_cases success : state = .success
      · simp [Phase.report, success, Reported, Shared.breaker_setBreaker]
      · simp only [Phase.report, success, ↓reduceIte]
        exact ⟨now, Shared.breaker_setBreaker sh job _⟩
  | failPermanent tree e now phase permanent =>
      rw [phase]
      exact ⟨now, Shared.breaker_setBreaker sh job _⟩
  | failOther tree now phase other exception =>
      rw [phase]
      exact ⟨now, Shared.breaker_setBreaker sh job _⟩
  | _ =>
      rw [‹x.phase = _›]
      exact rfl

/-- The loop of the `finally` clause: the instances that it calls `aclose` on, and what gets out
of it. -/
def closePlugins (acloses : Nat → Except ExcTree Unit) : List Nat → List Nat × Except ExcTree Unit
  | [] => ([], .ok ())
  | plugin :: plugins =>
      match acloses plugin with
      | .ok _ => (plugin :: (closePlugins acloses plugins).1, (closePlugins acloses plugins).2)
      | .error tree =>
          if tree.isException then
            (plugin :: (closePlugins acloses plugins).1, (closePlugins acloses plugins).2)
          else ([plugin], .error tree)

/-- A call of `execute`: its source, how the plugins load, and what their `aclose` does. -/
structure LifecycleCall where
  job : Job
  source : SourceConfig
  loads : Nat → PluginRef → Except Exc Unit
  acloses : Nat → Except ExcTree Unit

/-- A call in progress, the instances that it has made, those that it will close and those that
it has closed, and what it has told its breaker. -/
structure Lifecycle (P : PipelineSystem) where
  execution : Execution P
  made : List PluginRef
  closing : List Nat
  closed : List Nat
  reports : List BreakerReport

def Lifecycle.init (P : PipelineSystem) : Lifecycle P := ⟨.init P, [], [], [], []⟩

/-- The call is in the body of its `try`. -/
def Phase.inBody {P : PipelineSystem} : Phase P → Bool
  | .opening => true
  | .attempting _ _ => true
  | .finalizing _ _ => true
  | .reporting _ => true
  | .failing _ => true
  | .burying _ => true
  | _ => false

variable (call : LifecycleCall)

/-- One step of a call. Those of the runner are as they are, with the builder and the `finally`
clause put in their places. -/
inductive LifecycleStep : Shared → Lifecycle call.job.pipeline → Shared →
    Lifecycle call.job.pipeline → Prop
  | run (sh : Shared) (l : Lifecycle call.job.pipeline) (sh' : Shared)
      (x : Execution call.job.pipeline)
      (outside : l.execution.phase = .admitting ∨ l.execution.phase.inBody = true)
      (step : JobStep call.job sh l.execution sh' x) :
      LifecycleStep sh l sh'
        { l with execution := x, reports := l.reports ++ l.execution.phase.report x.phase }
  | build (sh : Shared) (l : Lifecycle call.job.pipeline) (spec : PipelineInstances)
      (made : List PluginRef) (phase : l.execution.phase = .building)
      (built : buildInstances call.loads call.source [] = (.ok spec, made)) :
      LifecycleStep sh l sh
        { l with
          execution := { l.execution with phase := .opening }
          made := made
          closing := spec.closing }
  | buildFail (sh : Shared) (l : Lifecycle call.job.pipeline) (e : Exc) (made : List PluginRef)
      (phase : l.execution.phase = .building)
      (failed : buildInstances call.loads call.source [] = (.error e, made)) :
      LifecycleStep sh l sh
        { l with
          execution := { l.execution with phase := .ended (.error (.leaf e)) }
          made := made }
  | close (sh : Shared) (l : Lifecycle call.job.pipeline) (exit : Except ExcTree RunState)
      (phase : l.execution.phase = .closing exit) :
      LifecycleStep sh l sh
        { l with
          execution :=
            { l.execution with
              phase := .ended (match (closePlugins call.acloses l.closing).2 with
                | .ok _ => exit
                | .error tree => .error tree) }
          closed := (closePlugins call.acloses l.closing).1 }

/-- The runs of a call, whatever others do to what they share. A cancellation gets at the body
of the `try` as an exception that no clause catches. -/
inductive CallRun (cancellable : Bool) : Shared → Lifecycle call.job.pipeline → Prop
  | start (sh : Shared) : CallRun cancellable sh (.init call.job.pipeline)
  | step {sh sh' : Shared} {l l' : Lifecycle call.job.pipeline} (before : CallRun cancellable sh l)
      (step : LifecycleStep call sh l sh' l') : CallRun cancellable sh' l'
  | others {sh : Shared} {l : Lifecycle call.job.pipeline} (before : CallRun cancellable sh l)
      (sh' : Shared) : CallRun cancellable sh' l
  | cancel {sh : Shared} {l : Lifecycle call.job.pipeline} (before : CallRun cancellable sh l)
      (tree : ExcTree) (allowed : cancellable = true) (inside : l.execution.phase.inBody = true)
      (base : tree.isException = false) :
      CallRun cancellable sh
        { l with execution := { l.execution with phase := .closing (.error tree) } }

variable {call}

/-- With every `aclose` behaving, a step is one of the runner. -/
theorem LifecycleStep.jobStep {sh sh' : Shared} {l l' : Lifecycle call.job.pipeline}
    (step : LifecycleStep call sh l sh' l')
    (quiet : ∀ plugins, (closePlugins call.acloses plugins).2 = .ok ()) :
    JobStep call.job sh l.execution sh' l'.execution := by
  cases step with
  | run _ x outside step => exact step
  | build spec made phase built => exact .build sh l.execution phase
  | buildFail e made phase failed => exact .buildFail sh l.execution _ phase
  | close exit phase =>
      dsimp only
      rw [quiet l.closing]
      exact .close sh l.execution exit phase

section closing

variable {acloses : Nat → Except ExcTree Unit}

/-- The loop goes on after the plugin has been closed. -/
def Swallowed (acloses : Nat → Except ExcTree Unit) (plugin : Nat) : Prop :=
  ∀ tree, acloses plugin = .error tree → tree.isException = true

theorem closePlugins_cons {plugin : Nat} (swallowed : Swallowed acloses plugin)
    (plugins : List Nat) :
    closePlugins acloses (plugin :: plugins) =
      (plugin :: (closePlugins acloses plugins).1, (closePlugins acloses plugins).2) := by
  cases raised : acloses plugin with
  | ok u => simp [closePlugins, raised]
  | error tree => simp [closePlugins, raised, swallowed tree raised]

theorem closePlugins_stop {plugin : Nat} (stops : ¬ Swallowed acloses plugin) (plugins : List Nat) :
    ∃ tree, closePlugins acloses (plugin :: plugins) = ([plugin], .error tree) := by
  unfold Swallowed at stops
  push Not at stops
  obtain ⟨tree, raised, base⟩ := stops
  exact ⟨tree, by simp [closePlugins, raised, base]⟩

/-- The loop closes the plugins in their order. -/
theorem closePlugins_isPrefix (plugins : List Nat) :
    (closePlugins acloses plugins).1 <+: plugins := by
  induction plugins with
  | nil => exact List.nil_prefix
  | cons plugin plugins ih =>
      by_cases swallowed : Swallowed acloses plugin
      · rw [closePlugins_cons swallowed]
        exact List.prefix_cons_inj plugin |>.mpr ih
      · obtain ⟨tree, stopped⟩ := closePlugins_stop swallowed plugins
        rw [stopped]
        exact List.prefix_cons_inj plugin |>.mpr List.nil_prefix

/-- It gets to the last plugin as long as no other one stops it. -/
theorem closePlugins_all_iff (plugins : List Nat) :
    (closePlugins acloses plugins).1 = plugins ↔
      ∀ plugin ∈ plugins.dropLast, Swallowed acloses plugin := by
  induction plugins with
  | nil => simp [closePlugins]
  | cons plugin plugins ih =>
      by_cases swallowed : Swallowed acloses plugin
      · rw [closePlugins_cons swallowed, List.cons_inj_right, ih]
        cases plugins with
        | nil => simp
        | cons next plugins => simp [swallowed]
      · obtain ⟨tree, stopped⟩ := closePlugins_stop swallowed plugins
        rw [stopped]
        cases plugins with
        | nil => simp
        | cons next plugins => simp [swallowed]

theorem closePlugins_quiet (swallowed : ∀ plugin, Swallowed acloses plugin) (plugins : List Nat) :
    (closePlugins acloses plugins).2 = .ok () := by
  induction plugins with
  | nil => rfl
  | cons plugin plugins ih =>
      rw [closePlugins_cons (swallowed plugin)]
      exact ih

end closing

/-- What a call has made and closed so far. -/
def Lifecycle.Accounted (call : LifecycleCall) (l : Lifecycle call.job.pipeline) : Prop :=
  match l.execution.phase with
  | .admitting => l.made = [] ∧ l.closed = [] ∧ l.reports = []
  | .building => l.made = [] ∧ l.closed = []
  | .ended _ =>
      (l.made = [] ∧ l.closed = [] ∧ BreakerReport.admitted ∉ l.reports) ∨
      (∃ e, buildInstances call.loads call.source [] = (.error e, l.made) ∧ l.closed = []) ∨
      ∃ spec, buildInstances call.loads call.source [] = (.ok spec, l.made) ∧
        l.closed = (closePlugins call.acloses spec.closing).1
  | _ => l.closed = [] ∧ ∃ spec, buildInstances call.loads call.source [] = (.ok spec, l.made) ∧
      l.closing = spec.closing

theorem Lifecycle.Accounted.body {l : Lifecycle call.job.pipeline}
    (inside : l.execution.phase.inBody = true) :
    l.Accounted call ↔ l.closed = [] ∧
      ∃ spec, buildInstances call.loads call.source [] = (.ok spec, l.made) ∧
        l.closing = spec.closing := by
  unfold Lifecycle.Accounted
  cases phase : l.execution.phase with
  | admitting => rw [phase] at inside; cases inside
  | building => rw [phase] at inside; cases inside
  | ended exit => rw [phase] at inside; cases inside
  | _ => exact Iff.rfl

theorem Lifecycle.Accounted.closing_iff {l : Lifecycle call.job.pipeline}
    {exit : Except ExcTree RunState} (phase : l.execution.phase = .closing exit) :
    l.Accounted call ↔ l.closed = [] ∧
      ∃ spec, buildInstances call.loads call.source [] = (.ok spec, l.made) ∧
        l.closing = spec.closing := by
  unfold Lifecycle.Accounted
  rw [phase]

/-- From the body of the `try` a step of the runner goes on in it or leaves it. -/
theorem JobStep.body {job : Job} {sh sh' : Shared} {x x' : Execution job.pipeline}
    (step : JobStep job sh x sh' x') (inside : x.phase.inBody = true) :
    x'.phase.inBody = true ∨ ∃ exit, x'.phase = .closing exit := by
  cases step with
  | report state now phase => exact Or.inr ⟨_, rfl⟩
  | failOther tree now phase other exception => exact Or.inr ⟨_, rfl⟩
  | failBase tree phase other base => exact Or.inr ⟨_, rfl⟩
  | bury e traceback now phase => exact Or.inr ⟨_, rfl⟩
  | buryFail e failure phase => exact Or.inr ⟨_, rfl⟩
  | refuse now e phase refused => rw [phase] at inside; cases inside
  | permit now breaker phase admitted => rw [phase] at inside; cases inside
  | build phase => rw [phase] at inside; cases inside
  | buildFail tree phase => rw [phase] at inside; cases inside
  | close exit phase => rw [phase] at inside; cases inside
  | _ => exact Or.inl rfl

/-- From outside, the breaker lets the call in or it ends. -/
theorem JobStep.admitting {job : Job} {sh sh' : Shared} {x x' : Execution job.pipeline}
    (step : JobStep job sh x sh' x') (phase : x.phase = .admitting) :
    x'.phase = .building ∨ x'.phase = .ended (.ok .failed) := by
  cases step with
  | refuse now e phase refused => exact Or.inr rfl
  | permit now breaker phase admitted => exact Or.inl rfl
  | _ =>
      rw [phase] at *
      contradiction

/-- The builder and the `finally` clause stand in for the other steps. -/
theorem Phase.not_replaced {P : PipelineSystem} {phase : Phase P}
    (outside : phase = .admitting ∨ phase.inBody = true) :
    phase ≠ .building ∧ ∀ exit, phase ≠ .closing exit := by
  constructor
  · rintro rfl
    rcases outside with impossible | impossible <;> cases impossible
  · rintro exit rfl
    rcases outside with impossible | impossible <;> cases impossible

theorem Lifecycle.Accounted.step {sh sh' : Shared} {l l' : Lifecycle call.job.pipeline}
    (accounted : l.Accounted call) (step : LifecycleStep call sh l sh' l') : l'.Accounted call := by
  cases step with
  | run _ x outside step =>
      rcases outside with admitting | inside
      · unfold Lifecycle.Accounted at accounted
        rw [admitting] at accounted
        obtain ⟨made, closed, reports⟩ := accounted
        unfold Lifecycle.Accounted
        dsimp only
        rcases step.admitting admitting with building | refused
        · rw [building]
          exact ⟨made, closed⟩
        · rw [refused]
          refine Or.inl ⟨made, closed, ?_⟩
          rw [reports, admitting]
          simp [Phase.report]
      · rw [Lifecycle.Accounted.body inside] at accounted
        rcases step.body inside with stays | ⟨exit, closing⟩
        · exact (Lifecycle.Accounted.body stays).mpr accounted
        · exact (Lifecycle.Accounted.closing_iff closing).mpr accounted
  | build spec made phase built =>
      unfold Lifecycle.Accounted at accounted
      rw [phase] at accounted
      exact ⟨accounted.2, spec, built, rfl⟩
  | buildFail e made phase failed =>
      unfold Lifecycle.Accounted at accounted
      rw [phase] at accounted
      exact Or.inr (Or.inl ⟨e, failed, accounted.2⟩)
  | close exit phase =>
      obtain ⟨_, spec, built, order⟩ := (Lifecycle.Accounted.closing_iff phase).mp accounted
      refine Or.inr (Or.inr ⟨spec, built, ?_⟩)
      dsimp only
      rw [order]

theorem CallRun.accounted {cancellable : Bool} {sh : Shared} {l : Lifecycle call.job.pipeline}
    (run : CallRun call cancellable sh l) : l.Accounted call := by
  induction run with
  | start sh => exact ⟨rfl, rfl, rfl⟩
  | step _ step ih => exact ih.step step
  | others _ sh' ih => exact ih
  | cancel _ tree allowed inside base ih =>
      exact (Lifecycle.Accounted.closing_iff rfl).mpr ((Lifecycle.Accounted.body inside).mp ih)

/-- The instances that the call has made are each closed once. -/
def Lifecycle.Released {P : PipelineSystem} (l : Lifecycle P) : Prop :=
  ∀ k, k < l.made.length → l.closed.count k = 1

/-- Either nothing could be made, or everything was and no `aclose` but the last one stops the
loop over the plugins. -/
def LifecycleCall.Releases (call : LifecycleCall) : Prop :=
  (∃ e, call.loads 0 (.connector call.source.plugin call.source.params) = .error e) ∨
    ∃ spec made, buildInstances call.loads call.source [] = (.ok spec, made) ∧
      ∀ plugin ∈ spec.closing.dropLast, Swallowed call.acloses plugin

/-- Whatever is made is closed once if and only if the loop gets to all of it. -/
theorem released_iff {closing closed : List Nat} {n : Nat} (all : closing.Perm (List.range n))
    (order : closed <+: closing) : (∀ k, k < n → closed.count k = 1) ↔ closed = closing := by
  have distinct : closing.Nodup := all.nodup_iff.mpr List.nodup_range
  constructor
  · intro once
    have inside : closing ⊆ closed := by
      intro k member
      have bound := List.mem_range.mp (all.mem_iff.mp member)
      exact List.count_pos_iff.mp (by rw [once k bound]; exact Nat.one_pos)
    exact order.eq_of_length_le (List.Nodup.length_le_of_subset distinct inside)
  · rintro rfl k bound
    exact List.count_eq_one_of_mem distinct (all.mem_iff.mpr (List.mem_range.mpr bound))

/-- When an admitted call ends, each instance that was made for it has been closed once if and
only if either nothing could be made, or every plugin of the source could and no `aclose` but
the last one raised something other than an `Exception`. -/
theorem execute_releases {cancellable : Bool} {sh : Shared} {l : Lifecycle call.job.pipeline}
    (run : CallRun call cancellable sh l) {exit : Except ExcTree RunState}
    (ended : l.execution.phase = .ended exit) (admitted : .admitted ∈ l.reports) :
    l.Released ↔ call.Releases := by
  have accounted := run.accounted
  unfold Lifecycle.Accounted at accounted
  rw [ended] at accounted
  unfold Lifecycle.Released LifecycleCall.Releases
  rcases accounted with ⟨_, _, refused⟩ | ⟨e, failed, closed⟩ | ⟨spec, built, closed⟩
  · exact absurd admitted refused
  · obtain ⟨_, made⟩ := buildInstances_error failed
    rw [closed, ← loadedFrom_eq_nil_iff, ← made]
    constructor
    · intro once
      refine Or.inl (List.eq_nil_of_length_eq_zero ?_)
      by_contra some'
      exact absurd (once 0 (Nat.pos_of_ne_zero some')) (by simp)
    · rintro (empty | ⟨spec, made', built, _⟩)
      · rw [empty]
        exact fun k bound => absurd bound (Nat.not_lt_zero k)
      · rw [failed] at built
        cases built
  · obtain ⟨all, _, perm⟩ := buildInstances_ok built
    rw [closed, released_iff perm (closePlugins_isPrefix _), closePlugins_all_iff]
    constructor
    · intro swallowed
      exact Or.inr ⟨spec, l.made, built, swallowed⟩
    · rintro (⟨e, none'⟩ | ⟨spec', made', built', swallowed⟩)
      · have empty := loadedFrom_eq_nil_iff.mpr ⟨e, none'⟩
        rw [all] at empty
        simp [SourceConfig.pluginRefs] at empty
      · rw [built] at built'
        cases built'
        exact swallowed

/-- A source of lines over HTTP with the parser of the given name. -/
def linesSource (parser : Str) : SourceConfig :=
  { plugin := "http_txt_lines".toList
    parser := parser
    enrichers := []
    publishers := []
    params := []
    parserParams := []
    enricherParams := []
    publisherParams := []
    normalize := NormalizeConfig.default
    tlp := .clear }

/-- A call for such a source, where only the parser named txt can be found. -/
def linesCall (parser : Str) : LifecycleCall :=
  { job := feedJob (.error (.leaf (foreignExc "RuntimeError".toList []))) ()
    source := linesSource parser
    loads := fun _ ref =>
      match ref with
      | .parser name _ =>
          if name = "txt".toList then .ok ()
          else .error (ClassName.pluginLoadError.exc
            ("no plugin '".toList ++ name ++ "' in group 'cti.parsers'".toList))
      | _ => .ok ()
    acloses := fun _ => .ok () }

/-- The connector has been made and its parser cannot be found. -/
theorem lines_stranded :
    ∃ (sh : Shared) (l : Lifecycle (linesCall "nope".toList).job.pipeline) (e : Exc),
      CallRun (linesCall "nope".toList) false sh l ∧
        l.execution.phase = .ended (.error (.leaf e)) ∧ l.reports = [.admitted] ∧
        l.made = [.connector "http_txt_lines".toList []] ∧ l.closed = [] := by
  have admitted : CallRun (linesCall "nope".toList) false _ _ :=
    .step (.start feedShared) (.run _ _ _ _ (Or.inl rfl) (.permit _ _ 0 _ rfl rfl))
  have stopped := CallRun.step admitted (.buildFail _ _ _ _ rfl rfl)
  exact ⟨_, _, _, stopped, rfl, rfl, rfl, rfl⟩

/-- The connector of that source is made and never closed. -/
theorem execute_releases_stranded :
    ∃ (sh : Shared) (l : Lifecycle (linesCall "nope".toList).job.pipeline)
      (exit : Except ExcTree RunState), CallRun (linesCall "nope".toList) false sh l ∧
        l.execution.phase = .ended exit ∧ .admitted ∈ l.reports ∧ ¬ l.Released := by
  obtain ⟨sh, l, e, run, ended, reports, made, closed⟩ := lines_stranded
  refine ⟨sh, l, _, run, ended, by rw [reports]; exact List.mem_singleton_self _, ?_⟩
  intro released
  have once := released 0 (by rw [made]; exact Nat.one_pos)
  rw [closed] at once
  cases once

/-- A call for the source with its own parser, which cannot open its run. -/
theorem lines_closed :
    ∃ (sh : Shared) (l : Lifecycle (linesCall "txt".toList).job.pipeline),
      CallRun (linesCall "txt".toList) false sh l ∧ l.execution.phase = .ended (.ok .failed) ∧
        l.reports = [.admitted, .onFailure] := by
  have admitted : CallRun (linesCall "txt".toList) false _ _ :=
    .step (.start feedShared) (.run _ _ _ _ (Or.inl rfl) (.permit _ _ 0 _ rfl rfl))
  have built := CallRun.step admitted (.build _ _ _ _ rfl rfl)
  have failed := CallRun.step built (.run _ _ _ _ (Or.inr rfl)
    (.openFail _ _ ⟨foreignExc "OperationalError".toList [], rfl, rfl⟩ rfl))
  have reported := CallRun.step failed (.run _ _ _ _ (Or.inr rfl) (.failOther _ _ _ 0 rfl rfl rfl))
  have closed := CallRun.step reported (.close _ _ (.ok .failed) rfl)
  exact ⟨_, _, closed, rfl, rfl⟩

theorem execute_releases_lines :
    ∃ (sh : Shared) (l : Lifecycle (linesCall "txt".toList).job.pipeline),
      CallRun (linesCall "txt".toList) false sh l ∧ l.Released := by
  obtain ⟨sh, l, run, ended, reports⟩ := lines_closed
  have admitted : BreakerReport.admitted ∈ l.reports := by
    rw [reports]
    exact List.mem_cons_self
  refine ⟨sh, l, run, (execute_releases run ended admitted).mpr (Or.inr ⟨_, _, rfl, ?_⟩)⟩
  intro plugin _ tree raised
  cases raised

end Cti
