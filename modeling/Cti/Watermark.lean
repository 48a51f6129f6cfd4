import Cti.Contracts
import Cti.Delivery

set_option autoImplicit false

namespace Cti

open Py (Str)
open TaskNet (Net)

variable {S : Type} (R : Runtime)

/-- An attempt of a pipeline on a context. -/
def Attempt (spec : PipelineSpec S) : Type :=
  (run : Clock × RunContext) × (pipelineNet R spec run.1 run.2).State

section attempt

variable {R} {spec : PipelineSpec S}

def Attempt.clock (a : Attempt R spec) : Clock := a.1.1

def Attempt.ctx (a : Attempt R spec) : RunContext := a.1.2

def Attempt.state (a : Attempt R spec) : (pipelineNet R spec a.clock a.ctx).State := a.2

end attempt

/-- The attempt started afresh and came to where it is, whatever failed in it. -/
def Attempt.Reached {spec : PipelineSpec S} (a : Attempt R spec) : Prop :=
  ∃ env, (pipelineNet R spec a.clock a.ctx).Reaches (fun _ _ => True)
    ((pipelineNet R spec a.clock a.ctx).init (World.fresh a.ctx env)) a.state

/-- `Pipeline.run` as the runner sees it. -/
def netSystem (spec : PipelineSpec S) : PipelineSystem where
  State := Attempt R spec
  Start ctx a := ∃ clock env, a = ⟨(clock, ctx), (pipelineNet R spec clock ctx).init (.fresh ctx env)⟩
  Step a a' := ∃ label t, (pipelineNet R spec a.clock a.ctx).Step a.state label t ∧
    a' = ⟨(a.clock, a.ctx), t⟩
  Outcome a outcome := (pipelineNet R spec a.clock a.ctx).Ended a.state ∧
    ∃ started finished, outcome = pipelineResult started finished a.state
  context a := a.state.world.ctx

/-- A configured source and a call for it. -/
structure Feed (S : Type) where
  worker : Nat
  sourceId : Str
  runId : Uuid
  circuit : CircuitPolicy
  maxAttempts : Int
  spec : PipelineSpec S

def Feed.job (feed : Feed S) : Job where
  worker := feed.worker
  sourceId := feed.sourceId
  runId := feed.runId
  circuit := feed.circuit
  maxAttempts := feed.maxAttempts
  pipeline := netSystem R feed.spec

/-- An attempt under way came there by its own steps, and what is to be finalized is the
result of the attempt. -/
def Execution.Grounded {spec : PipelineSpec S} (x : Execution (netSystem R spec)) : Prop :=
  match x.phase with
  | .attempting _ a => Attempt.Reached R a
  | .finalizing result a => Attempt.Reached R a ∧ ∃ outcome started finished,
      (netSystem R spec).Outcome a outcome ∧
        runWithOutcome ((netSystem R spec).context a) started finished outcome = .ok result
  | _ => True

variable {R}

theorem start_reached {spec : PipelineSpec S} {ctx : RunContext} {a : Attempt R spec}
    (start : (netSystem R spec).Start ctx a) : Attempt.Reached R a := by
  obtain ⟨clock, env, rfl⟩ := start
  exact ⟨env, .refl⟩

theorem step_reached {spec : PipelineSpec S} {a a' : Attempt R spec}
    (step : (netSystem R spec).Step a a') (reached : Attempt.Reached R a) :
    Attempt.Reached R a' := by
  obtain ⟨label, t, taken, rfl⟩ := step
  obtain ⟨env, run⟩ := reached
  exact ⟨env, run.tail ⟨label, trivial, taken⟩⟩

theorem outcome_clean {spec : PipelineSpec S} {a : Attempt R spec} {result : RunResult}
    (settled : (netSystem R spec).Outcome a (.ok result)) : a.state.errors = [] := by
  obtain ⟨_, _, _, outcome⟩ := settled
  unfold pipelineResult at outcome
  split at outcome
  · assumption
  · cases outcome

/-- An attempt that returns has published everything that its payloads come to. -/
theorem outcome_published {spec : PipelineSpec S} {parse : RawPayload → List Record}
    {enrich : List (Indicator → Option Indicator)} (computes : Computes spec parse enrich)
    {a : Attempt R spec} {env : S} {result : RunResult}
    (run : (pipelineNet R spec a.clock a.ctx).Reaches (fun _ _ => True)
      ((pipelineNet R spec a.clock a.ctx).init (World.fresh a.ctx env)) a.state)
    (settled : (netSystem R spec).Outcome a (.ok result)) :
    a.state.world.published.flatten =
      sequentialRun R spec.normalize a.clock a.ctx parse enrich a.state.world.fetched := by
  rw [ended_published R a.clock a.ctx computes run settled.1 (outcome_clean settled),
    persistBatches_flatten, List.nil_append]

theorem grounded_step {feed : Feed S} {sh sh' : Shared} {x x' : Execution (feed.job R).pipeline}
    (step : JobStep (feed.job R) sh x sh' x') (grounded : Execution.Grounded R x) :
    Execution.Grounded R x' := by
  unfold Execution.Grounded at grounded
  cases step with
  | openRun now db row watermark attempt phase opened start => exact start_reached start
  | attempt k attempt attempt' phase taken =>
      rw [phase] at grounded
      exact step_reached taken grounded
  | succeed k attempt outcome started finished result phase settled returned =>
      rw [phase] at grounded
      exact ⟨grounded, outcome, started, finished, settled, returned⟩
  | retry k attempt attempt' outcome started finished tree phase settled raised retryable left start =>
      exact start_reached start
  | _ => trivial

/-- Only the finalizing step of a successful result moves a watermark, that of the source of
its row. -/
theorem JobStep.watermark_moved {job : Job} {sh sh' : Shared} {x x' : Execution job.pipeline}
    (step : JobStep job sh x sh' x') {sourceId : Str}
    (moved : sh'.db.watermark sourceId ≠ sh.db.watermark sourceId) :
    ∃ result attempt row, x.phase = .finalizing result attempt ∧ result.state = .success ∧
      sh.db.run job.runId = some row ∧ sourceId = row.sourceId ∧
      x'.phase = .reporting .success := by
  cases step with
  | openRun now db row watermark attempt phase opened start =>
      obtain ⟨rfl, _⟩ := openRun_ok opened
      exact absurd (Db.watermark_congr rfl sourceId) moved
  | finalize result attempt row now phase found =>
      obtain ⟨success, source⟩ := finalizeRun_watermark moved
      exact ⟨result, attempt, row, phase, success, found, source, by rw [success]⟩
  | bury e traceback now phase => exact absurd (Db.watermark_congr rfl sourceId) moved
  | _ => exact absurd rfl moved

/-- A step leaves every run row with its source. -/
theorem JobStep.run_source {job : Job} {sh sh' : Shared} {x x' : Execution job.pipeline}
    (step : JobStep job sh x sh' x') {id : Uuid} {old : FeedRunRow}
    (found : sh.db.run id = some old) :
    ∃ new, sh'.db.run id = some new ∧ new.sourceId = old.sourceId := by
  cases step with
  | openRun now db row watermark attempt phase opened start =>
      exact (openRun_source opened).2 id old found
  | finalize result attempt row now phase own => exact finalizeRun_source own found
  | _ => exact ⟨old, found, rfl⟩

/-- The call has opened its run and has not finalized it. -/
def Execution.InRun {P : PipelineSystem} (x : Execution P) : Prop :=
  match x.phase with
  | .attempting _ _ => True
  | .finalizing _ _ => True
  | _ => False

/-- The row of the call is a row of its source. -/
def Owns (job : Job) (db : Db) : Prop :=
  ∃ row, db.run job.runId = some row ∧ row.sourceId = job.sourceId

theorem JobStep.owns {job : Job} {sh sh' : Shared} {x x' : Execution job.pipeline}
    (step : JobStep job sh x sh' x') (owns : x.InRun → Owns job sh.db) (inRun : x'.InRun) :
    Owns job sh'.db := by
  have kept : x.InRun → Owns job sh'.db := by
    intro before
    obtain ⟨row, found, source⟩ := owns before
    obtain ⟨row', found', same⟩ := step.run_source found
    exact ⟨row', found', same.trans source⟩
  unfold Execution.InRun at kept
  cases step with
  | openRun now db row watermark attempt phase opened start => exact (openRun_source opened).1
  | attempt k attempt attempt' phase taken => exact kept (by rw [phase]; trivial)
  | succeed k attempt outcome started finished result phase settled returned =>
      exact kept (by rw [phase]; trivial)
  | retry k attempt attempt' outcome started finished tree phase settled raised retryable left start =>
      exact kept (by rw [phase]; trivial)
  | _ => exact inRun.elim

/-- In every run a call that has opened its run has a row of its source. -/
theorem manager_owns {ι : Type} [DecidableEq ι] {jobs : ι → Job} {sh : Shared} {m : Manager jobs}
    (run : ManagerReaches jobs (.init jobs sh) m) :
    ∀ i, (m.execution i).InRun → Owns (jobs i) m.shared.db := by
  induction run with
  | refl => exact fun _ inRun => inRun.elim
  | tail _ last ih =>
      obtain ⟨j, taken⟩ := last
      obtain ⟨own, others⟩ := taken.inv
      intro i
      by_cases self : i = j
      · subst self
        exact own.owns (ih i)
      · rw [others i self]
        intro inRun
        obtain ⟨row, found, source⟩ := ih i inRun
        obtain ⟨row', found', same⟩ := own.run_source found
        exact ⟨row', found', same.trans source⟩

/-- The call is about to end in success, or has. -/
def Execution.Succeeding {P : PipelineSystem} (x : Execution P) : Prop :=
  match x.phase with
  | .reporting state => state = .success
  | .closing exit => exit = .ok .success
  | .ended exit => exit = .ok .success
  | _ => False

theorem succeeding_step {job : Job} {sh sh' : Shared} {x x' : Execution job.pipeline}
    (step : JobStep job sh x sh' x') (succeeding : x.Succeeding) : x'.Succeeding := by
  unfold Execution.Succeeding at succeeding
  cases step with
  | report state now phase =>
      rw [phase] at succeeding
      cases succeeding
      rfl
  | close exit phase =>
      rw [phase] at succeeding
      exact succeeding
  | _ =>
      rw [‹x.phase = _›] at succeeding
      exact succeeding.elim

theorem succeeding_reaches {ι : Type} [DecidableEq ι] {jobs : ι → Job} {m m' : Manager jobs}
    (run : ManagerReaches jobs m m') {i : ι} (succeeding : (m.execution i).Succeeding) :
    (m'.execution i).Succeeding := by
  induction run with
  | refl => exact succeeding
  | tail _ last ih =>
      obtain ⟨j, taken⟩ := last
      obtain ⟨own, others⟩ := taken.inv
      by_cases self : i = j
      · subst self
        exact succeeding_step own ih
      · rw [others i self]
        exact ih

/-- A step that moves the watermark of a source finalizes a run whose pipeline has ended
without an error and has published everything that its payloads come to; and that run ends
in success, if it ends. -/
theorem watermark_durable {ι : Type} [DecidableEq ι] (feeds : ι → Feed S)
    (parse : ι → RawPayload → List Record) (enrich : ι → List (Indicator → Option Indicator))
    (computes : ∀ i, Computes (feeds i).spec (parse i) (enrich i)) (sh : Shared)
    {m m' : Manager fun i => (feeds i).job R}
    (run : ManagerReaches _ (.init _ sh) m) {i : ι} (step : ManagerStep _ m i m') {sourceId : Str}
    (moved : m'.shared.db.watermark sourceId ≠ m.shared.db.watermark sourceId) :
    sourceId = (feeds i).sourceId ∧
    (∃ (result : RunResult) (a : Attempt R (feeds i).spec),
      (m.execution i).phase = .finalizing result a ∧ result.state = .success ∧
      (netSystem R (feeds i).spec).Outcome a (.ok result) ∧
      a.state.world.published.flatten = sequentialRun R (feeds i).spec.normalize a.clock a.ctx
        (parse i) (enrich i) a.state.world.fetched) ∧
      ∀ later, ManagerReaches _ m' later → (later.execution i).Succeeding := by
  have grounded := manager_local
    (fun i (x : Execution (netSystem R (feeds i).spec)) => Execution.Grounded R x)
    (fun _ => trivial) (fun i _ _ _ _ taken before => grounded_step taken before) run i
  have owns := manager_owns run i
  cases step with
  | mk sh' x taken =>
      obtain ⟨result, a, row, phase, success, found, source, after⟩ := taken.watermark_moved moved
      refine ⟨?_, ?_, ?_⟩
      · obtain ⟨row', found', same⟩ := owns (by simp [Execution.InRun, phase])
        rw [found] at found'
        cases found'
        exact source.trans same
      · unfold Execution.Grounded at grounded
        rw [phase] at grounded
        obtain ⟨⟨env, reached⟩, outcome, started, finished, settled, returned⟩ := grounded
        rcases runWithOutcome_ok returned with same | ⟨_, failed, _⟩
        · subst same
          refine ⟨result, a, phase, success, settled, ?_⟩
          exact outcome_published (computes i) reached settled
        · exact absurd success failed
      · intro later rest
        refine succeeding_reaches rest ?_
        dsimp only
        rw [Function.update_self, Execution.Succeeding, after]

/-- The steps of an attempt are steps of its call. -/
theorem manager_attempts {ι : Type} [DecidableEq ι] {feeds : ι → Feed S} {i : ι} {clock : Clock}
    {ctx : RunContext} {allowed} {s t : (pipelineNet R (feeds i).spec clock ctx).State}
    (run : (pipelineNet R (feeds i).spec clock ctx).Reaches allowed s t)
    {m : Manager fun i => (feeds i).job R} {k : Nat}
    (phase : (m.execution i).phase = .attempting k ⟨(clock, ctx), s⟩) :
    ∃ m', ManagerReaches _ m m' ∧ m'.shared = m.shared ∧
      (m'.execution i).phase = .attempting k ⟨(clock, ctx), t⟩ := by
  induction run with
  | refl => exact ⟨m, .refl, rfl, phase⟩
  | tail _ last ih =>
      obtain ⟨label, _, taken⟩ := last
      obtain ⟨m', before, same, now⟩ := ih
      refine ⟨_, before.tail ⟨i, .mk m' i _ _ (.attempt _ _ k _ _ now ⟨label, _, taken, rfl⟩)⟩, same, ?_⟩
      dsimp only
      rw [Function.update_self]
      rfl

/-- The only call on a fresh worker, for a source of mutexes. -/
def mutexFeed : Unit → Feed Unit := fun _ =>
  { worker := 0
    sourceId := "feed".toList
    runId := 1
    circuit := ⟨5, 300⟩
    maxAttempts := 5
    spec := mutexSpec }

abbrev MutexManager : Type := Manager fun i => (mutexFeed i).job asciiRuntime

/-- An attempt of that source. -/
def mutexAttempt (s : mutexNet.State) : Attempt asciiRuntime mutexSpec :=
  ⟨(zeroClock, feedContext), s⟩

/-- The call has opened its run and starts its first attempt. -/
theorem mutex_started :
    ∃ m : MutexManager, ManagerReaches _ (.init _ feedShared) m ∧
      m.shared.db = markRunning { feedShared.db with feedRuns := [feedRow] } feedRow ∧
      (m.execution ()).phase = .attempting 1 (mutexAttempt mutexStart) := by
  have admitted : ManagerReaches _ (.init _ feedShared : MutexManager) _ :=
    .single ⟨(), .mk _ () _ _ (.permit _ _ 0 _ rfl rfl)⟩
  have built := admitted.tail ⟨(), .mk _ () _ _ (.build _ _ rfl)⟩
  have opened := built.tail ⟨(), .mk _ () _ _ (.openRun _ _ 0 _ _ _ (mutexAttempt mutexStart) rfl
    feed_opened ⟨zeroClock, (), rfl⟩)⟩
  exact ⟨_, opened, rfl, rfl⟩

/-- The call is about to finalize a successful attempt. -/
theorem mutex_finalizing :
    ∃ (m : MutexManager) (result : RunResult) (a : Attempt asciiRuntime mutexSpec),
      ManagerReaches _ (.init _ feedShared) m ∧
      m.shared.db = markRunning { feedShared.db with feedRuns := [feedRow] } feedRow ∧
      (m.execution ()).phase = .finalizing result a ∧ result.state = .success := by
  obtain ⟨u, smooth, ended, _⟩ := mutex_delivered
  have clean := (Net.Healthy.reaches
    (pipelineLawful asciiRuntime mutexSpec zeroClock feedContext) smooth).clean
  obtain ⟨m, started, db, phase⟩ := mutex_started
  obtain ⟨m₁, attempted, same, phase₁⟩ := manager_attempts smooth phase
  obtain ⟨result, outcome, success⟩ : ∃ result, pipelineResult 0 0 u = .ok result ∧
      result.state = .success := by
    simp [pipelineResult, clean]
  have settled : (netSystem asciiRuntime mutexSpec).Outcome (mutexAttempt u) (.ok result) :=
    ⟨ended, 0, 0, outcome.symm⟩
  have last : JobStep ((mutexFeed ()).job asciiRuntime) m₁.shared (m₁.execution ()) m₁.shared
      ⟨.finalizing result (mutexAttempt u), (m₁.execution ()).outcomes ++ [.ok result]⟩ :=
    @JobStep.succeed ((mutexFeed ()).job asciiRuntime) m₁.shared (m₁.execution ()) 1
      (mutexAttempt u) (.ok result) 0 0 result phase₁ settled rfl
  refine ⟨_, result, mutexAttempt u, (started.trans attempted).tail ⟨(), .mk m₁ () _ _ last⟩,
    same ▸ db, ?_, success⟩
  dsimp only
  rw [Function.update_self]

/-- A run of that source moves its watermark, with its one mutex published. -/
theorem watermark_durable_mutex :
    ∃ (m m' : MutexManager) (result : RunResult) (a : Attempt asciiRuntime mutexSpec),
      ManagerReaches _ (.init _ feedShared) m ∧ ManagerStep _ m () m' ∧
      m'.shared.db.watermark "feed".toList ≠ m.shared.db.watermark "feed".toList ∧
      (m.execution ()).phase = .finalizing result a ∧
      a.state.world.published.flatten = sequentialRun asciiRuntime mutexSpec.normalize a.clock a.ctx
        (fun _ => [[("value".toList, .str "m".toList)]]) [] a.state.world.fetched := by
  obtain ⟨m, result, a, run, db, phase, success⟩ := mutex_finalizing
  have row : m.shared.db.run 1 = some { feedRow with state := .running } := by
    rw [db]
    exact feed_running
  have last : JobStep ((mutexFeed ()).job asciiRuntime) m.shared (m.execution ()) _ _ :=
    .finalize _ _ result a _ 0 phase row
  have moved : (finalizeRun m.shared.db { feedRow with state := .running } result 0).watermark
      "feed".toList ≠ m.shared.db.watermark "feed".toList := by
    simp [db, finalizeRun, success, Db.watermark, Db.source, Db.setWatermark, Db.setRun, markRunning,
      feedShared, feedRow]
  have durable := watermark_durable mutexFeed
    (fun _ _ => [[("value".toList, .str "m".toList)]]) (fun _ => []) (fun _ => mutexComputes)
    feedShared run (.mk m () _ _ last) moved
  obtain ⟨_, ⟨result', a', phase', _, _, published⟩, _⟩ := durable
  exact ⟨m, _, result', a', run, .mk m () _ _ last, moved, phase', published⟩

end Cti
