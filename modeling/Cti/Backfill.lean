import Cti.FetchState

set_option autoImplicit false

/- `cti backfill`: the watermark of a source is wiped in one transaction, and a run that is
started afterwards reads it in another, while other runs of the source go on. -/
namespace Cti

open Py (Str)

variable {ι : Type} [DecidableEq ι]

/-- The run has not been opened. -/
def Execution.Unopened {P : PipelineSystem} (x : Execution P) : Prop :=
  match x.phase with
  | .admitting => True
  | .building => True
  | .opening => True
  | _ => False

/-- The run that the backfill launches, and the other calls on whatever workers. -/
def backfillJobs (own : Job) (others : ι → Job) : Option ι → Job
  | none => own
  | some i => others i

/-- Where the command stands: before its transaction, in it with what it has read of the
watermark, or past it. -/
inductive BackfillStage where
  | reading
  | writing (watermark : Option Dict)
  | launched

section command

variable (own : Job) (others : ι → Job)

structure BackfillState where
  manager : Manager (backfillJobs own others)
  stage : BackfillStage

/-- What the transaction writes. An assignment that changes nothing is not written. -/
def wipe (db : Db) (sourceId : Str) : Option Dict → Db
  | some [] => db
  | _ => db.setWatermark sourceId []

def Manager.setDb {jobs : Option ι → Job} (m : Manager jobs) (db : Db) : Manager jobs :=
  { m with shared := m.shared.setDb db }

/-- One step; the label says whose it is. -/
inductive BackfillStep : BackfillState own others → Option (Option ι) → BackfillState own others →
    Prop
  | read (s : BackfillState own others) (watermark : Option Dict) (stage : s.stage = .reading)
      (found : s.manager.shared.db.watermark own.sourceId = some watermark) :
      BackfillStep s none ⟨s.manager, .writing watermark⟩
  | missing (s : BackfillState own others) (stage : s.stage = .reading)
      (none' : s.manager.shared.db.watermark own.sourceId = none) :
      BackfillStep s none ⟨s.manager, .launched⟩
  | write (s : BackfillState own others) (watermark : Option Dict)
      (stage : s.stage = .writing watermark) :
      BackfillStep s none
        ⟨s.manager.setDb (wipe s.manager.shared.db own.sourceId watermark), .launched⟩
  | call (s : BackfillState own others) (i : Option ι) (m : Manager (backfillJobs own others))
      (step : ManagerStep _ s.manager i m) (launched : i = none → s.stage = .launched) :
      BackfillStep s (some i) ⟨m, s.stage⟩

/-- A watermark that makes a fetch conditional. -/
def Conditional (watermark : Dict) : Prop :=
  (∃ value, watermark.get "etag".toList = some value ∧ value.truthy = true) ∨
    ∃ value, watermark.get "last_modified".toList = some value ∧ value.truthy = true

variable {own others}

/-- The wipe stands, or will not be written, and the run of the backfill has not been opened. -/
def BackfillState.Exposed (s : BackfillState own others) : Prop :=
  match s.stage with
  | .reading => False
  | .writing watermark => watermark = some []
  | .launched => (s.manager.execution none).Unopened

/-- Another run of the source commits a success, with a watermark that makes fetches
conditional. -/
def Restores (s : BackfillState own others) (label : Option (Option ι))
    (s' : BackfillState own others) : Prop :=
  ∃ i result attempt row, label = some (some i) ∧
    (s.manager.execution (some i)).phase = .finalizing result attempt ∧
    result.state = .success ∧ Conditional result.watermark ∧
    s.manager.shared.db.run (others i).runId = some row ∧ row.sourceId = own.sourceId ∧
    (s'.manager.execution (some i)).phase = .reporting .success

omit [DecidableEq ι] in
theorem not_restores {s s' : BackfillState own others} {label : Option (Option ι)}
    (alone : ∀ i, label ≠ some (some i)) : ¬ Restores s label s' := by
  rintro ⟨i, _, _, _, same, _⟩
  exact alone i same

/-- The runs in which no other run of the source restores its watermark between the wipe and
the opening of the backfill's own run. -/
def Undisturbed (s s' : BackfillState own others) : Prop :=
  ∃ label, BackfillStep own others s label s' ∧ (s.Exposed → ¬ Restores s label s')

/-- No fetch of the source would be conditional. -/
def Db.Clean (db : Db) (sourceId : Str) : Prop :=
  ∀ watermark, db.watermark sourceId = some (some watermark) → ¬ Conditional watermark

theorem not_conditional_nil : ¬ Conditional [] := by
  rintro (⟨value, found, _⟩ | ⟨value, found, _⟩)
  · cases found
  · cases found

omit [DecidableEq ι] in
theorem Db.Clean.congr {db db' : Db} {sourceId : Str} (clean : db.Clean sourceId)
    (same : db'.watermark sourceId = db.watermark sourceId) : db'.Clean sourceId := by
  unfold Db.Clean
  rw [same]
  exact clean

omit [DecidableEq ι] in
theorem Db.setWatermark_self (db : Db) (sourceId : Str) (watermark : Dict) :
    (db.setWatermark sourceId watermark).watermark sourceId =
      (db.watermark sourceId).map fun _ => some watermark := by
  unfold Db.watermark Db.source Db.setWatermark
  have ids : ∀ row : SourceRow, (if row.id = sourceId then
      { row with watermark := some watermark } else row).id = row.id := by
    intro row
    split <;> rfl
  simp only [List.find?_map, Function.comp_def, ids, Option.map_map]
  cases found : db.sources.find? fun row => row.id = sourceId with
  | none => rfl
  | some row =>
      have hit : row.id = sourceId := by simpa using List.find?_some found
      simp [hit]

omit [DecidableEq ι] in
theorem Db.clean_setWatermark (db : Db) (sourceId : Str) {watermark : Dict}
    (plain : ¬ Conditional watermark) : (db.setWatermark sourceId watermark).Clean sourceId := by
  intro stored found
  rw [Db.setWatermark_self] at found
  cases before : db.watermark sourceId with
  | none =>
      rw [before] at found
      cases found
  | some old =>
      rw [before] at found
      cases found
      exact plain

/-- A transaction of the command leaves the source clean. -/
theorem wipe_clean {db : Db} {sourceId : Str} {watermark : Option Dict}
    (unwritten : watermark = some [] → db.Clean sourceId) : (wipe db sourceId watermark).Clean sourceId := by
  unfold wipe
  split
  · exact unwritten rfl
  · exact db.clean_setWatermark sourceId not_conditional_nil

/-- Only the commit of a success makes fetches conditional. -/
theorem JobStep.clean {job : Job} {sh sh' : Shared} {x x' : Execution job.pipeline}
    (step : JobStep job sh x sh' x') {sourceId : Str} (clean : sh.db.Clean sourceId)
    (plain : ∀ result attempt row, x.phase = .finalizing result attempt → result.state = .success →
      sh.db.run job.runId = some row → row.sourceId = sourceId →
      x'.phase = .reporting .success → ¬ Conditional result.watermark) : sh'.db.Clean sourceId := by
  by_cases moved : sh'.db.watermark sourceId = sh.db.watermark sourceId
  · exact clean.congr moved
  · cases step with
    | openRun now db row watermark attempt phase opened start =>
        obtain ⟨rfl, _⟩ := openRun_ok opened
        exact absurd (Db.watermark_congr rfl sourceId) moved
    | finalize result attempt row now phase found =>
        obtain ⟨success, same⟩ := finalizeRun_watermark moved
        subst same
        have written : finalizeRun sh.db row result now =
            (sh.db.setRun (row.finalized result now)).setWatermark row.sourceId
              result.watermark := by
          simp [finalizeRun, success]
        change (finalizeRun sh.db row result now).Clean row.sourceId
        rw [written]
        refine Db.clean_setWatermark _ _ ?_
        exact plain result attempt row phase success found rfl (by rw [success])
    | bury e traceback now phase => exact absurd (Db.watermark_congr rfl sourceId) moved
    | _ => exact absurd rfl moved

/-- The snapshot of a clean source. -/
theorem openRun_clean {db db' : Db} {sourceId : Str} {runId : Uuid} {now : Int} {row : FeedRunRow}
    {watermark : Dict} (opened : openRun db sourceId runId now = .ok (db', row, watermark))
    (clean : db.Clean sourceId) : ¬ Conditional watermark := by
  unfold openRun at opened
  split at opened
  · cases opened
  · rename_i source found
    split at opened
    · cases opened
    · cases opened
      cases stored : source.watermark with
      | none => exact not_conditional_nil
      | some watermark =>
          refine clean watermark ?_
          unfold Db.watermark
          rw [found, Option.map_some, stored]

end command

section launched

variable {S : Type} (R : Runtime)

/-- The attempts of the run start from a context that makes no fetch conditional. -/
def Execution.FullPull {spec : PipelineSpec S} (x : Execution (netSystem R spec)) : Prop :=
  match x.phase with
  | .attempting _ (a : Attempt R spec) => ¬ Conditional a.ctx.watermark
  | _ => True

variable {R}

theorem JobStep.unopened {job : Job} {sh sh' : Shared} {x x' : Execution job.pipeline}
    (step : JobStep job sh x sh' x') (unopened : x'.Unopened) : x.Unopened ∧ sh'.db = sh.db := by
  unfold Execution.Unopened at unopened ⊢
  cases step with
  | permit now breaker phase admitted =>
      rw [phase]
      exact ⟨trivial, rfl⟩
  | build phase =>
      rw [phase]
      exact ⟨trivial, rfl⟩
  | _ => exact unopened.elim

theorem JobStep.fullPull {feed : Feed S} {sh sh' : Shared} {x x' : Execution (feed.job R).pipeline}
    (step : JobStep (feed.job R) sh x sh' x') (full : Execution.FullPull R x)
    (clean : x.Unopened → sh.db.Clean feed.sourceId) : Execution.FullPull R x' := by
  unfold Execution.FullPull at full
  cases step with
  | openRun now db row watermark attempt phase opened start =>
      obtain ⟨clock, env, rfl⟩ := start
      refine openRun_clean opened (clean ?_)
      unfold Execution.Unopened
      rw [phase]
      trivial
  | attempt k attempt attempt' phase taken =>
      rw [phase] at full
      obtain ⟨label, t, _, rfl⟩ := taken
      exact full
  | retry k attempt attempt' outcome started finished tree phase settled raised retryable left start =>
      rw [not_retryable raised] at retryable
      cases retryable
  | _ => trivial

variable {feed : Feed S} {others : ι → Job}

/-- As long as the wipe may still be undone the source is clean, and the run of the backfill
pulls in full. -/
structure BackfillState.Inv (s : BackfillState (feed.job R) others) : Prop where
  clean : s.Exposed → s.manager.shared.db.Clean feed.sourceId
  full : Execution.FullPull R (s.manager.execution none)

theorem BackfillState.Inv.step {s s' : BackfillState (feed.job R) others} (inv : s.Inv)
    (undisturbed : Undisturbed s s') : s'.Inv := by
  obtain ⟨label, step, quiet⟩ := undisturbed
  cases step with
  | read watermark stage found =>
      refine ⟨?_, inv.full⟩
      intro exposed stored present
      have empty : watermark = some [] := exposed
      have same := found.symm.trans present
      rw [empty] at same
      cases same
      exact not_conditional_nil
  | missing stage none' =>
      refine ⟨?_, inv.full⟩
      intro _ stored present
      cases none'.symm.trans present
  | write watermark stage =>
      refine ⟨?_, inv.full⟩
      intro _
      refine wipe_clean fun unwritten => inv.clean ?_
      unfold BackfillState.Exposed
      rw [stage]
      exact unwritten
  | call i m step launched =>
      obtain ⟨taken, rest⟩ := step.inv
      cases i with
      | none =>
          have stage := launched rfl
          have exposed : (s.manager.execution none).Unopened → s.Exposed := by
            unfold BackfillState.Exposed
            rw [stage]
            exact id
          refine ⟨?_, taken.fullPull inv.full fun unopened => inv.clean (exposed unopened)⟩
          intro still
          unfold BackfillState.Exposed at still
          rw [show (⟨m, s.stage⟩ : BackfillState (feed.job R) others).stage = .launched from stage]
            at still
          obtain ⟨unopened, same⟩ := taken.unopened still
          change m.shared.db.Clean feed.sourceId
          rw [same]
          exact inv.clean (exposed unopened)
      | some i =>
          have own : m.execution none = s.manager.execution none := rest none nofun
          refine ⟨?_, ?_⟩
          · intro still
            have exposed : s.Exposed := by
              unfold BackfillState.Exposed at still ⊢
              rw [own] at still
              exact still
            refine taken.clean (inv.clean exposed) ?_
            intro result attempt row phase success found source after conditional
            exact quiet exposed ⟨i, result, attempt, row, rfl, phase, success, conditional, found,
              source, after⟩
          · change Execution.FullPull R (m.execution none)
            rw [own]
            exact inv.full

theorem BackfillState.Inv.reaches {sh : Shared} {s : BackfillState (feed.job R) others}
    (run : Relation.ReflTransGen Undisturbed ⟨.init _ sh, .reading⟩ s) : s.Inv := by
  induction run with
  | refl => exact ⟨fun exposed => exposed.elim, trivial⟩
  | tail _ last ih => exact ih.step last

end launched

section request

variable {S : Type} (R : Runtime)

/-- A feed whose connector is an HTTP connector. -/
def Feed.http (feed : Feed S) (source : HttpSource S) (upstream : Upstream) : Feed S :=
  { feed with spec := source.pipeline R upstream }

variable {R}

/-- The request that an attempt sends: its fetch sends one, on the context that the attempt
starts with. -/
def HttpSource.request (source : HttpSource S) {upstream : Upstream}
    (a : Attempt R (source.pipeline R upstream)) : Request :=
  httpRequest R source.config a.ctx.watermark

theorem httpRequest_unconditional {watermark : Dict} (plain : ¬ Conditional watermark)
    (config : HttpConnectorConfig) :
    httpRequest R config watermark = httpRequest R config [] := by
  obtain ⟨etag, modified⟩ := not_or.mp plain
  have skipped : ∀ key name headers,
      (¬ ∃ value, watermark.get key = some value ∧ value.truthy = true) →
      conditionalHeader R watermark key name headers = conditionalHeader R [] key name headers := by
    intro key name headers falsy
    unfold conditionalHeader
    cases found : watermark.get key with
    | none => rfl
    | some value =>
        have unset : ¬ value.truthy = true := fun set => falsy ⟨value, found, set⟩
        simp [unset, Dict.get]
  unfold httpRequest
  rw [skipped _ _ _ modified, skipped _ _ _ etag]

/-- As long as no other run of the source commits a success with stamps between the wipe and the
opening of the backfill's own run, the requests of that run carry nothing that a watermark adds. -/
theorem backfill_unconditional (feed : Feed S) (source : HttpSource S) (upstream : Upstream)
    (others : ι → Job) {sh : Shared}
    {s : BackfillState ((feed.http R source upstream).job R) others}
    (run : Relation.ReflTransGen Undisturbed ⟨.init _ sh, .reading⟩ s) (k : Nat)
    (a : Attempt R (source.pipeline R upstream))
    (attempting : (s.manager.execution none).phase = .attempting k a) :
    source.request a = httpRequest R source.config [] := by
  have full := (BackfillState.Inv.reaches run).full
  unfold Execution.FullPull at full
  rw [attempting] at full
  exact httpRequest_unconditional full source.config

/-- A source over HTTP, with the default policies. -/
def plainSource : HttpSource Unit where
  codecs := ⟨.ok, fun _ => .ok [], fun content _ => .ok content⟩
  defaultContentType := "text/plain".toList
  config := plainConfig
  spec := strictSpec

abbrev plainFeed : Feed Unit := (mutexFeed ()).http asciiRuntime plainSource taggedUpstream

/-- A run of that source on another worker, which has fetched a list with an entity tag. -/
def taggedResult : RunResult :=
  { runId := 2, sourceId := "feed".toList, state := .success, startedAt := 0, finishedAt := 0,
    fetchedBytes := 0, recordsIn := 0, recordsOut := 0, error := none,
    watermark := [("etag".toList, .str "v1".toList)], rawUri := none }

def taggedJob : Unit → Job := fun _ =>
  { worker := 1
    sourceId := "feed".toList
    runId := 2
    circuit := ⟨5, 300⟩
    maxAttempts := 5
    pipeline := scripted (.ok taggedResult) }

abbrev TaggedBackfill : Type := BackfillState (plainFeed.job asciiRuntime) taggedJob

/-- That run commits after the wipe, and before the run of the backfill is opened. -/
theorem backfill_conditional :
    ∃ (s : TaggedBackfill) (a : Attempt asciiRuntime (plainSource.pipeline asciiRuntime taggedUpstream)),
      Relation.ReflTransGen (fun s s' => ∃ label, BackfillStep _ _ s label s')
        ⟨.init _ feedShared, .reading⟩ s ∧
      (s.manager.execution none).phase = .attempting 1 a ∧ plainSource.config.headers = [] ∧
      (plainSource.request a).headers = [("If-None-Match".toList, "v1".toList)] := by
  have admitted : Relation.ReflTransGen (fun s s' : TaggedBackfill => ∃ label, BackfillStep _ _ s label s')
      ⟨.init _ feedShared, .reading⟩ _ :=
    .single ⟨_, .call _ (some ()) _ (.mk _ (some ()) _ _ (.permit _ _ 0 _ rfl rfl)) nofun⟩
  have built := admitted.tail
    ⟨_, .call _ (some ()) _ (.mk _ (some ()) _ _ (.build _ _ rfl)) nofun⟩
  have opened := built.tail ⟨_, .call _ (some ()) _ (.mk _ (some ()) _ _
    (.openRun _ _ 0 _ _ _ _ rfl rfl rfl)) nofun⟩
  have fetched := opened.tail ⟨_, .call _ (some ()) _ (.mk _ (some ()) _ _
    (.succeed _ _ 1 _ _ 0 0 taggedResult rfl rfl rfl)) nofun⟩
  have read := fetched.tail ⟨_, .read _ _ rfl rfl⟩
  have wiped := read.tail ⟨_, .write _ _ rfl⟩
  have restored := wiped.tail ⟨_, .call _ (some ()) _ (.mk _ (some ()) _ _
    (.finalize _ _ taggedResult _ _ 0 rfl rfl)) nofun⟩
  have admitted' := restored.tail ⟨_, .call _ none _ (.mk _ none _ _ (.permit _ _ 0 _ rfl rfl))
    fun _ => rfl⟩
  have built' := admitted'.tail ⟨_, .call _ none _ (.mk _ none _ _ (.build _ _ rfl)) fun _ => rfl⟩
  have opened' := built'.tail ⟨_, .call _ none _ (.mk _ none _ _
    (.openRun _ _ 0 _ _ _ _ rfl rfl ⟨zeroClock, (), rfl⟩)) fun _ => rfl⟩
  exact ⟨_, _, opened', rfl, rfl, rfl⟩

/-- The database after a run that has stored an entity tag. -/
def taggedShared : Shared :=
  ⟨fun _ _ => .init, ⟨[⟨"feed".toList, some taggedResult.watermark⟩], [], []⟩⟩

/-- A backfill of that source on its own. -/
theorem backfill_unconditional_alone :
    ∃ (s : TaggedBackfill) (a : Attempt asciiRuntime (plainSource.pipeline asciiRuntime taggedUpstream)),
      Relation.ReflTransGen Undisturbed ⟨.init _ taggedShared, .reading⟩ s ∧
      (s.manager.execution none).phase = .attempting 1 a ∧
      plainSource.request a = httpRequest asciiRuntime plainConfig [] := by
  have read : Relation.ReflTransGen (fun s s' : TaggedBackfill => Undisturbed s s')
      ⟨.init _ taggedShared, .reading⟩ _ :=
    .single ⟨none, .read _ _ rfl rfl, fun _ => not_restores nofun⟩
  have wiped := read.tail ⟨none, .write _ _ rfl, fun _ => not_restores nofun⟩
  have admitted := wiped.tail ⟨some none, .call _ none _ (.mk _ none _ _ (.permit _ _ 0 _ rfl rfl))
    fun _ => rfl, fun _ => not_restores nofun⟩
  have built := admitted.tail ⟨some none, .call _ none _ (.mk _ none _ _ (.build _ _ rfl)) fun _ => rfl,
    fun _ => not_restores nofun⟩
  have opened := built.tail ⟨some none, .call _ none _ (.mk _ none _ _
    (.openRun _ _ 0 _ _ _ _ rfl rfl ⟨zeroClock, (), rfl⟩)) fun _ => rfl, fun _ => not_restores nofun⟩
  have plain := backfill_unconditional (mutexFeed ()) plainSource taggedUpstream taggedJob opened 1
  exact ⟨_, _, opened, rfl, plain _ rfl⟩

end request

end Cti
