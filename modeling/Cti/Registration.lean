import Cti.Backfill
import Cti.Lifecycle
import Cti.Replay

set_option autoImplicit false

/- Which sources the database knows, over everything that the commands, the worker, the
scheduler and the API do. -/
namespace Cti

open Py (Str)

/-- `SourceRepo.upsert`, as far as it concerns the rows of the model. -/
def sourceUpsert (db : Db) (sourceId : Str) : Db :=
  match db.source sourceId with
  | some _ => db
  | none => { db with sources := db.sources ++ [⟨sourceId, none⟩] }

/-- The database after migration 0001. -/
def migratedDb : Db := ⟨[], [], []⟩

/-- Operations that write neither sources nor runs. -/
inductive Bystander where
  | migrate
  | ensurePartitions
  | workerStartup
  | schedulerStart
  | apiRequest
  | markReplayed

variable {ι : Type} [DecidableEq ι] (jobs : ι → Job)

/-- The calls of `execute` in all processes, the jobs in the queue, and which calls have been
started. -/
structure Deployment where
  manager : Manager jobs
  queue : List Str
  started : ι → Bool

/-- The calls on the freshly migrated database. -/
def Deployment.init : Deployment jobs :=
  ⟨.init jobs ⟨fun _ _ => .init, migratedDb⟩, [], fun _ => false⟩

def Deployment.start (s : Deployment jobs) (i : ι) (queue : List Str) : Deployment jobs :=
  { s with queue := queue, started := Function.update s.started i true }

variable (R : Runtime) (registry : List RegisteredSource)

/-- One operation. A backfill is a wipe that `run-once` follows. The API that `cti api` boots has
no queue, so that triggering a run does nothing. -/
inductive Operation : Deployment jobs → Deployment jobs → Prop
  | bystander (op : Bystander) (s : Deployment jobs) : Operation s s
  | enqueue (s : Deployment jobs) (source : RegisteredSource) (member : source ∈ registry) :
      Operation s { s with queue := s.queue ++ [source.id] }
  | runFeed (s : Deployment jobs) (i : ι) (source : RegisteredSource) (rest : List Str)
      (job : s.queue = source.id :: rest)
      (found : registryGet R registry source.id = .ok source)
      (own : (jobs i).sourceId = source.id) : Operation s (s.start jobs i rest)
  | runOnce (s : Deployment jobs) (i : ι) (source : RegisteredSource) (sourceId : Str)
      (found : registryGet R registry sourceId = .ok source)
      (own : (jobs i).sourceId = source.id) : Operation s (s.start jobs i s.queue)
  | wipe (s : Deployment jobs) (sourceId : Str) (watermark : Option Dict)
      (found : s.manager.shared.db.watermark sourceId = some watermark) :
      Operation s
        { s with
          manager :=
            { s.manager with
              shared := s.manager.shared.setDb (Cti.wipe s.manager.shared.db sourceId watermark) } }
  | replay (s : Deployment jobs) (i : ι) (source : RegisteredSource) (runId : Uuid)
      (row : FeedRunRow) (stored : s.manager.shared.db.run runId = some row)
      (archived : row.rawUri ≠ none ∧ row.rawUri ≠ some [])
      (found : registryGet R registry row.sourceId = .ok source)
      (own : (jobs i).sourceId = source.id) : Operation s (s.start jobs i s.queue)
  | execute (s : Deployment jobs) (i : ι) (m : Manager jobs) (started : s.started i = true)
      (step : ManagerStep jobs s.manager i m) : Operation s { s with manager := m }

def Operates : Deployment jobs → Deployment jobs → Prop :=
  Relation.ReflTransGen (Operation jobs R registry)

variable {jobs R registry}

/-- No step of a run registers a source. -/
theorem JobStep.unregistered {job : Job} {sh sh' : Shared} {x x' : Execution job.pipeline}
    (step : JobStep job sh x sh' x') (empty : sh.db.sources = []) : sh'.db.sources = [] := by
  cases step with
  | openRun now db row watermark attempt phase opened start =>
      obtain ⟨rfl, _⟩ := openRun_ok opened
      exact empty
  | finalize result attempt row now phase found =>
      change (finalizeRun sh.db row result now).sources = []
      unfold finalizeRun
      dsimp only
      split
      · simp [Db.setWatermark, empty]
      · exact empty
  | _ => exact empty

theorem wipe_unregistered {db : Db} (empty : db.sources = []) (sourceId : Str)
    (watermark : Option Dict) : (Cti.wipe db sourceId watermark).sources = [] := by
  unfold Cti.wipe
  split
  · exact empty
  · simp [Db.setWatermark, empty]

/-- No operation registers a source. -/
theorem Operation.unregistered {s s' : Deployment jobs} (operation : Operation jobs R registry s s')
    (empty : s.manager.shared.db.sources = []) : s'.manager.shared.db.sources = [] := by
  cases operation with
  | wipe _ sourceId watermark found => exact wipe_unregistered empty sourceId watermark
  | execute _ i m started step => exact step.inv.1.unregistered empty
  | _ => exact empty

theorem Operates.unregistered {s : Deployment jobs} (run : Operates jobs R registry (.init jobs) s) :
    s.manager.shared.db.sources = [] := by
  induction run with
  | refl => rfl
  | tail _ last ih => exact last.unregistered ih

theorem openRun_unregistered {db : Db} (empty : db.sources = []) (sourceId : Str) (runId : Uuid)
    (now : Int) : openRun db sourceId runId now =
      .error (ClassName.watermarkConflict.exc ("source not registered: ".toList ++ sourceId)) := by
  simp [openRun, Db.source, empty]

/-- A source that has been upserted has a row. -/
theorem source_sourceUpsert (db : Db) (sourceId : Str) :
    (sourceUpsert db sourceId).source sourceId ≠ none := by
  unfold sourceUpsert
  split
  · rename_i row found
    rw [found]
    nofun
  · rename_i missing
    unfold Db.source at missing ⊢
    simp [List.find?_append, missing]

/-- After an upsert a run of the source opens, if its id is new. -/
theorem openRun_sourceUpsert {db : Db} {sourceId : Str} {runId : Uuid}
    (fresh : (sourceUpsert db sourceId).run runId = none) (now : Int) :
    ∃ db' row watermark,
      openRun (sourceUpsert db sourceId) sourceId runId now = .ok (db', row, watermark) :=
  openRun_fresh (source_sourceUpsert db sourceId) fresh now

/-- Whatever is configured and whatever is done from the migrated database on, a call that comes
to open its run finds no row of its source and is refused. -/
theorem execute_unregistered {s : Deployment jobs} (run : Operates jobs R registry (.init jobs) s)
    (i : ι) : s.manager.shared.db.source (jobs i).sourceId = none ∧
      ∀ now, openRun s.manager.shared.db (jobs i).sourceId (jobs i).runId now =
        .error (ClassName.watermarkConflict.exc
          ("source not registered: ".toList ++ (jobs i).sourceId)) := by
  have empty := run.unregistered
  refine ⟨?_, fun now => openRun_unregistered empty _ _ now⟩
  unfold Db.source
  rw [empty]
  rfl

/-- A configuration with one source of lines. -/
def linesRegistry : List RegisteredSource :=
  [{ toSourceConfig := linesSource "txt".toList
     id := "feed".toList
     circuit := ⟨5, 300⟩
     maxAttempts := 5 }]

/-- The call that `cti run-once` makes for it. -/
def linesJob : Unit → Job := feedJob (.error (.leaf (foreignExc "RuntimeError".toList [])))

theorem lines_opening :
    ∃ s : Deployment linesJob, Operates linesJob asciiRuntime linesRegistry (.init _) s ∧
      (s.manager.execution ()).phase = .opening := by
  have launched : Operates linesJob asciiRuntime linesRegistry (.init _) _ :=
    .single (.runOnce _ () _ "feed".toList rfl rfl)
  have admitted := launched.tail
    (.execute _ () _ rfl (.mk _ () _ _ (.permit _ _ 0 _ rfl rfl)))
  have built := admitted.tail (.execute _ () _ rfl (.mk _ () _ _ (.build _ _ rfl)))
  exact ⟨_, built, rfl⟩

/-- The first run of that source is refused. -/
theorem execute_unregistered_refused :
    ∃ s : Deployment linesJob, Operates linesJob asciiRuntime linesRegistry (.init _) s ∧
      (s.manager.execution ()).phase = .opening ∧
      (∃ source ∈ linesRegistry, source.id = (linesJob ()).sourceId) ∧
      ∃ e, openRun s.manager.shared.db (linesJob ()).sourceId (linesJob ()).runId 0 = .error e ∧
        e.isA .watermarkConflict = true := by
  obtain ⟨s, run, phase⟩ := lines_opening
  refine ⟨s, run, phase, ⟨_, List.mem_singleton_self _, rfl⟩, _,
    openRun_unregistered run.unregistered _ _ 0, ?_⟩
  rfl

theorem execute_unregistered_lines :
    ∃ s : Deployment linesJob, Operates linesJob asciiRuntime linesRegistry (.init _) s ∧
      s.manager.shared.db.source "feed".toList = none := by
  obtain ⟨s, run, _⟩ := lines_opening
  exact ⟨s, run, (execute_unregistered run ()).1⟩

end Cti
