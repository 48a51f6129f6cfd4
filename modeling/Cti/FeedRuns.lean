import Cti.Models

set_option autoImplicit false

/- The run rows, the source rows and the dead letters, and the functions that write them. -/
namespace Cti

open Py (Str)

structure SourceRow where
  id : Str
  watermark : Option Dict

structure FeedRunRow where
  id : Uuid
  sourceId : Str
  state : RunState
  startedAt : Int
  finishedAt : Option Int
  fetchedBytes : Int
  recordsIn : Int
  recordsOut : Int
  error : Option Str
  watermark : Dict
  rawUri : Option Str

structure DeadLetterRow where
  feedRunId : Uuid
  sourceId : Str
  payloadSha : Str
  errorClass : Option ClassName
  errorMsg : Str
  traceback : Str
  reason : Str
  createdAt : Int

structure Db where
  sources : List SourceRow
  feedRuns : List FeedRunRow
  deadLetters : List DeadLetterRow

def Db.source (db : Db) (id : Str) : Option SourceRow := db.sources.find? fun row => row.id = id

/-- The stored watermark of a source, if there is such a source. -/
def Db.watermark (db : Db) (id : Str) : Option (Option Dict) := (db.source id).map SourceRow.watermark

def Db.setRun (db : Db) (row : FeedRunRow) : Db :=
  { db with feedRuns := db.feedRuns.map fun old => if old.id = row.id then row else old }

def Db.setWatermark (db : Db) (sourceId : Str) (watermark : Dict) : Db :=
  { db with sources := db.sources.map fun row =>
      if row.id = sourceId then { row with watermark := some watermark } else row }

/-- An `Exception` of a class that the code does not name. -/
def foreignExc (name : Str) (message : Str) : Exc where
  cls := ⟨[.other name, .exception, .baseException], by simp [ClassName.mro]⟩
  message := message

/-- `open_run`: the new row and the watermark of its source. The id of a row is unique. -/
def openRun (db : Db) (sourceId : Str) (runId : Uuid) (now : Int) :
    Except Exc (Db × FeedRunRow × Dict) :=
  match db.source sourceId with
  | none => .error (ClassName.watermarkConflict.exc ("source not registered: ".toList ++ sourceId))
  | some source =>
      if db.feedRuns.any fun row => row.id = runId then
        .error (foreignExc "IntegrityError".toList [])
      else
        let row : FeedRunRow :=
          { id := runId, sourceId := sourceId, state := .pending, startedAt := now,
            finishedAt := none, fetchedBytes := 0, recordsIn := 0, recordsOut := 0, error := none,
            watermark := [], rawUri := none }
        .ok ({ db with feedRuns := db.feedRuns ++ [row] }, row, source.watermark.getD [])

def Db.run (db : Db) (runId : Uuid) : Option FeedRunRow := db.feedRuns.find? fun row => row.id = runId

def markRunning (db : Db) (row : FeedRunRow) : Db := db.setRun { row with state := .running }

/-- The row as `finalize_run` writes it. -/
def FeedRunRow.finalized (row : FeedRunRow) (result : RunResult) (now : Int) : FeedRunRow :=
  { row with
    state := result.state
    finishedAt := some now
    fetchedBytes := result.fetchedBytes
    recordsIn := result.recordsIn
    recordsOut := result.recordsOut
    error := result.error
    watermark := result.watermark
    rawUri := result.rawUri }

/-- `finalize_run`: only a successful run moves the watermark of its source. -/
def finalizeRun (db : Db) (row : FeedRunRow) (result : RunResult) (now : Int) : Db :=
  let db := db.setRun (row.finalized result now)
  if result.state = .success then db.setWatermark row.sourceId result.watermark else db

/-- The digest of an empty payload. -/
def emptySha : Str :=
  "e3b0c44298fc1c149afbf4c8996fb92427ae41e4649b934ca495991b7852b855".toList

/-- `record_dead_letter` without a payload. -/
def recordDeadLetter (db : Db) (runId : Uuid) (sourceId : Str) (error : Exc) (traceback : Str)
    (now : Int) : Db :=
  { db with deadLetters := db.deadLetters ++
      [{ feedRunId := runId
         sourceId := sourceId
         payloadSha := emptySha
         errorClass := error.cls.mro.head?
         errorMsg := error.message.take 1000
         traceback := traceback.take 8000
         reason := "permanent".toList
         createdAt := now }] }

@[simp] theorem Db.setRun_sources (db : Db) (row : FeedRunRow) :
    (db.setRun row).sources = db.sources := rfl

@[simp] theorem Db.setRun_deadLetters (db : Db) (row : FeedRunRow) :
    (db.setRun row).deadLetters = db.deadLetters := rfl

@[simp] theorem Db.setWatermark_deadLetters (db : Db) (sourceId : Str) (watermark : Dict) :
    (db.setWatermark sourceId watermark).deadLetters = db.deadLetters := rfl

theorem Db.watermark_congr {db db' : Db} (same : db'.sources = db.sources) (id : Str) :
    db'.watermark id = db.watermark id := by
  unfold Db.watermark Db.source
  rw [same]

theorem Db.setWatermark_of_ne (db : Db) {sourceId id : Str} (other : id ≠ sourceId)
    (watermark : Dict) : (db.setWatermark sourceId watermark).watermark id = db.watermark id := by
  unfold Db.watermark Db.source Db.setWatermark
  have ids : ∀ row : SourceRow, (if row.id = sourceId then
      { row with watermark := some watermark } else row).id = row.id := by
    intro row
    split <;> rfl
  simp only [List.find?_map, Function.comp_def, ids, Option.map_map]
  cases found : db.sources.find? fun row => row.id = id with
  | none => rfl
  | some row =>
      have hit : row.id = id := by simpa using List.find?_some found
      simp [hit, other]

theorem openRun_ok {db db' : Db} {sourceId : Str} {runId : Uuid} {now : Int} {row : FeedRunRow}
    {watermark : Dict} (opened : openRun db sourceId runId now = .ok (db', row, watermark)) :
    db' = { db with feedRuns := db.feedRuns ++ [row] } ∧ row.id = runId ∧
      row.sourceId = sourceId ∧ db.run runId = none := by
  unfold openRun at opened
  split at opened
  · cases opened
  · split at opened
    · cases opened
    · rename_i fresh
      cases opened
      refine ⟨rfl, rfl, rfl, ?_⟩
      simpa [Db.run] using fresh

/-- A run of a registered source opens if its id is new. -/
theorem openRun_fresh {db : Db} {sourceId : Str} {runId : Uuid}
    (stored : db.source sourceId ≠ none) (fresh : db.run runId = none) (now : Int) :
    ∃ db' row watermark, openRun db sourceId runId now = .ok (db', row, watermark) := by
  obtain ⟨source, found⟩ := Option.ne_none_iff_exists'.mp stored
  have unused : ¬ (db.feedRuns.any fun row => row.id = runId) = true := by
    simpa [Db.run] using fresh
  unfold openRun
  rw [found]
  dsimp only
  rw [if_neg unused]
  exact ⟨_, _, _, rfl⟩

theorem openRun_error {db : Db} {sourceId : Str} {runId : Uuid} {now : Int} {e : Exc}
    (refused : openRun db sourceId runId now = .error e) : e.isA .permanentError = false := by
  unfold openRun at refused
  split at refused
  · cases refused
    rfl
  · split at refused
    · cases refused
      rfl
    · cases refused

theorem Db.run_id {db : Db} {id : Uuid} {row : FeedRunRow} (found : db.run id = some row) :
    row.id = id := by
  simpa using List.find?_some found

theorem Db.setRun_run (db : Db) (row : FeedRunRow) (id : Uuid) :
    (db.setRun row).run id = (db.run id).map fun old => if old.id = row.id then row else old := by
  unfold Db.run Db.setRun
  have ids : ∀ old : FeedRunRow, (if old.id = row.id then row else old).id = old.id := by
    intro old
    split
    · rename_i same
      exact same.symm
    · rfl
  simp only [List.find?_map, Function.comp_def, ids]

theorem openRun_row {db db' : Db} {sourceId : Str} {runId : Uuid} {now : Int} {row : FeedRunRow}
    {watermark : Dict} (opened : openRun db sourceId runId now = .ok (db', row, watermark)) :
    row.state = .pending ∧ row.finishedAt = none := by
  unfold openRun at opened
  split at opened
  · cases opened
  · split at opened
    · cases opened
    · cases opened
      exact ⟨rfl, rfl⟩

/-- The rows once a run is opened and marked. -/
theorem openRun_run {db db' : Db} {sourceId : Str} {runId : Uuid} {now : Int} {row : FeedRunRow}
    {watermark : Dict} (opened : openRun db sourceId runId now = .ok (db', row, watermark))
    (id : Uuid) :
    (markRunning db' row).run id =
      if id = runId then some { row with state := .running } else db.run id := by
  obtain ⟨rfl, rfl, rfl, absent⟩ := openRun_ok opened
  unfold markRunning
  rw [Db.setRun_run]
  by_cases own : id = row.id
  · subst own
    have found : Db.run { db with feedRuns := db.feedRuns ++ [row] } row.id = some row := by
      unfold Db.run at absent ⊢
      rw [List.find?_append, absent]
      simp
    rw [found, if_pos rfl]
    simp
  · have kept : Db.run { db with feedRuns := db.feedRuns ++ [row] } id = db.run id := by
      have other : ¬ row.id = id := fun same => own same.symm
      unfold Db.run
      rw [List.find?_append]
      simp [other]
    rw [kept, if_neg own]
    cases found : db.run id with
    | none => rfl
    | some old =>
        have other : ¬ old.id = row.id := by
          rw [Db.run_id found]
          exact own
        simp [other]

theorem openRun_source {db db' : Db} {sourceId : Str} {runId : Uuid} {now : Int}
    {row : FeedRunRow} {watermark : Dict}
    (opened : openRun db sourceId runId now = .ok (db', row, watermark)) :
    (∃ new, (markRunning db' row).run runId = some new ∧ new.sourceId = sourceId) ∧
      ∀ id old, db.run id = some old →
        ∃ new, (markRunning db' row).run id = some new ∧ new.sourceId = old.sourceId := by
  obtain ⟨_, _, source, absent⟩ := openRun_ok opened
  constructor
  · refine ⟨{ row with state := .running }, ?_, source⟩
    rw [openRun_run opened, if_pos rfl]
  · intro id old found
    have other : id ≠ runId := by
      rintro rfl
      rw [absent] at found
      cases found
    exact ⟨old, by rw [openRun_run opened, if_neg other, found], rfl⟩

theorem finalizeRun_run (db : Db) (row : FeedRunRow) (result : RunResult) (now : Int) (id : Uuid) :
    (finalizeRun db row result now).run id = (db.setRun (row.finalized result now)).run id := by
  unfold finalizeRun
  dsimp only
  split <;> rfl

/-- The rows once a run is finalized. -/
theorem finalizeRun_rows {db : Db} {row : FeedRunRow} {runId : Uuid}
    (found : db.run runId = some row) (result : RunResult) (now : Int) (id : Uuid) :
    (finalizeRun db row result now).run id =
      if id = runId then some (row.finalized result now) else db.run id := by
  have same : (row.finalized result now).id = runId := show row.id = runId from Db.run_id found
  rw [finalizeRun_run, Db.setRun_run, same]
  by_cases own : id = runId
  · subst own
    rw [found, if_pos rfl]
    simp [Db.run_id found]
  · rw [if_neg own]
    cases old : db.run id with
    | none => rfl
    | some stored =>
        have other : ¬ stored.id = runId := by
          rw [Db.run_id old]
          exact own
        simp [other]

theorem finalizeRun_source {db : Db} {row old : FeedRunRow} {result : RunResult} {now : Int}
    {runId id : Uuid} (own : db.run runId = some row) (found : db.run id = some old) :
    ∃ new, (finalizeRun db row result now).run id = some new ∧ new.sourceId = old.sourceId := by
  rw [finalizeRun_rows own]
  split
  · rename_i same
    rw [same, own] at found
    cases found
    exact ⟨_, rfl, rfl⟩
  · exact ⟨old, found, rfl⟩

/-- Only a successful result moves a watermark, and only that of the source of the run. -/
theorem finalizeRun_watermark {db : Db} {row : FeedRunRow} {result : RunResult} {now : Int}
    {id : Str} (moved : (finalizeRun db row result now).watermark id ≠ db.watermark id) :
    result.state = .success ∧ id = row.sourceId := by
  unfold finalizeRun at moved
  dsimp only at moved
  split at moved
  · rename_i success
    refine ⟨success, ?_⟩
    by_contra other
    rw [Db.setWatermark_of_ne _ other, Db.watermark_congr (Db.setRun_sources _ _)] at moved
    exact moved rfl
  · rw [Db.watermark_congr (Db.setRun_sources _ _)] at moved
    exact absurd rfl moved

theorem finalizeRun_deadLetters (db : Db) (row : FeedRunRow) (result : RunResult) (now : Int) :
    (finalizeRun db row result now).deadLetters = db.deadLetters := by
  unfold finalizeRun
  dsimp only
  split <;> simp

end Cti
