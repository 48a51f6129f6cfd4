import Mathlib.Data.Fintype.EquivFin
import Cti.HttpApi
import Cti.RunRows

set_option autoImplicit false

/- The manager, the HTTP API and `cti dlq` over one database. -/
namespace Cti

open Py (Str Unicode)
open Selection (Selects)

section database

variable {job : Job} {sh sh' : Shared} {x x' : Execution job.pipeline}

/-- Dead letters are only added. -/
theorem JobStep.letters (step : JobStep job sh x sh' x') :
    ∃ new, sh'.db.deadLetters = sh.db.deadLetters ++ new := by
  cases step with
  | openRun now db row watermark attempt phase opened start =>
      obtain ⟨rfl, _⟩ := openRun_ok opened
      exact ⟨[], (List.append_nil _).symm⟩
  | finalize result attempt row now phase found =>
      refine ⟨[], ?_⟩
      rw [List.append_nil]
      exact finalizeRun_deadLetters sh.db row result now
  | bury e traceback now phase => exact ⟨_, rfl⟩
  | _ => exact ⟨[], (List.append_nil _).symm⟩

theorem Db.setRun_ids (db : Db) (row : FeedRunRow) :
    (db.setRun row).feedRuns.map FeedRunRow.id = db.feedRuns.map FeedRunRow.id := by
  unfold Db.setRun
  rw [List.map_map]
  apply List.map_congr_left
  intro old _
  simp only [Function.comp_apply]
  split
  · rename_i same
    exact same.symm
  · rfl

/-- Each run has a row of its own. -/
def Db.RunsUnique (db : Db) : Prop := (db.feedRuns.map FeedRunRow.id).Nodup

theorem JobStep.runsUnique (step : JobStep job sh x sh' x') (unique : sh.db.RunsUnique) :
    sh'.db.RunsUnique := by
  unfold Db.RunsUnique at unique ⊢
  cases step with
  | openRun now db row watermark attempt phase opened start =>
      obtain ⟨rfl, id, _, absent⟩ := openRun_ok opened
      change ((Db.setRun _ _).feedRuns.map FeedRunRow.id).Nodup
      rw [Db.setRun_ids, List.map_append, List.map_singleton, List.nodup_append]
      refine ⟨unique, List.nodup_singleton _, ?_⟩
      rintro old member _ last rfl
      obtain ⟨stored, inside, same⟩ := List.mem_map.mp member
      have missing := List.find?_eq_none.mp absent stored inside
      rw [same, List.mem_singleton.mp last, id] at missing
      simp at missing
  | finalize result attempt row now phase found =>
      have rows : (finalizeRun sh.db row result now).feedRuns =
          (sh.db.setRun (row.finalized result now)).feedRuns := by
        unfold finalizeRun
        dsimp only
        split <;> rfl
      change ((finalizeRun sh.db row result now).feedRuns.map FeedRunRow.id).Nodup
      rw [rows, Db.setRun_ids]
      exact unique
  | _ => exact unique

/-- A row stays, with the source and the start of its run. -/
theorem JobStep.run_kept (step : JobStep job sh x sh' x') {id : Uuid} {row : FeedRunRow}
    (found : sh.db.run id = some row) :
    ∃ row', sh'.db.run id = some row' ∧ row'.sourceId = row.sourceId ∧
      row'.startedAt = row.startedAt := by
  rcases step.run_cases with same | ⟨_, _, _, _, absent, _, _, rows⟩ |
    ⟨result, _, old, now, _, _, stored, rows⟩
  · exact ⟨row, (same id).trans found, rfl, rfl⟩
  · have other : id ≠ job.runId := by
      rintro rfl
      rw [absent] at found
      cases found
    exact ⟨row, by rw [rows, if_neg other, found], rfl, rfl⟩
  · by_cases own : id = job.runId
    · subst own
      rw [found] at stored
      cases stored
      exact ⟨row.finalized result now, by rw [rows, if_pos rfl], rfl, rfl⟩
    · exact ⟨row, by rw [rows, if_neg own, found], rfl, rfl⟩

end database

section service

variable {ι : Type} (jobs : ι → Job)

/-- The processes of a deployment and what they share. -/
structure Service where
  manager : Manager jobs
  indicators : List Indicator
  deadLetters : List DeadLetter
  enqueued : List Str

variable {jobs}

/-- What the API sees. -/
def Service.api (s : Service jobs) : ApiState where
  sources := s.manager.shared.db.sources
  feedRuns := s.manager.shared.db.feedRuns
  indicators := s.indicators
  deadLetters := s.deadLetters
  enqueued := s.enqueued

theorem replayAll_ids (table : List DeadLetter) (marks : List (Int × Int)) :
    (replayAll table marks).map DeadLetter.id = table.map DeadLetter.id := by
  have rows := congrArg (List.map Prod.fst) (replayAll_rows table marks)
  rw [List.map_map, List.map_map] at rows
  exact rows

theorem replayAll_contents (table : List DeadLetter) (marks : List (Int × Int)) :
    (replayAll table marks).map DeadLetter.row = table.map DeadLetter.row := by
  have rows := congrArg (List.map Prod.snd) (replayAll_rows table marks)
  rw [List.map_map, List.map_map] at rows
  exact rows

/-- The table of dead letters agrees with what the manager recorded, and its keys are unique. -/
structure Service.Kept (s : Service jobs) : Prop where
  rows : s.deadLetters.map DeadLetter.row = s.manager.shared.db.deadLetters
  ids : (s.deadLetters.map DeadLetter.id).Nodup

theorem Service.Kept.marked {s : Service jobs} (kept : s.Kept) (marks : List (Int × Int)) :
    { s with deadLetters := replayAll s.deadLetters marks : Service jobs }.Kept :=
  ⟨(replayAll_contents _ _).trans kept.rows, (replayAll_ids _ _).symm ▸ kept.ids⟩

variable [DecidableEq ι]

/-- One step of one process, and what happens to the dead letters in it: a step of a call, with
the letters that it records; a step of the stores; a request; or `cti dlq replay`. -/
inductive ServiceStep (U : Unicode) (api : Api) :
    Service jobs → List LetterEvent → Service jobs → Prop
  | execute (s : Service jobs) (i : ι) (m : Manager jobs) (new : List (Int × DeadLetterRow))
      (step : ManagerStep jobs s.manager i m)
      (recorded : m.shared.db.deadLetters = s.manager.shared.db.deadLetters ++ new.map Prod.snd)
      (fresh : (s.deadLetters.map DeadLetter.id ++ new.map Prod.fst).Nodup) :
      ServiceStep U api s (new.map fun letter => .record letter.1 letter.2)
        { s with
          manager := m
          deadLetters := s.deadLetters ++ new.map fun letter => .recorded letter.1 letter.2 }
  | publish (s : Service jobs) (indicators : List Indicator) :
      ServiceStep U api s [] { s with indicators := indicators }
  | request (s : Service jobs) (request : ApiRequest) (response : ApiResponse) (t : ApiState)
      (marks : List (Int × Int)) (answers : api.Answers U s.api request response t)
      (named : marks.map Prod.fst = request.marks response)
      (marked : t.deadLetters = replayAll s.deadLetters marks) :
      ServiceStep U api s (marks.map fun mark => .mark mark.1 mark.2)
        { s with deadLetters := t.deadLetters, enqueued := t.enqueued }
  | replay (s : Service jobs) (dlqId now : Int) :
      ServiceStep U api s [.mark dlqId now]
        { s with deadLetters := markReplayed s.deadLetters dlqId now }

/-- Any run of the service, with its history of the dead letters. -/
inductive ServiceRun (U : Unicode) (api : Api) (start : Service jobs) :
    List LetterEvent → Service jobs → Prop
  | idle : ServiceRun U api start [] start
  | step {events more : List LetterEvent} {s t : Service jobs}
      (run : ServiceRun U api start events s) (step : ServiceStep U api s more t) :
      ServiceRun U api start (events ++ more) t

variable {U : Unicode} {api : Api} {s t : Service jobs} {events : List LetterEvent}

/-- The database finds new keys for any number of letters. -/
theorem exists_fresh_ids (taken : List Int) (distinct : taken.Nodup) (n : Nat) :
    ∃ ids : List Int, ids.length = n ∧ (taken ++ ids).Nodup := by
  induction n with
  | zero => exact ⟨[], rfl, (List.append_nil taken).symm ▸ distinct⟩
  | succ n ih =>
      obtain ⟨ids, length, distinct'⟩ := ih
      obtain ⟨id, fresh⟩ := Infinite.exists_notMem_finset (taken ++ ids).toFinset
      refine ⟨ids ++ [id], by rw [List.length_append, length, List.length_singleton], ?_⟩
      rw [← List.append_assoc, List.nodup_append]
      refine ⟨distinct', List.nodup_singleton id, fun old member _ last => ?_⟩
      rw [List.mem_singleton.mp last]
      rintro rfl
      exact fresh (List.mem_toFinset.mpr member)

/-- Each step of the manager is one of the service. -/
theorem exists_execute (kept : s.Kept) {i : ι} {m : Manager jobs}
    (step : ManagerStep jobs s.manager i m) :
    ∃ more t, ServiceStep U api s more t ∧ t.manager = m := by
  obtain ⟨rows, recorded⟩ := step.inv.1.letters
  obtain ⟨ids, length, fresh⟩ := exists_fresh_ids _ kept.ids rows.length
  have keys : (ids.zip rows).map Prod.fst = ids := List.map_fst_zip length.le
  have contents : (ids.zip rows).map Prod.snd = rows := List.map_snd_zip length.ge
  exact ⟨_, _, .execute s i m (ids.zip rows) step (contents.symm ▸ recorded)
    (keys.symm ▸ fresh), rfl⟩

/-- Each request that is answered is a step of the service. -/
theorem exists_request {request : ApiRequest} {response : ApiResponse} {state : ApiState}
    (answers : api.Answers U s.api request response state) :
    ∃ more t, ServiceStep U api s more t ∧ t.manager = s.manager ∧ t.api = state := by
  have moved := (answers_moved answers).1
  obtain ⟨marks, named, marked⟩ := moved.deadLetters
  refine ⟨_, _, .request s request response state marks answers named marked, rfl, ?_⟩
  obtain ⟨sources, feedRuns, indicators, letters, queue⟩ := state
  obtain ⟨rfl, rfl, rfl, _, _⟩ := moved
  rfl

theorem tableAfter_append (events more : List LetterEvent) (table : List DeadLetter) :
    tableAfter (events ++ more) table = tableAfter more (tableAfter events table) :=
  List.foldl_append

theorem tableAfter_records (new : List (Int × DeadLetterRow)) (table : List DeadLetter) :
    tableAfter (new.map fun letter => .record letter.1 letter.2) table =
      table ++ new.map fun letter => .recorded letter.1 letter.2 := by
  induction new generalizing table with
  | nil => exact (List.append_nil table).symm
  | cons letter new ih =>
      rw [List.map_cons, List.map_cons, tableAfter, List.foldl_cons]
      change tableAfter _ (table ++ [_]) = _
      rw [ih, List.append_assoc]
      rfl

/-- A step does to the table what its history says. -/
theorem ServiceStep.letters {more : List LetterEvent} (step : ServiceStep U api s more t) :
    t.deadLetters = tableAfter more s.deadLetters := by
  cases step with
  | execute i m new step recorded fresh => exact (tableAfter_records new _).symm
  | publish indicators => rfl
  | request request response t marks answers named marked => exact marked
  | replay dlqId now => rfl

theorem ServiceStep.kept {more : List LetterEvent} (step : ServiceStep U api s more t)
    (kept : s.Kept) : t.Kept := by
  cases step with
  | execute i m new step recorded fresh =>
      constructor
      · rw [recorded, ← kept.rows, List.map_append, List.map_map]
        rfl
      · rw [List.map_append, List.map_map]
        exact fresh
  | publish indicators => exact ⟨kept.rows, kept.ids⟩
  | request request response t marks answers named marked =>
      have same := kept.marked marks
      rw [← marked] at same
      exact ⟨same.rows, same.ids⟩
  | replay dlqId now => exact kept.marked [(dlqId, now)]

theorem ServiceRun.kept {start : Service jobs} (run : ServiceRun U api start events s)
    (kept : start.Kept) : s.Kept ∧ s.deadLetters = tableAfter events start.deadLetters := by
  induction run with
  | idle => exact ⟨kept, rfl⟩
  | step run step ih =>
      refine ⟨step.kept ih.1, ?_⟩
      rw [step.letters, ih.2, tableAfter_append]

/-- Whatever the calls of the manager, the clients of the API and the operators do, and in
whatever order: the dead letters are exactly those that the calls have recorded, each once and
as it was recorded, with the time of the last request or command that named it since. -/
theorem service_dead_letters {start : Service jobs} (none_yet : start.deadLetters = [])
    (none_recorded : start.manager.shared.db.deadLetters = [])
    (run : ServiceRun U api start events s) :
    s.deadLetters = lettersOf events ∧
      s.deadLetters.map DeadLetter.row = s.manager.shared.db.deadLetters ∧
      (s.deadLetters.map DeadLetter.id).Nodup := by
  have kept : start.Kept := by
    constructor
    · rw [none_yet, none_recorded]
      rfl
    · rw [none_yet]
      exact List.nodup_nil
  obtain ⟨held, table⟩ := run.kept kept
  rw [none_yet, tableAfter_eq] at table
  exact ⟨table, held.rows, held.ids⟩

/-- The rows of the runs stay, each under its own id. -/
theorem ServiceRun.run_kept {start : Service jobs} (run : ServiceRun U api start events s)
    {id : Uuid} {row : FeedRunRow} (found : start.manager.shared.db.run id = some row) :
    ∃ row', s.manager.shared.db.run id = some row' ∧ row'.sourceId = row.sourceId ∧
      row'.startedAt = row.startedAt := by
  induction run with
  | idle => exact ⟨row, found, rfl, rfl⟩
  | step run step ih =>
      obtain ⟨between, stored, source, began⟩ := ih
      cases step with
      | execute i m new step recorded fresh =>
          obtain ⟨row', later, source', began'⟩ := step.inv.1.run_kept stored
          exact ⟨row', later, source'.trans source, began'.trans began⟩
      | _ => exact ⟨between, stored, source, began⟩

theorem ServiceRun.runsUnique {start : Service jobs} (run : ServiceRun U api start events s)
    (unique : start.manager.shared.db.RunsUnique) : s.manager.shared.db.RunsUnique := by
  induction run with
  | idle => exact unique
  | step run step ih =>
      cases step with
      | execute i m new step recorded fresh => exact step.inv.1.runsUnique ih
      | _ => exact ih

theorem run_of_mem {db : Db} (unique : db.RunsUnique) {row : FeedRunRow}
    (member : row ∈ db.feedRuns) : db.run row.id = some row := by
  cases found : db.run row.id with
  | none =>
      have missing := List.find?_eq_none.mp found row member
      simp at missing
  | some other =>
      have inside := List.mem_of_find?_eq_some found
      rw [List.inj_on_of_nodup_map unique inside member (Db.run_id found)]

/-- A run that the API has listed is found under the id it was listed with, in whatever state the
service has come to since: it is still the run of that source that started then. -/
theorem listed_run_found {start between : Service jobs}
    (unique : start.manager.shared.db.RunsUnique) {earlier : List LetterEvent}
    (before : ServiceRun U api start earlier between) {source : Option Str} {most : Int}
    {rows : List FeedRunRow} (listed : RecentRuns between.api.feedRuns source most rows)
    {row : FeedRunRow} (member : row ∈ rows) (small : row.id < 2 ^ 128)
    (run : ServiceRun U api between events s) {authorization : Option Str}
    (allowed : api.tokens.Allows U authorization "read".toList) {response : ApiResponse}
    {t : ApiState} (answers : getRun U api authorization (uuidText row.id) s.api response t)
    (answered : response.status ≠ 500) :
    ∃ row', s.manager.shared.db.run row.id = some row' ∧ row'.sourceId = row.sourceId ∧
      row'.startedAt = row.startedAt ∧ response = jsonResponse 200 (.dict row'.detail) := by
  obtain ⟨stored, _⟩ := listed.2.mem member
  have distinct := before.runsUnique unique
  obtain ⟨row', found, source, began⟩ := run.run_kept (run_of_mem distinct stored)
  rcases withScope_cases answers with ⟨refused, _⟩ | ⟨_, _, shown | failed⟩
  · exact absurd allowed refused
  · obtain ⟨id, parsed, shown⟩ := shown
    rw [parseUuid_uuidText small] at parsed
    cases parsed
    have here : (s.api.feedRuns.find? fun old => old.id = row.id) = some row' := found
    rw [here] at shown
    exact ⟨row', found, source, began, shown⟩
  · rw [failed] at answered
    exact absurd rfl answered

/-- A call that is about to record a dead letter, beside a run that has been opened. -/
def buryingService : Service (feedJob (.error (.leaf (foreignExc "RuntimeError".toList [])))) where
  manager :=
    { shared := ⟨fun _ _ => .init, ⟨[⟨"feed".toList, none⟩], [feedRow], []⟩⟩
      execution := fun _ => ⟨.burying (ClassName.permanentError.exc "gone".toList), []⟩ }
  indicators := []
  deadLetters := []
  enqueued := []

theorem burying_run :
    ∃ s events, ServiceRun .ascii operatorApi buryingService events s ∧ events.length = 2 ∧
      s.deadLetters.map DeadLetter.replayedAt = [some 9] := by
  have bury : ManagerStep _ buryingService.manager () _ :=
    .mk _ () _ _ (.bury _ _ (ClassName.permanentError.exc "gone".toList) [] 3 rfl)
  have recorded : ServiceStep .ascii operatorApi buryingService _ _ :=
    .execute _ () _ [(7, _)] bury rfl (by decide)
  exact ⟨_, _, (ServiceRun.idle.step recorded).step (.replay _ 7 9), rfl, rfl⟩

theorem service_dead_letters_burying :
    ∃ s events, ServiceRun .ascii operatorApi buryingService events s ∧ events.length = 2 ∧
      s.deadLetters.map DeadLetter.replayedAt = [some 9] ∧ s.deadLetters = lettersOf events ∧
      s.deadLetters.map DeadLetter.row = s.manager.shared.db.deadLetters ∧
      (s.deadLetters.map DeadLetter.id).Nodup := by
  obtain ⟨s, events, run, two, marked⟩ := burying_run
  exact ⟨s, events, run, two, marked, service_dead_letters rfl rfl run⟩

theorem listed_run_found_marked :
    ∃ s events, ServiceRun .ascii operatorApi buryingService events s ∧ events.length = 1 ∧
      ∃ row', s.manager.shared.db.run feedRow.id = some row' ∧ row'.sourceId = feedRow.sourceId ∧
        row'.startedAt = feedRow.startedAt := by
  have listed : RecentRuns buryingService.api.feedRuns none 50 [feedRow] :=
    ⟨by decide, [feedRow], .refl _, List.pairwise_singleton _ _, rfl⟩
  have run : ServiceRun .ascii operatorApi buryingService [.mark 7 9] _ :=
    ServiceRun.idle.step (.replay _ 7 9)
  have allowed : operatorApi.tokens.Allows .ascii (some "Bearer t".toList) "read".toList :=
    ⟨_, rfl, rfl⟩
  have answers : getRun .ascii operatorApi (some "Bearer t".toList) (uuidText feedRow.id)
      buryingService.api (jsonResponse 200 (.dict feedRow.detail)) buryingService.api :=
    ⟨rfl, Or.inl ⟨1, parseUuid_uuidText (by decide), rfl⟩⟩
  have status : (jsonResponse 200 (.dict feedRow.detail)).status ≠ 500 := by
    rw [jsonResponse_status rfl]
    decide
  have unique : buryingService.manager.shared.db.RunsUnique := List.nodup_singleton _
  obtain ⟨row', found, source, began, _⟩ := listed_run_found unique .idle listed
    (List.mem_singleton_self _) (by decide) run allowed answers status
  exact ⟨_, _, run, rfl, row', found, source, began⟩

end service

end Cti
