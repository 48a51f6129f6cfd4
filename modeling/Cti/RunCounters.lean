import Cti.SharedTables

set_option autoImplicit false

/- The counters in the row of a run, and what they should count. -/
namespace Cti

open Py (Str)
open TaskNet (Net)

/-- The number of indicator_observations rows of a run. -/
def Store.observationCount (store : Store) (runId : Uuid) : Nat :=
  store.observations.countP fun row => row.feedRunId = runId

/-- The total length of the bodies. -/
def bodyBytes : List RawPayload → Nat
  | [] => 0
  | payload :: rest => payload.body.length + bodyBytes rest

theorem bodyBytes_zero {payloads : List RawPayload} :
    bodyBytes payloads = 0 ↔ ∀ payload ∈ payloads, payload.body = [] := by
  induction payloads with
  | nil => simp [bodyBytes]
  | cons payload rest ih => simp [bodyBytes, ih]

section commits

variable {store store' : Store} {batch : List Sighting}

/-- A transaction adds to the count of the run of its pairs only. -/
theorem observationCount_publish {runId : Uuid} (committed : publish store batch = .ok store')
    (own : ∀ pair ∈ batch, pair.2.feedRunId = runId) (id : Uuid) :
    store'.observationCount id = store.observationCount id + if id = runId then batch.length else 0 := by
  obtain ⟨_, _, observations⟩ := publish_ok.mp committed
  unfold Store.observationCount
  rw [observations, List.countP_append, List.countP_map]
  congr 1
  split
  · rename_i same
    subst same
    exact List.countP_eq_length.mpr fun pair member => by simpa using own pair member
  · rename_i other
    refine List.countP_eq_zero.mpr fun pair member => ?_
    simpa [own pair member] using Ne.symm other

end commits

section typing

variable {T : Type} (R : Runtime) (spec : PipelineSpec T) (clock : Clock) (ctx : RunContext)

/-- The run has rows in the tables exactly if it had some before or has committed a pair. -/
def Accounts (before : Prop) (runId : Uuid) (store : Store) (published : List (List Sighting)) :
    Prop :=
  store.observationCount runId = 0 ↔ before ∧ published.flatten = []

/-- What a step of a run does to the rows of all runs. -/
structure Tally (w w' : World (Store × T)) : Prop where
  published : w.published <+: w'.published
  others : ∀ id, id ≠ ctx.runId → w'.env.1.observationCount id = w.env.1.observationCount id
  accounts : ∀ before, Accounts before ctx.runId w.env.1 w.published →
    Accounts before ctx.runId w'.env.1 w'.published

/-- The pair is in a batch that this run has committed. -/
def Committed (w : World (Store × T)) (pair : Sighting) : Prop :=
  pair ∈ w.published.flatten ∧ pair.2.feedRunId = ctx.runId

theorem Tally.of_same {w w' : World (Store × T)} (tables : w'.env.1 = w.env.1)
    (published : w'.published = w.published) : Tally ctx w w' where
  published := by rw [published]
  others id _ := by rw [tables]
  accounts before accounts := by rwa [tables, published]

theorem Tally.trans {w w' w'' : World (Store × T)} (first : Tally ctx w w')
    (second : Tally ctx w' w'') : Tally ctx w w'' where
  published := first.published.trans second.published
  others id other := (second.others id other).trans (first.others id other)
  accounts before accounts := second.accounts before (first.accounts before accounts)

theorem Tally.of_aside {w w' : World (Store × T)} (aside : Aside stillDrift w w') :
    Tally ctx w w' := .of_same ctx aside.1.symm aside.2

theorem Committed.mono {w w' : World (Store × T)} (later : Tally ctx w w') {pair : Sighting}
    (committed : Committed ctx w pair) : Committed ctx w' pair := by
  obtain ⟨more, grown⟩ := later.published
  refine ⟨?_, committed.2⟩
  rw [← grown, List.flatten_append]
  exact List.mem_append_left _ committed.1

/-- A transaction of the persist stage. -/
theorem Tally.publish {w : World (Store × T)} {env : Store × T} {batch : List Sighting}
    (own : ∀ pair ∈ batch, pair.2.feedRunId = ctx.runId)
    (committed : Cti.publish w.env.1 batch = .ok env.1) :
    Tally ctx w { w with env := env, published := w.published ++ [batch] } where
  published := List.prefix_append _ _
  others id other := by
    rw [observationCount_publish committed own, if_neg other, Nat.add_zero]
  accounts before accounts := by
    unfold Accounts at accounts ⊢
    rw [observationCount_publish committed own, if_pos rfl, Nat.add_eq_zero_iff, accounts]
    simp [and_assoc]

/-- A transaction of an extra publisher with pairs that the run has committed before. -/
theorem Tally.republish {w : World (Store × T)} {env : Store × T} {batch : List Sighting}
    (good : ∀ pair ∈ batch, Committed ctx w pair)
    (committed : Cti.publish w.env.1 batch = .ok env.1) : Tally ctx w { w with env := env } where
  published := List.prefix_rfl
  others id other := by
    rw [observationCount_publish committed fun pair member => (good pair member).2, if_neg other,
      Nat.add_zero]
  accounts before accounts := by
    unfold Accounts at accounts ⊢
    rw [observationCount_publish committed fun pair member => (good pair member).2, if_pos rfl,
      Nat.add_eq_zero_iff, accounts, List.length_eq_zero_iff]
    have empty : w.published.flatten = [] → batch = [] := by
      intro none
      refine List.eq_nil_iff_forall_not_mem.mpr fun pair member => ?_
      have published := (good pair member).1
      rw [none] at published
      exact List.not_mem_nil published
    exact ⟨fun both => both.1, fun both => ⟨both, empty both.2⟩⟩

theorem onTables_moves (publisher : Plugin.Publisher T) {w : World (Store × T)}
    {batch : List Sighting} (good : ∀ pair ∈ batch, Committed ctx w pair) (ctx' : RunContext) :
    (publisher.onTables.publish batch ctx').Moves (Tally ctx) w := by
  unfold Plugin.Publisher.onTables
  split
  · constructor
    · rintro a env ⟨committed, _⟩
      exact .republish ctx good committed
    · rintro e env rfl
      exact .of_same ctx rfl rfl
  · exact (Call.beside_moves stillDrift (publisher.publish batch ctx') w).mono (.of_aside ctx)

/-- Only persist and the extra publishers of its kind add rows, and only rows of the run. -/
def tallyTyping : PipelineTyping R spec.onTables clock ctx where
  Later := Tally ctx
  refl _ := .of_same ctx rfl rfl
  trans := .trans ctx
  Fine _ := True
  Made pair := pair.2.feedRunId = ctx.runId
  Good := Committed ctx
  good_mono later _ committed := committed.mono ctx later
  fetch w own := ((fetch_aside stillDrift spec.connector spec.archive own).mono (.of_aside ctx)).at w
  parse gen w :=
    (Call.beside_moves stillDrift (spec.parser.resume gen w.ctx) w).mono (.of_aside ctx)
  normalize _ := trivial
  enrich enricher member ind w := by
    obtain ⟨inner, _, rfl⟩ := List.mem_map.mp member
    exact (Call.beside_moves stillDrift (inner.enrich ind w.ctx) w).mono (.of_aside ctx)
  enriched _ _ _ _ _ _ _ _ := trivial
  dedup own id w := (add_aside stillDrift own id w).mono (.of_aside ctx)
  made _ _ := rfl
  committed {batch} own {w env} result := by
    refine ⟨.publish ctx own result.1, fun pair member => ⟨?_, own pair member⟩⟩
    rw [List.flatten_append]
    exact List.mem_append_right _ (by simpa using member)
  failed {batch} _ {w e env} result := by
    cases result
    exact .of_same ctx rfl rfl
  publish publisher member {w batch} good := by
    obtain ⟨inner, _, rfl⟩ := List.mem_map.mp member
    exact onTables_moves ctx inner good w.ctx

end typing

section call

variable {T : Type} {R : Runtime} {feed : Feed T} {before : Prop}

/-- What a call knows of its counters: nothing is counted, and its run has rows in the tables
exactly if it had some before or has committed a pair. -/
def Execution.Accounted (feed : Feed T) (before : Prop) (store : Store)
    (x : Execution (netSystem R feed.onTables.spec)) : Prop :=
  match x.phase with
  | .attempting _ a => a.ctx.runId = feed.runId ∧
      Net.Typed (tallyTyping R feed.spec a.clock a.ctx).typing (a.seeing store).state.world
        (a.seeing store).state ∧
      Accounts before feed.runId store a.state.world.published
  | .finalizing result a => x.outcomes ≠ [] ∧ result.recordsOut = 0 ∧ result.fetchedBytes = 0 ∧
      Accounts before feed.runId store a.state.world.published
  | _ => True

variable {store store' : Store} {x x' : Execution (netSystem R feed.onTables.spec)}

/-- The commits of other runs do not bear on the call. -/
theorem Execution.Accounted.congr (accounted : x.Accounted feed before store)
    (same : x.InRun → store'.observationCount feed.runId = store.observationCount feed.runId) :
    x.Accounted feed before store' := by
  obtain ⟨phase, outcomes⟩ := x
  cases phase with
  | attempting k a =>
      obtain ⟨own, typed, accounts⟩ := accounted
      refine ⟨own, ?_, ?_⟩
      · exact PipelineTyping.typed_world (s := (a.seeing store).state)
          (w := a.state.world.seeing store') _ typed fun _ good => good
      · unfold Accounts at accounts ⊢
        rwa [same trivial]
  | finalizing result a =>
      obtain ⟨attempted, out, bytes, accounts⟩ := accounted
      refine ⟨attempted, out, bytes, ?_⟩
      unfold Accounts at accounts ⊢
      rwa [same trivial]
  | _ => trivial

/-- A step of the pipeline adds rows of its own run only. -/
theorem Execution.Accounted.attempt {k : Nat} {a a' : Attempt R feed.onTables.spec}
    (accounted : x.Accounted feed before store) (phase : x.phase = .attempting k a)
    (taken : (netSystem R feed.onTables.spec).Step (a.seeing store) a') :
    Execution.Accounted feed before a'.store { x with phase := .attempting k a' } ∧
      ∀ id, id ≠ feed.runId → a'.store.observationCount id = store.observationCount id := by
  unfold Execution.Accounted at accounted
  rw [phase] at accounted
  obtain ⟨own, typed, accounts⟩ := accounted
  obtain ⟨label, t, step, rfl⟩ := taken
  have after := typed.step step
  have tally : Tally a.ctx (a.seeing store).state.world t.world := after.later
  refine ⟨⟨own, ⟨Tally.of_same _ rfl rfl, after.chan, after.task⟩, ?_⟩, ?_⟩
  · rw [← own] at accounts ⊢
    exact tally.accounts before accounts
  · rw [← own]
    exact tally.others

theorem pipelineResult_counters {S : Type} {N : Net (World S) Failure} {started finished : Int}
    {s : N.State} {result : RunResult} (returned : pipelineResult started finished s = .ok result) :
    result.recordsOut = 0 ∧ result.fetchedBytes = 0 := by
  unfold pipelineResult at returned
  split at returned
  · cases returned
    exact ⟨rfl, rfl⟩
  · cases returned

theorem runWithOutcome_counters {ctx : RunContext} {started finished : Int}
    {outcome : Except ExcTree RunResult} {result : RunResult}
    (inner : ∀ result, outcome = .ok result → result.recordsOut = 0 ∧ result.fetchedBytes = 0)
    (returned : runWithOutcome ctx started finished outcome = .ok result) :
    result.recordsOut = 0 ∧ result.fetchedBytes = 0 := by
  unfold runWithOutcome at returned
  split at returned
  · cases returned
    exact inner _ rfl
  · dsimp only at returned
    split at returned
    · cases returned
      exact ⟨rfl, rfl⟩
    · split at returned
      · cases returned
        exact ⟨rfl, rfl⟩
      · cases returned

/-- The runner itself counts nothing and does not touch the tables. -/
theorem Execution.Accounted.manage {sh sh' : Shared}
    {x x' : Execution (feed.onTables.job R).pipeline}
    (step : JobStep (feed.onTables.job R) sh x sh' x')
    (outside : ∀ k a a', x.phase = .attempting k a → x'.phase ≠ .attempting k a')
    (fresh : x.phase = .opening → sh.db.run feed.runId = none →
      (store.observationCount feed.runId = 0 ↔ before))
    (accounted : Execution.Accounted feed before store x) :
    Execution.Accounted feed before store x' := by
  unfold Execution.Accounted at accounted
  cases step with
  | openRun now db row watermark attempt phase opened start =>
      obtain ⟨clock, env, rfl⟩ := start
      refine ⟨rfl, ⟨Tally.of_same _ rfl rfl, ?_, ?_⟩, ?_⟩
      · exact fun _ _ member => (List.not_mem_nil member).elim
      · exact fun _ _ => trivial
      · exact (fresh phase (openRun_ok opened).2.2.2).trans (and_iff_left rfl).symm
  | attempt k attempt attempt' phase taken => exact absurd rfl (outside k attempt attempt' phase)
  | succeed k attempt outcome started finished result phase settled returned =>
      rw [phase] at accounted
      obtain ⟨_, started', finished', outcome'⟩ := settled
      have inner : ∀ result, outcome = .ok result →
          result.recordsOut = 0 ∧ result.fetchedBytes = 0 := fun result same =>
        pipelineResult_counters (outcome'.symm.trans same)
      have zero := runWithOutcome_counters inner returned
      exact ⟨by simp, zero.1, zero.2, accounted.2.2⟩
  | retry k attempt attempt' outcome started finished tree phase settled raised retryable left start =>
      rw [not_retryable raised] at retryable
      cases retryable
  | _ => trivial

end call

section runs

variable {T : Type} {R : Runtime} {ι : Type} [DecidableEq ι] {feeds : ι → Feed T}

theorem Execution.inRun_attempting {P : PipelineSystem} {x : Execution P} {k : Nat} {a : P.State}
    (phase : x.phase = .attempting k a) : x.InRun := by
  unfold Execution.InRun
  rw [phase]
  trivial

omit [DecidableEq ι] in
theorem Rows.congr {jobs : ι → Job} {m m' : Manager jobs} (rows : Rows m)
    (db : m'.shared.db = m.shared.db)
    (opened : ∀ i, (m'.execution i).Opened → (m.execution i).Opened)
    (inRun : ∀ i, (m'.execution i).InRun → (m.execution i).InRun) : Rows m' where
  stored i now := by
    rw [db]
    exact rows.stored i (opened i now)
  apart i j other first second := rows.apart i j other (opened i first) (opened j second)
  running i now := by
    rw [db]
    exact rows.running i (inRun i now)

/-- What holds in every state: a run without a row of its own has no new rows in the tables,
and the calls know about theirs. -/
structure Tables.Sound (initial : Store) (s : Tables R feeds) : Prop where
  rows : Rows s.manager
  closed : ∀ id, s.manager.shared.db.run id = none →
    s.store.observationCount id = initial.observationCount id
  calls : ∀ i, (s.execution i).Accounted (feeds i)
    (initial.observationCount (feeds i).runId = 0) s.store

/-- What a step of one call leaves of the rows of the others. -/
theorem TablesStep.others {initial : Store} {s s' : Tables R feeds} {j : ι} (sound : s.Sound initial)
    (step : TablesStep R feeds s j s') {id : Uuid} (other : id ≠ (feeds j).runId) :
    s'.store.observationCount id = s.store.observationCount id := by
  rcases step.inv.1 with ⟨k, a, a', phase, taken, _, _, store⟩ | ⟨_, store, _⟩
  · rw [store]
    exact ((sound.calls j).attempt phase taken).2 id other
  · rw [store]

theorem Tables.Sound.rows_step {initial : Store} {s s' : Tables R feeds} {j : ι}
    (sound : s.Sound initial) (step : TablesStep R feeds s j s') : Rows s'.manager := by
  obtain ⟨own, kept⟩ := step.inv
  rcases own with ⟨k, a, a', phase, _, shared, now, _⟩ | ⟨taken, _, _⟩
  · have inRun := Execution.inRun_attempting phase
    have other : ∀ i, i ≠ j → s'.manager.execution i = s.manager.execution i := kept
    refine sound.rows.congr (by rw [shared]) ?_ ?_
    · intro i opened
      by_cases self : i = j
      · subst self
        exact Or.inl inRun
      · rwa [other i self] at opened
    · intro i running
      by_cases self : i = j
      · subst self
        exact inRun
      · rwa [other i self] at running
  · exact sound.rows.step taken

theorem Tables.Sound.step {initial : Store} {s s' : Tables R feeds} {j : ι} (sound : s.Sound initial)
    (step : TablesStep R feeds s j s') : s'.Sound initial := by
  refine ⟨sound.rows_step step, ?_, ?_⟩
  · intro id absent
    rcases step.inv.1 with ⟨k, a, a', phase, _, shared, _, _⟩ | ⟨taken, store, _⟩
    · rw [shared] at absent
      refine (TablesStep.others sound step ?_).trans (sound.closed id absent)
      rintro rfl
      exact sound.rows.stored j (Or.inl (Execution.inRun_attempting phase)) absent
    · rw [store]
      refine sound.closed id ?_
      by_contra stored
      exact taken.inv.1.run_stored stored absent
  · intro i
    by_cases self : i = j
    · subst self
      rcases step.inv.1 with ⟨k, a, a', phase, taken, _, now, store⟩ | ⟨taken, store, outside⟩
      · rw [now, store]
        exact ((sound.calls i).attempt phase taken).1
      · rw [store]
        refine Execution.Accounted.manage taken.inv.1 outside ?_ (sound.calls i)
        intro _ absent
        rw [sound.closed _ absent]
    · rw [step.inv.2 i self]
      refine (sound.calls i).congr fun running => ?_
      rcases step.inv.1 with ⟨k, a, a', phase, _⟩ | ⟨_, store, _⟩
      · refine TablesStep.others sound step (sound.rows.apart i j self (Or.inl running) (Or.inl ?_))
        exact Execution.inRun_attempting phase
      · rw [store]

theorem tables_sound {sh : Shared} {initial : Store} {s : Tables R feeds}
    (run : TablesReaches R feeds (.init R feeds sh initial) s) : s.Sound initial := by
  induction run with
  | refl => exact ⟨rows_init sh, fun _ _ => rfl, fun _ => trivial⟩
  | tail _ last ih =>
      obtain ⟨j, taken⟩ := last
      exact ih.step taken

/-- The call has written the row of its run for the last time. -/
def Execution.Past {P : PipelineSystem} (x : Execution P) : Prop :=
  match x.phase with
  | .reporting _ => True
  | .closing _ => True
  | .ended _ => True
  | _ => False

theorem JobStep.past {job : Job} {sh sh' : Shared} {x x' : Execution job.pipeline}
    (step : JobStep job sh x sh' x') (past : x.Past) :
    x'.Past ∧ x'.outcomes = x.outcomes ∧ sh'.db = sh.db := by
  unfold Execution.Past at past
  cases step with
  | report state now phase => exact ⟨trivial, rfl, rfl⟩
  | close exit phase => exact ⟨trivial, rfl, rfl⟩
  | _ =>
      rw [‹x.phase = _›] at past
      exact past.elim

/-- What the finalizing step of a call writes. -/
theorem JobStep.finalized {job : Job} {sh sh' : Shared} {x x' : Execution job.pipeline}
    (step : JobStep job sh x sh' x') {result : RunResult} {attempt : job.pipeline.State}
    (phase : x.phase = .finalizing result attempt) {state : RunState}
    (after : x'.phase = .reporting state) :
    x'.outcomes = x.outcomes ∧
      ∃ (row : FeedRunRow) (now : Int),
        sh'.db.run job.runId = some (row.finalized result now) := by
  cases step with
  | finalize result' attempt' row now phase' found =>
      rw [phase] at phase'
      cases phase'
      exact ⟨rfl, row, now, (finalizeRun_rows found result now _).trans (if_pos rfl)⟩
  | finalizeMissing => cases after
  | finalizeFail => cases after
  | _ =>
      rw [phase] at *
      contradiction

/-- Once a run is finalized, neither its row nor its rows in the tables change. -/
theorem TablesReaches.finalized {initial : Store} {s later : Tables R feeds} {i : ι}
    (run : TablesReaches R feeds s later) (sound : s.Sound initial) (past : (s.execution i).Past)
    (attempted : (s.execution i).outcomes ≠ []) :
    later.manager.shared.db.run (feeds i).runId = s.manager.shared.db.run (feeds i).runId ∧
      later.store.observationCount (feeds i).runId = s.store.observationCount (feeds i).runId := by
  suffices kept : later.Sound initial ∧ (later.execution i).Past ∧
      (later.execution i).outcomes ≠ [] ∧
      later.manager.shared.db.run (feeds i).runId = s.manager.shared.db.run (feeds i).runId ∧
      later.store.observationCount (feeds i).runId = s.store.observationCount (feeds i).runId from
    kept.2.2.2
  induction run with
  | refl => exact ⟨sound, past, attempted, rfl, rfl⟩
  | @tail t u _ last ih =>
      obtain ⟨j, step⟩ := last
      obtain ⟨sound', past', attempted', row, count⟩ := ih
      by_cases self : i = j
      · subst self
        rcases step.inv.1 with ⟨k, a, a', phase, _⟩ | ⟨taken, store, _⟩
        · unfold Execution.Past at past'
          rw [phase] at past'
          exact past'.elim
        · obtain ⟨past'', outcomes, db⟩ := taken.inv.1.past past'
          refine ⟨sound'.step step, past'', ?_, ?_, ?_⟩
          · unfold Tables.execution
            rw [outcomes]
            exact attempted'
          · rw [db]
            exact row
          · rw [store]
            exact count
      · have same := step.inv.2 i self
        refine ⟨sound'.step step, same ▸ past', same ▸ attempted', ?_, ?_⟩
        · rw [← row]
          rcases step.inv.1 with ⟨_, _, _, _, _, shared, _⟩ | ⟨taken, _, _⟩
          · rw [shared]
          · exact sound'.rows.run_kept taken self (Or.inr attempted')
        · rw [← count]
          rcases step.inv.1 with ⟨_, _, _, phase, _⟩ | ⟨_, store, _⟩
          · refine TablesStep.others sound' step (sound'.rows.apart i j self (Or.inr attempted') ?_)
            exact Or.inl (Execution.inRun_attempting phase)
          · rw [store]

/-- A row that execute finalizes counts the rows of its run in the tables and the bytes of its
payloads right exactly if there is nothing to count: the id had no rows before, the run has
committed no pair, and all its payloads are empty. From then on neither side changes. -/
theorem run_counters_iff (feeds : ι → Feed T) (sh : Shared) (initial : Store)
    {s s' : Tables R feeds} (run : TablesReaches R feeds (.init R feeds sh initial) s) {i : ι}
    (step : TablesStep R feeds s i s') {result : RunResult} {a : Attempt R (feeds i).onTables.spec}
    (phase : (s.execution i).phase = .finalizing result a) {state : RunState}
    (finalized : (s'.execution i).phase = .reporting state) :
    ∃ row, s'.manager.shared.db.run (feeds i).runId = some row ∧
      ((row.recordsOut = s'.store.observationCount (feeds i).runId ∧
          row.fetchedBytes = bodyBytes a.state.world.fetched) ↔
        initial.observationCount (feeds i).runId = 0 ∧ a.state.world.published.flatten = [] ∧
          ∀ payload ∈ a.state.world.fetched, payload.body = []) ∧
      ∀ later, TablesReaches R feeds s' later →
        later.manager.shared.db.run (feeds i).runId = some row ∧
          later.store.observationCount (feeds i).runId =
            s'.store.observationCount (feeds i).runId := by
  have sound := tables_sound run
  have accounted := sound.calls i
  unfold Execution.Accounted at accounted
  rw [phase] at accounted
  obtain ⟨attempted, out, bytes, accounts⟩ := accounted
  unfold Accounts at accounts
  rcases step.inv.1 with ⟨k, a', _, other, _⟩ | ⟨taken, store, _⟩
  · rw [phase] at other
    cases other
  obtain ⟨outcomes, row, now, found⟩ := taken.inv.1.finalized phase finalized
  refine ⟨row.finalized result now, found, ?_, ?_⟩
  · have records : (row.finalized result now).recordsOut = 0 := out
    have fetched : (row.finalized result now).fetchedBytes = 0 := bytes
    rw [records, fetched, store, ← bodyBytes_zero, ← and_assoc, ← accounts]
    omega
  · intro later rest
    have past : (s'.execution i).Past := by
      unfold Execution.Past
      rw [finalized]
      trivial
    have kept := rest.finalized (sound.step step) past (by
      unfold Tables.execution
      rw [outcomes]
      exact attempted)
    exact ⟨kept.1.trans found, kept.2⟩

end runs

section counterexample

/-- A document of one byte, for one mutex. -/
def mutexDocument : RawPayload := { emptyPayload with body := [109] }

def countedSpec : PipelineSpec Unit := { mutexSpec with connector := .ofList [mutexDocument] }

/-- The only call on a fresh worker, for a source of that document. -/
def countedFeed : Unit → Feed Unit := fun _ => { mutexFeed () with spec := countedSpec }

abbrev CountedTables : Type := Tables asciiRuntime countedFeed

abbrev countedNet : Net (World (Store × Unit)) Failure :=
  pipelineNet asciiRuntime countedSpec.onTables zeroClock feedContext

abbrev countedStart : countedNet.State := countedNet.init (World.fresh feedContext (⟨[], []⟩, ()))

def countedAttempt (s : countedNet.State) : Attempt asciiRuntime countedSpec.onTables :=
  ⟨(zeroClock, feedContext), s⟩

/-- The pipeline has ended and its one mutex is in the tables. -/
structure Counted (u : countedNet.State) : Prop where
  ended : countedNet.Ended u
  clean : u.errors = []
  published : u.world.published.flatten.length = 1
  fetched : u.world.fetched = [mutexDocument]
  stored : u.world.env.1.observationCount 1 = 1

theorem document_hands_on :
    HandsOn countedSpec.onTables.connector countedSpec.onTables.parser
      countedSpec.onTables.canonicalPublisher mutexDocument (⟨[], []⟩, ())
      (⟨[mutexPair.1], [mutexPair.2]⟩, ()) where
  fetched := ⟨_, ⟨rfl, rfl, rfl⟩, rfl, rfl, rfl⟩
  parsed := ⟨_, ⟨rfl, rfl, rfl⟩, rfl, rfl, rfl⟩
  published := ⟨rfl, rfl⟩

theorem document_counted :
    ∃ u, countedNet.Reaches Net.Smooth countedStart u ∧ Counted u := by
  obtain ⟨u, run, ended, clean, world⟩ := document_hands_on.delivered
  refine ⟨u, run, ended, clean, ?_, ?_, ?_⟩
  · rw [world]
    rfl
  · rw [world]
  · rw [world]
    rfl

theorem document_started :
    ∃ s : CountedTables, TablesReaches asciiRuntime countedFeed (.init _ _ feedShared ⟨[], []⟩) s ∧
      s.manager.shared.db = markRunning { feedShared.db with feedRuns := [feedRow] } feedRow ∧
      (s.manager.execution ()).phase = .attempting 1 (countedAttempt countedStart) ∧
      s.store = ⟨[], []⟩ := by
  obtain ⟨s₁, step₁, shared₁, now₁, store₁⟩ :=
    @JobStep.tables Unit asciiRuntime Unit _ countedFeed () (.init _ _ feedShared ⟨[], []⟩) _ _
      (.permit _ _ 0 _ rfl rfl) (fun _ _ _ => nofun)
  obtain ⟨s₂, step₂, shared₂, now₂, store₂⟩ :=
    @JobStep.tables Unit asciiRuntime Unit _ countedFeed () s₁ _ _
      (.build _ _ (congrArg Execution.phase now₁)) (fun _ _ _ => nofun)
  have opened : openRun s₂.manager.shared.db "feed".toList 1 0 =
      .ok ({ feedShared.db with feedRuns := [feedRow] }, feedRow, []) := by
    rw [shared₂, shared₁]
    exact feed_opened
  obtain ⟨s₃, step₃, shared₃, now₃, store₃⟩ :=
    @JobStep.tables Unit asciiRuntime Unit _ countedFeed () s₂ _ _
      (.openRun _ _ 0 _ _ _ (countedAttempt countedStart) (congrArg Execution.phase now₂)
        opened ⟨zeroClock, (⟨[], []⟩, ()), rfl⟩) (by rw [now₂]; exact fun _ _ _ => nofun)
  have run : TablesReaches asciiRuntime countedFeed (.init _ _ feedShared ⟨[], []⟩) s₃ :=
    ((Relation.ReflTransGen.single ⟨(), step₁⟩).tail ⟨(), step₂⟩).tail ⟨(), step₃⟩
  refine ⟨s₃, run, ?_, congrArg Execution.phase now₃, (store₃.trans store₂).trans store₁⟩
  rw [shared₃]
  rfl

/-- The call is about to finalize the result of its attempt. -/
theorem document_finalizing :
    ∃ (s : CountedTables) (result : RunResult) (u : countedNet.State),
      TablesReaches asciiRuntime countedFeed (.init _ _ feedShared ⟨[], []⟩) s ∧
      s.manager.shared.db = markRunning { feedShared.db with feedRuns := [feedRow] } feedRow ∧
      (s.manager.execution ()).phase = .finalizing result (countedAttempt u) ∧ Counted u ∧
      s.store = u.world.env.1 ∧ result.state = .success ∧ result.recordsOut = 0 ∧
      result.fetchedBytes = 0 := by
  obtain ⟨u, attempted, counted⟩ := document_counted
  obtain ⟨s, started, db, phase, store⟩ := document_started
  obtain ⟨s₁, run₁, shared₁, phase₁, store₁⟩ := tables_attempts attempted phase store
  obtain ⟨result, returned, zero⟩ : ∃ result, pipelineResult 0 0 u = .ok result ∧
      result.state = .success ∧ result.recordsOut = 0 ∧ result.fetchedBytes = 0 := by
    simp [pipelineResult, counted.clean]
  have settled : (netSystem asciiRuntime countedSpec.onTables).Outcome (countedAttempt u)
      (.ok result) := ⟨counted.ended, 0, 0, returned.symm⟩
  have last : JobStep ((countedFeed ()).onTables.job asciiRuntime) s₁.manager.shared
      (s₁.manager.execution ()) s₁.manager.shared
      ⟨.finalizing result (countedAttempt u), (s₁.manager.execution ()).outcomes ++ [.ok result]⟩ :=
    @JobStep.succeed ((countedFeed ()).onTables.job asciiRuntime) s₁.manager.shared
      (s₁.manager.execution ()) 1 (countedAttempt u) (.ok result) 0 0 result phase₁ settled rfl
  obtain ⟨s₂, step₂, shared₂, now₂, store₂⟩ :=
    @JobStep.tables Unit asciiRuntime Unit _ countedFeed () s₁ _ _ last (by
      intro k a a' _ same
      cases same)
  refine ⟨s₂, result, u, (started.trans run₁).tail ⟨(), step₂⟩, ?_, congrArg Execution.phase now₂,
    counted, store₂.trans store₁, zero⟩
  rw [shared₂, shared₁, db]

theorem document_finalized :
    ∃ (s s' : CountedTables) (result : RunResult) (u : countedNet.State) (row : FeedRunRow),
      TablesReaches asciiRuntime countedFeed (.init _ _ feedShared ⟨[], []⟩) s ∧
      TablesStep asciiRuntime countedFeed s () s' ∧
      (s.execution ()).phase = .finalizing result (countedAttempt u) ∧
      (s'.execution ()).phase = .reporting .success ∧ Counted u ∧ s'.store = u.world.env.1 ∧
      s'.manager.shared.db.run 1 = some row ∧ row.recordsOut = 0 ∧ row.fetchedBytes = 0 := by
  obtain ⟨s, result, u, run, db, phase, counted, store, success, out, bytes⟩ := document_finalizing
  have running : s.manager.shared.db.run 1 = some { feedRow with state := .running } := by
    rw [db]
    exact feed_running
  have last : JobStep ((countedFeed ()).onTables.job asciiRuntime) s.manager.shared
      (s.manager.execution ()) _ _ := .finalize _ _ result (countedAttempt u) _ 0 phase running
  obtain ⟨s', step, shared, now, store'⟩ :=
    @JobStep.tables Unit asciiRuntime Unit _ countedFeed () s _ _ last (fun _ _ _ _ => nofun)
  refine ⟨s, s', result, u, FeedRunRow.finalized { feedRow with state := .running } result 0, run,
    step, phase, ?_, counted, store'.trans store, ?_, out, bytes⟩
  · rw [← success]
    exact congrArg Execution.phase now
  · rw [shared]
    exact (finalizeRun_rows running result 0 1).trans (if_pos rfl)

/-- The row says that nothing came in and nothing went out. -/
theorem run_counters_document :
    ∃ (s s' : CountedTables) (result : RunResult)
      (a : Attempt asciiRuntime (countedFeed ()).onTables.spec) (row : FeedRunRow),
      TablesReaches asciiRuntime countedFeed (.init _ _ feedShared ⟨[], []⟩) s ∧
      TablesStep asciiRuntime countedFeed s () s' ∧
      (s.execution ()).phase = .finalizing result a ∧
      (s'.execution ()).phase = .reporting .success ∧ s'.manager.shared.db.run 1 = some row ∧
      row.recordsOut = 0 ∧ s'.store.observationCount 1 = 1 ∧
      row.fetchedBytes = 0 ∧ bodyBytes a.state.world.fetched = 1 := by
  obtain ⟨s, s', result, u, row, run, step, phase, after, counted, store, found, out, bytes⟩ :=
    document_finalized
  refine ⟨s, s', result, countedAttempt u, row, run, step, phase, after, found, out, ?_, bytes, ?_⟩
  · rw [store]
    exact counted.stored
  · exact congrArg bodyBytes counted.fetched

/-- Its counters are wrong for good. -/
theorem run_counters_iff_document :
    ∃ (s : CountedTables) (row : FeedRunRow),
      TablesReaches asciiRuntime countedFeed (.init _ _ feedShared ⟨[], []⟩) s ∧
      s.manager.shared.db.run 1 = some row ∧
      ∀ later, TablesReaches asciiRuntime countedFeed s later →
        later.manager.shared.db.run 1 = some row ∧
          ¬ (row.recordsOut = later.store.observationCount 1 ∧ row.fetchedBytes = 1) := by
  obtain ⟨s, s', result, u, _, run, step, phase, after, counted, _⟩ := document_finalized
  obtain ⟨row, found, right, kept⟩ := run_counters_iff countedFeed feedShared ⟨[], []⟩ run step phase
    after
  refine ⟨s', row, run.tail ⟨(), step⟩, found, ?_⟩
  intro later rest
  obtain ⟨row', count⟩ := kept later rest
  refine ⟨row', ?_⟩
  rintro ⟨out, bytes⟩
  have stored : row.recordsOut = s'.store.observationCount 1 :=
    out.trans (congrArg Nat.cast count)
  have fetched : row.fetchedBytes = bodyBytes (countedAttempt u).state.world.fetched :=
    bytes.trans (congrArg Nat.cast (congrArg bodyBytes counted.fetched)).symm
  have empty := (right.mp ⟨stored, fetched⟩).2.2
  have document : mutexDocument ∈ u.world.fetched := by
    rw [counted.fetched]
    exact List.mem_singleton_self _
  cases empty mutexDocument document

end counterexample

end Cti
