import Cti.MergeJoin
import Cti.RunCounters

set_option autoImplicit false

/- The tables of all runs are those of a serial execution of their transactions. -/
namespace Cti

open Py (Str)
open TaskNet (Net)

section store

/-- What the constraints of the schema and the persist stages keep. -/
structure Store.Valid (store : Store) : Prop where
  ids : (store.indicators.map Indicator.id).Nodup
  values : (store.indicators.map fun row => (row.type, row.value)).Nodup
  referential : store.Referential

/-- A row after some updates: only the columns of the conflict clause have changed. -/
structure Indicator.Updated (row row' : Indicator) : Prop where
  confidence : row.confidence ≤ row'.confidence
  lastSeenByUs : row.lastSeenByUs ≤ row'.lastSeenByUs
  others : row' = { row with
    confidence := row'.confidence, lastSeenByUs := row'.lastSeenByUs, tags := row'.tags }

/-- Nothing that was stored is lost. -/
structure Store.Extends (store store' : Store) : Prop where
  rows : ∀ id row, store.row id = some row → ∃ row', store'.row id = some row' ∧ row.Updated row'
  observations : store.observations <+: store'.observations

theorem foldl_onConflict_updated (rows : List Indicator) :
    ∀ row : Indicator, row.Updated (rows.foldl onConflict row) := by
  induction rows with
  | nil => exact fun row => ⟨le_rfl, le_rfl, rfl⟩
  | cons next rows ih =>
      intro row
      obtain ⟨confidence, lastSeen, others⟩ := ih (onConflict row next)
      exact ⟨(le_max_left _ _).trans confidence, (le_max_left _ _).trans lastSeen, others⟩

variable {store store' : Store} {batches : List (List Sighting)}

theorem publishAll_extends (committed : publishAll store batches = .ok store') :
    store.Extends store' where
  rows id row stored := by
    have after := publishAll_row committed id
    rw [stored, KeyedTable.foldl_absorb_some] at after
    exact ⟨_, after, foldl_onConflict_updated _ row⟩
  observations := by
    rw [(publishAll_ok.mp committed).2.2]
    exact List.prefix_append _ _

theorem insertRow_ids {table table' : List Indicator} {row : Indicator}
    (inserted : insertRow table row = .ok table') (ids : (table.map Indicator.id).Nodup) :
    (table'.map Indicator.id).Nodup := by
  obtain ⟨_, rfl⟩ := insertRow_ok.mp inserted
  have fresh : (∀ old ∈ table, old.id ≠ row.id) → row.id ∉ table.map Indicator.id := by
    intro absent member
    obtain ⟨old, inside, same⟩ := List.mem_map.mp member
    exact absent old inside same
  exact KeyedTable.nodup_upsert onConflict_id ids fresh

theorem insertRow_values {table table' : List Indicator} {row : Indicator}
    (inserted : insertRow table row = .ok table')
    (values : (table.map fun row => (row.type, row.value)).Nodup) :
    (table'.map fun row => (row.type, row.value)).Nodup := by
  obtain ⟨admits, rfl⟩ := insertRow_ok.mp inserted
  have fresh : (∀ old ∈ table, old.id ≠ row.id) →
      (row.type, row.value) ∉ table.map fun row => (row.type, row.value) := by
    intro absent member
    obtain ⟨old, inside, same⟩ := List.mem_map.mp member
    rcases admits with ⟨known, stored, hit⟩ | free
    · exact absent known stored hit
    · exact free old inside (Prod.mk.inj same)
  refine KeyedTable.nodup_upsert ?_ values fresh
  exact fun _ _ => rfl

theorem foldlM_insertRow_keeps {P : List Indicator → Prop}
    (keeps : ∀ table row table', insertRow table row = .ok table' → P table → P table')
    {table table' rows : List Indicator} (inserted : rows.foldlM insertRow table = .ok table')
    (holds : P table) : P table' := by
  induction rows generalizing table with
  | nil =>
      cases inserted
      exact holds
  | cons row rows ih =>
      rw [List.foldlM_cons, bind_ok] at inserted
      obtain ⟨between, step, rest⟩ := inserted
      exact ih rest (keeps _ _ _ step holds)

theorem publishAll_valid (committed : publishAll store batches = .ok store')
    (paired : ∀ batch ∈ batches, ∀ pair ∈ batch, Paired pair) (valid : store.Valid) :
    store'.Valid where
  ids := foldlM_insertRow_keeps (fun _ _ _ => insertRow_ids) (publishAll_ok.mp committed).2.1
    valid.ids
  values := foldlM_insertRow_keeps (fun _ _ _ => insertRow_values) (publishAll_ok.mp committed).2.1
    valid.values
  referential := Store.Grows.referential ⟨batches, paired, committed⟩ valid.referential

theorem publishAll_append {store'' : Store} {batches' : List (List Sighting)}
    (first : publishAll store batches = .ok store')
    (second : publishAll store' batches' = .ok store'') :
    publishAll store (batches ++ batches') = .ok store'' := by
  unfold publishAll
  rw [List.foldlM_append]
  exact bind_ok.mpr ⟨store', first, second⟩

/-- Transactions one after the other, of pairs with a property. -/
def Store.Writes (P : Sighting → Prop) (store store' : Store) : Prop :=
  ∃ batches, (∀ batch ∈ batches, ∀ pair ∈ batch, P pair) ∧ publishAll store batches = .ok store'

variable {P : Sighting → Prop} {store'' : Store} {batch : List Sighting}

theorem Store.Writes.refl (store : Store) : store.Writes P store := ⟨[], nofun, rfl⟩

theorem Store.Writes.trans (first : store.Writes P store') (second : store'.Writes P store'') :
    store.Writes P store'' := by
  obtain ⟨batches, own, committed⟩ := first
  obtain ⟨batches', own', committed'⟩ := second
  exact ⟨batches ++ batches', List.forall_mem_append.mpr ⟨own, own'⟩,
    publishAll_append committed committed'⟩

theorem Store.Writes.publish (own : ∀ pair ∈ batch, P pair)
    (committed : Cti.publish store batch = .ok store') : store.Writes P store' := by
  refine ⟨[batch], List.forall_mem_singleton.mpr own, ?_⟩
  simp [publishAll, committed]

end store

section typing

variable {T : Type} (R : Runtime) (spec : PipelineSpec T) (clock : Clock) (ctx : RunContext)

/-- What `run_persist` makes of an indicator. -/
def Observed (pair : Sighting) : Prop := ∃ raw now, pair.2 = observe ctx pair.1 raw now

/-- A run writes what it observed. -/
def WritesOwn (w w' : World (Store × T)) : Prop := w.env.1.Writes (Observed ctx) w'.env.1

theorem WritesOwn.of_same {w w' : World (Store × T)} (tables : w'.env.1 = w.env.1) :
    WritesOwn ctx w w' := by
  unfold WritesOwn
  rw [tables]
  exact .refl _

theorem WritesOwn.of_aside {w w' : World (Store × T)} (aside : Aside stillDrift w w') :
    WritesOwn ctx w w' := .of_same ctx aside.1.symm

theorem onTables_writes (publisher : Plugin.Publisher T) {w : World (Store × T)}
    {batch : List Sighting} (good : ∀ pair ∈ batch, Observed ctx pair) (ctx' : RunContext) :
    (publisher.onTables.publish batch ctx').Moves (WritesOwn ctx) w := by
  unfold Plugin.Publisher.onTables
  split
  · constructor
    · rintro a env ⟨committed, _⟩
      exact .publish good committed
    · rintro e env rfl
      exact .of_same ctx rfl
  · exact (Call.beside_moves stillDrift (publisher.publish batch ctx') w).mono (.of_aside ctx)

variable {R spec clock ctx} in
/-- A relation between the worlds of a run over the tables that holds when the tables stay as they
are, and for what the publishers do to them. -/
def tablesTyping (Later : World (Store × T) → World (Store × T) → Prop)
    (trans : ∀ {w w' w''}, Later w w' → Later w' w'' → Later w w'')
    (aside : ∀ {w w'}, Aside stillDrift w w' → Later w w') (Made : Sighting → Prop)
    (made : ∀ item n, Made (persistItem ctx clock n item))
    (committed : ∀ {batch}, (∀ pair ∈ batch, Made pair) → ∀ {w : World (Store × T)} {env},
      Cti.publish w.env.1 batch = .ok env.1 →
        Later w { w with env := env, published := w.published ++ [batch] })
    (publish : ∀ publisher ∈ spec.extraPublishers, ∀ {w batch}, (∀ pair ∈ batch, Made pair) →
      (publisher.onTables.publish batch w.ctx).Moves Later w) :
    PipelineTyping R spec.onTables clock ctx where
  Later := Later
  refl _ := aside ⟨rfl, rfl⟩
  trans := trans
  Fine _ := True
  Made := Made
  Good _ := Made
  good_mono _ _ good := good
  fetch w own := ((fetch_aside stillDrift spec.connector spec.archive own).mono aside).at w
  parse gen w := (Call.beside_moves stillDrift (spec.parser.resume gen w.ctx) w).mono aside
  normalize _ := trivial
  enrich enricher member ind w := by
    obtain ⟨inner, _, rfl⟩ := List.mem_map.mp member
    exact (Call.beside_moves stillDrift (inner.enrich ind w.ctx) w).mono aside
  enriched _ _ _ _ _ _ _ _ := trivial
  dedup own id w := (add_aside stillDrift own id w).mono aside
  made n _ := made _ n
  committed own _ _ result := ⟨committed own result.1, own⟩
  failed {batch} _ {w e env} result := by
    cases result
    exact aside ⟨rfl, rfl⟩
  publish publisher member {w batch} good := by
    obtain ⟨inner, among, rfl⟩ := List.mem_map.mp member
    exact publish inner among good

def writesTyping : PipelineTyping R spec.onTables clock ctx :=
  tablesTyping (WritesOwn ctx) .trans (.of_aside ctx) (Observed ctx) (fun _ _ => ⟨_, _, rfl⟩)
    (fun {_} own {_ _} committed => .publish own committed)
    (fun publisher _ {_ _} good => onTables_writes ctx publisher good _)

end typing

section call

variable {T : Type} {R : Runtime} {feed : Feed T}

/-- What a run of the feed observes. -/
def Feed.Observed (feed : Feed T) : Sighting → Prop :=
  Cti.Observed ⟨feed.runId, feed.sourceId, [], none⟩

/-- An attempt of a call is one of its run, and what is in its queues will be observed in it. -/
def Execution.Writing (feed : Feed T) (store : Store)
    (x : Execution (netSystem R feed.onTables.spec)) : Prop :=
  match x.phase with
  | .attempting _ a => (a.ctx.runId = feed.runId ∧ a.ctx.sourceId = feed.sourceId) ∧
      Net.Typed (writesTyping R feed.spec a.clock a.ctx).typing (a.seeing store).state.world
        (a.seeing store).state
  | _ => True

variable {store store' : Store} {x x' : Execution (netSystem R feed.onTables.spec)}

theorem Execution.Writing.congr (writing : x.Writing feed store) : x.Writing feed store' := by
  obtain ⟨phase, outcomes⟩ := x
  cases phase with
  | attempting k a =>
      exact ⟨writing.1, PipelineTyping.typed_world (s := (a.seeing store).state)
        (w := a.state.world.seeing store') _ writing.2 fun _ good => good⟩
  | _ => trivial

/-- A step of the pipeline commits transactions of its own run, or none. -/
theorem Execution.Writing.attempt {k : Nat} {a a' : Attempt R feed.onTables.spec}
    (writing : x.Writing feed store) (phase : x.phase = .attempting k a)
    (taken : (netSystem R feed.onTables.spec).Step (a.seeing store) a') :
    Execution.Writing feed a'.store { x with phase := .attempting k a' } ∧
      store.Writes feed.Observed a'.store := by
  unfold Execution.Writing at writing
  rw [phase] at writing
  obtain ⟨own, typed⟩ := writing
  obtain ⟨label, t, step, rfl⟩ := taken
  have after := typed.step step
  have writes : WritesOwn a.ctx (a.seeing store).state.world t.world := after.later
  refine ⟨⟨own, ⟨.of_same _ rfl, after.chan, after.task⟩⟩, ?_⟩
  obtain ⟨batches, observed, committed⟩ := writes
  refine ⟨batches, fun batch member pair inside => ?_, committed⟩
  obtain ⟨raw, now, same⟩ := observed batch member pair inside
  refine ⟨raw, now, ?_⟩
  rw [same, observe, observe, own.1, own.2]

theorem Execution.Writing.manage {sh sh' : Shared}
    {x x' : Execution (feed.onTables.job R).pipeline}
    (step : JobStep (feed.onTables.job R) sh x sh' x')
    (outside : ∀ k a a', x.phase = .attempting k a → x'.phase ≠ .attempting k a') :
    Execution.Writing feed store x' := by
  cases step with
  | openRun now db row watermark attempt phase opened start =>
      obtain ⟨clock, env, rfl⟩ := start
      refine ⟨⟨rfl, rfl⟩, ⟨.of_same _ rfl, ?_, ?_⟩⟩
      · exact fun _ _ member => (List.not_mem_nil member).elim
      · exact fun _ _ => trivial
  | attempt k attempt attempt' phase taken => exact absurd rfl (outside k attempt attempt' phase)
  | retry k attempt attempt' outcome started finished tree phase settled raised retryable left start =>
      rw [not_retryable raised] at retryable
      cases retryable
  | _ => trivial

end call

section runs

variable {T : Type} {R : Runtime} {ι : Type} [DecidableEq ι] {feeds : ι → Feed T}

/-- All calls write what they observe. -/
def Tables.Writing (s : Tables R feeds) : Prop := ∀ i, (s.execution i).Writing (feeds i) s.store

theorem Tables.Writing.step {s s' : Tables R feeds} {j : ι} (writing : s.Writing)
    (step : TablesStep R feeds s j s') :
    s'.Writing ∧ s.store.Writes (feeds j).Observed s'.store := by
  obtain ⟨own, others⟩ := step.inv
  have rest : ∀ i, i ≠ j → (s'.execution i).Writing (feeds i) s'.store := fun i other => by
    rw [others i other]
    exact (writing i).congr
  rcases own with ⟨k, a, a', phase, taken, _, now, store⟩ | ⟨taken, store, outside⟩
  · obtain ⟨after, writes⟩ := (writing j).attempt phase taken
    rw [store]
    refine ⟨fun i => ?_, writes⟩
    by_cases self : i = j
    · subst self
      rw [now, store]
      exact after
    · exact rest i self
  · rw [store]
    refine ⟨fun i => ?_, .refl _⟩
    by_cases self : i = j
    · subst self
      exact Execution.Writing.manage taken.inv.1 outside
    · exact rest i self

theorem tables_writing {sh : Shared} {initial : Store} {s : Tables R feeds}
    (run : TablesReaches R feeds (.init R feeds sh initial) s) : s.Writing := by
  induction run with
  | refl => exact fun _ => trivial
  | tail _ last ih =>
      obtain ⟨j, taken⟩ := last
      exact (ih.step taken).1

theorem tables_commits {sh : Shared} {initial : Store} {s s' : Tables R feeds}
    (before : TablesReaches R feeds (.init R feeds sh initial) s)
    (run : TablesReaches R feeds s s') :
    ∃ commits : List (ι × List Sighting), publishAll s.store (commits.map Prod.snd) = .ok s'.store ∧
      ∀ commit ∈ commits, ∀ pair ∈ commit.2, (feeds commit.1).Observed pair := by
  induction run with
  | refl => exact ⟨[], rfl, nofun⟩
  | @tail u v run last ih =>
      obtain ⟨commits, committed, observed⟩ := ih
      obtain ⟨j, taken⟩ := last
      obtain ⟨batches, own, more⟩ := ((tables_writing (before.trans run)).step taken).2
      refine ⟨commits ++ batches.map fun batch => (j, batch), ?_, ?_⟩
      · have same : (batches.map fun batch => (j, batch)).map Prod.snd = batches := by
          rw [List.map_map]
          exact List.map_id batches
        rw [List.map_append, same]
        exact publishAll_append committed more
      · refine List.forall_mem_append.mpr ⟨observed, fun commit member => ?_⟩
        obtain ⟨batch, inside, rfl⟩ := List.mem_map.mp member
        exact own batch inside

/-- The tables from one state to a later one, whatever the calls do in between: there is a
sequence of transactions, each of observations that one call made in its run, that gives the same
tables when they commit one after the other. It keeps the constraints of the tables and loses
nothing. -/
theorem tables_serial {sh : Shared} {initial : Store} {s s' : Tables R feeds}
    (before : TablesReaches R feeds (.init R feeds sh initial) s)
    (run : TablesReaches R feeds s s') :
    (∃ commits : List (ι × List Sighting), publishAll s.store (commits.map Prod.snd) = .ok s'.store ∧
        ∀ commit ∈ commits, ∀ pair ∈ commit.2, (feeds commit.1).Observed pair) ∧
      s.store.Extends s'.store ∧ (s.store.Valid → s'.store.Valid) := by
  obtain ⟨commits, committed, observed⟩ := tables_commits before run
  refine ⟨⟨commits, committed, observed⟩, publishAll_extends committed, publishAll_valid committed ?_⟩
  intro batch member pair inside
  obtain ⟨commit, among, rfl⟩ := List.mem_map.mp member
  obtain ⟨raw, now, same⟩ := observed commit among pair inside
  unfold Paired
  rw [same]
  rfl

theorem valid_empty : Store.Valid ⟨[], []⟩ := ⟨List.nodup_nil, List.nodup_nil, nofun⟩

/-- One document of one run. -/
theorem tables_serial_document :
    ∃ s : CountedTables, TablesReaches asciiRuntime countedFeed (.init _ _ feedShared ⟨[], []⟩) s ∧
      s.store.observationCount 1 = 1 ∧ s.store.Valid ∧
      ∃ commits : List (Unit × List Sighting),
        publishAll ⟨[], []⟩ (commits.map Prod.snd) = .ok s.store ∧
          ∀ commit ∈ commits, ∀ pair ∈ commit.2, (countedFeed commit.1).Observed pair := by
  obtain ⟨s, _, u, run, _, _, counted, store, _⟩ := document_finalizing
  obtain ⟨serial, _, valid⟩ := tables_serial .refl run
  refine ⟨s, run, ?_, valid valid_empty, serial⟩
  rw [store]
  exact counted.stored

end runs

end Cti
