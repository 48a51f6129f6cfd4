import Cti.Beside
import Cti.Delivery
import Cti.TaskNetTrace
import Cti.TaskNetTyping

set_option autoImplicit false

/- The durability fence: runs of pipelines over the tables that all runs share. -/
namespace Cti

open Py (Str)
open TaskNet (Action Channel Contract Coroutine Net Owes Status)

section store

/-- The indicators table has a row with the id. -/
def Store.Has (store : Store) (id : Uuid) : Prop := ∃ row ∈ store.indicators, row.id = id

/-- Every observation refers to an indicators row. No constraint of the schema says so. -/
def Store.Referential (store : Store) : Prop :=
  ∀ row ∈ store.observations, store.Has row.indicatorId

/-- An observation is of the indicator it comes with. -/
def Paired (pair : Sighting) : Prop := pair.2.indicatorId = pair.1.id

/-- What transactions of persist stages make of the store. -/
def Store.Grows (store store' : Store) : Prop :=
  ∃ batches, (∀ batch ∈ batches, ∀ pair ∈ batch, Paired pair) ∧
    publishAll store batches = .ok store'

/-- The store after a transaction with the batch; others may have committed before it. -/
def Store.Commits (batch : List Sighting) (store store' : Store) : Prop :=
  ∃ before, store.Grows before ∧ publish before batch = .ok store'

variable {store store' store'' : Store} {batch : List Sighting}

theorem Store.Grows.refl (store : Store) : store.Grows store := ⟨[], nofun, rfl⟩

theorem Store.Grows.trans (first : store.Grows store') (second : store'.Grows store'') :
    store.Grows store'' := by
  obtain ⟨batches, paired, committed⟩ := first
  obtain ⟨batches', paired', committed'⟩ := second
  refine ⟨batches ++ batches', ?_, ?_⟩
  · intro batch member
    rcases List.mem_append.mp member with member | member
    · exact paired batch member
    · exact paired' batch member
  · unfold publishAll
    rw [List.foldlM_append]
    exact bind_ok.mpr ⟨store', committed, committed'⟩

theorem Store.Commits.grows (commits : store.Commits batch store')
    (paired : ∀ pair ∈ batch, Paired pair) : store.Grows store' := by
  obtain ⟨before, grown, committed⟩ := commits
  refine grown.trans ⟨[batch], ?_, ?_⟩
  · intro other member
    cases List.mem_singleton.mp member
    exact paired
  · simp [publishAll, committed]

/-- Upserts only add ids. -/
theorem has_foldl_upsertRow {table rows : List Indicator} {id : Uuid} :
    (∃ row ∈ rows.foldl upsertRow table, row.id = id) ↔
      (∃ row ∈ rows, row.id = id) ∨ ∃ row ∈ table, row.id = id := by
  induction rows generalizing table with
  | nil => simp
  | cons row rows ih =>
      rw [List.foldl_cons, ih]
      unfold upsertRow
      rw [KeyedTable.mem_upsert_key (fun old new _ => onConflict_id old new)]
      simp only [List.mem_cons, exists_eq_or_imp]
      rw [or_assoc]
      exact or_left_comm

theorem publishAll_has {batches : List (List Sighting)}
    (committed : publishAll store batches = .ok store') (id : Uuid) :
    store'.Has id ↔ (∃ pair ∈ batches.flatten, pair.1.id = id) ∨ store.Has id := by
  unfold Store.Has
  rw [foldlM_insertRow_ok (publishAll_ok.mp committed).2.1, has_foldl_upsertRow]
  simp only [List.mem_map, exists_exists_and_eq_and]

theorem Store.Grows.has (grown : store.Grows store') {id : Uuid} (has : store.Has id) :
    store'.Has id := by
  obtain ⟨batches, _, committed⟩ := grown
  exact (publishAll_has committed id).mpr (Or.inr has)

theorem Store.Grows.observed (grown : store.Grows store') {row : Observation}
    (member : row ∈ store.observations) : row ∈ store'.observations := by
  obtain ⟨batches, _, committed⟩ := grown
  rw [(publishAll_ok.mp committed).2.2]
  exact List.mem_append_left _ member

theorem Store.Grows.referential (grown : store.Grows store') (sound : store.Referential) :
    store'.Referential := by
  intro row member
  have grown' := grown
  obtain ⟨batches, paired, committed⟩ := grown
  rw [(publishAll_ok.mp committed).2.2] at member
  rcases List.mem_append.mp member with old | new
  · exact grown'.has (sound row old)
  · obtain ⟨pair, inside, rfl⟩ := List.mem_map.mp new
    obtain ⟨batch, member, inside'⟩ := List.mem_flatten.mp inside
    refine (publishAll_has committed _).mpr (Or.inl ⟨pair, inside, ?_⟩)
    exact (paired batch member pair inside').symm

/-- What a committed batch leaves in the two tables. -/
theorem Store.Commits.stored (commits : store.Commits batch store') {pair : Sighting}
    (member : pair ∈ batch) : store'.Has pair.1.id ∧ pair.2 ∈ store'.observations := by
  obtain ⟨before, _, committed⟩ := commits
  obtain ⟨_, rows, observations⟩ := publish_ok.mp committed
  constructor
  · unfold Store.Has
    rw [foldlM_insertRow_ok rows, has_foldl_upsertRow]
    exact Or.inl ⟨pair.1, List.mem_map_of_mem member, rfl⟩
  · rw [observations]
    exact List.mem_append_right _ (List.mem_map_of_mem member)

end store

section plugins

variable {T : Type}

/-- While a plugin is called, other runs may commit. -/
def storeDrift : Drift Store := ⟨Store.Grows, Store.Grows.refl⟩

/-- `PostgresPublisher`. Its transaction commits or is rolled back, and it may fail at any
time. -/
def Plugin.Publisher.postgres (T : Type) : Plugin.Publisher (Store × T) where
  name := "postgres".toList
  publish batch _ :=
    { returns := fun s _ s' => s.1.Commits batch s'.1 ∧ s'.2 = s.2
      raises := fun s _ s' => s' = s
      answers := fun s => Or.inr
        ⟨.leaf (ClassName.exception.exc []) rfl, s, rfl⟩ }

/-- An extra publisher. It may be the one that writes to the tables, too. -/
def Plugin.Publisher.onStore (publisher : Plugin.Publisher T) : Plugin.Publisher (Store × T) :=
  if publisher.name = "postgres".toList then .postgres T else publisher.beside storeDrift

/-- A pipeline whose canonical publisher writes to the tables. Its other plugins do not,
unless they are publishers of the same kind. -/
def PipelineSpec.onStore (spec : PipelineSpec T) : PipelineSpec (Store × T) where
  connector := spec.connector.beside storeDrift
  parser := spec.parser.beside storeDrift
  enrichers := spec.enrichers.map (·.beside storeDrift)
  canonicalPublisher := .postgres T
  extraPublishers := spec.extraPublishers.map Plugin.Publisher.onStore
  normalize := spec.normalize
  archive := spec.archive.map (·.beside storeDrift)
  bloom := spec.bloom.map (·.beside storeDrift)
  queueMaxsize := spec.queueMaxsize
  batchSize := spec.batchSize

end plugins

section fence

variable {T : Type} (R : Runtime) (spec : PipelineSpec T) (clock : Clock) (ctx : RunContext)

/-- What the run has committed stays committed. -/
def Later (w w' : World (Store × T)) : Prop :=
  w.env.1.Grows w'.env.1 ∧ w.published <+: w'.published

/-- The pair is in a batch that this run has committed, and in both tables. -/
def Durable (w : World (Store × T)) (pair : Sighting) : Prop :=
  pair ∈ w.published.flatten ∧ w.env.1.Has pair.1.id ∧ pair.2 ∈ w.env.1.observations ∧
    pair.2.indicatorId = pair.1.id ∧ pair.2.feedRunId = ctx.runId

/-- What run_persist hands on, before it is committed. -/
def Own (pair : Sighting) : Prop := Paired pair ∧ pair.2.feedRunId = ctx.runId

theorem Later.refl (w : World (Store × T)) : Later w w := ⟨Store.Grows.refl _, List.prefix_rfl⟩

theorem Later.trans {w w' w'' : World (Store × T)} (first : Later w w') (second : Later w' w'') :
    Later w w'' :=
  ⟨first.1.trans second.1, first.2.trans second.2⟩

variable {ctx} in
theorem Durable.mono {w w' : World (Store × T)} (later : Later w w') {pair : Sighting}
    (durable : Durable ctx w pair) : Durable ctx w' pair := by
  obtain ⟨published, has, observed, own⟩ := durable
  obtain ⟨more, grown⟩ := later.2
  refine ⟨?_, later.1.has has, later.1.observed observed, own⟩
  rw [← grown, List.flatten_append]
  exact List.mem_append_left _ published

theorem Later.of_aside {w w' : World (Store × T)} (aside : Aside storeDrift w w') : Later w w' :=
  ⟨aside.1, by rw [aside.2]⟩

theorem onStore_moves (publisher : Plugin.Publisher T) {w : World (Store × T)}
    {batch : List Sighting} (durable : ∀ pair ∈ batch, Durable ctx w pair) (ctx' : RunContext) :
    (publisher.onStore.publish batch ctx').Moves Later w := by
  unfold Plugin.Publisher.onStore
  split
  · constructor
    · rintro a env ⟨commits, _⟩
      exact ⟨commits.grows fun pair member => (durable pair member).2.2.2.1, List.prefix_rfl⟩
    · rintro e env rfl
      exact Later.refl w
  · exact (Call.beside_moves storeDrift (publisher.publish batch ctx') w).mono Later.of_aside

/-- Persist is the fence: only committed pairs flow past it. -/
def fenceTyping : PipelineTyping R spec.onStore clock ctx where
  Later := Later
  refl := Later.refl
  trans := Later.trans
  Fine _ := True
  Made := Own ctx
  Good := Durable ctx
  good_mono later _ durable := durable.mono later
  fetch w own := ((fetch_aside storeDrift spec.connector spec.archive own).mono Later.of_aside).at w
  parse gen w :=
    (Call.beside_moves storeDrift (spec.parser.resume gen w.ctx) w).mono Later.of_aside
  normalize _ := trivial
  enrich enricher member ind w := by
    obtain ⟨inner, _, rfl⟩ := List.mem_map.mp member
    exact (Call.beside_moves storeDrift (inner.enrich ind w.ctx) w).mono Later.of_aside
  enriched _ _ _ _ _ _ _ _ := trivial
  dedup own id w := (add_aside storeDrift own id w).mono Later.of_aside
  made _ _ := ⟨rfl, rfl⟩
  committed {batch} own {w env} result := by
    obtain ⟨commits, _⟩ := result
    refine ⟨⟨commits.grows fun pair member => (own pair member).1, List.prefix_append _ _⟩, ?_⟩
    intro pair member
    obtain ⟨has, observed⟩ := commits.stored member
    refine ⟨?_, has, observed, own pair member⟩
    rw [List.flatten_append]
    exact List.mem_append_right _ (by simpa using member)
  failed {batch} _ {w e env} result := by
    cases result
    exact Later.refl w
  publish publisher member {w batch} durable := by
    obtain ⟨inner, _, rfl⟩ := List.mem_map.mp member
    exact onStore_moves ctx inner durable w.ctx

/-- The pairs that are being passed to an extra publisher. -/
def PublishPc.passed {S : Type} : PublishPc S → List Sighting
  | .flushing publisher _ _ batches => batches publisher.name
  | .finishing publisher _ batches => batches publisher.name
  | _ => []

theorem PublishPc.Holds.passed {S : Type} {publishers : List (Plugin.Publisher S)}
    {Good : Sighting → Prop} {pc : PublishPc S} (holds : pc.Holds publishers Good) {pair : Sighting}
    (member : pair ∈ pc.passed) : Good pair := by
  cases pc with
  | flushing publisher rest _ batches => exact holds.2.2 publisher.name pair member
  | finishing publisher rest batches => exact holds.2 publisher.name pair member
  | _ => exact (List.not_mem_nil member).elim

/-- What a flush has committed and not forwarded. -/
def PersistPc.owed : PersistPc → List Sighting
  | .putting _ pair rest _ => pair :: rest
  | _ => []

theorem forwardNext_owed (n : Nat) (rest : List Sighting) (last : Bool) :
    (forwardNext n rest last).owed = rest := by
  cases rest with
  | nil => cases last <;> rfl
  | cons pair rest => rfl

theorem persist_owes {S : Type} (publisher : Plugin.Publisher S) (batchSize : Int) :
    Owes (runPersist publisher ctx clock batchSize) (fun w => w.published.flatten)
      PersistPc.owed where
  start := rfl
  get {pc next} act item := by
    cases pc <;> cases act
    cases item with
    | none => dsimp only; split <;> rfl
    | some item => dsimp only [persistNext]; split <;> rfl
  put {pc item next} act := by
    cases pc <;> cases act
    rw [forwardNext_owed]
    rfl
  call {pc returns raises w w' next} act result := by
    cases pc with
    | publishing n batch last =>
        simp only [runPersist, persistAct] at act
        obtain ⟨_, env, _, rfl, rfl⟩ := Call.await_returns act result
        exact ⟨batch, by simp, forwardNext_owed n batch last⟩
    | _ => cases act
  raise {pc returns raises w error w'} act result := by
    cases pc with
    | publishing n batch last =>
        cases act
        obtain ⟨env, _, rfl⟩ := result
        rfl
    | _ => cases act

/-- A failing transaction is rolled back. -/
theorem persist_rolls_back {s t : (pipelineNet R spec.onStore clock ctx).State} {e : Failure}
    (step : (pipelineNet R spec.onStore clock ctx).Step s (.task 5 (.raise e)) t) :
    t.world.env.1 = s.world.env.1 := by
  cases step with
  | task i label v inside step =>
      cases step with
      | raise pc returns raises error world now act result =>
          change PersistPc at pc
          cases pc with
          | publishing n batch last =>
              cases act
              obtain ⟨env, rfl, rfl⟩ := result
              rfl
          | _ => cases act

/-- Whatever fails in a run: what reaches an extra publisher is in the tables, what persist
forwards it has committed in that order, its failing transactions change nothing, and every
observation refers to an indicators row. -/
theorem durability_fence (env : Store × T) (sound : env.1.Referential)
    {s : (pipelineNet R spec.onStore clock ctx).State}
    (run : (pipelineNet R spec.onStore clock ctx).Reaches (fun _ _ => True)
      ((pipelineNet R spec.onStore clock ctx).init (World.fresh ctx env)) s) :
    (∀ pc : PublishPc (Store × T), (s.task 6).status = .running pc →
      ∀ pair ∈ pc.passed, Durable ctx s.world pair) ∧
    (∀ put, Net.Puts (pipelineNet R spec.onStore clock ctx) 5
        ((pipelineNet R spec.onStore clock ctx).init (World.fresh ctx env)) put s →
      put <+: s.world.published.flatten) ∧
    (∀ e t, (pipelineNet R spec.onStore clock ctx).Step s (.task 5 (.raise e)) t →
      t.world.env.1 = s.world.env.1) ∧
    s.world.env.1.Referential := by
  have typed := Net.typed_reaches (fenceTyping R spec clock ctx).typing run
  refine ⟨?_, ?_, ?_, ?_⟩
  · intro pc now pair member
    have fenced := typed.task 6 (show 6 < 7 by decide)
    rw [now] at fenced
    exact PublishPc.Holds.passed fenced member
  · intro put puts
    obtain ⟨rest, logged, _⟩ := puts.logged (show 5 < 7 by decide)
      (persist_owes clock ctx (Plugin.Publisher.postgres T) spec.batchSize)
      (fun j other _ => (stage_keeps_published R spec.onStore clock ctx other).mono
        fun kept => congrArg List.flatten kept) rfl
    exact ⟨rest, logged.symm⟩
  · exact fun e t step => persist_rolls_back R spec clock ctx step
  · exact typed.later.1.referential sound

end fence

/-- A pipeline with one mutex and one extra publisher, which takes pairs one by one. -/
def forwardingSpec : PipelineSpec Unit :=
  { mutexSpec with extraPublishers := [.silent "kafka".toList], batchSize := 1 }

abbrev forwardingNet : Net (World (Store × Unit)) Failure :=
  pipelineNet asciiRuntime forwardingSpec.onStore zeroClock feedContext

abbrev forwardingStart : forwardingNet.State :=
  forwardingNet.init (World.fresh feedContext (⟨[], []⟩, ()))

theorem mutex_forwarded :
    ∃ u, forwardingNet.Reaches (fun _ _ => True) forwardingStart u ∧
      ∃ pc : PublishPc (Store × Unit), (u.task 6).status = .running pc ∧ pc.passed.length = 1 := by
  have quiet := Store.Grows.refl ⟨[], []⟩
  suffices leads : forwardingNet.Leads (fun _ _ => True) forwardingStart (fun u =>
      ∃ pc : PublishPc (Store × Unit), (u.task 6).status = .running pc ∧ pc.passed.length = 1)
      forwardingStart from leads .refl
  refine .step (.task _ 0 _ _ (by decide) (.start _ rfl)) trivial ?_
  refine .step (.task _ 1 _ _ (by decide) (.start _ rfl)) trivial ?_
  refine .step (.task _ 2 _ _ (by decide) (.start _ rfl)) trivial ?_
  refine .step (.task _ 3 _ _ (by decide) (.start _ rfl)) trivial ?_
  refine .step (.task _ 4 _ _ (by decide) (.start _ rfl)) trivial ?_
  refine .step (.task _ 5 _ _ (by decide) (.start _ rfl)) trivial ?_
  refine .step (.task _ 6 _ _ (by decide) (.start _ rfl)) trivial ?_
  refine .step (.task _ 0 _ _ (by decide) (.call _ _ _ _ _ _ rfl rfl
    ⟨_, _, (⟨[], []⟩, ()), ⟨quiet, rfl, rfl⟩, rfl, rfl⟩)) trivial ?_
  refine .step (.task _ 0 _ _ (by decide) (.put _ _ _ _ rfl rfl (by decide))) trivial ?_
  refine .step (.task _ 1 _ _ (by decide) (.get _ _ _ _ _ rfl rfl rfl)) trivial ?_
  refine .step (.task _ 1 _ _ (by decide) (.call _ _ _ _ _ _ rfl rfl
    ⟨_, (⟨[], []⟩, ()), ⟨quiet, rfl, rfl⟩, rfl, rfl⟩)) trivial ?_
  refine .step (.task _ 1 _ _ (by decide) (.put _ _ _ _ rfl rfl (by decide))) trivial ?_
  refine .step (.task _ 2 _ _ (by decide) (.get _ _ _ _ _ rfl rfl rfl)) trivial ?_
  refine .step (.task _ 2 _ _ (by decide) (.put _ _ _ _ rfl rfl (by decide))) trivial ?_
  refine .step (.task _ 3 _ _ (by decide) (.get _ _ _ _ _ rfl rfl rfl)) trivial ?_
  refine .step (.task _ 3 _ _ (by decide) (.put _ _ _ _ rfl rfl (by decide))) trivial ?_
  refine .step (.task _ 4 _ _ (by decide) (.get _ _ _ _ _ rfl rfl rfl)) trivial ?_
  refine .step (.task _ 4 _ _ (by decide) (.put _ _ _ _ rfl rfl (by decide))) trivial ?_
  refine .step (.task _ 5 _ _ (by decide) (.get _ _ _ _ _ rfl rfl rfl)) trivial ?_
  refine .step (.task _ 5 _ _ (by decide) (.call _ _ _ _ _ _ rfl rfl
    ⟨(), (⟨[mutexPair.1], [mutexPair.2]⟩, ()), ⟨⟨⟨[], []⟩, quiet, rfl⟩, rfl⟩, rfl, rfl⟩)) trivial ?_
  refine .step (.task _ 5 _ _ (by decide) (.put _ _ _ _ rfl rfl (by decide))) trivial ?_
  refine .step (.task _ 6 _ _ (by decide) (.get _ _ _ _ _ rfl rfl rfl)) trivial ?_
  exact fun run => ⟨_, run, _, rfl, rfl⟩

theorem durability_fence_mutex :
    ∃ u, forwardingNet.Reaches (fun _ _ => True) forwardingStart u ∧
      ∃ pc : PublishPc (Store × Unit), (u.task 6).status = .running pc ∧ pc.passed.length = 1 ∧
        ∀ pair ∈ pc.passed, Durable feedContext u.world pair := by
  obtain ⟨u, run, pc, now, single⟩ := mutex_forwarded
  have fence := durability_fence asciiRuntime forwardingSpec zeroClock feedContext (⟨[], []⟩, ())
    (fun _ member => (List.not_mem_nil member).elim) run
  exact ⟨u, run, pc, now, single, fence.1 pc now⟩

end Cti
