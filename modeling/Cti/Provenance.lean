import Cti.SerialTables

set_option autoImplicit false

/- What the tables say of each other while calls write to them. -/
namespace Cti

open Py (Str)

section store

/-- The observations of an indicator, in the order in which they were made. -/
def Store.observationsOf (store : Store) (id : Uuid) : List Observation :=
  store.observations.filter fun obs => obs.indicatorId = id

/-- The indicators table follows from the observations: an indicator has a row if it was observed,
with the greatest confidence of its observations and the TLP of the first of them. -/
structure Store.Aggregates (store : Store) : Prop where
  confidence : ∀ id, (store.row id).map Indicator.confidence =
    ((store.observationsOf id).map Observation.confidence).max?
  tlp : ∀ id, (store.row id).map Indicator.tlp =
    ((store.observationsOf id).map Observation.tlp).head?

/-- A pair that some run has observed. -/
def Witnessed (pair : Sighting) : Prop := ∃ ctx, Observed ctx pair

theorem Witnessed.same {pair : Sighting} (witnessed : Witnessed pair) :
    pair.2.indicatorId = pair.1.id ∧ pair.2.confidence = pair.1.confidence ∧
      pair.2.tlp = pair.1.tlp := by
  obtain ⟨ctx, raw, now, same⟩ := witnessed
  rw [same]
  exact ⟨rfl, rfl, rfl⟩

theorem observed_column {γ : Type} (column : Indicator → γ) (column' : Observation → γ)
    {pairs : List Sighting} (paired : ∀ pair ∈ pairs, pair.2.indicatorId = pair.1.id)
    (same : ∀ pair ∈ pairs, column' pair.2 = column pair.1) (id : Uuid) :
    ((pairs.map Prod.snd).filter fun obs => obs.indicatorId = id).map column' =
      ((pairs.map Prod.fst).filter fun ind => ind.id = id).map column := by
  rw [List.filter_map, List.filter_map, List.map_map, List.map_map]
  have chosen : (pairs.filter fun pair => pair.2.indicatorId = id) =
      pairs.filter fun pair => pair.1.id = id :=
    List.filter_congr fun pair inside => by rw [paired pair inside]
  refine Eq.trans (congrArg _ chosen) (List.map_congr_left fun pair member => ?_)
  exact same pair (List.mem_of_mem_filter member)

theorem max?_toList_append {α : Type} [Max α] (known new : List α) :
    (known.max?.toList ++ new).max? = (known ++ new).max? := by
  cases known with
  | nil => rfl
  | cons first known =>
      rw [List.cons_append, List.max?_cons', List.max?_cons', List.foldl_append]
      rfl

theorem head?_toList_append {α : Type} (known new : List α) :
    (known.head?.toList ++ new).head? = (known ++ new).head? := by
  cases known <;> rfl

variable {store store' : Store}

/-- A transaction with what was observed adds the same to both sides. -/
theorem Store.Aggregates.writes (aggregates : store.Aggregates)
    (writes : store.Writes Witnessed store') : store'.Aggregates := by
  obtain ⟨batches, witnessed, committed⟩ := writes
  have pairs : ∀ pair ∈ batches.flatten, Witnessed pair := by
    intro pair member
    obtain ⟨batch, among, inside⟩ := List.mem_flatten.mp member
    exact witnessed batch among pair inside
  have observed (id : Uuid) : store'.observationsOf id = store.observationsOf id ++
      (batches.flatten.map Prod.snd).filter fun obs => obs.indicatorId = id := by
    unfold Store.observationsOf
    rw [(publishAll_ok.mp committed).2.2, List.filter_append]
  constructor
  · intro id
    have added := observed_column Indicator.confidence Observation.confidence
      (fun pair member => (pairs pair member).same.1)
      (fun pair member => (pairs pair member).same.2.1) id
    rw [publishAll_row committed, KeyedTable.foldl_absorb_greatest onConflict _ fun _ _ => rfl,
      aggregates.confidence, observed, List.map_append, added, max?_toList_append]
    rfl
  · intro id
    have added := observed_column Indicator.tlp Observation.tlp
      (fun pair member => (pairs pair member).same.1)
      (fun pair member => (pairs pair member).same.2.2) id
    rw [publishAll_row committed, KeyedTable.foldl_absorb_first onConflict _ fun _ _ => rfl,
      aggregates.tlp, observed, List.map_append, added, head?_toList_append]
    rfl

theorem aggregates_empty : Store.Aggregates ⟨[], []⟩ := ⟨fun _ => rfl, fun _ => rfl⟩

/-- Every observation names a run, by a row of the source that made the observation. -/
def Traced (db : Db) (store : Store) : Prop :=
  ∀ obs ∈ store.observations, ∃ row, db.run obs.feedRunId = some row ∧ row.sourceId = obs.sourceId

end store

section runs

variable {T : Type} {R : Runtime} {ι : Type} [DecidableEq ι] {feeds : ι → Feed T}
  {sh : Shared} {initial : Store} {s : Tables R feeds}

/-- The indicators stay what the observations make of them. -/
theorem tables_aggregate (aggregates : initial.Aggregates)
    (run : TablesReaches R feeds (.init R feeds sh initial) s) : s.store.Aggregates := by
  obtain ⟨commits, committed, observed⟩ := tables_commits .refl run
  refine aggregates.writes ⟨_, fun batch member pair inside => ?_, committed⟩
  obtain ⟨commit, among, rfl⟩ := List.mem_map.mp member
  exact ⟨_, observed commit among pair inside⟩

/-- A call whose run is open has a row of its source. -/
structure Tables.Traced (s : Tables R feeds) : Prop where
  owns : ∀ i, (s.execution i).InRun →
    Owns ((feeds i).onTables.job R) s.manager.shared.db
  traced : Cti.Traced s.manager.shared.db s.store

theorem Tables.Traced.step {s s' : Tables R feeds} {j : ι} (traced : s.Traced)
    (writing : s.Writing) (step : TablesStep R feeds s j s') : s'.Traced := by
  have writes := (writing.step step).2
  obtain ⟨own, others⟩ := step.inv
  rcases own with ⟨k, a, a', phase, taken, shared, now, store⟩ | ⟨taken, store, _⟩
  · have inRun := Execution.inRun_attempting phase
    obtain ⟨batches, observed, committed⟩ := writes
    constructor
    · intro i inside
      rw [shared]
      by_cases self : i = j
      · subst self
        exact traced.owns i inRun
      · rw [others i self] at inside
        exact traced.owns i inside
    · intro obs member
      rw [(publishAll_ok.mp committed).2.2] at member
      rw [shared]
      rcases List.mem_append.mp member with before | new
      · exact traced.traced obs before
      · obtain ⟨pair, inside, rfl⟩ := List.mem_map.mp new
        obtain ⟨batch, among, within⟩ := List.mem_flatten.mp inside
        obtain ⟨raw, now, same⟩ := observed batch among pair within
        rw [same]
        exact traced.owns j inRun
  · obtain ⟨own, _⟩ := taken.inv
    constructor
    · intro i inside
      by_cases self : i = j
      · subst self
        exact own.owns (traced.owns i) inside
      · rw [others i self] at inside
        obtain ⟨row, found, source⟩ := traced.owns i inside
        obtain ⟨row', found', same⟩ := own.run_source found
        exact ⟨row', found', same.trans source⟩
    · intro obs member
      rw [store] at member
      obtain ⟨row, found, source⟩ := traced.traced obs member
      obtain ⟨row', found', same⟩ := own.run_source found
      exact ⟨row', found', same.trans source⟩

/-- Every observation can be traced to the run that made it. -/
theorem tables_traced (traced : Traced sh.db initial)
    (run : TablesReaches R feeds (.init R feeds sh initial) s) :
    Traced s.manager.shared.db s.store := by
  suffices s.Traced from this.traced
  induction run with
  | refl => exact ⟨fun _ inRun => inRun.elim, traced⟩
  | tail run last ih =>
      obtain ⟨j, taken⟩ := last
      exact ih.step (tables_writing run) taken

/-- In every state that calls reach, whatever they do and whatever fails, the three tables agree:
the indicators are what the observations make of them, and the runs are those that the
observations name. -/
theorem tables_agree (aggregates : initial.Aggregates) (traced : Traced sh.db initial)
    (run : TablesReaches R feeds (.init R feeds sh initial) s) :
    s.store.Aggregates ∧ Traced s.manager.shared.db s.store :=
  ⟨tables_aggregate aggregates run, tables_traced traced run⟩

/-- One document of one run. -/
theorem tables_agree_document :
    ∃ s : CountedTables, TablesReaches asciiRuntime countedFeed (.init _ _ feedShared ⟨[], []⟩) s ∧
      s.store.observationCount 1 = 1 ∧ s.store.Aggregates ∧
      Traced s.manager.shared.db s.store := by
  obtain ⟨s, _, u, run, _, _, counted, store, _⟩ := document_finalizing
  refine ⟨s, run, ?_, tables_agree aggregates_empty nofun run⟩
  rw [store]
  exact counted.stored

end runs

end Cti
