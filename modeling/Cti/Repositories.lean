import Cti.KeyedTable
import Cti.Models

set_option autoImplicit false

/- The tables behind the canonical publisher. A row has the columns of the model it is
written from. -/
namespace Cti

open Py (Str)

/-- What run_persist hands to a publisher. -/
abbrev Sighting := Indicator × Observation

inductive DbError where
  | uniqueViolation
  | cardinalityViolation
  deriving DecidableEq

structure Store where
  indicators : List Indicator
  observations : List Observation

/-- The `set_` of the conflict clause. -/
def onConflict (row excluded : Indicator) : Indicator :=
  { row with
    lastSeenByUs := max row.lastSeenByUs excluded.lastSeenByUs
    confidence := max row.confidence excluded.confidence
    tags := excluded.tags }

/-- The indicators table after one row without errors. -/
def upsertRow (table : List Indicator) (row : Indicator) : List Indicator :=
  KeyedTable.upsert Indicator.id onConflict table row

/-- The row is stored under its id already, or its type and value are free. -/
def Admits (table : List Indicator) (row : Indicator) : Prop :=
  (∃ old ∈ table, old.id = row.id) ∨ ∀ old ∈ table, ¬ (old.type = row.type ∧ old.value = row.value)

instance (table : List Indicator) (row : Indicator) : Decidable (Admits table row) :=
  inferInstanceAs (Decidable (_ ∨ _))

/-- One row of `INSERT ... ON CONFLICT (id) DO UPDATE` into a table that is also unique in
`(type, value)`. -/
def insertRow (table : List Indicator) (row : Indicator) : Except DbError (List Indicator) :=
  if Admits table row then .ok (upsertRow table row) else .error .uniqueViolation

/-- The rows of one such statement. It may not insert or update one row twice: `touched`
are the ids that it has inserted or updated. -/
def insertRows : List Uuid → List Indicator → List Indicator → Except DbError (List Indicator)
  | _, table, [] => .ok table
  | touched, table, row :: rows =>
      if row.id ∈ touched then .error .cardinalityViolation
      else do
        let table ← insertRow table row
        insertRows (row.id :: touched) table rows

def upsertBatch (store : Store) (batch : List Sighting) : Except DbError (Store × Nat) :=
  if batch = [] then .ok (store, 0)
  else do
    let indicators ← insertRows [] store.indicators (batch.map Prod.fst)
    return (⟨indicators, store.observations ++ batch.map Prod.snd⟩, batch.length)

/-- `PostgresPublisher.publish`: one transaction, which leaves the store as it was when it
fails. -/
def publish (store : Store) (batch : List Sighting) : Except DbError Store :=
  if batch = [] then .ok store
  else do
    let (store, _) ← upsertBatch store batch
    return store

def publishAll (store : Store) (batches : List (List Sighting)) : Except DbError Store :=
  batches.foldlM publish store

theorem insertRow_ok {table table' : List Indicator} {row : Indicator} :
    insertRow table row = .ok table' ↔ Admits table row ∧ table' = upsertRow table row := by
  unfold insertRow
  split
  · rename_i admits
    simp [admits, eq_comm]
  · rename_i refused
    simp [refused]

/-- A statement goes through when its ids are distinct and each of its rows would. -/
theorem insertRows_ok {touched : List Uuid} {table table' rows : List Indicator} :
    insertRows touched table rows = .ok table' ↔
      (∀ row ∈ rows, row.id ∉ touched) ∧ (rows.map Indicator.id).Nodup ∧
        rows.foldlM insertRow table = .ok table' := by
  induction rows generalizing touched table with
  | nil => simp [insertRows, pure, Except.pure]
  | cons row rows ih =>
      unfold insertRows
      split
      · rename_i repeated
        simp [repeated]
      · rename_i fresh
        simp only [bind_ok, ih, List.mem_cons, not_or, List.foldlM_cons, List.map_cons,
          List.nodup_cons, List.mem_map, not_exists, not_and, forall_eq_or_imp]
        constructor
        · rintro ⟨table₁, step, apart, nodup, rest⟩
          exact ⟨⟨fresh, fun row inside => (apart row inside).2⟩,
            ⟨fun other inside => (apart other inside).1, nodup⟩, table₁, step, rest⟩
        · rintro ⟨⟨_, apart⟩, ⟨distinct, nodup⟩, table₁, step, rest⟩
          exact ⟨table₁, step, fun other inside => ⟨distinct other inside, apart other inside⟩,
            nodup, rest⟩

theorem publish_ok {store store' : Store} {batch : List Sighting} :
    publish store batch = .ok store' ↔
      (batch.map fun pair => pair.1.id).Nodup ∧
        (batch.map Prod.fst).foldlM insertRow store.indicators = .ok store'.indicators ∧
        store'.observations = store.observations ++ batch.map Prod.snd := by
  unfold publish upsertBatch
  split
  · rename_i empty
    subst empty
    obtain ⟨indicators, observations⟩ := store
    obtain ⟨indicators', observations'⟩ := store'
    simp [pure, Except.pure, eq_comm]
  · simp only [bind_ok, insertRows_ok, List.map_map]
    constructor
    · rintro ⟨⟨store₁, n⟩, ⟨indicators, ⟨_, nodup, rows⟩, same⟩, last⟩
      cases same
      cases last
      exact ⟨nodup, rows, rfl⟩
    · rintro ⟨nodup, rows, observations⟩
      refine ⟨(store', batch.length), ⟨store'.indicators, ⟨by simp, nodup, rows⟩, ?_⟩, rfl⟩
      rw [← observations]
      rfl

/-- Transactions go through when none of them holds an id twice and each of their rows
would go through on its own. -/
theorem publishAll_ok {store store' : Store} {batches : List (List Sighting)} :
    publishAll store batches = .ok store' ↔
      (∀ batch ∈ batches, (batch.map fun pair => pair.1.id).Nodup) ∧
        (batches.flatten.map Prod.fst).foldlM insertRow store.indicators = .ok store'.indicators ∧
        store'.observations = store.observations ++ batches.flatten.map Prod.snd := by
  unfold publishAll
  induction batches generalizing store with
  | nil =>
      obtain ⟨indicators, observations⟩ := store
      obtain ⟨indicators', observations'⟩ := store'
      simp [pure, Except.pure, eq_comm]
  | cons batch batches ih =>
      simp only [List.foldlM_cons, bind_ok, publish_ok, ih, List.mem_cons, forall_eq_or_imp,
        List.flatten_cons, List.map_append, List.foldlM_append]
      constructor
      · rintro ⟨store₁, ⟨nodup, rows, observations⟩, distinct, rest, last⟩
        refine ⟨⟨nodup, distinct⟩, ⟨store₁.indicators, rows, rest⟩, ?_⟩
        rw [last, observations, List.append_assoc]
      · rintro ⟨⟨nodup, distinct⟩, ⟨indicators, rows, rest⟩, last⟩
        refine ⟨⟨indicators, store.observations ++ batch.map Prod.snd⟩, ⟨nodup, rows, rfl⟩,
          distinct, rest, ?_⟩
        rw [last, List.append_assoc]

theorem foldlM_insertRow_ok {table table' rows : List Indicator}
    (inserted : rows.foldlM insertRow table = .ok table') : table' = rows.foldl upsertRow table := by
  induction rows generalizing table with
  | nil => simpa [pure, Except.pure, eq_comm] using inserted
  | cons row rows ih =>
      rw [List.foldlM_cons, bind_ok] at inserted
      obtain ⟨table₁, step, rest⟩ := inserted
      obtain ⟨_, rfl⟩ := insertRow_ok.mp step
      exact ih rest

@[simp] theorem onConflict_id (row excluded : Indicator) : (onConflict row excluded).id = row.id :=
  rfl

@[simp] theorem onConflict_type (row excluded : Indicator) :
    (onConflict row excluded).type = row.type := rfl

@[simp] theorem onConflict_value (row excluded : Indicator) :
    (onConflict row excluded).value = row.value := rfl

end Cti
