import Mathlib.Data.List.Nodup
import Cti.Repositories

set_option autoImplicit false

namespace Cti

open Py (Str)

/-- The observation that `run_persist` makes of an indicator and its record. -/
def observe (ctx : RunContext) (indicator : Indicator) (raw : Record) (now : Int) : Observation where
  indicatorId := indicator.id
  sourceId := ctx.sourceId
  feedRunId := ctx.runId
  observedAt := now
  tlp := indicator.tlp
  confidence := indicator.confidence
  raw := raw
  schemaVersion := schemaVersion

section batches

variable {α : Type}

/-- The batches of `run_persist`: `batch` is collected so far, `items` are still to come.
The last flush publishes what is left. -/
def persistBatches (batchSize : Int) : List α → List α → List (List α)
  | batch, [] => if batch = [] then [] else [batch]
  | batch, item :: items =>
      if batchSize ≤ (batch ++ [item]).length then
        (batch ++ [item]) :: persistBatches batchSize [] items
      else persistBatches batchSize (batch ++ [item]) items

/-- How many items make a batch: even a batch size below one lets a batch have an item. -/
def batchLength (batchSize : Int) : Nat := max 1 batchSize.toNat

theorem batchLength_pos (batchSize : Int) : 0 < batchLength batchSize := by
  unfold batchLength
  omega

theorem persistBatches_flatten (batchSize : Int) (batch items : List α) :
    (persistBatches batchSize batch items).flatten = batch ++ items := by
  induction items generalizing batch with
  | nil => by_cases empty : batch = [] <;> simp [persistBatches, empty]
  | cons item items ih =>
      unfold persistBatches
      split
      · simp [ih]
      · simp [ih]

/-- No value stands twice in one block of `n` positions. -/
def Apart (n : Nat) (values : List α) : Prop :=
  ∀ i j, i < j → j < values.length → i / n = j / n → values[i]? ≠ values[j]?

/-- Values that fit into one block. -/
theorem apart_iff_nodup {n : Nat} {values : List α} (fits : values.length ≤ n) :
    Apart n values ↔ values.Nodup := by
  rw [List.nodup_iff_getElem?_ne_getElem?]
  constructor
  · intro apart i j below inside
    refine apart i j below inside ?_
    rw [Nat.div_eq_of_lt (by omega), Nat.div_eq_of_lt (by omega)]
  · intro nodup i j below inside _
    exact nodup i j below inside

/-- A full block in front. -/
theorem apart_append {n : Nat} (positive : 0 < n) {front back : List α} (full : front.length = n) :
    Apart n (front ++ back) ↔ front.Nodup ∧ Apart n back := by
  rw [← apart_iff_nodup (le_of_eq full)]
  constructor
  · intro apart
    constructor
    · intro i j below inside block
      have ne := apart i j below (by simp only [List.length_append]; omega) block
      rwa [List.getElem?_append_left (by omega), List.getElem?_append_left inside] at ne
    · intro i j below inside block
      have ne := apart (i + n) (j + n) (by omega) (by simp only [List.length_append]; omega)
        (by rw [Nat.add_div_right i positive, Nat.add_div_right j positive, block])
      rwa [List.getElem?_append_right (by omega), List.getElem?_append_right (by omega), full,
        Nat.add_sub_cancel, Nat.add_sub_cancel] at ne
  · rintro ⟨first, rest⟩ i j below inside block
    simp only [List.length_append] at inside
    by_cases early : j < n
    · rw [List.getElem?_append_left (by omega), List.getElem?_append_left (by omega)]
      exact first i j below (by omega) block
    · have late : n ≤ i := by
        by_contra before
        rw [Nat.div_eq_of_lt (by omega)] at block
        have := Nat.div_pos (by omega : n ≤ j) positive
        omega
      rw [List.getElem?_append_right (by omega), List.getElem?_append_right (by omega), full]
      refine rest (i - n) (j - n) (by omega) (by omega) ?_
      have left := Nat.add_div_right (i - n) positive
      have right := Nat.add_div_right (j - n) positive
      rw [Nat.sub_add_cancel late] at left
      rw [Nat.sub_add_cancel (by omega : n ≤ j)] at right
      omega

/-- No batch holds a key twice just when no key stands twice in a block of positions. -/
theorem persistBatches_nodup {κ : Type} (key : α → κ) (batchSize : Int) (batch items : List α)
    (short : batch.length < batchLength batchSize) :
    (∀ chunk ∈ persistBatches batchSize batch items, (chunk.map key).Nodup) ↔
      Apart (batchLength batchSize) ((batch ++ items).map key) := by
  induction items generalizing batch with
  | nil =>
      rw [apart_iff_nodup (by simp only [List.append_nil, List.length_map]; omega)]
      by_cases empty : batch = [] <;> simp [persistBatches, empty]
  | cons item items ih =>
      unfold persistBatches
      split
      · rename_i enough
        have full : (batch ++ [item]).length = batchLength batchSize := by
          simp only [List.length_append, List.length_singleton, batchLength] at enough short ⊢
          omega
        have positive := batchLength_pos batchSize
        have split : (batch ++ item :: items).map key =
            (batch ++ [item]).map key ++ items.map key := by simp
        rw [split, apart_append positive (by rw [List.length_map, full])]
        simp only [List.mem_cons, forall_eq_or_imp]
        rw [ih [] positive, List.nil_append]
      · rename_i room
        rw [ih (batch ++ [item])]
        · simp
        · simp only [List.length_append, List.length_singleton, batchLength] at room short ⊢
          omega

end batches

/-- Every row that is the first of its id is admitted by the table at the start. -/
def Unclashed (table rows : List Indicator) : Prop :=
  ∀ before row after, rows = before ++ row :: after → (∀ old ∈ before, old.id ≠ row.id) →
    Admits table row

theorem upsertRow_keeps (old row : Indicator) (_ : row.id = old.id) :
    (onConflict old row).id = old.id := rfl

theorem mem_upsertRow_id {table : List Indicator} {row : Indicator} {k : Uuid} :
    (∃ new ∈ upsertRow table row, new.id = k) ↔ row.id = k ∨ ∃ old ∈ table, old.id = k :=
  KeyedTable.mem_upsert_key upsertRow_keeps

/-- A row of another id and another type and value changes nothing to whether a row is
admitted. -/
theorem admits_upsertRow {table : List Indicator} {row other : Indicator}
    (ids : row.id ≠ other.id) (keys : ¬ (row.type = other.type ∧ row.value = other.value)) :
    Admits (upsertRow table row) other ↔ Admits table other := by
  unfold Admits
  rw [mem_upsertRow_id]
  have free : (∀ new ∈ upsertRow table row, ¬ (new.type = other.type ∧ new.value = other.value)) ↔
      ∀ old ∈ table, ¬ (old.type = other.type ∧ old.value = other.value) := by
    constructor
    · intro free old inside
      obtain ⟨new, member, type, value⟩ :
          ∃ new ∈ upsertRow table row, new.type = old.type ∧ new.value = old.value := by
        unfold upsertRow KeyedTable.upsert
        split
        · refine ⟨_, List.mem_map_of_mem inside, ?_⟩
          split <;> exact ⟨rfl, rfl⟩
        · exact ⟨old, List.mem_append_left _ inside, rfl, rfl⟩
      have clash := free new member
      rwa [type, value] at clash
    · intro free new member
      rcases KeyedTable.mem_upsert member with ⟨old, inside, same | ⟨_, same⟩⟩ | ⟨same, _⟩
      · rw [same]
        exact free old inside
      · rw [same]
        exact free old inside
      · rw [same]
        exact keys
  rw [free]
  simp [ids]

/-- Rows whose ids are determined by their type and value go in one after the other when
each first row of an id is admitted at the start. -/
theorem foldlM_insertRow_iff {table rows : List Indicator} {ident : IndicatorType → Str → Uuid}
    (determined : ∀ row ∈ rows, row.id = ident row.type row.value) :
    (∃ table', rows.foldlM insertRow table = .ok table') ↔ Unclashed table rows := by
  induction rows generalizing table with
  | nil => simp [Unclashed, pure, Except.pure]
  | cons row rows ih =>
      have ih := @ih (upsertRow table row)
        (fun other inside => determined other (List.mem_cons_of_mem row inside))
      have split : (∃ table', (row :: rows).foldlM insertRow table = .ok table') ↔
          Admits table row ∧ Unclashed (upsertRow table row) rows := by
        rw [← ih]
        simp only [List.foldlM_cons, bind_ok, insertRow_ok]
        constructor
        · rintro ⟨table', table₁, ⟨admits, rfl⟩, rest⟩
          exact ⟨admits, table', rest⟩
        · rintro ⟨admits, table', rest⟩
          exact ⟨table', _, ⟨admits, rfl⟩, rest⟩
      have apart : ∀ other ∈ rows, row.id ≠ other.id →
          ¬ (row.type = other.type ∧ row.value = other.value) := by
        rintro other inside ids ⟨type, value⟩
        apply ids
        rw [determined row (by simp), determined other (by simp [inside]), type, value]
      rw [split]
      constructor
      · rintro ⟨admits, later⟩ before other after same first
        cases before with
        | nil =>
            simp only [List.nil_append, List.cons.injEq] at same
            rw [← same.1]
            exact admits
        | cons head before =>
            simp only [List.cons_append, List.cons.injEq] at same
            obtain ⟨rfl, same⟩ := same
            have ids : row.id ≠ other.id := first row (by simp)
            have inside : other ∈ rows := by simp [same]
            rw [← admits_upsertRow ids (apart other inside ids)]
            exact later before other after same (fun old member => first old (by simp [member]))
      · intro unclashed
        refine ⟨unclashed [] row rows rfl (by simp), ?_⟩
        intro before other after same first
        by_cases ids : row.id = other.id
        · exact Or.inl (mem_upsertRow_id.mpr (Or.inl ids))
        · have inside : other ∈ rows := by simp [same]
          rw [admits_upsertRow ids (apart other inside ids)]
          refine unclashed (row :: before) other after (by simp [same]) ?_
          intro old member
          rcases List.mem_cons.mp member with rfl | earlier
          · exact ids
          · exact first old earlier

/-- A table whose ids are determined in the same way admits every such row. -/
theorem unclashed_of_determined {table rows : List Indicator} {ident : IndicatorType → Str → Uuid}
    (stored : ∀ row ∈ table, row.id = ident row.type row.value)
    (determined : ∀ row ∈ rows, row.id = ident row.type row.value) : Unclashed table rows := by
  intro before row after same _
  by_cases known : ∃ old ∈ table, old.id = row.id
  · exact Or.inl known
  · refine Or.inr ?_
    rintro old inside ⟨type, value⟩
    refine known ⟨old, inside, ?_⟩
    rw [stored old inside, determined row (by simp [same]), type, value]

/-- Upserting the pairs one at a time, in order. -/
def upsertEach (store : Store) (pairs : List Sighting) : Except DbError Store :=
  pairs.foldlM (fun store pair => publish store [pair]) store

/-- Both batch sizes succeed and leave what single upserts leave, with one observation row
for each pair. -/
def BatchingIrrelevant (store : Store) (pairs : List Sighting) (first second : Int) : Prop :=
  ∃ result, publishAll store (persistBatches first [] pairs) = .ok result ∧
    publishAll store (persistBatches second [] pairs) = .ok result ∧
    upsertEach store pairs = .ok result ∧
    result.observations = store.observations ++ pairs.map Prod.snd

theorem upsertEach_eq (store : Store) (pairs : List Sighting) :
    upsertEach store pairs = publishAll store (pairs.map fun pair => [pair]) := by
  unfold upsertEach publishAll
  rw [List.foldlM_map]

theorem upsertEach_ok {store store' : Store} {pairs : List Sighting} :
    upsertEach store pairs = .ok store' ↔
      (pairs.map Prod.fst).foldlM insertRow store.indicators = .ok store'.indicators ∧
        store'.observations = store.observations ++ pairs.map Prod.snd := by
  rw [upsertEach_eq, publishAll_ok]
  have flat : (pairs.map fun pair => [pair]).flatten = pairs := by
    induction pairs with
    | nil => rfl
    | cons pair pairs ih => simp [ih]
  have distinct : ∀ batch ∈ pairs.map fun pair => [pair],
      (batch.map fun pair => pair.1.id).Nodup := by
    intro batch inside
    obtain ⟨pair, _, rfl⟩ := List.mem_map.mp inside
    simp
  rw [flat]
  exact and_iff_right distinct

theorem batched_ok {store store' : Store} {pairs : List Sighting} {batchSize : Int} :
    publishAll store (persistBatches batchSize [] pairs) = .ok store' ↔
      Apart (batchLength batchSize) (pairs.map fun pair => pair.1.id) ∧
        upsertEach store pairs = .ok store' := by
  rw [publishAll_ok, upsertEach_ok, persistBatches_flatten,
    persistBatches_nodup _ batchSize [] pairs (batchLength_pos batchSize), List.nil_append]

/-- Batching is irrelevant exactly when no id stands twice in one batch of either size,
and no pair brings a type and value that the store has under another id only. -/
theorem batching_irrelevant_iff (ident : IndicatorType → Str → Uuid) (store : Store)
    (pairs : List Sighting)
    (determined : ∀ pair ∈ pairs, pair.1.id = ident pair.1.type pair.1.value)
    (first second : Int) :
    BatchingIrrelevant store pairs first second ↔
      Apart (batchLength first) (pairs.map fun pair => pair.1.id) ∧
        Apart (batchLength second) (pairs.map fun pair => pair.1.id) ∧
        Unclashed store.indicators (pairs.map Prod.fst) := by
  have rows : ∀ row ∈ pairs.map Prod.fst, row.id = ident row.type row.value := by
    intro row inside
    obtain ⟨pair, member, rfl⟩ := List.mem_map.mp inside
    exact determined pair member
  have single : (∃ result, upsertEach store pairs = .ok result) ↔
      Unclashed store.indicators (pairs.map Prod.fst) := by
    rw [← foldlM_insertRow_iff rows]
    constructor
    · rintro ⟨result, done⟩
      exact ⟨result.indicators, (upsertEach_ok.mp done).1⟩
    · rintro ⟨table, done⟩
      exact ⟨⟨table, store.observations ++ pairs.map Prod.snd⟩, upsertEach_ok.mpr ⟨done, rfl⟩⟩
  unfold BatchingIrrelevant
  simp only [batched_ok]
  constructor
  · rintro ⟨result, ⟨apart₁, done⟩, ⟨apart₂, _⟩, _, _⟩
    exact ⟨apart₁, apart₂, single.mp ⟨result, done⟩⟩
  · rintro ⟨apart₁, apart₂, unclashed⟩
    obtain ⟨result, done⟩ := single.mpr unclashed
    exact ⟨result, ⟨apart₁, done⟩, ⟨apart₂, done⟩, done, (upsertEach_ok.mp done).2⟩

/-- A mutex seen at one time, with the defaults of the model. -/
def mutexSeen (id : Uuid) (value : Str) (seen : Int) (tags : List Str) : Indicator where
  id := id
  type := .mutex
  value := value
  pattern := none
  confidence := 50
  severity := .info
  tlp := .amber
  tags := tags
  firstSeenByUs := seen
  lastSeenByUs := seen
  validFrom := none
  validUntil := none
  schemaVersion := schemaVersion

def feedContext : RunContext := ⟨1, "feed".toList, [], none⟩

/-- One mutex in two records of a feed. -/
def repeatedMutex : List Sighting :=
  [mutexSeen 1 "m".toList 0 [], mutexSeen 1 "m".toList 1 []].map fun ind =>
    (ind, observe feedContext ind [] ind.lastSeenByUs)

theorem batching_irrelevant_single :
    BatchingIrrelevant ⟨[], []⟩ repeatedMutex 1 0 := by
  refine (batching_irrelevant_iff (fun _ value => value.length) ⟨[], []⟩ repeatedMutex (by decide) 1 0).mpr ?_
  have apart : Apart 1 (repeatedMutex.map fun pair => pair.1.id) := by
    intro i j below _ block
    simp only [Nat.div_one] at block
    omega
  exact ⟨apart, apart, fun _ _ _ _ _ => Or.inr (by simp)⟩

/-- With room for both in one batch, the statement would touch one row twice. -/
theorem batching_relevant_repeated :
    (∀ pair ∈ repeatedMutex, pair.1.id = pair.1.value.length) ∧
      (∃ result, publishAll ⟨[], []⟩ (persistBatches 1 [] repeatedMutex) = .ok result) ∧
      publishAll ⟨[], []⟩ (persistBatches 2 [] repeatedMutex) = .error .cardinalityViolation ∧
      ¬ BatchingIrrelevant ⟨[], []⟩ repeatedMutex 1 2 := by
  have refused : publishAll ⟨[], []⟩ (persistBatches 2 [] repeatedMutex) =
      .error .cardinalityViolation := by rfl
  refine ⟨by decide, ⟨_, rfl⟩, refused, ?_⟩
  rintro ⟨result, _, second, _⟩
  rw [refused] at second
  cases second

end Cti
