import Cti.CanonicalForm
import Cti.MergeJoin

set_option autoImplicit false

/- Looking indicators up by the text that a caller gives. -/
namespace Cti

open Py (Str)

/-- `if text: stmt = stmt.where(column == text)`. -/
def whereEq (column : Str) : Option Str → Bool
  | none | some [] => true
  | some (c :: text) => column = c :: text

/-- `IndicatorLookupRepo.lookup`: the rows that match, the latest first, up to the limit. In
which order rows of the same moment come is up to the database. -/
def Lookup (table : List Indicator) (indType value : Option Str) (limit : Nat)
    (rows : List Indicator) : Prop :=
  ∃ ordered : List Indicator,
    ordered.Perm (table.filter fun row =>
      whereEq row.type.value indType && whereEq row.value value) ∧
      ordered.Pairwise (fun row next => next.lastSeenByUs ≤ row.lastSeenByUs) ∧
      rows = ordered.take limit

theorem IndicatorType.value_ne_nil (t : IndicatorType) : t.value ≠ [] := by
  cases t <;> decide

theorem IndicatorType.value_injective {t t' : IndicatorType} (same : t.value = t'.value) : t = t' := by
  revert same
  cases t <;> cases t' <;> decide

theorem whereEq_some {column text : Str} (nonempty : text ≠ []) :
    whereEq column (some text) = true ↔ column = text := by
  cases text with
  | nil => exact absurd rfl nonempty
  | cons c text => simp [whereEq]

/-- The two unique keys of the indicators table. -/
structure UniqueKeys (table : List Indicator) : Prop where
  ids : (table.map Indicator.id).Nodup
  values : (table.map fun row => (row.type, row.value)).Nodup

theorem upsertRow_hit {table : List Indicator} {row : Indicator} {α : Type} (column : Indicator → α)
    (kept : ∀ old, column (onConflict old row) = column old)
    (hit : (KeyedTable.find Indicator.id row.id table).isSome) :
    (upsertRow table row).map column = table.map column := by
  unfold upsertRow KeyedTable.upsert
  rw [if_pos hit, List.map_map]
  apply List.map_congr_left
  intro old _
  simp only [Function.comp_apply]
  split
  · exact kept old
  · rfl

theorem nodup_concat {table : List Indicator} {row : Indicator} {α : Type} {column : Indicator → α}
    (nodup : (table.map column).Nodup) (fresh : ∀ old ∈ table, column old ≠ column row) :
    ((table ++ [row]).map column).Nodup := by
  rw [List.map_append, List.map_singleton, List.nodup_append]
  refine ⟨nodup, List.nodup_singleton _, ?_⟩
  rintro value member _ last rfl
  obtain ⟨old, inside, same⟩ := List.mem_map.mp member
  exact fresh old inside (same.trans (List.mem_singleton.mp last))

theorem UniqueKeys.insertRow {table table' : List Indicator} {row : Indicator}
    (unique : UniqueKeys table) (inserted : insertRow table row = .ok table') :
    UniqueKeys table' := by
  obtain ⟨admits, rfl⟩ := insertRow_ok.mp inserted
  by_cases hit : (KeyedTable.find Indicator.id row.id table).isSome
  · refine ⟨?_, ?_⟩
    · rw [upsertRow_hit Indicator.id (fun _ => rfl) hit]
      exact unique.ids
    · rw [upsertRow_hit (fun row => (row.type, row.value)) (fun _ => rfl) hit]
      exact unique.values
  · have fresh : upsertRow table row = table ++ [row] := if_neg hit
    have free := admits.resolve_left fun known => hit ((KeyedTable.find_isSome _).mpr known)
    rw [fresh]
    refine ⟨nodup_concat unique.ids ?_, nodup_concat unique.values ?_⟩
    · intro old inside same
      exact hit ((KeyedTable.find_isSome _).mpr ⟨old, inside, same⟩)
    · intro old inside same
      exact free old inside (Prod.mk.inj same)

theorem UniqueKeys.insertRows {table table' rows : List Indicator} (unique : UniqueKeys table)
    (inserted : rows.foldlM Cti.insertRow table = .ok table') : UniqueKeys table' := by
  induction rows generalizing table with
  | nil =>
      cases inserted
      exact unique
  | cons row rows ih =>
      rw [List.foldlM_cons, bind_ok] at inserted
      obtain ⟨table₁, step, rest⟩ := inserted
      exact ih (unique.insertRow step) rest

/-- Whatever has been published, the keys are unique. -/
theorem published_unique {store : Store} {batches : List (List Sighting)}
    (published : publishAll ⟨[], []⟩ batches = .ok store) : UniqueKeys store.indicators := by
  have empty : UniqueKeys [] := ⟨List.nodup_nil, List.nodup_nil⟩
  exact empty.insertRows (publishAll_ok.mp published).2.1

section queries

variable {table rows : List Indicator} {t : IndicatorType} {v : Str} {limit : Nat}

theorem UniqueKeys.eq_of_value (unique : UniqueKeys table) {row row' : Indicator}
    (member : row ∈ table) (member' : row' ∈ table) (type : row.type = row'.type)
    (value : row.value = row'.value) : row = row' :=
  List.inj_on_of_nodup_map unique.values member member' (Prod.ext type value)

/-- A query by type and value returns what it matches: there is at most one such row, so that
neither order nor limit matter. -/
theorem Lookup.mem_iff (unique : UniqueKeys table) (nonempty : v ≠ []) (positive : 0 < limit)
    (answer : Lookup table (some t.value) (some v) limit rows) {row : Indicator} :
    row ∈ rows ↔ row ∈ table ∧ row.type = t ∧ row.value = v := by
  obtain ⟨ordered, perm, _, rfl⟩ := answer
  have matching : ∀ {row}, row ∈ ordered ↔ row ∈ table ∧ row.type = t ∧ row.value = v := by
    intro row
    rw [perm.mem_iff, List.mem_filter, Bool.and_eq_true, whereEq_some t.value_ne_nil,
      whereEq_some nonempty]
    constructor
    · rintro ⟨member, type, value⟩
      exact ⟨member, IndicatorType.value_injective type, value⟩
    · rintro ⟨member, rfl, value⟩
      exact ⟨member, rfl, value⟩
  have single : ∀ {row row'}, row ∈ ordered → row' ∈ ordered → row = row' := by
    intro row row' first second
    obtain ⟨member, type, value⟩ := matching.mp first
    obtain ⟨member', type', value'⟩ := matching.mp second
    exact unique.eq_of_value member member' (type.trans type'.symm) (value.trans value'.symm)
  have nodup : ordered.Nodup := by
    rw [perm.nodup_iff]
    exact (unique.ids.of_map _).filter _
  have short : ordered.length ≤ limit := by
    refine le_trans ?_ positive
    rcases ordered with _ | ⟨a, _ | ⟨b, rest⟩⟩
    · exact Nat.zero_le 1
    · exact le_refl 1
    · have same : a = b := single List.mem_cons_self (List.mem_cons_of_mem a List.mem_cons_self)
      rw [same] at nodup
      exact absurd nodup (by simp)
  rw [List.take_of_length_le short]
  exact matching

end queries

section identity

variable {R : Runtime} {t : IndicatorType} {v : Str} {id : Uuid} {store : Store}
  {batches : List (List Sighting)}

theorem indicatorUuid_nonempty (identified : indicatorUuid R t v = .ok id) : v ≠ [] := by
  rintro rfl
  cases identified

/-- The type and the value of a row are those of the first upsert of its id. -/
theorem published_row (published : publishAll ⟨[], []⟩ batches = .ok store) (id : Uuid) :
    (store.row id).map (fun row => (row.type, row.value)) =
      (upsertsOf id batches).head?.map fun first => (first.type, first.value) := by
  cases upserts : upsertsOf id batches with
  | nil =>
      rw [publishAll_row published, upserts]
      rfl
  | cons first rest =>
      rw [publishAll_new_row published rfl upserts]
      exact congrArg some (KeyedTable.foldl_kept onConflict (fun row => (row.type, row.value))
        (fun _ _ => rfl) first rest)

theorem lookup_row_iff (unique : UniqueKeys store.indicators) (nonempty : v ≠ []) {limit : Nat}
    (positive : 0 < limit) {rows : List Indicator}
    (answer : Lookup store.indicators (some t.value) (some v) limit rows) :
    (∃ row ∈ rows, row.id = id) ↔
      ∃ row, store.row id = some row ∧ row.type = t ∧ row.value = v := by
  constructor
  · rintro ⟨row, member, same⟩
    obtain ⟨stored, type, value⟩ := (answer.mem_iff unique nonempty positive).mp member
    obtain ⟨row', found⟩ := Option.isSome_iff_exists.mp
      ((KeyedTable.find_isSome Indicator.id).mpr ⟨row, stored, same⟩)
    have hit : row'.id = id := by simpa using List.find?_some found
    have equal : row' = row := List.inj_on_of_nodup_map unique.ids
      (List.mem_of_find?_eq_some found) stored (hit.trans same.symm)
    rw [equal] at found
    exact ⟨row, found, type, value⟩
  · rintro ⟨row, found, type, value⟩
    have hit : row.id = id := by simpa using List.find?_some found
    refine ⟨row, ?_, hit⟩
    exact (answer.mem_iff unique nonempty positive).mpr
      ⟨List.mem_of_find?_eq_some found, type, value⟩

/-- What a built indicator is stored as is the text that it was built from exactly if that is
its own canonical form. -/
theorem build_keeps_text_iff {fields : IndicatorFields} {ind : Indicator}
    (built : Indicator.build R t v fields = .ok ind) :
    ind.value = v ↔ ∃ c, canonicalize R t v = .ok c ∧ Py.strip c = v := by
  obtain ⟨c, _, first, _, _, value, _⟩ := Indicator.build_eq built
  constructor
  · intro same
    exact ⟨c, first, value.symm.trans same⟩
  · rintro ⟨d, result, stripped⟩
    rw [first, Except.ok.injEq] at result
    rw [value, result, stripped]

/-- A lookup by a type and a text finds the row of their id exactly if the first indicator of
that id was stored with this very text. -/
theorem lookup_finds_iff (published : publishAll ⟨[], []⟩ batches = .ok store)
    (identified : indicatorUuid R t v = .ok id) {limit : Nat} (positive : 0 < limit)
    {rows : List Indicator}
    (answer : Lookup store.indicators (some t.value) (some v) limit rows) :
    (∃ row ∈ rows, row.id = id) ↔
      ∃ first, (upsertsOf id batches).head? = some first ∧ first.type = t ∧ first.value = v := by
  have row := published_row published id
  rw [lookup_row_iff (published_unique published) (indicatorUuid_nonempty identified) positive answer]
  constructor
  · rintro ⟨stored, found, type, value⟩
    rw [found, Option.map_some, type, value, eq_comm, Option.map_eq_some_iff] at row
    obtain ⟨first, head, same⟩ := row
    exact ⟨first, head, Prod.mk.inj same⟩
  · rintro ⟨first, head, type, value⟩
    rw [head, Option.map_some, type, value, Option.map_eq_some_iff] at row
    obtain ⟨stored, found, same⟩ := row
    exact ⟨stored, found, Prod.mk.inj same⟩

end identity

/-- A domain as it is stored. -/
def exampleDomain : Indicator :=
  { mutexSeen (spell "domain:example.com".toList) "example.com".toList 0 [] with type := .domain }

def exampleBatch : List Sighting := [(exampleDomain, observe feedContext exampleDomain [] 0)]

def exampleStore : Store := ⟨[exampleDomain], exampleBatch.map Prod.snd⟩

theorem example_published : publishAll ⟨[], []⟩ [exampleBatch] = .ok exampleStore := rfl

/-- The text in the case of the writer is not found. -/
theorem lookup_misses_spelling :
    Indicator.build asciiRuntime .domain "EXAMPLE.COM".toList ⟨50, .info, .amber, [], 0, 0⟩ =
        .ok exampleDomain ∧
      publishAll ⟨[], []⟩ [exampleBatch] = .ok exampleStore ∧
      indicatorUuid asciiRuntime .domain "EXAMPLE.COM".toList = .ok exampleDomain.id ∧
      Lookup exampleStore.indicators (some IndicatorType.domain.value)
        (some "EXAMPLE.COM".toList) 100 [] ∧
      ∀ rows, Lookup exampleStore.indicators (some IndicatorType.domain.value)
        (some "EXAMPLE.COM".toList) 100 rows → ¬ ∃ row ∈ rows, row.id = exampleDomain.id := by
  refine ⟨rfl, example_published, rfl, ⟨[], .nil, .nil, rfl⟩, ?_⟩
  rintro rows ⟨ordered, perm, _, rfl⟩ ⟨row, member, _⟩
  have nothing : ordered = [] := perm.eq_nil
  rw [nothing] at member
  cases member

theorem lookup_finds_canonical :
    indicatorUuid asciiRuntime .domain "example.com".toList = .ok exampleDomain.id ∧
      ∃ rows, Lookup exampleStore.indicators (some IndicatorType.domain.value)
        (some "example.com".toList) 1 rows ∧ ∃ row ∈ rows, row.id = exampleDomain.id := by
  have answer : Lookup exampleStore.indicators (some IndicatorType.domain.value)
      (some "example.com".toList) 1 [exampleDomain] :=
    ⟨[exampleDomain], .refl _, List.pairwise_singleton _ _, rfl⟩
  have identified : indicatorUuid asciiRuntime .domain "example.com".toList =
      .ok exampleDomain.id := rfl
  refine ⟨identified, [exampleDomain], answer, ?_⟩
  exact (lookup_finds_iff example_published identified (by decide) answer).mpr
    ⟨exampleDomain, rfl, rfl, rfl⟩

end Cti
