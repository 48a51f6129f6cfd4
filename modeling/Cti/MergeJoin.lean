import Mathlib.Data.List.Permutation
import Cti.Batching

set_option autoImplicit false

namespace Cti

open Py (Str)

def Store.row (store : Store) (id : Uuid) : Option Indicator :=
  KeyedTable.find Indicator.id id store.indicators

/-- The upserts of one id in a sequence of transactions. -/
def upsertsOf (id : Uuid) (commits : List (List Sighting)) : List Indicator :=
  (commits.flatten.map Prod.fst).filter fun ind => ind.id = id

/-- A row that joins its upserts. -/
structure Joins (upserts : List Indicator) (row : Indicator) : Prop where
  confidence : IsGreatest {c | ∃ u ∈ upserts, u.confidence = c} row.confidence
  lastSeenByUs : IsGreatest {t | ∃ u ∈ upserts, u.lastSeenByUs = t} row.lastSeenByUs
  firstSeenByUs : IsLeast {t | ∃ u ∈ upserts, u.firstSeenByUs = t} row.firstSeenByUs
  tags : ∀ u ∈ upserts, ∀ tag ∈ u.tags, tag ∈ row.tags

/-- In whatever order the transactions commit, the row of the id joins its upserts, and
committing one of the upserts again changes no row. -/
def OrderIndependent (store : Store) (id : Uuid) (commits : List (List Sighting)) : Prop :=
  ∀ order, order.Perm commits → ∀ store', publishAll store order = .ok store' →
    ∃ row, store'.row id = some row ∧ Joins (upsertsOf id commits) row ∧
      ∀ again ∈ upsertsOf id commits, ∀ obs, ∃ store'',
        publish store' [(again, obs)] = .ok store'' ∧ ∀ k, store''.row k = store'.row k

theorem upsertsOf_perm (id : Uuid) {order commits : List (List Sighting)}
    (perm : order.Perm commits) : (upsertsOf id order).Perm (upsertsOf id commits) :=
  (perm.flatten.map Prod.fst).filter _

/-- The row of an id after a sequence of transactions is what its upserts make of the row
before, in order. -/
theorem publishAll_row {store store' : Store} {order : List (List Sighting)}
    (committed : publishAll store order = .ok store') (id : Uuid) :
    store'.row id = (upsertsOf id order).foldl (KeyedTable.absorb onConflict) (store.row id) := by
  have rows := foldlM_insertRow_ok (publishAll_ok.mp committed).2.1
  unfold Store.row upsertsOf
  rw [rows]
  exact KeyedTable.find_foldl_upsert upsertRow_keeps id _ _

/-- The row that a sequence of transactions gives to an id that was not stored. -/
theorem publishAll_new_row {store store' : Store} {order : List (List Sighting)} {id : Uuid}
    (committed : publishAll store order = .ok store') (absent : store.row id = none)
    {first : Indicator} {rest : List Indicator} (upserts : upsertsOf id order = first :: rest) :
    store'.row id = some (rest.foldl onConflict first) := by
  rw [publishAll_row committed, absent, upserts, List.foldl_cons]
  exact KeyedTable.foldl_absorb_some rest first

/-- Committing an upsert of a stored id once more. -/
theorem publish_again {store : Store} {row again : Indicator} (stored : store.row again.id = some row)
    (obs : Observation) :
    ∃ store', publish store [(again, obs)] = .ok store' ∧
      store'.row again.id = some (onConflict row again) ∧
      ∀ k, k ≠ again.id → store'.row k = store.row k := by
  have known : ∃ old ∈ store.indicators, old.id = again.id := by
    rw [← KeyedTable.find_isSome]
    exact Option.isSome_of_eq_some stored
  refine ⟨⟨upsertRow store.indicators again, store.observations ++ [obs]⟩, ?_, ?_, ?_⟩
  · rw [publish_ok]
    refine ⟨by simp, ?_, rfl⟩
    simp only [List.map_cons, List.map_nil, List.foldlM_cons, List.foldlM_nil, bind_ok, insertRow_ok]
    exact ⟨_, ⟨Or.inl known, rfl⟩, rfl⟩
  · have found := KeyedTable.find_upsert_self upsertRow_keeps store.indicators again
    unfold Store.row at stored ⊢
    rw [stored] at found
    exact found
  · intro k other
    exact KeyedTable.find_upsert_of_ne upsertRow_keeps store.indicators (Ne.symm other)

/-- Whatever the tags and first sightings, the row keeps the greatest confidence and the
latest sighting. -/
theorem foldl_onConflict_greatest (first : Indicator) (rest : List Indicator) :
    IsGreatest {c | ∃ u ∈ first :: rest, u.confidence = c}
        (rest.foldl onConflict first).confidence ∧
      IsGreatest {t | ∃ u ∈ first :: rest, u.lastSeenByUs = t}
        (rest.foldl onConflict first).lastSeenByUs :=
  ⟨KeyedTable.foldl_greatest onConflict Indicator.confidence (fun _ _ => rfl) first rest,
    KeyedTable.foldl_greatest onConflict Indicator.lastSeenByUs (fun _ _ => rfl) first rest⟩

/-- Merging a row with an upsert that it already joins, and whose tags it has, leaves it as
it is. -/
theorem onConflict_eq_self {row again : Indicator} (confidence : again.confidence ≤ row.confidence)
    (seen : again.lastSeenByUs ≤ row.lastSeenByUs) (tags : again.tags = row.tags) :
    onConflict row again = row := by
  unfold onConflict
  rw [max_eq_left confidence, max_eq_left seen, tags]

/-- In a transaction that went through, an id has one upsert. -/
theorem filter_id_eq {batch : List Sighting} (distinct : (batch.map fun pair => pair.1.id).Nodup)
    {u : Indicator} (member : u ∈ batch.map Prod.fst) :
    ((batch.map Prod.fst).filter fun ind => ind.id = u.id) = [u] := by
  have nodup : ((batch.map Prod.fst).map Indicator.id).Nodup := by
    rw [List.map_map]
    exact distinct
  generalize batch.map Prod.fst = rows at nodup member
  induction rows with
  | nil => cases member
  | cons row rows ih =>
      rw [List.map_cons, List.nodup_cons] at nodup
      rcases List.mem_cons.mp member with rfl | later
      · have none : (rows.filter fun ind => ind.id = u.id) = [] := by
          rw [List.filter_eq_nil_iff]
          intro other inside
          have apart : other.id ≠ u.id := fun same =>
            nodup.1 (List.mem_map.mpr ⟨other, inside, same⟩)
          simpa using apart
        simp [none]
      · have apart : row.id ≠ u.id := fun same =>
          nodup.1 (List.mem_map.mpr ⟨u, later, same.symm⟩)
        simp [apart, ih nodup.2 later]

/-- Some order of the transactions commits a given upsert first. -/
theorem exists_order_first {id : Uuid} {commits : List (List Sighting)}
    (distinct : ∀ batch ∈ commits, (batch.map fun pair => pair.1.id).Nodup) {u : Indicator}
    (member : u ∈ upsertsOf id commits) :
    ∃ order rest, order.Perm commits ∧ upsertsOf id order = u :: rest := by
  obtain ⟨inside, hit⟩ := List.mem_filter.mp member
  have hit : u.id = id := by simpa using hit
  subst hit
  obtain ⟨pair, flat, same⟩ := List.mem_map.mp inside
  obtain ⟨batch, chosen, within⟩ := List.mem_flatten.mp flat
  obtain ⟨before, after, rfl⟩ := List.append_of_mem chosen
  refine ⟨batch :: (before ++ after), upsertsOf u.id (before ++ after),
    List.perm_middle.symm, ?_⟩
  have only := filter_id_eq (distinct batch chosen) (List.mem_map.mpr ⟨pair, within, same⟩)
  unfold upsertsOf
  rw [List.flatten_cons, List.map_append, List.filter_append, only]
  rfl

section agreement

variable {store : Store} {id : Uuid} {commits : List (List Sighting)}

/-- Upserting any of them again changes nothing, so that they have the same tags. -/
theorem OrderIndependent.tags (independent : OrderIndependent store id commits)
    (commit : ∀ order, order.Perm commits → ∃ store', publishAll store order = .ok store') :
    ∃ tags, ∀ u ∈ upsertsOf id commits, u.tags = tags := by
  obtain ⟨store', committed⟩ := commit commits (List.Perm.refl commits)
  obtain ⟨row, found, _, again⟩ := independent commits (List.Perm.refl commits) store' committed
  refine ⟨row.tags, ?_⟩
  intro u member
  have hit : u.id = id := by simpa using (List.mem_filter.mp member).2
  obtain ⟨obs⟩ : Nonempty Observation := ⟨observe feedContext u [] 0⟩
  obtain ⟨store'', done, unchanged⟩ := again u member obs
  obtain ⟨store₃, done', merged, _⟩ := publish_again (hit ▸ found) obs
  rw [done] at done'
  cases done'
  have same := unchanged u.id
  rw [merged, hit, found, Option.some.injEq] at same
  rw [← same]
  rfl

/-- Any of them can come first, so that none was seen before another. -/
theorem OrderIndependent.first_least (independent : OrderIndependent store id commits)
    (absent : store.row id = none)
    (commit : ∀ order, order.Perm commits → ∃ store', publishAll store order = .ok store')
    {u : Indicator} (member : u ∈ upsertsOf id commits) :
    IsLeast {t | ∃ v ∈ upsertsOf id commits, v.firstSeenByUs = t} u.firstSeenByUs := by
  obtain ⟨_, done⟩ := commit commits (List.Perm.refl commits)
  obtain ⟨order, rest, perm, upserts⟩ := exists_order_first (publishAll_ok.mp done).1 member
  obtain ⟨store', committed⟩ := commit order perm
  obtain ⟨row, found, joins, _⟩ := independent order perm store' committed
  have first := publishAll_new_row committed absent upserts
  rw [found, Option.some.injEq] at first
  have kept : row.firstSeenByUs = u.firstSeenByUs := by
    rw [first]
    exact KeyedTable.foldl_kept onConflict Indicator.firstSeenByUs (fun _ _ => rfl) u rest
  rw [← kept]
  exact joins.firstSeenByUs

/-- The upserts of an order of the commits, the first of them apart. -/
theorem upsertsOf_shape (upserted : upsertsOf id commits ≠ []) {order : List (List Sighting)}
    (perm : order.Perm commits) :
    ∃ first rest, upsertsOf id order = first :: rest ∧
      ∀ u, u ∈ first :: rest ↔ u ∈ upsertsOf id commits := by
  have upserts := upsertsOf_perm id perm
  cases shape : upsertsOf id order with
  | nil =>
      rw [shape] at upserts
      exact absurd upserts.symm.eq_nil upserted
  | cons first rest =>
      refine ⟨first, rest, rfl, ?_⟩
      intro u
      rw [← shape]
      exact upserts.mem_iff

theorem orderIndependent_of_agree (absent : store.row id = none)
    (upserted : upsertsOf id commits ≠ [])
    (agree : ∀ u ∈ upsertsOf id commits, ∀ v ∈ upsertsOf id commits,
      u.firstSeenByUs = v.firstSeenByUs ∧ u.tags = v.tags) :
    OrderIndependent store id commits := by
  intro order perm store' committed
  obtain ⟨first, rest, shape, same⟩ := upsertsOf_shape upserted perm
  have found := publishAll_new_row committed absent shape
  obtain ⟨confidence, seen⟩ := foldl_onConflict_greatest first rest
  have kept : (rest.foldl onConflict first).firstSeenByUs = first.firstSeenByUs :=
    KeyedTable.foldl_kept onConflict Indicator.firstSeenByUs (fun _ _ => rfl) first rest
  obtain ⟨last, inside, overwritten⟩ :
      ∃ last ∈ first :: rest, (rest.foldl onConflict first).tags = last.tags :=
    KeyedTable.foldl_overwritten onConflict Indicator.tags (fun _ _ => rfl) first rest
  have leader : first ∈ upsertsOf id commits := (same first).mp (by simp)
  have member : last ∈ upsertsOf id commits := (same last).mp inside
  simp only [same] at confidence seen
  refine ⟨rest.foldl onConflict first, found, ⟨confidence, seen, ?_, ?_⟩, ?_⟩
  · rw [kept]
    refine ⟨⟨first, leader, rfl⟩, ?_⟩
    rintro t ⟨u, listed, rfl⟩
    exact le_of_eq (agree first leader u listed).1
  · intro u listed tag carried
    rw [overwritten, ← (agree u listed last member).2]
    exact carried
  · intro again listed obs
    have hit : again.id = id := by simpa using (List.mem_filter.mp listed).2
    obtain ⟨store'', done, merged, frame⟩ := publish_again (hit ▸ found) obs
    refine ⟨store'', done, ?_⟩
    intro k
    by_cases other : k = again.id
    · rw [other, merged, hit, found, onConflict_eq_self]
      · exact confidence.2 ⟨again, listed, rfl⟩
      · exact seen.2 ⟨again, listed, rfl⟩
      · rw [overwritten, (agree again listed last member).2]
    · exact frame k other

end agreement

/-- The merge is an order-independent join of the upserts of an id exactly when these agree
in their first sighting and their tags. -/
theorem order_independent_iff (store : Store) (id : Uuid) (commits : List (List Sighting))
    (absent : store.row id = none) (upserted : upsertsOf id commits ≠ [])
    (commit : ∀ order, order.Perm commits → ∃ store', publishAll store order = .ok store') :
    OrderIndependent store id commits ↔
      ∀ u ∈ upsertsOf id commits, ∀ v ∈ upsertsOf id commits,
        u.firstSeenByUs = v.firstSeenByUs ∧ u.tags = v.tags := by
  constructor
  · intro independent
    obtain ⟨tags, tagged⟩ := independent.tags commit
    intro u member v member'
    have least := independent.first_least absent commit member
    have least' := independent.first_least absent commit member'
    exact ⟨least.unique least', (tagged u member).trans (tagged v member').symm⟩
  · exact orderIndependent_of_agree absent upserted

/-- One mutex from two sources. -/
def mutexFrom (source : Str) (seen : Int) (tags : List Str) : List Sighting :=
  let ind := mutexSeen 1 "m".toList seen tags
  [(ind, observe { feedContext with sourceId := source } ind [] seen)]

theorem order_independent_agreeing :
    OrderIndependent ⟨[], []⟩ 1 [mutexFrom "a".toList 0 ["x".toList],
      mutexFrom "b".toList 0 ["x".toList]] := by
  refine (order_independent_iff ⟨[], []⟩ 1 _ rfl (by decide) ?_).mpr (by decide)
  intro order perm
  rcases List.perm_pair.mp perm with rfl | rfl <;> exact ⟨_, rfl⟩

/-- The later source overwrites the tags of the earlier one. -/
theorem order_dependent_tags :
    ¬ OrderIndependent ⟨[], []⟩ 1 [mutexFrom "a".toList 0 ["x".toList],
      mutexFrom "b".toList 1 ["y".toList]] := by
  intro independent
  obtain ⟨row, found, joins, _⟩ := independent _ (List.Perm.refl _) _ rfl
  cases found
  have lost := joins.tags (mutexSeen 1 "m".toList 0 ["x".toList]) (by decide) "x".toList (by decide)
  exact absurd lost (by decide)

end Cti
