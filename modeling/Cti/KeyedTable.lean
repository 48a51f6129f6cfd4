import Mathlib.Data.List.Induction
import Mathlib.Data.List.Nodup
import Mathlib.Order.Bounds.Basic
import Mathlib.Order.MinMax

set_option autoImplicit false

/- Tables of rows with a key, under single-row upserts that merge the new row into
the row with its key. -/
namespace KeyedTable

variable {κ ρ : Type} [DecidableEq κ] (key : ρ → κ) (merge : ρ → ρ → ρ)

def find (k : κ) (table : List ρ) : Option ρ := table.find? fun row => key row = k

/-- Merge the row into the rows with its key, or append it. -/
def upsert (table : List ρ) (row : ρ) : List ρ :=
  if (find key (key row) table).isSome then
    table.map fun old => if key old = key row then merge old row else old
  else table ++ [row]

/-- What the upsert of a row makes of the row with its key, if there is one. -/
def absorb (old : Option ρ) (row : ρ) : Option ρ :=
  match old with
  | none => some row
  | some old => some (merge old row)

theorem find_isSome {k : κ} {table : List ρ} :
    (find key k table).isSome ↔ ∃ row ∈ table, key row = k := by
  simp [find]

theorem find_eq_none {k : κ} {table : List ρ} :
    find key k table = none ↔ ∀ row ∈ table, key row ≠ k := by
  simp [find]

variable {key merge}

theorem find_map_merge (keeps : ∀ old row, key row = key old → key (merge old row) = key old)
    (row : ρ) (k : κ) (table : List ρ) :
    find key k (table.map fun old => if key old = key row then merge old row else old) =
      (find key k table).map fun old => if key old = key row then merge old row else old := by
  have same : ∀ old, key (if key old = key row then merge old row else old) = key old := by
    intro old
    split
    · rename_i hit
      exact keeps old row hit.symm
    · rfl
  simp only [find, List.find?_map, Function.comp_def, same]

theorem find_upsert_self (keeps : ∀ old row, key row = key old → key (merge old row) = key old)
    (table : List ρ) (row : ρ) :
    find key (key row) (upsert key merge table row) =
      absorb merge (find key (key row) table) row := by
  unfold upsert
  cases found : find key (key row) table with
  | none =>
      simp only [Option.isSome_none, Bool.false_eq_true, ↓reduceIte, absorb]
      unfold find at found ⊢
      simp [List.find?_append, found]
  | some old =>
      have hit : key old = key row := by
        have := List.find?_some found
        simpa using this
      simp only [Option.isSome_some, ↓reduceIte, absorb]
      rw [find_map_merge keeps, found]
      simp [hit]

/-- An upsert leaves the rows with other keys alone. -/
theorem find_upsert_of_ne (keeps : ∀ old row, key row = key old → key (merge old row) = key old)
    (table : List ρ) {row : ρ} {k : κ} (other : key row ≠ k) :
    find key k (upsert key merge table row) = find key k table := by
  unfold upsert
  split
  · rw [find_map_merge keeps]
    cases found : find key k table with
    | none => rfl
    | some old =>
        have hit : key old = k := by
          have := List.find?_some found
          simpa using this
        have miss : key old ≠ key row := by
          rw [hit]
          exact Ne.symm other
        simp [miss]
  · simp [find, List.find?_append, other]

/-- The row of a key after a run of upserts: the upserts of that key, one after the
other. -/
theorem find_foldl_upsert
    (keeps : ∀ old row, key row = key old → key (merge old row) = key old) (k : κ)
    (rows table : List ρ) :
    find key k (rows.foldl (upsert key merge) table) =
      (rows.filter fun row => key row = k).foldl (absorb merge) (find key k table) := by
  induction rows generalizing table with
  | nil => rfl
  | cons row rows ih =>
      simp only [List.foldl_cons]
      rw [ih]
      by_cases hit : key row = k
      · subst hit
        simp [find_upsert_self keeps]
      · simp [hit, find_upsert_of_ne keeps table hit]

/-- The keys of a table after an upsert. -/
theorem mem_upsert_key (keeps : ∀ old row, key row = key old → key (merge old row) = key old)
    {table : List ρ} {row : ρ} {k : κ} :
    (∃ new ∈ upsert key merge table row, key new = k) ↔
      key row = k ∨ ∃ old ∈ table, key old = k := by
  rw [← find_isSome, ← find_isSome]
  by_cases hit : key row = k
  · subst hit
    rw [find_upsert_self keeps]
    cases find key (key row) table <;> simp [absorb]
  · rw [find_upsert_of_ne keeps table hit]
    simp [hit]

/-- An upserted table holds the old rows, perhaps merged with the new row, and at most
the new row besides. -/
theorem mem_upsert {table : List ρ} {row new : ρ} (member : new ∈ upsert key merge table row) :
    (∃ old ∈ table, new = old ∨ key old = key row ∧ new = merge old row) ∨
      new = row ∧ ∀ old ∈ table, key old ≠ key row := by
  unfold upsert at member
  split at member
  · obtain ⟨old, inside, same⟩ := List.mem_map.mp member
    refine Or.inl ⟨old, inside, ?_⟩
    split at same
    · rename_i hit
      exact Or.inr ⟨hit, same.symm⟩
    · exact Or.inl same.symm
  · rename_i missing
    rcases List.mem_append.mp member with inside | last
    · exact Or.inl ⟨new, inside, Or.inl rfl⟩
    · refine Or.inr ⟨by simpa using last, ?_⟩
      rw [← find_eq_none]
      simpa using missing

/-- An upsert keeps a column without repeats that merging leaves alone, if a new row brings a new
entry. -/
theorem nodup_upsert {γ : Type} {column : ρ → γ}
    (kept : ∀ old row, column (merge old row) = column old) {table : List ρ} {row : ρ}
    (distinct : (table.map column).Nodup)
    (fresh : (∀ old ∈ table, key old ≠ key row) → column row ∉ table.map column) :
    ((upsert key merge table row).map column).Nodup := by
  unfold upsert
  split
  · have same : (table.map fun old => if key old = key row then merge old row else old).map column =
        table.map column := by
      rw [List.map_map]
      refine List.map_congr_left fun old _ => ?_
      rw [Function.comp_apply]
      split
      · exact kept old row
      · rfl
    rw [same]
    exact distinct
  · rename_i missing
    rw [List.map_append, List.map_singleton, List.nodup_append]
    refine ⟨distinct, List.nodup_singleton _, fun entry member last inside => ?_⟩
    have absent := fresh ((find_eq_none key).mp (by simpa using missing))
    rw [List.mem_singleton.mp inside]
    rintro rfl
    exact absent member

theorem foldl_absorb_some (rows : List ρ) (row : ρ) :
    rows.foldl (absorb merge) (some row) = some (rows.foldl merge row) := by
  induction rows generalizing row with
  | nil => rfl
  | cons next rows ih => exact ih (merge row next)

section columns

variable (merge) {γ : Type} (column : ρ → γ)

/-- A column that merging leaves alone. -/
theorem foldl_kept (kept : ∀ old row, column (merge old row) = column old) (row : ρ)
    (rows : List ρ) : column (rows.foldl merge row) = column row := by
  induction rows generalizing row with
  | nil => rfl
  | cons next rows ih => rw [List.foldl_cons, ih, kept]

/-- A column that merging overwrites. -/
theorem foldl_overwritten (overwritten : ∀ old row, column (merge old row) = column row) (row : ρ)
    (rows : List ρ) : ∃ last ∈ row :: rows, column (rows.foldl merge row) = column last := by
  induction rows generalizing row with
  | nil => exact ⟨row, by simp, rfl⟩
  | cons next rows ih =>
      obtain ⟨last, member, same⟩ := ih (merge row next)
      rcases List.mem_cons.mp member with first | later
      · refine ⟨next, by simp, ?_⟩
        rw [List.foldl_cons, same, first, overwritten]
      · exact ⟨last, by simp [later], same⟩

/-- A column that merging joins. -/
theorem foldl_greatest [LinearOrder γ]
    (greatest : ∀ old row, column (merge old row) = max (column old) (column row)) (row : ρ)
    (rows : List ρ) :
    IsGreatest {c | ∃ member ∈ row :: rows, column member = c} (column (rows.foldl merge row)) := by
  induction rows generalizing row with
  | nil =>
      refine ⟨⟨row, by simp, rfl⟩, ?_⟩
      rintro c ⟨member, inside, rfl⟩
      rw [List.mem_singleton.mp inside]
      rfl
  | cons next rows ih =>
      obtain ⟨⟨member, inside, same⟩, bound⟩ := ih (merge row next)
      have joined : column (merge row next) ≤ column (rows.foldl merge (merge row next)) :=
        bound ⟨merge row next, by simp, rfl⟩
      rw [greatest, max_le_iff] at joined
      constructor
      · rcases List.mem_cons.mp inside with first | later
        · rw [List.foldl_cons, ← same, first, greatest]
          rcases max_cases (column row) (column next) with ⟨eq, _⟩ | ⟨eq, _⟩
          · exact ⟨row, by simp, eq.symm⟩
          · exact ⟨next, by simp, eq.symm⟩
        · exact ⟨member, by simp [later], same⟩
      · rintro c ⟨member, inside, rfl⟩
        rcases List.mem_cons.mp inside with rfl | inside
        · exact joined.1
        · rcases List.mem_cons.mp inside with rfl | inside
          · exact joined.2
          · exact bound ⟨member, by simp [inside], rfl⟩

/-- The column of the merged row, from the column of the rows. -/
theorem foldl_column {op : γ → γ → γ}
    (joined : ∀ old row, column (merge old row) = op (column old) (column row)) (row : ρ)
    (rows : List ρ) : column (rows.foldl merge row) = (rows.map column).foldl op (column row) := by
  rw [List.foldl_map]
  exact (List.foldl_hom column fun old next => (joined old next).symm).symm

theorem foldl_absorb_greatest [Max γ]
    (greatest : ∀ old row, column (merge old row) = max (column old) (column row)) (old : Option ρ)
    (rows : List ρ) :
    (rows.foldl (absorb merge) old).map column =
      ((old.map column).toList ++ rows.map column).max? := by
  have some_case (row : ρ) (rows : List ρ) :
      (rows.foldl (absorb merge) (some row)).map column = (column row :: rows.map column).max? := by
    rw [foldl_absorb_some, Option.map_some, foldl_column merge column greatest]
    rfl
  cases old with
  | some row => exact some_case row rows
  | none =>
      cases rows with
      | nil => rfl
      | cons row rows => exact some_case row rows

theorem foldl_absorb_first (kept : ∀ old row, column (merge old row) = column old) (old : Option ρ)
    (rows : List ρ) :
    (rows.foldl (absorb merge) old).map column =
      ((old.map column).toList ++ rows.map column).head? := by
  have some_case (row : ρ) (rows : List ρ) :
      (rows.foldl (absorb merge) (some row)).map column = some (column row) := by
    rw [foldl_absorb_some, Option.map_some, foldl_kept merge column kept]
  cases old with
  | some row => exact some_case row rows
  | none =>
      cases rows with
      | nil => rfl
      | cons row rows => exact some_case row rows

end columns

theorem foldl_absorb_last {rows : List ρ} (nonempty : rows ≠ []) (old : Option ρ) :
    ∃ last ∈ rows, rows.foldl (absorb fun _ new => new) old = some last := by
  obtain ⟨first, rest, rfl⟩ := List.exists_cons_of_ne_nil nonempty
  have fresh : absorb (fun _ new => new) old first = some first := by
    cases old <;> rfl
  obtain ⟨last, among, same⟩ := foldl_overwritten (fun _ new => new) id (fun _ _ => rfl) first rest
  refine ⟨last, among, ?_⟩
  rw [List.foldl_cons, fresh, foldl_absorb_some]
  exact congrArg some same

/-- Where new rows replace old ones, the row of a key is one of those that were written. -/
theorem find_foldl_overwrite (rows table : List ρ) {row : ρ} (member : row ∈ rows) :
    ∃ last ∈ rows, key last = key row ∧
      find key (key row) (rows.foldl (upsert key fun _ new => new) table) = some last := by
  have hit : row ∈ rows.filter fun other => key other = key row :=
    List.mem_filter.mpr ⟨member, decide_eq_true rfl⟩
  obtain ⟨last, among, same⟩ := foldl_absorb_last (List.ne_nil_of_mem hit)
    (find key (key row) table)
  obtain ⟨inside, keyed⟩ := List.mem_filter.mp among
  refine ⟨last, inside, of_decide_eq_true keyed, ?_⟩
  rw [find_foldl_upsert fun _ _ same => same]
  exact same

section idempotent

variable [Std.IdempotentOp merge]

variable [Std.Associative merge]

end idempotent

end KeyedTable
