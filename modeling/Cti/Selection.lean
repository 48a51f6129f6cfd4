import Mathlib.Data.List.Sort
import Mathlib.Order.Defs.LinearOrder

set_option autoImplicit false

/- Queries for the first rows of a table in the order of a key. -/
namespace Selection

variable {α κ : Type} [LinearOrder κ] {table rows : List α} {cond : α → Bool} {key : α → κ}
  {limit : Nat}

/-- The rows of the table that meet the condition, those with the greatest keys first, up to the
limit. In which order rows of the same key come is left open. -/
def Selects (table : List α) (cond : α → Bool) (key : α → κ) (limit : Nat) (rows : List α) : Prop :=
  ∃ ordered : List α, ordered.Perm (table.filter cond) ∧
    ordered.Pairwise (fun row next => key next ≤ key row) ∧ rows = ordered.take limit

/-- The rows that the limit cuts off. -/
theorem Selects.rest (selects : Selects table cond key limit rows) :
    ∃ rest, (rows ++ rest).Perm (table.filter cond) ∧
      (rest ≠ [] → rows.length = limit) ∧
      ∀ row ∈ rows, ∀ other ∈ rest, key other ≤ key row := by
  obtain ⟨ordered, perm, sorted, rfl⟩ := selects
  refine ⟨ordered.drop limit, ?_, ?_, ?_⟩
  · rw [List.take_append_drop]
    exact perm
  · intro more
    have longer := List.length_pos_of_ne_nil more
    rw [List.length_drop] at longer
    rw [List.length_take]
    omega
  · rw [← List.take_append_drop limit ordered, List.pairwise_append] at sorted
    exact sorted.2.2

theorem Selects.mem (selects : Selects table cond key limit rows) {row : α} (member : row ∈ rows) :
    row ∈ table ∧ cond row = true := by
  obtain ⟨rest, perm, _⟩ := selects.rest
  exact List.mem_filter.mp (perm.mem_iff.mp (List.mem_append_left rest member))

theorem Selects.length (selects : Selects table cond key limit rows) :
    rows.length = min limit (table.countP cond) := by
  obtain ⟨ordered, perm, _, rfl⟩ := selects
  rw [List.length_take, perm.length_eq, List.countP_eq_length_filter]

/-- What identifies the rows of the table identifies the rows of the answer. -/
theorem Selects.nodup {ι : Type} {id : α → ι} (selects : Selects table cond key limit rows)
    (distinct : (table.map id).Nodup) : (rows.map id).Nodup := by
  obtain ⟨rest, perm, _⟩ := selects.rest
  have filtered : ((table.filter cond).map id).Nodup :=
    distinct.sublist (List.filter_sublist.map id)
  have whole := (perm.map id).nodup_iff.mpr filtered
  rw [List.map_append] at whole
  exact (List.nodup_append.mp whole).1

end Selection
