import Cti.Models

set_option autoImplicit false

namespace Cti

open Py (Str)

/-- `run_with_outcome`, given what `Pipeline.run` did and the context as it left it. -/
def runWithOutcome (ctx : RunContext) (started finished : Int)
    (outcome : Except ExcTree RunResult) : Except ExcTree RunResult :=
  match outcome with
  | .ok result => .ok result
  | .error tree =>
      let flat := tree.flatten
      let mapped (state : RunState) : RunResult :=
        { runId := ctx.runId
          sourceId := ctx.sourceId
          state := state
          startedAt := started
          finishedAt := finished
          fetchedBytes := 0
          recordsIn := 0
          recordsOut := 0
          error := some ("; ".toList.intercalate
            ((flat.filter fun e => e.isA .ctiError).map Exc.message))
          watermark := ctx.watermark
          rawUri := ctx.rawUri }
      if flat.any fun e => e.isA .permanentError then .ok (mapped .failed)
      else if flat.any fun e => e.isA .ctiError then .ok (mapped .partialSuccess)
      else .error tree

def RunState.Terminal : RunState → Prop
  | .success => True
  | .partialSuccess => True
  | .failed => True
  | _ => False

variable {ctx : RunContext} {started finished : Int} {outcome : Except ExcTree RunResult}

/-- What gets through as an exception has no leaf of the framework. -/
theorem runWithOutcome_error {tree : ExcTree}
    (raised : runWithOutcome ctx started finished outcome = .error tree) :
    outcome = .error tree ∧ ∀ e ∈ tree.flatten, e.isA .ctiError = false := by
  unfold runWithOutcome at raised
  split at raised
  · cases raised
  · dsimp only at raised
    split at raised
    · cases raised
    · split at raised
      · cases raised
      · rename_i tree' _ foreign
        cases raised
        refine ⟨rfl, ?_⟩
        intro e leaf
        by_contra member
        exact foreign (List.any_eq_true.mpr ⟨e, leaf, by simpa using member⟩)

/-- A result is the one that the pipeline returned, or says that the pipeline raised. -/
theorem runWithOutcome_ok {result : RunResult}
    (returned : runWithOutcome ctx started finished outcome = .ok result) :
    outcome = .ok result ∨ (∃ tree, outcome = .error tree) ∧ result.state ≠ .success ∧
      result.watermark = ctx.watermark := by
  unfold runWithOutcome at returned
  split at returned
  · exact Or.inl returned
  · rename_i tree
    refine Or.inr ⟨⟨tree, rfl⟩, ?_⟩
    dsimp only at returned
    split at returned
    · cases returned
      exact ⟨nofun, rfl⟩
    · split at returned
      · cases returned
        exact ⟨nofun, rfl⟩
      · cases returned

theorem runWithOutcome_terminal {result : RunResult}
    (ok : ∀ result, outcome = .ok result → result.state.Terminal)
    (returned : runWithOutcome ctx started finished outcome = .ok result) :
    result.state.Terminal := by
  unfold runWithOutcome at returned
  split at returned
  · cases returned
    exact ok result rfl
  · dsimp only at returned
    split at returned
    · cases returned
      trivial
    · split at returned
      · cases returned
        trivial
      · cases returned

/-- The pipeline returned, or raised an exception of the framework among others. -/
def Mapped (outcome : Except ExcTree RunResult) : Prop :=
  ∀ tree, outcome = .error tree → ∃ e ∈ tree.flatten, e.isA .ctiError = true

theorem runWithOutcome_mapped {result : RunResult}
    (returned : runWithOutcome ctx started finished outcome = .ok result) : Mapped outcome := by
  rintro tree rfl
  by_contra foreign
  push Not at foreign
  have none : ∀ c : ClassName, .ctiError ∈ c.mro → (tree.flatten.any fun e => e.isA c) = false := by
    intro c inherits
    rw [List.any_eq_false]
    intro e leaf
    have outside : e.isA .ctiError = false := by simpa using foreign e leaf
    simpa using Exc.not_isA_of_mro inherits outside
  simp only [runWithOutcome, none .permanentError (by decide), none .ctiError (by decide)] at returned
  cases returned

theorem runWithOutcome_unmapped {tree : ExcTree}
    (raised : runWithOutcome ctx started finished outcome = .error tree) : ¬ Mapped outcome := by
  obtain ⟨rfl, foreign⟩ := runWithOutcome_error raised
  intro mapped
  obtain ⟨e, leaf, inside⟩ := mapped tree rfl
  rw [foreign e leaf] at inside
  cases inside

end Cti
