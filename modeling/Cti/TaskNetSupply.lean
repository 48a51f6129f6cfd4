import Cti.TaskNetDelivery
import Cti.TaskNetWorld

set_option autoImplicit false

/- A source with so much to yield: what it has yielded and what is left are the same list
together, throughout a run. -/
namespace TaskNet

variable {W E α β γ : Type}

/-- A coroutine that moves what it has left into the world and does nothing else with either. -/
structure Supplies (c : Coroutine W E α β) (sourced : W → List γ) (left : c.Pc → List γ) :
    Prop where
  get : ∀ {pc next}, c.act pc = .get next → ∀ item, left (next item) = left pc
  put : ∀ {pc item next}, c.act pc = .put item next → left next = left pc
  call : ∀ {pc returns raises w w' next}, c.act pc = .call returns raises → returns w w' next →
    sourced w' ++ left next = sourced w ++ left pc
  raise : ∀ {pc returns raises w error w'}, c.act pc = .call returns raises →
    raises w error w' → sourced w' = sourced w
  ret : ∀ {pc}, c.act pc = .ret → left pc = []

/-- How far a task has come with a supply. -/
def Status.Supplied {Pc : Type} (start : Pc) (left : Pc → List γ) (whole sourced : List γ) :
    Status Pc E → Prop
  | .created => sourced ++ left start = whole
  | .running pc => sourced ++ left pc = whole
  | .closing exit => sourced <+: whole ∧ (exit = .returned → sourced = whole)
  | .finished exit => sourced <+: whole ∧ (exit = .returned → sourced = whole)

section task

variable {c : Coroutine W E α β} {sourced : W → List γ} {left : c.Pc → List γ} {whole : List γ}

theorem CloseRule.supplied_leave {Pc : Type} {start : Pc} {left : Pc → List γ}
    {whole sourced : List γ} {exit : Exit E} (rule : CloseRule) (q : Channel α)
    (less : sourced <+: whole) (all : exit = .returned → sourced = whole) :
    (rule.leave exit q : Status Pc E).Supplied start left whole sourced := by
  unfold CloseRule.leave
  split
  · exact ⟨less, all⟩
  · exact ⟨less, all⟩

theorem TaskStep.supplied (supplies : Supplies c sourced left) {maxsize : Int}
    {v v' : View W E α β c.Pc} {label : Label E} (step : TaskStep c maxsize v label v')
    (before : v.task.status.Supplied c.start left whole (sourced v.world)) :
    v'.task.status.Supplied c.start left whole (sourced v'.world) := by
  cases step with
  | start now =>
      rw [now] at before
      exact before
  | get pc next item rest now act head =>
      rw [now] at before
      change _ ++ left (next item) = whole
      rw [supplies.get act]
      exact before
  | put pc next item now act room =>
      rw [now] at before
      change _ ++ left next = whole
      rw [supplies.put act]
      exact before
  | call pc next returns raises world now act result =>
      rw [now] at before
      exact (supplies.call act result).trans before
  | raise pc returns raises error world now act result =>
      rw [now] at before
      refine CloseRule.supplied_leave _ _ ?_ (by rintro ⟨⟩)
      change sourced world <+: whole
      rw [supplies.raise act result]
      exact ⟨_, before⟩
  | ret pc now act =>
      rw [now] at before
      change sourced v.world ++ left pc = whole at before
      rw [supplies.ret act, List.append_nil] at before
      exact CloseRule.supplied_leave _ _ (before ▸ List.prefix_rfl) fun _ => before
  | close exit now room =>
      rw [now] at before
      exact before
  | cancelCreated now =>
      rw [now] at before
      exact ⟨⟨_, before⟩, by rintro ⟨⟩⟩
  | cancelRunning pc now =>
      rw [now] at before
      exact CloseRule.supplied_leave _ _ ⟨_, before⟩ (by rintro ⟨⟩)
  | cancelClosing exit now =>
      rw [now] at before
      exact ⟨before.1, by rintro ⟨⟩⟩

end task

namespace Net

variable {N : Net W E} {sourced : W → List γ} {whole : List γ} {i : Nat}
  {left : (N.code i).Pc → List γ}

theorem Step.supplied (supplies : Supplies (N.code i) sourced left)
    (others : ∀ j, j ≠ i → j < N.size → (N.code j).Keeps fun w w' => sourced w' = sourced w)
    {s t : N.State} {label : StepLabel E} (step : N.Step s label t)
    (before : (s.task i).status.Supplied (N.code i).start left whole (sourced s.world)) :
    (t.task i).status.Supplied (N.code i).start left whole (sourced t.world) := by
  cases step with
  | task j label v inside step =>
      by_cases own : j = i
      · subst own
        rw [State.write_task_self]
        exact step.supplied supplies before
      · rw [State.write_task_of_ne s (Ne.symm own)]
        have kept := step.keeps (others j own inside) fun _ => rfl
        change (s.task i).status.Supplied _ left whole (sourced v.world)
        rw [kept]
        exact before
  | abort fresh failed => exact before

/-- A stage that supplies something, with no other stage touching it, supplies it from the first
item on, and has supplied it whole when it returns. -/
theorem Reaches.supplied (supplies : Supplies (N.code i) sourced left)
    (others : ∀ j, j ≠ i → j < N.size → (N.code j).Keeps fun w w' => sourced w' = sourced w)
    {allowed : N.State → StepLabel E → Prop} {world : W} {s : N.State}
    (run : N.Reaches allowed (N.init world) s)
    (start : sourced world ++ left (N.code i).start = whole) :
    (s.task i).status.Supplied (N.code i).start left whole (sourced s.world) := by
  induction run with
  | refl => exact start
  | tail _ last ih =>
      obtain ⟨label, _, step⟩ := last
      exact step.supplied supplies others ih

end Net

end TaskNet
