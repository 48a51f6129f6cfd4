import Cti.TaskNetWorld

set_option autoImplicit false

/- The items that a stage has put into its output in the course of a run. -/
namespace TaskNet

variable {W E α β : Type}

/-- The coroutine puts what it writes to a log, in order: `owed` is what it has logged and
not put. -/
structure Owes (c : Coroutine W E α β) (log : W → List β) (owed : c.Pc → List β) : Prop where
  start : owed c.start = []
  get : ∀ {pc next}, c.act pc = .get next → ∀ item, owed (next item) = owed pc
  put : ∀ {pc item next}, c.act pc = .put item next → owed pc = item :: owed next
  call : ∀ {pc returns raises w w' next}, c.act pc = .call returns raises → returns w w' next →
    ∃ fresh, log w' = log w ++ fresh ∧ owed next = owed pc ++ fresh
  raise : ∀ {pc returns raises w error w'}, c.act pc = .call returns raises →
    raises w error w' → log w' = log w

/-- What a task that is still in its body owes. -/
def Status.Owing {Pc : Type} (owed : Pc → List β) (rest : List β) : Status Pc E → Prop
  | .created => rest = []
  | .running pc => rest = owed pc
  | _ => True

theorem Status.owing_leave {γ Pc : Type} (owed : Pc → List β) (rest : List β) (rule : CloseRule)
    (exit : Exit E) (q : Channel γ) : (rule.leave exit q : Status Pc E).Owing owed rest := by
  unfold CloseRule.leave
  split <;> trivial

/-- The item that the step of a task adds to its output. -/
def Label.put? (label : Label E) (output : Channel β) : List β :=
  match label with
  | .put => (output.items.getLast?.bind id).toList
  | _ => []

theorem TaskStep.owing {c : Coroutine W E α β} {maxsize : Int} {v v' : View W E α β c.Pc}
    {label : Label E} {log : W → List β} {owed : c.Pc → List β}
    (step : TaskStep c maxsize v label v') (owes : Owes c log owed) {put rest : List β}
    (logged : log v.world = put ++ rest) (owing : v.task.status.Owing owed rest) :
    ∃ rest', log v'.world = put ++ label.put? v'.output ++ rest' ∧
      v'.task.status.Owing owed rest' := by
  cases step with
  | start now =>
      rw [now] at owing
      exact ⟨rest, by simpa [Label.put?] using logged, owing.trans owes.start.symm⟩
  | get pc next item tail now act head =>
      rw [now] at owing
      exact ⟨rest, by simpa [Label.put?] using logged, owing.trans (owes.get act item).symm⟩
  | put pc next item now act room =>
      rw [now] at owing
      refine ⟨owed next, ?_, rfl⟩
      have pushed : Label.put? (E := E) .put (v.output.push (some item)) = [item] := by
        simp [Label.put?, Channel.push]
      dsimp only
      rw [pushed, logged, show rest = owed pc from owing, owes.put act]
      simp
  | call pc next returns raises world now act result =>
      rw [now] at owing
      obtain ⟨fresh, grown, owed'⟩ := owes.call act result
      refine ⟨rest ++ fresh, ?_, ?_⟩
      · simp [Label.put?, grown, logged]
      · change rest ++ fresh = owed next
        rw [owed', show rest = owed pc from owing]
  | raise pc returns raises error world now act result =>
      refine ⟨rest, ?_, Status.owing_leave _ _ _ _ _⟩
      simpa [Label.put?, owes.raise act result] using logged
  | ret pc now act =>
      exact ⟨rest, by simpa [Label.put?] using logged, Status.owing_leave _ _ _ _ _⟩
  | close exit now room => exact ⟨rest, by simpa [Label.put?] using logged, trivial⟩
  | cancelCreated now => exact ⟨rest, by simpa [Label.put?] using logged, trivial⟩
  | cancelRunning pc now =>
      exact ⟨rest, by simpa [Label.put?] using logged, Status.owing_leave _ _ _ _ _⟩
  | cancelClosing exit now => exact ⟨rest, by simpa [Label.put?] using logged, trivial⟩

namespace Net

variable {N : Net W E}

/-- What a step puts into the output of the i-th stage. -/
def StepLabel.put? (i : Nat) (label : StepLabel E) (t : N.State) : List (N.Item (i + 1)) :=
  match label with
  | .task j label => if j = i then label.put? (t.chan (i + 1)) else []
  | .abort => []

/-- A run with the items that its i-th stage has put. -/
inductive Puts (N : Net W E) (i : Nat) (start : N.State) :
    List (N.Item (i + 1)) → N.State → Prop
  | refl : Puts N i start [] start
  | step (put : List (N.Item (i + 1))) (s t : N.State) (label : StepLabel E)
      (before : Puts N i start put s) (step : N.Step s label t) :
      Puts N i start (put ++ label.put? i t) t

/-- Whatever fails in a run, a stage that owes what it logs has put what it logged first. -/
theorem Puts.logged {i : Nat} (inside : i < N.size) {log : W → List (N.Item (i + 1))}
    {owed : (N.code i).Pc → List (N.Item (i + 1))} (owes : Owes (N.code i) log owed)
    (others : ∀ j, j ≠ i → j < N.size → (N.code j).Keeps fun w w' => log w' = log w) {world : W}
    (empty : log world = []) {put : List (N.Item (i + 1))} {s : N.State}
    (run : Puts N i (N.init world) put s) :
    ∃ rest, log s.world = put ++ rest ∧ (s.task i).status.Owing owed rest := by
  induction run with
  | refl =>
      refine ⟨[], ?_, rfl⟩
      change log world = []
      exact empty
  | step put s t label _ step ih =>
      obtain ⟨rest, logged, owing⟩ := ih
      cases step with
      | abort fresh failed =>
          refine ⟨rest, ?_, owing⟩
          simp only [StepLabel.put?, List.append_nil]
          exact logged
      | task j label v inside' step =>
          by_cases self : j = i
          · subst self
            obtain ⟨rest', logged', owing'⟩ := step.owing owes logged owing
            refine ⟨rest', ?_, ?_⟩
            · simp only [StepLabel.put?, State.write_chan_output]
              exact logged'
            · rw [State.write_task_self]
              exact owing'
          · have kept := step.keeps (others j self inside') (fun _ => rfl)
            refine ⟨rest, ?_, ?_⟩
            · simp only [StepLabel.put?, if_neg self, List.append_nil]
              exact kept.trans logged
            · rw [State.write_task_of_ne s (fun same => self same.symm)]
              exact owing

end Net

end TaskNet
