import Mathlib.Algebra.BigOperators.Group.Finset.Basic
import Mathlib.Algebra.Order.BigOperators.Group.Finset
import Cti.TaskNetProgress

set_option autoImplicit false

namespace TaskNet

variable {W E α β : Type}

theorem CloseRule.leave_cases (Pc : Type) (rule : CloseRule) (exit : Exit E) (q : Channel α) :
    (rule.leave exit q : Status Pc E) = .finished exit ∨
      (rule.closes exit = true ∧ (rule.leave exit q : Status Pc E) = .closing exit) := by
  unfold CloseRule.leave CloseRule.pending
  split
  · rename_i pending
    simp only [Bool.and_eq_true] at pending
    exact Or.inr ⟨pending.1, rfl⟩
  · exact Or.inl rfl

theorem CloseRule.closes_cancelled {rule : CloseRule}
    (closes : rule.closes (.cancelled : Exit E) = true) : rule = .always := by
  cases rule <;> simp_all [CloseRule.closes]

/-- A task on its way out after an abort: it has ended, or its cancellation is still
to be delivered, or it is sending the end mark. Wherever it will have to send the
mark, there is room for it. -/
inductive Leaving (c : Coroutine W E α β) (maxsize : Int) (task : Task c.Pc E) (output : Channel β) :
    Prop
  | ended (finished : task.Finished)
  | requested (pending : task.cancelRequested = true)
      (room : ∀ pc, task.status = .running pc → c.close = .always → ¬ output.Full maxsize)
  | sending (exit : Exit E) (quiet : task.cancelRequested = false)
      (now : task.status = .closing exit) (room : ¬ output.Full maxsize)

/-- A task on its way out can always take its next step, and stays on its way out. -/
theorem Leaving.step {c : Coroutine W E α β} {maxsize : Int} {v v' : View W E α β c.Pc}
    {label : Label E} (leaving : Leaving c maxsize v.task v.output)
    (step : TaskStep c maxsize v label v') : Leaving c maxsize v'.task v'.output := by
  cases leaving with
  | ended finished => exact absurd finished step.unfinished
  | requested pending room =>
      cases step with
      | cancelCreated now => exact .ended ⟨.cancelled, rfl⟩
      | cancelClosing exit now => exact .ended ⟨.cancelled, rfl⟩
      | cancelRunning pc now =>
          have free := room pc (by rw [now])
          rcases c.close.leave_cases (E := E) c.Pc .cancelled v.output with
            ended | ⟨closes, closing⟩
          · exact .ended ⟨.cancelled, ended⟩
          · exact .sending .cancelled rfl closing
              (Channel.not_full_markClosed _ _ (free (CloseRule.closes_cancelled closes)))
      | _ => simp_all
  | sending exit quiet now room =>
      cases step with
      | close exit now room => exact .ended ⟨exit, rfl⟩
      | _ => simp_all

theorem Leaving.can_step {c : Coroutine W E α β} {maxsize : Int} {v : View W E α β c.Pc}
    (leaving : Leaving c maxsize v.task v.output) (unfinished : ¬ v.task.Finished) :
    ∃ label v', TaskStep c maxsize v label v' := by
  cases leaving with
  | ended finished => exact absurd finished unfinished
  | requested pending room =>
      obtain ⟨v', step⟩ := TaskStep.of_request c maxsize v unfinished pending
      exact ⟨_, v', step⟩
  | sending exit quiet now room =>
      have task : v.task = ⟨.closing exit, false⟩ := by rw [← quiet, ← now]
      exact ⟨_, _, .close v exit task room⟩

/-- More room downstream keeps a task on its way out. -/
theorem Leaving.mono {c : Coroutine W E α β} {maxsize : Int} {task : Task c.Pc E}
    {output output' : Channel β} (leaving : Leaving c maxsize task output)
    (less : ¬ output.Full maxsize → ¬ output'.Full maxsize) : Leaving c maxsize task output' := by
  cases leaving with
  | ended finished => exact .ended finished
  | requested pending room => exact .requested pending (fun pc now rule => less (room pc now rule))
  | sending exit quiet now room => exact .sending exit quiet now (less room)

/-- A consumer on its way out reads nothing more. -/
theorem TaskStep.consumer_gone {c : Coroutine W E α β} {maxsize : Int}
    {v v' : View W E α β c.Pc} {label : Label E} (step : TaskStep c maxsize v label v')
    (leaving : v.task.Finished ∨ v.task.cancelRequested = true ∨
      ∃ exit, v.task.status = .closing exit) :
    v'.input = v.input ∧ (v'.task.Finished ∨ v'.task.cancelRequested = true ∨
      ∃ exit, v'.task.status = .closing exit) := by
  have gone : ∀ (rule : CloseRule) (exit : Exit E) (q : Channel β),
      (⟨rule.leave exit q, false⟩ : Task c.Pc E).Finished ∨
        ∃ exit', (rule.leave exit q : Status c.Pc E) = .closing exit' := by
    intro rule exit q
    rcases rule.leave_cases c.Pc exit q with ended | ⟨_, closing⟩
    · exact Or.inl ⟨exit, ended⟩
    · exact Or.inr ⟨exit, closing⟩
  have unfinished := step.unfinished
  cases step with
  | close exit now room => exact ⟨rfl, Or.inl ⟨exit, rfl⟩⟩
  | cancelCreated now => exact ⟨rfl, Or.inl ⟨.cancelled, rfl⟩⟩
  | cancelClosing exit now => exact ⟨rfl, Or.inl ⟨.cancelled, rfl⟩⟩
  | cancelRunning pc now =>
      exact ⟨rfl, (gone c.close .cancelled v.output).imp id Or.inr⟩
  | _ => simp_all

/-- A task after an abort: it has ended, or its cancellation is still to be delivered, or
it is sending the end mark. -/
inductive Stopping {Pc : Type} (task : Task Pc E) : Prop
  | ended (finished : task.Finished)
  | requested (pending : task.cancelRequested = true)
  | sending (exit : Exit E) (now : task.status = .closing exit)

/-- How many steps a stopping task can still take. -/
def Task.weight {Pc : Type} (task : Task Pc E) : Nat :=
  match task.status with
  | .finished _ => 0
  | .running _ => 2
  | _ => 1

theorem Stopping.step {c : Coroutine W E α β} {maxsize : Int} {v v' : View W E α β c.Pc}
    {label : Label E} (stopping : Stopping v.task) (step : TaskStep c maxsize v label v') :
    Stopping v'.task ∧ v'.task.weight < v.task.weight := by
  have unfinished := step.unfinished
  cases step with
  | close exit now room => exact ⟨.ended ⟨exit, rfl⟩, by simp [Task.weight, now]⟩
  | cancelCreated now => exact ⟨.ended ⟨.cancelled, rfl⟩, by simp [Task.weight, now]⟩
  | cancelClosing exit now => exact ⟨.ended ⟨.cancelled, rfl⟩, by simp [Task.weight, now]⟩
  | cancelRunning pc now =>
      rcases c.close.leave_cases (E := E) c.Pc .cancelled v.output with ended | ⟨_, closing⟩
      · exact ⟨.ended ⟨.cancelled, ended⟩, by simp [Task.weight, now, ended]⟩
      · exact ⟨.sending .cancelled closing, by simp [Task.weight, now, closing]⟩
  | _ =>
      cases stopping with
      | ended finished => exact absurd finished unfinished
      | requested pending => simp_all
      | sending exit now => simp_all

namespace Net

variable {N : Net W E}

/-- Every stage that will close its output when it is cancelled has room for the end
mark at the moment the group cancels it. -/
def AbortSafe (s : N.State) : Prop :=
  ∀ i < N.size, ∀ pc, (s.task i).status = .running pc → (N.code i).close = .always →
    ¬ (s.chan (i + 1)).Full N.maxsize

/-- Runs in which every abort is safe. -/
def SafeStep (s : N.State) (label : StepLabel E) : Prop := label = .abort → AbortSafe s

/-- After an abort every stage is on its way out. -/
def Unwinding (s : N.State) : Prop :=
  s.aborting = true → ∀ i < N.size, Leaving (N.code i) N.maxsize (s.task i) (s.chan (i + 1))

theorem Unwinding.step {s t : N.State} {label : StepLabel E} (unwinding : Unwinding s)
    (step : N.Step s label t) (safe : SafeStep s label) : Unwinding t := by
  cases step with
  | task i label v inside step =>
      intro aborting j below
      by_cases self : j = i
      · subst j
        rw [State.write_task_self, State.write_chan_output]
        exact (unwinding aborting i inside).step step
      · rw [State.write_task_of_ne s self]
        refine (unwinding aborting j below).mono ?_
        intro room
        by_cases consumer : j + 1 = i
        · subst i
          rw [State.write_chan_input]
          exact step.input_room room
        · have apart : j + 1 ≠ i + 1 := by omega
          rw [State.write_chan_of_ne s consumer apart]
          exact room
  | abort fresh failed =>
      intro _ i inside
      cases status : (s.task i).status with
      | finished exit => exact .ended ⟨exit, status⟩
      | created =>
          refine .requested (by simp [State.cancelAll, status]) ?_
          intro pc now
          simp [State.cancelAll, status] at now
      | running pc =>
          refine .requested (by simp [State.cancelAll, status]) ?_
          intro pc' now rule
          exact safe rfl i inside pc status rule
      | closing exit =>
          refine .requested (by simp [State.cancelAll, status]) ?_
          intro pc now
          simp [State.cancelAll, status] at now

theorem Unwinding.reaches {s t : N.State} (run : N.Reaches SafeStep s t)
    (unwinding : Unwinding s) : Unwinding t := by
  induction run with
  | refl => exact unwinding
  | tail _ last ih =>
      obtain ⟨label, safe, step⟩ := last
      exact ih.step step safe

/-- In a run whose aborts are all safe, whatever fails in it, the net moves as long as
some stage is unfinished. -/
theorem safe_progress (L : Lawful N) {world : W} {s : N.State}
    (run : N.Reaches SafeStep (N.init world) s) (unended : ¬ N.Ended s) : N.CanStep s := by
  have inv : Inv L s := Inv.reaches run (init_inv L world)
  cases phase : s.aborting with
  | false => exact inv.progress phase unended
  | true =>
      have unwinding : Unwinding s := Unwinding.reaches run (fun aborting => by cases aborting)
      obtain ⟨i, inside, unfinished⟩ : ∃ i, i < N.size ∧ ¬ (s.task i).Finished := by
        simpa [Ended] using unended
      obtain ⟨label, v, step⟩ := (unwinding phase i inside).can_step (v := s.view i) unfinished
      exact ⟨_, _, .task s i label v inside step⟩

/-- In such a run a stage that waits to close a full channel is not left behind: as
soon as its consumer has ended, the group is about to cancel it. -/
theorem safe_close (L : Lawful N) {world : W} {s : N.State}
    (run : N.Reaches SafeStep (N.init world) s) {i : Nat} (inside : i + 1 < N.size)
    {exit : Exit E} (waiting : s.task i = ⟨.closing exit, false⟩)
    (full : (s.chan (i + 1)).Full N.maxsize) (gone : (s.task (i + 1)).Finished) :
    ∃ t, N.Step s .abort t := by
  have inv : Inv L s := Inv.reaches run (init_inv L world)
  have unwinding : Unwinding s := Unwinding.reaches run (fun aborting => by cases aborting)
  have fresh : s.aborting = false := by
    cases phase : s.aborting with
    | false => rfl
    | true =>
        cases unwinding phase i (by omega) with
        | ended finished =>
            obtain ⟨exit', same⟩ := finished
            rw [waiting] at same
            cases same
        | requested pending room => simp [waiting] at pending
        | sending exit' quiet now room => exact absurd full room
  by_cases clean : s.errors = []
  · have returned := inv.returned fresh clean gone
    obtain ⟨exit', same⟩ := (inv.link i inside).seen (by rw [returned]; trivial)
    rw [waiting] at same
    cases same
  · exact ⟨_, .abort s fresh clean⟩

/-- A stage caught by an abort behind a full channel: it is about to send, or is
sending, an end mark that its consumer will not make room for. -/
structure Wedged (s : N.State) (i : Nat) : Prop where
  full : (s.chan (i + 1)).Full N.maxsize
  stage : (∃ pc, s.task i = ⟨.running pc, true⟩ ∧ (N.code i).close = .always ∧
      (s.chan (i + 1)).closed = false) ∨ ∃ exit, s.task i = ⟨.closing exit, false⟩
  consumer : (s.task (i + 1)).Finished ∨ (s.task (i + 1)).cancelRequested = true ∨
    ∃ exit, (s.task (i + 1)).status = .closing exit
  aborting : s.aborting = true

theorem Wedged.unfinished {s : N.State} {i : Nat} (wedged : Wedged s i) :
    ¬ (s.task i).Finished := by
  rintro ⟨exit, finished⟩
  rcases wedged.stage with ⟨pc, now, _⟩ | ⟨exit', now⟩ <;> rw [now] at finished <;> cases finished

theorem Wedged.step {s t : N.State} {label : StepLabel E} {i : Nat} (wedged : Wedged s i)
    (step : N.Step s label t) : Wedged t i := by
  cases step with
  | abort fresh failed => exact absurd fresh (by simp [wedged.aborting])
  | task j label v inside step =>
      by_cases self : j = i
      · subst j
        have other : i + 1 ≠ i := by omega
        rcases wedged.stage with ⟨pc, now, rule, open'⟩ | ⟨exit, now⟩
        · cases step with
          | cancelRunning pc' now' =>
              refine ⟨?_, Or.inr ⟨.cancelled, ?_⟩, ?_, wedged.aborting⟩
              · have full := wedged.full
                simpa [Channel.Full, State.view] using full
              · simp [CloseRule.leave, CloseRule.pending, rule, CloseRule.closes, State.view, open']
              · rw [State.write_task_of_ne s other]
                exact wedged.consumer
          | _ => simp_all [State.view]
        · cases step with
          | close exit' now' room => exact absurd wedged.full room
          | _ => simp_all [State.view]
      · by_cases consumer : j = i + 1
        · subst j
          have other : i ≠ i + 1 := by omega
          obtain ⟨same, leaving⟩ := step.consumer_gone (by simpa [State.view] using wedged.consumer)
          have same : v.input = s.chan (i + 1) := same
          refine ⟨?_, ?_, ?_, wedged.aborting⟩
          · rw [State.write_chan_input, same]
            exact wedged.full
          · rw [State.write_task_of_ne s other, State.write_chan_input, same]
            exact wedged.stage
          · rw [State.write_task_self]
            exact leaving
        · have input : i + 1 ≠ j := by omega
          have output : i + 1 ≠ j + 1 := by omega
          refine ⟨?_, ?_, ?_, wedged.aborting⟩
          · rw [State.write_chan_of_ne s input output]
            exact wedged.full
          · rw [State.write_task_of_ne s (by omega : i ≠ j),
              State.write_chan_of_ne s input output]
            exact wedged.stage
          · rw [State.write_task_of_ne s input]
            exact wedged.consumer

/-- An unsafe abort is never recovered from: the stage it catches behind a full
channel ends in no continuation of the run. -/
theorem unsafe_abort_never_ends (L : Lawful N) {world : W} {s t u : N.State}
    (run : N.Reaches (fun _ _ => True) (N.init world) s) (abort : N.Step s .abort t) {i : Nat}
    (inside : i + 1 < N.size) {pc : (N.code i).Pc} (now : (s.task i).status = .running pc)
    (rule : (N.code i).close = .always) (full : (s.chan (i + 1)).Full N.maxsize)
    (rest : N.Reaches (fun _ _ => True) t u) : ¬ (u.task i).Finished := by
  have inv : Inv L s := Inv.reaches run (init_inv L world)
  have wedged : Wedged t i := by
    cases abort with
    | abort fresh failed =>
        have link := inv.link i inside
        rw [now] at link
        refine ⟨full, Or.inl ⟨pc, by simp [State.cancelAll, now], rule, link.not_closed⟩, ?_, rfl⟩
        cases status : (s.task (i + 1)).status with
        | finished exit => exact Or.inl ⟨exit, status⟩
        | created => exact Or.inr (Or.inl (by simp [State.cancelAll, status]))
        | running pc' => exact Or.inr (Or.inl (by simp [State.cancelAll, status]))
        | closing exit => exact Or.inr (Or.inl (by simp [State.cancelAll, status]))
  have last : Wedged u i := by
    induction rest with
    | refl => exact wedged
    | tail _ last ih =>
        obtain ⟨label, _, step⟩ := last
        exact ih.step step
  exact last.unfinished

/-- What an abort leaves behind runs down: it reaches a state in which nothing moves. -/
theorem stopping_runs_down {s : N.State} (aborting : s.aborting = true)
    (stopping : ∀ i < N.size, Stopping (s.task i)) :
    ∃ u, N.Reaches (fun _ _ => True) s u ∧ ¬ N.CanStep u := by
  generalize same : ∑ i ∈ Finset.range N.size, (s.task i).weight = weight
  induction weight using Nat.strong_induction_on generalizing s with
  | _ weight ih =>
      by_cases moves : N.CanStep s
      · obtain ⟨label, t, step⟩ := moves
        cases step with
        | abort fresh failed => simp [fresh] at aborting
        | task i label v inside step =>
            obtain ⟨still, lighter⟩ := (stopping i inside).step step
            have others : ∀ j ∈ Finset.range N.size,
                ((s.write i v).task j).weight ≤ (s.task j).weight := by
              intro j _
              by_cases self : j = i
              · subst j
                rw [State.write_task_self]
                exact lighter.le
              · rw [State.write_task_of_ne s self]
            have less : ∑ j ∈ Finset.range N.size, ((s.write i v).task j).weight < weight := by
              rw [← same]
              refine Finset.sum_lt_sum others ⟨i, Finset.mem_range.mpr inside, ?_⟩
              rw [State.write_task_self]
              exact lighter
            have stopping' : ∀ j < N.size, Stopping ((s.write i v).task j) := by
              intro j below
              by_cases self : j = i
              · subst j
                rw [State.write_task_self]
                exact still
              · rw [State.write_task_of_ne s self]
                exact stopping j below
            obtain ⟨u, rest, stuck⟩ := ih _ less (s := s.write i v) aborting stopping' rfl
            exact ⟨u, rest.head ⟨_, trivial, .task s i label v inside step⟩, stuck⟩
      · exact ⟨s, .refl, moves⟩

/-- An unsafe abort ends in a deadlock. -/
theorem unsafe_abort_deadlocks (L : Lawful N) {world : W} {s t : N.State}
    (run : N.Reaches (fun _ _ => True) (N.init world) s) (abort : N.Step s .abort t)
    (unsafe' : ¬ AbortSafe s) :
    ∃ u, N.Reaches (fun _ _ => True) t u ∧ ¬ N.Ended u ∧ ¬ N.CanStep u := by
  have stopping : ∀ i < N.size, Stopping (t.task i) := by
    intro i _
    cases abort with
    | abort fresh failed =>
        cases status : (s.task i).status with
        | finished exit => exact .ended ⟨exit, status⟩
        | _ => exact .requested (by simp [State.cancelAll, status])
  have aborting : t.aborting = true := by
    cases abort with
    | abort fresh failed => rfl
  obtain ⟨u, rest, stuck⟩ := stopping_runs_down aborting stopping
  refine ⟨u, rest, ?_, stuck⟩
  unfold AbortSafe at unsafe'
  push Not at unsafe'
  obtain ⟨i, below, pc, now, rule, full⟩ := unsafe'
  have inside : i + 1 < N.size := by
    by_contra last
    have sink := L.sink i (by omega)
    rw [rule] at sink
    cases sink
  intro ended
  exact unsafe_abort_never_ends L run abort inside now rule full rest (ended i below)

end Net

end TaskNet
