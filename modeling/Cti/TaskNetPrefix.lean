import Cti.TaskNetDelivery

set_option autoImplicit false

/- What a run has logged when something fails in it: never more than the line of coroutines
makes of everything sourced, and in that order. -/
namespace TaskNet

variable {W E α β : Type}

/-- Statuses of a task that puts nothing more. -/
def Status.Stopped {Pc : Type} : Status Pc E → Prop
  | .closing _ => True
  | .finished _ => True
  | _ => False

theorem CloseRule.stopped_leave {Pc : Type} (rule : CloseRule) (exit : Exit E) (q : Channel α) :
    (rule.leave exit q : Status Pc E).Stopped := by
  unfold CloseRule.leave
  split <;> trivial

theorem Status.Stopped.rest {Pc : Type} {status : Status Pc E} (stopped : status.Stopped)
    (start : Pc) (f : Pc → List α → List β) (input : List α) : status.rest start f input = [] := by
  cases status with
  | created => exact stopped.elim
  | running pc => exact stopped.elim
  | closing exit => rfl
  | finished exit => rfl

theorem Status.Stopped.held {Pc : Type} {status : Status Pc E} (stopped : status.Stopped)
    (held : Pc → List α) : status.held held = [] := by
  cases status with
  | running pc => exact stopped.elim
  | _ => rfl

/-- A step keeps its task healthy, or stops it between two items. -/
theorem TaskStep.healthy_or_stops {c : Coroutine W E α β} {maxsize : Int} {v v' : View W E α β c.Pc}
    {label : Label E} (step : TaskStep c maxsize v label v') :
    v'.task.status.Healthy ∨
      v'.task.status.Stopped ∧ v'.output.data = v.output.data ∧ v.taken v' = [] := by
  cases step with
  | raise pc returns raises error world now act result =>
      exact Or.inr ⟨CloseRule.stopped_leave _ _ _, by simp, by simp [View.taken]⟩
  | ret pc now act =>
      refine Or.inl ?_
      dsimp only
      unfold CloseRule.leave
      split <;> rfl
  | close exit now room => exact Or.inr ⟨trivial, by simp, by simp [View.taken]⟩
  | cancelCreated now => exact Or.inr ⟨trivial, rfl, by simp [View.taken]⟩
  | cancelRunning pc now =>
      exact Or.inr ⟨CloseRule.stopped_leave _ _ _, by simp, by simp [View.taken]⟩
  | cancelClosing exit now => exact Or.inr ⟨trivial, rfl, by simp [View.taken]⟩
  | _ => exact Or.inl trivial

theorem Status.rest_mono {Pc : Type} {start : Pc} {f : Pc → List α → List β}
    (mono : ∀ pc {l l'}, l <+: l' → f pc l <+: f pc l') (status : Status Pc E) {l l' : List α}
    (less : l <+: l') : status.rest start f l <+: status.rest start f l' := by
  cases status with
  | created => exact mono start less
  | running pc => exact mono pc less
  | closing exit => exact List.prefix_rfl
  | finished exit => exact List.prefix_rfl

namespace Net

variable {N : Net W E} {Λ : Type}

/-- A meaning whose stages take nothing back when they get more, and whose calls leave the
source and the log alone when they raise. -/
structure Meaning.Monotone (D : Meaning N Λ) : Prop where
  rest : ∀ {i}, 0 < i → i < N.size → ∀ pc {l l'}, l <+: l' → D.rest i pc l <+: D.rest i pc l'
  emit : ∀ pc {l l'}, l <+: l' → D.emit pc l <+: D.emit pc l'
  raise : ∀ {i pc returns raises world error world'}, i < N.size →
    (N.code i).act pc = .call returns raises → raises world error world' →
    D.sourced world' = D.sourced world ∧ D.log world' = D.log world

/-- A task that stops has sourced and logged nothing. -/
theorem Meaning.Monotone.stopped {D : Meaning N Λ} (mono : D.Monotone) {i : Nat}
    (inside : i < N.size) {v v' : View W E (N.Item i) (N.Item (i + 1)) (N.code i).Pc}
    {label : Label E} (step : TaskStep (N.code i) N.maxsize v label v')
    (stopped : v'.task.status.Stopped) :
    D.sourced v'.world = D.sourced v.world ∧ D.log v'.world = D.log v.world := by
  cases step with
  | call pc next returns raises world now act result => exact stopped.elim
  | raise pc returns raises error world now act result => exact mono.raise inside act result
  | _ => exact ⟨rfl, rfl⟩

/-- Downstream of a step, less flow stays less. -/
theorem Meaning.Monotone.flow {D : Meaning N Λ} (mono : D.Monotone) {s t : N.State}
    {before after : List (N.Item 1)} {i : Nat} (less : D.flow t after i <+: D.flow s before i)
    (chan : ∀ j, i + 1 < j → t.chan j = s.chan j) (task : ∀ j, i < j → t.task j = s.task j)
    (k : Nat) (below : i ≤ k) (inside : k < N.size) : D.flow t after k <+: D.flow s before k := by
  induction k, below using Nat.le_induction with
  | base => exact less
  | succ k below ih =>
      simp only [Meaning.flow, chan (k + 2) (by omega), task (k + 1) (by omega)]
      apply (List.prefix_append_right_inj _).mpr
      exact Status.rest_mono (mono.rest (by omega) inside) _ (ih (by omega))

/-- The flow depends only on the values on their way, not on the end marks among them. -/
theorem Meaning.flow_congr_data (D : Meaning N Λ) {s t : N.State} (more : List (N.Item 1)) (i : Nat)
    (chan : ∀ j, 0 < j → j ≤ i + 1 → (t.chan j).data = (s.chan j).data)
    (task : ∀ j ≤ i, t.task j = s.task j) : D.flow t more i = D.flow s more i := by
  induction i with
  | zero => simp only [Meaning.flow, chan 1 (by omega) (by omega), task 0 (by omega)]
  | succ i ih =>
      simp only [Meaning.flow, chan (i + 2) (by omega) (by omega), task (i + 1) (by omega)]
      rw [ih (fun j positive below => chan j positive (by omega)) (fun j below => task j (by omega))]

/-- The request to stop alone changes no flow. -/
theorem Meaning.flow_cancelAll (D : Meaning N Λ) (s : N.State) (more : List (N.Item 1)) (k : Nat) :
    D.flow s.cancelAll more k = D.flow s more k := by
  induction k with
  | zero => rfl
  | succ k ih =>
      simp only [Meaning.flow, ih]
      rfl

/-- What the log holds and what is still on its way to it is the beginning of the image of
everything sourced so far, whatever the source still yields. -/
def Begun (D : Meaning N Λ) (s : N.State) : Prop :=
  ∀ more, (more = [] ∨ Open s) →
    D.due s more <+:
      D.emit (N.code (D.stage + 1)).start (D.through D.stage (D.sourced s.world ++ more))

theorem Delivered.begun {D : Meaning N Λ} {s : N.State} (delivered : Delivered D s) : Begun D s := by
  intro more bound
  have due : D.due s more = D.emit (N.code (D.stage + 1)).start
      (D.through D.stage (D.sourced s.world ++ more)) := delivered more bound
  exact due ▸ List.prefix_rfl

/-- A step of the source that stops it: what it held is lost, and nothing more will come. -/
theorem Begun.stop_source {D : Meaning N Λ} (mono : D.Monotone) {s : N.State} (begun : Begun D s)
    {label : Label E} {v : View W E (N.Item 0) (N.Item 1) (N.code 0).Pc}
    (step : TaskStep (N.code 0) N.maxsize (s.view 0) label v) (inside : 0 < N.size)
    (stopped : v.task.status.Stopped) (output : v.output.data = (s.chan 1).data) :
    Begun D (s.write 0 v) := by
  obtain ⟨sourced, log⟩ := mono.stopped inside step stopped
  intro more bound
  have none : more = [] := by
    refine bound.resolve_right ?_
    rintro (created | ⟨pc, running⟩)
    · rw [State.write_task_self] at created
      rw [created] at stopped
      exact stopped
    · rw [State.write_task_self] at running
      rw [running] at stopped
      exact stopped
  subst none
  have less : D.flow (s.write 0 v) [] 0 <+: D.flow s [] 0 := by
    have chan : (s.write 0 v).chan 1 = v.output := State.write_chan_output s 0 v
    simp only [Meaning.flow, chan, State.write_task_self, output, stopped.held, List.append_nil]
    exact List.prefix_append _ _
  have flow : D.flow (s.write 0 v) [] D.stage <+: D.flow s [] D.stage := by
    refine mono.flow less ?_ ?_ D.stage (Nat.zero_le _) (Nat.lt_of_succ_lt D.stage_inside)
    · intro j beyond
      exact State.write_chan_of_ne s (by omega) (by omega) v
    · intro j beyond
      exact State.write_task_of_ne s (by omega) v
  have before := begun [] (Or.inl rfl)
  unfold Meaning.due at before ⊢
  rw [State.write_task_of_ne s (by omega : D.stage + 1 ≠ 0)]
  change D.log v.world ++ _ <+: D.emit _ (D.through _ (D.sourced v.world ++ []))
  rw [log, sourced]
  exact ((List.prefix_append_right_inj _).mpr (Status.rest_mono mono.emit _ flow)).trans before

/-- A step that stops any other stage: what it held is lost to the stages behind it. -/
theorem Begun.stop_stage {D : Meaning N Λ} (mono : D.Monotone) {s : N.State} (begun : Begun D s)
    {i : Nat} {label : Label E}
    {v : View W E (N.Item (i + 1)) (N.Item (i + 2)) (N.code (i + 1)).Pc}
    (step : TaskStep (N.code (i + 1)) N.maxsize (s.view (i + 1)) label v)
    (inside : i + 1 < N.size) (stopped : v.task.status.Stopped)
    (output : v.output.data = (s.chan (i + 2)).data) (taken : (s.view (i + 1)).taken v = []) :
    Begun D (s.write (i + 1) v) := by
  obtain ⟨sourced, log⟩ := mono.stopped inside step stopped
  intro more bound
  have before := begun more (bound.imp id (fun still => still.before step))
  have input : v.input.data = (s.chan (i + 1)).data := by
    have kept := step.taken_append
    rw [taken, List.nil_append] at kept
    exact kept.symm
  unfold Meaning.due at before ⊢
  change D.log v.world ++ _ <+: D.emit _ (D.through _ (D.sourced v.world ++ more))
  rw [log, sourced]
  refine List.IsPrefix.trans ?_ before
  have upstream : ∀ k ≤ i, D.flow (s.write (i + 1) v) more k = D.flow s more k := by
    intro k below
    apply D.flow_congr_data
    · intro j _ least
      by_cases own : j = i + 1
      · subst own
        rw [State.write_chan_input, input]
      · rw [State.write_chan_of_ne s own (by omega)]
    · intro j least
      exact State.write_task_of_ne s (by omega) v
  by_cases self : i = D.stage
  · subst i
    rw [State.write_task_self, stopped.rest, List.append_nil]
    exact List.prefix_append _ _
  · rw [State.write_task_of_ne s (by omega : D.stage + 1 ≠ i + 1)]
    apply (List.prefix_append_right_inj _).mpr
    apply Status.rest_mono mono.emit
    rcases Nat.lt_or_gt_of_ne (Ne.symm self) with below | above
    · exact (upstream D.stage (by omega)).symm ▸ List.prefix_rfl
    · have less : D.flow (s.write (i + 1) v) more (i + 1) <+: D.flow s more (i + 1) := by
        simp only [Meaning.flow, State.write_chan_output, State.write_task_self, output,
          stopped.rest, List.append_nil]
        exact List.prefix_append _ _
      refine mono.flow less ?_ ?_ D.stage (by omega) (Nat.lt_of_succ_lt D.stage_inside)
      · intro j beyond
        exact State.write_chan_of_ne s (by omega) (by omega) v
      · intro j beyond
        exact State.write_task_of_ne s (by omega) v

theorem Begun.go_source {D : Meaning N Λ} (L : Lawful N) {s : N.State} (begun : Begun D s)
    {label : Label E} {v : View W E (N.Item 0) (N.Item 1) (N.code 0).Pc}
    (step : TaskStep (N.code 0) N.maxsize (s.view 0) label v) (inside : 0 < N.size)
    (healthy : v.task.status.Healthy) : Begun D (s.write 0 v) := by
  obtain ⟨fresh, sourced, opened, due⟩ := D.due_source L step inside healthy
  intro more bound
  have less := begun (fresh ++ more) (open_before step opened bound)
  rw [← due more, ← List.append_assoc, ← sourced] at less
  exact less

theorem Begun.go_stage {D : Meaning N Λ} {L : Lawful N} {s : N.State} (inv : Inv L s)
    (begun : Begun D s) {i : Nat} {label : Label E}
    {v : View W E (N.Item (i + 1)) (N.Item (i + 2)) (N.code (i + 1)).Pc}
    (step : TaskStep (N.code (i + 1)) N.maxsize (s.view (i + 1)) label v)
    (inside : i + 1 < N.size) (healthy : v.task.status.Healthy) :
    Begun D (s.write (i + 1) v) := by
  obtain ⟨sourced, due⟩ := D.due_stage inv step inside healthy
  intro more bound
  have before : more = [] ∨ Open s := bound.imp id (fun still => still.before step)
  have less := begun more before
  rw [← due more before, ← sourced] at less
  exact less

/-- Every step, whether it goes on, fails or is cancelled. -/
theorem Begun.step {D : Meaning N Λ} (mono : D.Monotone) {L : Lawful N} {s t : N.State}
    {label : StepLabel E} (inv : Inv L s) (begun : Begun D s) (step : N.Step s label t) :
    Begun D t := by
  cases step with
  | abort fresh failed =>
      intro more bound
      have same : D.due s.cancelAll more = D.due s more := by
        unfold Meaning.due
        rw [D.flow_cancelAll]
        rfl
      rw [same]
      exact begun more bound
  | task i label v inside step =>
      rcases step.healthy_or_stops with healthy | ⟨stopped, output, taken⟩
      · cases i with
        | zero => exact begun.go_source L step inside healthy
        | succ i => exact begun.go_stage inv step inside healthy
      · cases i with
        | zero => exact begun.stop_source mono step inside stopped output
        | succ i => exact begun.stop_stage mono step inside stopped output taken

theorem Begun.reaches {D : Meaning N Λ} (mono : D.Monotone) (L : Lawful N)
    {allowed : N.State → StepLabel E → Prop} {world : W} (log : D.log world = [])
    (sourced : D.sourced world = []) {s : N.State}
    (run : N.Reaches allowed (N.init world) s) : Begun D s := by
  induction run with
  | refl => exact (init_delivered D log sourced).begun
  | tail run last ih =>
      obtain ⟨label, _, step⟩ := last
      exact ih.step mono (Inv.reaches run (init_inv L world)) step

/-- Whatever fails in a run, and whenever, its log is the beginning of the image of everything
sourced. -/
theorem log_prefix {D : Meaning N Λ} (mono : D.Monotone) (L : Lawful N)
    {allowed : N.State → StepLabel E → Prop} {world : W} (log : D.log world = [])
    (sourced : D.sourced world = []) {s : N.State}
    (run : N.Reaches allowed (N.init world) s) :
    D.log s.world <+:
      D.emit (N.code (D.stage + 1)).start (D.through D.stage (D.sourced s.world)) := by
  have begun := Begun.reaches mono L log sourced run [] (Or.inl rfl)
  rw [List.append_nil] at begun
  exact (List.prefix_append _ _).trans begun

end Net

end TaskNet
