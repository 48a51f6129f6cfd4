import Cti.TaskNetProgress

set_option autoImplicit false

namespace TaskNet

variable {W E α β : Type}

/-- Statuses of a run in which nothing has failed. -/
def Status.Healthy {Pc : Type} : Status Pc E → Prop
  | .created => True
  | .running _ => True
  | .closing exit => exit = .returned
  | .finished exit => exit = .returned

theorem CloseRule.healthy_leave {Pc : Type} {rule : CloseRule} {exit : Exit E} {q : Channel α}
    (healthy : (rule.leave exit q : Status Pc E).Healthy) : exit = .returned := by
  unfold CloseRule.leave at healthy
  split at healthy <;> exact healthy

/-- A step into a healthy status starts from one. -/
theorem TaskStep.healthy_before {c : Coroutine W E α β} {maxsize : Int} {v v' : View W E α β c.Pc}
    {label : Label E} (step : TaskStep c maxsize v label v') (healthy : v'.task.status.Healthy) :
    v.task.status.Healthy := by
  cases step with
  | raise pc returns raises error world now act result => cases CloseRule.healthy_leave healthy
  | close exit now room => rw [now]; exact healthy
  | cancelCreated now => cases healthy
  | cancelRunning pc now => cases CloseRule.healthy_leave healthy
  | cancelClosing exit now => cases healthy
  | _ => simp_all [Status.Healthy]

/-- What a task in a given status still turns the rest of its input into. -/
def Status.rest {Pc : Type} (start : Pc) (f : Pc → List α → List β) :
    Status Pc E → List α → List β
  | .created, input => f start input
  | .running pc, input => f pc input
  | _, _ => []

@[simp] theorem Status.rest_created {Pc : Type} (start : Pc) (f : Pc → List α → List β) :
    (Status.created : Status Pc E).rest start f = f start := rfl

@[simp] theorem Status.rest_running {Pc : Type} (start pc : Pc) (f : Pc → List α → List β) :
    (Status.running pc : Status Pc E).rest start f = f pc := rfl

@[simp] theorem Status.rest_closing {Pc : Type} (start : Pc) (f : Pc → List α → List β)
    (exit : Exit E) (input : List α) : (Status.closing exit).rest start f input = [] := rfl

@[simp] theorem Status.rest_finished {Pc : Type} (start : Pc) (f : Pc → List α → List β)
    (exit : Exit E) (input : List α) : (Status.finished exit).rest start f input = [] := rfl

@[simp] theorem Status.rest_leave {γ Pc : Type} (start : Pc) (f : Pc → List α → List β)
    (rule : CloseRule) (exit : Exit E) (q : Channel γ) (input : List α) :
    (rule.leave exit q : Status Pc E).rest start f input = [] := by
  unfold CloseRule.leave
  split <;> rfl

/-- `f pc input` is what the coroutine still writes from `pc` when `input` is all that
it will still read. -/
structure Denotes (c : Coroutine W E α β) (f : c.Pc → List α → List β) : Prop where
  get_some : ∀ {pc next} a input, c.act pc = .get next → f pc (a :: input) = f (next (some a)) input
  get_none : ∀ {pc next}, c.act pc = .get next → f pc [] = f (next none) []
  put : ∀ {pc item next} input, c.act pc = .put item next → f pc input = item :: f next input
  call : ∀ {pc returns raises world world' next} input, c.act pc = .call returns raises →
    returns world world' next → f pc input = f next input
  ret : ∀ {pc} input, c.act pc = .ret → f pc input = []

/-- `f pc input` is what the coroutine still appends to a log in the world from `pc`
when `input` is all that it will still read. -/
structure Emits {Λ : Type} (c : Coroutine W E α β) (log : W → List Λ)
    (f : c.Pc → List α → List Λ) : Prop where
  get_some : ∀ {pc next} a input, c.act pc = .get next → f pc (a :: input) = f (next (some a)) input
  get_none : ∀ {pc next}, c.act pc = .get next → f pc [] = f (next none) []
  put : ∀ {pc item next} input, c.act pc = .put item next → f pc input = f next input
  call : ∀ {pc returns raises world world' next} input, c.act pc = .call returns raises →
    returns world world' next → log world ++ f pc input = log world' ++ f next input
  ret : ∀ {pc} input, c.act pc = .ret → f pc input = []

/-- The values a step takes from its input. -/
def View.taken {Pc : Type} (v v' : View W E α β Pc) : List α :=
  v.input.data.take (v.input.data.length - v'.input.data.length)

@[simp] theorem Channel.data_push_some (q : Channel α) (a : α) :
    (q.push (some a)).data = q.data ++ [a] := by
  simp [Channel.data, Channel.push]

@[simp] theorem Channel.data_push_none (q : Channel α) : (q.push none).data = q.data := by
  simp [Channel.data, Channel.push]

@[simp] theorem Channel.data_markClosed (q : Channel α) (rule : CloseRule) (exit : Exit E) :
    (rule.markClosed exit q).data = q.data := by
  simp [Channel.data]

/-- The values a step takes are exactly what its input loses at the front. -/
theorem TaskStep.taken_append {c : Coroutine W E α β} {maxsize : Int} {v v' : View W E α β c.Pc}
    {label : Label E} (step : TaskStep c maxsize v label v') :
    v.input.data = v.taken v' ++ v'.input.data := by
  cases step with
  | get pc next item rest now act head =>
      cases item with
      | none => simp [View.taken, Channel.data, head]
      | some a => simp [View.taken, Channel.data, head]
  | _ => simp [View.taken]

/-- A healthy step of a coroutine moves values from its input to its output and loses
none, as long as nothing is left to read when it reads the end mark. -/
theorem TaskStep.denotes {c : Coroutine W E α β} {maxsize : Int} {v v' : View W E α β c.Pc}
    {label : Label E} (step : TaskStep c maxsize v label v') {f : c.Pc → List α → List β}
    (denotes : Denotes c f) (healthy : v'.task.status.Healthy) (input : List α)
    (ending : v.input.items.head? = some none → input = []) :
    v.output.data ++ v.task.status.rest c.start f (v.taken v' ++ input) =
      v'.output.data ++ v'.task.status.rest c.start f input := by
  cases step with
  | start now => simp [now, View.taken]
  | get pc next item rest now act head =>
      cases item with
      | none =>
          have empty := ending (by simp [head])
          subst empty
          simp [now, View.taken, Channel.data, head, denotes.get_none act]
      | some a => simp [now, View.taken, Channel.data, head, denotes.get_some a input act]
  | put pc next item now act room =>
      simp [now, View.taken, denotes.put input act]
  | call pc next returns raises world now act result =>
      simp [now, View.taken, denotes.call input act result]
  | ret pc now act =>
      simp [now, View.taken, denotes.ret input act]
  | close exit now room => simp [now]
  | raise pc returns raises error world now act result => cases CloseRule.healthy_leave healthy
  | cancelRunning pc now => cases CloseRule.healthy_leave healthy
  | cancelCreated now => cases healthy
  | cancelClosing exit now => cases healthy

/-- The same for the log that a coroutine keeps in the world. -/
theorem TaskStep.emits {Λ : Type} {c : Coroutine W E α β} {maxsize : Int}
    {v v' : View W E α β c.Pc} {label : Label E} (step : TaskStep c maxsize v label v')
    {log : W → List Λ} {f : c.Pc → List α → List Λ} (emits : Emits c log f)
    (healthy : v'.task.status.Healthy) (input : List α)
    (ending : v.input.items.head? = some none → input = []) :
    log v.world ++ v.task.status.rest c.start f (v.taken v' ++ input) =
      log v'.world ++ v'.task.status.rest c.start f input := by
  cases step with
  | start now => simp [now, View.taken]
  | get pc next item rest now act head =>
      cases item with
      | none =>
          have empty := ending (by simp [head])
          subst empty
          simp [now, View.taken, Channel.data, head, emits.get_none act]
      | some a => simp [now, View.taken, Channel.data, head, emits.get_some a input act]
  | put pc next item now act room =>
      simp [now, View.taken, emits.put input act]
  | call pc next returns raises world now act result =>
      simpa [now, View.taken] using emits.call input act result
  | ret pc now act =>
      simp [now, View.taken, emits.ret input act]
  | close exit now room => simp [now]
  | raise pc returns raises error world now act result => cases CloseRule.healthy_leave healthy
  | cancelRunning pc now => cases CloseRule.healthy_leave healthy
  | cancelCreated now => cases healthy
  | cancelClosing exit now => cases healthy

/-- In a healthy run only a call that returns changes the world. -/
theorem TaskStep.world_cases {c : Coroutine W E α β} {maxsize : Int} {v v' : View W E α β c.Pc}
    {label : Label E} (step : TaskStep c maxsize v label v') (healthy : v'.task.status.Healthy) :
    v'.world = v.world ∨ ∃ pc returns raises next, c.act pc = .call returns raises ∧
      returns v.world v'.world next := by
  cases step with
  | call pc next returns raises world now act result =>
      exact Or.inr ⟨pc, returns, raises, next, act, result⟩
  | raise pc returns raises error world now act result => cases CloseRule.healthy_leave healthy
  | _ => exact Or.inl rfl

/-- What a source in a given status has taken from the world and not put yet. -/
def Status.held {Pc : Type} (held : Pc → List α) : Status Pc E → List α
  | .running pc => held pc
  | _ => []

@[simp] theorem Status.held_leave {γ Pc : Type} (held : Pc → List α) (rule : CloseRule)
    (exit : Exit E) (q : Channel γ) : (rule.leave exit q : Status Pc E).held held = [] := by
  unfold CloseRule.leave
  split <;> rfl

namespace Net

variable {N : Net W E}

/-- How a line of coroutines is read as list functions. Stage 0 is the source: what it
has taken from the world so far is `sourced`, and `held` of it has not been put yet.
Stage `stage + 1` keeps the log. -/
structure Meaning (N : Net W E) (Λ : Type) where
  rest : (i : Nat) → (N.code i).Pc → List (N.Item i) → List (N.Item (i + 1))
  denotes : ∀ i, 0 < i → i < N.size → Denotes (N.code i) (rest i)
  sourced : W → List (N.Item 1)
  held : (N.code 0).Pc → List (N.Item 1)
  held_start : held (N.code 0).start = []
  held_put : ∀ {pc item next}, (N.code 0).act pc = .put item next → held pc = item :: held next
  held_call : ∀ {pc returns raises world world' next}, (N.code 0).act pc = .call returns raises →
    returns world world' next →
    ∃ fresh, sourced world' = sourced world ++ fresh ∧ held next = held pc ++ fresh
  held_ret : ∀ {pc}, (N.code 0).act pc = .ret → held pc = []
  sourced_call : ∀ {i pc returns raises world world' next}, 0 < i → i < N.size →
    (N.code i).act pc = .call returns raises → returns world world' next →
    sourced world' = sourced world
  stage : Nat
  stage_inside : stage + 1 < N.size
  log : W → List Λ
  emit : (N.code (stage + 1)).Pc → List (N.Item (stage + 1)) → List Λ
  emits : Emits (N.code (stage + 1)) log emit
  log_call : ∀ {i pc returns raises world world' next}, i ≠ stage + 1 → i < N.size →
    (N.code i).act pc = .call returns raises → returns world world' next → log world' = log world

variable {Λ : Type}

/-- The whole line up to stage `i` as one list function. -/
def Meaning.through (D : Meaning N Λ) : (i : Nat) → List (N.Item 1) → List (N.Item (i + 1))
  | 0, input => input
  | i + 1, input => D.rest (i + 1) (N.code (i + 1)).start (D.through i input)

/-- Everything stage `i + 1` will still read if the source yields `more` from now on. -/
def Meaning.flow (D : Meaning N Λ) (s : N.State) (more : List (N.Item 1)) :
    (i : Nat) → List (N.Item (i + 1))
  | 0 => (s.chan 1).data ++ (s.task 0).status.held D.held ++ more
  | i + 1 => (s.chan (i + 2)).data ++
      (s.task (i + 1)).status.rest (N.code (i + 1)).start (D.rest (i + 1)) (D.flow s more i)

/-- The flow into a stage depends only on what is upstream of it. -/
theorem Meaning.flow_congr (D : Meaning N Λ) {s t : N.State} (more : List (N.Item 1))
    (i : Nat) (chan : ∀ j, 0 < j → j ≤ i + 1 → t.chan j = s.chan j)
    (task : ∀ j ≤ i, t.task j = s.task j) : D.flow t more i = D.flow s more i := by
  induction i with
  | zero =>
      simp only [flow, chan 1 (by omega) (by omega), task 0 (by omega)]
  | succ i ih =>
      simp only [flow, chan (i + 2) (by omega) (by omega), task (i + 1) (by omega)]
      rw [ih (fun j positive below => chan j positive (by omega)) (fun j below => task j (by omega))]

/-- Downstream of a step, equal flows stay equal. -/
theorem Meaning.flow_downstream (D : Meaning N Λ) {s t : N.State}
    {before after : List (N.Item 1)} {i : Nat} (same : D.flow t after i = D.flow s before i)
    (chan : ∀ j, i + 1 < j → t.chan j = s.chan j) (task : ∀ j, i < j → t.task j = s.task j)
    (k : Nat) (below : i ≤ k) : D.flow t after k = D.flow s before k := by
  induction k, below using Nat.le_induction with
  | base => exact same
  | succ k below ih =>
      simp only [flow, chan (k + 2) (by omega), task (k + 1) (by omega), ih]

/-- The source may still yield something. -/
def Open (s : N.State) : Prop :=
  (s.task 0).status = .created ∨ ∃ pc, (s.task 0).status = .running pc

/-- Nothing is left to read for a stage whose next item is the end mark. -/
theorem Meaning.flow_ending (D : Meaning N Λ) {L : Lawful N} {s : N.State} (inv : Inv L s)
    (more : List (N.Item 1)) (bound : more = [] ∨ Open s) {i : Nat} (inside : i + 1 < N.size)
    (head : (s.chan (i + 1)).items.head? = some none) : D.flow s more i = [] := by
  have link := inv.link i inside
  obtain ⟨rest, items⟩ : ∃ rest, (s.chan (i + 1)).items = none :: rest := by
    cases items : (s.chan (i + 1)).items with
    | nil => simp [items] at head
    | cons item rest => simp [items] at head; exact ⟨rest, by rw [head]⟩
  have empty := link.rest_of_mark items
  have data : (s.chan (i + 1)).data = [] := by simp [Channel.data, items, empty]
  obtain ⟨exit, finished⟩ := link.mark (by simp [items])
  cases i with
  | zero =>
      have none : more = [] := by
        rcases bound with nil | created | ⟨pc, running⟩
        · exact nil
        · simp [finished] at created
        · simp [finished] at running
      simp [flow, data, finished, none, Status.held]
  | succ i => simp [flow, data, finished]

/-- A healthy step of a stage other than the source changes the flow only where it
reads: into that stage, by what it takes. -/
theorem Meaning.flow_step (D : Meaning N Λ) {L : Lawful N} {s : N.State} (inv : Inv L s)
    {i : Nat} {label : Label E}
    {v : View W E (N.Item (i + 1)) (N.Item (i + 2)) (N.code (i + 1)).Pc}
    (step : TaskStep (N.code (i + 1)) N.maxsize (s.view (i + 1)) label v)
    (inside : i + 1 < N.size) (healthy : v.task.status.Healthy) (more : List (N.Item 1))
    (bound : more = [] ∨ Open s) :
    (∀ k < i, D.flow (s.write (i + 1) v) more k = D.flow s more k) ∧
      D.flow s more i = (s.view (i + 1)).taken v ++ D.flow (s.write (i + 1) v) more i ∧
      ∀ k > i, D.flow (s.write (i + 1) v) more k = D.flow s more k := by
  have taken := step.taken_append
  have input : D.flow s more i =
      (s.view (i + 1)).taken v ++ D.flow (s.write (i + 1) v) more i := by
    cases i with
    | zero =>
        simp only [flow, State.write_chan_input, State.write_task_of_ne s (by omega : 0 ≠ 0 + 1)]
        rw [← List.append_assoc, ← List.append_assoc, ← taken]
        rfl
    | succ i =>
        have upstream : D.flow (s.write (i + 1 + 1) v) more i = D.flow s more i := by
          apply D.flow_congr
          · intro j _ below
            exact State.write_chan_of_ne s (by omega) (by omega) v
          · intro j below
            exact State.write_task_of_ne s (by omega) v
        simp only [flow, State.write_chan_input,
          State.write_task_of_ne s (by omega : i + 1 ≠ i + 1 + 1), upstream]
        rw [← List.append_assoc, ← taken]
        rfl
  refine ⟨?_, input, ?_⟩
  · intro k below
    apply D.flow_congr
    · intro j _ least
      exact State.write_chan_of_ne s (by omega) (by omega) v
    · intro j least
      exact State.write_task_of_ne s (by omega) v
  · have output : D.flow (s.write (i + 1) v) more (i + 1) = D.flow s more (i + 1) := by
      simp only [flow, State.write_chan_output, State.write_task_self]
      rw [input]
      refine (step.denotes (D.denotes (i + 1) (by omega) inside) healthy _ ?_).symm
      intro ending
      have nothing := D.flow_ending inv more bound inside ending
      rw [input] at nothing
      exact (List.append_eq_nil_iff.mp nothing).2
    intro k above
    refine D.flow_downstream output ?_ ?_ k (by omega)
    · intro j beyond
      exact State.write_chan_of_ne s (by omega) (by omega) v
    · intro j beyond
      exact State.write_task_of_ne s (by omega) v

/-- A healthy step of the source takes `fresh` from the world and sends it down the line. -/
theorem Meaning.flow_source (D : Meaning N Λ) {s : N.State} (L : Lawful N)
    {label : Label E} {v : View W E (N.Item 0) (N.Item 1) (N.code 0).Pc}
    (step : TaskStep (N.code 0) N.maxsize (s.view 0) label v) (healthy : v.task.status.Healthy) :
    ∃ fresh, D.sourced v.world = D.sourced s.world ++ fresh ∧
      (fresh ≠ [] → Open s) ∧
      ∀ more k, D.flow (s.write 0 v) more k = D.flow s (fresh ++ more) k := by
  have downstream : ∀ fresh, v.output.data ++ v.task.status.held D.held =
      (s.chan 1).data ++ (s.task 0).status.held D.held ++ fresh →
      ∀ more k, D.flow (s.write 0 v) more k = D.flow s (fresh ++ more) k := by
    intro fresh same more k
    refine D.flow_downstream (i := 0) ?_ ?_ ?_ k (Nat.zero_le k)
    · have output : (s.write 0 v).chan 1 = v.output := State.write_chan_output s 0 v
      simp only [flow, output, State.write_task_self]
      rw [same]
      simp only [List.append_assoc]
    · intro j beyond
      exact State.write_chan_of_ne s (by omega) (by omega) v
    · intro j beyond
      exact State.write_task_of_ne s (by omega) v
  cases step with
  | start now =>
      have now : s.task 0 = ⟨.created, false⟩ := now
      refine ⟨[], by simp [State.view], by simp, downstream [] ?_⟩
      simp [now, State.view, Status.held, D.held_start]
  | get pc next item rest now act head => exact absurd act (L.source pc next)
  | put pc next item now act room =>
      have now : s.task 0 = ⟨.running pc, false⟩ := now
      refine ⟨[], by simp [State.view], by simp, downstream [] ?_⟩
      simp [now, State.view, Status.held, D.held_put act]
  | call pc next returns raises world now act result =>
      have now : s.task 0 = ⟨.running pc, false⟩ := now
      obtain ⟨fresh, grown, held⟩ := D.held_call act result
      refine ⟨fresh, grown, fun _ => Or.inr ⟨pc, by rw [now]⟩, downstream fresh ?_⟩
      simp [now, State.view, Status.held, held]
  | ret pc now act =>
      have now : s.task 0 = ⟨.running pc, false⟩ := now
      refine ⟨[], by simp [State.view], by simp, downstream [] ?_⟩
      simp only [now, State.view, Channel.data_markClosed, Status.held_leave, List.append_nil]
      simp [Status.held, D.held_ret act]
  | close exit now room =>
      have now : s.task 0 = ⟨.closing exit, false⟩ := now
      refine ⟨[], by simp [State.view], by simp, downstream [] ?_⟩
      simp [now, State.view, Status.held]
  | raise pc returns raises error world now act result => cases CloseRule.healthy_leave healthy
  | cancelRunning pc now => cases CloseRule.healthy_leave healthy
  | cancelCreated now => cases healthy
  | cancelClosing exit now => cases healthy

/-- A run in which nothing has failed yet. -/
structure Healthy (s : N.State) : Prop where
  clean : s.errors = []
  fresh : s.aborting = false
  task : ∀ i < N.size, (s.task i).status.Healthy

theorem Healthy.before {s t : N.State} {label : StepLabel E} (step : N.Step s label t)
    (healthy : Healthy t) : Healthy s := by
  cases step with
  | task i label v inside step =>
      refine ⟨(List.append_eq_nil_iff.mp healthy.clean).1, healthy.fresh, ?_⟩
      intro j below
      have after := healthy.task j below
      by_cases self : j = i
      · subst j
        rw [State.write_task_self] at after
        exact step.healthy_before after
      · rwa [State.write_task_of_ne s self] at after
  | abort fresh failed => exact absurd healthy.fresh (by simp [State.cancelAll])

/-- What the log holds and what is still on its way to it make up the image of
everything sourced so far, whatever the source still yields. -/
def Delivered (D : Meaning N Λ) (s : N.State) : Prop :=
  ∀ more, (more = [] ∨ Open s) →
    D.log s.world ++ (s.task (D.stage + 1)).status.rest (N.code (D.stage + 1)).start D.emit
        (D.flow s more D.stage) =
      D.emit (N.code (D.stage + 1)).start (D.through D.stage (D.sourced s.world ++ more))

theorem init_delivered (D : Meaning N Λ) {world : W} (log : D.log world = [])
    (sourced : D.sourced world = []) : Delivered D (N.init world) := by
  intro more _
  have flow : ∀ i, D.flow (N.init world) more i = D.through i more := by
    intro i
    induction i with
    | zero => simp [Meaning.flow, Meaning.through, init, Channel.empty, Channel.data,
        Status.held]
    | succ i ih =>
        simp only [Meaning.flow, Meaning.through, ih]
        simp [init, Channel.empty, Channel.data]
  rw [flow]
  simp [init, log, sourced]

theorem Open.before {s : N.State} {i : Nat} {label : Label E}
    {v : View W E (N.Item i) (N.Item (i + 1)) (N.code i).Pc}
    (step : TaskStep (N.code i) N.maxsize (s.view i) label v) (still : Open (s.write i v)) :
    Open s := by
  by_cases self : i = 0
  · subst i
    have unfinished := step.unfinished
    cases status : (s.task 0).status with
    | created => exact Or.inl status
    | running pc => exact Or.inr ⟨pc, status⟩
    | finished exit => exact absurd ⟨exit, status⟩ unfinished
    | closing exit =>
        cases step <;> simp_all [Open, State.view]
  · unfold Open at still
    rwa [State.write_task_of_ne s (Ne.symm self)] at still

/-- What the log holds and what is still on its way to it. -/
def Meaning.due (D : Meaning N Λ) (s : N.State) (more : List (N.Item 1)) : List Λ :=
  D.log s.world ++ (s.task (D.stage + 1)).status.rest (N.code (D.stage + 1)).start D.emit
    (D.flow s more D.stage)

/-- A healthy step of the source: what it yields joins what is on its way. -/
theorem Meaning.due_source (D : Meaning N Λ) (L : Lawful N) {s : N.State} {label : Label E}
    {v : View W E (N.Item 0) (N.Item 1) (N.code 0).Pc}
    (step : TaskStep (N.code 0) N.maxsize (s.view 0) label v) (inside : 0 < N.size)
    (healthy : v.task.status.Healthy) :
    ∃ fresh, D.sourced v.world = D.sourced s.world ++ fresh ∧ (fresh ≠ [] → Open s) ∧
      ∀ more, D.due (s.write 0 v) more = D.due s (fresh ++ more) := by
  obtain ⟨fresh, sourced, opened, flow⟩ := D.flow_source L step healthy
  have log : D.log v.world = D.log s.world := by
    rcases step.world_cases healthy with same | ⟨pc, returns, raises, next, act, result⟩
    · rw [same]; rfl
    · exact D.log_call (by omega) inside act result
  refine ⟨fresh, sourced, opened, ?_⟩
  intro more
  unfold Meaning.due
  rw [flow, State.write_task_of_ne s (by omega : D.stage + 1 ≠ 0)]
  exact congrArg (· ++ _) log

/-- A healthy step of any other stage: what it takes it passes on or logs. -/
theorem Meaning.due_stage (D : Meaning N Λ) {L : Lawful N} {s : N.State} (inv : Inv L s) {i : Nat}
    {label : Label E} {v : View W E (N.Item (i + 1)) (N.Item (i + 2)) (N.code (i + 1)).Pc}
    (step : TaskStep (N.code (i + 1)) N.maxsize (s.view (i + 1)) label v)
    (inside : i + 1 < N.size) (healthy : v.task.status.Healthy) :
    D.sourced v.world = D.sourced s.world ∧
      ∀ more, (more = [] ∨ Open s) → D.due (s.write (i + 1) v) more = D.due s more := by
  constructor
  · rcases step.world_cases healthy with same | ⟨pc, returns, raises, next, act, result⟩
    · rw [same]; rfl
    · exact D.sourced_call (by omega) inside act result
  intro more before
  obtain ⟨upstream, input, downstream⟩ := D.flow_step inv step inside healthy more before
  change D.log v.world ++ _ = D.due s more
  unfold Meaning.due
  by_cases self : i = D.stage
  · subst i
    rw [State.write_task_self, input]
    refine (step.emits D.emits healthy _ ?_).symm
    intro ending
    have nothing := D.flow_ending inv more before inside ending
    rw [input] at nothing
    exact (List.append_eq_nil_iff.mp nothing).2
  · have log : D.log v.world = D.log s.world := by
      rcases step.world_cases healthy with same | ⟨pc, returns, raises, next, act, result⟩
      · rw [same]; rfl
      · exact D.log_call (by omega) inside act result
    have flow : D.flow (s.write (i + 1) v) more D.stage = D.flow s more D.stage := by
      rcases Nat.lt_or_gt_of_ne (Ne.symm self) with below | above
      · exact upstream D.stage below
      · exact downstream D.stage above
    rw [log, flow, State.write_task_of_ne s (by omega : D.stage + 1 ≠ i + 1)]

/-- The source has been open before a step that leaves it open or takes something from it. -/
theorem open_before {s : N.State} {i : Nat} {label : Label E}
    {v : View W E (N.Item i) (N.Item (i + 1)) (N.code i).Pc}
    (step : TaskStep (N.code i) N.maxsize (s.view i) label v) {fresh more : List (N.Item 1)}
    (opened : fresh ≠ [] → Open s) (bound : more = [] ∨ Open (s.write i v)) :
    fresh ++ more = [] ∨ Open s := by
  rcases bound with nil | still
  · by_cases quiet : fresh = []
    · exact Or.inl (by simp [quiet, nil])
    · exact Or.inr (opened quiet)
  · exact Or.inr (still.before step)

theorem Delivered.step_source {D : Meaning N Λ} (L : Lawful N) {s : N.State}
    (delivered : Delivered D s) {label : Label E}
    {v : View W E (N.Item 0) (N.Item 1) (N.code 0).Pc}
    (step : TaskStep (N.code 0) N.maxsize (s.view 0) label v) (inside : 0 < N.size)
    (healthy : v.task.status.Healthy) : Delivered D (s.write 0 v) := by
  obtain ⟨fresh, sourced, opened, due⟩ := D.due_source L step inside healthy
  intro more bound
  have same := (due more).trans (delivered (fresh ++ more) (open_before step opened bound))
  rw [← List.append_assoc, ← sourced] at same
  exact same

theorem Delivered.step_stage {D : Meaning N Λ} {L : Lawful N} {s : N.State} (inv : Inv L s)
    (delivered : Delivered D s) {i : Nat} {label : Label E}
    {v : View W E (N.Item (i + 1)) (N.Item (i + 2)) (N.code (i + 1)).Pc}
    (step : TaskStep (N.code (i + 1)) N.maxsize (s.view (i + 1)) label v)
    (inside : i + 1 < N.size) (healthy : v.task.status.Healthy) :
    Delivered D (s.write (i + 1) v) := by
  obtain ⟨sourced, due⟩ := D.due_stage inv step inside healthy
  intro more bound
  have before : more = [] ∨ Open s := bound.imp id (fun still => still.before step)
  have same := (due more before).trans (delivered more before)
  rw [← sourced] at same
  exact same

theorem Delivered.step {D : Meaning N Λ} {L : Lawful N} {s t : N.State} {label : StepLabel E}
    (inv : Inv L s) (delivered : Delivered D s) (step : N.Step s label t) (healthy : Healthy t) :
    Delivered D t := by
  cases step with
  | abort fresh failed => exact absurd healthy.fresh (by simp [State.cancelAll])
  | task i label v inside step =>
      have after := healthy.task i inside
      rw [State.write_task_self] at after
      cases i with
      | zero => exact delivered.step_source L step inside after
      | succ i => exact delivered.step_stage inv step inside after

theorem Delivered.reaches {D : Meaning N Λ} (L : Lawful N)
    {allowed : N.State → StepLabel E → Prop} {world : W} (log : D.log world = [])
    (sourced : D.sourced world = []) {s : N.State}
    (run : N.Reaches allowed (N.init world) s) (healthy : Healthy s) : Delivered D s := by
  induction run with
  | refl => exact init_delivered D log sourced
  | tail run last ih =>
      obtain ⟨label, _, step⟩ := last
      exact (ih (healthy.before step)).step (Inv.reaches run (init_inv L world)) step healthy

/-- When every stage has returned, the log is the image of everything sourced. -/
theorem Delivered.complete {D : Meaning N Λ} {s : N.State} (delivered : Delivered D s)
    (returned : ∀ i < N.size, (s.task i).status = .finished .returned) :
    D.log s.world = D.emit (N.code (D.stage + 1)).start (D.through D.stage (D.sourced s.world)) := by
  have final := delivered [] (Or.inl rfl)
  rw [returned (D.stage + 1) D.stage_inside] at final
  simpa using final

/-- An abort is recorded by the errors that caused it. -/
theorem aborting_errors {allowed : N.State → StepLabel E → Prop} {world : W} {s : N.State}
    (run : N.Reaches allowed (N.init world) s) (aborting : s.aborting = true) :
    s.errors ≠ [] := by
  induction run with
  | refl => cases aborting
  | tail _ last ih =>
      obtain ⟨label, _, step⟩ := last
      cases step with
      | task i label v inside step => simpa [State.write] using fun same => absurd same (ih aborting)
      | abort fresh failed => exact failed

/-- A run that ends without errors ends with every stage returned. -/
theorem ended_returned (L : Lawful N) {allowed : N.State → StepLabel E → Prop} {world : W}
    {s : N.State} (run : N.Reaches allowed (N.init world) s) (ended : N.Ended s)
    (clean : s.errors = []) : ∀ i < N.size, (s.task i).status = .finished .returned := by
  have inv : Inv L s := Inv.reaches run (init_inv L world)
  have fresh : s.aborting = false := by
    cases phase : s.aborting with
    | false => rfl
    | true => exact absurd clean (aborting_errors run phase)
  intro i inside
  exact inv.returned fresh clean (ended i inside)

/-- A run that ends without errors has logged the image of everything it sourced. -/
theorem ended_complete (D : Meaning N Λ) (L : Lawful N)
    {allowed : N.State → StepLabel E → Prop} {world : W} (log : D.log world = [])
    (sourced : D.sourced world = []) {s : N.State} (run : N.Reaches allowed (N.init world) s)
    (ended : N.Ended s) (clean : s.errors = []) :
    D.log s.world = D.emit (N.code (D.stage + 1)).start (D.through D.stage (D.sourced s.world)) := by
  have returned := ended_returned L run ended clean
  have fresh : s.aborting = false := by
    cases phase : s.aborting with
    | false => rfl
    | true => exact absurd clean (aborting_errors run phase)
  have healthy : Healthy s := ⟨clean, fresh, fun i inside => by rw [returned i inside]; rfl⟩
  exact (Delivered.reaches L log sourced run healthy).complete returned

/-- A step that raises nothing in a run without errors. -/
def Smooth (_ : N.State) (label : StepLabel E) : Prop := ∀ i error, label ≠ .task i (.raise error)

theorem Healthy.step {L : Lawful N} {s t : N.State} {label : StepLabel E} (inv : Inv L s)
    (healthy : Healthy s) (step : N.Step s label t) (smooth : Smooth s label) : Healthy t := by
  cases step with
  | abort fresh failed => exact absurd healthy.clean failed
  | task i label v inside step =>
      have quiet := (inv.quiet healthy.fresh i).1
      have before := healthy.task i inside
      have after : v.task.status.Healthy := by
        cases step with
        | raise pc returns raises error world now act result => exact absurd rfl (smooth i error)
        | ret pc now act => unfold CloseRule.leave; split <;> rfl
        | close exit now room =>
            have now : s.task i = ⟨.closing exit, false⟩ := now
            rw [now] at before
            exact before
        | cancelCreated now => simp_all [State.view]
        | cancelRunning pc now => simp_all [State.view]
        | cancelClosing exit now => simp_all [State.view]
        | _ => trivial
      refine ⟨?_, healthy.fresh, ?_⟩
      · have none : v.task.error = [] := by
          unfold Task.error
          split
          · rename_i error same
            rw [same] at after
            cases after
          · rfl
        simp [State.write, healthy.clean, none]
      · intro j below
        by_cases self : j = i
        · subst j
          rw [State.write_task_self]
          exact after
        · rw [State.write_task_of_ne s self]
          exact healthy.task j below

theorem Healthy.reaches (L : Lawful N) {world : W} {s : N.State}
    (run : N.Reaches Smooth (N.init world) s) : Healthy s := by
  induction run with
  | refl => exact ⟨rfl, rfl, fun _ _ => trivial⟩
  | tail run last ih =>
      obtain ⟨label, smooth, step⟩ := last
      exact ih.step (Inv.reaches run (init_inv L world)) step smooth

end Net

end TaskNet
