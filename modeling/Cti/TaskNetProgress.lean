import Mathlib.Data.Nat.Find
import Mathlib.Order.Basic
import Cti.TaskNetLinks

set_option autoImplicit false

namespace TaskNet

variable {W E α β : Type}

/-- A finished task takes no step. -/
theorem TaskStep.unfinished {c : Coroutine W E α β} {maxsize : Int} {v v' : View W E α β c.Pc}
    {label : Label E} (step : TaskStep c maxsize v label v') : ¬ v.task.Finished := by
  rintro ⟨exit, finished⟩
  cases step <;> simp_all

/-- A step only ever removes items from the input. -/
theorem TaskStep.input_length {c : Coroutine W E α β} {maxsize : Int} {v v' : View W E α β c.Pc}
    {label : Label E} (step : TaskStep c maxsize v label v') :
    v'.input.items.length ≤ v.input.items.length := by
  cases step with
  | get pc next item rest now act head => simp [head]
  | _ => exact Nat.le_refl _

theorem TaskStep.input_room {c : Coroutine W E α β} {maxsize : Int} {v v' : View W E α β c.Pc}
    {label : Label E} (step : TaskStep c maxsize v label v') (room : ¬ v.input.Full maxsize) :
    ¬ v'.input.Full maxsize := by
  rintro ⟨positive, full⟩
  have shorter := step.input_length
  exact room ⟨positive, by omega⟩

theorem TaskStep.request_cleared {c : Coroutine W E α β} {maxsize : Int}
    {v v' : View W E α β c.Pc} {label : Label E} (step : TaskStep c maxsize v label v') :
    v'.task.cancelRequested = false := by
  cases step <;> rfl

/-- A requested cancellation can always be delivered. -/
theorem TaskStep.of_request (c : Coroutine W E α β) (maxsize : Int) (v : View W E α β c.Pc)
    (unfinished : ¬ v.task.Finished) (requested : v.task.cancelRequested = true) :
    ∃ v', TaskStep c maxsize v .cancel v' := by
  have now : v.task = ⟨v.task.status, true⟩ := by rw [← requested]
  cases status : v.task.status with
  | created => exact ⟨_, .cancelCreated v (by rw [now, status])⟩
  | running pc => exact ⟨_, .cancelRunning v pc (by rw [now, status])⟩
  | closing exit => exact ⟨_, .cancelClosing v exit (by rw [now, status])⟩
  | finished exit => exact absurd ⟨exit, status⟩ unfinished

/-- The only awaits that can hold up a task that nobody cancels: a get on an empty
channel, and a put or a close on a full one. -/
inductive Blocked (c : Coroutine W E α β) (maxsize : Int) (v : View W E α β c.Pc) : Prop
  | get (pc : c.Pc) (next : Option α → c.Pc) (now : v.task.status = .running pc)
      (act : c.act pc = .get next) (empty : v.input.items = [])
  | put (pc next : c.Pc) (item : β) (now : v.task.status = .running pc)
      (act : c.act pc = .put item next) (full : v.output.Full maxsize)
  | close (exit : Exit E) (now : v.task.status = .closing exit) (full : v.output.Full maxsize)

/-- Every call of the coroutine returns or raises. -/
def Coroutine.Live (c : Coroutine W E α β) : Prop :=
  ∀ pc returns raises, c.act pc = .call returns raises → ∀ world,
    (∃ world' next, returns world world' next) ∨ ∃ error world', raises world error world'

theorem TaskStep.of_not_blocked (c : Coroutine W E α β) (maxsize : Int)
    (live : c.Live) (v : View W E α β c.Pc) (unfinished : ¬ v.task.Finished)
    (quiet : v.task.cancelRequested = false) (free : ¬ Blocked c maxsize v) :
    ∃ label v', TaskStep c maxsize v label v' := by
  have now : v.task = ⟨v.task.status, false⟩ := by rw [← quiet]
  cases status : v.task.status with
  | created => exact ⟨_, _, .start v (by rw [now, status])⟩
  | running pc =>
      have now : v.task = ⟨.running pc, false⟩ := by rw [now, status]
      cases act : c.act pc with
      | get next =>
          cases head : v.input.items with
          | nil => exact absurd (.get pc next status act head) free
          | cons item rest => exact ⟨_, _, .get v pc next item rest now act head⟩
      | put item next =>
          by_cases full : v.output.Full maxsize
          · exact absurd (.put pc next item status act full) free
          · exact ⟨_, _, .put v pc next item now act full⟩
      | call returns raises =>
          rcases live pc returns raises act v.world with ⟨world, next, result⟩ | ⟨error, world, result⟩
          · exact ⟨_, _, .call v pc next returns raises world now act result⟩
          · exact ⟨_, _, .raise v pc returns raises error world now act result⟩
      | ret => exact ⟨_, _, .ret v pc now act⟩
  | closing exit =>
      by_cases full : v.output.Full maxsize
      · exact absurd (.close exit status full) free
      · exact ⟨_, _, .close v exit (by rw [now, status]) full⟩
  | finished exit => exact absurd ⟨exit, status⟩ unfinished

theorem CloseRule.leave_closing {Pc : Type} {rule : CloseRule} {exit exit' : Exit E}
    {q : Channel α} (same : (rule.leave exit q : Status Pc E) = .closing exit') :
    rule ≠ .never ∧ exit' = exit := by
  unfold CloseRule.leave CloseRule.pending at same
  split at same
  · rename_i pending
    refine ⟨?_, by cases same; rfl⟩
    rintro rfl
    simp [CloseRule.closes] at pending
  · cases same

/-- No task step produces a cancelled exit unless the cancellation was requested. -/
theorem TaskStep.not_cancelled {c : Coroutine W E α β} {maxsize : Int}
    {v v' : View W E α β c.Pc} {label : Label E} (step : TaskStep c maxsize v label v')
    (quiet : v.task.cancelRequested = false) (closing : v.task.status ≠ .closing .cancelled) :
    v'.task.status ≠ .closing .cancelled ∧ v'.task.status ≠ .finished .cancelled := by
  cases step with
  | raise pc returns raises error world now act result => unfold CloseRule.leave; split <;> simp
  | ret pc now act => unfold CloseRule.leave; split <;> simp
  | close exit now room => simp_all
  | cancelCreated now => simp [now] at quiet
  | cancelRunning pc now => simp [now] at quiet
  | cancelClosing exit now => simp [now] at quiet
  | _ => simp

theorem TaskStep.closing_rule {c : Coroutine W E α β} {maxsize : Int}
    {v v' : View W E α β c.Pc} {label : Label E} (step : TaskStep c maxsize v label v')
    {exit : Exit E} (closing : v'.task.status = .closing exit) : c.close ≠ .never := by
  cases step with
  | raise pc returns raises error world now act result => exact (CloseRule.leave_closing closing).1
  | ret pc now act => exact (CloseRule.leave_closing closing).1
  | cancelRunning pc now => exact (CloseRule.leave_closing closing).1
  | _ => cases closing

namespace Net

variable {N : Net W E}

@[simp] theorem State.write_task_self (s : N.State) (i : Nat)
    (v : View W E (N.Item i) (N.Item (i + 1)) (N.code i).Pc) : (s.write i v).task i = v.task :=
  Function.update_self ..

theorem State.write_errors (s : N.State) (i : Nat)
    {v : View W E (N.Item i) (N.Item (i + 1)) (N.code i).Pc} (quiet : v.task.error = []) :
    (s.write i v).errors = s.errors := by
  change s.errors ++ v.task.error = s.errors
  rw [quiet, List.append_nil]

theorem State.write_task_of_ne (s : N.State) {i j : Nat} (other : j ≠ i)
    (v : View W E (N.Item i) (N.Item (i + 1)) (N.code i).Pc) :
    (s.write i v).task j = s.task j :=
  Function.update_of_ne other ..

@[simp] theorem State.write_chan_input (s : N.State) (i : Nat)
    (v : View W E (N.Item i) (N.Item (i + 1)) (N.code i).Pc) : (s.write i v).chan i = v.input := by
  simp [State.write]

@[simp] theorem State.write_chan_output (s : N.State) (i : Nat)
    (v : View W E (N.Item i) (N.Item (i + 1)) (N.code i).Pc) :
    (s.write i v).chan (i + 1) = v.output :=
  Function.update_self ..

theorem State.write_chan_of_ne (s : N.State) {i j : Nat} (input : j ≠ i) (output : j ≠ i + 1)
    (v : View W E (N.Item i) (N.Item (i + 1)) (N.code i).Pc) :
    (s.write i v).chan j = s.chan j := by
  simp [State.write, Function.update_of_ne input, Function.update_of_ne output]

/-- The shape of a line of coroutines: the first one reads nothing, the last one
writes nothing, and every other one closes its output and reads up to its end mark. -/
structure Lawful (N : Net W E) where
  eos : (i : Nat) → (N.code i).Pc → Prop
  laws : ∀ i, 0 < i → i < N.size → StreamLaws (N.code i) (eos i)
  fresh : ∀ i, 0 < i → i < N.size → ¬ eos i (N.code i).start
  live : ∀ i < N.size, (N.code i).Live
  source : ∀ pc next, (N.code 0).act pc ≠ .get next
  closes : ∀ i, i + 1 < N.size → (N.code i).close ≠ .never
  sink : ∀ i, i + 1 = N.size → (N.code i).close = .never
  sink_put : ∀ i, i + 1 = N.size → ∀ pc item next, (N.code i).act pc ≠ .put item next

/-- What every run keeps, whatever fails in it. -/
structure Inv (L : Lawful N) (s : N.State) : Prop where
  link : ∀ i, i + 1 < N.size →
    Link (L.eos (i + 1)) (s.task i).status (s.chan (i + 1)) (s.task (i + 1)).status
  recorded : ∀ i error, (s.task i).status = .finished (.raised error) → s.errors ≠ []
  quiet : s.aborting = false → ∀ i, (s.task i).cancelRequested = false ∧
    (s.task i).status ≠ .closing .cancelled ∧ (s.task i).status ≠ .finished .cancelled
  closing : ∀ i exit, (s.task i).status = .closing exit → (N.code i).close ≠ .never

theorem init_inv (L : Lawful N) (world : W) : Inv L (N.init world) where
  link _ _ := Link.initial _
  recorded _ _ same := by cases same
  quiet _ _ := ⟨rfl, nofun, nofun⟩
  closing _ _ same := by cases same

/-- Every step keeps the links: a task is a producer to one link and a consumer
to another, and leaves the rest alone. -/
theorem Inv.step_link {L : Lawful N} {s : N.State} (inv : Inv L s) {i : Nat} {label : Label E}
    {v : View W E (N.Item i) (N.Item (i + 1)) (N.code i).Pc}
    (step : TaskStep (N.code i) N.maxsize (s.view i) label v) (j : Nat) (inside : j + 1 < N.size) :
    Link (L.eos (j + 1)) ((s.write i v).task j).status ((s.write i v).chan (j + 1))
      ((s.write i v).task (j + 1)).status := by
  by_cases producer : j = i
  · subst j
    have other : i + 1 ≠ i := by omega
    rw [State.write_task_self, State.write_chan_output, State.write_task_of_ne s other]
    exact step.producer_link (L.closes i inside) (inv.link i inside)
  · by_cases consumer : j + 1 = i
    · subst i
      have other : j ≠ j + 1 := by omega
      rw [State.write_task_self, State.write_chan_input, State.write_task_of_ne s other]
      exact step.consumer_link (L.laws (j + 1) (by omega) inside) (L.fresh (j + 1) (by omega) inside)
        (inv.link j inside)
    · have apart : j + 1 ≠ i + 1 := by omega
      rw [State.write_task_of_ne s producer, State.write_task_of_ne s consumer,
        State.write_chan_of_ne s consumer apart]
      exact inv.link j inside

theorem Inv.step {L : Lawful N} {s t : N.State} {label : StepLabel E} (inv : Inv L s)
    (step : N.Step s label t) : Inv L t := by
  cases step with
  | task i label v inside step =>
      refine ⟨fun j inside => inv.step_link step j inside, ?_, ?_, ?_⟩
      · intro j error same
        by_cases self : j = i
        · subst j
          rw [State.write_task_self] at same
          simp [State.write, Task.error, same]
        · rw [State.write_task_of_ne s self] at same
          have recorded := inv.recorded j error same
          simp [State.write, recorded]
      · intro fresh j
        by_cases self : j = i
        · subst j
          rw [State.write_task_self]
          have before := inv.quiet fresh i
          exact ⟨step.request_cleared, step.not_cancelled before.1 before.2.1⟩
        · rw [State.write_task_of_ne s self]
          exact inv.quiet fresh j
      · intro j exit same
        by_cases self : j = i
        · subst j
          rw [State.write_task_self] at same
          exact step.closing_rule same
        · rw [State.write_task_of_ne s self] at same
          exact inv.closing j exit same
  | abort fresh failed =>
      exact ⟨inv.link, inv.recorded, nofun, inv.closing⟩

theorem Inv.reaches {L : Lawful N} {allowed : N.State → StepLabel E → Prop} {s t : N.State}
    (run : N.Reaches allowed s t) (inv : Inv L s) : Inv L t := by
  induction run with
  | refl => exact inv
  | tail _ last ih =>
      obtain ⟨label, _, step⟩ := last
      exact ih.step step

/-- Some step is enabled. -/
def CanStep (N : Net W E) (s : N.State) : Prop := ∃ label t, N.Step s label t

/-- A quiet stage that is neither finished nor waiting for input waits for room
downstream, or the net can move. -/
theorem Inv.output_full {L : Lawful N} {s : N.State} (inv : Inv L s)
    (fresh : s.aborting = false) (stuck : ¬ N.CanStep s) {i : Nat} (inside : i < N.size)
    (unfinished : ¬ (s.task i).Finished)
    (fed : ∀ pc next, (s.task i).status = .running pc → (N.code i).act pc = .get next →
      (s.chan i).items ≠ []) :
    i + 1 < N.size ∧ (s.chan (i + 1)).Full N.maxsize := by
  have blocked : Blocked (N.code i) N.maxsize (s.view i) := by
    by_contra free
    obtain ⟨label, v, step⟩ :=
      TaskStep.of_not_blocked (N.code i) N.maxsize (L.live i inside) (s.view i) unfinished
        (inv.quiet fresh i).1 free
    exact stuck ⟨_, _, .task s i label v inside step⟩
  cases blocked with
  | get pc next now act empty => exact absurd empty (fed pc next now act)
  | put pc next item now act full =>
      refine ⟨?_, full⟩
      by_contra last
      exact L.sink_put i (by omega) pc item next act
  | close exit now full =>
      refine ⟨?_, full⟩
      by_contra last
      exact inv.closing i exit now (L.sink i (by omega))

/-- A stage that ended in a run without errors and without an abort has returned. -/
theorem Inv.returned {L : Lawful N} {s : N.State} (inv : Inv L s) (fresh : s.aborting = false)
    (clean : s.errors = []) {i : Nat} (finished : (s.task i).Finished) :
    (s.task i).status = .finished .returned := by
  obtain ⟨exit, same⟩ := finished
  cases exit with
  | returned => exact same
  | raised error => exact absurd clean (inv.recorded i error same)
  | cancelled => exact absurd same (inv.quiet fresh i).2.2

/-- Before any abort the net moves as long as some stage is unfinished. The first
unfinished stage is fed, so a stuck net has a full channel behind it, which feeds the
next stage, and so on down to the last stage, which writes nothing. -/
theorem Inv.progress {L : Lawful N} {s : N.State} (inv : Inv L s)
    (fresh : s.aborting = false) (unended : ¬ N.Ended s) : N.CanStep s := by
  by_contra stuck
  have clean : s.errors = [] := by
    by_contra failed
    exact stuck ⟨_, _, .abort s fresh failed⟩
  obtain ⟨first, ⟨inside, unfinished⟩, least⟩ :
      ∃ k, (k < N.size ∧ ¬ (s.task k).Finished) ∧
        ∀ j < k, ¬ (j < N.size ∧ ¬ (s.task j).Finished) := by
    have open' : ∃ i, i < N.size ∧ ¬ (s.task i).Finished := by
      simpa [Ended] using unended
    classical
    exact ⟨Nat.find open', Nat.find_spec open', fun j before => Nat.find_min open' before⟩
  have fed : ∀ m, first ≤ m → m < N.size → ¬ (s.task m).Finished ∧
      ∀ pc next, (s.task m).status = .running pc → (N.code m).act pc = .get next →
        (s.chan m).items ≠ [] := by
    intro m after
    induction m, after using Nat.le_induction with
    | base =>
        intro _
        refine ⟨unfinished, ?_⟩
        intro pc next now act
        cases first with
        | zero => exact absurd act (L.source pc next)
        | succ k =>
            have finished : (s.task k).Finished := by
              by_contra open'
              exact least k (Nat.lt_succ_self k) ⟨by omega, open'⟩
            have awaits : (s.task (k + 1)).status.Awaits (L.eos (k + 1)) := by
              rw [now]
              exact (L.laws (k + 1) (Nat.succ_pos k) inside).get_open act
            have mark := (inv.link k inside).sent (inv.returned fresh clean finished) awaits
            exact List.ne_nil_of_mem mark
    | succ m after ih =>
        intro below
        obtain ⟨open', input⟩ := ih (by omega)
        obtain ⟨_, full⟩ := inv.output_full fresh stuck (by omega) open' input
        have nonempty : (s.chan (m + 1)).items ≠ [] := by
          intro empty
          have := full.1
          have := full.2
          simp only [empty, List.length_nil] at this
          omega
        refine ⟨?_, fun _ _ _ _ => nonempty⟩
        intro finished
        have returned := inv.returned fresh clean finished
        obtain ⟨exit, same⟩ := (inv.link m below).seen (by rw [returned]; trivial)
        exact open' ⟨exit, same⟩
  obtain ⟨open', input⟩ := fed (N.size - 1) (by omega) (by omega)
  have last := (inv.output_full fresh stuck (by omega) open' input).1
  omega

end Net

end TaskNet
