import Mathlib.Algebra.BigOperators.Group.Finset.Basic
import Mathlib.Algebra.Ring.Nat
import Mathlib.Data.Prod.Lex
import Mathlib.Order.WellFounded
import Cti.TaskNetDelivery

set_option autoImplicit false

/- Why a line of coroutines stops. Every item has a price, which pays for all the steps that it
causes from where it is. A source may set its own fuel against what it yields. -/
namespace TaskNet

variable {W E α β : Type}

/-- The prices of what a coroutine reads and writes pay for its steps. Leaving takes a step, and
sending the end mark another one. -/
structure Coroutine.Priced (c : Coroutine W E α β) (input : Option α → Nat)
    (output : Option β → Nat) where
  fuel : c.Pc → Nat
  weight : c.Pc → Nat
  leave : ∀ pc, output none + 2 ≤ weight pc
  get : ∀ {pc next}, c.act pc = .get next → ∀ item,
    fuel (next item) ≤ fuel pc ∧ weight (next item) + 1 ≤ weight pc + input item
  put : ∀ {pc item next}, c.act pc = .put item next →
    fuel next ≤ fuel pc ∧ weight next + output (some item) + 1 ≤ weight pc
  call : ∀ {pc returns raises world world' next}, c.act pc = .call returns raises →
    returns world world' next →
    fuel next < fuel pc ∨ fuel next ≤ fuel pc ∧ weight next + 1 ≤ weight pc

section task

variable {c : Coroutine W E α β} {input : Option α → Nat} {output : Option β → Nat}

def Coroutine.Priced.fuelLeft (p : c.Priced input output) : Status c.Pc E → Nat
  | .created => p.fuel c.start
  | .running pc => p.fuel pc
  | _ => 0

def Coroutine.Priced.owed (p : c.Priced input output) : Status c.Pc E → Nat
  | .created => p.weight c.start + 1
  | .running pc => p.weight pc
  | .closing _ => output none + 1
  | .finished _ => 0

/-- What the items of a channel still cost. -/
def Channel.cost (price : Option α → Nat) (q : Channel α) : Nat := (q.items.map price).sum

@[simp] theorem Channel.cost_push (price : Option α → Nat) (q : Channel α) (item : Option α) :
    (q.push item).cost price = q.cost price + price item := by
  simp [Channel.cost, Channel.push]

@[simp] theorem Channel.cost_markClosed (price : Option α → Nat) (q : Channel α)
    (rule : CloseRule) (exit : Exit E) : (rule.markClosed exit q).cost price = q.cost price := by
  simp [Channel.cost]

theorem Channel.cost_cons {price : Option α → Nat} {q : Channel α} {item : Option α}
    {rest : List (Option α)} (head : q.items = item :: rest) :
    q.cost price = price item + ({ q with items := rest } : Channel α).cost price := by
  simp [Channel.cost, head]

theorem Coroutine.Priced.owed_leave {γ : Type} (p : c.Priced input output) (pc : c.Pc)
    (rule : CloseRule) (exit : Exit E) (q : Channel γ) :
    p.owed (rule.leave exit q) + 1 ≤ p.weight pc ∧ p.fuelLeft (rule.leave exit q) = 0 := by
  have least := p.leave pc
  unfold CloseRule.leave
  split
  · exact ⟨by simp only [owed]; omega, rfl⟩
  · exact ⟨by simp only [owed]; omega, rfl⟩

/-- Every step of a task burns fuel of the source or is paid for. -/
theorem TaskStep.spends {maxsize : Int} {v v' : View W E α β c.Pc} {label : Label E}
    (step : TaskStep c maxsize v label v') (p : c.Priced input output) :
    p.fuelLeft v'.task.status < p.fuelLeft v.task.status ∨
      p.fuelLeft v'.task.status ≤ p.fuelLeft v.task.status ∧
        v'.input.cost input + p.owed v'.task.status + v'.output.cost output + 1 ≤
          v.input.cost input + p.owed v.task.status + v.output.cost output := by
  cases step with
  | start now =>
      rw [now]
      refine Or.inr ⟨Nat.le_refl _, ?_⟩
      simp only [Coroutine.Priced.owed]
      omega
  | get pc next item rest now act head =>
      obtain ⟨fuel, weight⟩ := p.get act item
      rw [now]
      refine Or.inr ⟨fuel, ?_⟩
      simp only [Coroutine.Priced.owed, Channel.cost_cons head]
      omega
  | put pc next item now act room =>
      obtain ⟨fuel, weight⟩ := p.put act
      rw [now]
      refine Or.inr ⟨fuel, ?_⟩
      simp only [Coroutine.Priced.owed, Channel.cost_push]
      omega
  | call pc next returns raises world now act result =>
      rw [now]
      rcases p.call act result with burnt | ⟨fuel, weight⟩
      · exact Or.inl burnt
      · refine Or.inr ⟨fuel, ?_⟩
        simp only [Coroutine.Priced.owed]
        omega
  | raise pc returns raises error world now act result =>
      obtain ⟨owed, fuel⟩ := p.owed_leave pc c.close (.raised error) v.output
      rw [now]
      dsimp only
      rw [fuel, Channel.cost_markClosed]
      refine Or.inr ⟨Nat.zero_le _, ?_⟩
      simp only [Coroutine.Priced.owed] at owed ⊢
      omega
  | ret pc now act =>
      obtain ⟨owed, fuel⟩ := p.owed_leave pc c.close .returned v.output
      rw [now]
      dsimp only
      rw [fuel, Channel.cost_markClosed]
      refine Or.inr ⟨Nat.zero_le _, ?_⟩
      simp only [Coroutine.Priced.owed] at owed ⊢
      omega
  | close exit now room =>
      rw [now]
      refine Or.inr ⟨Nat.le_refl _, ?_⟩
      simp only [Coroutine.Priced.owed, Channel.cost_push]
      omega
  | cancelCreated now =>
      rw [now]
      refine Or.inr ⟨Nat.zero_le _, ?_⟩
      simp only [Coroutine.Priced.owed]
      omega
  | cancelRunning pc now =>
      obtain ⟨owed, fuel⟩ := p.owed_leave pc c.close .cancelled v.output
      rw [now]
      dsimp only
      rw [fuel, Channel.cost_markClosed]
      refine Or.inr ⟨Nat.zero_le _, ?_⟩
      simp only [Coroutine.Priced.owed] at owed ⊢
      omega
  | cancelClosing exit now =>
      rw [now]
      refine Or.inr ⟨Nat.le_refl _, ?_⟩
      simp only [Coroutine.Priced.owed]
      omega

end task

/-- A sum whose terms change in one place. -/
theorem sum_change {s : Finset Nat} {f g : Nat → Nat} {i : Nat} (inside : i ∈ s)
    (same : ∀ j, j ≠ i → g j = f j) : (∑ j ∈ s, g j) + f i = (∑ j ∈ s, f j) + g i := by
  have rest : ∑ j ∈ s.erase i, g j = ∑ j ∈ s.erase i, f j :=
    Finset.sum_congr rfl fun j member => same j (Finset.ne_of_mem_erase member)
  have whole := Finset.add_sum_erase s f inside
  have whole' := Finset.add_sum_erase s g inside
  omega

namespace Net

variable {N : Net W E}

/-- Prices for the whole line. -/
structure Priced (N : Net W E) where
  price : (i : Nat) → Option (N.Item i) → Nat
  stage : (i : Nat) → (N.code i).Priced (price i) (price (i + 1))

variable (P : N.Priced)

def Priced.fuel (s : N.State) : Nat :=
  ∑ i ∈ Finset.range N.size, (P.stage i).fuelLeft (s.task i).status

/-- What the tasks and the items in the channels cost, and the abort that may still come. -/
def Priced.cost (s : N.State) : Nat :=
  (∑ i ∈ Finset.range N.size, (P.stage i).owed (s.task i).status) +
    (∑ i ∈ Finset.range (N.size + 1), (s.chan i).cost (P.price i)) +
    if s.aborting then 0 else 1

theorem Priced.fuel_write (s : N.State) {i : Nat} (inside : i < N.size)
    (v : View W E (N.Item i) (N.Item (i + 1)) (N.code i).Pc) :
    P.fuel (s.write i v) + (P.stage i).fuelLeft (s.task i).status =
      P.fuel s + (P.stage i).fuelLeft v.task.status := by
  have change := sum_change (s := Finset.range N.size)
    (f := fun j => (P.stage j).fuelLeft (s.task j).status)
    (g := fun j => (P.stage j).fuelLeft ((s.write i v).task j).status)
    (Finset.mem_range.mpr inside)
    (fun j other => by rw [State.write_task_of_ne s other])
  rw [State.write_task_self] at change
  exact change

theorem Priced.owed_write (s : N.State) {i : Nat} (inside : i < N.size)
    (v : View W E (N.Item i) (N.Item (i + 1)) (N.code i).Pc) :
    (∑ j ∈ Finset.range N.size, (P.stage j).owed ((s.write i v).task j).status) +
        (P.stage i).owed (s.task i).status =
      (∑ j ∈ Finset.range N.size, (P.stage j).owed (s.task j).status) +
        (P.stage i).owed v.task.status := by
  have change := sum_change (s := Finset.range N.size)
    (f := fun j => (P.stage j).owed (s.task j).status)
    (g := fun j => (P.stage j).owed ((s.write i v).task j).status)
    (Finset.mem_range.mpr inside)
    (fun j other => by rw [State.write_task_of_ne s other])
  rw [State.write_task_self] at change
  exact change

theorem Priced.channels_write (s : N.State) {i : Nat} (inside : i < N.size)
    (v : View W E (N.Item i) (N.Item (i + 1)) (N.code i).Pc) :
    (∑ j ∈ Finset.range (N.size + 1), ((s.write i v).chan j).cost (P.price j)) +
        (s.chan i).cost (P.price i) + (s.chan (i + 1)).cost (P.price (i + 1)) =
      (∑ j ∈ Finset.range (N.size + 1), (s.chan j).cost (P.price j)) +
        v.input.cost (P.price i) + v.output.cost (P.price (i + 1)) := by
  have input := sum_change (s := Finset.range (N.size + 1))
    (f := fun j => (s.chan j).cost (P.price j))
    (g := fun j => (Function.update s.chan i v.input j).cost (P.price j))
    (Finset.mem_range.mpr (by omega : i < N.size + 1))
    (fun j other => by rw [Function.update_of_ne other])
  have output := sum_change (s := Finset.range (N.size + 1))
    (f := fun j => (Function.update s.chan i v.input j).cost (P.price j))
    (g := fun j => ((s.write i v).chan j).cost (P.price j))
    (Finset.mem_range.mpr (by omega : i + 1 < N.size + 1))
    (fun j other => by
      dsimp only [State.write]
      rw [Function.update_of_ne other])
  have next : Function.update s.chan i v.input (i + 1) = s.chan (i + 1) :=
    Function.update_of_ne (by omega) _ _
  rw [Function.update_self] at input
  rw [next, State.write_chan_output] at output
  omega

/-- Every step of the line burns fuel or is paid for. -/
theorem Priced.step {s t : N.State} {label : StepLabel E} (step : N.Step s label t) :
    P.fuel t < P.fuel s ∨ P.fuel t ≤ P.fuel s ∧ P.cost t < P.cost s := by
  cases step with
  | abort fresh failed =>
      refine Or.inr ⟨Nat.le_refl _, ?_⟩
      have same : P.cost s.cancelAll + 1 = P.cost s := by
        have raised : s.cancelAll.aborting = true := rfl
        simp only [Priced.cost, fresh, raised]
        rfl
      omega
  | task i label v inside step =>
      have fuel := P.fuel_write s inside v
      have owed := P.owed_write s inside v
      have channels := P.channels_write s inside v
      rcases step.spends (P.stage i) with burnt | ⟨kept, paid⟩
      · refine Or.inl ?_
        change (P.stage i).fuelLeft v.task.status < (P.stage i).fuelLeft (s.task i).status at burnt
        omega
      · change (P.stage i).fuelLeft v.task.status ≤ (P.stage i).fuelLeft (s.task i).status at kept
        change v.input.cost (P.price i) + (P.stage i).owed v.task.status +
          v.output.cost (P.price (i + 1)) + 1 ≤ (s.chan i).cost (P.price i) +
          (P.stage i).owed (s.task i).status + (s.chan (i + 1)).cost (P.price (i + 1)) at paid
        refine Or.inr ⟨by omega, ?_⟩
        have aborting : (s.write i v).aborting = s.aborting := rfl
        unfold Priced.cost
        rw [aborting]
        omega

/-- A sequence of states in which every step is an allowed one, and in which something happens
as long as anything can. -/
def Schedule (N : Net W E) (allowed : N.State → StepLabel E → Prop) (run : Nat → N.State) :
    Prop :=
  ∀ n, (∃ label, allowed (run n) label ∧ N.Step (run n) label (run (n + 1))) ∨
    ¬ N.CanStep (run n) ∧ run (n + 1) = run n

theorem Schedule.reaches {allowed : N.State → StepLabel E → Prop} {run : Nat → N.State}
    (schedule : N.Schedule allowed run) (n : Nat) : N.Reaches allowed (run 0) (run n) := by
  induction n with
  | zero => exact .refl
  | succ n ih =>
      rcases schedule n with stepped | ⟨_, same⟩
      · exact ih.tail stepped
      · rw [same]
        exact ih

/-- A finished run is a schedule. -/
theorem Reaches.schedule {allowed : N.State → StepLabel E → Prop} {s u : N.State}
    (reaches : N.Reaches allowed s u) (stuck : ¬ N.CanStep u) :
    ∃ run, run 0 = s ∧ N.Schedule allowed run := by
  induction reaches using Relation.ReflTransGen.head_induction_on with
  | refl => exact ⟨fun _ => u, rfl, fun _ => Or.inr ⟨stuck, rfl⟩⟩
  | @head s t first _ ih =>
      obtain ⟨run, start, schedule⟩ := ih
      refine ⟨fun n => Nat.casesOn n s run, rfl, ?_⟩
      intro n
      cases n with
      | zero =>
          change (∃ label, allowed s label ∧ N.Step s label (run 0)) ∨ _
          rw [start]
          exact Or.inl first
      | succ n => exact schedule n

/-- Nothing happens any more once all tasks have ended without an error. -/
theorem Ended.stuck {s : N.State} (ended : N.Ended s) (clean : s.errors = []) :
    ¬ N.CanStep s := by
  rintro ⟨label, t, step⟩
  cases step with
  | abort fresh failed => exact failed clean
  | task i label v inside step => exact step.unfinished (ended i inside)

end Net

end TaskNet
