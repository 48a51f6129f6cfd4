import Mathlib.Logic.Function.Basic
import Mathlib.Logic.Relation

set_option autoImplicit false

/- Coroutines that pass items down a line of bounded channels, run as the tasks
of one cancelling task group. Only awaits are steps: the code between two awaits
of one coroutine is atomic. -/
namespace TaskNet

/-- A FIFO whose items are values or the end-of-stream mark `none`. `closed`
records that its producer has begun to close it. -/
structure Channel (α : Type) where
  items : List (Option α)
  closed : Bool

def Channel.empty {α : Type} : Channel α := ⟨[], false⟩

/-- A nonpositive `maxsize` is no bound. -/
def Channel.Full {α : Type} (maxsize : Int) (q : Channel α) : Prop :=
  0 < maxsize ∧ maxsize ≤ q.items.length

instance {α : Type} (maxsize : Int) (q : Channel α) : Decidable (q.Full maxsize) :=
  inferInstanceAs (Decidable (_ ∧ _))

theorem Channel.not_full_nil {α : Type} {maxsize : Int} {q : Channel α} (empty : q.items = []) :
    ¬ q.Full maxsize := by
  rintro ⟨positive, reached⟩
  rw [empty, List.length_nil] at reached
  omega

def Channel.push {α : Type} (q : Channel α) (item : Option α) : Channel α :=
  { q with items := q.items ++ [item] }

/-- The values in flight, without the end mark. -/
def Channel.data {α : Type} (q : Channel α) : List α := q.items.filterMap id

/-- One await of a coroutine over a world `W`. A call is an await on foreign code:
it returns and it raises in the ways its two relations allow. -/
inductive Action (W E α β Pc : Type) where
  | get (next : Option α → Pc)
  | put (item : β) (next : Pc)
  | call (returns : W → W → Pc → Prop) (raises : W → E → W → Prop)
  | ret

/-- When a coroutine closes its output: in a `finally`, after a normal end only,
or not at all. -/
inductive CloseRule where
  | always
  | onReturn
  | never
  deriving DecidableEq

structure Coroutine (W E α β : Type) where
  Pc : Type
  start : Pc
  act : Pc → Action W E α β Pc
  close : CloseRule

inductive Exit (E : Type) where
  | returned
  | raised (error : E)
  | cancelled
  deriving DecidableEq

inductive Status (Pc E : Type) where
  | created
  | running (pc : Pc)
  | closing (exit : Exit E)
  | finished (exit : Exit E)

structure Task (Pc E : Type) where
  status : Status Pc E
  cancelRequested : Bool

def Task.Finished {Pc E : Type} (t : Task Pc E) : Prop := ∃ exit, t.status = .finished exit

/-- What a task that has just ended hands to its group. -/
def Task.error {Pc E : Type} (t : Task Pc E) : List E :=
  match t.status with
  | .finished (.raised error) => [error]
  | _ => []

def CloseRule.closes {E : Type} : CloseRule → Exit E → Bool
  | .always, _ => true
  | .onReturn, .returned => true
  | .onReturn, _ => false
  | .never, _ => false

/-- Leaving the body still has an end mark to send. -/
def CloseRule.pending {E α : Type} (rule : CloseRule) (exit : Exit E) (output : Channel α) : Bool :=
  rule.closes exit && !output.closed

def CloseRule.leave {E α Pc : Type} (rule : CloseRule) (exit : Exit E) (output : Channel α) :
    Status Pc E :=
  if rule.pending exit output then .closing exit else .finished exit

/-- The output is marked as closed before its end mark is sent. -/
def CloseRule.markClosed {E α : Type} (rule : CloseRule) (exit : Exit E) (output : Channel α) :
    Channel α :=
  if rule.pending exit output then { output with closed := true } else output

/-- What one task reads and writes. -/
structure View (W E α β Pc : Type) where
  input : Channel α
  task : Task Pc E
  output : Channel β
  world : W

inductive Label (E : Type) where
  | start
  | get
  | put
  | call
  | raise (error : E)
  | ret
  | close
  | cancel

/-- One step of one task. A requested cancellation is delivered at the current
await, before anything else that task could do. -/
inductive TaskStep {W E α β : Type} (c : Coroutine W E α β) (maxsize : Int) :
    View W E α β c.Pc → Label E → View W E α β c.Pc → Prop
  | start (v : View W E α β c.Pc) (now : v.task = ⟨.created, false⟩) :
      TaskStep c maxsize v .start { v with task := ⟨.running c.start, false⟩ }
  | get (v : View W E α β c.Pc) (pc : c.Pc) (next : Option α → c.Pc) (item : Option α)
      (rest : List (Option α)) (now : v.task = ⟨.running pc, false⟩)
      (act : c.act pc = .get next) (head : v.input.items = item :: rest) :
      TaskStep c maxsize v .get
        { v with input := { v.input with items := rest }, task := ⟨.running (next item), false⟩ }
  | put (v : View W E α β c.Pc) (pc next : c.Pc) (item : β)
      (now : v.task = ⟨.running pc, false⟩) (act : c.act pc = .put item next)
      (room : ¬ v.output.Full maxsize) :
      TaskStep c maxsize v .put
        { v with output := v.output.push (some item), task := ⟨.running next, false⟩ }
  | call (v : View W E α β c.Pc) (pc next : c.Pc) (returns : W → W → c.Pc → Prop)
      (raises : W → E → W → Prop) (world : W)
      (now : v.task = ⟨.running pc, false⟩) (act : c.act pc = .call returns raises)
      (result : returns v.world world next) :
      TaskStep c maxsize v .call { v with world := world, task := ⟨.running next, false⟩ }
  | raise (v : View W E α β c.Pc) (pc : c.Pc) (returns : W → W → c.Pc → Prop)
      (raises : W → E → W → Prop) (error : E) (world : W)
      (now : v.task = ⟨.running pc, false⟩) (act : c.act pc = .call returns raises)
      (result : raises v.world error world) :
      TaskStep c maxsize v (.raise error)
        { v with
          world := world
          task := ⟨c.close.leave (.raised error) v.output, false⟩
          output := c.close.markClosed (Exit.raised error) v.output }
  | ret (v : View W E α β c.Pc) (pc : c.Pc) (now : v.task = ⟨.running pc, false⟩)
      (act : c.act pc = .ret) :
      TaskStep c maxsize v .ret
        { v with
          task := ⟨c.close.leave .returned v.output, false⟩
          output := c.close.markClosed (E := E) .returned v.output }
  | close (v : View W E α β c.Pc) (exit : Exit E) (now : v.task = ⟨.closing exit, false⟩)
      (room : ¬ v.output.Full maxsize) :
      TaskStep c maxsize v .close
        { v with output := v.output.push none, task := ⟨.finished exit, false⟩ }
  | cancelCreated (v : View W E α β c.Pc) (now : v.task = ⟨.created, true⟩) :
      TaskStep c maxsize v .cancel { v with task := ⟨.finished .cancelled, false⟩ }
  | cancelRunning (v : View W E α β c.Pc) (pc : c.Pc) (now : v.task = ⟨.running pc, true⟩) :
      TaskStep c maxsize v .cancel
        { v with
          task := ⟨c.close.leave .cancelled v.output, false⟩
          output := c.close.markClosed (E := E) .cancelled v.output }
  | cancelClosing (v : View W E α β c.Pc) (exit : Exit E) (now : v.task = ⟨.closing exit, true⟩) :
      TaskStep c maxsize v .cancel { v with task := ⟨.finished .cancelled, false⟩ }

/-- Coroutine `i` reads channel `i` and writes channel `i + 1`. -/
structure Net (W E : Type) where
  size : Nat
  Item : Nat → Type
  code : (i : Nat) → Coroutine W E (Item i) (Item (i + 1))
  maxsize : Int

namespace Net

variable {W E : Type}

structure State (N : Net W E) where
  task : (i : Nat) → Task (N.code i).Pc E
  chan : (i : Nat) → Channel (N.Item i)
  world : W
  /-- The exceptions of the ended tasks, in the order in which they ended. -/
  errors : List E
  aborting : Bool

def init (N : Net W E) (world : W) : N.State where
  task _ := ⟨.created, false⟩
  chan _ := .empty
  world := world
  errors := []
  aborting := false

variable {N : Net W E}

def State.view (s : N.State) (i : Nat) : View W E (N.Item i) (N.Item (i + 1)) (N.code i).Pc :=
  ⟨s.chan i, s.task i, s.chan (i + 1), s.world⟩

def State.write (s : N.State) (i : Nat)
    (v : View W E (N.Item i) (N.Item (i + 1)) (N.code i).Pc) : N.State where
  task := Function.update s.task i v.task
  chan := Function.update (Function.update s.chan i v.input) (i + 1) v.output
  world := v.world
  errors := s.errors ++ v.task.error
  aborting := s.aborting

/-- The group asks every unfinished task to stop. -/
def State.cancelAll (s : N.State) : N.State :=
  { s with
    task := fun i => { s.task i with
      cancelRequested := match (s.task i).status with
        | .finished _ => (s.task i).cancelRequested
        | _ => true }
    aborting := true }

inductive StepLabel (E : Type) where
  | task (i : Nat) (label : Label E)
  | abort

inductive Step (N : Net W E) : N.State → StepLabel E → N.State → Prop
  | task (s : N.State) (i : Nat) (label : Label E)
      (v : View W E (N.Item i) (N.Item (i + 1)) (N.code i).Pc) (inside : i < N.size)
      (step : TaskStep (N.code i) N.maxsize (s.view i) label v) :
      Step N s (.task i label) (s.write i v)
  | abort (s : N.State) (fresh : s.aborting = false) (failed : s.errors ≠ []) :
      Step N s .abort s.cancelAll

/-- Runs all of whose steps are allowed in the state they leave. -/
def Reaches (N : Net W E) (allowed : N.State → StepLabel E → Prop) :
    N.State → N.State → Prop :=
  Relation.ReflTransGen (fun s t => ∃ label, allowed s label ∧ N.Step s label t)

/-- If some run comes by the state, some run gets to the goal. -/
def Leads (N : Net W E) (allowed : N.State → StepLabel E → Prop) (start : N.State)
    (Goal : N.State → Prop) (s : N.State) : Prop :=
  N.Reaches allowed start s → ∃ u, N.Reaches allowed start u ∧ Goal u

theorem Leads.step {N : Net W E} {allowed : N.State → StepLabel E → Prop} {start s t : N.State}
    {Goal : N.State → Prop} {label : StepLabel E} (step : N.Step s label t)
    (permitted : allowed s label) (rest : N.Leads allowed start Goal t) :
    N.Leads allowed start Goal s := fun run =>
  rest (run.tail ⟨label, permitted, step⟩)

/-- The group has ended: every task has. -/
def Ended (N : Net W E) (s : N.State) : Prop := ∀ i < N.size, (s.task i).Finished

end Net

end TaskNet
