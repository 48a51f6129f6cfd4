import Cti.TaskNetProgress

set_option autoImplicit false

/- What a run does to the world, and the part of a run before its source has answered. -/
namespace TaskNet

variable {W E α β : Type}

/-- A call, whether it returns or raises, relates the worlds around it. -/
def Action.Keeps {Pc : Type} (P : W → W → Prop) : Action W E α β Pc → Prop
  | .call returns raises =>
      (∀ world world' next, returns world world' next → P world world') ∧
        ∀ world error world', raises world error world' → P world world'
  | _ => True

/-- The same for a call that is made in one world. -/
def Action.KeepsAt {Pc : Type} (P : W → W → Prop) (world : W) : Action W E α β Pc → Prop
  | .call returns raises =>
      (∀ world' next, returns world world' next → P world world') ∧
        ∀ error world', raises world error world' → P world world'
  | _ => True

theorem Action.Keeps.at {Pc : Type} {P : W → W → Prop} {act : Action W E α β Pc}
    (keeps : act.Keeps P) (world : W) : act.KeepsAt P world := by
  cases act with
  | call returns raises => exact ⟨keeps.1 world, keeps.2 world⟩
  | _ => trivial

def Coroutine.Keeps (c : Coroutine W E α β) (P : W → W → Prop) : Prop := ∀ pc, (c.act pc).Keeps P

theorem Action.Keeps.mono {Pc : Type} {P Q : W → W → Prop} {act : Action W E α β Pc}
    (keeps : act.Keeps P) (weaker : ∀ {w w'}, P w w' → Q w w') : act.Keeps Q := by
  cases act with
  | call returns raises =>
      exact ⟨fun _ _ _ result => weaker (keeps.1 _ _ _ result),
        fun _ _ _ result => weaker (keeps.2 _ _ _ result)⟩
  | _ => trivial

theorem Coroutine.Keeps.mono {c : Coroutine W E α β} {P Q : W → W → Prop} (keeps : c.Keeps P)
    (weaker : ∀ {w w'}, P w w' → Q w w') : c.Keeps Q :=
  fun pc => (keeps pc).mono weaker

theorem TaskStep.keeps {c : Coroutine W E α β} {maxsize : Int} {v v' : View W E α β c.Pc}
    {label : Label E} {P : W → W → Prop} (step : TaskStep c maxsize v label v')
    (keeps : c.Keeps P) (refl : ∀ world, P world world) : P v.world v'.world := by
  cases step with
  | call pc next returns raises world now act result =>
      have kept := keeps pc
      rw [act] at kept
      exact kept.1 _ _ _ result
  | raise pc returns raises error world now act result =>
      have kept := keeps pc
      rw [act] at kept
      exact kept.2 _ _ _ result
  | _ => exact refl _

namespace Net

variable {N : Net W E}

/-- Nothing has come out of the source: every other stage is at its start. -/
structure Idle (s : N.State) : Prop where
  clean : s.errors = []
  fresh : s.aborting = false
  waiting : ∀ i, 0 < i → i < N.size →
    s.task i = ⟨.created, false⟩ ∨ s.task i = ⟨.running (N.code i).start, false⟩
  empty : ∀ i, (s.chan i).items = []

theorem init_idle (world : W) : Idle (N.init world) :=
  ⟨rfl, rfl, fun _ _ _ => Or.inl rfl, fun _ => rfl⟩

/-- A step that neither fails nor moves an item leaves the net idle. -/
theorem Idle.write {s : N.State} (idle : Idle s) {i : Nat}
    {v : View W E (N.Item i) (N.Item (i + 1)) (N.code i).Pc} (quiet : v.task.error = [])
    (input : v.input = s.chan i) (output : v.output = s.chan (i + 1))
    (waiting : 0 < i → v.task = ⟨.created, false⟩ ∨ v.task = ⟨.running (N.code i).start, false⟩) :
    Idle (s.write i v) where
  clean := (State.write_errors s i quiet).trans idle.clean
  fresh := idle.fresh
  waiting j positive inside := by
    by_cases self : j = i
    · subst self
      rw [State.write_task_self]
      exact waiting positive
    · rw [State.write_task_of_ne s self]
      exact idle.waiting j positive inside
  empty j := by
    by_cases last : j = i + 1
    · subst last
      rw [State.write_chan_output, output]
      exact idle.empty (i + 1)
    · by_cases first : j = i
      · subst first
        rw [State.write_chan_input, input]
        exact idle.empty j
      · rw [State.write_chan_of_ne s first last]
        exact idle.empty j

/-- As long as the net is idle, only the source does anything but start. -/
theorem Idle.step {s t : N.State} {label : StepLabel E} (idle : Idle s) (step : N.Step s label t)
    (waits : ∀ i, 0 < i → i < N.size → ∃ next, (N.code i).act (N.code i).start = .get next) :
    (∃ label v, TaskStep (N.code 0) N.maxsize (s.view 0) label v ∧ t = s.write 0 v) ∨
      Idle t ∧ t.task 0 = s.task 0 ∧ t.world = s.world := by
  cases step with
  | abort fresh failed => exact absurd idle.clean failed
  | task i label v inside step =>
      by_cases source : i = 0
      · subst source
        exact Or.inl ⟨label, v, step, rfl⟩
      · have positive : 0 < i := Nat.pos_of_ne_zero source
        have waiting : (s.view i).task = ⟨.created, false⟩ ∨
            (s.view i).task = ⟨.running (N.code i).start, false⟩ := idle.waiting i positive inside
        have empty : (s.view i).input.items = [] := idle.empty i
        have other : (0 : Nat) ≠ i := fun same => source same.symm
        obtain ⟨first, get⟩ := waits i positive inside
        have started : ∀ {pc}, (s.view i).task = ⟨.running pc, false⟩ →
            (N.code i).act pc = .get first := by
          intro pc now
          rw [now] at waiting
          rcases waiting with same | same
          · cases same
          · cases same
            exact get
        cases step with
        | start now =>
            exact Or.inr ⟨idle.write rfl rfl rfl fun _ => Or.inr rfl,
              State.write_task_of_ne s other _, rfl⟩
        | get pc next item rest now act head =>
            rw [empty] at head
            cases head
        | put pc next item now act room =>
            rw [started now] at act
            cases act
        | call pc next returns raises world now act result =>
            rw [started now] at act
            cases act
        | raise pc returns raises error world now act result =>
            rw [started now] at act
            cases act
        | ret pc now act =>
            rw [started now] at act
            cases act
        | close exit now room =>
            rw [now] at waiting
            rcases waiting with same | same <;> cases same
        | cancelCreated now =>
            rw [now] at waiting
            rcases waiting with same | same <;> cases same
        | cancelRunning pc now =>
            rw [now] at waiting
            rcases waiting with same | same <;> cases same
        | cancelClosing exit now =>
            rw [now] at waiting
            rcases waiting with same | same <;> cases same

end Net

end TaskNet
