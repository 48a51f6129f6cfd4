import Cti.TaskNetWorld

set_option autoImplicit false

/- Nets whose channels carry only items with a property. The property may depend on the world,
as long as what happens to the world does not end it. -/
namespace TaskNet

variable {W E α β : Type}

/-- What a coroutine relies on and guarantees: given good input it puts good output and takes
the world from one state to a later one. `Ok` holds of its positions. -/
structure Contract (c : Coroutine W E α β) (Later : W → W → Prop) (In : W → α → Prop)
    (Ok : W → c.Pc → Prop) (Out : W → β → Prop) : Prop where
  start : ∀ w, Ok w c.start
  get : ∀ {w pc next}, Ok w pc → c.act pc = .get next →
    Ok w (next none) ∧ ∀ item, In w item → Ok w (next (some item))
  put : ∀ {w pc item next}, Ok w pc → c.act pc = .put item next → Out w item ∧ Ok w next
  call : ∀ {w pc returns raises w' next}, Ok w pc → c.act pc = .call returns raises →
    returns w w' next → Later w w' → Ok w' next
  keeps : ∀ {w pc}, Ok w pc → (c.act pc).KeepsAt Later w

/-- A status at a position for which `Ok` holds, if it is at one. -/
def Status.At {Pc : Type} (Ok : Pc → Prop) : Status Pc E → Prop
  | .running pc => Ok pc
  | _ => True

theorem Status.At.mono {Pc : Type} {Ok Ok' : Pc → Prop} {status : Status Pc E}
    (at' : status.At Ok) (weaker : ∀ pc, Ok pc → Ok' pc) : status.At Ok' := by
  cases status with
  | running pc => exact weaker pc at'
  | _ => trivial

theorem Status.at_leave {γ Pc : Type} (Ok : Pc → Prop) (rule : CloseRule) (exit : Exit E)
    (q : Channel γ) : (rule.leave exit q : Status Pc E).At Ok := by
  unfold CloseRule.leave
  split <;> trivial

/-- A channel all of whose items are good. -/
def Channel.All (Good : α → Prop) (q : Channel α) : Prop := ∀ item, some item ∈ q.items → Good item

theorem Channel.All.mono {Good Good' : α → Prop} {q : Channel α} (all : q.All Good)
    (weaker : ∀ item, Good item → Good' item) : q.All Good' :=
  fun item member => weaker item (all item member)

theorem Channel.all_markClosed {Good : α → Prop} {q : Channel α} (all : q.All Good)
    (rule : CloseRule) (exit : Exit E) : (rule.markClosed exit q).All Good := by
  intro item member
  rw [CloseRule.markClosed_items] at member
  exact all item member

/-- One step of a coroutine that keeps its contract, seen by its own channels. -/
theorem TaskStep.contract {c : Coroutine W E α β} {maxsize : Int} {v v' : View W E α β c.Pc}
    {label : Label E} {Later : W → W → Prop} {In : W → α → Prop} {Ok : W → c.Pc → Prop}
    {Out : W → β → Prop} (step : TaskStep c maxsize v label v')
    (contract : Contract c Later In Ok Out) (refl : ∀ w, Later w w)
    (mono : ∀ {w w'}, Later w w' → ∀ item, Out w item → Out w' item)
    (status : v.task.status.At (Ok v.world)) (input : v.input.All (In v.world))
    (output : v.output.All (Out v.world)) :
    Later v.world v'.world ∧ v'.task.status.At (Ok v'.world) ∧
      (∀ item, some item ∈ v'.input.items → some item ∈ v.input.items) ∧
      v'.output.All (Out v'.world) := by
  cases step with
  | start now => exact ⟨refl _, contract.start _, fun _ => id, output⟩
  | get pc next item rest now act head =>
      rw [now] at status
      refine ⟨refl _, ?_, ?_, output⟩
      · obtain ⟨closed, opened⟩ := contract.get status act
        cases item with
        | none => exact closed
        | some item => exact opened item (input item (by rw [head]; exact List.mem_cons_self))
      · intro other member
        rw [head]
        exact List.mem_cons_of_mem item member
  | put pc next item now act room =>
      rw [now] at status
      obtain ⟨good, ok⟩ := contract.put status act
      refine ⟨refl _, ok, fun _ => id, ?_⟩
      intro other member
      rcases List.mem_append.mp member with old | new
      · exact output other old
      · cases List.mem_singleton.mp new
        exact good
  | call pc next returns raises world now act result =>
      rw [now] at status
      have kept := contract.keeps status
      rw [act] at kept
      have later := kept.1 _ _ result
      exact ⟨later, contract.call status act result later, fun _ => id, output.mono (mono later)⟩
  | raise pc returns raises error world now act result =>
      rw [now] at status
      have kept := contract.keeps status
      rw [act] at kept
      have later := kept.2 _ _ result
      exact ⟨later, Status.at_leave _ _ _ _, fun _ => id,
        Channel.all_markClosed (output.mono (mono later)) _ _⟩
  | ret pc now act =>
      exact ⟨refl _, Status.at_leave _ _ _ _, fun _ => id, Channel.all_markClosed output _ _⟩
  | close exit now room =>
      refine ⟨refl _, trivial, fun _ => id, ?_⟩
      intro other member
      rcases List.mem_append.mp member with old | new
      · exact output other old
      · cases List.mem_singleton.mp new
  | cancelCreated now => exact ⟨refl _, trivial, fun _ => id, output⟩
  | cancelRunning pc now =>
      exact ⟨refl _, Status.at_leave _ _ _ _, fun _ => id, Channel.all_markClosed output _ _⟩
  | cancelClosing exit now => exact ⟨refl _, trivial, fun _ => id, output⟩

namespace Net

variable {N : Net W E}

/-- Properties of the items of every channel and of the positions of every coroutine that the
coroutines keep for one another. -/
structure Typing (N : Net W E) where
  Later : W → W → Prop
  refl : ∀ w, Later w w
  trans : ∀ {w w' w''}, Later w w' → Later w' w'' → Later w w''
  Good : (i : Nat) → W → N.Item i → Prop
  good_mono : ∀ {i w w'}, Later w w' → ∀ item, Good i w item → Good i w' item
  Ok : (i : Nat) → W → (N.code i).Pc → Prop
  ok_mono : ∀ {i w w'}, Later w w' → ∀ pc, Ok i w pc → Ok i w' pc
  contract : ∀ i, i < N.size → Contract (N.code i) Later (Good i) (Ok i) (Good (i + 1))

/-- The net is as its typing says. -/
structure Typed (T : Typing N) (world : W) (s : N.State) : Prop where
  later : T.Later world s.world
  chan : ∀ i, (s.chan i).All (T.Good i s.world)
  task : ∀ i, i < N.size → (s.task i).status.At (T.Ok i s.world)

theorem Typed.step {T : Typing N} {world : W} {s t : N.State} {label : StepLabel E}
    (typed : Typed T world s) (step : N.Step s label t) : Typed T world t := by
  cases step with
  | abort fresh failed => exact ⟨typed.later, typed.chan, typed.task⟩
  | task i label v inside step =>
      obtain ⟨later, status, input, output⟩ := step.contract (T.contract i inside) T.refl
        T.good_mono (typed.task i inside) (typed.chan i) (typed.chan (i + 1))
      refine ⟨T.trans typed.later later, ?_, ?_⟩
      · intro j
        by_cases last : j = i + 1
        · subst last
          rw [State.write_chan_output]
          exact output
        · by_cases first : j = i
          · subst first
            rw [State.write_chan_input]
            exact fun item member => T.good_mono later item (typed.chan j item (input item member))
          · rw [State.write_chan_of_ne s first last]
            exact (typed.chan j).mono (T.good_mono later)
      · intro j inside'
        by_cases self : j = i
        · subst self
          rw [State.write_task_self]
          exact status
        · rw [State.write_task_of_ne s self]
          exact (typed.task j inside').mono (T.ok_mono later)

/-- Whatever fails in a run, its channels carry good items only. -/
theorem typed_reaches (T : Typing N) {allowed : N.State → StepLabel E → Prop} {world : W}
    {s : N.State} (run : N.Reaches allowed (N.init world) s) : Typed T world s := by
  induction run with
  | refl => exact ⟨T.refl world, fun _ _ member => (List.not_mem_nil member).elim, fun _ _ => trivial⟩
  | tail _ last ih =>
      obtain ⟨label, _, step⟩ := last
      exact ih.step step

end Net

end TaskNet
