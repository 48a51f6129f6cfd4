import Mathlib.Algebra.Order.BigOperators.Group.Finset
import Cti.TaskNetPrefix
import Cti.TaskNetTrace
import Cti.TaskNetTyping

set_option autoImplicit false

/- What bounded channels guarantee of a line of coroutines, whatever fails in the run: how much
it holds at most, and how far its log is behind its source. -/
namespace TaskNet

variable {W E α β γ Λ : Type}

section lists

/-- The second list begins with all of the first one but its last `n` items. -/
def Lags (n : Nat) (whole part : List α) : Prop := whole.take (whole.length - n) <+: part

variable {n m : Nat} {whole part rest : List α}

theorem Lags.mono (lags : Lags n whole part) (more : part <+: rest) : Lags n whole rest :=
  List.IsPrefix.trans lags more

theorem Lags.of_less (less : whole <+: part) : Lags n whole part :=
  (List.take_prefix _ _).trans less

theorem Lags.of_append (short : rest.length ≤ n) : Lags n (part ++ rest) part := by
  unfold Lags
  rw [List.take_append_of_le_length (by rw [List.length_append]; omega)]
  exact List.take_prefix _ _

theorem Lags.trans (first : Lags n whole part) (second : Lags m part rest) :
    Lags (n + m) whole rest := by
  have shorter : whole.length - n ≤ part.length := by
    have length := first.length_le
    rw [List.length_take] at length
    omega
  refine List.IsPrefix.trans ?_ second
  refine List.prefix_of_prefix_length_le ?_ (List.take_prefix _ _) ?_
  · refine List.IsPrefix.trans ?_ first
    rw [List.prefix_take_iff]
    exact ⟨List.take_prefix _ _, by rw [List.length_take]; omega⟩
  · simp only [List.length_take]
    omega

theorem Lags.dropLast : Lags 1 whole whole.dropLast :=
  (List.dropLast_eq_take : whole.dropLast = _) ▸ List.prefix_rfl

/-- A function of streams that appends at most one item for each further one. -/
def Steady (f : List α → List β) : Prop :=
  ∀ l r, ∃ more, f (l ++ r) = f l ++ more ∧ more.length ≤ r.length

theorem Steady.mono {f : List α → List β} (steady : Steady f) {l l' : List α} (less : l <+: l') :
    f l <+: f l' := by
  obtain ⟨r, rfl⟩ := less
  obtain ⟨more, same, _⟩ := steady l r
  exact ⟨more, same.symm⟩

theorem Steady.lags {f : List α → List β} (steady : Steady f) (lags : Lags n whole part) :
    Lags n (f whole) (f part) := by
  obtain ⟨more, same, short⟩ := steady (whole.take (whole.length - n))
    (whole.drop (whole.length - n))
  rw [List.take_append_drop] at same
  rw [List.length_drop] at short
  rw [same]
  exact (Lags.of_append (by omega)).mono (steady.mono lags)

theorem Steady.filterMap (f : α → Option β) : Steady (List.filterMap f) :=
  fun _ r => ⟨r.filterMap f, List.filterMap_append, List.length_filterMap_le f r⟩

theorem Steady.zipIdx (n : Nat) : Steady fun l : List α => l.zipIdx n :=
  fun l r => ⟨r.zipIdx (n + l.length), List.zipIdx_append, List.length_zipIdx.le⟩

theorem Steady.map (f : α → β) : Steady (List.map f) :=
  fun _ r => ⟨r.map f, List.map_append, (List.length_map f).le⟩

theorem Steady.comp {f : List α → List β} {g : List β → List γ} (outer : Steady g)
    (inner : Steady f) : Steady fun l => g (f l) := by
  intro l r
  obtain ⟨more, same, short⟩ := inner l r
  obtain ⟨more', same', short'⟩ := outer (f l) more
  exact ⟨more', (congrArg g same).trans same', short'.trans short⟩

end lists

/-- `f` is what a coroutine makes of what it takes. What it has made by now is seen in the world
and in what it has put. -/
structure Makes (c : Coroutine W E α β) (made : W → List β → List Λ)
    (f : c.Pc → List α → List Λ) : Prop where
  get_some : ∀ {pc next} a input, c.act pc = .get next → f pc (a :: input) = f (next (some a)) input
  get_none : ∀ {pc next}, c.act pc = .get next → f pc [] = f (next none) []
  put : ∀ {pc item next w} out input, c.act pc = .put item next →
    made w out ++ f pc input = made w (out ++ [item]) ++ f next input
  call : ∀ {pc returns raises w w' next} out input, c.act pc = .call returns raises →
    returns w w' next → made w out ++ f pc input = made w' out ++ f next input
  raise : ∀ {pc returns raises w error w'} out, c.act pc = .call returns raises →
    raises w error w' → made w' out = made w out

theorem Denotes.makes {c : Coroutine W E α β} {f : c.Pc → List α → List β}
    (denotes : Denotes c f) : Makes c (fun _ out => out) f where
  get_some := denotes.get_some
  get_none := denotes.get_none
  put out input act := by rw [denotes.put input act, List.append_assoc, List.singleton_append]
  call out input act result := by rw [denotes.call input act result]
  raise _ _ _ := rfl

theorem Emits.makes {c : Coroutine W E α β} {log : W → List Λ} {f : c.Pc → List α → List Λ}
    (emits : Emits c log f)
    (raise : ∀ {pc returns raises w error w'}, c.act pc = .call returns raises →
      raises w error w' → log w' = log w) : Makes c (fun w _ => log w) f where
  get_some := emits.get_some
  get_none := emits.get_none
  put out input act := by rw [emits.put input act]
  call out input act result := emits.call input act result
  raise _ act result := raise act result

/-- What a task has made of what it has taken, by the position where it is or was stopped. -/
def Status.Made {Pc : Type} (eos Ok : Pc → Prop) (start : Pc) (f : Pc → List α → List Λ)
    (taken : List α) (made : List Λ) : Status Pc E → Prop
  | .created => taken = [] ∧ made = []
  | .running pc =>
      Ok pc ∧ ∀ input, (eos pc → input = []) → made ++ f pc input = f start (taken ++ input)
  | .closing _ => ∃ pc, Ok pc ∧ made ++ f pc [] = f start taken
  | .finished _ => ∃ pc, Ok pc ∧ made ++ f pc [] = f start taken

/-- Positions that a coroutine does not leave, whatever it takes and whatever is answered. -/
abbrev Coroutine.Stays (c : Coroutine W E α β) (Ok : c.Pc → Prop) : Prop :=
  Contract c (fun _ _ => True) (fun _ _ => True) (fun _ => Ok) (fun _ _ => True)

theorem Coroutine.keeps_of {c : Coroutine W E α β} {P : W → W → Prop}
    (call : ∀ {pc returns raises w w' next}, c.act pc = .call returns raises →
      returns w w' next → P w w')
    (raise : ∀ {pc returns raises w error w'}, c.act pc = .call returns raises →
      raises w error w' → P w w') : c.Keeps P := by
  intro pc
  cases act : c.act pc with
  | call returns raises => exact ⟨fun _ _ _ => call act, fun _ _ _ => raise act⟩
  | _ => trivial

theorem Action.keepsAt_true {Pc : Type} (act : Action W E α β Pc) (w : W) :
    act.KeepsAt (fun _ _ => True) w := by
  cases act with
  | call returns raises => exact ⟨fun _ _ _ => trivial, fun _ _ _ => trivial⟩
  | _ => trivial

/-- Positions that no law mentions are all as good. -/
theorem Coroutine.stays_true (c : Coroutine W E α β) : c.Stays fun _ => True where
  start _ := trivial
  get _ _ := ⟨trivial, fun _ _ => trivial⟩
  put _ _ := ⟨trivial, trivial⟩
  call _ _ _ _ := trivial
  keeps _ := Action.keepsAt_true _ _

section task

variable {c : Coroutine W E α β} {maxsize : Int} {v v' : View W E α β c.Pc} {label : Label E}
  {eos Ok : c.Pc → Prop} {seen : W → List β → List Λ} {f : c.Pc → List α → List Λ}
  {taken : List α} {put : List β}

theorem Status.Made.running {Pc : Type} {eos Ok : Pc → Prop} {start pc : Pc}
    {f : Pc → List α → List Λ} {made : List Λ}
    (before : (.running pc : Status Pc E).Made eos Ok start f taken made) :
    made ++ f pc [] = f start taken := by
  simpa using before.2 [] fun _ => rfl

theorem Status.made_leave {γ Pc : Type} {eos Ok : Pc → Prop} {start pc : Pc}
    {f : Pc → List α → List Λ} {made : List Λ} (ok : Ok pc)
    (same : made ++ f pc [] = f start taken) (rule : CloseRule) (exit : Exit E) (q : Channel γ) :
    (rule.leave exit q : Status Pc E).Made eos Ok start f taken made := by
  unfold CloseRule.leave
  split
  · exact ⟨pc, ok, same⟩
  · exact ⟨pc, ok, same⟩

theorem Status.Made.lags {Pc : Type} {eos Ok : Pc → Prop} {start : Pc}
    {f : Pc → List α → List Λ} {made : List Λ} {status : Status Pc E} {slack : Nat}
    (before : status.Made eos Ok start f taken made) (empty : f start [] = [])
    (short : ∀ pc, Ok pc → (f pc []).length ≤ slack) : Lags slack (f start taken) made := by
  have position : ∀ pc, Ok pc → made ++ f pc [] = f start taken →
      Lags slack (f start taken) made := by
    intro pc ok same
    rw [← same]
    exact .of_append (short pc ok)
  cases status with
  | created =>
      obtain ⟨rfl, rfl⟩ := before
      rw [empty]
      exact .of_less List.nil_prefix
  | running pc => exact position pc before.1 before.running
  | closing exit =>
      obtain ⟨pc, ok, same⟩ := before
      exact position pc ok same
  | finished exit =>
      obtain ⟨pc, ok, same⟩ := before
      exact position pc ok same

/-- One step, by what the task takes and puts. -/
theorem TaskStep.made (step : TaskStep c maxsize v label v') (put : List β)
    (laws : StreamLaws c eos) (makes : Makes c seen f) (stays : c.Stays Ok)
    (before : v.task.status.Made eos Ok c.start f taken (seen v.world (put ++ v.output.data))) :
    v'.task.status.Made eos Ok c.start f (taken ++ v.taken v')
      (seen v'.world (put ++ v'.output.data)) := by
  cases step with
  | start now =>
      rw [now] at before
      obtain ⟨rfl, empty⟩ := before
      refine ⟨stays.start v.world, fun input _ => ?_⟩
      simp [View.taken, empty]
  | get pc next item rest now act head =>
      rw [now] at before
      obtain ⟨ok, flow⟩ := before
      obtain ⟨closed, opened⟩ := stays.get (w := v.world) ok act
      have reading := laws.get_open act
      cases item with
      | none =>
          refine ⟨closed, fun input ending => ?_⟩
          rw [ending (laws.get_none act)]
          have last := flow [] fun _ => rfl
          rw [makes.get_none act] at last
          simpa [View.taken, Channel.data, head] using last
      | some a =>
          refine ⟨opened a trivial, fun input _ => ?_⟩
          have more := flow (a :: input) fun read => absurd read reading
          rw [makes.get_some a input act] at more
          simpa [View.taken, Channel.data, head] using more
  | put pc next item now act room =>
      rw [now] at before
      obtain ⟨ok, flow⟩ := before
      refine ⟨(stays.put (w := v.world) ok act).2, fun input ending => ?_⟩
      have same := flow input fun read => ending ((laws.put_iff act).mpr read)
      rw [makes.put _ _ act] at same
      simpa [View.taken] using same
  | call pc next returns raises world now act result =>
      rw [now] at before
      obtain ⟨ok, flow⟩ := before
      refine ⟨stays.call ok act result trivial, fun input ending => ?_⟩
      have same := flow input fun read => ending ((laws.call_iff act result).mpr read)
      rw [makes.call _ _ act result] at same
      simpa [View.taken] using same
  | raise pc returns raises error world now act result =>
      rw [now] at before
      refine Status.made_leave before.1 ?_ _ _ _
      have same := before.running
      simpa [View.taken, makes.raise _ act result] using same
  | ret pc now act =>
      rw [now] at before
      refine Status.made_leave before.1 ?_ _ _ _
      simpa [View.taken] using before.running
  | close exit now room =>
      rw [now] at before
      obtain ⟨pc, ok, same⟩ := before
      exact ⟨pc, ok, by simpa [View.taken] using same⟩
  | cancelCreated now =>
      rw [now] at before
      obtain ⟨rfl, empty⟩ := before
      refine ⟨c.start, stays.start v.world, ?_⟩
      simp [View.taken, empty]
  | cancelRunning pc now =>
      rw [now] at before
      refine Status.made_leave before.1 ?_ _ _ _
      simpa [View.taken] using before.running
  | cancelClosing exit now =>
      rw [now] at before
      obtain ⟨pc, ok, same⟩ := before
      exact ⟨pc, ok, by simpa [View.taken] using same⟩

theorem View.taken_some {Pc : Type} {v v' : View W E α β Pc} {a : α}
    (head : v.input.items = some a :: v'.input.items) : v.taken v' = [a] := by
  simp [View.taken, Channel.data, head]

/-- What a step adds to the output. -/
theorem TaskStep.output_data (step : TaskStep c maxsize v label v') :
    v'.output.data = v.output.data ++ label.put? v'.output := by
  cases step with
  | put pc next item now act room =>
      have pushed : Label.put? (E := E) .put (v.output.push (some item)) = [item] := by
        simp [Label.put?, Channel.push]
      rw [pushed]
      exact Channel.data_push_some _ _
  | _ => simp [Label.put?]

/-- A stage that holds nothing when it takes its next item has handled all the others. -/
theorem TaskStep.prompt {g : c.Pc → List α → List β} (step : TaskStep c maxsize v label v')
    (waits : ∀ {pc next}, c.act pc = .get next → g pc [] = [])
    (before : v.task.status.Made eos Ok c.start g taken (put ++ v.output.data))
    (handled : g c.start taken.dropLast <+: put ++ v.output.data) :
    g c.start (taken ++ v.taken v').dropLast <+: put ++ v'.output.data := by
  have quiet : v.taken v' = [] → g c.start (taken ++ v.taken v').dropLast <+:
      put ++ v'.output.data := by
    intro none
    rw [none, List.append_nil, step.output_data, ← List.append_assoc]
    exact handled.trans (List.prefix_append _ _)
  cases step with
  | get pc next item rest now act head =>
      cases item with
      | none => exact quiet (by simp [View.taken, Channel.data, head])
      | some a =>
          rw [now] at before
          have all := before.running
          rw [waits act, List.append_nil] at all
          have one : v.taken { v with
              input := { v.input with items := rest }
              task := ⟨.running (next (some a)), false⟩ } = [a] := View.taken_some head
          rw [one, List.dropLast_concat]
          exact all ▸ List.prefix_rfl
  | _ => exact quiet (by simp [View.taken])

theorem TaskStep.stopped_output (step : TaskStep c maxsize v label v')
    (stopped : v'.task.status.Stopped) : v'.output.data = v.output.data := by
  cases step with
  | put pc next item now act room => exact stopped.elim
  | _ => simp

theorem TaskStep.output_bounded (step : TaskStep c maxsize v label v') (positive : 0 < maxsize)
    (bounded : v.output.items.length ≤ maxsize.toNat) :
    v'.output.items.length ≤ maxsize.toNat := by
  have push : ∀ item, ¬ v.output.Full maxsize →
      (v.output.push item).items.length ≤ maxsize.toNat := by
    intro item room
    have below : (v.output.items.length : Int) < maxsize := by
      by_contra full
      exact room ⟨positive, by omega⟩
    simp only [Channel.push, List.length_append, List.length_singleton]
    omega
  cases step with
  | put pc next item now act room => exact push (some item) room
  | close exit now room => exact push none room
  | raise pc returns raises error world now act result =>
      simpa using bounded
  | ret pc now act => simpa using bounded
  | cancelRunning pc now => simpa using bounded
  | _ => exact bounded

end task

/-- How much a task holds: nothing before it has started and after it has left its body. -/
def Status.size {Pc : Type} (size : Pc → Nat) : Status Pc E → Nat
  | .running pc => size pc
  | _ => 0

theorem Status.At.size_le {Pc : Type} {Ok : Pc → Prop} {status : Status Pc E} (at' : status.At Ok)
    {size : Pc → Nat} {bound : Nat} (fits : ∀ pc, Ok pc → size pc ≤ bound) :
    status.size size ≤ bound := by
  cases status with
  | running pc => exact fits pc at'
  | _ => exact Nat.zero_le _

namespace Net

variable {N : Net W E}

/-- A producer waits for room, so no channel ever holds more than its bound. -/
theorem chan_bounded (positive : 0 < N.maxsize) {allowed : N.State → StepLabel E → Prop}
    {world : W} {s : N.State} (run : N.Reaches allowed (N.init world) s) (i : Nat) :
    (s.chan i).items.length ≤ N.maxsize.toNat := by
  induction run with
  | refl => exact Nat.zero_le _
  | tail _ last ih =>
      obtain ⟨label, _, step⟩ := last
      cases step with
      | abort fresh failed => exact ih
      | task j label v inside step =>
          by_cases output : i = j + 1
          · subst output
            rw [State.write_chan_output]
            exact step.output_bounded positive ih
          · by_cases input : i = j
            · subst input
              rw [State.write_chan_input]
              exact step.input_length.trans ih
            · rw [State.write_chan_of_ne _ input output]
              exact ih

/-- Sizes of what the stages hold, each with a bound that its stage keeps to. -/
structure Sized (N : Net W E) where
  Ok : (i : Nat) → (N.code i).Pc → Prop
  stays : ∀ i < N.size, (N.code i).Stays (Ok i)
  size : (i : Nat) → (N.code i).Pc → Nat
  capacity : Nat → Nat
  fits : ∀ i < N.size, ∀ pc, Ok i pc → size i pc ≤ capacity i

namespace Sized

variable (Z : Sized N)

def typing : N.Typing where
  Later _ _ := True
  refl _ := trivial
  trans _ _ := trivial
  Good _ _ _ := True
  good_mono _ _ _ := trivial
  Ok i _ := Z.Ok i
  ok_mono _ _ ok := ok
  contract i inside := Z.stays i inside

/-- Everything that is in the queues and in the hands of the stages. -/
def load (s : N.State) : Nat :=
  ∑ i ∈ Finset.range N.size, (s.task i).status.size (Z.size i) +
    ∑ i ∈ Finset.range (N.size - 1), (s.chan (i + 1)).items.length

/-- Whatever fails in a run, the load never exceeds what the stages and the queues are made
for. -/
theorem load_bounded (positive : 0 < N.maxsize) {allowed : N.State → StepLabel E → Prop}
    {world : W} {s : N.State} (run : N.Reaches allowed (N.init world) s) :
    Z.load s ≤ ∑ i ∈ Finset.range N.size, Z.capacity i + (N.size - 1) * N.maxsize.toNat := by
  have typed := typed_reaches Z.typing run
  have stages : ∀ i ∈ Finset.range N.size, (s.task i).status.size (Z.size i) ≤ Z.capacity i := by
    intro i member
    have inside := Finset.mem_range.mp member
    exact (typed.task i inside).size_le fun pc ok => Z.fits i inside pc ok
  have queues : ∑ i ∈ Finset.range (N.size - 1), (s.chan (i + 1)).items.length ≤
      (N.size - 1) * N.maxsize.toNat := by
    have each := Finset.sum_le_card_nsmul (Finset.range (N.size - 1))
      (fun i => (s.chan (i + 1)).items.length) N.maxsize.toNat
      fun i _ => chan_bounded positive run (i + 1)
    rw [Finset.card_range] at each
    exact each
  exact Nat.add_le_add (Finset.sum_le_sum stages) queues

end Sized

/-- Everything that stage `i` has put, by what the next stage has taken of it. -/
def State.handed (s : N.State) (taken : (i : Nat) → List (N.Item i)) (i : Nat) :
    List (N.Item (i + 1)) :=
  taken (i + 1) ++ (s.chan (i + 1)).data

/-- What the stages have taken after a step of stage `i`. -/
def takenAfter (s : N.State) (taken : (i : Nat) → List (N.Item i)) (i : Nat)
    (v : View W E (N.Item i) (N.Item (i + 1)) (N.code i).Pc) : (i : Nat) → List (N.Item i) :=
  Function.update taken i (taken i ++ (s.view i).taken v)

section handed

variable {s : N.State} {taken : (i : Nat) → List (N.Item i)} {i : Nat} {label : Label E}
  {v : View W E (N.Item i) (N.Item (i + 1)) (N.code i).Pc}

theorem takenAfter_self : takenAfter s taken i v i = taken i ++ (s.view i).taken v :=
  Function.update_self ..

theorem takenAfter_of_ne {j : Nat} (other : j ≠ i) : takenAfter s taken i v j = taken j :=
  Function.update_of_ne other ..

theorem handed_self : (s.write i v).handed (takenAfter s taken i v) i =
    taken (i + 1) ++ v.output.data := by
  unfold State.handed
  rw [takenAfter_of_ne (by omega), State.write_chan_output]

/-- A stage that takes an item changes nothing in what has been put before it. -/
theorem handed_of_ne (step : TaskStep (N.code i) N.maxsize (s.view i) label v) {j : Nat}
    (other : j ≠ i) : (s.write i v).handed (takenAfter s taken i v) j = s.handed taken j := by
  unfold State.handed
  by_cases reader : j + 1 = i
  · subst reader
    have same : (s.chan (j + 1)).data = (s.view (j + 1)).taken v ++ v.input.data :=
      step.taken_append
    rw [takenAfter_self, State.write_chan_input, same, List.append_assoc]
  · rw [takenAfter_of_ne reader, State.write_chan_of_ne s reader (by omega)]

end handed

/-- A meaning whose source holds one item at most, whose stages are ready with an item before
they take the next one, and whose last stage logs all but `slack` of its items. -/
structure Meaning.Paced (D : Meaning N Λ) (Ok : (N.code (D.stage + 1)).Pc → Prop)
    (slack : Nat) : Prop where
  single : ∀ pc, (D.held pc).length ≤ 1
  empty : ∀ {i}, 0 < i → i ≤ D.stage → D.rest i (N.code i).start [] = []
  waits : ∀ {i}, 0 < i → i ≤ D.stage → ∀ {pc next}, (N.code i).act pc = .get next →
    D.rest i pc [] = []
  steady : ∀ {i}, 1 < i → i ≤ D.stage → Steady (D.rest i (N.code i).start)
  empty_emit : D.emit (N.code (D.stage + 1)).start [] = []
  steady_emit : Steady (D.emit (N.code (D.stage + 1)).start)
  stays : (N.code (D.stage + 1)).Stays Ok
  short : ∀ pc, Ok pc → (D.emit pc []).length ≤ slack

/-- What every stage has made of what it has taken. -/
structure Traffic (D : Meaning N Λ) (L : Lawful N) (Ok : (N.code (D.stage + 1)).Pc → Prop)
    (s : N.State) (taken : (i : Nat) → List (N.Item i)) : Prop where
  source : ∃ rest, D.sourced s.world = s.handed taken 0 ++ rest ∧ rest.length ≤ 1 ∧
    (s.task 0).status.Owing D.held rest
  stage : ∀ i, 0 < i → i ≤ D.stage →
    (s.task i).status.Made (L.eos i) (fun _ => True) (N.code i).start (D.rest i) (taken i)
      (s.handed taken i)
  prompt : ∀ i, 0 < i → i ≤ D.stage →
    D.rest i (N.code i).start (taken i).dropLast <+: s.handed taken i
  log : (s.task (D.stage + 1)).status.Made (L.eos (D.stage + 1)) Ok
    (N.code (D.stage + 1)).start D.emit (taken (D.stage + 1)) (D.log s.world)

section traffic

variable {D : Meaning N Λ} {L : Lawful N} {Ok : (N.code (D.stage + 1)).Pc → Prop} {slack : Nat}

theorem init_traffic (paced : D.Paced Ok slack) {world : W} (log : D.log world = [])
    (sourced : D.sourced world = []) : Traffic D L Ok (N.init world) fun _ => [] where
  source := ⟨[], sourced, Nat.zero_le _, rfl⟩
  stage _ _ _ := ⟨rfl, rfl⟩
  prompt i positive below := by
    rw [List.dropLast_nil, paced.empty positive below]
    exact List.nil_prefix
  log := ⟨rfl, log⟩

/-- The source puts what it sources, in order. -/
theorem Meaning.Monotone.owes (mono : D.Monotone) (L : Lawful N) :
    Owes (N.code 0) D.sourced D.held where
  start := D.held_start
  get act := absurd act (L.source _ _)
  put act := D.held_put act
  call act result := D.held_call act result
  raise act result := (mono.raise (by have := D.stage_inside; omega) act result).1

theorem Meaning.Monotone.sourced_kept (mono : D.Monotone) {i : Nat} (positive : 0 < i)
    (inside : i < N.size) : (N.code i).Keeps fun w w' => D.sourced w' = D.sourced w :=
  Coroutine.keeps_of (fun act result => D.sourced_call positive inside act result)
    fun act result => (mono.raise inside act result).1

theorem Meaning.Monotone.log_kept (mono : D.Monotone) {i : Nat} (other : i ≠ D.stage + 1)
    (inside : i < N.size) : (N.code i).Keeps fun w w' => D.log w' = D.log w :=
  Coroutine.keeps_of (fun act result => D.log_call other inside act result)
    fun act result => (mono.raise inside act result).2

/-- A step of the source: it never holds more than one item that it has not put. -/
theorem Traffic.step_source {s : N.State} {taken : (i : Nat) → List (N.Item i)}
    (traffic : Traffic D L Ok s taken) (mono : D.Monotone)
    (single : ∀ pc, (D.held pc).length ≤ 1) {label : Label E}
    {v : View W E (N.Item 0) (N.Item 1) (N.code 0).Pc}
    (step : TaskStep (N.code 0) N.maxsize (s.view 0) label v) :
    ∃ rest, D.sourced v.world = taken 1 ++ v.output.data ++ rest ∧ rest.length ≤ 1 ∧
      v.task.status.Owing D.held rest := by
  obtain ⟨rest, sourced, short, owing⟩ := traffic.source
  obtain ⟨rest', logged, owing'⟩ := step.owing (mono.owes L) sourced owing
  have put : D.sourced v.world = taken 1 ++ v.output.data ++ rest' := by
    rw [logged, step.output_data, ← List.append_assoc]
    rfl
  refine ⟨rest', put, ?_, owing'⟩
  have ended : v.task.status.Stopped → rest'.length ≤ 1 := by
    intro stopped
    have same := (mono.stopped (by have := D.stage_inside; omega) step stopped).1
    change D.sourced v.world = D.sourced s.world at same
    rw [put, step.stopped_output stopped, sourced] at same
    rw [List.append_cancel_left same]
    exact short
  cases status : v.task.status with
  | created =>
      rw [status] at owing'
      rw [show rest' = [] from owing']
      exact Nat.zero_le _
  | running pc =>
      rw [status] at owing'
      rw [show rest' = D.held pc from owing']
      exact single pc
  | closing exit => exact ended (by rw [status]; trivial)
  | finished exit => exact ended (by rw [status]; trivial)

theorem Traffic.step_task {s : N.State} {taken : (i : Nat) → List (N.Item i)}
    (traffic : Traffic D L Ok s taken) (mono : D.Monotone) (paced : D.Paced Ok slack) {i : Nat}
    {label : Label E} {v : View W E (N.Item i) (N.Item (i + 1)) (N.code i).Pc} (inside : i < N.size)
    (step : TaskStep (N.code i) N.maxsize (s.view i) label v) :
    Traffic D L Ok (s.write i v) (takenAfter s taken i v) where
  source := by
    by_cases self : i = 0
    · subst self
      rw [handed_self, State.write_task_self]
      exact traffic.step_source mono paced.single step
    · have kept := step.keeps (mono.sourced_kept (Nat.pos_of_ne_zero self) inside) fun _ => rfl
      rw [handed_of_ne step (Ne.symm self), State.write_task_of_ne s (Ne.symm self)]
      obtain ⟨rest, sourced, others⟩ := traffic.source
      exact ⟨rest, kept.trans sourced, others⟩
  stage j positive below := by
    by_cases self : j = i
    · subst self
      rw [handed_self, takenAfter_self, State.write_task_self]
      exact step.made _ (L.laws j positive inside) (D.denotes j positive inside).makes
        (Coroutine.stays_true _) (traffic.stage j positive below)
    · rw [handed_of_ne step self, takenAfter_of_ne self, State.write_task_of_ne s self]
      exact traffic.stage j positive below
  prompt j positive below := by
    by_cases self : j = i
    · subst self
      rw [handed_self, takenAfter_self]
      exact step.prompt (paced.waits positive below) (traffic.stage j positive below)
        (traffic.prompt j positive below)
    · rw [handed_of_ne step self, takenAfter_of_ne self]
      exact traffic.prompt j positive below
  log := by
    by_cases self : i = D.stage + 1
    · subst self
      rw [takenAfter_self, State.write_task_self]
      have makes := D.emits.makes fun act result => (mono.raise inside act result).2
      exact step.made [] (L.laws _ (Nat.succ_pos _) inside) makes paced.stays traffic.log
    · have kept := step.keeps (mono.log_kept self inside) fun _ => rfl
      rw [takenAfter_of_ne (Ne.symm self), State.write_task_of_ne s (Ne.symm self)]
      change Status.Made _ _ _ _ _ (D.log v.world) _
      rw [show D.log v.world = D.log s.world from kept]
      exact traffic.log

theorem Traffic.reaches (mono : D.Monotone) (paced : D.Paced Ok slack)
    {allowed : N.State → StepLabel E → Prop} {world : W} (log : D.log world = [])
    (sourced : D.sourced world = []) {s : N.State} (run : N.Reaches allowed (N.init world) s) :
    ∃ taken, Traffic D L Ok s taken := by
  induction run with
  | refl => exact ⟨_, init_traffic paced log sourced⟩
  | tail _ last ih =>
      obtain ⟨taken, traffic⟩ := ih
      obtain ⟨label, _, step⟩ := last
      cases step with
      | abort fresh failed =>
          exact ⟨taken, ⟨traffic.source, traffic.stage, traffic.prompt, traffic.log⟩⟩
      | task i label v inside step => exact ⟨_, traffic.step_task mono paced inside step⟩

end traffic

end Net

end TaskNet
