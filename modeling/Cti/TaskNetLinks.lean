import Cti.TaskNet

set_option autoImplicit false

namespace TaskNet

variable {W E α β : Type}

theorem Channel.not_full_markClosed {maxsize : Int} {q : Channel α} (rule : CloseRule)
    (exit : Exit E) (room : ¬ q.Full maxsize) : ¬ (rule.markClosed exit q).Full maxsize := by
  unfold CloseRule.markClosed
  split <;> exact room

@[simp] theorem CloseRule.markClosed_items (rule : CloseRule) (exit : Exit E) (q : Channel α) :
    (rule.markClosed exit q).items = q.items := by
  unfold CloseRule.markClosed
  split <;> rfl

/-- Where a coroutine stands with respect to the end of its input: `eos pc` holds
once the end mark has been read. -/
structure StreamLaws (c : Coroutine W E α β) (eos : c.Pc → Prop) : Prop where
  get_open : ∀ {pc next}, c.act pc = .get next → ¬ eos pc
  get_some : ∀ {pc next} a, c.act pc = .get next → ¬ eos (next (some a))
  get_none : ∀ {pc next}, c.act pc = .get next → eos (next none)
  put_iff : ∀ {pc item next}, c.act pc = .put item next → (eos next ↔ eos pc)
  call_iff : ∀ {pc returns raises world world' next}, c.act pc = .call returns raises →
    returns world world' next → (eos next ↔ eos pc)
  ret_eos : ∀ {pc}, c.act pc = .ret → eos pc

/-- The task still has its end mark to read. -/
def Status.Awaits {Pc : Type} (eos : Pc → Prop) : Status Pc E → Prop
  | .created => True
  | .running pc => ¬ eos pc
  | _ => False

/-- The task has read its end mark and has not failed since. -/
def Status.SawEnd {Pc : Type} (eos : Pc → Prop) : Status Pc E → Prop
  | .running pc => eos pc
  | .closing .returned => True
  | .finished .returned => True
  | _ => False

/-- What holds at every moment between a producer, its channel and its consumer. -/
structure Link {P C : Type} (eos : C → Prop) (producer : Status P E) (q : Channel α)
    (consumer : Status C E) : Prop where
  sent : producer = .finished .returned → consumer.Awaits eos → none ∈ q.items
  seen : consumer.SawEnd eos → ∃ exit, producer = .finished exit
  mark : none ∈ q.items → ∃ exit, producer = .finished exit
  closed : q.closed = true →
    (∃ exit, producer = .closing exit) ∨ ∃ exit, producer = .finished exit
  shape : ∃ values : List α, q.items = values.map some ∨ q.items = values.map some ++ [none]

theorem Link.initial {P C : Type} (eos : C → Prop) :
    Link (E := E) (α := α) eos (.created : Status P E) .empty .created := by
  refine ⟨?_, ?_, ?_, ?_, ⟨[], Or.inl rfl⟩⟩
  · intro same; cases same
  · intro seen; cases seen
  · intro member; cases member
  · intro closed; cases closed

/-- Nothing follows the end mark. -/
theorem Link.rest_of_mark {P C : Type} {eos : C → Prop} {producer : Status P E}
    {q : Channel α} {consumer : Status C E} (link : Link eos producer q consumer)
    {rest : List (Option α)} (head : q.items = none :: rest) : rest = [] := by
  obtain ⟨values, plain | marked⟩ := link.shape
  · rw [head] at plain
    cases values <;> simp at plain
  · rw [head] at marked
    cases values with
    | nil => simpa using marked
    | cons value values => simp at marked

/-- An unfinished producer has sent no mark. -/
theorem Link.plain {P C : Type} {eos : C → Prop} {producer : Status P E} {q : Channel α}
    {consumer : Status C E} (link : Link eos producer q consumer)
    (unfinished : ∀ exit, producer ≠ .finished exit) : ∃ values : List α, q.items = values.map some := by
  obtain ⟨values, plain | marked⟩ := link.shape
  · exact ⟨values, plain⟩
  · obtain ⟨exit, finished⟩ := link.mark (by simp [marked])
    exact absurd finished (unfinished exit)

/-- A producer that sends nothing keeps the link as long as it has not returned. -/
theorem Link.producer_quiet {P C : Type} {eos : C → Prop} {producer producer' : Status P E}
    {q q' : Channel α} {consumer : Status C E} (link : Link eos producer q consumer)
    (unfinished : ∀ exit, producer ≠ .finished exit) (items : q'.items = q.items)
    (moved : producer' ≠ .finished .returned)
    (closed : q'.closed = true →
      (∃ exit, producer' = .closing exit) ∨ ∃ exit, producer' = .finished exit) :
    Link eos producer' q' consumer := by
  refine ⟨?_, ?_, ?_, closed, ?_⟩
  · intro same
    exact absurd same moved
  · intro seen
    obtain ⟨exit, finished⟩ := link.seen seen
    exact absurd finished (unfinished exit)
  · intro member
    obtain ⟨exit, finished⟩ := link.mark (items ▸ member)
    exact absurd finished (unfinished exit)
  · rw [items]
    exact link.shape

theorem Link.not_closed {P C : Type} {eos : C → Prop} {pc : P} {q : Channel α}
    {consumer : Status C E} (link : Link eos (.running pc) q consumer) : q.closed = false := by
  cases closed : q.closed
  · rfl
  · obtain ⟨exit, same⟩ | ⟨exit, same⟩ := link.closed closed <;> cases same

/-- Leaving the body keeps the link. Only a rule that closes on return may return. -/
theorem Link.producer_leave {P C : Type} {eos : C → Prop} {pc : P} {q : Channel α}
    {consumer : Status C E} (link : Link eos (.running pc) q consumer) (rule : CloseRule)
    (closes : rule ≠ .never) (exit : Exit E) :
    Link eos (rule.leave exit q : Status P E) (rule.markClosed exit q) consumer := by
  have fresh := link.not_closed
  apply link.producer_quiet
  · intro exit same; cases same
  · simp
  · unfold CloseRule.leave CloseRule.pending
    cases rule with
    | always => simp [CloseRule.closes, fresh]
    | onReturn => cases exit <;> simp [CloseRule.closes, fresh]
    | never => exact absurd rfl closes
  · intro closed
    unfold CloseRule.markClosed at closed
    unfold CloseRule.leave
    split at closed
    · rename_i pending
      exact Or.inl ⟨exit, by simp [pending]⟩
    · rw [fresh] at closed
      cases closed

/-- Every step of the producer keeps the link to its consumer. -/
theorem TaskStep.producer_link {C : Type} {c : Coroutine W E α β} {maxsize : Int}
    {v v' : View W E α β c.Pc} {label : Label E} (step : TaskStep c maxsize v label v')
    (closes : c.close ≠ .never) {eos : C → Prop} {consumer : Status C E}
    (link : Link eos v.task.status v.output consumer) :
    Link eos v'.task.status v'.output consumer := by
  cases step with
  | start now =>
      rw [now] at link
      refine link.producer_quiet (by simp) rfl (by simp) ?_
      intro closed
      obtain ⟨exit, same⟩ | ⟨exit, same⟩ := link.closed closed <;> cases same
  | get pc next item rest now act head =>
      rw [now] at link
      refine link.producer_quiet (by simp) rfl (by simp) ?_
      intro closed
      exact absurd closed (by simp [link.not_closed])
  | put pc next item now act room =>
      rw [now] at link
      obtain ⟨values, plain⟩ := link.plain (by simp)
      refine ⟨by simp, ?_, ?_, ?_, ?_⟩
      · intro seen
        obtain ⟨exit, same⟩ := link.seen seen
        cases same
      · intro member
        simp [Channel.push, plain] at member
      · intro closed
        exact absurd closed (by simpa [Channel.push] using link.not_closed)
      · exact ⟨values ++ [item], Or.inl (by simp [Channel.push, plain])⟩
  | call pc next returns raises world now act result =>
      rw [now] at link
      refine link.producer_quiet (by simp) rfl (by simp) ?_
      intro closed
      exact absurd closed (by simp [link.not_closed])
  | raise pc returns raises error world now act result =>
      rw [now] at link
      exact link.producer_leave c.close closes (.raised error)
  | ret pc now act =>
      rw [now] at link
      exact link.producer_leave c.close closes .returned
  | close exit now room =>
      rw [now] at link
      obtain ⟨values, plain⟩ := link.plain (by simp)
      refine ⟨?_, ?_, ?_, ?_, ⟨values, Or.inr (by simp [Channel.push, plain])⟩⟩
      · intro _ _
        simp [Channel.push]
      · intro _
        exact ⟨exit, rfl⟩
      · intro _
        exact ⟨exit, rfl⟩
      · intro _
        exact Or.inr ⟨exit, rfl⟩
  | cancelCreated now =>
      rw [now] at link
      refine link.producer_quiet (by simp) rfl (by simp) ?_
      intro _
      exact Or.inr ⟨.cancelled, rfl⟩
  | cancelRunning pc now =>
      rw [now] at link
      exact link.producer_leave c.close closes .cancelled
  | cancelClosing exit now =>
      rw [now] at link
      refine link.producer_quiet (by simp) rfl (by simp) ?_
      intro _
      exact Or.inr ⟨.cancelled, rfl⟩

/-- A consumer that reads nothing keeps the link when it learns nothing new. -/
theorem Link.consumer_quiet {P C : Type} {eos : C → Prop} {producer : Status P E}
    {q : Channel α} {consumer consumer' : Status C E} (link : Link eos producer q consumer)
    (awaits : consumer'.Awaits eos → consumer.Awaits eos)
    (saw : consumer'.SawEnd eos → consumer.SawEnd eos) : Link eos producer q consumer' :=
  ⟨fun same open' => link.sent same (awaits open'), fun seen => link.seen (saw seen),
    link.mark, link.closed, link.shape⟩

theorem CloseRule.not_awaits_leave {C : Type} (eos : C → Prop) (rule : CloseRule) (exit : Exit E)
    (q : Channel α) : ¬ (rule.leave exit q : Status C E).Awaits eos := by
  unfold CloseRule.leave
  split <;> simp [Status.Awaits]

theorem CloseRule.sawEnd_leave {C : Type} {eos : C → Prop} {rule : CloseRule} {exit : Exit E}
    {q : Channel α} (seen : (rule.leave exit q : Status C E).SawEnd eos) : exit = .returned := by
  unfold CloseRule.leave at seen
  cases exit <;> split at seen <;> simp [Status.SawEnd] at seen ⊢

/-- Every step of the consumer keeps the link to its producer. -/
theorem TaskStep.consumer_link {P : Type} {c : Coroutine W E α β} {maxsize : Int}
    {v v' : View W E α β c.Pc} {label : Label E} (step : TaskStep c maxsize v label v')
    {eos : c.Pc → Prop} (laws : StreamLaws c eos) (fresh : ¬ eos c.start)
    {producer : Status P E} (link : Link eos producer v.input v.task.status) :
    Link eos producer v'.input v'.task.status := by
  cases step with
  | start now =>
      rw [now] at link
      exact link.consumer_quiet (fun _ => trivial) (fun seen => absurd seen fresh)
  | get pc next item rest now act head =>
      rw [now] at link
      have awaits : (Status.running pc : Status c.Pc E).Awaits eos := laws.get_open act
      refine ⟨?_, ?_, ?_, link.closed, ?_⟩
      · intro same still
        have member := link.sent same awaits
        rw [head] at member
        cases item with
        | none => exact absurd (laws.get_none act) still
        | some a => simpa using member
      · intro seen
        cases item with
        | none => exact link.mark (by simp [head])
        | some a => exact absurd seen (laws.get_some a act)
      · intro member
        have member : none ∈ rest := member
        exact link.mark (by simp [head, member])
      · obtain ⟨values, plain | marked⟩ := link.shape
        · rw [head] at plain
          cases values with
          | nil => simp at plain
          | cons value values =>
              refine ⟨values, Or.inl ?_⟩
              simpa using (List.cons.inj plain).2
        · rw [head] at marked
          cases values with
          | nil => exact ⟨[], Or.inl (by simpa using (List.cons.inj marked).2)⟩
          | cons value values =>
              refine ⟨values, Or.inr ?_⟩
              simpa using (List.cons.inj marked).2
  | put pc next item now act room =>
      rw [now] at link
      refine link.consumer_quiet ?_ (laws.put_iff act).mp
      intro open' closed
      exact open' ((laws.put_iff act).mpr closed)
  | call pc next returns raises world now act result =>
      rw [now] at link
      refine link.consumer_quiet ?_ (laws.call_iff act result).mp
      intro open' closed
      exact open' ((laws.call_iff act result).mpr closed)
  | raise pc returns raises error world now act result =>
      refine link.consumer_quiet ?_ ?_
      · intro awaits
        exact absurd awaits (CloseRule.not_awaits_leave eos _ _ _)
      · intro seen
        cases CloseRule.sawEnd_leave seen
  | ret pc now act =>
      rw [now] at link
      refine link.consumer_quiet ?_ ?_
      · intro awaits
        exact absurd awaits (CloseRule.not_awaits_leave eos _ _ _)
      · intro _
        exact laws.ret_eos act
  | close exit now room =>
      rw [now] at link
      refine link.consumer_quiet (fun awaits => absurd awaits (by simp [Status.Awaits])) ?_
      intro seen
      cases exit with
      | returned => trivial
      | raised error => exact absurd seen (by simp [Status.SawEnd])
      | cancelled => exact absurd seen (by simp [Status.SawEnd])
  | cancelCreated now =>
      exact link.consumer_quiet (fun awaits => absurd awaits (by simp [Status.Awaits]))
        (fun seen => absurd seen (by simp [Status.SawEnd]))
  | cancelRunning pc now =>
      refine link.consumer_quiet ?_ ?_
      · intro awaits
        exact absurd awaits (CloseRule.not_awaits_leave eos _ _ _)
      · intro seen
        cases CloseRule.sawEnd_leave seen
  | cancelClosing exit now =>
      exact link.consumer_quiet (fun awaits => absurd awaits (by simp [Status.Awaits]))
        (fun seen => absurd seen (by simp [Status.SawEnd]))

end TaskNet
