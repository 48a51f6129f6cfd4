import Cti.Fanout
import Cti.Pipeline

set_option autoImplicit false

/- The loop of the publish stage, read as the list of its flushes. -/
namespace TaskNet

variable {W E α β : Type}

/-- One call of a coroutine that nobody cancels, over an input that is all there. -/
def Coroutine.Run (c : Coroutine W E α β) (maxsize : Int) (input : List α) (w : W)
    (exit : Exit E) (w' : W) : Prop :=
  ∃ v : View W E α β c.Pc,
    Relation.ReflTransGen (fun u v => ∃ label, TaskStep c maxsize u label v)
      ⟨⟨input.map some ++ [none], true⟩, ⟨.created, false⟩, .empty, w⟩ v ∧
      v.task.status = .finished exit ∧ v.world = w'

end TaskNet

namespace Cti

open Py (Str)
open TaskNet (Coroutine TaskStep View Label Status Channel)
open Fanout (offers leftovers flushes)

section flushes

variable {S : Type} {ctx : RunContext}

/-- Flushes, one after the other, that all return. -/
inductive Flushed (ctx : RunContext) : List (Plugin.Publisher S × List Sighting) → S → S → Prop
  | nil (s : S) : Flushed ctx [] s s
  | cons {publisher : Plugin.Publisher S} {batch : List Sighting}
      {rest : List (Plugin.Publisher S × List Sighting)} {s s' s'' : S} :
      (flush publisher (fun _ => batch) ctx).returns s () s' → Flushed ctx rest s' s'' →
        Flushed ctx ((publisher, batch) :: rest) s s''

theorem Flushed.head {publisher : Plugin.Publisher S} {batch : List Sighting}
    {rest : List (Plugin.Publisher S × List Sighting)} {s s'' : S}
    (all : Flushed ctx ((publisher, batch) :: rest) s s'') :
    ∃ s', (flush publisher (fun _ => batch) ctx).returns s () s' ∧ Flushed ctx rest s' s'' := by
  cases all with
  | cons returned later => exact ⟨_, returned, later⟩

theorem Flushed.append {first second : List (Plugin.Publisher S × List Sighting)} {s s' s'' : S}
    (begun : Flushed ctx first s s') (rest : Flushed ctx second s' s'') :
    Flushed ctx (first ++ second) s s'' := by
  induction begun with
  | nil => exact rest
  | cons flushed _ ih => exact .cons flushed (ih rest)

theorem Flushed.split {first second : List (Plugin.Publisher S × List Sighting)} {s s'' : S}
    (all : Flushed ctx (first ++ second) s s'') :
    ∃ s', Flushed ctx first s s' ∧ Flushed ctx second s' s'' := by
  induction first generalizing s with
  | nil => exact ⟨s, .nil s, all⟩
  | cons entry first ih =>
      cases all with
      | cons flushed later =>
          obtain ⟨s', begun, rest⟩ := ih later
          exact ⟨s', .cons flushed begun, rest⟩

end flushes

section loop

variable {S : Type} (publishers : List (Plugin.Publisher S)) (batchSize : Int)

/-- What the stage still flushes when it has the rest of the input still to read. -/
def publishPending : PublishPc S → List Sighting → List (Plugin.Publisher S × List Sighting)
  | .draining, _ => []
  | .waiting batches, input => flushes Plugin.Publisher.name batchSize publishers input batches
  | .flushing publisher rest pair batches, input =>
      let offered := offers Plugin.Publisher.name batchSize pair rest
        (Function.update batches publisher.name [])
      (publisher, batches publisher.name) ::
        (offered.1 ++ flushes Plugin.Publisher.name batchSize publishers input offered.2)
  | .finishing publisher rest batches, _ =>
      (publisher, batches publisher.name) ::
        leftovers Plugin.Publisher.name rest (Function.update batches publisher.name [])
  | .done, _ => []

/-- All flushes of a call. -/
def publishFlushes (input : List Sighting) : List (Plugin.Publisher S × List Sighting) :=
  flushes Plugin.Publisher.name batchSize publishers input fun _ => []

theorem publishPending_offer (pair : Sighting) (rest : List (Plugin.Publisher S))
    (batches : Batches) (input : List Sighting) :
    publishPending publishers batchSize (offer batchSize pair rest batches) input =
      (offers Plugin.Publisher.name batchSize pair rest batches).1 ++
        flushes Plugin.Publisher.name batchSize publishers input
          (offers Plugin.Publisher.name batchSize pair rest batches).2 := by
  induction rest generalizing batches with
  | nil => rfl
  | cons publisher rest ih =>
      rw [offer, offers]
      dsimp only
      split
      · simp only [publishPending, Function.update_self, Function.update_idem, List.cons_append]
      · exact ih _

theorem publishPending_finish (rest : List (Plugin.Publisher S)) (batches : Batches)
    (input : List Sighting) :
    publishPending publishers batchSize (finish rest batches) input =
      leftovers Plugin.Publisher.name rest batches := by
  induction rest with
  | nil => rfl
  | cons publisher rest ih =>
      rw [finish, leftovers]
      split
      · exact ih
      · rfl

theorem publishFlushes_nil (input : List Sighting) :
    publishFlushes ([] : List (Plugin.Publisher S)) batchSize input = [] := by
  unfold publishFlushes
  generalize (fun _ => [] : Batches) = batches
  induction input generalizing batches with
  | nil => rfl
  | cons pair input ih => exact ih _

/-- What holds of the stage all the time: what it has flushed and what it still will flush make
up all flushes of the call. -/
def PublishInv (input : List Sighting) (w : World S)
    (v : View (World S) Failure Sighting Empty (runPublish publishers batchSize).Pc) : Prop :=
  v.task.cancelRequested = false ∧ v.world = { w with env := v.world.env } ∧
    match v.task.status with
    | .created => v.input.items = input.map some ++ [none] ∧ v.world = w
    | .running pc => ∃ done rest,
        (v.input.items = rest.map some ++ [none] ∨ v.input.items = [] ∧ rest = []) ∧
          publishFlushes publishers batchSize input =
              done ++ publishPending publishers batchSize pc rest ∧
            Flushed w.ctx done w.env v.world.env
    | .closing _ => False
    | .finished .returned =>
        Flushed w.ctx (publishFlushes publishers batchSize input) w.env v.world.env
    | .finished (.raised e) => ∃ done publisher batch rest env,
        publishFlushes publishers batchSize input = done ++ (publisher, batch) :: rest ∧
          Flushed w.ctx done w.env env ∧
            (flush publisher (fun _ => batch) w.ctx).raises env e v.world.env
    | .finished .cancelled => False

variable {publishers batchSize}

theorem publishInv_step {input : List Sighting} {w : World S} {maxsize : Int}
    {v v' : View (World S) Failure Sighting Empty (runPublish publishers batchSize).Pc}
    {label : Label Failure}
    (step : TaskStep (runPublish publishers batchSize) maxsize v label v')
    (inv : PublishInv publishers batchSize input w v) :
    PublishInv publishers batchSize input w v' := by
  obtain ⟨calm, frame, state⟩ := inv
  cases step with
  | start now =>
      rw [now] at state
      refine ⟨rfl, frame, [], input, Or.inl state.1, ?_, ?_⟩
      · simp only [runPublish]
        cases publishers with
        | nil => exact publishFlushes_nil batchSize input
        | cons publisher rest => rfl
      · rw [state.2]
        exact .nil _
  | get pc next item rest now act head =>
      rw [now] at state
      obtain ⟨done, left, queue, all, flushed⟩ := state
      change PublishPc S at pc
      -- What is read was the first of what was left, or the end mark.
      obtain ⟨left', queue', pending⟩ : ∃ left',
          (rest = left'.map some ++ [none] ∨ rest = [] ∧ left' = []) ∧
            publishPending publishers batchSize pc left =
              publishPending publishers batchSize (next item) left' := by
        rw [head] at queue
        rcases queue with queue | ⟨queue, _⟩
        · cases left with
          | nil =>
              cases queue
              refine ⟨[], Or.inr ⟨rfl, rfl⟩, ?_⟩
              cases pc <;> cases act
              · rfl
              · exact (publishPending_finish publishers batchSize publishers _ []).symm
          | cons pair left =>
              cases queue
              refine ⟨left, Or.inl rfl, ?_⟩
              cases pc <;> cases act
              · rfl
              · exact (publishPending_offer publishers batchSize pair publishers _ left).symm
        · cases queue
      exact ⟨rfl, frame, done, left', queue', all.trans (congrArg (done ++ ·) pending), flushed⟩
  | put pc next item => exact item.elim
  | call pc next returns raises world now act result =>
      rw [now] at state
      obtain ⟨done, left, queue, all, flushed⟩ := state
      change PublishPc S at pc
      rw [frame] at result
      obtain ⟨publisher, batch, env, returned, rfl, pending⟩ : ∃ publisher batch env,
          (flush publisher (fun _ => batch) w.ctx).returns v.world.env () env ∧
            world = { w with env := env } ∧
              publishPending publishers batchSize pc left =
                (publisher, batch) :: publishPending publishers batchSize next left := by
        cases pc with
        | flushing publisher later pair batches =>
            cases act
            obtain ⟨_, env, returned, rfl, rfl⟩ := result
            refine ⟨publisher, batches publisher.name, env, returned, rfl, ?_⟩
            rw [publishPending_offer]
            rfl
        | finishing publisher later batches =>
            cases act
            obtain ⟨_, env, returned, rfl, rfl⟩ := result
            refine ⟨publisher, batches publisher.name, env, returned, rfl, ?_⟩
            rw [publishPending_finish]
            rfl
        | _ => cases act
      refine ⟨rfl, rfl, done ++ [(publisher, batch)], left, queue, ?_, ?_⟩
      · rw [all, pending, List.append_assoc]
        rfl
      · exact flushed.append (.cons returned (.nil env))
  | raise pc returns raises error world now act result =>
      rw [now] at state
      obtain ⟨done, left, queue, all, flushed⟩ := state
      change PublishPc S at pc
      rw [frame] at result
      obtain ⟨publisher, batch, later, env, raised, rfl, pending⟩ : ∃ publisher batch later env,
          (flush publisher (fun _ => batch) w.ctx).raises v.world.env error env ∧
            world = { w with env := env } ∧
              publishPending publishers batchSize pc left = (publisher, batch) :: later := by
        cases pc with
        | flushing publisher later pair batches =>
            cases act
            obtain ⟨env, raised, rfl⟩ := result
            exact ⟨publisher, batches publisher.name, _, env, raised, rfl, rfl⟩
        | finishing publisher later batches =>
            cases act
            obtain ⟨env, raised, rfl⟩ := result
            exact ⟨publisher, batches publisher.name, _, env, raised, rfl, rfl⟩
        | _ => cases act
      exact ⟨rfl, rfl, done, publisher, batch, later, v.world.env, by rw [all, pending], flushed,
        raised⟩
  | ret pc now act =>
      rw [now] at state
      obtain ⟨done, left, queue, all, flushed⟩ := state
      change PublishPc S at pc
      refine ⟨rfl, frame, ?_⟩
      cases pc <;> cases act
      change Flushed w.ctx (publishFlushes publishers batchSize input) w.env v.world.env
      rw [all]
      simpa [publishPending] using flushed
  | close exit now room =>
      rw [now] at state
      exact state.elim
  | cancelCreated now =>
      rw [now] at calm
      cases calm
  | cancelRunning pc now =>
      rw [now] at calm
      cases calm
  | cancelClosing exit now =>
      rw [now] at calm
      cases calm

theorem publishInv_run {input : List Sighting} {w w' : World S} {maxsize : Int}
    {exit : TaskNet.Exit Failure}
    (run : (runPublish publishers batchSize).Run maxsize input w exit w') :
    w' = { w with env := w'.env } ∧
      (exit = .returned ∧
          Flushed w.ctx (publishFlushes publishers batchSize input) w.env w'.env ∨
        ∃ e done publisher batch rest env, exit = .raised e ∧
          publishFlushes publishers batchSize input = done ++ (publisher, batch) :: rest ∧
            Flushed w.ctx done w.env env ∧
              (flush publisher (fun _ => batch) w.ctx).raises env e w'.env) := by
  have kept : ∀ v, Relation.ReflTransGen
      (fun u v => ∃ label, TaskStep (runPublish publishers batchSize) maxsize u label v)
      ⟨⟨input.map some ++ [none], true⟩, ⟨.created, false⟩, .empty, w⟩ v →
        PublishInv publishers batchSize input w v := by
    intro v steps
    induction steps with
    | refl => exact ⟨rfl, rfl, rfl, rfl⟩
    | tail _ step ih =>
        obtain ⟨label, step⟩ := step
        exact publishInv_step step ih
  obtain ⟨v, steps, ended, rfl⟩ := run
  obtain ⟨_, frame, state⟩ := kept v steps
  rw [ended] at state
  refine ⟨frame, ?_⟩
  cases exit with
  | returned => exact Or.inl ⟨rfl, state⟩
  | raised e =>
      obtain ⟨done, publisher, batch, rest, env, all, flushed, raised⟩ := state
      exact Or.inr ⟨e, done, publisher, batch, rest, env, rfl, all, flushed, raised⟩
  | cancelled => exact state.elim

section returns

variable (publishers batchSize)

/-- The stage at a point of its loop, with what is left to read. -/
def publishAt (w : World S) (items : List (Option Sighting)) (env : S)
    (status : Status (PublishPc S) Failure) :
    View (World S) Failure Sighting Empty (runPublish publishers batchSize).Pc :=
  ⟨⟨items, true⟩, ⟨status, false⟩, .empty, { w with env := env }⟩

/-- Steps of the stage. -/
abbrev PublishSteps (maxsize : Int) :
    View (World S) Failure Sighting Empty (runPublish publishers batchSize).Pc →
      View (World S) Failure Sighting Empty (runPublish publishers batchSize).Pc → Prop :=
  Relation.ReflTransGen fun u v =>
    ∃ label, TaskStep (runPublish publishers batchSize) maxsize u label v

variable {publishers batchSize} {w : World S} {maxsize : Int}

theorem finish_returns {rest : List (Plugin.Publisher S)} {batches : Batches} {env env' : S}
    (flushed : Flushed w.ctx (leftovers Plugin.Publisher.name rest batches) env env') :
    PublishSteps publishers batchSize maxsize
      (publishAt publishers batchSize w [] env (.running (finish rest batches)))
      (publishAt publishers batchSize w [] env' (.finished .returned)) := by
  induction rest generalizing batches env with
  | nil =>
      cases flushed
      exact .single
        ⟨.ret, .ret (publishAt publishers batchSize w [] _ (.running .done)) .done rfl rfl⟩
  | cons publisher rest ih =>
      rw [finish]
      rw [leftovers] at flushed
      split
      · rename_i empty
        rw [if_pos empty] at flushed
        exact ih flushed
      · rename_i filled
        rw [if_neg filled] at flushed
        obtain ⟨mid, returned, later⟩ := flushed.head
        refine .head ⟨.call, .call
          (publishAt publishers batchSize w [] env (.running (.finishing publisher rest batches)))
          _ _ _ _ _ rfl rfl ⟨(), mid, returned, rfl, rfl⟩⟩ ?_
        exact ih later

theorem offer_returns {pair : Sighting} {items : List (Option Sighting)}
    {rest : List (Plugin.Publisher S)} {batches : Batches} {env env' : S}
    (flushed :
      Flushed w.ctx (offers Plugin.Publisher.name batchSize pair rest batches).1 env env') :
    PublishSteps publishers batchSize maxsize
      (publishAt publishers batchSize w items env (.running (offer batchSize pair rest batches)))
      (publishAt publishers batchSize w items env'
        (.running (.waiting (offers Plugin.Publisher.name batchSize pair rest batches).2))) := by
  induction rest generalizing batches env with
  | nil =>
      cases flushed
      exact .refl
  | cons publisher rest ih =>
      rw [offers] at flushed ⊢
      rw [offer]
      dsimp only at flushed ⊢
      by_cases full : batchSize ≤ (batches publisher.name ++ [pair]).length
      · rw [if_pos full] at flushed
        rw [if_pos full, if_pos full]
        obtain ⟨mid, returned, later⟩ := flushed.head
        have batch := @Function.update_self _ _ _ publisher.name
          (batches publisher.name ++ [pair]) batches
        have flush' : (flush publisher (Function.update batches publisher.name
            (batches publisher.name ++ [pair])) w.ctx).returns env () mid := by
          change (flush publisher (fun _ => Function.update batches publisher.name
            (batches publisher.name ++ [pair]) publisher.name) w.ctx).returns env () mid
          rwa [batch]
        refine .head ⟨.call, .call
          (publishAt publishers batchSize w items env (.running (.flushing publisher rest pair
            (Function.update batches publisher.name (batches publisher.name ++ [pair])))))
          _ _ _ _ _ rfl rfl ⟨(), mid, flush', rfl, rfl⟩⟩ ?_
        simp only [Function.update_idem]
        exact ih later
      · rw [if_neg full] at flushed
        rw [if_neg full, if_neg full]
        exact ih flushed

theorem waiting_returns {input : List Sighting} {batches : Batches} {env env' : S}
    (flushed : Flushed w.ctx
      (flushes Plugin.Publisher.name batchSize publishers input batches) env env') :
    PublishSteps publishers batchSize maxsize
      (publishAt publishers batchSize w (input.map some ++ [none]) env (.running (.waiting batches)))
      (publishAt publishers batchSize w [] env' (.finished .returned)) := by
  induction input generalizing batches env with
  | nil =>
      refine .head ⟨.get,
        .get _ (PublishPc.waiting batches) _ none [] rfl rfl rfl⟩ ?_
      exact finish_returns flushed
  | cons pair input ih =>
      rw [flushes] at flushed
      obtain ⟨env'', begun, later⟩ := flushed.split
      refine .head ⟨.get,
        .get _ (PublishPc.waiting batches) _ (some pair) (input.map some ++ [none]) rfl rfl
        rfl⟩ ?_
      exact (offer_returns begun).trans (ih later)

theorem draining_returns {input : List Sighting} {env : S} :
    PublishSteps publishers batchSize maxsize
      (publishAt publishers batchSize w (input.map some ++ [none]) env (.running .draining))
      (publishAt publishers batchSize w [] env (.finished .returned)) := by
  induction input with
  | nil =>
      refine .head ⟨.get, .get _ PublishPc.draining _ none [] rfl rfl rfl⟩ ?_
      exact .single
        ⟨.ret, .ret (publishAt publishers batchSize w [] _ (.running .done)) .done rfl rfl⟩
  | cons pair input ih =>
      exact .head
        ⟨.get, .get _ PublishPc.draining _ (some pair) (input.map some ++ [none]) rfl rfl rfl⟩ ih

/-- If all flushes of a call return, so does a run. -/
theorem publish_returns {input : List Sighting} {env' : S}
    (flushed : Flushed w.ctx (publishFlushes publishers batchSize input) w.env env') :
    (runPublish publishers batchSize).Run maxsize input w .returned { w with env := env' } := by
  cases publishers with
  | nil =>
      rw [publishFlushes_nil] at flushed
      cases flushed
      refine ⟨publishAt [] batchSize w [] w.env (.finished .returned), ?_, rfl, rfl⟩
      exact .head ⟨.start, .start _ rfl⟩ draining_returns
  | cons publisher rest =>
      refine ⟨publishAt (publisher :: rest) batchSize w [] env' (.finished .returned), ?_, rfl, rfl⟩
      exact .head ⟨.start, .start _ rfl⟩ (waiting_returns flushed)

end returns

end loop

end Cti
