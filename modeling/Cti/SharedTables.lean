import Cti.Durability
import Cti.RunRows

set_option autoImplicit false

/- Calls of `FeedRunner.execute` whose pipelines write to one pair of tables. -/
namespace Cti

open Py (Str)
open TaskNet (Net)

section plugins

variable {T : Type}

/-- The tables stay as they are while a plugin that does not write to them is called: others
commit in steps of their own. -/
def stillDrift : Drift Store := ⟨Eq, fun _ => rfl⟩

/-- `PostgresPublisher`. Its transaction commits or is rolled back, and it may fail at any
time. -/
def Plugin.Publisher.committing (T : Type) : Plugin.Publisher (Store × T) where
  name := "postgres".toList
  publish batch _ :=
    { returns := fun s _ s' => Cti.publish s.1 batch = .ok s'.1 ∧ s'.2 = s.2
      raises := fun s _ s' => s' = s
      answers := fun s => Or.inr ⟨.leaf (ClassName.exception.exc []) rfl, s, rfl⟩ }

/-- An extra publisher. It may be the one that writes to the tables, too. -/
def Plugin.Publisher.onTables (publisher : Plugin.Publisher T) : Plugin.Publisher (Store × T) :=
  if publisher.name = "postgres".toList then .committing T else publisher.beside stillDrift

/-- A pipeline on the tables of all runs. -/
def PipelineSpec.onTables (spec : PipelineSpec T) : PipelineSpec (Store × T) where
  connector := spec.connector.beside stillDrift
  parser := spec.parser.beside stillDrift
  enrichers := spec.enrichers.map (·.beside stillDrift)
  canonicalPublisher := .committing T
  extraPublishers := spec.extraPublishers.map Plugin.Publisher.onTables
  normalize := spec.normalize
  archive := spec.archive.map (·.beside stillDrift)
  bloom := spec.bloom.map (·.beside stillDrift)
  queueMaxsize := spec.queueMaxsize
  batchSize := spec.batchSize

def Feed.onTables (feed : Feed T) : Feed (Store × T) where
  worker := feed.worker
  sourceId := feed.sourceId
  runId := feed.runId
  circuit := feed.circuit
  maxAttempts := feed.maxAttempts
  spec := feed.spec.onTables

end plugins

section attempt

variable {T : Type} {R : Runtime} {spec : PipelineSpec (Store × T)}

/-- The tables as the attempt has left them. -/
def Attempt.store (a : Attempt R spec) : Store := a.state.world.env.1

def World.seeing (w : World (Store × T)) (store : Store) : World (Store × T) :=
  { w with env := (store, w.env.2) }

/-- The attempt with the tables as they are now. -/
def Attempt.seeing (a : Attempt R spec) (store : Store) : Attempt R spec :=
  ⟨(a.clock, a.ctx), { a.state with world := a.state.world.seeing store }⟩

end attempt

section tables

variable {T : Type} (R : Runtime) {ι : Type} [DecidableEq ι] (feeds : ι → Feed T)

/-- The calls of some sources over one pair of tables. -/
abbrev TablesManager : Type := Manager fun i => (feeds i).onTables.job R

structure Tables where
  manager : TablesManager R feeds
  store : Store

def Tables.init (sh : Shared) (store : Store) : Tables R feeds := ⟨.init _ sh, store⟩

variable {R feeds} in
def Tables.execution (s : Tables R feeds) (i : ι) :
    Execution (netSystem R (feeds i).onTables.spec) :=
  s.manager.execution i

/-- One of the calls takes a step. Only the steps of its pipeline reach the tables. -/
inductive TablesStep : Tables R feeds → ι → Tables R feeds → Prop
  | attempt (s : Tables R feeds) (i : ι) (k : Nat) (a a' : Attempt R (feeds i).onTables.spec)
      (phase : (s.execution i).phase = .attempting k a)
      (taken : (netSystem R (feeds i).onTables.spec).Step (a.seeing s.store) a') :
      TablesStep s i
        ⟨⟨s.manager.shared, Function.update s.manager.execution i
          { s.manager.execution i with phase := .attempting k a' }⟩, a'.store⟩
  | manage (s : Tables R feeds) (i : ι) (m : TablesManager R feeds)
      (step : ManagerStep _ s.manager i m)
      (outside : ∀ k a a', (s.execution i).phase = .attempting k a →
        (m.execution i).phase ≠ .attempting k a') :
      TablesStep s i ⟨m, s.store⟩

def TablesReaches : Tables R feeds → Tables R feeds → Prop :=
  Relation.ReflTransGen fun s s' => ∃ i, TablesStep R feeds s i s'

variable {R feeds} in
/-- A step is one of its call, in its pipeline or outside, and leaves the other calls alone. -/
theorem TablesStep.inv {s s' : Tables R feeds} {j : ι} (step : TablesStep R feeds s j s') :
    ((∃ k a a', (s.execution j).phase = .attempting k a ∧
        (netSystem R (feeds j).onTables.spec).Step (a.seeing s.store) a' ∧
        s'.manager.shared = s.manager.shared ∧
        s'.execution j = { s.execution j with phase := .attempting k a' } ∧
        s'.store = a'.store) ∨
      ManagerStep _ s.manager j s'.manager ∧ s'.store = s.store ∧
        ∀ k a a', (s.execution j).phase = .attempting k a →
          (s'.execution j).phase ≠ .attempting k a') ∧
    ∀ i, i ≠ j → s'.execution i = s.execution i := by
  cases step with
  | attempt k a a' phase taken =>
      unfold Tables.execution at phase ⊢
      dsimp only
      rw [Function.update_self]
      refine ⟨Or.inl ⟨k, a, a', phase, taken, rfl, rfl, rfl⟩, ?_⟩
      exact fun i other => Function.update_of_ne other _ _
  | manage m step outside => exact ⟨Or.inr ⟨step, rfl, outside⟩, step.inv.2⟩

variable {R feeds}

/-- A step of a call outside of its pipeline. -/
theorem JobStep.tables {i : ι} {s : Tables R feeds} {sh : Shared}
    {x : Execution ((feeds i).onTables.job R).pipeline}
    (step : JobStep ((feeds i).onTables.job R) s.manager.shared (s.manager.execution i) sh x)
    (outside : ∀ k a a', (s.manager.execution i).phase = .attempting k a →
      x.phase ≠ .attempting k a') :
    ∃ s', TablesStep R feeds s i s' ∧ s'.manager.shared = sh ∧ s'.manager.execution i = x ∧
      s'.store = s.store := by
  have taken : ManagerStep _ s.manager i ⟨sh, Function.update s.manager.execution i x⟩ :=
    .mk s.manager i sh x step
  have now : Function.update s.manager.execution i x i = x :=
    Function.update_self i x s.manager.execution
  refine ⟨⟨_, s.store⟩, .manage s i _ taken ?_, rfl, now, rfl⟩
  intro k a a' phase
  dsimp only
  rw [now]
  exact outside k a a' phase

/-- The steps of an attempt are steps of its call. -/
theorem tables_attempts {i : ι} {clock : Clock} {ctx : RunContext} {allowed}
    {t u : (pipelineNet R (feeds i).onTables.spec clock ctx).State}
    (run : (pipelineNet R (feeds i).onTables.spec clock ctx).Reaches allowed t u)
    {s : Tables R feeds} {k : Nat}
    (phase : (s.execution i).phase = .attempting k ⟨(clock, ctx), t⟩)
    (store : s.store = t.world.env.1) :
    ∃ s', TablesReaches R feeds s s' ∧ s'.manager.shared = s.manager.shared ∧
      (s'.execution i).phase = .attempting k ⟨(clock, ctx), u⟩ ∧ s'.store = u.world.env.1 := by
  induction run with
  | refl => exact ⟨s, .refl, rfl, phase, store⟩
  | @tail v w _ last ih =>
      obtain ⟨label, _, taken⟩ := last
      obtain ⟨s', before, shared, now, left⟩ := ih
      let a : Attempt R (feeds i).onTables.spec := ⟨(clock, ctx), v⟩
      have seen : a.seeing s'.store = a := by
        rw [left]
        rfl
      have step : (netSystem R (feeds i).onTables.spec).Step (a.seeing s'.store)
          ⟨(clock, ctx), w⟩ := by
        rw [seen]
        exact ⟨label, w, taken, rfl⟩
      refine ⟨_, before.tail ⟨i, .attempt s' i k a _ now step⟩, shared, ?_, rfl⟩
      exact congrArg Execution.phase (Function.update_self i _ s'.manager.execution)

end tables

end Cti
