import Cti.CanonicalForm
import Cti.Pipeline

set_option autoImplicit false

namespace Cti

open Py (Str)
open TaskNet (Net Exit)

variable {S : Type}

/-- Nothing waits forever: some step is enabled as long as a task is unfinished, and a stage
that waits to close a full queue whose consumer has ended is about to be cancelled. -/
def Unstuck {N : Net (World S) Failure} (s : N.State) : Prop :=
  (¬ N.Ended s → N.CanStep s) ∧
    ∀ (i : Nat) (exit : Exit Failure), i + 1 < N.size → s.task i = ⟨.closing exit, false⟩ →
      (s.chan (i + 1)).Full N.maxsize → (s.task (i + 1)).Finished → ∃ t, N.Step s .abort t

/-- `Pipeline.run` moves on in every run in which, whenever the task group aborts, each of the
stages parse to persist that is still in its loop has a free slot in its output queue. An
abort that finds one of these queues full ends in a deadlock. -/
theorem pipeline_unstuck (R : Runtime) (spec : PipelineSpec S) (clock : Clock) (ctx : RunContext)
    (env : S) :
    (∀ s, (pipelineNet R spec clock ctx).Reaches Net.SafeStep
        ((pipelineNet R spec clock ctx).init (World.fresh ctx env)) s → Unstuck s) ∧
      ∀ s t, (pipelineNet R spec clock ctx).Reaches (fun _ _ => True)
          ((pipelineNet R spec clock ctx).init (World.fresh ctx env)) s →
        (pipelineNet R spec clock ctx).Step s .abort t → ¬ Net.AbortSafe s →
        ∃ u, (pipelineNet R spec clock ctx).Reaches (fun _ _ => True) t u ∧ ¬ Unstuck u := by
  have lawful := pipelineLawful R spec clock ctx
  constructor
  · intro s run
    refine ⟨Net.safe_progress lawful run, ?_⟩
    intro i exit inside waiting full gone
    exact Net.safe_close lawful run inside waiting full gone
  · intro s t run abort caught
    obtain ⟨u, rest, unended, stuck⟩ := Net.unsafe_abort_deadlocks lawful run abort caught
    exact ⟨u, rest, fun unstuck => stuck (unstuck.1 unended)⟩

/-- A connector that yields some payloads. -/
def Plugin.Connector.ofList (payloads : List RawPayload) : Plugin.Connector S where
  Gen := List RawPayload
  fetch := payloads
  resume
    | [] => .pure none
    | payload :: rest => .pure (some (payload, rest))

/-- A parser that computes the records of a payload. -/
def Plugin.Parser.ofFunction (records : RawPayload → List Record) : Plugin.Parser S where
  Gen := List Record
  parse := records
  resume
    | [], _ => .pure none
    | record :: rest, _ => .pure (some (record, rest))

def Plugin.Publisher.silent (name : Str) : Plugin.Publisher S where
  name := name
  publish _ _ := .pure ()

def emptyPayload : RawPayload := ⟨[], [], [], 0, none, none, none⟩

/-- A pipeline with one payload of three records, queues of one item, and a normalizer that
raises on every record. -/
def strictSpec : PipelineSpec Unit where
  connector := .ofList [emptyPayload]
  parser := .ofFunction fun _ => [[], [], []]
  enrichers := []
  canonicalPublisher := .silent "postgres".toList
  extraPublishers := []
  normalize := { NormalizeConfig.default with skipOnError := false }
  archive := none
  bloom := none
  queueMaxsize := 1
  batchSize := 500

def zeroClock : Clock := ⟨fun _ => (0, 0), fun _ => 0⟩

abbrev strictNet : Net (World Unit) Failure :=
  pipelineNet asciiRuntime strictSpec zeroClock feedContext

abbrev strictStart : strictNet.State := strictNet.init (World.fresh feedContext ())

/-- A run that comes by the state ends in a deadlock. -/
private def Dooms (s : strictNet.State) : Prop :=
  strictNet.Reaches (fun _ _ => True) strictStart s →
    ∃ u, strictNet.Reaches (fun _ _ => True) strictStart u ∧
      ¬ strictNet.Ended u ∧ ¬ strictNet.CanStep u

private theorem Dooms.step {s t : strictNet.State} {label : Net.StepLabel Failure}
    (step : strictNet.Step s label t) (rest : Dooms t) : Dooms s := fun run =>
  rest (run.tail ⟨label, trivial, step⟩)

/-- The normalizer fails while the parser waits to put its third record. -/
theorem strict_deadlock :
    ∃ u, strictNet.Reaches (fun _ _ => True) strictStart u ∧
      ¬ strictNet.Ended u ∧ ¬ strictNet.CanStep u := by
  suffices doomed : Dooms strictStart from doomed .refl
  refine .step (.task _ 0 _ _ (by decide) (.start _ rfl)) ?_
  refine .step (.task _ 1 _ _ (by decide) (.start _ rfl)) ?_
  refine .step (.task _ 2 _ _ (by decide) (.start _ rfl)) ?_
  refine .step (.task _ 3 _ _ (by decide) (.start _ rfl)) ?_
  refine .step (.task _ 4 _ _ (by decide) (.start _ rfl)) ?_
  refine .step (.task _ 5 _ _ (by decide) (.start _ rfl)) ?_
  refine .step (.task _ 6 _ _ (by decide) (.start _ rfl)) ?_
  refine .step (.task _ 0 _ _ (by decide) (.call _ _ _ _ _ _ rfl rfl
    ⟨_, _, _, ⟨rfl, rfl⟩, rfl, rfl⟩)) ?_
  refine .step (.task _ 0 _ _ (by decide) (.put _ _ _ _ rfl rfl (by decide))) ?_
  refine .step (.task _ 1 _ _ (by decide) (.get _ _ _ _ _ rfl rfl rfl)) ?_
  refine .step (.task _ 1 _ _ (by decide) (.call _ _ _ _ _ _ rfl rfl
    ⟨_, _, ⟨rfl, rfl⟩, rfl, rfl⟩)) ?_
  refine .step (.task _ 1 _ _ (by decide) (.put _ _ _ _ rfl rfl (by decide))) ?_
  refine .step (.task _ 1 _ _ (by decide) (.call _ _ _ _ _ _ rfl rfl
    ⟨_, _, ⟨rfl, rfl⟩, rfl, rfl⟩)) ?_
  refine .step (.task _ 2 _ _ (by decide) (.get _ _ _ _ _ rfl rfl rfl)) ?_
  refine .step (.task _ 1 _ _ (by decide) (.put _ _ _ _ rfl rfl (by decide))) ?_
  refine .step (.task _ 1 _ _ (by decide) (.call _ _ _ _ _ _ rfl rfl
    ⟨_, _, ⟨rfl, rfl⟩, rfl, rfl⟩)) ?_
  refine .step (.task _ 2 _ _ (by decide) (.raise _ _ _ _ _ _ rfl rfl ⟨rfl, rfl⟩)) ?_
  refine .step (.task _ 2 _ _ (by decide) (.close _ _ rfl (by decide))) ?_
  intro run
  obtain ⟨u, rest, stuck⟩ := Net.unsafe_abort_deadlocks
    (pipelineLawful asciiRuntime strictSpec zeroClock feedContext) run (.abort _ rfl nofun)
    (fun safe => safe 1 (by decide) _ rfl rfl (by decide))
  exact ⟨u, run.trans (rest.head ⟨_, trivial, .abort _ rfl nofun⟩), stuck⟩

end Cti
