import Cti.PartialRuns
import Cti.TaskNetLag

set_option autoImplicit false

/- The backpressure of the pipeline: how much it holds at most, and how far the canonical
publisher is behind the connector, so what a run that is cut off can lose. -/
namespace Cti

open Py (Str)
open TaskNet (Action Coroutine Lags Net Steady)

variable {S : Type}

/-- The batch at hand is not longer than a batch may get. -/
def PersistPc.Short (batchSize : Int) : PersistPc → Prop
  | .waiting _ batch => batch.length < batchLength batchSize
  | .publishing _ batch _ => batch.length ≤ batchLength batchSize
  | .putting _ _ rest _ => rest.length < batchLength batchSize
  | .done => True

section persist

variable (clock : Clock) (ctx : RunContext) (batchSize : Int)

theorem persistNext_short (n : Nat) {batch : List Sighting} (item : Sighting)
    (short : batch.length < batchLength batchSize) :
    (persistNext batchSize n (batch ++ [item])).Short batchSize := by
  have length : (batch ++ [item]).length = batch.length + 1 := by simp
  unfold persistNext
  split
  · change (batch ++ [item]).length ≤ batchLength batchSize
    omega
  · rename_i room
    change (batch ++ [item]).length < max 1 batchSize.toNat
    omega

theorem forwardNext_short (n : Nat) {rest : List Sighting} (last : Bool)
    (short : rest.length ≤ batchLength batchSize) :
    (forwardNext n rest last).Short batchSize := by
  cases rest with
  | nil =>
      cases last
      · exact batchLength_pos batchSize
      · trivial
  | cons pair rest => exact short

theorem persist_stays (publisher : Plugin.Publisher S) :
    (runPersist publisher ctx clock batchSize).Stays (PersistPc.Short batchSize) where
  start _ := batchLength_pos batchSize
  get {w pc next} ok act := by
    cases pc <;> cases act
    refine ⟨?_, fun item _ => persistNext_short batchSize _ _ ok⟩
    dsimp only
    split
    · trivial
    · exact Nat.le_of_lt ok
  put {w pc item next} ok act := by
    cases pc <;> cases act
    exact ⟨trivial, forwardNext_short batchSize _ _ (Nat.le_of_lt ok)⟩
  call {w pc returns raises w' next} ok act result _ := by
    cases pc with
    | publishing n batch last =>
        simp only [runPersist, persistAct] at act
        obtain ⟨_, _, _, _, rfl⟩ := Call.await_returns act result
        exact forwardNext_short batchSize n last ok
    | _ => cases act
  keeps _ := Action.keepsAt_true _ _

end persist

section pipeline

variable {parse : RawPayload → List Record} {enrich : List (Indicator → Option Indicator)}
  (R : Runtime) {spec : PipelineSpec S} (clock : Clock) (ctx : RunContext)

theorem fetchHeld_length {Gen : Type} (pc : FetchPc S Gen) : (fetchHeld pc).length ≤ 1 := by
  cases pc with
  | archiving archive payload gen => exact Nat.le_refl _
  | putting payload gen => exact Nat.le_refl _
  | _ => exact Nat.zero_le _

end pipeline

section load

variable (R : Runtime) (spec : PipelineSpec S) (clock : Clock) (ctx : RunContext)

/-- No batch is longer than a batch may get, and only the one that is flushed is that long. -/
def PublishPc.Short (batchSize : Int) : PublishPc S → Prop
  | .waiting batches => ∀ name, (batches name).length < batchLength batchSize
  | .flushing publisher _ _ batches =>
      (batches publisher.name).length ≤ batchLength batchSize ∧
        ∀ name, name ≠ publisher.name → (batches name).length < batchLength batchSize
  | .finishing _ _ batches => ∀ name, (batches name).length < batchLength batchSize
  | _ => True

theorem update_short {batchSize : Int} {batches : Batches} {name : Str} {batch : List Sighting}
    (others : ∀ other, other ≠ name → (batches other).length < batchLength batchSize)
    (short : batch.length < batchLength batchSize) (other : Str) :
    (Function.update batches name batch other).length < batchLength batchSize := by
  by_cases same : other = name
  · subst same
    rw [Function.update_self]
    exact short
  · rw [Function.update_of_ne same]
    exact others other same

theorem offer_short (batchSize : Int) (pair : Sighting) (publishers : List (Plugin.Publisher S))
    {batches : Batches} (short : ∀ name, (batches name).length < batchLength batchSize) :
    (offer batchSize pair publishers batches).Short batchSize := by
  induction publishers generalizing batches with
  | nil => exact short
  | cons publisher rest ih =>
      have grown : (batches publisher.name ++ [pair]).length ≤ batchLength batchSize := by
        have before := short publisher.name
        simp only [List.length_append, List.length_singleton]
        omega
      simp only [offer]
      split
      · refine ⟨by rw [Function.update_self]; exact grown, fun name other => ?_⟩
        rw [Function.update_of_ne other]
        exact short name
      · rename_i room
        refine ih (update_short (fun other _ => short other) ?_)
        unfold batchLength
        omega

theorem finish_short (batchSize : Int) (publishers : List (Plugin.Publisher S))
    {batches : Batches} (short : ∀ name, (batches name).length < batchLength batchSize) :
    (finish publishers batches).Short batchSize := by
  induction publishers with
  | nil => trivial
  | cons publisher rest ih =>
      simp only [finish]
      split
      · exact ih
      · exact short

theorem publish_stays (publishers : List (Plugin.Publisher S)) (batchSize : Int) :
    (runPublish publishers batchSize).Stays (PublishPc.Short batchSize) where
  start _ := by
    simp only [runPublish]
    split
    · trivial
    · exact fun _ => batchLength_pos batchSize
  get {w pc next} ok act := by
    cases pc <;> cases act
    · exact ⟨trivial, fun _ _ => trivial⟩
    · exact ⟨finish_short batchSize publishers ok, fun pair _ => offer_short batchSize pair _ ok⟩
  put {w pc item next} _ _ := nomatch item
  call {w pc returns raises w' next} ok act result _ := by
    have cleared : ([] : List Sighting).length < batchLength batchSize := batchLength_pos batchSize
    cases pc with
    | flushing publisher rest pair batches =>
        simp only [runPublish, publishAct] at act
        obtain ⟨_, _, _, _, rfl⟩ := Call.await_returns act result
        exact offer_short batchSize pair rest (update_short ok.2 cleared)
    | finishing publisher rest batches =>
        simp only [runPublish, publishAct] at act
        obtain ⟨_, _, _, _, rfl⟩ := Call.await_returns act result
        exact finish_short batchSize rest (update_short (fun other _ => ok other) cleared)
    | _ => cases act
  keeps _ := Action.keepsAt_true _ _

/-- A payload while the parser is at it, and the record it has yielded. -/
def parseSize {Gen : Type} : ParsePc Gen → Nat
  | .pulling _ => 1
  | .putting _ _ => 2
  | _ => 0

theorem parseSize_le {Gen : Type} (pc : ParsePc Gen) : parseSize pc ≤ 2 := by
  cases pc <;> simp [parseSize]

def normalizeSize : NormalizePc → Nat
  | .putting _ _ => 1
  | .raising _ _ => 1
  | _ => 0

theorem normalizeSize_le (pc : NormalizePc) : normalizeSize pc ≤ 1 := by
  cases pc <;> simp [normalizeSize]

def enrichSize : EnrichPc → Nat
  | .calling _ _ => 1
  | .putting _ => 1
  | _ => 0

theorem enrichSize_le (pc : EnrichPc) : enrichSize pc ≤ 1 := by
  cases pc <;> simp [enrichSize]

def dedupSize : DedupPc S → Nat
  | .adding _ _ => 1
  | .putting _ => 1
  | _ => 0

theorem dedupSize_le (pc : DedupPc S) : dedupSize pc ≤ 1 := by
  cases pc <;> simp [dedupSize]

/-- The batch, or what is still to be forwarded of it. -/
def persistSize : PersistPc → Nat
  | .waiting _ batch => batch.length
  | .publishing _ batch _ => batch.length
  | .putting _ _ rest _ => rest.length + 1
  | .done => 0

def batchNames (publishers : List (Plugin.Publisher S)) : List Str :=
  (publishers.map Plugin.Publisher.name).dedup

/-- The batches of all publishers, and the pair that some of them have not been offered yet. -/
def publishSize (publishers : List (Plugin.Publisher S)) : PublishPc S → Nat
  | .waiting batches => ((batchNames publishers).flatMap batches).length
  | .flushing _ _ _ batches => ((batchNames publishers).flatMap batches).length + 1
  | .finishing _ _ batches => ((batchNames publishers).flatMap batches).length
  | _ => 0

def stageSize : (i : Nat) → (stageCode R spec clock ctx i).Pc → Nat
  | 0 => fun pc => (fetchHeld pc).length
  | 1 => parseSize
  | 2 => normalizeSize
  | 3 => enrichSize
  | 4 => dedupSize
  | 5 => persistSize
  | 6 => publishSize spec.extraPublishers
  | _ + 7 => fun _ => 0

def stageShort : (i : Nat) → (stageCode R spec clock ctx i).Pc → Prop
  | 5 => PersistPc.Short spec.batchSize
  | 6 => PublishPc.Short spec.batchSize
  | _ => fun _ => True

/-- One item for each stage that handles them one by one, and batches for the last two. -/
def stageCapacity : Nat → Nat
  | 1 => 2
  | 5 => batchLength spec.batchSize
  | 6 => (batchNames spec.extraPublishers).length * batchLength spec.batchSize + 1
  | _ => 1

theorem persistSize_le {batchSize : Int} {pc : PersistPc} (short : pc.Short batchSize) :
    persistSize pc ≤ batchLength batchSize := by
  cases pc with
  | waiting n batch => exact Nat.le_of_lt short
  | publishing n batch last => exact short
  | putting n pair rest last => exact short
  | done => exact Nat.zero_le _

theorem flatMap_batches_le {names : List Str} {batches : Batches} {bound : Nat}
    (short : ∀ name, (batches name).length ≤ bound) :
    (names.flatMap batches).length ≤ names.length * bound := by
  induction names with
  | nil => exact Nat.zero_le _
  | cons name names ih =>
      have first := short name
      rw [List.flatMap_cons, List.length_append, List.length_cons, Nat.succ_mul]
      omega

theorem publishSize_le {publishers : List (Plugin.Publisher S)} {batchSize : Int}
    {pc : PublishPc S} (short : pc.Short batchSize) :
    publishSize publishers pc ≤
      (batchNames publishers).length * batchLength batchSize + 1 := by
  cases pc with
  | waiting batches =>
      exact Nat.le_succ_of_le (flatMap_batches_le fun name => Nat.le_of_lt (short name))
  | flushing publisher rest pair batches =>
      refine Nat.succ_le_succ (flatMap_batches_le fun name => ?_)
      by_cases own : name = publisher.name
      · rw [own]
        exact short.1
      · exact Nat.le_of_lt (short.2 name own)
  | finishing publisher rest batches =>
      exact Nat.le_succ_of_le (flatMap_batches_le fun name => Nat.le_of_lt (short name))
  | _ => exact Nat.zero_le _

def pipelineSized : (pipelineNet R spec clock ctx).Sized where
  Ok := stageShort R spec clock ctx
  stays i inside := by
    match i, inside with
    | 0, _ => exact Coroutine.stays_true _
    | 1, _ => exact Coroutine.stays_true _
    | 2, _ => exact Coroutine.stays_true _
    | 3, _ => exact Coroutine.stays_true _
    | 4, _ => exact Coroutine.stays_true _
    | 5, _ => exact persist_stays clock ctx spec.batchSize spec.canonicalPublisher
    | 6, _ => exact publish_stays spec.extraPublishers spec.batchSize
  size := stageSize R spec clock ctx
  capacity := stageCapacity spec
  fits i inside pc ok := by
    match i, inside with
    | 0, _ => exact fetchHeld_length pc
    | 1, _ => exact parseSize_le pc
    | 2, _ => exact normalizeSize_le pc
    | 3, _ => exact enrichSize_le pc
    | 4, _ => exact dedupSize_le pc
    | 5, _ => exact persistSize_le ok
    | 6, _ => exact publishSize_le ok

/-- At every point of every run, whatever has failed in it by then and whatever the plugins do,
the queues and the stages hold no more than a constant of the configuration. -/
theorem pipeline_load (bounded : 0 < spec.queueMaxsize) {world : World S}
    {s : (pipelineNet R spec clock ctx).State} {allowed}
    (run : (pipelineNet R spec clock ctx).Reaches allowed
      ((pipelineNet R spec clock ctx).init world) s) :
    (pipelineSized R spec clock ctx).load s ≤
      6 * spec.queueMaxsize.toNat + 7 +
        ((batchNames spec.extraPublishers).length + 1) * batchLength spec.batchSize := by
  have load := (pipelineSized R spec clock ctx).load_bounded bounded run
  have capacity : ∑ i ∈ Finset.range 7, stageCapacity spec i =
      7 + ((batchNames spec.extraPublishers).length + 1) * batchLength spec.batchSize := by
    simp only [Finset.sum_range_succ, Finset.sum_range_zero, stageCapacity, Nat.succ_mul]
    omega
  change _ ≤ ∑ i ∈ Finset.range 7, stageCapacity spec i + 6 * spec.queueMaxsize.toNat at load
  omega

theorem pipeline_load_mutex :
    ∃ u, mutexNet.Reaches Net.Smooth mutexStart u ∧ u.world.published.flatten.length = 1 ∧
      (pipelineSized asciiRuntime mutexSpec zeroClock feedContext).load u ≤
        6 * 1 + 7 + (0 + 1) * 500 := by
  obtain ⟨u, run, _, single⟩ := mutex_delivered
  exact ⟨u, run, single,
    pipeline_load asciiRuntime mutexSpec zeroClock feedContext (by decide) run⟩

end load

end Cti
