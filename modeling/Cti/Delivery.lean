import Cti.Deadlock
import Cti.TaskNetDelivery

set_option autoImplicit false

namespace Cti

open Py (Str)
open TaskNet (Coroutine Denotes Emits Net)

variable {S : Type}

/-- The plugins of the pipeline compute these functions whenever they do not raise. `left` is
what a generator of the parser has still to yield. -/
structure Computes (spec : PipelineSpec S) (parse : RawPayload → List Record)
    (enrich : List (Indicator → Option Indicator)) where
  left : spec.parser.Gen → List Record
  left_parse : ∀ payload, left (spec.parser.parse payload) = parse payload
  left_some : ∀ {gen ctx s record gen' s'},
    (spec.parser.resume gen ctx).returns s (some (record, gen')) s' →
    left gen = record :: left gen'
  left_none : ∀ {gen ctx s s'}, (spec.parser.resume gen ctx).returns s none s' → left gen = []
  enrich_length : enrich.length = spec.enrichers.length
  enrich_returns : ∀ {k : Nat} {enricher : Plugin.Enricher S} {f : Indicator → Option Indicator},
    spec.enrichers[k]? = some enricher → enrich[k]? = some f →
    ∀ {ind ctx s out s'}, (enricher.enrich ind ctx).returns s out s' → out = f ind

section sequential

variable (R : Runtime) (cfg : NormalizeConfig) (clock : Clock) (ctx : RunContext)

/-- `_record_to_indicator` of the n-th record, where an error skips the record. -/
def indicatorOf (n : Nat) (record : Record) : Option Indicator :=
  match normalizeRecord R record cfg (clock.record n).1 (clock.record n).2 with
  | .ok result => result
  | .error _ => none

/-- The records from the n-th on, normalized. -/
def normalizedFrom (n : Nat) (records : List Record) : List Candidate :=
  (records.zipIdx n).filterMap fun numbered =>
    (indicatorOf R cfg clock numbered.2 numbered.1).map fun ind => (ind, numbered.1)

/-- The chain of enrichers. -/
def enrichAll (enrich : List (Indicator → Option Indicator)) (item : Candidate) :
    Option Candidate :=
  (enrich.foldlM (fun ind (f : Indicator → Option Indicator) => f ind) item.1).map
    fun ind => (ind, item.2)

/-- The pairs of `run_persist` from the n-th observation on. -/
def sightingsFrom (n : Nat) (items : List Candidate) : List Sighting :=
  (items.zipIdx n).map fun numbered => persistItem ctx clock numbered.2 numbered.1

/-- The stages as one sequential program. -/
def sequentialRun (parse : RawPayload → List Record)
    (enrich : List (Indicator → Option Indicator)) (payloads : List RawPayload) :
    List Sighting :=
  let records := payloads.flatMap parse
  let candidates := normalizedFrom R cfg clock 0 records
  let enriched := candidates.filterMap (enrichAll enrich)
  sightingsFrom clock ctx 0 enriched

theorem normalizedFrom_cons (n : Nat) (record : Record) (records : List Record) :
    normalizedFrom R cfg clock n (record :: records) =
      ((indicatorOf R cfg clock n record).map fun ind => (ind, record)).toList ++
        normalizedFrom R cfg clock (n + 1) records := by
  unfold normalizedFrom
  rw [List.zipIdx_cons, List.filterMap_cons]
  cases indicatorOf R cfg clock n record <;> rfl

theorem sightingsFrom_cons (n : Nat) (item : Candidate) (items : List Candidate) :
    sightingsFrom clock ctx n (item :: items) =
      persistItem ctx clock n item :: sightingsFrom clock ctx (n + 1) items := by
  simp [sightingsFrom, List.zipIdx_cons]

end sequential

section stages

variable {parse : RawPayload → List Record} {enrich : List (Indicator → Option Indicator)}

/-- What is still to come from each position, given the rest of the input. -/
def parseRest {Gen : Type} (parse : RawPayload → List Record) (left : Gen → List Record) :
    ParsePc Gen → List RawPayload → List Record
  | .waiting, input => input.flatMap parse
  | .pulling gen, input => left gen ++ input.flatMap parse
  | .putting record gen, input => record :: left gen ++ input.flatMap parse
  | .done, _ => []

theorem parse_denotes {spec : PipelineSpec S} (computes : Computes spec parse enrich) :
    Denotes (runParse spec.parser) (parseRest parse computes.left) where
  get_some {pc next} payload input act := by
    cases pc <;> cases act
    simp [parseRest, computes.left_parse]
  get_none {pc next} act := by
    cases pc <;> cases act
    rfl
  put {pc item next} input act := by
    cases pc <;> cases act
    rfl
  call {pc returns raises w w' next} input act result := by
    cases pc with
    | pulling gen =>
        simp only [runParse, parseAct] at act
        obtain ⟨a, env, answer, _, rfl⟩ := Call.await_returns act result
        cases a with
        | none => simp [parseRest, computes.left_none answer]
        | some yielded => simp [parseRest, computes.left_some answer]
    | _ => cases act
  ret {pc} input act := by
    cases pc <;> cases act
    rfl

def normalizeRest (R : Runtime) (cfg : NormalizeConfig) (clock : Clock) :
    NormalizePc → List Record → List Candidate
  | .waiting n, input => normalizedFrom R cfg clock n input
  | .putting item n, input => item :: normalizedFrom R cfg clock n input
  | .raising _ n, input => normalizedFrom R cfg clock n input
  | .done, _ => []

theorem normalizeRest_next (R : Runtime) (cfg : NormalizeConfig) (clock : Clock) (n : Nat)
    (record : Record) (input : List Record) :
    normalizeRest R cfg clock (normalizeNext R cfg clock n record) input =
      normalizedFrom R cfg clock n (record :: input) := by
  rw [normalizedFrom_cons]
  unfold normalizeNext indicatorOf
  split <;> rename_i result <;> simp [result, normalizeRest]

theorem normalize_denotes (R : Runtime) (cfg : NormalizeConfig) (clock : Clock) :
    Denotes (runNormalize R cfg clock : Coroutine (World S) Failure Record Candidate)
      (normalizeRest R cfg clock) where
  get_some {pc next} record input act := by
    cases pc <;> cases act
    exact (normalizeRest_next R cfg clock _ record input).symm
  get_none {pc next} act := by
    cases pc <;> cases act
    rfl
  put {pc item next} input act := by
    cases pc <;> cases act
    rfl
  call {pc returns raises w w' next} input act result := by
    cases pc with
    | raising failure n =>
        cases act
        exact result.elim
    | _ => cases act
  ret {pc} input act := by
    cases pc <;> cases act
    rfl

def enrichRest (enrich : List (Indicator → Option Indicator)) :
    EnrichPc → List Candidate → List Candidate
  | .waiting, input => input.filterMap (enrichAll enrich)
  | .calling k item, input =>
      (enrichAll (enrich.drop k) item).toList ++ input.filterMap (enrichAll enrich)
  | .putting item, input => item :: input.filterMap (enrichAll enrich)
  | .done, _ => []

theorem enrichRest_next {spec : PipelineSpec S} (computes : Computes spec parse enrich) (k : Nat)
    (item : Candidate) (input : List Candidate) :
    enrichRest enrich (enrichNext spec.enrichers k item) input =
      (enrichAll (enrich.drop k) item).toList ++ input.filterMap (enrichAll enrich) := by
  unfold enrichNext
  split
  · rfl
  · rename_i past
    rw [List.drop_eq_nil_of_le (by rw [computes.enrich_length]; omega)]
    rfl

/-- One enricher of the chain. -/
theorem enrichAll_drop {f : Indicator → Option Indicator} {k : Nat} (at' : enrich[k]? = some f)
    (item : Candidate) :
    enrichAll (enrich.drop k) item =
      (f item.1).bind fun ind => enrichAll (enrich.drop (k + 1)) (ind, item.2) := by
  obtain ⟨inside, same⟩ := List.getElem?_eq_some_iff.mp at'
  rw [List.drop_eq_getElem_cons inside, same]
  unfold enrichAll
  rw [List.foldlM_cons]
  cases f item.1 <;> rfl

theorem enrich_denotes {spec : PipelineSpec S} (computes : Computes spec parse enrich) :
    Denotes (runEnrich spec.enrichers) (enrichRest enrich) where
  get_some {pc next} item input act := by
    cases pc with
    | waiting =>
        cases act
        refine Eq.trans ?_ (enrichRest_next computes 0 item input).symm
        rw [List.drop_zero]
        simp only [enrichRest, List.filterMap_cons]
        cases enrichAll enrich item <;> rfl
    | calling k item => simp only [runEnrich, enrichAct] at act; split at act <;> cases act
    | _ => cases act
  get_none {pc next} act := by
    cases pc with
    | waiting => cases act; rfl
    | calling k item => simp only [runEnrich, enrichAct] at act; split at act <;> cases act
    | _ => cases act
  put {pc item next} input act := by
    cases pc with
    | calling k item =>
        simp only [runEnrich, enrichAct] at act
        split at act
        · cases act
        · rename_i missing
          cases act
          have past := List.getElem?_eq_none_iff.mp missing
          simp only [enrichRest]
          rw [List.drop_eq_nil_of_le (by rw [computes.enrich_length]; exact past)]
          rfl
    | putting item => cases act; rfl
    | _ => cases act
  call {pc returns raises w w' next} input act result := by
    cases pc with
    | calling k item =>
        simp only [runEnrich, enrichAct] at act
        split at act
        · rename_i enricher found
          obtain ⟨a, env, answer, _, rfl⟩ := Call.await_returns act result
          obtain ⟨inside, _⟩ := List.getElem?_eq_some_iff.mp found
          have listed := List.getElem?_eq_getElem (l := enrich)
            (by rw [computes.enrich_length]; exact inside : k < enrich.length)
          have computed := computes.enrich_returns found listed answer
          have chain := enrichAll_drop listed item
          rw [← computed] at chain
          cases a with
          | none => simp [enrichRest, chain]
          | some ind =>
              refine Eq.trans ?_ (enrichRest_next computes (k + 1) (ind, item.2) input).symm
              simp only [enrichRest, chain]
              rfl
        · cases act
    | _ => cases act
  ret {pc} input act := by
    cases pc with
    | done => rfl
    | calling k item => simp only [runEnrich, enrichAct] at act; split at act <;> cases act
    | _ => cases act

def dedupRest : DedupPc S → List Candidate → List Candidate
  | .waiting, input => input
  | .adding _ item, input => item :: input
  | .putting item, input => item :: input
  | .done, _ => []

/-- The bloom filter drops nothing, whatever it answers. -/
theorem dedup_denotes (bloom : Option (Plugin.BloomCache S)) :
    Denotes (runDedup bloom) dedupRest where
  get_some {pc next} item input act := by
    cases pc <;> cases act
    dsimp only [dedupNext]
    split <;> rfl
  get_none {pc next} act := by
    cases pc <;> cases act
    rfl
  put {pc item next} input act := by
    cases pc <;> cases act
    rfl
  call {pc returns raises w w' next} input act result := by
    cases pc with
    | adding execute item =>
        simp only [runDedup, dedupAct] at act
        obtain ⟨a, env, _, _, rfl⟩ := Call.await_returns act result
        rfl
    | _ => cases act
  ret {pc} input act := by
    cases pc <;> cases act
    rfl

section persist

variable (publisher : Plugin.Publisher S) (ctx : RunContext) (clock : Clock) (batchSize : Int)

/-- What is left to do after a flush. -/
def afterFlush {α : Type} (last : Bool) (rest : List α) : List α := if last then [] else rest

def persistRest : PersistPc → List Candidate → List Sighting
  | .waiting n batch, input => batch ++ sightingsFrom clock ctx n input
  | .publishing n batch last, input => batch ++ afterFlush last (sightingsFrom clock ctx n input)
  | .putting n pair rest last, input =>
      pair :: rest ++ afterFlush last (sightingsFrom clock ctx n input)
  | .done, _ => []

theorem persistRest_forward (n : Nat) (rest : List Sighting) (last : Bool)
    (input : List Candidate) :
    persistRest ctx clock (forwardNext n rest last) input =
      rest ++ afterFlush last (sightingsFrom clock ctx n input) := by
  cases rest with
  | nil => cases last <;> rfl
  | cons pair rest => rfl

theorem persist_denotes :
    Denotes (runPersist publisher ctx clock batchSize) (persistRest ctx clock) where
  get_some {pc next} item input act := by
    cases pc <;> cases act
    dsimp only [persistNext]
    split <;> simp [persistRest, afterFlush, sightingsFrom_cons]
  get_none {pc next} act := by
    cases pc <;> cases act
    dsimp only
    split
    · rename_i empty
      simp [persistRest, empty, sightingsFrom]
    · rfl
  put {pc item next} input act := by
    cases pc <;> cases act
    rw [persistRest_forward]
    rfl
  call {pc returns raises w w' next} input act result := by
    cases pc with
    | publishing n batch last =>
        simp only [runPersist, persistAct] at act
        obtain ⟨a, env, _, _, rfl⟩ := Call.await_returns act result
        exact (persistRest_forward ctx clock n batch last input).symm
    | _ => cases act
  ret {pc} input act := by
    cases pc <;> cases act
    rfl

/-- The batches still to be published. -/
def persistEmit : PersistPc → List Candidate → List (List Sighting)
  | .waiting n batch, input => persistBatches batchSize batch (sightingsFrom clock ctx n input)
  | .publishing n batch last, input =>
      batch :: afterFlush last (persistBatches batchSize [] (sightingsFrom clock ctx n input))
  | .putting n _ _ last, input =>
      afterFlush last (persistBatches batchSize [] (sightingsFrom clock ctx n input))
  | .done, _ => []

theorem persistEmit_forward (n : Nat) (rest : List Sighting) (last : Bool)
    (input : List Candidate) :
    persistEmit ctx clock batchSize (forwardNext n rest last) input =
      afterFlush last (persistBatches batchSize [] (sightingsFrom clock ctx n input)) := by
  cases rest with
  | nil => cases last <;> rfl
  | cons pair rest => rfl

theorem persist_emits :
    Emits (runPersist publisher ctx clock batchSize) World.published
      (persistEmit ctx clock batchSize) where
  get_some {pc next} item input act := by
    cases pc <;> cases act
    simp only [persistEmit, persistNext, sightingsFrom_cons, persistBatches]
    split <;> simp [afterFlush]
  get_none {pc next} act := by
    cases pc <;> cases act
    simp only [persistEmit, sightingsFrom, List.zipIdx_nil, List.map_nil, persistBatches]
    split <;> rfl
  put {pc item next} input act := by
    cases pc <;> cases act
    rw [persistEmit_forward]
    rfl
  call {pc returns raises w w' next} input act result := by
    cases pc with
    | publishing n batch last =>
        simp only [runPersist, persistAct] at act
        obtain ⟨a, env, _, rfl, rfl⟩ := Call.await_returns act result
        rw [persistEmit_forward]
        simp [persistEmit]
    | _ => cases act
  ret {pc} input act := by
    cases pc <;> cases act
    rfl

end persist

theorem publish_denotes (publishers : List (Plugin.Publisher S)) (batchSize : Int) :
    Denotes (runPublish publishers batchSize) fun _ _ => [] where
  get_some _ _ _ := rfl
  get_none _ := rfl
  put {_ item _} _ _ := nomatch item
  call _ _ _ := rfl
  ret _ _ := rfl

end stages

section pipeline

variable {parse : RawPayload → List Record} {enrich : List (Indicator → Option Indicator)}
  (R : Runtime) {spec : PipelineSpec S} (clock : Clock) (ctx : RunContext)

def stageRest (computes : Computes spec parse enrich) : (i : Nat) →
    (stageCode R spec clock ctx i).Pc → List (stageItem i) → List (stageItem (i + 1))
  | 0 => fun _ _ => []
  | 1 => parseRest parse computes.left
  | 2 => normalizeRest R spec.normalize clock
  | 3 => enrichRest enrich
  | 4 => dedupRest
  | 5 => persistRest ctx clock
  | 6 => fun _ _ => []
  | _ + 7 => fun _ _ => []

/-- The payload that the fetch stage has taken from the connector and not put yet. -/
def fetchHeld {Gen : Type} : FetchPc S Gen → List RawPayload
  | .archiving _ payload _ => [payload]
  | .putting payload _ => [payload]
  | _ => []

theorem fetch_call {connector : Plugin.Connector S} {archive : Option (Plugin.RawArchive S)}
    {pc next : FetchPc S connector.Gen} {returns raises} {w w' : World S}
    (act : fetchAct connector archive pc = .call returns raises) (result : returns w w' next) :
    ∃ fresh, w'.fetched = w.fetched ++ fresh ∧ fetchHeld next = fetchHeld pc ++ fresh := by
  cases pc with
  | pulling gen =>
      cases act
      obtain ⟨answer, ctx, env, _, shape⟩ := result
      cases answer with
      | none =>
          obtain ⟨rfl, rfl⟩ := shape
          exact ⟨[], by simp, rfl⟩
      | some yielded =>
          obtain ⟨rfl, rfl⟩ := shape
          refine ⟨[yielded.1], rfl, ?_⟩
          cases archive <;> rfl
  | archiving archive payload gen =>
      simp only [fetchAct] at act
      obtain ⟨uri, env, _, rfl, rfl⟩ := Call.await_returns act result
      exact ⟨[], by simp, rfl⟩
  | _ => cases act

/-- No call of a stage after fetch adds to what was fetched. -/
theorem stage_call {i : Nat} {pc next : (stageCode R spec clock ctx i).Pc} {returns raises}
    {w w' : World S} (positive : 0 < i)
    (act : (stageCode R spec clock ctx i).act pc = .call returns raises)
    (result : returns w w' next) :
    w'.fetched = w.fetched := by
  have kept := stage_keeps R spec clock ctx positive pc
  rw [act] at kept
  exact (kept.1 _ _ _ result).2.1

/-- The pipeline as list functions: the payloads that the connector yields in, the batches of
the canonical publisher out. -/
def pipelineMeaning (computes : Computes spec parse enrich) :
    (pipelineNet R spec clock ctx).Meaning (List Sighting) where
  rest := stageRest R clock ctx computes
  denotes i positive inside := by
    match i, positive, inside with
    | 1, _, _ => exact parse_denotes computes
    | 2, _, _ => exact normalize_denotes R spec.normalize clock
    | 3, _, _ => exact enrich_denotes computes
    | 4, _, _ => exact dedup_denotes spec.bloom
    | 5, _, _ => exact persist_denotes spec.canonicalPublisher ctx clock spec.batchSize
    | 6, _, _ => exact publish_denotes spec.extraPublishers spec.batchSize
  sourced := World.fetched
  held := fetchHeld
  held_start := rfl
  held_put {pc item next} act := by
    change FetchPc S spec.connector.Gen at pc
    cases pc <;> cases act
    rfl
  held_call act result := fetch_call act result
  held_ret {pc} act := by
    change FetchPc S spec.connector.Gen at pc
    cases pc <;> cases act
    rfl
  sourced_call positive _ act result := stage_call R clock ctx positive act result
  stage := 4
  stage_inside := (by decide : 5 < 7)
  log := World.published
  emit := persistEmit ctx clock spec.batchSize
  emits := persist_emits spec.canonicalPublisher ctx clock spec.batchSize
  log_call {i pc returns raises w w' next} other _ act result := by
    have kept := stage_keeps_published R spec clock ctx other pc
    rw [show (stageCode R spec clock ctx i).act pc = .call returns raises from act] at kept
    exact kept.1 _ _ _ result

/-- A run that ends without errors has published what the sequential program makes of the
payloads, in batches that are neither empty nor too long. -/
theorem ended_published (computes : Computes spec parse enrich) {env : S}
    {allowed : (pipelineNet R spec clock ctx).State → Net.StepLabel Failure → Prop}
    {s : (pipelineNet R spec clock ctx).State}
    (run : (pipelineNet R spec clock ctx).Reaches allowed
      ((pipelineNet R spec clock ctx).init (World.fresh ctx env)) s)
    (ended : (pipelineNet R spec clock ctx).Ended s) (clean : s.errors = []) :
    s.world.published = persistBatches spec.batchSize []
      (sequentialRun R spec.normalize clock ctx parse enrich s.world.fetched) :=
  Net.ended_complete (pipelineMeaning R clock ctx computes) (pipelineLawful R spec clock ctx)
    rfl rfl run ended clean

end pipeline

/-- A pipeline with one payload of one record, a mutex. -/
def mutexSpec : PipelineSpec Unit :=
  { strictSpec with
    parser := .ofFunction fun _ => [[("value".toList, .str "m".toList)]]
    normalize := { NormalizeConfig.default with indicatorType := some .mutex } }

def mutexComputes :
    Computes mutexSpec (fun _ => [[("value".toList, .str "m".toList)]]) [] where
  left := id
  left_parse _ := rfl
  left_some {gen ctx s record gen' s'} answer := by
    cases gen with
    | nil => cases answer.1
    | cons head tail => cases answer.1; rfl
  left_none {gen ctx s s'} answer := by
    cases gen with
    | nil => rfl
    | cons head tail => cases answer.1
  enrich_length := rfl
  enrich_returns found := by cases found

abbrev mutexNet : Net (World Unit) Failure :=
  pipelineNet asciiRuntime mutexSpec zeroClock feedContext

abbrev mutexStart : mutexNet.State := mutexNet.init (World.fresh feedContext ())

section document

def mutexRecord : Record := [("value".toList, .str "m".toList)]

/-- What a pipeline makes of that record. -/
def mutexPair : Sighting :=
  persistItem feedContext zeroClock 0 (mutexSeen (spell "mutex:m".toList) "m".toList 0 [], mutexRecord)

/-- A pipeline with no more than the plugins it needs. -/
def barePipeline (connector : Plugin.Connector S) (parser : Plugin.Parser S)
    (publisher : Plugin.Publisher S) (normalize : NormalizeConfig) : PipelineSpec S where
  connector := connector
  parser := parser
  enrichers := []
  canonicalPublisher := publisher
  extraPublishers := []
  normalize := normalize
  archive := none
  bloom := none
  queueMaxsize := 1
  batchSize := 500

/-- The settings of `mutexSpec` with other plugins. -/
def mutexPipeline (connector : Plugin.Connector S) (parser : Plugin.Parser S)
    (publisher : Plugin.Publisher S) : PipelineSpec S where
  connector := connector
  parser := parser
  enrichers := []
  canonicalPublisher := publisher
  extraPublishers := []
  normalize := mutexSpec.normalize
  archive := none
  bloom := none
  queueMaxsize := 1
  batchSize := 500

/-- The plugins hand on one payload with one record. -/
structure HandsOver (ctx : RunContext) (connector : Plugin.Connector S) (parser : Plugin.Parser S)
    (publisher : Plugin.Publisher S) (payload : RawPayload) (record : Record) (pair : Sighting)
    (before after : S) : Prop where
  fetched : ∃ gen, (connector.resume connector.fetch).returns (ctx, before)
      (some (payload, gen)) (ctx, before) ∧
    (connector.resume gen).returns (ctx, before) none (ctx, before)
  parsed : ∃ gen, (parser.resume (parser.parse payload) ctx).returns before
      (some (record, gen)) before ∧
    (parser.resume gen ctx).returns before none before
  published : (publisher.publish [pair] ctx).returns before () after

/-- The plugins hand on one payload with that record. -/
structure HandsOn (connector : Plugin.Connector S) (parser : Plugin.Parser S)
    (publisher : Plugin.Publisher S) (payload : RawPayload) (before after : S) : Prop where
  fetched : ∃ gen, (connector.resume connector.fetch).returns (feedContext, before)
      (some (payload, gen)) (feedContext, before) ∧
    (connector.resume gen).returns (feedContext, before) none (feedContext, before)
  parsed : ∃ gen, (parser.resume (parser.parse payload) feedContext).returns before
      (some (mutexRecord, gen)) before ∧
    (parser.resume gen feedContext).returns before none before
  published : (publisher.publish [mutexPair] feedContext).returns before () after

variable {connector : Plugin.Connector S} {parser : Plugin.Parser S}
  {publisher : Plugin.Publisher S} {payload : RawPayload} {before after : S}

/-- Such a pipeline can end with the one indicator published. -/
theorem HandsOver.delivered {R : Runtime} {clock : Clock} {ctx : RunContext}
    {cfg : NormalizeConfig} {record : Record} {ind : Indicator}
    (normalized : normalizeRecord R record cfg (clock.record 0).1 (clock.record 0).2 = .ok (some ind))
    (hands : HandsOver ctx connector parser publisher payload record
      (persistItem ctx clock 0 (ind, record)) before after) :
    ∃ u, (pipelineNet R (barePipeline connector parser publisher cfg) clock ctx).Reaches Net.Smooth
        ((pipelineNet R (barePipeline connector parser publisher cfg) clock ctx).init
          (World.fresh ctx before)) u ∧
      (pipelineNet R (barePipeline connector parser publisher cfg) clock ctx).Ended u ∧
      u.errors = [] ∧
      u.world = ⟨ctx, after, [payload], [[persistItem ctx clock 0 (ind, record)]]⟩ := by
  obtain ⟨gen, fetched, exhausted⟩ := hands.fetched
  obtain ⟨rest, parsed, drained⟩ := hands.parsed
  have published := hands.published
  have built : normalizeNext R cfg clock 0 record = .putting (ind, record) 1 := by
    unfold normalizeNext
    split <;> simp_all
  have inside : ∀ {i}, i < 7 → i < (pipelineNet R
    (barePipeline connector parser publisher cfg) clock ctx).size := id
  have now : ∀ {Pc : Type} {pc pc' : Pc}, pc = pc' →
      (⟨.running pc, false⟩ : TaskNet.Task Pc Failure) = ⟨.running pc', false⟩ := by
    rintro Pc pc _ rfl
    rfl
  suffices leads : (pipelineNet R (barePipeline connector parser publisher cfg) clock
      ctx).Leads Net.Smooth _ _ _ from leads .refl
  refine .step (.task _ 0 _ _ (inside (by decide)) (.start _ rfl)) nofun ?_
  refine .step (.task _ 1 _ _ (inside (by decide)) (.start _ rfl)) nofun ?_
  refine .step (.task _ 2 _ _ (inside (by decide)) (.start _ rfl)) nofun ?_
  refine .step (.task _ 3 _ _ (inside (by decide)) (.start _ rfl)) nofun ?_
  refine .step (.task _ 4 _ _ (inside (by decide)) (.start _ rfl)) nofun ?_
  refine .step (.task _ 5 _ _ (inside (by decide)) (.start _ rfl)) nofun ?_
  refine .step (.task _ 6 _ _ (inside (by decide)) (.start _ rfl)) nofun ?_
  refine .step (.task _ 0 _ _ (inside (by decide)) (.call _ _ _ _ _ _ rfl rfl
    ⟨some (payload, gen), ctx, before, fetched, rfl, rfl⟩)) nofun ?_
  refine .step (.task _ 0 _ _ (inside (by decide)) (.put _ _ _ _ rfl rfl
    (TaskNet.Channel.not_full_nil rfl))) nofun ?_
  refine .step (.task _ 1 _ _ (inside (by decide)) (.get _ _ _ _ _ rfl rfl rfl)) nofun ?_
  refine .step (.task _ 0 _ _ (inside (by decide)) (.call _ _ _ _ _ _ rfl rfl
    ⟨none, ctx, before, exhausted, rfl, rfl⟩)) nofun ?_
  refine .step (.task _ 0 _ _ (inside (by decide)) (.ret _ _ rfl rfl)) nofun ?_
  refine .step (.task _ 0 _ _ (inside (by decide)) (.close _ _ rfl
    (TaskNet.Channel.not_full_nil rfl))) nofun ?_
  refine .step (.task _ 1 _ _ (inside (by decide)) (.call _ _ _ _ _ _ rfl rfl
    ⟨some (record, rest), before, parsed, rfl, rfl⟩)) nofun ?_
  refine .step (.task _ 1 _ _ (inside (by decide)) (.put _ _ _ _ rfl rfl
    (TaskNet.Channel.not_full_nil rfl))) nofun ?_
  refine .step (.task _ 2 _ _ (inside (by decide)) (.get _ _ _ _ _ rfl rfl rfl)) nofun ?_
  refine .step (.task _ 2 _ _ (inside (by decide)) (.put _ _ _ _ (now built) rfl
    (TaskNet.Channel.not_full_nil rfl))) nofun ?_
  refine .step (.task _ 3 _ _ (inside (by decide)) (.get _ _ _ _ _ rfl rfl rfl)) nofun ?_
  refine .step (.task _ 3 _ _ (inside (by decide)) (.put _ _ _ _ rfl rfl
    (TaskNet.Channel.not_full_nil rfl))) nofun ?_
  refine .step (.task _ 4 _ _ (inside (by decide)) (.get _ _ _ _ _ rfl rfl rfl)) nofun ?_
  refine .step (.task _ 4 _ _ (inside (by decide)) (.put _ _ _ _ rfl rfl
    (TaskNet.Channel.not_full_nil rfl))) nofun ?_
  refine .step (.task _ 5 _ _ (inside (by decide)) (.get _ _ _ _ _ rfl rfl rfl)) nofun ?_
  refine .step (.task _ 1 _ _ (inside (by decide)) (.call _ _ _ _ _ _ rfl rfl
    ⟨none, before, drained, rfl, rfl⟩)) nofun ?_
  refine .step (.task _ 1 _ _ (inside (by decide)) (.get _ _ _ _ _ rfl rfl rfl)) nofun ?_
  refine .step (.task _ 1 _ _ (inside (by decide)) (.ret _ _ rfl rfl)) nofun ?_
  refine .step (.task _ 1 _ _ (inside (by decide)) (.close _ _ rfl
    (TaskNet.Channel.not_full_nil rfl))) nofun ?_
  refine .step (.task _ 2 _ _ (inside (by decide)) (.get _ _ _ _ _ rfl rfl rfl)) nofun ?_
  refine .step (.task _ 2 _ _ (inside (by decide)) (.ret _ _ rfl rfl)) nofun ?_
  refine .step (.task _ 2 _ _ (inside (by decide)) (.close _ _ rfl
    (TaskNet.Channel.not_full_nil rfl))) nofun ?_
  refine .step (.task _ 3 _ _ (inside (by decide)) (.get _ _ _ _ _ rfl rfl rfl)) nofun ?_
  refine .step (.task _ 3 _ _ (inside (by decide)) (.ret _ _ rfl rfl)) nofun ?_
  refine .step (.task _ 3 _ _ (inside (by decide)) (.close _ _ rfl
    (TaskNet.Channel.not_full_nil rfl))) nofun ?_
  refine .step (.task _ 4 _ _ (inside (by decide)) (.get _ _ _ _ _ rfl rfl rfl)) nofun ?_
  refine .step (.task _ 4 _ _ (inside (by decide)) (.ret _ _ rfl rfl)) nofun ?_
  refine .step (.task _ 4 _ _ (inside (by decide)) (.close _ _ rfl
    (TaskNet.Channel.not_full_nil rfl))) nofun ?_
  refine .step (.task _ 5 _ _ (inside (by decide)) (.get _ _ _ _ _ rfl rfl rfl)) nofun ?_
  refine .step (.task _ 5 _ _ (inside (by decide)) (.call _ _ _ _ _ _ rfl rfl
    ⟨(), after, published, rfl, rfl⟩)) nofun ?_
  refine .step (.task _ 5 _ _ (inside (by decide)) (.put _ _ _ _ rfl rfl
    (TaskNet.Channel.not_full_nil rfl))) nofun ?_
  refine .step (.task _ 6 _ _ (inside (by decide)) (.get _ _ _ _ _ rfl rfl rfl)) nofun ?_
  refine .step (.task _ 5 _ _ (inside (by decide)) (.ret _ _ rfl rfl)) nofun ?_
  refine .step (.task _ 5 _ _ (inside (by decide)) (.close _ _ rfl
    (TaskNet.Channel.not_full_nil rfl))) nofun ?_
  refine .step (.task _ 6 _ _ (inside (by decide)) (.get _ _ _ _ _ rfl rfl rfl)) nofun ?_
  refine .step (.task _ 6 _ _ (inside (by decide)) (.ret _ _ rfl rfl)) nofun ?_
  intro run
  have healthy := Net.Healthy.reaches (pipelineLawful _ _ _ _) run
  refine ⟨_, run, ?_, healthy.clean, rfl⟩
  intro i below
  match i, below with
  | 0, _ => exact ⟨_, rfl⟩
  | 1, _ => exact ⟨_, rfl⟩
  | 2, _ => exact ⟨_, rfl⟩
  | 3, _ => exact ⟨_, rfl⟩
  | 4, _ => exact ⟨_, rfl⟩
  | 5, _ => exact ⟨_, rfl⟩
  | 6, _ => exact ⟨_, rfl⟩

/-- So can a pipeline with the settings of `mutexSpec`. -/
theorem HandsOn.delivered (hands : HandsOn connector parser publisher payload before after) :
    ∃ u, (pipelineNet asciiRuntime (mutexPipeline connector parser publisher) zeroClock
          feedContext).Reaches Net.Smooth
        ((pipelineNet asciiRuntime (mutexPipeline connector parser publisher) zeroClock
          feedContext).init (World.fresh feedContext before)) u ∧
      (pipelineNet asciiRuntime (mutexPipeline connector parser publisher) zeroClock
        feedContext).Ended u ∧
      u.errors = [] ∧ u.world = ⟨feedContext, after, [payload], [[mutexPair]]⟩ := by
  have normalized : normalizeRecord asciiRuntime mutexRecord mutexSpec.normalize
      (zeroClock.record 0).1 (zeroClock.record 0).2 =
      .ok (some (mutexSeen (spell "mutex:m".toList) "m".toList 0 [])) := rfl
  have given : HandsOver feedContext connector parser publisher payload mutexRecord mutexPair
      before after := ⟨hands.fetched, hands.parsed, hands.published⟩
  exact HandsOver.delivered normalized given

end document

theorem mutex_hands_on :
    HandsOn mutexSpec.connector mutexSpec.parser mutexSpec.canonicalPublisher emptyPayload () ()
    where
  fetched := ⟨_, ⟨rfl, rfl⟩, rfl, rfl⟩
  parsed := ⟨_, ⟨rfl, rfl⟩, rfl, rfl⟩
  published := ⟨rfl, rfl⟩

theorem mutex_delivered :
    ∃ u, mutexNet.Reaches Net.Smooth mutexStart u ∧ mutexNet.Ended u ∧
      u.world.published.flatten.length = 1 := by
  obtain ⟨u, run, ended, _, world⟩ := mutex_hands_on.delivered
  exact ⟨u, run, ended, by rw [world]; rfl⟩

end Cti
