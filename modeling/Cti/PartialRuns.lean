import Cti.Delivery
import Cti.TaskNetPrefix

set_option autoImplicit false

/- What the canonical publisher has been given when a run fails. -/
namespace Cti

open Py (Str)
open TaskNet (Emits Net)

variable {S : Type}

section stages

variable {parse : RawPayload → List Record} {enrich : List (Indicator → Option Indicator)}

theorem zipIdx_mono {α : Type} {l l' : List α} (less : l <+: l') (n : Nat) :
    l.zipIdx n <+: l'.zipIdx n := by
  obtain ⟨rest, rfl⟩ := less
  rw [List.zipIdx_append]
  exact List.prefix_append _ _

theorem parseRest_mono {Gen : Type} (left : Gen → List Record) (pc : ParsePc Gen)
    {l l' : List RawPayload} (less : l <+: l') :
    parseRest parse left pc l <+: parseRest parse left pc l' := by
  have records : l.flatMap parse <+: l'.flatMap parse := less.flatMap parse
  cases pc with
  | waiting => exact records
  | pulling gen => exact (List.prefix_append_right_inj _).mpr records
  | putting record gen => exact (List.prefix_append_right_inj _).mpr records
  | done => exact List.prefix_rfl

theorem normalizeRest_mono (R : Runtime) (cfg : NormalizeConfig) (clock : Clock) (pc : NormalizePc)
    {l l' : List Record} (less : l <+: l') :
    normalizeRest R cfg clock pc l <+: normalizeRest R cfg clock pc l' := by
  have candidates : ∀ n, normalizedFrom R cfg clock n l <+: normalizedFrom R cfg clock n l' :=
    fun n => (zipIdx_mono less n).filterMap _
  cases pc with
  | waiting n => exact candidates n
  | putting item n => exact (List.prefix_append_right_inj [item]).mpr (candidates n)
  | raising failure n => exact candidates n
  | done => exact List.prefix_rfl

theorem enrichRest_mono (pc : EnrichPc) {l l' : List Candidate} (less : l <+: l') :
    enrichRest enrich pc l <+: enrichRest enrich pc l' := by
  have enriched : l.filterMap (enrichAll enrich) <+: l'.filterMap (enrichAll enrich) :=
    less.filterMap _
  cases pc with
  | waiting => exact enriched
  | calling k item => exact (List.prefix_append_right_inj _).mpr enriched
  | putting item => exact (List.prefix_append_right_inj [item]).mpr enriched
  | done => exact List.prefix_rfl

theorem dedupRest_mono (pc : DedupPc S) {l l' : List Candidate} (less : l <+: l') :
    dedupRest pc l <+: dedupRest pc l' := by
  cases pc with
  | waiting => exact less
  | adding execute item => exact (List.prefix_append_right_inj [item]).mpr less
  | putting item => exact (List.prefix_append_right_inj [item]).mpr less
  | done => exact List.prefix_rfl

end stages

section persist

variable (publisher : Plugin.Publisher S) (ctx : RunContext) (clock : Clock) (batchSize : Int)

theorem sightingsFrom_mono {l l' : List Candidate} (less : l <+: l') (n : Nat) :
    sightingsFrom clock ctx n l <+: sightingsFrom clock ctx n l' :=
  (zipIdx_mono less n).map _

theorem afterFlush_mono {α : Type} {l l' : List α} (less : l <+: l') (last : Bool) :
    afterFlush last l <+: afterFlush last l' := by
  cases last
  · exact less
  · exact List.prefix_rfl

theorem persistRest_mono (pc : PersistPc) {l l' : List Candidate} (less : l <+: l') :
    persistRest ctx clock pc l <+: persistRest ctx clock pc l' := by
  have pairs := sightingsFrom_mono ctx clock less
  cases pc with
  | waiting n batch => exact (List.prefix_append_right_inj _).mpr (pairs n)
  | publishing n batch last =>
      exact (List.prefix_append_right_inj _).mpr (afterFlush_mono (pairs n) last)
  | putting n pair rest last =>
      exact (List.prefix_append_right_inj _).mpr (afterFlush_mono (pairs n) last)
  | done => exact List.prefix_rfl

/-- The pairs still to be published, whatever their batches. -/
def persistPairs : PersistPc → List Candidate → List Sighting
  | .waiting n batch, input => batch ++ sightingsFrom clock ctx n input
  | .publishing n batch last, input => batch ++ afterFlush last (sightingsFrom clock ctx n input)
  | .putting n _ _ last, input => afterFlush last (sightingsFrom clock ctx n input)
  | .done, _ => []

theorem persistPairs_mono (pc : PersistPc) {l l' : List Candidate} (less : l <+: l') :
    persistPairs ctx clock pc l <+: persistPairs ctx clock pc l' := by
  have pairs := sightingsFrom_mono ctx clock less
  cases pc with
  | waiting n batch => exact (List.prefix_append_right_inj _).mpr (pairs n)
  | publishing n batch last =>
      exact (List.prefix_append_right_inj _).mpr (afterFlush_mono (pairs n) last)
  | putting n pair rest last => exact afterFlush_mono (pairs n) last
  | done => exact List.prefix_rfl

theorem persistPairs_forward (n : Nat) (rest : List Sighting) (last : Bool)
    (input : List Candidate) :
    persistPairs ctx clock (forwardNext n rest last) input =
      afterFlush last (sightingsFrom clock ctx n input) := by
  cases rest with
  | nil => cases last <;> rfl
  | cons pair rest => rfl

theorem persist_emits_pairs :
    Emits (runPersist publisher ctx clock batchSize) (fun w => w.published.flatten)
      (persistPairs ctx clock) where
  get_some {pc next} item input act := by
    cases pc <;> cases act
    dsimp only [persistNext]
    split <;> simp [persistPairs, afterFlush, sightingsFrom_cons]
  get_none {pc next} act := by
    cases pc <;> cases act
    dsimp only
    split
    · rename_i empty
      simp [persistPairs, empty, sightingsFrom]
    · rfl
  put {pc item next} input act := by
    cases pc <;> cases act
    rw [persistPairs_forward]
    rfl
  call {pc returns raises w w' next} input act result := by
    cases pc with
    | publishing n batch last =>
        simp only [runPersist, persistAct] at act
        obtain ⟨a, env, _, rfl, rfl⟩ := Call.await_returns act result
        rw [persistPairs_forward]
        simp [persistPairs]
    | _ => cases act
  ret {pc} input act := by
    cases pc <;> cases act
    rfl

end persist

section pipeline

variable {parse : RawPayload → List Record} {enrich : List (Indicator → Option Indicator)}
  (R : Runtime) {spec : PipelineSpec S} (clock : Clock) (ctx : RunContext)

/-- The pipeline as list functions: the payloads that the connector yields in, the pairs of the
canonical publisher out. -/
def pairsMeaning (computes : Computes spec parse enrich) :
    (pipelineNet R spec clock ctx).Meaning Sighting :=
  { pipelineMeaning R clock ctx computes with
    log := fun w => w.published.flatten
    emit := persistPairs ctx clock
    emits := persist_emits_pairs spec.canonicalPublisher ctx clock spec.batchSize
    log_call := fun other inside act result =>
      congrArg List.flatten
        ((pipelineMeaning R clock ctx computes).log_call other inside act result) }

theorem publish_raise {w w' : World S} {pc : PersistPc} {returns raises} {e : Failure}
    (act : persistAct spec.canonicalPublisher ctx clock spec.batchSize pc = .call returns raises)
    (result : raises w e w') : w'.published = w.published := by
  cases pc with
  | publishing n batch last =>
      simp only [persistAct, Call.await] at act
      cases act
      obtain ⟨env, _, rfl⟩ := result
      rfl
  | _ => cases act

theorem fetch_raise {w w' : World S} {pc : FetchPc S spec.connector.Gen} {returns raises}
    {e : Failure} (act : fetchAct spec.connector spec.archive pc = .call returns raises)
    (result : raises w e w') : w'.fetched = w.fetched := by
  cases pc with
  | pulling gen =>
      cases act
      obtain ⟨ctx, env, _, rfl⟩ := result
      rfl
  | archiving archive payload gen =>
      simp only [fetchAct, Call.await] at act
      cases act
      obtain ⟨env, _, rfl⟩ := result
      rfl
  | _ => cases act

/-- A stage that raises has fetched and published nothing. -/
theorem stage_raise {i : Nat} {pc : (stageCode R spec clock ctx i).Pc} {returns raises}
    {w w' : World S} {e : Failure}
    (act : (stageCode R spec clock ctx i).act pc = .call returns raises) (result : raises w e w') :
    w'.fetched = w.fetched ∧ w'.published = w.published := by
  constructor
  · by_cases source : i = 0
    · subst source
      exact fetch_raise act result
    · have kept := stage_keeps R spec clock ctx (Nat.pos_of_ne_zero source) pc
      rw [act] at kept
      exact (kept.2 _ _ _ result).2.1
  · by_cases own : i = 5
    · subst own
      exact publish_raise clock ctx act result
    · have kept := stage_keeps_published R spec clock ctx own pc
      rw [act] at kept
      exact kept.2 _ _ _ result

theorem pairsMeaning_monotone (computes : Computes spec parse enrich) :
    (pairsMeaning R clock ctx computes).Monotone where
  rest {i} positive inside pc {l l'} less := by
    match i, positive, inside with
    | 1, _, _ => exact parseRest_mono computes.left pc less
    | 2, _, _ => exact normalizeRest_mono R spec.normalize clock pc less
    | 3, _, _ => exact enrichRest_mono pc less
    | 4, _, _ => exact dedupRest_mono pc less
    | 5, _, _ => exact persistRest_mono ctx clock pc less
    | 6, _, _ => exact List.prefix_rfl
  emit pc {l l'} less := persistPairs_mono ctx clock pc less
  raise _ act result := by
    obtain ⟨fetched, published⟩ := stage_raise R clock ctx act result
    exact ⟨fetched, congrArg List.flatten published⟩

/-- At every point of every run, whatever has failed in it by then, the pairs that the canonical
publisher has taken are the first ones that the sequential program makes of the payloads. -/
theorem published_prefix (computes : Computes spec parse enrich) (env : S)
    {s : (pipelineNet R spec clock ctx).State} {allowed}
    (run : (pipelineNet R spec clock ctx).Reaches allowed
      ((pipelineNet R spec clock ctx).init (World.fresh ctx env)) s) :
    s.world.published.flatten <+:
      sequentialRun R spec.normalize clock ctx parse enrich s.world.fetched :=
  Net.log_prefix (pairsMeaning_monotone R clock ctx computes) (pipelineLawful R spec clock ctx)
    rfl rfl run

theorem published_prefix_mutex :
    ∃ u, mutexNet.Reaches Net.Smooth mutexStart u ∧ u.world.published.flatten.length = 1 ∧
      u.world.published.flatten <+:
        sequentialRun asciiRuntime mutexSpec.normalize zeroClock feedContext
          (fun _ => [[("value".toList, .str "m".toList)]]) [] u.world.fetched := by
  obtain ⟨u, run, _, single⟩ := mutex_delivered
  exact ⟨u, run, single, published_prefix asciiRuntime zeroClock feedContext mutexComputes () run⟩

end pipeline

end Cti
