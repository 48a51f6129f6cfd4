import Cti.Pipeline
import Cti.TaskNetTyping

set_option autoImplicit false

/- What holds of everything that flows through a pipeline. -/
namespace Cti

open Py (Str)
open TaskNet (Action Channel Contract Coroutine Net)

variable {S : Type}

section positions

/-- The archive at hand is that of the pipeline. -/
def FetchPc.Own {Gen : Type} (archive : Option (Plugin.RawArchive S)) : FetchPc S Gen → Prop
  | .archiving mine _ _ => archive = some mine
  | _ => True

theorem fetchNext_own {Gen : Type} (archive : Option (Plugin.RawArchive S)) (payload : RawPayload)
    (gen : Gen) : (fetchNext archive payload gen).Own archive := by
  cases archive with
  | none => trivial
  | some archive => exact rfl

/-- The candidate at hand is good. -/
def NormalizePc.Holds (Good : Candidate → Prop) : NormalizePc → Prop
  | .putting item _ => Good item
  | _ => True

theorem normalizeNext_holds {R : Runtime} {cfg : NormalizeConfig} {clock : Clock} {n : Nat}
    {record : Record} {Good : Candidate → Prop}
    (good : ∀ {ind}, normalizeRecord R record cfg (clock.record n).1 (clock.record n).2 =
      .ok (some ind) → Good (ind, record)) : (normalizeNext R cfg clock n record).Holds Good := by
  unfold normalizeNext
  split
  · rename_i ind result
    exact good result
  · trivial
  · trivial

def EnrichPc.Holds (Good : Candidate → Prop) : EnrichPc → Prop
  | .calling _ item => Good item
  | .putting item => Good item
  | _ => True

theorem enrichNext_holds {Good : Candidate → Prop} (enrichers : List (Plugin.Enricher S)) (k : Nat)
    {item : Candidate} (good : Good item) : (enrichNext enrichers k item).Holds Good := by
  unfold enrichNext
  split <;> exact good

/-- The client at hand is that of the pipeline, and the candidate is good. -/
def DedupPc.Holds (bloom : Option (Plugin.BloomCache S)) (Good : Candidate → Prop) :
    DedupPc S → Prop
  | .adding execute item => bloom.bind Plugin.BloomCache.redis = some execute ∧ Good item
  | .putting item => Good item
  | _ => True

theorem dedupNext_holds (bloom : Option (Plugin.BloomCache S)) {Good : Candidate → Prop}
    {item : Candidate} (good : Good item) : (dedupNext bloom item).Holds bloom Good := by
  unfold dedupNext
  split
  · rename_i execute found
    exact ⟨found, good⟩
  · exact good

/-- The pairs at hand are made from good candidates, and those to be forwarded are good. -/
def PersistPc.Holds (Made Good : Sighting → Prop) : PersistPc → Prop
  | .waiting _ batch => ∀ pair ∈ batch, Made pair
  | .publishing _ batch _ => ∀ pair ∈ batch, Made pair
  | .putting _ pair rest _ => ∀ member ∈ pair :: rest, Good member
  | .done => True

theorem persistNext_holds {Made Good : Sighting → Prop} (batchSize : Int) (n : Nat)
    {batch : List Sighting} (made : ∀ pair ∈ batch, Made pair) :
    (persistNext batchSize n batch).Holds Made Good := by
  unfold persistNext
  split <;> exact made

theorem forwardNext_holds {Made Good : Sighting → Prop} (n : Nat) {rest : List Sighting}
    (last : Bool) (good : ∀ pair ∈ rest, Good pair) :
    (forwardNext n rest last).Holds Made Good := by
  cases rest with
  | nil =>
      cases last
      · exact fun _ member => (List.not_mem_nil member).elim
      · trivial
  | cons pair rest => exact good

theorem PersistPc.Holds.mono {Made Good Good' : Sighting → Prop} {pc : PersistPc}
    (holds : pc.Holds Made Good) (weaker : ∀ pair, Good pair → Good' pair) :
    pc.Holds Made Good' := by
  cases pc with
  | putting n pair rest last => exact fun member inside => weaker _ (holds member inside)
  | _ => exact holds

/-- Everything that waits for the extra publishers is good. -/
def Batches.All (Good : Sighting → Prop) (batches : Batches) : Prop :=
  ∀ name, ∀ pair ∈ batches name, Good pair

theorem Batches.All.mono {Good Good' : Sighting → Prop} {batches : Batches}
    (all : batches.All Good) (weaker : ∀ pair, Good pair → Good' pair) : batches.All Good' :=
  fun name pair member => weaker pair (all name pair member)

theorem Batches.All.update {Good : Sighting → Prop} {batches : Batches} (all : batches.All Good)
    (name : Str) {batch : List Sighting} (fresh : ∀ pair ∈ batch, Good pair) :
    Batches.All Good (Function.update batches name batch) := by
  intro other
  by_cases same : other = name
  · subst same
    rw [Function.update_self]
    exact fresh
  · rw [Function.update_of_ne same]
    exact all other

/-- The publishers at hand are those of the pipeline, and what waits for them is good. -/
def PublishPc.Holds (publishers : List (Plugin.Publisher S)) (Good : Sighting → Prop) :
    PublishPc S → Prop
  | .waiting batches => batches.All Good
  | .flushing publisher rest pair batches =>
      publisher :: rest ⊆ publishers ∧ Good pair ∧ batches.All Good
  | .finishing publisher rest batches => publisher :: rest ⊆ publishers ∧ batches.All Good
  | _ => True

theorem PublishPc.Holds.mono {publishers : List (Plugin.Publisher S)}
    {Good Good' : Sighting → Prop} {pc : PublishPc S} (holds : pc.Holds publishers Good)
    (weaker : ∀ pair, Good pair → Good' pair) : pc.Holds publishers Good' := by
  cases pc with
  | waiting batches => exact Batches.All.mono holds weaker
  | flushing publisher rest pair batches =>
      exact ⟨holds.1, weaker _ holds.2.1, holds.2.2.mono weaker⟩
  | finishing publisher rest batches => exact ⟨holds.1, holds.2.mono weaker⟩
  | _ => trivial

theorem offer_holds {publishers rest : List (Plugin.Publisher S)} {Good : Sighting → Prop}
    (batchSize : Int) {pair : Sighting} (good : Good pair) (inside : rest ⊆ publishers)
    {batches : Batches} (all : batches.All Good) :
    (offer batchSize pair rest batches).Holds publishers Good := by
  induction rest generalizing batches with
  | nil => exact all
  | cons publisher rest ih =>
      have grown : ∀ member ∈ batches publisher.name ++ [pair], Good member := by
        intro member inside
        rcases List.mem_append.mp inside with old | new
        · exact all publisher.name member old
        · cases List.mem_singleton.mp new
          exact good
      simp only [offer]
      split
      · exact ⟨inside, good, all.update publisher.name grown⟩
      · exact ih (List.subset_of_cons_subset inside) (all.update publisher.name grown)

theorem finish_holds {publishers rest : List (Plugin.Publisher S)} {Good : Sighting → Prop}
    (inside : rest ⊆ publishers) {batches : Batches} (all : batches.All Good) :
    (finish rest batches).Holds publishers Good := by
  induction rest with
  | nil => trivial
  | cons publisher rest ih =>
      simp only [finish]
      split
      · exact ih (List.subset_of_cons_subset inside)
      · exact ⟨inside, all⟩

end positions

/-- A call of a plugin takes the world to a later one. -/
def Call.Moves {α : Type} (Later : World S → World S → Prop) (w : World S) (call : Call S α) :
    Prop :=
  (∀ a env, call.returns w.env a env → Later w { w with env := env }) ∧
    ∀ e env, call.raises w.env e env → Later w { w with env := env }

theorem Call.Moves.mono {α : Type} {P Q : World S → World S → Prop} {w : World S} {call : Call S α}
    (moves : call.Moves P w) (weaker : ∀ {w w'}, P w w' → Q w w') : call.Moves Q w :=
  ⟨fun a env result => weaker (moves.1 a env result), fun e env result => weaker (moves.2 e env result)⟩

theorem Call.Moves.await {α β γ Pc : Type} {Later : World S → World S → Prop} {w : World S}
    {call : RunContext → Call S α} (moves : (call w.ctx).Moves Later w) {next : α → Pc} :
    (Call.await call (fun _ w => w) next : Action (World S) Failure β γ Pc).KeepsAt Later w := by
  constructor
  · rintro _ _ ⟨a, env, result, rfl, _⟩
    exact moves.1 a env result
  · rintro _ _ ⟨env, result, rfl⟩
    exact moves.2 _ env result

variable (R : Runtime) (spec : PipelineSpec S) (clock : Clock) (ctx : RunContext)

/-- Properties of the candidates, of the pairs that persist makes of them and of the pairs
that it forwards, which the plugins keep. -/
structure PipelineTyping where
  Later : World S → World S → Prop
  refl : ∀ w, Later w w
  trans : ∀ {w w' w''}, Later w w' → Later w' w'' → Later w w''
  Fine : Candidate → Prop
  Made : Sighting → Prop
  Good : World S → Sighting → Prop
  good_mono : ∀ {w w'}, Later w w' → ∀ pair, Good w pair → Good w' pair
  fetch : ∀ {pc : FetchPc S spec.connector.Gen} (w), pc.Own spec.archive →
    (fetchAct spec.connector spec.archive pc).KeepsAt Later w
  parse : ∀ gen w, (spec.parser.resume gen w.ctx).Moves Later w
  normalize : ∀ {n record ind}, normalizeRecord R record spec.normalize (clock.record n).1
    (clock.record n).2 = .ok (some ind) → Fine (ind, record)
  enrich : ∀ enricher ∈ spec.enrichers, ∀ ind w, (enricher.enrich ind w.ctx).Moves Later w
  enriched : ∀ enricher ∈ spec.enrichers, ∀ {item : Candidate} {w : World S} {ind env}, Fine item →
    (enricher.enrich item.1 w.ctx).returns w.env (some ind) env → Fine (ind, item.2)
  dedup : ∀ {execute}, spec.bloom.bind Plugin.BloomCache.redis = some execute → ∀ id w,
    (Plugin.BloomCache.add execute id).Moves Later w
  made : ∀ {item} n, Fine item → Made (persistItem ctx clock n item)
  committed : ∀ {batch}, (∀ pair ∈ batch, Made pair) → ∀ {w env},
    (spec.canonicalPublisher.publish batch w.ctx).returns w.env () env →
      Later w { w with env := env, published := w.published ++ [batch] } ∧
        ∀ pair ∈ batch, Good { w with env := env, published := w.published ++ [batch] } pair
  failed : ∀ {batch}, (∀ pair ∈ batch, Made pair) → ∀ {w e env},
    (spec.canonicalPublisher.publish batch w.ctx).raises w.env e env → Later w { w with env := env }
  publish : ∀ publisher ∈ spec.extraPublishers, ∀ {w batch}, (∀ pair ∈ batch, Good w pair) →
    (publisher.publish batch w.ctx).Moves Later w

namespace PipelineTyping

variable {R spec clock ctx} (P : PipelineTyping R spec clock ctx)

theorem fetch_contract :
    Contract (runFetch spec.connector spec.archive) P.Later (fun _ _ => True)
      (fun _ => FetchPc.Own spec.archive) (fun _ _ => True) where
  start _ := trivial
  get {w pc next} _ act := by
    cases pc <;> cases act
  put {w pc item next} _ act := by
    cases pc <;> cases act
    exact ⟨trivial, trivial⟩
  call {w pc returns raises w' next} _ act result _ := by
    cases pc with
    | pulling gen =>
        cases act
        obtain ⟨answer, ctx, env, _, after⟩ := result
        cases answer with
        | none =>
            obtain ⟨_, rfl⟩ := after
            trivial
        | some yielded =>
            obtain ⟨_, rfl⟩ := after
            exact fetchNext_own spec.archive yielded.1 yielded.2
    | archiving mine payload gen =>
        simp only [runFetch, fetchAct] at act
        obtain ⟨uri, env, _, _, rfl⟩ := Call.await_returns act result
        trivial
    | _ => cases act
  keeps {w _} own := P.fetch w own

theorem parse_contract :
    Contract (runParse spec.parser) P.Later (fun _ _ => True) (fun _ _ => True)
      (fun _ _ => True) where
  start _ := trivial
  get _ _ := ⟨trivial, fun _ _ => trivial⟩
  put _ _ := ⟨trivial, trivial⟩
  call _ _ _ _ := trivial
  keeps {w pc} _ := by
    cases pc with
    | pulling gen =>
        simp only [runParse, parseAct]
        exact (P.parse gen w).await
    | _ => trivial

theorem normalize_contract :
    Contract (runNormalize R spec.normalize clock) P.Later (fun _ _ => True)
      (fun _ => NormalizePc.Holds P.Fine) (fun _ => P.Fine) where
  start _ := trivial
  get {w pc next} _ act := by
    cases pc <;> cases act
    exact ⟨trivial, fun record _ => normalizeNext_holds P.normalize⟩
  put {w pc item next} holds act := by
    cases pc <;> cases act
    exact ⟨holds, trivial⟩
  call {w pc returns raises w' next} _ act result _ := by
    cases pc with
    | raising failure n =>
        cases act
        exact result.elim
    | _ => cases act
  keeps {w pc} _ := by
    cases pc with
    | raising failure n =>
        refine ⟨fun _ _ result => result.elim, ?_⟩
        rintro e w' ⟨_, rfl⟩
        exact P.refl _
    | _ => trivial

theorem enrich_contract :
    Contract (runEnrich spec.enrichers) P.Later (fun _ => P.Fine)
      (fun _ => EnrichPc.Holds P.Fine) (fun _ => P.Fine) where
  start _ := trivial
  get {w pc next} _ act := by
    cases pc with
    | waiting =>
        cases act
        exact ⟨trivial, fun item fine => enrichNext_holds spec.enrichers 0 fine⟩
    | calling k item => simp only [runEnrich, enrichAct] at act; split at act <;> cases act
    | _ => cases act
  put {w pc item next} holds act := by
    cases pc with
    | calling k item =>
        simp only [runEnrich, enrichAct] at act
        split at act <;> cases act
        exact ⟨holds, trivial⟩
    | putting item =>
        cases act
        exact ⟨holds, trivial⟩
    | _ => cases act
  call {w pc returns raises w' next} holds act result _ := by
    cases pc with
    | calling k item =>
        simp only [runEnrich, enrichAct] at act
        split at act
        · rename_i enricher found
          obtain ⟨answer, env, answered, _, rfl⟩ := Call.await_returns act result
          cases answer with
          | none => trivial
          | some ind =>
              exact enrichNext_holds spec.enrichers (k + 1)
                (P.enriched enricher (List.mem_of_getElem? found) holds answered)
        · cases act
    | _ => cases act
  keeps {w pc} _ := by
    cases pc with
    | calling k item =>
        simp only [runEnrich, enrichAct]
        split
        · rename_i enricher found
          exact (P.enrich enricher (List.mem_of_getElem? found) item.1 w).await
        · trivial
    | _ => trivial

theorem dedup_contract :
    Contract (runDedup spec.bloom) P.Later (fun _ => P.Fine)
      (fun _ => DedupPc.Holds spec.bloom P.Fine) (fun _ => P.Fine) where
  start _ := trivial
  get {w pc next} _ act := by
    cases pc <;> cases act
    exact ⟨trivial, fun item fine => dedupNext_holds spec.bloom fine⟩
  put {w pc item next} holds act := by
    cases pc <;> cases act
    exact ⟨holds, trivial⟩
  call {w pc returns raises w' next} holds act result _ := by
    cases pc with
    | adding execute item =>
        simp only [runDedup, dedupAct] at act
        obtain ⟨_, env, _, _, rfl⟩ := Call.await_returns act result
        exact holds.2
    | _ => cases act
  keeps {w pc} holds := by
    cases pc with
    | adding execute item =>
        simp only [runDedup, dedupAct]
        exact Call.Moves.await (P.dedup holds.1 item.1.id w)
    | _ => trivial

theorem persist_contract :
    Contract (runPersist spec.canonicalPublisher ctx clock spec.batchSize) P.Later
      (fun _ => P.Fine) (fun w => PersistPc.Holds P.Made (P.Good w)) P.Good where
  start _ _ member := (List.not_mem_nil member).elim
  get {w pc next} holds act := by
    cases pc <;> cases act
    constructor
    · dsimp only
      split
      · trivial
      · exact holds
    · intro item fine
      apply persistNext_holds
      intro pair member
      rcases List.mem_append.mp member with old | new
      · exact holds pair old
      · cases List.mem_singleton.mp new
        exact P.made _ fine
  put {w pc item next} holds act := by
    cases pc <;> cases act
    refine ⟨holds _ List.mem_cons_self, forwardNext_holds _ _ ?_⟩
    exact fun pair member => holds pair (List.mem_cons_of_mem _ member)
  call {w pc returns raises w' next} holds act result _ := by
    cases pc with
    | publishing n batch last =>
        simp only [runPersist, persistAct] at act
        obtain ⟨_, env, committed, rfl, rfl⟩ := Call.await_returns act result
        exact forwardNext_holds n last (P.committed holds committed).2
    | _ => cases act
  keeps {w pc} holds := by
    cases pc with
    | publishing n batch last =>
        constructor
        · rintro _ _ ⟨_, env, committed, rfl, _⟩
          exact (P.committed holds committed).1
        · rintro e _ ⟨env, failed, rfl⟩
          exact P.failed holds failed
    | _ => trivial

theorem flush_moves {publisher : Plugin.Publisher S} (member : publisher ∈ spec.extraPublishers)
    {w : World S} {batches : Batches} (all : batches.All (P.Good w)) :
    (flush publisher batches w.ctx).Moves P.Later w := by
  have moves := P.publish publisher member (all publisher.name)
  constructor
  · rintro a env (result | ⟨e, result, _⟩)
    · exact moves.1 _ _ result
    · exact moves.2 _ _ result
  · rintro e env ⟨result, _⟩
    exact moves.2 _ _ result

theorem publish_contract :
    Contract (runPublish spec.extraPublishers spec.batchSize) P.Later P.Good
      (fun w => PublishPc.Holds spec.extraPublishers (P.Good w)) (fun _ _ => True) where
  start w := by
    dsimp only [runPublish]
    split
    · trivial
    · exact fun _ _ member => (List.not_mem_nil member).elim
  get {w pc next} holds act := by
    cases pc <;> cases act
    · exact ⟨trivial, fun _ _ => trivial⟩
    · exact ⟨finish_holds (List.Subset.refl _) holds,
        fun pair good => offer_holds spec.batchSize good (List.Subset.refl _) holds⟩
  put {w pc item next} _ _ := nomatch item
  call {w pc returns raises w' next} holds act result later := by
    have emptied : ∀ {batches : Batches} {name : Str}, batches.All (P.Good w) →
        Batches.All (P.Good w') (Function.update batches name []) :=
      fun all => (all.mono (P.good_mono later)).update _ fun _ member =>
        (List.not_mem_nil member).elim
    cases pc with
    | flushing publisher rest pair batches =>
        simp only [runPublish, publishAct] at act
        obtain ⟨_, env, _, _, rfl⟩ := Call.await_returns act result
        obtain ⟨inside, good, all⟩ := holds
        exact offer_holds spec.batchSize (P.good_mono later pair good)
          (List.subset_of_cons_subset inside) (emptied all)
    | finishing publisher rest batches =>
        simp only [runPublish, publishAct] at act
        obtain ⟨_, env, _, _, rfl⟩ := Call.await_returns act result
        exact finish_holds (List.subset_of_cons_subset holds.1) (emptied holds.2)
    | _ => cases act
  keeps {w pc} holds := by
    cases pc with
    | flushing publisher rest pair batches =>
        exact (P.flush_moves (holds.1 List.mem_cons_self) holds.2.2).await
    | finishing publisher rest batches =>
        exact (P.flush_moves (holds.1 List.mem_cons_self) holds.2).await
    | _ => trivial

/-- What holds of what flows into each stage. -/
def good : (i : Nat) → World S → stageItem i → Prop
  | 3, _, item => P.Fine item
  | 4, _, item => P.Fine item
  | 5, _, item => P.Fine item
  | 6, w, pair => P.Good w pair
  | _, _, _ => True

/-- What holds at the positions of each stage. -/
def holds : (i : Nat) → World S → (stageCode R spec clock ctx i).Pc → Prop
  | 0, _, pc => FetchPc.Own spec.archive pc
  | 2, _, pc => NormalizePc.Holds P.Fine pc
  | 3, _, pc => EnrichPc.Holds P.Fine pc
  | 4, _, pc => DedupPc.Holds spec.bloom P.Fine pc
  | 5, w, pc => PersistPc.Holds P.Made (P.Good w) pc
  | 6, w, pc => PublishPc.Holds spec.extraPublishers (P.Good w) pc
  | _, _, _ => True

/-- The stages keep the properties for one another. -/
def typing : (pipelineNet R spec clock ctx).Typing where
  Later := P.Later
  refl := P.refl
  trans := P.trans
  Good := P.good
  good_mono {i w w'} later item good := by
    match i with
    | 6 => exact P.good_mono later item good
    | 3 | 4 | 5 => exact good
    | 0 | 1 | 2 | _ + 7 => trivial
  Ok := P.holds
  ok_mono {i w w'} later pc holds := by
    match i with
    | 0 | 2 | 3 | 4 => exact holds
    | 5 => exact PersistPc.Holds.mono holds (P.good_mono later)
    | 6 => exact PublishPc.Holds.mono holds (P.good_mono later)
    | 1 | _ + 7 => trivial
  contract i inside := by
    match i, inside with
    | 0, _ => exact P.fetch_contract
    | 1, _ => exact P.parse_contract
    | 2, _ => exact P.normalize_contract
    | 3, _ => exact P.enrich_contract
    | 4, _ => exact P.dedup_contract
    | 5, _ => exact P.persist_contract
    | 6, _ => exact P.publish_contract

/-- Others may change the world in between, as long as what was good stays good. -/
theorem typed_world {s : (pipelineNet R spec clock ctx).State} {world w : World S}
    (typed : Net.Typed P.typing world s) (stable : ∀ pair, P.Good s.world pair → P.Good w pair) :
    Net.Typed P.typing w { s with world := w } where
  later := P.refl w
  chan i := (typed.chan i).mono fun item good => by
    match i with
    | 6 => exact stable item good
    | 3 | 4 | 5 => exact good
    | 0 | 1 | 2 | _ + 7 => trivial
  task i inside := (typed.task i inside).mono fun pc holds => by
    match i with
    | 0 | 2 | 3 | 4 => exact holds
    | 5 => exact PersistPc.Holds.mono holds stable
    | 6 => exact PublishPc.Holds.mono holds stable
    | 1 | _ + 7 => trivial

end PipelineTyping

end Cti
