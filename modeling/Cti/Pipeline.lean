import Cti.Stages
import Cti.TaskNetAbort
import Cti.TaskNetWorld

set_option autoImplicit false

namespace Cti

open Py (Str)
open TaskNet (Action Coroutine Net StreamLaws)

variable {S : Type}

/-- What flows into each stage. -/
def stageItem : Nat → Type
  | 1 => RawPayload
  | 2 => Record
  | 3 => Candidate
  | 4 => Candidate
  | 5 => Candidate
  | 6 => Sighting
  | _ => Empty

/-- A stage of no pipeline. -/
def noStage (α β : Type) : Coroutine (World S) Failure α β where
  Pc := Unit
  start := ()
  act _ := .ret
  close := .never

variable (R : Runtime) (spec : PipelineSpec S) (clock : Clock) (ctx : RunContext)

def stageCode : (i : Nat) → Coroutine (World S) Failure (stageItem i) (stageItem (i + 1))
  | 0 => runFetch spec.connector spec.archive
  | 1 => runParse spec.parser
  | 2 => runNormalize R spec.normalize clock
  | 3 => runEnrich spec.enrichers
  | 4 => runDedup spec.bloom
  | 5 => runPersist spec.canonicalPublisher ctx clock spec.batchSize
  | 6 => runPublish spec.extraPublishers spec.batchSize
  | i + 7 => noStage (stageItem (i + 7)) (stageItem (i + 8))

/-- The task group of `Pipeline.run`. -/
def pipelineNet : Net (World S) Failure where
  size := 7
  Item := stageItem
  code := stageCode R spec clock ctx
  maxsize := spec.queueMaxsize

/-- What `Pipeline.run` returns or raises when all its tasks have ended. -/
def pipelineResult {N : Net (World S) Failure} (started finished : Int) (s : N.State) :
    Except ExcTree RunResult :=
  match s.errors with
  | [] => .ok
      { runId := s.world.ctx.runId
        sourceId := s.world.ctx.sourceId
        state := .success
        startedAt := started
        finishedAt := finished
        fetchedBytes := 0
        recordsIn := 0
        recordsOut := 0
        error := none
        watermark := s.world.ctx.watermark
        rawUri := s.world.ctx.rawUri }
  | e :: es => .error (.group "unhandled errors in a TaskGroup".toList e.1 (es.map Subtype.val))

def World.fresh (ctx : RunContext) (env : S) : World S := ⟨ctx, env, [], []⟩

section awaits

variable {α β γ Pc : Type} {call : RunContext → Call S α} {after : α → World S → World S}
  {next : α → Pc} {returns : World S → World S → Pc → Prop}
  {raises : World S → Failure → World S → Prop}

theorem Call.await_returns
    (act : (Call.await call after next : Action (World S) Failure β γ Pc) = .call returns raises)
    {w w' : World S} {pc : Pc} (result : returns w w' pc) :
    ∃ a env, (call w.ctx).returns w.env a env ∧ w' = after a { w with env := env } ∧
      pc = next a := by
  cases act
  exact result

theorem Call.await_live
    (act : (Call.await call after next : Action (World S) Failure β γ Pc) = .call returns raises)
    (w : World S) : (∃ w' pc, returns w w' pc) ∨ ∃ e w', raises w e w' := by
  cases act
  rcases (call w.ctx).answers w.env with ⟨a, env, result⟩ | ⟨e, env, result⟩
  · exact Or.inl ⟨_, _, a, env, result, rfl, rfl⟩
  · exact Or.inr ⟨e, _, env, result, rfl⟩

end awaits

section laws

theorem fetch_live (connector : Plugin.Connector S) (archive : Option (Plugin.RawArchive S)) :
    (runFetch connector archive).Live := by
  intro pc returns raises act w
  cases pc with
  | pulling gen =>
      cases act
      rcases (connector.resume gen).answers (w.ctx, w.env) with
        ⟨answer, ⟨ctx, env⟩, result⟩ | ⟨e, ⟨ctx, env⟩, result⟩
      · cases answer with
        | none => exact Or.inl ⟨_, _, none, ctx, env, result, rfl, rfl⟩
        | some yielded => exact Or.inl ⟨_, _, some yielded, ctx, env, result, rfl, rfl⟩
      · exact Or.inr ⟨e, _, ctx, env, result, rfl⟩
  | archiving archive payload gen =>
      simp only [runFetch, fetchAct] at act
      exact Call.await_live act w
  | putting payload gen => cases act
  | done => cases act

theorem parse_live (parser : Plugin.Parser S) : (runParse parser).Live := by
  intro pc returns raises act w
  cases pc with
  | pulling gen =>
      simp only [runParse, parseAct] at act
      exact Call.await_live act w
  | _ => cases act

theorem normalize_live (cfg : NormalizeConfig) :
    (runNormalize R cfg clock : Coroutine (World S) Failure Record Candidate).Live := by
  intro pc returns raises act w
  cases pc with
  | raising failure n =>
      cases act
      exact Or.inr ⟨failure, w, rfl, rfl⟩
  | _ => cases act

theorem enrich_live (enrichers : List (Plugin.Enricher S)) : (runEnrich enrichers).Live := by
  intro pc returns raises act w
  cases pc with
  | calling k item =>
      simp only [runEnrich, enrichAct] at act
      split at act
      · exact Call.await_live act w
      · cases act
  | _ => cases act

theorem dedup_live (bloom : Option (Plugin.BloomCache S)) : (runDedup bloom).Live := by
  intro pc returns raises act w
  cases pc with
  | adding execute item =>
      simp only [runDedup, dedupAct] at act
      exact Call.await_live act w
  | _ => cases act

theorem persist_live (publisher : Plugin.Publisher S) (batchSize : Int) :
    (runPersist publisher ctx clock batchSize).Live := by
  intro pc returns raises act w
  cases pc with
  | publishing n batch last =>
      simp only [runPersist, persistAct] at act
      exact Call.await_live act w
  | _ => cases act

theorem publish_live (publishers : List (Plugin.Publisher S)) (batchSize : Int) :
    (runPublish publishers batchSize).Live := by
  intro pc returns raises act w
  cases pc with
  | flushing publisher rest pair batches =>
      simp only [runPublish, publishAct] at act
      exact Call.await_live act w
  | finishing publisher rest batches =>
      simp only [runPublish, publishAct] at act
      exact Call.await_live act w
  | _ => cases act

/-- The positions after the end of the input. -/
def ParsePc.Eos {Gen : Type} : ParsePc Gen → Prop
  | .done => True
  | _ => False

def NormalizePc.Eos : NormalizePc → Prop
  | .done => True
  | _ => False

def EnrichPc.Eos : EnrichPc → Prop
  | .done => True
  | _ => False

def DedupPc.Eos : DedupPc S → Prop
  | .done => True
  | _ => False

def PersistPc.Eos : PersistPc → Prop
  | .waiting _ _ => False
  | .publishing _ _ last => last = true
  | .putting _ _ _ last => last = true
  | .done => True

def PublishPc.Eos : PublishPc S → Prop
  | .finishing _ _ _ => True
  | .done => True
  | _ => False

theorem parse_laws (parser : Plugin.Parser S) : StreamLaws (runParse parser) ParsePc.Eos where
  get_open {pc next} act := by
    cases pc <;> cases act
    exact id
  get_some {pc next} payload act := by
    cases pc <;> cases act
    exact id
  get_none {pc next} act := by
    cases pc <;> cases act
    trivial
  put_iff {pc item next} act := by
    cases pc <;> cases act
    rfl
  call_iff {pc returns raises w w' next} act result := by
    cases pc with
    | pulling gen =>
        simp only [runParse, parseAct] at act
        obtain ⟨a, env, _, _, rfl⟩ := Call.await_returns act result
        cases a <;> rfl
    | _ => cases act
  ret_eos {pc} act := by
    cases pc <;> cases act
    trivial

theorem normalizeNext_open (cfg : NormalizeConfig) (n : Nat) (record : Record) :
    ¬ (normalizeNext R cfg clock n record).Eos := by
  unfold normalizeNext
  split <;> exact id

theorem normalize_laws (cfg : NormalizeConfig) :
    StreamLaws (runNormalize R cfg clock : Coroutine (World S) Failure Record Candidate)
      NormalizePc.Eos where
  get_open {pc next} act := by
    cases pc <;> cases act
    exact id
  get_some {pc next} record act := by
    cases pc <;> cases act
    exact normalizeNext_open R clock cfg _ record
  get_none {pc next} act := by
    cases pc <;> cases act
    trivial
  put_iff {pc item next} act := by
    cases pc <;> cases act
    rfl
  call_iff {pc returns raises w w' next} act result := by
    cases pc with
    | raising failure n =>
        cases act
        exact result.elim
    | _ => cases act
  ret_eos {pc} act := by
    cases pc <;> cases act
    trivial

theorem enrichNext_open (enrichers : List (Plugin.Enricher S)) (k : Nat) (item : Candidate) :
    ¬ (enrichNext enrichers k item).Eos := by
  unfold enrichNext
  split <;> exact id

theorem enrich_laws (enrichers : List (Plugin.Enricher S)) :
    StreamLaws (runEnrich enrichers) EnrichPc.Eos where
  get_open {pc next} act := by
    cases pc with
    | waiting => exact id
    | calling k item => simp only [runEnrich, enrichAct] at act; split at act <;> cases act
    | _ => cases act
  get_some {pc next} item act := by
    cases pc with
    | waiting => cases act; exact enrichNext_open enrichers 0 item
    | calling k item => simp only [runEnrich, enrichAct] at act; split at act <;> cases act
    | _ => cases act
  get_none {pc next} act := by
    cases pc with
    | waiting => cases act; trivial
    | calling k item => simp only [runEnrich, enrichAct] at act; split at act <;> cases act
    | _ => cases act
  put_iff {pc item next} act := by
    cases pc with
    | calling k item =>
        simp only [runEnrich, enrichAct] at act
        split at act <;> cases act
        rfl
    | putting item => cases act; rfl
    | _ => cases act
  call_iff {pc returns raises w w' next} act result := by
    cases pc with
    | calling k item =>
        simp only [runEnrich, enrichAct] at act
        split at act
        · obtain ⟨a, env, _, _, rfl⟩ := Call.await_returns act result
          cases a with
          | none => rfl
          | some ind => exact iff_of_false (enrichNext_open enrichers (k + 1) _) id
        · cases act
    | _ => cases act
  ret_eos {pc} act := by
    cases pc with
    | done => trivial
    | calling k item => simp only [runEnrich, enrichAct] at act; split at act <;> cases act
    | _ => cases act

theorem dedup_laws (bloom : Option (Plugin.BloomCache S)) :
    StreamLaws (runDedup bloom) DedupPc.Eos where
  get_open {pc next} act := by
    cases pc <;> cases act
    exact id
  get_some {pc next} item act := by
    cases pc <;> cases act
    dsimp only [dedupNext]
    split <;> exact id
  get_none {pc next} act := by
    cases pc <;> cases act
    trivial
  put_iff {pc item next} act := by
    cases pc <;> cases act
    rfl
  call_iff {pc returns raises w w' next} act result := by
    cases pc with
    | adding execute item =>
        simp only [runDedup, dedupAct] at act
        obtain ⟨a, env, _, _, rfl⟩ := Call.await_returns act result
        rfl
    | _ => cases act
  ret_eos {pc} act := by
    cases pc <;> cases act
    trivial

theorem persistNext_open (batchSize : Int) (n : Nat) (batch : List Sighting) :
    ¬ (persistNext batchSize n batch).Eos := by
  unfold persistNext
  split
  · exact Bool.false_ne_true
  · exact id

theorem forwardNext_eos (n : Nat) (rest : List Sighting) (last : Bool) :
    (forwardNext n rest last).Eos ↔ last = true := by
  cases rest with
  | nil => cases last <;> simp [forwardNext, PersistPc.Eos]
  | cons pair rest => rfl

theorem persist_laws (publisher : Plugin.Publisher S) (batchSize : Int) :
    StreamLaws (runPersist publisher ctx clock batchSize) PersistPc.Eos where
  get_open {pc next} act := by
    cases pc <;> cases act
    exact id
  get_some {pc next} item act := by
    cases pc <;> cases act
    exact persistNext_open batchSize _ _
  get_none {pc next} act := by
    cases pc <;> cases act
    dsimp only
    split
    · trivial
    · rfl
  put_iff {pc item next} act := by
    cases pc <;> cases act
    exact forwardNext_eos _ _ _
  call_iff {pc returns raises w w' next} act result := by
    cases pc with
    | publishing n batch last =>
        simp only [runPersist, persistAct] at act
        obtain ⟨a, env, _, _, rfl⟩ := Call.await_returns act result
        exact forwardNext_eos n batch last
    | _ => cases act
  ret_eos {pc} act := by
    cases pc <;> cases act
    trivial

theorem offer_open (batchSize : Int) (pair : Sighting) (publishers : List (Plugin.Publisher S))
    (batches : Batches) : ¬ (offer batchSize pair publishers batches).Eos := by
  induction publishers generalizing batches with
  | nil => exact id
  | cons publisher rest ih =>
      simp only [offer]
      split
      · exact id
      · exact ih _

theorem finish_eos (publishers : List (Plugin.Publisher S)) (batches : Batches) :
    (finish publishers batches).Eos := by
  induction publishers with
  | nil => trivial
  | cons publisher rest ih =>
      simp only [finish]
      split
      · exact ih
      · trivial

theorem publish_laws (publishers : List (Plugin.Publisher S)) (batchSize : Int) :
    StreamLaws (runPublish publishers batchSize) PublishPc.Eos where
  get_open {pc next} act := by
    cases pc <;> cases act <;> exact id
  get_some {pc next} pair act := by
    cases pc <;> cases act
    · exact id
    · exact offer_open batchSize pair publishers _
  get_none {pc next} act := by
    cases pc <;> cases act
    · trivial
    · exact finish_eos publishers _
  put_iff {pc item next} act := nomatch item
  call_iff {pc returns raises w w' next} act result := by
    cases pc with
    | flushing publisher rest pair batches =>
        simp only [runPublish, publishAct] at act
        obtain ⟨a, env, _, _, rfl⟩ := Call.await_returns act result
        exact iff_of_false (offer_open batchSize pair rest _) id
    | finishing publisher rest batches =>
        simp only [runPublish, publishAct] at act
        obtain ⟨a, env, _, _, rfl⟩ := Call.await_returns act result
        exact iff_of_true (finish_eos rest _) trivial
    | _ => cases act
  ret_eos {pc} act := by
    cases pc <;> cases act
    trivial

end laws

def stageEos : (i : Nat) → (stageCode R spec clock ctx i).Pc → Prop
  | 1 => ParsePc.Eos
  | 2 => NormalizePc.Eos
  | 3 => EnrichPc.Eos
  | 4 => DedupPc.Eos
  | 5 => PersistPc.Eos
  | 6 => PublishPc.Eos
  | 0 => fun _ => False
  | _ + 7 => fun _ => False

/-- Every pipeline is a line of coroutines in the sense of the library. -/
def pipelineLawful : (pipelineNet R spec clock ctx).Lawful where
  eos := stageEos R spec clock ctx
  laws i positive inside := by
    match i, positive, inside with
    | 1, _, _ => exact parse_laws spec.parser
    | 2, _, _ => exact normalize_laws R clock spec.normalize
    | 3, _, _ => exact enrich_laws spec.enrichers
    | 4, _, _ => exact dedup_laws spec.bloom
    | 5, _, _ => exact persist_laws clock ctx spec.canonicalPublisher spec.batchSize
    | 6, _, _ => exact publish_laws spec.extraPublishers spec.batchSize
  fresh i positive inside := by
    match i, positive, inside with
    | 1, _, _ => exact id
    | 2, _, _ => exact id
    | 3, _, _ => exact id
    | 4, _, _ => exact id
    | 5, _, _ => exact id
    | 6, _, _ =>
        change ¬ (if spec.extraPublishers.isEmpty then PublishPc.draining
          else PublishPc.waiting fun _ => []).Eos
        split <;> exact id
  live i inside := by
    match i, inside with
    | 0, _ => exact fetch_live spec.connector spec.archive
    | 1, _ => exact parse_live spec.parser
    | 2, _ => exact normalize_live R clock spec.normalize
    | 3, _ => exact enrich_live spec.enrichers
    | 4, _ => exact dedup_live spec.bloom
    | 5, _ => exact persist_live clock ctx spec.canonicalPublisher spec.batchSize
    | 6, _ => exact publish_live spec.extraPublishers spec.batchSize
  source pc next act := by
    change FetchPc S spec.connector.Gen at pc
    cases pc <;> cases act
  closes i inside := by
    match i, inside with
    | 0, _ => exact nofun
    | 1, _ => exact nofun
    | 2, _ => exact nofun
    | 3, _ => exact nofun
    | 4, _ => exact nofun
    | 5, _ => exact nofun
  sink i last := by
    have last : i = 6 := by
      change i + 1 = 7 at last
      omega
    subst last
    rfl
  sink_put i last pc item next act := by
    have last : i = 6 := by
      change i + 1 = 7 at last
      omega
    subst last
    exact nomatch item

theorem Call.await_keeps {α β γ Pc : Type} {call : RunContext → Call S α}
    {after : α → World S → World S} {next : α → Pc} {P : World S → World S → Prop}
    (returned : ∀ a w env, P w (after a { w with env := env }))
    (raised : ∀ w env, P w { w with env := env }) :
    (Call.await call after next : Action (World S) Failure β γ Pc).Keeps P := by
  constructor
  · rintro w _ _ ⟨a, env, _, rfl, _⟩
    exact returned a w env
  · rintro w _ _ ⟨env, _, rfl⟩
    exact raised w env

/-- What the i-th stage leaves as it is, if it comes after fetch. -/
def StageKeeps (i : Nat) (w w' : World S) : Prop :=
  w'.ctx = w.ctx ∧ w'.fetched = w.fetched ∧ (i ≠ 5 → w'.published = w.published)

theorem stage_keeps {i : Nat} (positive : 0 < i) :
    (stageCode R spec clock ctx i).Keeps (StageKeeps i) := by
  have quiet : ∀ (i : Nat) (w : World S) (env : S), StageKeeps i w { w with env := env } :=
    fun _ _ _ => ⟨rfl, rfl, fun _ => rfl⟩
  intro pc
  match i, positive with
  | 1, _ =>
      change ParsePc spec.parser.Gen at pc
      cases pc with
      | pulling gen =>
          simp only [stageCode, runParse, parseAct]
          exact Call.await_keeps (fun _ => quiet 1) (quiet 1)
      | _ => trivial
  | 2, _ =>
      change NormalizePc at pc
      cases pc with
      | raising failure n =>
          refine ⟨fun _ _ _ result => result.elim, ?_⟩
          intro w e w' result
          rw [result.2]
          exact quiet 2 w w.env
      | _ => trivial
  | 3, _ =>
      change EnrichPc at pc
      cases pc with
      | calling k item =>
          simp only [stageCode, runEnrich, enrichAct]
          split
          · exact Call.await_keeps (fun _ => quiet 3) (quiet 3)
          · trivial
      | _ => trivial
  | 4, _ =>
      change DedupPc S at pc
      cases pc with
      | adding execute item =>
          simp only [stageCode, runDedup, dedupAct]
          exact Call.await_keeps (fun _ => quiet 4) (quiet 4)
      | _ => trivial
  | 5, _ =>
      change PersistPc at pc
      cases pc with
      | publishing n batch last =>
          simp only [stageCode, runPersist, persistAct]
          exact Call.await_keeps (fun _ _ _ => ⟨rfl, rfl, fun other => absurd rfl other⟩) (quiet 5)
      | _ => trivial
  | 6, _ =>
      change PublishPc S at pc
      cases pc with
      | flushing publisher rest pair batches =>
          simp only [stageCode, runPublish, publishAct]
          exact Call.await_keeps (fun _ => quiet 6) (quiet 6)
      | finishing publisher rest batches =>
          simp only [stageCode, runPublish, publishAct]
          exact Call.await_keeps (fun _ => quiet 6) (quiet 6)
      | _ => trivial
  | _ + 7, _ => trivial

theorem fetch_keeps_published (connector : Plugin.Connector S)
    (archive : Option (Plugin.RawArchive S)) :
    (runFetch connector archive).Keeps fun w w' => w'.published = w.published := by
  intro pc
  cases pc with
  | pulling gen =>
      constructor
      · rintro w w' next ⟨answer, ctx, env, _, after⟩
        cases answer with
        | none =>
            obtain ⟨rfl, _⟩ := after
            rfl
        | some yielded =>
            obtain ⟨rfl, _⟩ := after
            rfl
      · rintro w e w' ⟨ctx, env, _, rfl⟩
        rfl
  | archiving archive payload gen =>
      simp only [runFetch, fetchAct]
      refine Call.await_keeps ?_ ?_
      · exact fun _ _ _ => rfl
      · exact fun _ _ => rfl
  | _ => trivial

/-- Only persist adds to what was published. -/
theorem stage_keeps_published {i : Nat} (other : i ≠ 5) :
    (stageCode R spec clock ctx i).Keeps fun w w' => w'.published = w.published := by
  by_cases source : i = 0
  · subst source
    exact fetch_keeps_published spec.connector spec.archive
  · exact (stage_keeps R spec clock ctx (Nat.pos_of_ne_zero source)).mono fun kept => kept.2.2 other

end Cti
