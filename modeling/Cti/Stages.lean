import Cti.Batching
import Cti.Plugins

set_option autoImplicit false

/- The seven stages as coroutines. A stage's position is its program counter together with
its local variables. -/
namespace Cti

open Py (Str)
open TaskNet (Action Coroutine)

/-- A record or an indicator on its way, with the record it was made from. -/
abbrev Candidate := Indicator × Record

/-- The readings of the clock: the two of `Indicator.build` for the n-th record, and that of
the n-th observation. -/
structure Clock where
  record : Nat → Int × Int
  observation : Nat → Int

structure PipelineSpec (S : Type) where
  connector : Plugin.Connector S
  parser : Plugin.Parser S
  enrichers : List (Plugin.Enricher S)
  canonicalPublisher : Plugin.Publisher S
  extraPublishers : List (Plugin.Publisher S)
  normalize : NormalizeConfig
  archive : Option (Plugin.RawArchive S)
  bloom : Option (Plugin.BloomCache S)
  queueMaxsize : Int
  batchSize : Int

variable {S : Type}

section fetch

inductive FetchPc (S Gen : Type) where
  | pulling (gen : Gen)
  | archiving (archive : Plugin.RawArchive S) (payload : RawPayload) (gen : Gen)
  | putting (payload : RawPayload) (gen : Gen)
  | done

/-- The loop body up to its next await. -/
def fetchNext {Gen : Type} (archive : Option (Plugin.RawArchive S)) (payload : RawPayload)
    (gen : Gen) : FetchPc S Gen :=
  match archive with
  | some archive => .archiving archive payload gen
  | none => .putting payload gen

def fetchAct (connector : Plugin.Connector S) (archive : Option (Plugin.RawArchive S)) :
    FetchPc S connector.Gen → Action (World S) Failure Empty RawPayload (FetchPc S connector.Gen)
  | .pulling gen =>
      .call
        (fun w w' pc => ∃ answer ctx env,
          (connector.resume gen).returns (w.ctx, w.env) answer (ctx, env) ∧
            match answer with
            | none =>
                w' = { w with ctx := { w.ctx with watermark := ctx.watermark }, env := env } ∧
                  pc = .done
            | some (payload, gen) =>
                w' = { w with
                  ctx := { w.ctx with watermark := ctx.watermark }
                  env := env
                  fetched := w.fetched ++ [payload] } ∧
                pc = fetchNext archive payload gen)
        (fun w e w' => ∃ ctx env, (connector.resume gen).raises (w.ctx, w.env) e (ctx, env) ∧
          w' = { w with ctx := { w.ctx with watermark := ctx.watermark }, env := env })
  | .archiving archive payload gen =>
      Call.await (fun ctx => archive.put ctx payload)
        (fun uri w => { w with ctx := { w.ctx with rawUri := some uri } })
        (fun _ => .putting payload gen)
  | .putting payload gen => .put payload (.pulling gen)
  | .done => .ret

/-- `run_fetch` closes its output only when the connector is exhausted. -/
def runFetch (connector : Plugin.Connector S) (archive : Option (Plugin.RawArchive S)) :
    Coroutine (World S) Failure Empty RawPayload where
  Pc := FetchPc S connector.Gen
  start := .pulling connector.fetch
  act := fetchAct connector archive
  close := .onReturn

end fetch

section parse

inductive ParsePc (Gen : Type) where
  | waiting
  | pulling (gen : Gen)
  | putting (record : Record) (gen : Gen)
  | done

def parseAct (parser : Plugin.Parser S) :
    ParsePc parser.Gen → Action (World S) Failure RawPayload Record (ParsePc parser.Gen)
  | .waiting => .get fun
      | some payload => .pulling (parser.parse payload)
      | none => .done
  | .pulling gen =>
      Call.await (parser.resume gen) (fun _ w => w) fun
        | some (record, gen) => .putting record gen
        | none => .waiting
  | .putting record gen => .put record (.pulling gen)
  | .done => .ret

def runParse (parser : Plugin.Parser S) : Coroutine (World S) Failure RawPayload Record where
  Pc := ParsePc parser.Gen
  start := .waiting
  act := parseAct parser
  close := .always

end parse

section normalize

inductive NormalizePc where
  | waiting (n : Nat)
  | putting (item : Candidate) (n : Nat)
  | raising (failure : Failure) (n : Nat)
  | done

/-- What the loop body does with the n-th record before it awaits again. -/
def normalizeNext (R : Runtime) (cfg : NormalizeConfig) (clock : Clock) (n : Nat)
    (record : Record) : NormalizePc :=
  match result : normalizeRecord R record cfg (clock.record n).1 (clock.record n).2 with
  | .ok (some ind) => .putting (ind, record) (n + 1)
  | .ok none => .waiting (n + 1)
  | .error e => .raising (.leaf e (normalizeRecord_exceptional R record cfg _ _ e result)) (n + 1)

def normalizeAct (R : Runtime) (cfg : NormalizeConfig) (clock : Clock) :
    NormalizePc → Action (World S) Failure Record Candidate NormalizePc
  | .waiting n => .get fun
      | some record => normalizeNext R cfg clock n record
      | none => .done
  | .putting item n => .put item (.waiting n)
  | .raising failure _ => Cti.raising failure
  | .done => .ret

def runNormalize (R : Runtime) (cfg : NormalizeConfig) (clock : Clock) :
    Coroutine (World S) Failure Record Candidate where
  Pc := NormalizePc
  start := .waiting 0
  act := normalizeAct R cfg clock
  close := .always

end normalize

section enrich

/-- `k` counts the enrichers that the indicator has been through. -/
inductive EnrichPc where
  | waiting
  | calling (k : Nat) (item : Candidate)
  | putting (item : Candidate)
  | done

/-- The loop over the enrichers, up to its next await. -/
def enrichNext (enrichers : List (Plugin.Enricher S)) (k : Nat) (item : Candidate) : EnrichPc :=
  if k < enrichers.length then .calling k item else .putting item

def enrichAct (enrichers : List (Plugin.Enricher S)) :
    EnrichPc → Action (World S) Failure Candidate Candidate EnrichPc
  | .waiting => .get fun
      | some item => enrichNext enrichers 0 item
      | none => .done
  | .calling k item =>
      match enrichers[k]? with
      | some enricher =>
          Call.await (enricher.enrich item.1) (fun _ w => w) fun
            | some ind => enrichNext enrichers (k + 1) (ind, item.2)
            | none => .waiting
      | none => .put item .waiting
  | .putting item => .put item .waiting
  | .done => .ret

def runEnrich (enrichers : List (Plugin.Enricher S)) :
    Coroutine (World S) Failure Candidate Candidate where
  Pc := EnrichPc
  start := .waiting
  act := enrichAct enrichers
  close := .always

end enrich

section dedup

inductive DedupPc (S : Type) where
  | waiting
  | adding (execute : Uuid → Call S Unit) (item : Candidate)
  | putting (item : Candidate)
  | done

/-- The loop body up to its next await: there is one on `bloom.add` only if there is a cache
with a client. -/
def dedupNext (bloom : Option (Plugin.BloomCache S)) (item : Candidate) : DedupPc S :=
  match bloom.bind Plugin.BloomCache.redis with
  | some execute => .adding execute item
  | none => .putting item

def dedupAct (bloom : Option (Plugin.BloomCache S)) :
    DedupPc S → Action (World S) Failure Candidate Candidate (DedupPc S)
  | .waiting => .get fun
      | some item => dedupNext bloom item
      | none => .done
  | .adding execute item =>
      Call.await (fun _ => Plugin.BloomCache.add execute item.1.id) (fun _ w => w)
        (fun _ => .putting item)
  | .putting item => .put item .waiting
  | .done => .ret

def runDedup (bloom : Option (Plugin.BloomCache S)) :
    Coroutine (World S) Failure Candidate Candidate where
  Pc := DedupPc S
  start := .waiting
  act := dedupAct bloom
  close := .always

end dedup

section persist

/-- `last` marks the flush after the loop. -/
inductive PersistPc where
  | waiting (n : Nat) (batch : List Sighting)
  | publishing (n : Nat) (batch : List Sighting) (last : Bool)
  | putting (n : Nat) (pair : Sighting) (rest : List Sighting) (last : Bool)
  | done

def persistItem (ctx : RunContext) (clock : Clock) (n : Nat) (item : Candidate) : Sighting :=
  (item.1, observe ctx item.1 item.2 (clock.observation n))

/-- The loop body up to its next await. -/
def persistNext (batchSize : Int) (n : Nat) (batch : List Sighting) : PersistPc :=
  if batchSize ≤ batch.length then .publishing n batch false else .waiting n batch

/-- The forwarding loop of a flush, and what follows the flush. -/
def forwardNext (n : Nat) (rest : List Sighting) (last : Bool) : PersistPc :=
  match rest with
  | pair :: rest => .putting n pair rest last
  | [] => if last then .done else .waiting n []

def persistAct (publisher : Plugin.Publisher S) (ctx : RunContext) (clock : Clock)
    (batchSize : Int) : PersistPc → Action (World S) Failure Candidate Sighting PersistPc
  | .waiting n batch => .get fun
      | some item => persistNext batchSize (n + 1) (batch ++ [persistItem ctx clock n item])
      | none => if batch = [] then .done else .publishing n batch true
  | .publishing n batch last =>
      Call.await (publisher.publish batch)
        (fun _ w => { w with published := w.published ++ [batch] })
        (fun _ => forwardNext n batch last)
  | .putting n pair rest last => .put pair (forwardNext n rest last)
  | .done => .ret

def runPersist (publisher : Plugin.Publisher S) (ctx : RunContext) (clock : Clock)
    (batchSize : Int) : Coroutine (World S) Failure Candidate Sighting where
  Pc := PersistPc
  start := .waiting 0 []
  act := persistAct publisher ctx clock batchSize
  close := .always

end persist

section publish

/-- The batches of the extra publishers, by name. -/
abbrev Batches := Str → List Sighting

inductive PublishPc (S : Type) where
  | draining
  | waiting (batches : Batches)
  | flushing (publisher : Plugin.Publisher S) (rest : List (Plugin.Publisher S)) (pair : Sighting)
      (batches : Batches)
  | finishing (publisher : Plugin.Publisher S) (rest : List (Plugin.Publisher S))
      (batches : Batches)
  | done

/-- The loop over the publishers for one pair, up to the next full batch. -/
def offer (batchSize : Int) (pair : Sighting) :
    List (Plugin.Publisher S) → Batches → PublishPc S
  | [], batches => .waiting batches
  | publisher :: rest, batches =>
      let batch := batches publisher.name ++ [pair]
      let batches := Function.update batches publisher.name batch
      if batchSize ≤ batch.length then .flushing publisher rest pair batches
      else offer batchSize pair rest batches

/-- The last loop over the publishers, up to the next nonempty batch. -/
def finish : List (Plugin.Publisher S) → Batches → PublishPc S
  | [], _ => .done
  | publisher :: rest, batches =>
      if batches publisher.name = [] then finish rest batches else .finishing publisher rest batches

/-- `flush`: a refused TLP drops the batch and is no failure. -/
def flush (publisher : Plugin.Publisher S) (batches : Batches) (ctx : RunContext) :
    Call S Unit where
  returns s _ s' :=
    (publisher.publish (batches publisher.name) ctx).returns s () s' ∨
      ∃ e : Failure, (publisher.publish (batches publisher.name) ctx).raises s e s' ∧
        ∃ exc, e.1 = .leaf exc ∧ exc.isA .tlpViolation = true
  raises s e s' :=
    (publisher.publish (batches publisher.name) ctx).raises s e s' ∧
      ∀ exc, e.1 = .leaf exc → exc.isA .tlpViolation = false
  answers s := by
    rcases (publisher.publish (batches publisher.name) ctx).answers s with
      ⟨a, s', result⟩ | ⟨e, s', result⟩
    · exact Or.inl ⟨(), s', Or.inl result⟩
    · by_cases refused : ∃ exc, e.1 = .leaf exc ∧ exc.isA .tlpViolation = true
      · exact Or.inl ⟨(), s', Or.inr ⟨e, result, refused⟩⟩
      · refine Or.inr ⟨e, s', result, ?_⟩
        intro exc same
        by_contra violation
        exact refused ⟨exc, same, by simpa using violation⟩

def publishAct (publishers : List (Plugin.Publisher S)) (batchSize : Int) :
    PublishPc S → Action (World S) Failure Sighting Empty (PublishPc S)
  | .draining => .get fun
      | some _ => .draining
      | none => .done
  | .waiting batches => .get fun
      | some pair => offer batchSize pair publishers batches
      | none => finish publishers batches
  | .flushing publisher rest pair batches =>
      Call.await (flush publisher batches) (fun _ w => w)
        (fun _ => offer batchSize pair rest (Function.update batches publisher.name []))
  | .finishing publisher rest batches =>
      Call.await (flush publisher batches) (fun _ w => w)
        (fun _ => finish rest (Function.update batches publisher.name []))
  | .done => .ret

def runPublish (publishers : List (Plugin.Publisher S)) (batchSize : Int) :
    Coroutine (World S) Failure Sighting Empty where
  Pc := PublishPc S
  start := if publishers.isEmpty then .draining else .waiting fun _ => []
  act := publishAct publishers batchSize
  close := .never

end publish

end Cti
