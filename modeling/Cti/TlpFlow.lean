import Cti.Delivery
import Cti.TlpFilter
import Mathlib.Data.Set.List

set_option autoImplicit false

/- Which labels reach the publishers of a source. -/
namespace Cti

open Py (Str)
open TaskNet (Net)

variable {T : Type}

section normalize

variable {R : Runtime} {cfg : NormalizeConfig} {record : Record} {first last : Int}

end normalize

/-- A publisher that lets records with the label through. -/
def ShippedPublisher.Permits (publisher : ShippedPublisher) (label : TLP) : Prop :=
  ∃ name ∈ publisher.maxTlp, ∃ maxAllowed ∈ tlpRank name, label.rank ≤ maxAllowed

/-- What a publisher sends is permitted to it. -/
def Compliant (emission : Emission) : Prop := emission.1.Permits emission.2.1.tlp

/-- Only permitted records of the batches at hand are added to the emissions. -/
def Emits (label : TLP) (log log' : List Emission) : Prop :=
  ∀ emission ∈ log', emission ∈ log ∨ emission.2.1.tlp = label ∧ Compliant emission

section publishers

variable {label : TLP} {log log' log'' : List Emission}

theorem Emits.refl (label : TLP) (log : List Emission) : Emits label log log :=
  fun _ member => Or.inl member

theorem Emits.trans (first : Emits label log log') (second : Emits label log' log'') :
    Emits label log log'' := by
  intro emission member
  rcases second emission member with old | new
  · exact first emission old
  · exact Or.inr new

theorem Emits.append {emissions : List Emission}
    (fresh : ∀ emission ∈ emissions, emission.2.1.tlp = label ∧ Compliant emission) :
    Emits label log (log ++ emissions) := by
  intro emission member
  rcases List.mem_append.mp member with old | new
  · exact Or.inl old
  · exact Or.inr (fresh emission new)

/-- A call that adds only permitted records to the emissions. -/
def Call.EmitsOnly (label : TLP) (call : Call (List Emission × T) Unit) : Prop :=
  (∀ s a s', call.returns s a s' → Emits label s.1 s'.1) ∧
    ∀ s e s', call.raises s e s' → Emits label s.1 s'.1

theorem Call.EmitsOnly.andThen {first second : Call (List Emission × T) Unit}
    (before : first.EmitsOnly label) (after : second.EmitsOnly label) :
    (first.andThen second).EmitsOnly label := by
  constructor
  · rintro s a s' ⟨mid, done, done'⟩
    exact (before.1 _ _ _ done).trans (after.1 _ _ _ done')
  · rintro s e s' (failed | ⟨mid, done, failed⟩)
    · exact before.2 _ _ _ failed
    · exact (before.1 _ _ _ done).trans (after.2 _ _ _ failed)

variable (E : EntryPoints T)

end publishers

section pipeline

variable (E : EntryPoints T) (R : Runtime) (clock : Clock) (ctx : RunContext)

/-- What the pipeline of a source is made of. -/
structure Parts (T : Type) where
  connector : Plugin.Connector T
  parser : Plugin.Parser T
  enrichers : List Enricher
  canonical : ShippedPublisher
  extras : List ShippedPublisher
  normalize : NormalizeConfig

def Parts.spec (parts : Parts T) : PipelineSpec (List Emission × T) where
  connector := parts.connector.beside emissionDrift
  parser := parts.parser.beside emissionDrift
  enrichers := parts.enrichers.map fun enricher => (enricher.toPlugin R).beside emissionDrift
  canonicalPublisher := parts.canonical.toPlugin E
  extraPublishers := parts.extras.map fun publisher => publisher.toPlugin E
  normalize := parts.normalize
  archive := none
  bloom := none
  queueMaxsize := 1000
  batchSize := 500

theorem Call.EmitsOnly.moves {label : TLP} {call : Call (List Emission × T) Unit}
    (emits : call.EmitsOnly label) (w : World (List Emission × T)) :
    call.Moves (fun w w' => Emits label w.env.1 w'.env.1) w :=
  ⟨fun _ _ result => emits.1 _ _ _ result, fun _ _ result => emits.2 _ _ _ result⟩

theorem Emits.of_aside {label : TLP} {w w' : World (List Emission × T)}
    (aside : Aside emissionDrift w w') : Emits label w.env.1 w'.env.1 := by
  rw [show w.env.1 = w'.env.1 from aside.1]
  exact Emits.refl label _

end pipeline

/-- The plugins of a source with one mutex and a webhook. -/
def mutexEntryPoints (maxTlp : TLP) : EntryPoints Unit where
  connector _ _ := .ok (.ofList [emptyPayload])
  parser _ _ := .ok (.ofFunction fun _ => [[("value".toList, .str "m".toList)]])
  enricher _ _ := .ok (.defang true)
  publisher name _ :=
    if name = "postgres".toList then .ok .postgres
    else .ok (.webhook ⟨"https://sink.example/".toList, maxTlp.value⟩)
  upsert _ _ := .pure ()
  post _ _ := .pure ()
  ensureProducer _ := .pure ()
  sendAndWait _ _ := .pure ()

/-- A source that is RED, with the default label of the normalize settings. -/
def redSource : SourceConfig where
  plugin := "http_json".toList
  parser := "json".toList
  enrichers := []
  publishers := ["postgres".toList, "webhook".toList]
  params := []
  parserParams := []
  enricherParams := []
  publisherParams := []
  normalize := { NormalizeConfig.default with indicatorType := some .mutex }
  tlp := .red

def redParts (maxTlp : TLP) : Parts Unit where
  connector := .ofList [emptyPayload]
  parser := .ofFunction fun _ => [[("value".toList, .str "m".toList)]]
  enrichers := []
  canonical := .postgres
  extras := [.webhook ⟨"https://sink.example/".toList, maxTlp.value⟩]
  normalize := redSource.normalize

/-- The webhook of the source. -/
def redWebhook (maxTlp : TLP) : ShippedPublisher :=
  .webhook ⟨"https://sink.example/".toList, maxTlp.value⟩

/-- What the pipeline makes of its record. -/
def redPair : Sighting :=
  persistItem feedContext zeroClock 0
    (mutexSeen (spell "mutex:m".toList) "m".toList 0 [], [("value".toList, .str "m".toList)])

end Cti
