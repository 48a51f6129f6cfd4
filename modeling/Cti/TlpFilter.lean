import Cti.Beside
import Cti.Builder
import Cti.Enrichers

set_option autoImplicit false

/- The publishers that filter by TLP label, with what they send. -/
namespace Cti

open Py (Str)

def TLP.value : TLP → Str
  | .clear => "CLEAR".toList
  | .green => "GREEN".toList
  | .amber => "AMBER".toList
  | .amberStrict => "AMBER+STRICT".toList
  | .red => "RED".toList

/-- `_TLP_ORDER`. -/
def TLP.rank : TLP → Nat
  | .clear => 0
  | .green => 1
  | .amber => 2
  | .amberStrict => 3
  | .red => 4

/-- `_TLP_RANK` of the publishers. -/
def tlpRank (label : Str) : Option Nat :=
  [("CLEAR".toList, 0), ("GREEN".toList, 1), ("AMBER".toList, 2), ("AMBER+STRICT".toList, 3),
    ("RED".toList, 4)].lookup label

/-- The two tables agree. -/
theorem tlpRank_value (t : TLP) : tlpRank t.value = some t.rank := by
  cases t <;> rfl

structure WebhookPublisherConfig where
  url : Str
  maxTlp : Str

structure KafkaPublisherConfig where
  bootstrapServers : Str
  topic : Str
  maxTlp : Str

/-- The shipped publishers, with their configuration. -/
inductive ShippedPublisher where
  | postgres
  | webhook (config : WebhookPublisherConfig)
  | kafka (config : KafkaPublisherConfig)

def ShippedPublisher.maxTlp : ShippedPublisher → Option Str
  | .postgres => none
  | .webhook config => some config.maxTlp
  | .kafka config => some config.maxTlp

/-- A record that a publisher has sent. -/
abbrev Emission := ShippedPublisher × Sighting

variable {T : Type}

/-- Nobody else adds to what the publishers of a run have sent. -/
def emissionDrift : Drift (List Emission) := ⟨Eq, fun _ => rfl⟩

section calls

variable {S : Type}

/-- One call after the other. -/
def Call.andThen (first second : Call S Unit) : Call S Unit where
  returns s _ s' := ∃ mid, first.returns s () mid ∧ second.returns mid () s'
  raises s e s' := first.raises s e s' ∨ ∃ mid, first.returns s () mid ∧ second.raises mid e s'
  answers s := by
    rcases first.answers s with ⟨_, mid, done⟩ | ⟨e, s', failed⟩
    · rcases second.answers mid with ⟨_, s', done'⟩ | ⟨e, s', failed⟩
      · exact Or.inl ⟨(), s', mid, done, done'⟩
      · exact Or.inr ⟨e, s', Or.inr ⟨mid, done, failed⟩⟩
    · exact Or.inr ⟨e, s', Or.inl failed⟩

/-- A call that sends records. If it raises, they may have been sent or not. -/
def Call.sending (call : Call T Unit) (emissions : List Emission) :
    Call (List Emission × T) Unit where
  returns s _ s' := call.returns s.2 () s'.2 ∧ s'.1 = s.1 ++ emissions
  raises s e s' := call.raises s.2 e s'.2 ∧ (s'.1 = s.1 ∨ s'.1 = s.1 ++ emissions)
  answers s := by
    rcases call.answers s.2 with ⟨_, t, done⟩ | ⟨e, t, failed⟩
    · exact Or.inl ⟨(), (s.1 ++ emissions, t), done, rfl⟩
    · exact Or.inr ⟨e, (s.1, t), failed, Or.inl rfl⟩

end calls

/-- The records that a publisher lets through. -/
def permitted (maxAllowed : Nat) (batch : List Sighting) : List Sighting :=
  batch.filter fun pair => pair.1.tlp.rank ≤ maxAllowed

/-- `publish` of the webhook and kafka publishers, up to the sending. -/
def publishPermitted {S : Type} (maxTlp message : Str) (send : List Sighting → Call S Unit)
    (batch : List Sighting) : Call S Unit :=
  match tlpRank maxTlp with
  | none => .fails (.leaf (pyError ["KeyError".toList, "LookupError".toList] maxTlp)
      (pyError_exception _ _))
  | some maxAllowed =>
      if permitted maxAllowed batch = [] then
        .fails (.leaf (ClassName.tlpViolation.exc message) rfl)
      else send (permitted maxAllowed batch)

/-- What the shipped plugins are given from outside: the loaded connectors and parsers, the
validated configurations, and the clients. -/
structure EntryPoints (T : Type) where
  connector : Str → Dict → Except Exc (Plugin.Connector T)
  parser : Str → Dict → Except Exc (Plugin.Parser T)
  enricher : Str → Dict → Except Exc Enricher
  publisher : Str → Dict → Except Exc ShippedPublisher
  upsert : List Sighting → RunContext → Call T Unit
  post : WebhookPublisherConfig → List Sighting → Call T Unit
  ensureProducer : KafkaPublisherConfig → Call T Unit
  sendAndWait : KafkaPublisherConfig → Sighting → Call T Unit

variable (E : EntryPoints T)

def webhookPublish (config : WebhookPublisherConfig) :
    List Sighting → Call (List Emission × T) Unit :=
  publishPermitted config.maxTlp "all records exceed webhook max_tlp".toList fun filtered =>
    (E.post config filtered).sending (filtered.map fun pair => (.webhook config, pair))

/-- The records go out one by one. -/
def kafkaSend (config : KafkaPublisherConfig) : List Sighting → Call (List Emission × T) Unit
  | [] => .pure ()
  | pair :: rest =>
      ((E.sendAndWait config pair).sending [(.kafka config, pair)]).andThen (kafkaSend config rest)

def kafkaPublish (config : KafkaPublisherConfig) :
    List Sighting → Call (List Emission × T) Unit :=
  publishPermitted config.maxTlp "all records exceed kafka max_tlp".toList fun filtered =>
    ((E.ensureProducer config).beside emissionDrift).andThen (kafkaSend E config filtered)

def ShippedPublisher.toPlugin : ShippedPublisher → Plugin.Publisher (List Emission × T)
  | .postgres => ⟨"postgres".toList, fun batch ctx => (E.upsert batch ctx).beside emissionDrift⟩
  | .webhook config => ⟨"webhook".toList, fun batch _ => webhookPublish E config batch⟩
  | .kafka config => ⟨"kafka".toList, fun batch _ => kafkaPublish E config batch⟩

section enrichers

variable (R : Runtime)

theorem isoCode_exceptional (record : Dict) : Exceptional (isoCode R record) := by
  unfold isoCode
  split
  · exact .ok _
  · split
    · split
      · exact .ok _
      · exact .error rfl
    · exact .ok _

theorem enrichSync_exceptional (enricher : Enricher) (ind : Indicator) :
    Exceptional (enricher.enrichSync R ind) := by
  cases enricher with
  | defang enabled => exact .ok _
  | allowlist config => exact .ok _
  | geoip reader =>
      simp only [Enricher.enrichSync]
      split
      · exact .ok _
      · exact .ok _
      · refine .bind (isoCode_exceptional R _) fun country => ?_
        cases country <;> exact .ok _
  | asn reader =>
      simp only [Enricher.enrichSync]
      split
      · exact .ok _
      · split <;> exact .ok _

/-- A plugin that computes. -/
def Call.ofExcept {S α : Type} (x : Except Exc α) (exceptional : Exceptional x) : Call S α where
  returns s a s' := x = .ok a ∧ s' = s
  raises s e s' := s' = s ∧ ∃ exc, x = .error exc ∧ e.1 = .leaf exc
  answers s := by
    cases result : x with
    | ok a => exact Or.inl ⟨a, s, rfl, rfl⟩
    | error exc => exact Or.inr ⟨.leaf exc (exceptional exc result), s, rfl, exc, rfl, rfl⟩

def Enricher.toPlugin {S : Type} (enricher : Enricher) : Plugin.Enricher S :=
  ⟨fun ind _ => .ofExcept (enricher.enrichSync R ind) (enrichSync_exceptional R enricher ind)⟩

end enrichers

/-- The loader of the shipped plugins. -/
def EntryPoints.loader (R : Runtime) : Loader (List Emission × T) where
  loadConnector name params :=
    andThen (E.connector name params) fun connector => .ok (connector.beside emissionDrift)
  loadParser name params :=
    andThen (E.parser name params) fun parser => .ok (parser.beside emissionDrift)
  loadEnricher name params := do
    let enricher ← E.enricher name params
    return (enricher.toPlugin R).beside emissionDrift
  loadPublisher name params := do
    let publisher ← E.publisher name params
    return publisher.toPlugin E

end Cti
