import Cti.Stages

set_option autoImplicit false

/- Sources as they are configured, and the pipelines that are built for them. -/
namespace Cti

open Py (Str)

/-- An exception of a built-in class, given by the names of its class and of the classes
between that and `Exception`. -/
def pyError (names : List Str) (message : Str) : Exc where
  cls :=
    { mro := names.map .other ++ [.exception, .baseException]
      closed := by
        intro c member base inherits
        rcases List.mem_append.mp member with named | general
        · obtain ⟨name, inside, rfl⟩ := List.mem_map.mp named
          rcases List.mem_cons.mp inherits with rfl | last
          · exact List.mem_append_left _ named
          · rw [List.mem_singleton.mp last]
            simp
        · refine List.mem_append_right _ ?_
          rcases List.mem_cons.mp general with rfl | last
          · exact inherits
          · rw [List.mem_singleton.mp last] at inherits
            rw [List.mem_singleton.mp inherits]
            decide }
  message := message

theorem pyError_exception (names : List Str) (message : Str) :
    (pyError names message).isA .exception = true := by
  simp [pyError, Exc.isA]

/-- What `build_pipeline_spec` reads of a source, with the label that it does not read. -/
structure SourceConfig where
  plugin : Str
  parser : Str
  enrichers : List Str
  publishers : List Str
  params : Dict
  parserParams : Dict
  enricherParams : List (Str × Dict)
  publisherParams : List (Str × Dict)
  normalize : NormalizeConfig
  tlp : TLP

/-- The loaders of the four groups of entry points. -/
structure Loader (S : Type) where
  loadConnector : Str → Dict → Except Exc (Plugin.Connector S)
  loadParser : Str → Dict → Except Exc (Plugin.Parser S)
  loadEnricher : Str → Dict → Except Exc (Plugin.Enricher S)
  loadPublisher : Str → Dict → Except Exc (Plugin.Publisher S)

variable {S : Type} (loader : Loader S)

/-- The loop over the names of the publishers: the first one named postgres is the canonical
one. -/
def splitPublishers (params : List (Str × Dict)) :
    List Str → Option (Plugin.Publisher S) → List (Plugin.Publisher S) →
      Except Exc (Option (Plugin.Publisher S) × List (Plugin.Publisher S))
  | [], canonical, extras => .ok (canonical, extras)
  | name :: names, canonical, extras => do
      let loaded ← loader.loadPublisher name ((params.lookup name).getD [])
      if name = "postgres".toList ∧ canonical.isNone then
        splitPublishers params names (some loaded) extras
      else splitPublishers params names canonical (extras ++ [loaded])

/-- Sequencing, also of computations whose results live in different universes. -/
def andThen {α : Type*} {β : Type*} (x : Except Exc α) (f : α → Except Exc β) : Except Exc β :=
  match x with
  | .error e => .error e
  | .ok a => f a

theorem andThen_ok {α : Type*} {β : Type*} {x : Except Exc α} {f : α → Except Exc β} {b : β} :
    andThen x f = .ok b ↔ ∃ a, x = .ok a ∧ f a = .ok b := by
  cases x with
  | error e => simp [andThen]
  | ok a => simp [andThen]

/-- `build_pipeline_spec`. It takes an archive URI and does nothing with it. -/
def buildPipelineSpec (source : SourceConfig) (_replayFromUri : Option Str) :
    Except Exc (PipelineSpec S) :=
  andThen (loader.loadConnector source.plugin source.params) fun connector =>
  andThen (loader.loadParser source.parser source.parserParams) fun parser =>
  andThen (source.enrichers.mapM fun name =>
    loader.loadEnricher name ((source.enricherParams.lookup name).getD [])) fun enrichers =>
  let pubNames := if source.publishers = [] then ["postgres".toList] else source.publishers
  let pubNames :=
    if pubNames.contains "postgres".toList then pubNames else "postgres".toList :: pubNames
  andThen (splitPublishers loader source.publisherParams pubNames none []) fun
    | (none, _) => .error (pyError ["AssertionError".toList] [])
    | (some canonical, extras) =>
        .ok
          { connector := connector
            parser := parser
            enrichers := enrichers
            canonicalPublisher := canonical
            extraPublishers := extras
            normalize := source.normalize
            archive := none
            bloom := none
            queueMaxsize := 1000
            batchSize := 500 }

variable {loader}

/-- Every publisher comes from the loader. -/
theorem splitPublishers_loaded {Loaded : Plugin.Publisher S → Prop}
    (loads : ∀ name params publisher, loader.loadPublisher name params = .ok publisher →
      Loaded publisher) {params : List (Str × Dict)} {names : List Str}
    {canonical canonical' : Option (Plugin.Publisher S)} {extras extras' : List (Plugin.Publisher S)}
    (first : ∀ publisher ∈ canonical, Loaded publisher) (rest : ∀ publisher ∈ extras, Loaded publisher)
    (split : splitPublishers loader params names canonical extras = .ok (canonical', extras')) :
    (∀ publisher ∈ canonical', Loaded publisher) ∧ ∀ publisher ∈ extras', Loaded publisher := by
  induction names generalizing canonical extras with
  | nil =>
      cases split
      exact ⟨first, rest⟩
  | cons name names ih =>
      unfold splitPublishers at split
      obtain ⟨loaded, found, split⟩ := bind_ok.mp split
      have good := loads _ _ _ found
      split at split
      · refine ih ?_ rest split
        rintro publisher ⟨rfl⟩
        exact good
      · refine ih first ?_ split
        intro publisher member
        rcases List.mem_append.mp member with old | new
        · exact rest publisher old
        · rw [List.mem_singleton.mp new]
          exact good

/-- The assertion of the builder never fails. -/
theorem splitPublishers_canonical {params : List (Str × Dict)} {names : List Str}
    {canonical canonical' : Option (Plugin.Publisher S)} {extras extras' : List (Plugin.Publisher S)}
    (present : canonical.isSome ∨ "postgres".toList ∈ names)
    (split : splitPublishers loader params names canonical extras = .ok (canonical', extras')) :
    canonical'.isSome := by
  induction names generalizing canonical extras with
  | nil =>
      cases split
      rcases present with some' | member
      · exact some'
      · exact (List.not_mem_nil member).elim
  | cons name names ih =>
      unfold splitPublishers at split
      obtain ⟨loaded, _, split⟩ := bind_ok.mp split
      split at split
      · exact ih (Or.inl rfl) split
      · rename_i other
        refine ih ?_ split
        rcases present with some' | member
        · exact Or.inl some'
        · rcases List.mem_cons.mp member with rfl | member
          · refine Or.inl ?_
            simpa [Option.isSome_iff_ne_none] using other
          · exact Or.inr member

/-- What a pipeline is made of. -/
theorem build_ok {source : SourceConfig} {uri : Option Str} {spec : PipelineSpec S}
    (built : buildPipelineSpec loader source uri = .ok spec) :
    loader.loadConnector source.plugin source.params = .ok spec.connector ∧
      loader.loadParser source.parser source.parserParams = .ok spec.parser ∧
      (source.enrichers.mapM fun name =>
        loader.loadEnricher name ((source.enricherParams.lookup name).getD [])) = .ok spec.enrichers ∧
      (∃ names, splitPublishers loader source.publisherParams names none [] =
        .ok (some spec.canonicalPublisher, spec.extraPublishers)) ∧
      spec.normalize = source.normalize ∧ spec.archive = none ∧ spec.bloom = none ∧
      spec.queueMaxsize = 1000 ∧ spec.batchSize = 500 := by
  obtain ⟨connector, connects, built⟩ := andThen_ok.mp built
  obtain ⟨parser, parses, built⟩ := andThen_ok.mp built
  obtain ⟨enrichers, enriches, built⟩ := andThen_ok.mp built
  obtain ⟨⟨canonical, extras⟩, split, built⟩ := andThen_ok.mp built
  cases canonical with
  | none => cases built
  | some canonical =>
      cases built
      exact ⟨connects, parses, enriches, ⟨_, split⟩, rfl, rfl, rfl, rfl, rfl⟩

end Cti
