import Cti.Beside
import Cti.Builder
import Cti.Redirects
import Cti.Watermark

set_option autoImplicit false

/- What `cti replay` does with the archive and with the upstream. -/
namespace Cti

open Py (Str)
open TaskNet (Net)

variable {T : Type}

section connectors

variable (R : Runtime) (codecs : Codecs) (defaultContentType : Str) (config : HttpConnectorConfig)
  (net : Internet)

/-- An HTTP connector that leaves a trace of the requests that it causes. -/
def requestingConnector : Plugin.Connector (List Request × T) where
  Gen := Bool
  fetch := true
  resume fresh :=
    let call := (httpConnector R codecs defaultContentType config T (net.upstream R config)).resume
      fresh
    let sent (ctx : RunContext) := if fresh then fetchRequests R config net ctx.watermark else []
    { returns := fun s answer s' =>
        call.returns (s.1, s.2.2) answer (s'.1, s'.2.2) ∧ s'.2.1 = s.2.1 ++ sent s.1
      raises := fun s failure s' =>
        call.raises (s.1, s.2.2) failure (s'.1, s'.2.2) ∧ s'.2.1 = s.2.1 ++ sent s.1
      answers := fun s => by
        rcases call.answers (s.1, s.2.2) with ⟨answer, t, result⟩ | ⟨failure, t, result⟩
        · exact Or.inl ⟨answer, (t.1, s.2.1 ++ sent s.1, t.2), result, rfl⟩
        · exact Or.inr ⟨failure, (t.1, s.2.1 ++ sent s.1, t.2), result, rfl⟩ }

/-- A payload comes with a request. -/
theorem requestingConnector_asks {fresh : Bool} {s s' : RunContext × List Request × T}
    {yielded : RawPayload × Bool}
    (result : ((requestingConnector R codecs defaultContentType config net).resume fresh).returns s
      (some yielded) s') : s'.2.1 ≠ [] := by
  obtain ⟨answered, sent⟩ := result
  cases fresh with
  | false => cases answered.1
  | true =>
      obtain ⟨payload, watermark, fetched, _⟩ := answered
      intro none
      simp only [none, if_true] at sent
      obtain ⟨failure, failed⟩ := fetchRequests_nil R config net s.1.watermark codecs
        defaultContentType (List.append_eq_nil_iff.mp sent.symm).2
      rw [failed] at fetched
      cases fetched

end connectors

/-- The shipped connectors, by their entry points, with the content types they assume. -/
def shippedContentType (name : Str) : Option Str :=
  [("http_csv".toList, "text/csv".toList), ("http_json".toList, "application/json".toList),
    ("http_txt_lines".toList, "text/plain".toList)].lookup name

/-- Only the connector of a run asks the upstream. -/
def requestDrift : Drift (List Request) := ⟨Eq, fun _ => rfl⟩

/-- The decoders and the validation of the settings for the shipped connectors, and the
loaders of everything else. -/
structure HttpEntryPoints (T : Type) where
  codecs : Codecs
  config : Dict → Except Exc HttpConnectorConfig
  parser : Str → Dict → Except Exc (Plugin.Parser T)
  enricher : Str → Dict → Except Exc (Plugin.Enricher T)
  publisher : Str → Dict → Except Exc (Plugin.Publisher T)

def HttpEntryPoints.loader (H : HttpEntryPoints T) (R : Runtime) (net : Internet) :
    Loader (List Request × T) where
  loadConnector name params :=
    match shippedContentType name with
    | none => .error (ClassName.pluginLoadError.exc ("no plugin ".toList ++ R.repr name ++
        " in group 'cti.connectors'".toList))
    | some defaultContentType =>
        andThen (H.config params) fun config =>
          .ok (requestingConnector R H.codecs defaultContentType config net)
  loadParser name params :=
    andThen (H.parser name params) fun parser => .ok (parser.beside requestDrift)
  loadEnricher name params :=
    andThen (H.enricher name params) fun enricher => .ok (enricher.beside requestDrift)
  loadPublisher name params :=
    andThen (H.publisher name params) fun publisher =>
      .ok (publisher.beside requestDrift)

/-- What `FeedRunner.execute` and the registry read of a source. -/
structure RegisteredSource extends SourceConfig where
  id : Str
  circuit : CircuitPolicy
  maxAttempts : Int

/-- `SourceRegistry.get`. -/
def registryGet (R : Runtime) (registry : List RegisteredSource) (sourceId : Str) :
    Except Exc RegisteredSource :=
  match registry.find? fun source => source.id = sourceId with
  | some source => .ok source
  | none => .error (pyError ["KeyError".toList, "LookupError".toList]
      (R.repr ("unknown source: ".toList ++ sourceId)))

/-- How `cti replay` ends without a run: it exits with a message, or something raises. -/
inductive NoReplay where
  | exit (code : Int) (echo : Str)
  | raised (e : Exc)

section command

variable {S : Type} (R : Runtime) (loader : Loader S)

/-- `cti replay`, up to the run that it starts in a process of its own. -/
def replay (db : Db) (registry : List RegisteredSource) (newRunId runId : Uuid) (fromStage : Str) :
    Except NoReplay (Feed S) :=
  if ["parse".toList, "normalize".toList, "enrich".toList, "persist".toList].contains fromStage = false
  then .error (.exit 2 ("unsupported --from-stage ".toList ++ R.repr fromStage))
  else
    match db.run runId with
    | none => .error (.exit 1 "run not found".toList)
    | some row =>
        match row.rawUri with
        | none | some [] =>
            .error (.exit 3 "run has no raw_uri archived; cannot replay".toList)
        | some (c :: uri) =>
            match registryGet R registry row.sourceId with
            | .error e => .error (.raised e)
            | .ok source =>
                match buildPipelineSpec loader source.toSourceConfig (some (c :: uri)) with
                | .error e => .error (.raised e)
                | .ok spec =>
                    .ok
                      { worker := 0
                        sourceId := source.id
                        runId := newRunId
                        circuit := source.circuit
                        maxAttempts := source.maxAttempts
                        spec := spec }

/-- A replay is an ordinary run of the source. -/
theorem replay_ok {R : Runtime} {loader : Loader S} {db : Db} {registry : List RegisteredSource}
    {newRunId runId : Uuid} {fromStage : Str} {feed : Feed S}
    (accepted : replay R loader db registry newRunId runId fromStage = .ok feed) :
    ∃ source ∈ registry, buildPipelineSpec loader source.toSourceConfig none = .ok feed.spec := by
  unfold replay at accepted
  split at accepted
  · cases accepted
  · split at accepted
    · cases accepted
    · split at accepted
      · cases accepted
      · cases accepted
      · split at accepted
        · cases accepted
        · rename_i source found
          split at accepted
          · cases accepted
          · rename_i spec built
            cases accepted
            refine ⟨source, ?_, built⟩
            unfold registryGet at found
            split at found
            · rename_i known
              cases found
              exact List.mem_of_find?_eq_some known
            · cases found

end command

/-- Nothing is fetched before something is requested. -/
def Asked (w : World (List Request × T)) : Prop := w.fetched = [] ∨ w.env.1 ≠ []

section pipeline

variable {R : Runtime} {net : Internet} {H : HttpEntryPoints T}

theorem Asked.of_same {w w' : World (List Request × T)} (fetched : w'.fetched = w.fetched)
    (requests : w.env.1 = w'.env.1) (asked : Asked w) : Asked w' := by
  unfold Asked
  rw [fetched, ← requests]
  exact asked

theorem beside_asked {α : Type} (call : Call T α) (w : World (List Request × T)) :
    (call.beside requestDrift).Moves (fun w w' => Asked w → Asked w') w :=
  ⟨fun _ _ result => Asked.of_same rfl result.1, fun _ _ result => Asked.of_same rfl result.1⟩

theorem requesting_asked {codecs : Codecs} {defaultContentType : Str} {config : HttpConnectorConfig}
    {pc : FetchPc (List Request × T) Bool} (own : pc.Own none) (w : World (List Request × T)) :
    (fetchAct (requestingConnector R codecs defaultContentType config net) none pc).KeepsAt
      (fun w w' => Asked w → Asked w') w := by
  have grows : ∀ {log sent log' : List Request}, log' = log ++ sent → log ≠ [] → log' ≠ [] := by
    rintro log sent _ rfl some' none
    exact some' (List.append_eq_nil_iff.mp none).1
  cases pc with
  | pulling fresh =>
      constructor
      · rintro w' next ⟨answer, ctx, env, answered, after⟩ asked
        cases answer with
        | none =>
            obtain ⟨rfl, _⟩ := after
            exact asked.imp id (grows answered.2)
        | some yielded =>
            obtain ⟨rfl, _⟩ := after
            exact Or.inr (requestingConnector_asks _ _ _ _ _ answered)
      · rintro failure w' ⟨ctx, env, raised, rfl⟩ asked
        exact asked.imp id (grows raised.2)
  | archiving mine payload gen => cases own
  | _ => trivial

/-- What a pipeline over these plugins is made of. -/
theorem loader_built {source : SourceConfig} {uri : Option Str}
    {spec : PipelineSpec (List Request × T)}
    (built : buildPipelineSpec (H.loader R net) source uri = .ok spec) :
    (∃ defaultContentType config,
      spec.connector = requestingConnector R H.codecs defaultContentType config net) ∧
      (∃ parser, spec.parser = Plugin.Parser.beside requestDrift parser) ∧
      (∀ enricher ∈ spec.enrichers, ∃ inner, enricher = Plugin.Enricher.beside requestDrift inner) ∧
      (∀ publisher ∈ spec.canonicalPublisher :: spec.extraPublishers,
        ∃ inner, publisher = Plugin.Publisher.beside requestDrift inner) ∧
      spec.archive = none ∧ spec.bloom = none := by
  obtain ⟨connects, parses, enriches, ⟨names, split⟩, _, archive, bloom, _⟩ := build_ok built
  refine ⟨?_, ?_, ?_, ?_, archive, bloom⟩
  · simp only [HttpEntryPoints.loader] at connects
    split at connects
    · cases connects
    · obtain ⟨config, _, same⟩ := andThen_ok.mp connects
      exact ⟨_, config, (Except.ok.inj same).symm⟩
  · obtain ⟨parser, _, same⟩ := andThen_ok.mp parses
    exact ⟨parser, (Except.ok.inj same).symm⟩
  · intro enricher member
    obtain ⟨name, _, found⟩ := mem_mapM_ok enriches enricher member
    obtain ⟨inner, _, same⟩ := andThen_ok.mp found
    exact ⟨inner, (Except.ok.inj same).symm⟩
  · have loads : ∀ name params publisher, (H.loader R net).loadPublisher name params = .ok publisher →
        ∃ inner, publisher = Plugin.Publisher.beside requestDrift inner := by
      intro name params publisher found
      obtain ⟨inner, _, same⟩ := andThen_ok.mp found
      exact ⟨inner, (Except.ok.inj same).symm⟩
    obtain ⟨first, extras⟩ := splitPublishers_loaded loads (by rintro _ ⟨⟩)
      (fun _ member => (List.not_mem_nil member).elim) split
    intro publisher member
    rcases List.mem_cons.mp member with rfl | member
    · exact first _ rfl
    · exact extras publisher member

theorem spec_asked {spec : PipelineSpec (List Request × T)}
    (connects : ∃ defaultContentType config,
      spec.connector = requestingConnector R H.codecs defaultContentType config net)
    (archive : spec.archive = none) (w : World (List Request × T))
    {pc : FetchPc (List Request × T) spec.connector.Gen} (own : pc.Own spec.archive) :
    (fetchAct spec.connector spec.archive pc).KeepsAt (fun w w' => Asked w → Asked w') w := by
  obtain ⟨defaultContentType, config, connects⟩ := connects
  cases spec
  cases connects
  cases archive
  exact requesting_asked own w

/-- In no run is anything fetched without a request. -/
def askedTyping {source : SourceConfig} {uri : Option Str} {spec : PipelineSpec (List Request × T)}
    (built : buildPipelineSpec (H.loader R net) source uri = .ok spec) (clock : Clock)
    (ctx : RunContext) : PipelineTyping R spec clock ctx where
  Later w w' := Asked w → Asked w'
  refl _ := id
  trans first second asked := second (first asked)
  Fine _ := True
  Made _ := True
  Good _ _ := True
  good_mono _ _ := id
  fetch w own := by
    obtain ⟨connects, _, _, _, archive, _⟩ := loader_built built
    exact spec_asked connects archive w own
  parse gen w := by
    obtain ⟨_, ⟨parser, same⟩, _⟩ := loader_built built
    revert gen
    rw [same]
    exact fun gen => beside_asked (parser.resume gen w.ctx) w
  normalize _ := trivial
  enrich enricher member ind w := by
    obtain ⟨_, _, enrichers, _⟩ := loader_built built
    obtain ⟨inner, rfl⟩ := enrichers enricher member
    exact beside_asked (inner.enrich ind w.ctx) w
  enriched _ _ _ _ _ _ _ _ := trivial
  dedup own := by
    obtain ⟨_, _, _, _, _, bloom⟩ := loader_built built
    rw [bloom] at own
    cases own
  made _ _ := trivial
  committed {batch} _ {w env} result := by
    obtain ⟨_, _, _, publishers, _⟩ := loader_built built
    obtain ⟨inner, same⟩ := publishers spec.canonicalPublisher List.mem_cons_self
    rw [same] at result
    exact ⟨Asked.of_same rfl result.1, fun _ _ => trivial⟩
  failed {batch} _ {w e env} result := by
    obtain ⟨_, _, _, publishers, _⟩ := loader_built built
    obtain ⟨inner, same⟩ := publishers spec.canonicalPublisher List.mem_cons_self
    rw [same] at result
    exact Asked.of_same rfl result.1
  publish publisher member {w batch} _ := by
    obtain ⟨_, _, _, publishers, _⟩ := loader_built built
    obtain ⟨inner, rfl⟩ := publishers publisher (List.mem_cons_of_mem _ member)
    exact beside_asked (inner.publish batch w.ctx) w

end pipeline

section replays

variable (R : Runtime) (H : HttpEntryPoints T) (net : Internet)
  (get : Str → Except Failure (List UInt8)) (db : Db) (registry : List RegisteredSource)
  (newRunId runId : Uuid) (fromStage : Str)

/-- The replay of an archived run gets to where its pipeline has been given exactly the bytes
of the archive, with nothing asked of the upstream. -/
def ReplaysArchive : Prop :=
  ∃ row uri bytes feed, db.run runId = some row ∧ row.rawUri = some uri ∧ get uri = .ok bytes ∧
    replay R (H.loader R net) db registry newRunId runId fromStage = .ok feed ∧
    ∃ sh m k, ∃ a : Attempt R feed.spec,
      ManagerReaches (fun _ : Unit => feed.job R) (.init _ sh) m ∧
      (m.execution ()).phase = .attempting k a ∧
      a.state.world.fetched.map RawPayload.body = [bytes] ∧ a.state.world.env.1 = []

/-- No replay does. The URI of the archive gets lost on its way to the pipeline, and the
connector is asked as ever. -/
theorem replay_never_from_archive :
    ¬ ReplaysArchive R H net get db registry newRunId runId fromStage := by
  rintro ⟨row, uri, bytes, feed, _, _, _, accepted, sh, m, k, a, run, phase, parsed, silent⟩
  obtain ⟨source, _, built⟩ := replay_ok accepted
  have grounded := manager_local
    (fun _ (x : Execution (netSystem R feed.spec)) => Execution.Grounded R x)
    (fun _ => trivial) (fun _ _ _ _ _ taken before => grounded_step taken before) run ()
  unfold Execution.Grounded at grounded
  rw [phase] at grounded
  obtain ⟨env, reached⟩ := grounded
  have typed := Net.typed_reaches (askedTyping built a.clock a.ctx).typing reached
  rcases typed.later (Or.inl rfl) with none | asked
  · rw [none] at parsed
    cases parsed
  · exact asked silent

end replays

section refetch

/-- A feed that serves one byte. -/
def servingNet (byte : UInt8) : Internet where
  resolve _ _ := .ok ["93.184.216.34".toList]
  serve _ _ := .ok ⟨200, [], [byte]⟩
  redirect _ _ := none
  maxRedirects := 20
  now := 0

def plainEntryPoints : HttpEntryPoints Unit where
  codecs := ⟨.ok, fun _ => .ok [], fun content _ => .ok content⟩
  config _ := .ok feedConfig
  parser _ _ := .ok (.ofFunction fun _ => [])
  enricher _ _ := .ok ⟨fun ind _ => .pure (some ind)⟩
  publisher name _ := .ok ⟨name, fun _ _ => .pure ()⟩

def feedSource : RegisteredSource where
  plugin := "http_txt_lines".toList
  parser := "txt".toList
  enrichers := []
  publishers := ["postgres".toList]
  params := []
  parserParams := []
  enricherParams := []
  publisherParams := []
  normalize := .default
  tlp := .amber
  id := "feed".toList
  circuit := ⟨5, 300⟩
  maxAttempts := 5

/-- The run to replay, with its archived payload. -/
def archivedRow : FeedRunRow :=
  { feedRow with
    id := 7
    state := .success
    rawUri := some "file:///var/lib/cti/raw/feed/7/tag.bin.gz".toList }

def archivedDb : Db := { feedShared.db with feedRuns := [archivedRow] }

def refetchSpec (byte : UInt8) : PipelineSpec (List Request × Unit) where
  connector := requestingConnector asciiRuntime plainEntryPoints.codecs "text/plain".toList
    feedConfig (servingNet byte)
  parser := (Plugin.Parser.ofFunction fun _ => []).beside requestDrift
  enrichers := []
  canonicalPublisher := Plugin.Publisher.beside requestDrift ⟨"postgres".toList, fun _ _ => .pure ()⟩
  extraPublishers := []
  normalize := .default
  archive := none
  bloom := none
  queueMaxsize := 1000
  batchSize := 500

def refetchFeed (byte : UInt8) : Feed (List Request × Unit) :=
  ⟨0, "feed".toList, 1, ⟨5, 300⟩, 5, refetchSpec byte⟩

/-- The replay accepts the run. -/
theorem refetch_accepted (byte : UInt8) :
    replay asciiRuntime (plainEntryPoints.loader asciiRuntime (servingNet byte)) archivedDb
      [feedSource] 1 7 "parse".toList = .ok (refetchFeed byte) := rfl

def archivedShared : Shared := ⟨fun _ _ => .init, archivedDb⟩

theorem archived_opened : openRun archivedDb "feed".toList 1 0 =
    .ok ({ archivedDb with feedRuns := [archivedRow, feedRow] }, feedRow, []) := by
  simp [openRun, Db.source, archivedDb, archivedRow, feedShared, feedRow]

/-- The replay against an upstream parses what that serves. -/
def Refetches (byte : UInt8) : Prop :=
  ∃ m k, ∃ a : Attempt asciiRuntime (refetchSpec byte),
    ManagerReaches (fun _ : Unit => (refetchFeed byte).job asciiRuntime) (.init _ archivedShared) m ∧
      (m.execution ()).phase = .attempting k a ∧
      a.state.world.fetched.map RawPayload.body = [[byte]] ∧
      a.state.world.env.1.map Request.url = ["https://feed.example/".toList]

def servedPayload (byte : UInt8) : RawPayload :=
  ⟨[byte], "text/plain".toList, [], 0, none, none, some feedConfig.url⟩

def servedContext : RunContext :=
  { feedContext with watermark := [("etag".toList, .none), ("last_modified".toList, .none)] }

theorem serving_answers (byte : UInt8) :
    ((refetchSpec byte).connector.resume true).returns (feedContext, [], ())
      (some (servedPayload byte, false))
      (servedContext, [⟨"GET".toList, "https://feed.example/".toList, [], none⟩], ()) :=
  ⟨⟨some (servedPayload byte), servedContext.watermark, rfl, rfl, rfl⟩, rfl⟩

private def ToRefetch (byte : UInt8)
    (m : Manager fun _ : Unit => (refetchFeed byte).job asciiRuntime) : Prop :=
  ManagerReaches (fun _ : Unit => (refetchFeed byte).job asciiRuntime) (.init _ archivedShared) m →
    Refetches byte

private theorem ToRefetch.step {byte : UInt8}
    {m m' : Manager fun _ : Unit => (refetchFeed byte).job asciiRuntime}
    (step : ManagerStep _ m () m') (rest : ToRefetch byte m') : ToRefetch byte m :=
  fun run => rest (run.tail ⟨(), step⟩)

theorem refetches (byte : UInt8) : Refetches byte := by
  suffices refetch : ToRefetch byte (.init _ archivedShared) from refetch .refl
  refine .step (.mk _ () _ _ (.permit _ _ 0 _ rfl rfl)) ?_
  refine .step (.mk _ () _ _ (.build _ _ rfl)) ?_
  refine .step (.mk _ () _ _ (.openRun _ _ 0 _ _ _ _ rfl archived_opened
    ⟨zeroClock, ([], ()), rfl⟩)) ?_
  refine .step (.mk _ () _ _ (.attempt _ _ 1 _ _ rfl
    ⟨_, _, .task _ 0 _ _ (show 0 < 7 by decide) (.start _ rfl), rfl⟩)) ?_
  refine .step (.mk _ () _ _ (.attempt _ _ 1 _ _ rfl
    ⟨_, _, .task _ 0 _ _ (show 0 < 7 by decide) (.call _ _ _ _ _ _ rfl rfl
      ⟨_, _, _, serving_answers byte, rfl, rfl⟩), rfl⟩)) ?_
  exact fun run => ⟨_, _, _, run, rfl, rfl, rfl⟩

/-- Two replays of one archived run: each asks the upstream, and parses what that serves now. -/
theorem replay_follows_upstream :
    archivedDb.run 7 = some archivedRow ∧ archivedRow.rawUri.isSome ∧
      (replay asciiRuntime (plainEntryPoints.loader asciiRuntime (servingNet 1)) archivedDb
        [feedSource] 1 7 "parse".toList = .ok (refetchFeed 1) ∧ Refetches 1) ∧
      (replay asciiRuntime (plainEntryPoints.loader asciiRuntime (servingNet 2)) archivedDb
        [feedSource] 1 7 "parse".toList = .ok (refetchFeed 2) ∧ Refetches 2) :=
  ⟨rfl, rfl, ⟨refetch_accepted 1, refetches 1⟩, refetch_accepted 2, refetches 2⟩

end refetch

end Cti
