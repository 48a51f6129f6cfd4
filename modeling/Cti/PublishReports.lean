import Cti.PublishLoop
import Cti.TlpFlow

set_option autoImplicit false

/- What the publishers of one call of the publish stage are given. -/
namespace Cti

open Py (Str)
open Fanout (flushes sharing delivered Fair)

/-- A call of `publish`: which publisher of the list was called, with what batch, what it raised
if it did, and the state before and after. -/
structure Report (S : Type) where
  publisher : Nat
  name : Str
  batch : List Sighting
  raised : Option Failure
  before : S
  after : S

section observed

variable {S : Type}

/-- A publisher whose calls are reported. -/
def observed (index : Nat) (publisher : Plugin.Publisher S) :
    Plugin.Publisher (List (Report S) × S) where
  name := publisher.name
  publish batch ctx :=
    { returns := fun s _ s' => (publisher.publish batch ctx).returns s.2 () s'.2 ∧
        s'.1 = s.1 ++ [⟨index, publisher.name, batch, none, s.2, s'.2⟩]
      raises := fun s e s' => (publisher.publish batch ctx).raises s.2 e s'.2 ∧
        s'.1 = s.1 ++ [⟨index, publisher.name, batch, some e, s.2, s'.2⟩]
      answers := fun s => by
        rcases (publisher.publish batch ctx).answers s.2 with
          ⟨_, after, returned⟩ | ⟨e, after, failed⟩
        · exact Or.inl ⟨(), (s.1 ++ [⟨index, publisher.name, batch, none, s.2, after⟩], after),
            returned, rfl⟩
        · exact Or.inr ⟨e, (s.1 ++ [⟨index, publisher.name, batch, some e, s.2, after⟩], after),
            failed, rfl⟩ }

/-- The publishers of a list, with their places in it. -/
def observedAll (publishers : List (Plugin.Publisher S)) :
    List (Plugin.Publisher (List (Report S) × S)) :=
  publishers.zipIdx.map fun entry => observed entry.2 entry.1

/-- The places of the publishers, with their names. -/
def places (publishers : List (Plugin.Publisher S)) : List (Nat × Str) :=
  publishers.zipIdx.map fun entry => (entry.2, entry.1.name)

/-- The report is about a real call of one of the publishers; only a refused TLP lets the stage
go on. -/
def Report.Real (publishers : List (Plugin.Publisher S)) (ctx : RunContext) (report : Report S) :
    Prop :=
  ∃ publisher, publishers[report.publisher]? = some publisher ∧ publisher.name = report.name ∧
    match report.raised with
    | none => (publisher.publish report.batch ctx).returns report.before () report.after
    | some e => (publisher.publish report.batch ctx).raises report.before e report.after ∧
        ∃ exc, e.1 = .leaf exc ∧ exc.isA .tlpViolation = true

/-- Who was called, and with what. -/
def Report.label (report : Report S) : (Nat × Str) × List Sighting :=
  ((report.publisher, report.name), report.batch)

/-- The calls of the stage, by place and name of the publisher. -/
def calls (publishers : List (Plugin.Publisher S)) (batchSize : Int) (input : List Sighting) :
    List ((Nat × Str) × List Sighting) :=
  flushes Prod.snd batchSize (places publishers) input fun _ => []

/-- The batches that one publisher of the list is given. -/
def passed (reports : List (Report S)) (index : Nat) : List (List Sighting) :=
  (reports.filter fun report => report.publisher = index).map Report.batch

variable {publishers : List (Plugin.Publisher S)} {ctx : RunContext}

theorem Report.Real.known {report : Report S} (real : report.Real publishers ctx) :
    ∃ publisher, publishers[report.publisher]? = some publisher ∧
      publisher.name = report.name := by
  obtain ⟨publisher, found, named, _⟩ := real
  exact ⟨publisher, found, named⟩

theorem mem_places {entry : Nat × Str} :
    entry ∈ places publishers ↔ ∃ publisher, publishers[entry.1]? = some publisher ∧
      publisher.name = entry.2 := by
  constructor
  · intro member
    obtain ⟨⟨publisher, i⟩, inside, rfl⟩ := List.mem_map.mp member
    exact ⟨publisher, List.mem_zipIdx_iff_getElem?.mp inside, rfl⟩
  · rintro ⟨publisher, found, named⟩
    exact List.mem_map.mpr ⟨(publisher, entry.1), List.mem_zipIdx_iff_getElem?.mpr found,
      Prod.ext rfl named⟩

theorem nodup_places : (places publishers).Nodup := by
  apply List.Nodup.of_map Prod.fst
  have indices : (places publishers).map Prod.fst = List.range' 0 publishers.length := by
    rw [places, List.map_map]
    exact List.zipIdx_map_snd 0 publishers
  rw [indices]
  exact List.nodup_range'

/-- As many places share a name as there are publishers of that name. -/
theorem length_sharing_places (name : Str) :
    (sharing Prod.snd name (places publishers)).length =
      (publishers.map Plugin.Publisher.name).count name := by
  have names : (places publishers).map Prod.snd = publishers.map Plugin.Publisher.name := by
    rw [places, List.map_map]
    calc publishers.zipIdx.map (Plugin.Publisher.name ∘ Prod.fst)
        = (publishers.zipIdx.map Prod.fst).map Plugin.Publisher.name := (List.map_map ..).symm
      _ = publishers.map Plugin.Publisher.name := by rw [List.zipIdx_map_fst]
  rw [sharing, ← List.countP_eq_length_filter, ← names, List.count, List.countP_map]
  refine List.countP_congr fun entry _ => ?_
  simp

theorem sharing_places {publisher : Plugin.Publisher S} {i : Nat}
    (here : publishers[i]? = some publisher)
    (alone : (publishers.map Plugin.Publisher.name).count publisher.name = 1) :
    sharing Prod.snd publisher.name (places publishers) = [(i, publisher.name)] := by
  obtain ⟨place, single⟩ := List.length_eq_one_iff.mp
    ((length_sharing_places publisher.name).trans alone)
  have member : (i, publisher.name) ∈ sharing Prod.snd publisher.name (places publishers) :=
    List.mem_filter.mpr ⟨mem_places.mpr ⟨publisher, here, rfl⟩, by simp⟩
  rw [single, List.mem_singleton] at member
  rw [single, member]

/-- One call leaves one report. -/
theorem flushed_report {entry : (Plugin.Publisher S × Nat) × List Sighting}
    (known : publishers[entry.1.2]? = some entry.1.1) {s s' : List (Report S) × S}
    (returned : (flush (observed entry.1.2 entry.1.1) (fun _ => entry.2) ctx).returns s () s') :
    ∃ report : Report S, s'.1 = s.1 ++ [report] ∧
      report.label = ((entry.1.2, entry.1.1.name), entry.2) ∧ report.Real publishers ctx := by
  rcases returned with ⟨done, logged⟩ | ⟨e, ⟨failed, logged⟩, refused⟩
  · exact ⟨⟨entry.1.2, entry.1.1.name, entry.2, none, s.2, s'.2⟩, logged, rfl, entry.1.1, known,
      rfl, done⟩
  · exact ⟨⟨entry.1.2, entry.1.1.name, entry.2, some e, s.2, s'.2⟩, logged, rfl, entry.1.1, known,
      rfl, failed, refused⟩

theorem flushed_reports {entries : List ((Plugin.Publisher S × Nat) × List Sighting)}
    (known : ∀ entry ∈ entries, publishers[entry.1.2]? = some entry.1.1)
    {s s' : List (Report S) × S}
    (flushed :
      Flushed ctx (entries.map fun entry => (observed entry.1.2 entry.1.1, entry.2)) s s') :
    ∃ new, s'.1 = s.1 ++ new ∧
      new.map Report.label = entries.map (fun entry => ((entry.1.2, entry.1.1.name), entry.2)) ∧
      ∀ report ∈ new, report.Real publishers ctx := by
  induction entries generalizing s with
  | nil =>
      cases flushed
      exact ⟨[], by simp, rfl, nofun⟩
  | cons entry entries ih =>
      obtain ⟨mid, returned, later⟩ := flushed.head
      obtain ⟨report, logged, label, real⟩ :=
        flushed_report (known entry List.mem_cons_self) returned
      obtain ⟨new, same, labels, sound⟩ := ih (fun e member => known e (by simp [member])) later
      refine ⟨report :: new, ?_, ?_, ?_⟩
      · rw [same, logged, List.append_assoc]
        rfl
      · rw [List.map_cons, List.map_cons, labels, label]
      · intro other member
        rcases List.mem_cons.mp member with rfl | member
        · exact real
        · exact sound other member

/-- What the reports of a call of the stage say: all batches went out, or the last one of them
failed. -/
theorem reports_of_run {input : List Sighting} {batchSize maxsize : Int} {s : S}
    {exit : TaskNet.Exit Failure} {w' : World (List (Report S) × S)}
    (run : (runPublish (observedAll publishers) batchSize).Run maxsize input
      (World.fresh ctx ([], s)) exit w') :
    (exit = .returned ∧ w'.env.1.map Report.label = calls publishers batchSize input ∧
        ∀ report ∈ w'.env.1, report.Real publishers ctx) ∨
      ∃ e done last publisher, exit = .raised e ∧ w'.env.1 = done ++ [last] ∧
        (∃ missed, calls publishers batchSize input = w'.env.1.map Report.label ++ missed) ∧
        (∀ report ∈ done, report.Real publishers ctx) ∧ last.raised = some e ∧
        publishers[last.publisher]? = some publisher ∧ publisher.name = last.name ∧
        (publisher.publish last.batch ctx).raises last.before e last.after ∧
        ∀ exc, e.1 = .leaf exc → exc.isA .tlpViolation = false := by
  let entries := flushes (fun entry : Plugin.Publisher S × Nat => entry.1.name) batchSize
    publishers.zipIdx input fun _ => []
  have known : ∀ entry ∈ entries, publishers[entry.1.2]? = some entry.1.1 := fun entry member =>
    List.mem_zipIdx_iff_getElem?.mp (Fanout.mem_flushes entry member).1
  have all : publishFlushes (observedAll publishers) batchSize input =
      entries.map fun entry => (observed entry.1.2 entry.1.1, entry.2) :=
    Fanout.flushes_map (fun entry : Plugin.Publisher S × Nat => observed entry.2 entry.1) _ _ _
  have labels : calls publishers batchSize input =
      entries.map fun entry => ((entry.1.2, entry.1.1.name), entry.2) :=
    Fanout.flushes_map (fun entry : Plugin.Publisher S × Nat => (entry.2, entry.1.name)) _ _ _
  obtain ⟨_, ⟨rfl, flushed⟩ | ⟨e, done, publisher, batch, rest, env, rfl, split, flushed, raised⟩⟩ :=
    publishInv_run run
  · rw [all] at flushed
    obtain ⟨new, same, labeled, real⟩ := flushed_reports known flushed
    have reports : w'.env.1 = new := same
    exact Or.inl ⟨rfl, by rw [reports, labeled, labels], by rwa [reports]⟩
  · -- The flushes that came before the one that raised have left their reports.
    rw [all, List.map_eq_append_iff] at split
    obtain ⟨before, after, cut, rfl, tail⟩ := split
    obtain ⟨entry, missed, rfl, same, rfl⟩ := List.map_eq_cons_iff.mp tail
    cases same
    rw [cut] at known
    have present := known entry (by simp)
    obtain ⟨new, reports, labeled, real⟩ :=
      flushed_reports (fun e member => known e (by simp [member])) flushed
    obtain ⟨⟨failed, logged⟩, other⟩ := raised
    let last : Report S := ⟨entry.1.2, entry.1.1.name, entry.2, some e, env.2, w'.env.2⟩
    have log : w'.env.1 = new ++ [last] := by
      rw [logged, reports]
      rfl
    refine Or.inr ⟨e, new, last, entry.1.1, rfl, log, ?_, real, rfl, present, rfl, failed, other⟩
    refine ⟨missed.map fun entry => ((entry.1.2, entry.1.1.name), entry.2), ?_⟩
    rw [labels, cut, log, List.map_append, List.map_append, labeled]
    simp [last, Report.label]

/-- The reports about one publisher are those with its label. -/
theorem passed_eq {reports : List (Report S)}
    (known : ∀ report ∈ reports, ∃ publisher, publishers[report.publisher]? = some publisher ∧
      publisher.name = report.name)
    {index : Nat} {publisher : Plugin.Publisher S} (here : publishers[index]? = some publisher) :
    passed reports index = delivered (reports.map Report.label) (index, publisher.name) := by
  rw [passed, delivered, List.filter_map, List.map_map]
  refine congrArg (List.map Report.batch) (List.filter_congr fun report member => ?_)
  obtain ⟨other, found, named⟩ := known report member
  by_cases own : report.publisher = index
  · rw [own, here] at found
    cases found
    simp [Report.label, own, named]
  · simp [Report.label, own]

theorem mem_calls {batchSize : Int} {input : List Sighting} :
    ∀ call ∈ calls publishers batchSize input, call.1 ∈ places publishers ∧ call.2 ≠ [] :=
  Fanout.mem_flushes

/-- A publisher that shares its name with no other is given every record once and in order. -/
theorem calls_whole {publisher : Plugin.Publisher S} {i : Nat}
    (here : publishers[i]? = some publisher)
    (alone : (publishers.map Plugin.Publisher.name).count publisher.name = 1) (batchSize : Int)
    (input : List Sighting) :
    (delivered (calls publishers batchSize input) (i, publisher.name)).flatten = input :=
  Fanout.alone_whole nodup_places (sharing_places here alone) input

theorem exists_flushed {entries : List (Plugin.Publisher S × List Sighting)}
    (returns : ∀ entry ∈ entries, ∀ s, ∃ s', (flush entry.1 (fun _ => entry.2) ctx).returns s () s')
    (s : S) : ∃ s', Flushed ctx entries s s' := by
  induction entries generalizing s with
  | nil => exact ⟨s, .nil s⟩
  | cons entry entries ih =>
      obtain ⟨mid, returned⟩ := returns entry List.mem_cons_self s
      obtain ⟨s', later⟩ := ih (fun e member => returns e (by simp [member])) mid
      exact ⟨s', .cons returned later⟩

/-- If no flush raises, the stage gets to its end. -/
theorem publish_runs {batchSize maxsize : Int} {input : List Sighting} {s : S}
    (works : ∀ publisher ∈ publishers, ∀ batch ≠ [], ∀ s e s',
      ¬ (flush publisher (fun _ => batch) ctx).raises s e s') :
    ∃ w', (runPublish (observedAll publishers) batchSize).Run maxsize input
      (World.fresh ctx ([], s)) .returned w' := by
  obtain ⟨env', flushed⟩ : ∃ env', Flushed ctx
      (publishFlushes (observedAll publishers) batchSize input) ([], s) env' := by
    apply exists_flushed
    intro entry member s
    obtain ⟨known, filled⟩ := Fanout.mem_flushes entry member
    obtain ⟨⟨publisher, i⟩, inside, same⟩ := List.mem_map.mp known
    rcases (flush entry.1 (fun _ => entry.2) ctx).answers s with
      ⟨_, s', returned⟩ | ⟨e, s', ⟨raised, other⟩⟩
    · exact ⟨s', returned⟩
    · rw [← same] at raised
      exact (works publisher (List.fst_mem_of_mem_zipIdx inside) _ filled _ _ _
        ⟨raised.1, other⟩).elim
  exact ⟨_, publish_returns flushed⟩

/-- None of the publishers ever raises, whatever it is given to publish. -/
def Unfailing (publishers : List (Plugin.Publisher S)) : Prop :=
  ∀ publisher ∈ publishers, ∀ batch ≠ [], ∀ ctx s e s',
    ¬ (publisher.publish batch ctx).raises s e s'

theorem Unfailing.runs (unfailing : Unfailing publishers) {batchSize maxsize : Int}
    {input : List Sighting} {s : S} :
    ∃ w', (runPublish (observedAll publishers) batchSize).Run maxsize input
      (World.fresh ctx ([], s)) .returned w' :=
  publish_runs fun publisher member batch filled s e s' raised =>
    unfailing publisher member batch filled ctx s e s' raised.1

theorem Unfailing.reports (unfailing : Unfailing publishers) {batchSize maxsize : Int}
    {input : List Sighting} {s : S} {exit : TaskNet.Exit Failure} {w' : World (List (Report S) × S)}
    (run : (runPublish (observedAll publishers) batchSize).Run maxsize input
      (World.fresh ctx ([], s)) exit w') :
    exit = .returned ∧ w'.env.1.map Report.label = calls publishers batchSize input ∧
      ∀ report ∈ w'.env.1, report.Real publishers ctx := by
  rcases reports_of_run run with returned |
    ⟨e, done, last, publisher, _, log, ⟨missed, begun⟩, _, _, found, _, raised, _⟩
  · exact returned
  · have called : last.label ∈ calls publishers batchSize input := by
      rw [begun, log]
      simp
    exact (unfailing publisher (List.mem_of_getElem? found) _ (mem_calls _ called).2 _ _ _ _
      raised).elim

/-- Publishers that never raise are given every record once and in order exactly if there is
nothing to publish, each record is flushed at once, or publishers of one name share their batches
fairly. -/
theorem publish_once_iff (unfailing : Unfailing publishers) (batchSize maxsize : Int)
    (input : List Sighting) (ctx : RunContext) (s : S) :
    (∃ w', (runPublish (observedAll publishers) batchSize).Run maxsize input
        (World.fresh ctx ([], s)) .returned w') ∧
      ∀ exit w', (runPublish (observedAll publishers) batchSize).Run maxsize input
        (World.fresh ctx ([], s)) exit w' →
          exit = .returned ∧
            ((∀ i < publishers.length, (passed w'.env.1 i).flatten = input) ↔
              input = [] ∨ batchSize ≤ 1 ∨ ∀ publisher ∈ publishers,
                Fair batchSize input
                  ((publishers.map Plugin.Publisher.name).count publisher.name)) := by
  refine ⟨unfailing.runs, fun exit w' run => ?_⟩
  obtain ⟨returned, labels, real⟩ := unfailing.reports run
  refine ⟨returned, ?_⟩
  have deliveries : (∀ i < publishers.length, (passed w'.env.1 i).flatten = input) ↔
      ∀ place ∈ places publishers,
        (delivered (calls publishers batchSize input) place).flatten = input := by
    constructor
    · intro whole place member
      obtain ⟨publisher, found, named⟩ := mem_places.mp member
      have below := (List.getElem?_eq_some_iff.mp found).1
      have here := whole place.1 below
      rw [passed_eq (fun report member => (real report member).known) found, labels, named] at here
      exact here
    · intro whole i below
      have found := List.getElem?_eq_getElem below
      rw [passed_eq (fun report member => (real report member).known) found, labels]
      exact whole _ (mem_places.mpr ⟨_, found, rfl⟩)
  rw [deliveries]
  unfold calls
  rw [Fanout.whole_iff nodup_places]
  refine or_congr_right (or_congr_right ?_)
  simp only [length_sharing_places]
  constructor
  · intro fair publisher member
    obtain ⟨i, found⟩ := List.getElem?_of_mem member
    exact fair (i, publisher.name) (mem_places.mpr ⟨publisher, found, rfl⟩)
  · intro fair place member
    obtain ⟨publisher, found, named⟩ := mem_places.mp member
    rw [← named]
    exact fair publisher (List.mem_of_getElem? found)

end observed

/-- A source with two webhooks. -/
def webhooksSource : SourceConfig :=
  { redSource with
    publishers := ["postgres".toList, "webhook".toList, "webhook".toList] }

def webhooksSpec : PipelineSpec (List Emission × Unit) :=
  Parts.spec (mutexEntryPoints .red) asciiRuntime
    { redParts .red with extras := [redWebhook .red, redWebhook .red] }

theorem webhooks_built :
    buildPipelineSpec ((mutexEntryPoints .red).loader asciiRuntime) webhooksSource none =
      .ok webhooksSpec := rfl

/-- A webhook that may send everything, to a client that always answers. -/
theorem webhooks_unfailing : Unfailing webhooksSpec.extraPublishers := by
  intro publisher member batch filled ctx s e s' raised
  have allowed : permitted TLP.red.rank batch = batch := by
    refine List.filter_eq_self.mpr fun pair _ => ?_
    cases pair.1.tlp <;> rfl
  have hook : publisher = (redWebhook .red).toPlugin (mutexEntryPoints .red) := by
    simpa [webhooksSpec, Parts.spec] using member
  subst hook
  change (webhookPublish (mutexEntryPoints .red) ⟨_, TLP.red.value⟩ batch).raises s e s' at raised
  unfold webhookPublish publishPermitted at raised
  rw [tlpRank_value] at raised
  simp only [allowed, if_neg filled] at raised
  exact raised.1

theorem publish_once_iff_webhooks :
    (∃ w', (runPublish (observedAll webhooksSpec.extraPublishers) 500).Run 1000 [redPair]
        (World.fresh feedContext ([], ([], ()))) .returned w') ∧
      ∀ exit w', (runPublish (observedAll webhooksSpec.extraPublishers) 500).Run 1000 [redPair]
        (World.fresh feedContext ([], ([], ()))) exit w' →
          exit = .returned ∧
            ((∀ i < webhooksSpec.extraPublishers.length, (passed w'.env.1 i).flatten = [redPair]) ↔
              [redPair] = [] ∨ (500 : Int) ≤ 1 ∨ ∀ publisher ∈ webhooksSpec.extraPublishers,
                Fair 500 [redPair] ((webhooksSpec.extraPublishers.map
                  Plugin.Publisher.name).count publisher.name)) :=
  publish_once_iff webhooks_unfailing 500 1000 [redPair] feedContext ([], ())

/-- With two webhooks the first one is given the only record twice, the second one nothing. -/
theorem publish_not_once :
    buildPipelineSpec ((mutexEntryPoints .red).loader asciiRuntime) webhooksSource none =
        .ok webhooksSpec ∧
      Unfailing webhooksSpec.extraPublishers ∧
      ∃ w', (runPublish (observedAll webhooksSpec.extraPublishers) webhooksSpec.batchSize).Run
          webhooksSpec.queueMaxsize [redPair] (World.fresh feedContext ([], ([], ()))) .returned
          w' ∧
        passed w'.env.1 0 = [[redPair, redPair]] ∧ passed w'.env.1 1 = [] := by
  refine ⟨webhooks_built, webhooks_unfailing, ?_⟩
  have runs : ∃ w',
      (runPublish (observedAll webhooksSpec.extraPublishers) webhooksSpec.batchSize).Run
        webhooksSpec.queueMaxsize [redPair] (World.fresh feedContext ([], ([], ()))) .returned w' :=
    webhooks_unfailing.runs
  obtain ⟨w', run⟩ := runs
  obtain ⟨_, labels, real⟩ := webhooks_unfailing.reports run
  have both : calls webhooksSpec.extraPublishers webhooksSpec.batchSize [redPair] =
      [((0, "webhook".toList), [redPair, redPair])] := rfl
  have first : webhooksSpec.extraPublishers[0]? =
      some ((redWebhook .red).toPlugin (mutexEntryPoints .red)) := rfl
  have second : webhooksSpec.extraPublishers[1]? =
      some ((redWebhook .red).toPlugin (mutexEntryPoints .red)) := rfl
  refine ⟨w', run, ?_, ?_⟩
  · rw [passed_eq (fun report member => (real report member).known) first, labels, both]
    rfl
  · rw [passed_eq (fun report member => (real report member).known) second, labels, both]
    rfl

end Cti
