import Mathlib.Algebra.Order.BigOperators.Group.List
import Cti.PublishReports

set_option autoImplicit false

/- What the publishers that filter by TLP label send over one call of the publish stage, and what
the counters make of it. -/
namespace Cti

open Py (Str)
open Fanout (flushes sharing delivered batchLength)

variable {T : Type}

/-- A call that always returns, after it has sent the records. -/
def Call.Sends (call : Call (List Emission × T) Unit) (emissions : List Emission) : Prop :=
  (∀ s s', call.returns s () s' → s'.1 = s.1 ++ emissions) ∧ ∀ s e s', ¬ call.raises s e s'

theorem Call.sending_sends {call : Call T Unit} (works : ∀ t e t', ¬ call.raises t e t')
    (emissions : List Emission) : (call.sending emissions).Sends emissions :=
  ⟨fun _ _ returned => returned.2, fun _ _ _ raised => works _ _ _ raised.1⟩

theorem Call.beside_sends {call : Call T Unit} (works : ∀ t e t', ¬ call.raises t e t') :
    (call.beside emissionDrift).Sends [] := by
  refine ⟨fun s s' returned => ?_, fun _ _ _ raised => works _ _ _ raised.2⟩
  rw [List.append_nil]
  exact Eq.symm returned.1

theorem Call.Sends.andThen {first second : Call (List Emission × T) Unit}
    {emissions emissions' : List Emission} (begun : first.Sends emissions)
    (rest : second.Sends emissions') : (first.andThen second).Sends (emissions ++ emissions') := by
  constructor
  · rintro s s' ⟨mid, returned, returned'⟩
    rw [rest.1 _ _ returned', begun.1 _ _ returned, List.append_assoc]
  · rintro s e s' (raised | ⟨mid, _, raised⟩)
    · exact begun.2 _ _ _ raised
    · exact rest.2 _ _ _ raised

section shipped

variable (E : EntryPoints T)

/-- The client of the publisher never fails. -/
def ShippedPublisher.Reliable : ShippedPublisher → Prop
  | .postgres => True
  | .webhook config => ∀ batch t e t', ¬ (E.post config batch).raises t e t'
  | .kafka config => (∀ t e t', ¬ (E.ensureProducer config).raises t e t') ∧
      ∀ pair t e t', ¬ (E.sendAndWait config pair).raises t e t'

variable {E}

theorem kafkaSend_sends {config : KafkaPublisherConfig}
    (works : ∀ pair t e t', ¬ (E.sendAndWait config pair).raises t e t') (batch : List Sighting) :
    (kafkaSend E config batch).Sends (batch.map fun pair => (.kafka config, pair)) := by
  induction batch with
  | nil =>
      refine ⟨fun s s' returned => ?_, fun _ _ _ raised => raised⟩
      rw [returned.2, List.map_nil, List.append_nil]
  | cons pair rest ih => exact (Call.sending_sends (works pair) [(.kafka config, pair)]).andThen ih

/-- A batch of which nothing may be sent is refused; of any other batch exactly the permitted
records are sent. -/
theorem publishPermitted_cases {S : Type} {m : TLP} {message : Str}
    {send : List Sighting → Call S Unit} {batch : List Sighting} :
    publishPermitted m.value message send batch =
      if permitted m.rank batch = [] then .fails (.leaf (ClassName.tlpViolation.exc message) rfl)
      else send (permitted m.rank batch) := by
  rw [publishPermitted, tlpRank_value]

/-- What one call of a publisher does that may send records up to a label. -/
def PublishesUpTo (m : TLP) (publisher : ShippedPublisher) (batch : List Sighting)
    (call : Call (List Emission × T) Unit) : Prop :=
  (permitted m.rank batch = [] → (∀ s s', ¬ call.returns s () s') ∧
      ∀ s e s', call.raises s e s' → s' = s ∧
        ∃ exc, e.1 = .leaf exc ∧ exc.isA .tlpViolation = true) ∧
    (permitted m.rank batch ≠ [] →
      call.Sends ((permitted m.rank batch).map fun pair => (publisher, pair)))

theorem publishPermitted_publishes {m : TLP} {message : Str} {publisher : ShippedPublisher}
    {send : List Sighting → Call (List Emission × T) Unit} {batch : List Sighting}
    (sends : ∀ filtered, (send filtered).Sends (filtered.map fun pair => (publisher, pair))) :
    PublishesUpTo m publisher batch (publishPermitted m.value message send batch) := by
  rw [publishPermitted_cases]
  constructor
  · intro nothing
    rw [if_pos nothing]
    refine ⟨fun _ _ returned => returned, ?_⟩
    rintro s e s' ⟨rfl, rfl⟩
    exact ⟨rfl, _, rfl, rfl⟩
  · intro something
    rw [if_neg something]
    exact sends _

theorem toPlugin_publishes {m : TLP} {publisher : ShippedPublisher}
    (configured : publisher.maxTlp = some m.value) (reliable : publisher.Reliable E)
    (batch : List Sighting) (ctx : RunContext) :
    PublishesUpTo m publisher batch ((publisher.toPlugin E).publish batch ctx) := by
  cases publisher with
  | postgres => cases configured
  | webhook config =>
      obtain ⟨url, maxTlp⟩ := config
      cases configured
      apply publishPermitted_publishes
      intro filtered
      exact Call.sending_sends (reliable filtered) _
  | kafka config =>
      obtain ⟨servers, topic, maxTlp⟩ := config
      cases configured
      apply publishPermitted_publishes
      intro filtered
      exact (Call.beside_sends reliable.1).andThen (kafkaSend_sends reliable.2 filtered)

end shipped

section reports

/-- What was sent during a call. -/
def Report.sent (report : Report (List Emission × T)) : List Emission :=
  report.after.1.drop report.before.1.length

/-- What one publisher of the list has sent, call after call. -/
def emitted (reports : List (Report (List Emission × T))) (index : Nat) : List Emission :=
  (reports.filter fun report => report.publisher = index).flatMap Report.sent

variable {E : EntryPoints T} {publishers : List (Plugin.Publisher (List Emission × T))}
  {ctx : RunContext} {m : TLP} {p : ShippedPublisher} {i : Nat}

theorem Report.Real.sent (configured : p.maxTlp = some m.value) (reliable : p.Reliable E)
    (here : publishers[i]? = some (p.toPlugin E)) {report : Report (List Emission × T)}
    (real : report.Real publishers ctx) (own : report.publisher = i) :
    report.sent = (permitted m.rank report.batch).map (fun pair => (p, pair)) ∧
      (report.raised = none ↔ permitted m.rank report.batch ≠ []) := by
  obtain ⟨publisher, found, _, call⟩ := real
  rw [own, here] at found
  cases found
  have publishes := toPlugin_publishes configured reliable report.batch ctx
  unfold Report.sent
  by_cases nothing : permitted m.rank report.batch = []
  · obtain ⟨returns, raises⟩ := publishes.1 nothing
    rw [nothing]
    cases result : report.raised with
    | none =>
        rw [result] at call
        exact (returns _ _ call).elim
    | some e =>
        rw [result] at call
        rw [(raises _ _ _ call.1).1]
        simp
  · obtain ⟨returns, raises⟩ := publishes.2 nothing
    cases result : report.raised with
    | none =>
        rw [result] at call
        rw [returns _ _ call]
        simp [nothing]
    | some e =>
        rw [result] at call
        exact (raises _ _ _ call.1).elim

/-- Whatever the batches, the permitted records are sent. -/
theorem emitted_eq (configured : p.maxTlp = some m.value) (reliable : p.Reliable E)
    (here : publishers[i]? = some (p.toPlugin E)) {reports : List (Report (List Emission × T))}
    (real : ∀ report ∈ reports, report.Real publishers ctx) :
    emitted reports i =
      (permitted m.rank (passed reports i).flatten).map fun pair => (p, pair) := by
  have each : ∀ report ∈ reports.filter fun report => report.publisher = i,
      report.sent = (permitted m.rank report.batch).map fun pair => (p, pair) := by
    intro report member
    obtain ⟨inside, own⟩ := List.mem_filter.mp member
    exact ((real report inside).sent configured reliable here (by simpa using own)).1
  calc emitted reports i
      = (reports.filter fun report => report.publisher = i).flatMap fun report =>
          (permitted m.rank report.batch).map fun pair => (p, pair) :=
        List.flatMap_congr each
    _ = ((passed reports i).flatMap (permitted m.rank)).map fun pair => (p, pair) := by
        rw [passed, List.flatMap_map, List.map_flatMap]
    _ = (permitted m.rank (passed reports i).flatten).map fun pair => (p, pair) := by
        rw [permitted, List.filter_flatten, List.flatMap_def]
        rfl

/-- How a call of the stage ends for a publisher whose client never fails: all its calls return or
are refused, and if the stage fails, then because another publisher does. -/
theorem run_cases (configured : p.maxTlp = some m.value) (reliable : p.Reliable E)
    (here : publishers[i]? = some (p.toPlugin E)) {batchSize maxsize : Int}
    {input : List Sighting} {s : List Emission × T} {exit : TaskNet.Exit Failure}
    {w' : World (List (Report (List Emission × T)) × List Emission × T)}
    (run : (runPublish (observedAll publishers) batchSize).Run maxsize input
      (World.fresh ctx ([], s)) exit w') :
    (exit = .returned ∧ w'.env.1.map Report.label = calls publishers batchSize input ∧
        ∀ report ∈ w'.env.1, report.Real publishers ctx) ∨
      ∃ e j publisher, exit = .raised e ∧ j ≠ i ∧ publishers[j]? = some publisher ∧
        (∃ batch s s', (publisher.publish batch ctx).raises s e s') ∧
        (∀ exc, e.1 = .leaf exc → exc.isA .tlpViolation = false) ∧
        ∃ done last missed, w'.env.1 = done ++ [last] ∧ last.publisher = j ∧
          (∀ report ∈ done, report.Real publishers ctx) ∧
          calls publishers batchSize input = done.map Report.label ++ missed := by
  rcases reports_of_run run with returned |
    ⟨e, done, last, publisher, failed, log, ⟨missed, begun⟩, real, _, found, _, raised, other⟩
  · exact Or.inl returned
  · refine Or.inr ⟨e, last.publisher, publisher, failed, ?_, found, ⟨_, _, _, raised⟩, other, done,
      last, last.label :: missed, log, rfl, real, ?_⟩
    · intro own
      rw [own, here] at found
      cases found
      have publishes := toPlugin_publishes configured reliable last.batch ctx
      by_cases nothing : permitted m.rank last.batch = []
      · obtain ⟨_, exc, single, refused⟩ := (publishes.1 nothing).2 _ _ _ raised
        rw [other exc single] at refused
        cases refused
      · exact (publishes.2 nothing).2 _ _ _ raised
    · rw [begun, log]
      simp

/-- A call that returns has given every publisher all records, of which it has sent those that it
may send. -/
theorem returned_filtered (distinct : (publishers.map Plugin.Publisher.name).Nodup)
    (here : publishers[i]? = some (p.toPlugin E)) (configured : p.maxTlp = some m.value)
    (reliable : p.Reliable E) {batchSize maxsize : Int} {input : List Sighting}
    {s : List Emission × T} {w' : World (List (Report (List Emission × T)) × List Emission × T)}
    (run : (runPublish (observedAll publishers) batchSize).Run maxsize input
      (World.fresh ctx ([], s)) .returned w') :
    emitted w'.env.1 i = (permitted m.rank input).map (fun pair => (p, pair)) ∧
      ∀ j < publishers.length, (passed w'.env.1 j).flatten = input := by
  rcases run_cases configured reliable here run with ⟨_, labels, real⟩ | ⟨_, _, _, raised, _⟩
  · have whole : ∀ j < publishers.length, (passed w'.env.1 j).flatten = input := by
      intro j below
      have found := List.getElem?_eq_getElem below
      have alone := List.count_eq_one_of_mem distinct
        (List.mem_map_of_mem (List.getElem_mem below))
      rw [passed_eq (fun report member => (real report member).known) found, labels]
      exact calls_whole found alone batchSize input
    refine ⟨?_, whole⟩
    rw [emitted_eq configured reliable here real, whole i (List.getElem?_eq_some_iff.mp here).1]
  · cases raised

/-- A publisher sends exactly the records that it may send, in their order, however they are
batched, and the others get all records. A call that does not return fails because of another
publisher; then the first of these records were sent. -/
theorem tlp_filtering (distinct : (publishers.map Plugin.Publisher.name).Nodup)
    (here : publishers[i]? = some (p.toPlugin E)) (configured : p.maxTlp = some m.value)
    (reliable : p.Reliable E) (batchSize maxsize : Int) (input : List Sighting) (ctx : RunContext)
    (s : List Emission × T) {exit : TaskNet.Exit Failure}
    {w' : World (List (Report (List Emission × T)) × List Emission × T)}
    (run : (runPublish (observedAll publishers) batchSize).Run maxsize input
      (World.fresh ctx ([], s)) exit w') :
    ((exit = .returned ∧
        emitted w'.env.1 i = (permitted m.rank input).map (fun pair => (p, pair)) ∧
        ∀ j < publishers.length, (passed w'.env.1 j).flatten = input) ∨
      ∃ e j publisher, exit = .raised e ∧ j ≠ i ∧ publishers[j]? = some publisher ∧
        (∃ batch s s', (publisher.publish batch ctx).raises s e s') ∧
        (∀ exc, e.1 = .leaf exc → exc.isA .tlpViolation = false) ∧
        emitted w'.env.1 i <+: (permitted m.rank input).map fun pair => (p, pair)) ∧
    ∀ (batchSize' maxsize' : Int) (input' : List Sighting) (s' : List Emission × T)
      (w'' : World (List (Report (List Emission × T)) × List Emission × T)),
      (runPublish (observedAll publishers) batchSize').Run maxsize' input'
        (World.fresh ctx ([], s')) .returned w'' →
      permitted m.rank input' = permitted m.rank input → exit = .returned →
        emitted w''.env.1 i = emitted w'.env.1 i := by
  have single := List.count_eq_one_of_mem distinct
    (List.mem_map_of_mem (List.mem_of_getElem? here))
  constructor
  · rcases run_cases configured reliable here run with ⟨rfl, _, _⟩ |
      ⟨e, j, publisher, failed, other, found, raised, foreign, done, last, missed, log, rfl, real,
        begun⟩
    · exact Or.inl ⟨rfl, returned_filtered distinct here configured reliable run⟩
    · refine Or.inr ⟨e, _, publisher, failed, other, found, raised, foreign, ?_⟩
      have own : emitted w'.env.1 i = emitted done i := by
        rw [emitted, log, List.filter_append]
        simp [emitted, other]
      have before : (passed done i).flatten <+: input := by
        rw [passed_eq (fun report member => (real report member).known) here]
        have whole := calls_whole here single batchSize input
        rw [begun, delivered, List.filter_append, List.map_append, List.flatten_append] at whole
        exact ⟨_, whole⟩
      rw [own, emitted_eq configured reliable here real]
      exact (before.filter _).map _
  · rintro batchSize' maxsize' input' s' w'' run' same rfl
    rw [(returned_filtered distinct here configured reliable run').1,
      (returned_filtered distinct here configured reliable run).1, same]

end reports

section runs

/-- The webhook of a source, for records up to AMBER. -/
def amberWebhook : Plugin.Publisher (List Emission × Unit) :=
  (redWebhook .amber).toPlugin (mutexEntryPoints .amber)

/-- A record that the webhook may not send. -/
def strictPair : Sighting := ({ redPair.1 with tlp := .red }, redPair.2)

theorem redWebhook_reliable (m : TLP) : (redWebhook m).Reliable (mutexEntryPoints m) :=
  fun _ _ _ _ never => never

theorem amberWebhook_runs (batchSize maxsize : Int) (input : List Sighting) :
    ∃ w', (runPublish (observedAll [amberWebhook]) batchSize).Run maxsize input
      (World.fresh feedContext ([], ([], ()))) .returned w' := by
  apply publish_runs
  intro publisher member batch _ s e s' raised
  rw [List.mem_singleton] at member
  subst member
  have publishes : PublishesUpTo .amber (redWebhook .amber) batch
      (amberWebhook.publish batch feedContext) :=
    toPlugin_publishes rfl (redWebhook_reliable .amber) batch feedContext
  by_cases nothing : permitted TLP.amber.rank batch = []
  · obtain ⟨_, exc, single, refused⟩ := (publishes.1 nothing).2 _ _ _ raised.1
    rw [raised.2 exc single] at refused
    cases refused
  · exact (publishes.2 nothing).2 _ _ _ raised.1

theorem tlp_filtering_webhook :
    ∃ w', (runPublish (observedAll [amberWebhook]) 2).Run 1000 [strictPair, redPair, strictPair]
        (World.fresh feedContext ([], ([], ()))) .returned w' ∧
      emitted w'.env.1 0 = [(redWebhook .amber, redPair)] := by
  obtain ⟨w', run⟩ := amberWebhook_runs 2 1000 [strictPair, redPair, strictPair]
  refine ⟨w', run, ?_⟩
  rcases (tlp_filtering (E := mutexEntryPoints .amber) (m := .amber) (p := redWebhook .amber)
    (i := 0) (by simp) rfl rfl (redWebhook_reliable .amber) 2 1000 _ feedContext _ run).1 with
    ⟨_, sent, _⟩ | ⟨_, _, _, raised, _⟩
  · rw [sent]
    rfl
  · cases raised

/-- Clients of which the one for Kafka finds no broker. -/
def brokerless : EntryPoints Unit :=
  { mutexEntryPoints .amber with
    ensureProducer := fun _ =>
      .fails (.leaf (pyError ["KafkaConnectionError".toList] []) (pyError_exception _ _)) }

/-- A publisher for Kafka and a webhook, which may send all records. -/
def brokerlessPublishers : List (Plugin.Publisher (List Emission × Unit)) :=
  [(ShippedPublisher.kafka ⟨"broker".toList, "cti".toList, TLP.red.value⟩).toPlugin brokerless,
    (redWebhook .red).toPlugin brokerless]

/-- If the publisher for Kafka fails, the webhook sends nothing, although its client works. -/
theorem tlp_filtering_interrupted :
    (brokerlessPublishers.map Plugin.Publisher.name).Nodup ∧
      (redWebhook .red).Reliable brokerless ∧
      ∃ e w', (runPublish (observedAll brokerlessPublishers) 1).Run 1000 [redPair]
          (World.fresh feedContext ([], ([], ()))) (.raised e) w' ∧
        emitted w'.env.1 1 = [] ∧ permitted TLP.red.rank [redPair] = [redPair] := by
  refine ⟨by decide, fun _ _ _ _ never => never, ?_⟩
  let e : Failure := .leaf (pyError ["KafkaConnectionError".toList] []) (pyError_exception _ _)
  let report : Report (List Emission × Unit) :=
    ⟨0, "kafka".toList, [redPair], some e, ([], ()), ([], ())⟩
  let w' : World (List (Report (List Emission × Unit)) × List Emission × Unit) :=
    World.fresh feedContext ([report], ([], ()))
  have run : (runPublish (observedAll brokerlessPublishers) 1).Run 1000 [redPair]
      (World.fresh feedContext ([], ([], ()))) (.raised e) w' := by
    refine ⟨⟨⟨[none], true⟩, ⟨.finished (.raised e), false⟩, .empty, w'⟩, ?_, rfl, rfl⟩
    refine .head ⟨.start, .start _ rfl⟩ ?_
    refine .head ⟨.get, .get _ (PublishPc.waiting fun _ => []) _ (some redPair) [none] rfl rfl
      rfl⟩ ?_
    refine .single ⟨.raise e, .raise _ _ _ _ e w' rfl rfl ?_⟩
    refine ⟨([report], ([], ())), ⟨⟨Or.inl ⟨rfl, rfl, rfl⟩, rfl⟩, ?_⟩, rfl⟩
    rintro exc ⟨rfl⟩
    rfl
  exact ⟨e, w', run, rfl, rfl⟩

end runs

section counters

/-- The counters of one source that the stage moves: `RECORDS_OUT` by publisher and `DROPPED` by
reason. -/
structure PublishMetrics where
  recordsOut : Str → Nat
  dropped : Str → Nat

/-- The `except TLPViolation` of `flush` takes the failure. -/
def Failure.refused (e : Failure) : Bool :=
  match e.1 with
  | .leaf exc => exc.isA .tlpViolation
  | .group .. => false

def tlpReason (name : Str) : Str := "tlp:".toList ++ name

variable {S : Type}

/-- What `flush` adds to the counters after a call. -/
def PublishMetrics.count (metrics : PublishMetrics) (report : Report S) : PublishMetrics :=
  match report.raised with
  | none =>
      { metrics with
        recordsOut := Function.update metrics.recordsOut report.name
          (metrics.recordsOut report.name + report.batch.length) }
  | some e =>
      if e.refused then
        { metrics with
          dropped := Function.update metrics.dropped (tlpReason report.name)
            (metrics.dropped (tlpReason report.name) + report.batch.length) }
      else metrics

/-- The number of records in the reported batches. -/
def batched (reports : List (Report S)) : Nat :=
  (reports.map fun report => report.batch.length).sum

theorem count_recordsOut (metrics : PublishMetrics) (reports : List (Report S)) (name : Str) :
    (reports.foldl PublishMetrics.count metrics).recordsOut name = metrics.recordsOut name +
      batched (reports.filter fun report => report.name = name ∧ report.raised.isNone) := by
  induction reports generalizing metrics with
  | nil => simp [batched]
  | cons report reports ih =>
      rw [List.foldl_cons, ih]
      unfold PublishMetrics.count batched
      cases result : report.raised with
      | none =>
          by_cases own : report.name = name
          · subst own
            simp [result, Nat.add_assoc]
          · have other : name ≠ report.name := fun same => own same.symm
            simp [own, other]
      | some e => by_cases refused : e.refused = true <;> simp [result, refused]

theorem count_dropped (metrics : PublishMetrics) (reports : List (Report S)) (name : Str) :
    (reports.foldl PublishMetrics.count metrics).dropped (tlpReason name) =
      metrics.dropped (tlpReason name) +
        batched (reports.filter fun report =>
          report.name = name ∧ report.raised.any Failure.refused) := by
  induction reports generalizing metrics with
  | nil => simp [batched]
  | cons report reports ih =>
      rw [List.foldl_cons, ih]
      unfold PublishMetrics.count batched
      cases result : report.raised with
      | none => simp [result]
      | some e =>
          by_cases refused : e.refused = true
          · by_cases own : report.name = name
            · subst own
              simp [result, refused, Nat.add_assoc]
            · have other : tlpReason name ≠ tlpReason report.name := fun same =>
                own (List.append_cancel_left same).symm
              simp [refused, own, other]
          · simp [result, refused]

/-- Every call of a run that returns counts. -/
theorem count_both {publishers : List (Plugin.Publisher S)} {ctx : RunContext}
    {reports : List (Report S)} (real : ∀ report ∈ reports, report.Real publishers ctx)
    (name : Str) :
    batched (reports.filter fun report => report.name = name ∧ report.raised.isNone) +
        batched (reports.filter fun report =>
          report.name = name ∧ report.raised.any Failure.refused) =
      batched (reports.filter fun report => report.name = name) := by
  induction reports with
  | nil => rfl
  | cons report reports ih =>
      have later := ih fun other member => real other (List.mem_cons_of_mem _ member)
      obtain ⟨_, _, _, call⟩ := real report List.mem_cons_self
      unfold batched at later ⊢
      by_cases own : report.name = name
      · cases result : report.raised with
        | none =>
            simp only [List.filter_cons, own, result, Option.isNone_none, Option.any_none,
              true_and, decide_true, Bool.false_eq_true, and_false, decide_false, if_true,
              if_false, List.map_cons, List.sum_cons]
            omega
        | some e =>
            rw [result] at call
            obtain ⟨_, exc, leaf, violation⟩ := call
            have refused : e.refused = true := by
              rw [Failure.refused, leaf]
              exact violation
            simp only [List.filter_cons, own, result, Option.isNone_some, Option.any_some, refused,
              true_and, decide_true, Bool.false_eq_true, and_false, decide_false, if_true,
              if_false, List.map_cons, List.sum_cons]
            omega
      · simpa [own] using later

/-- The records that a publisher may not send. -/
def stricter (maxAllowed : Nat) (batch : List Sighting) : List Sighting :=
  batch.filter fun pair => maxAllowed < pair.1.tlp.rank

theorem length_stricter (maxAllowed : Nat) (batch : List Sighting) :
    (permitted maxAllowed batch).length + (stricter maxAllowed batch).length = batch.length := by
  have split := List.length_eq_length_filter_add (l := batch) fun pair =>
    decide (pair.1.tlp.rank ≤ maxAllowed)
  simp only [← decide_not, Nat.not_le] at split
  exact split.symm

/-- The counters of a publisher have grown by the records that it sent and by those that it may
not send. -/
structure Accounted (before after : PublishMetrics) (name : Str) (sent : List Emission) (m : TLP)
    (input : List Sighting) : Prop where
  recordsOut : after.recordsOut name = before.recordsOut name + sent.length
  dropped : after.dropped (tlpReason name) =
    before.dropped (tlpReason name) + (stricter m.rank input).length
  total : after.recordsOut name + after.dropped (tlpReason name) =
    before.recordsOut name + before.dropped (tlpReason name) + input.length

/-- A batch counts as what is sent of it only if all its records are treated alike. -/
theorem permitted_whole_iff (maxAllowed : Nat) (batch : List Sighting) :
    (permitted maxAllowed batch).length =
        (if permitted maxAllowed batch = [] then 0 else batch.length) ↔
      ∀ a b, a ∈ batch → b ∈ batch → (a.1.tlp.rank ≤ maxAllowed ↔ b.1.tlp.rank ≤ maxAllowed) := by
  by_cases nothing : permitted maxAllowed batch = []
  · have never : ∀ pair ∈ batch, ¬ pair.1.tlp.rank ≤ maxAllowed := by
      simpa [permitted, List.filter_eq_nil_iff] using nothing
    rw [if_pos nothing, nothing]
    exact iff_of_true rfl fun a b inside inside' => iff_of_false (never a inside) (never b inside')
  · obtain ⟨pair, found⟩ := List.exists_mem_of_ne_nil _ nothing
    obtain ⟨member, allowed⟩ := List.mem_filter.mp found
    have below : pair.1.tlp.rank ≤ maxAllowed := by simpa using allowed
    rw [if_neg nothing, permitted, List.length_filter_eq_length_iff]
    constructor
    · intro all a b inside inside'
      exact iff_of_true (by simpa using all a inside) (by simpa using all b inside')
    · intro alike a inside
      simpa using (alike a pair inside member).mpr below

theorem sum_permitted_iff (maxAllowed : Nat) (batches : List (List Sighting)) :
    (permitted maxAllowed batches.flatten).length =
        (batches.map fun batch =>
          if permitted maxAllowed batch = [] then 0 else batch.length).sum ↔
      ∀ a b, (∃ batch ∈ batches, a ∈ batch ∧ b ∈ batch) →
        (a.1.tlp.rank ≤ maxAllowed ↔ b.1.tlp.rank ≤ maxAllowed) := by
  have le : ∀ batch ∈ batches, (permitted maxAllowed batch).length ≤
      if permitted maxAllowed batch = [] then 0 else batch.length := by
    intro batch _
    split
    · rename_i nothing
      rw [nothing]
      exact Nat.le_refl 0
    · exact List.length_filter_le _ batch
  have sum : (permitted maxAllowed batches.flatten).length =
      (batches.map fun batch => (permitted maxAllowed batch).length).sum := by
    rw [permitted, List.filter_flatten, List.length_flatten, List.map_map]
    rfl
  rw [sum]
  constructor
  · rintro equal a b ⟨batch, member, inside, inside'⟩
    refine (permitted_whole_iff maxAllowed batch).mp ?_ a b inside inside'
    refine Nat.le_antisymm (le batch member) ?_
    by_contra less
    exact (List.sum_lt_sum _ _ le ⟨batch, member, Nat.lt_of_not_le less⟩).ne equal
  · intro alike
    refine congrArg List.sum (List.map_congr_left fun batch member => ?_)
    exact (permitted_whole_iff maxAllowed batch).mpr fun a b inside inside' =>
      alike a b ⟨batch, member, inside, inside'⟩

theorem batched_filter (q : Report S → Bool) (reports : List (Report S)) :
    batched (reports.filter q) =
      (reports.map fun report => if q report then report.batch.length else 0).sum := by
  induction reports with
  | nil => rfl
  | cons report reports ih =>
      rw [List.map_cons, List.sum_cons, ← ih, List.filter_cons]
      split
      · rfl
      · exact (Nat.zero_add _).symm

/-- All batches of one name hold every record once for each publisher of that name. -/
theorem batched_name {publishers : List (Plugin.Publisher S)} {batchSize : Int}
    {input : List Sighting} {reports : List (Report S)}
    (labels : reports.map Report.label = calls publishers batchSize input) (name : Str) :
    batched (reports.filter fun report => report.name = name) =
      (publishers.map Plugin.Publisher.name).count name * input.length := by
  have sum : (((calls publishers batchSize input).filter fun call => call.1.2 = name).map
      fun call => call.2.length).sum =
        (sharing Prod.snd name (places publishers)).length * input.length :=
    Fanout.sum_flushes name (places publishers) input
  rw [← length_sharing_places, ← sum, ← labels, List.filter_map, List.map_map]
  rfl

section accounting

variable {E : EntryPoints T} {publishers : List (Plugin.Publisher (List Emission × T))}
  {ctx : RunContext} {m : TLP} {p : ShippedPublisher} {i : Nat}

/-- What is counted as published for a publisher that shares its name with no other: all of a
batch of which it sends something. -/
theorem batched_published (configured : p.maxTlp = some m.value) (reliable : p.Reliable E)
    (here : publishers[i]? = some (p.toPlugin E))
    (alone : (publishers.map Plugin.Publisher.name).count (p.toPlugin E).name = 1)
    {reports : List (Report (List Emission × T))}
    (real : ∀ report ∈ reports, report.Real publishers ctx) :
    batched (reports.filter fun report =>
        report.name = (p.toPlugin E).name ∧ report.raised.isNone) =
      ((passed reports i).map fun batch =>
        if permitted m.rank batch = [] then 0 else batch.length).sum := by
  have own : ∀ report ∈ reports,
      (report.name = (p.toPlugin E).name ↔ report.publisher = i) := by
    intro report member
    obtain ⟨publisher, found, named⟩ := (real report member).known
    constructor
    · intro same
      have place : (report.publisher, report.name) ∈
          sharing Prod.snd (p.toPlugin E).name (places publishers) :=
        List.mem_filter.mpr ⟨mem_places.mpr ⟨publisher, found, named⟩, by simpa using same⟩
      rw [sharing_places here alone, List.mem_singleton] at place
      exact congrArg Prod.fst place
    · intro same
      rw [same, here] at found
      cases found
      exact named.symm
  have narrow : (reports.filter fun report =>
      report.name = (p.toPlugin E).name ∧ report.raised.isNone) =
        (reports.filter fun report => report.publisher = i).filter fun report =>
          report.raised.isNone := by
    rw [List.filter_filter]
    refine List.filter_congr fun report member => ?_
    simp only [own report member, Bool.decide_and, Bool.decide_eq_true, Bool.and_comm]
  rw [narrow, batched_filter, passed, List.map_map]
  refine congrArg List.sum (List.map_congr_left fun report member => ?_)
  obtain ⟨inside, place⟩ := List.mem_filter.mp member
  have sent := ((real report inside).sent configured reliable here (by simpa using place)).2
  by_cases nothing : permitted m.rank report.batch = []
  · have raised : report.raised.isNone = false := by
      rw [Option.isNone_eq_false_iff, Option.isSome_iff_ne_none]
      exact fun none => sent.mp none nothing
    simp [raised, nothing]
  · have returned : report.raised.isNone = true := by
      rw [sent.mpr nothing]
      rfl
    simp [returned, nothing]

/-- With nothing to publish no counter moves. -/
theorem accounted_nil {batchSize : Int} {reports : List (Report (List Emission × T))}
    (labels : reports.map Report.label = calls publishers batchSize []) (before : PublishMetrics)
    (name : Str) :
    Accounted before (reports.foldl PublishMetrics.count before) name (emitted reports i) m [] := by
  have none : calls publishers batchSize [] = [] := Fanout.leftovers_empty _
  rw [none] at labels
  rw [List.map_eq_nil_iff.mp labels]
  exact ⟨rfl, rfl, rfl⟩

/-- Publishers of one name count every record several times. -/
theorem not_accounted_shared {name : Str}
    (several : 2 ≤ (publishers.map Plugin.Publisher.name).count name) {batchSize : Int}
    {input : List Sighting} (filled : input ≠ []) {reports : List (Report (List Emission × T))}
    (labels : reports.map Report.label = calls publishers batchSize input)
    (real : ∀ report ∈ reports, report.Real publishers ctx) (before : PublishMetrics)
    (sent : List Emission) :
    ¬ Accounted before (reports.foldl PublishMetrics.count before) name sent m input := by
  intro accounted
  have total := accounted.total
  rw [count_recordsOut, count_dropped] at total
  have both := count_both real name
  rw [batched_name labels] at both
  have double := Nat.mul_le_mul_right input.length several
  have records := List.length_pos_iff.mpr filled
  omega

/-- A publisher that shares its name with no other counts each record once, as published or as
refused. -/
theorem accounted_alone_iff (here : publishers[i]? = some (p.toPlugin E))
    (configured : p.maxTlp = some m.value) (reliable : p.Reliable E)
    (alone : (publishers.map Plugin.Publisher.name).count (p.toPlugin E).name = 1)
    {batchSize : Int} {input : List Sighting} {reports : List (Report (List Emission × T))}
    (labels : reports.map Report.label = calls publishers batchSize input)
    (real : ∀ report ∈ reports, report.Real publishers ctx) (before : PublishMetrics) :
    Accounted before (reports.foldl PublishMetrics.count before) (p.toPlugin E).name
        (emitted reports i) m input ↔
      ∀ a b, (∃ j k, j / batchLength batchSize = k / batchLength batchSize ∧
          input[j]? = some a ∧ input[k]? = some b) →
        (a.1.tlp.rank ≤ m.rank ↔ b.1.tlp.rank ≤ m.rank) := by
  have both := count_both real (p.toPlugin E).name
  rw [batched_name labels, alone, Nat.one_mul] at both
  have out := count_recordsOut before reports (p.toPlugin E).name
  have refused := count_dropped before reports (p.toPlugin E).name
  have lengths := length_stricter m.rank input
  have known := fun report member => (real report member).known
  have whole : (passed reports i).flatten = input := by
    rw [passed_eq known here, labels]
    exact calls_whole here alone batchSize input
  have blocks : ∀ a b : Sighting,
      (∃ batch ∈ passed reports i, a ∈ batch ∧ b ∈ batch) ↔
        ∃ j k, j / batchLength batchSize = k / batchLength batchSize ∧
          input[j]? = some a ∧ input[k]? = some b := by
    intro a b
    have single : sharing Prod.snd (i, (p.toPlugin E).name).2 (places publishers) =
        [(i, (p.toPlugin E).name)] := sharing_places here alone
    rw [passed_eq known here, labels]
    exact Fanout.same_batch_iff nodup_places single
  -- What is counted as published is what was sent, exactly if each batch is sent whole or not at all.
  have exact := sum_permitted_iff m.rank (passed reports i)
  rw [whole, ← batched_published configured reliable here alone real] at exact
  simp only [blocks] at exact
  rw [emitted_eq configured reliable here real, whole, ← exact]
  constructor
  · intro accounted
    have counted := accounted.recordsOut
    rw [out, List.length_map] at counted
    omega
  · intro equal
    refine ⟨?_, ?_, ?_⟩
    · rw [out, List.length_map, equal]
    · rw [refused]
      omega
    · rw [out, refused]
      omega

/-- The counters of a publisher are exact after a call that returns, exactly if there was nothing
to publish or the publisher shares its name with no other and no block of the batch size holds
both records that it may send and records that it may not send. A call that does not return fails
because of another publisher. -/
theorem tlp_accounting_iff (here : publishers[i]? = some (p.toPlugin E))
    (configured : p.maxTlp = some m.value) (reliable : p.Reliable E) (batchSize maxsize : Int)
    (input : List Sighting) (ctx : RunContext) (s : List Emission × T) (before : PublishMetrics)
    {exit : TaskNet.Exit Failure}
    {w' : World (List (Report (List Emission × T)) × List Emission × T)}
    (run : (runPublish (observedAll publishers) batchSize).Run maxsize input
      (World.fresh ctx ([], s)) exit w') :
    (exit = .returned ∧
        (Accounted before (w'.env.1.foldl PublishMetrics.count before) (p.toPlugin E).name
            (emitted w'.env.1 i) m input ↔
          input = [] ∨
            (publishers.map Plugin.Publisher.name).count (p.toPlugin E).name = 1 ∧
              ∀ a b, (∃ j k, j / batchLength batchSize = k / batchLength batchSize ∧
                  input[j]? = some a ∧ input[k]? = some b) →
                (a.1.tlp.rank ≤ m.rank ↔ b.1.tlp.rank ≤ m.rank))) ∨
      ∃ e j publisher, exit = .raised e ∧ j ≠ i ∧ publishers[j]? = some publisher ∧
        (∃ batch s s', (publisher.publish batch ctx).raises s e s') ∧
        ∀ exc, e.1 = .leaf exc → exc.isA .tlpViolation = false := by
  rcases run_cases configured reliable here run with ⟨returned, labels, real⟩ |
    ⟨e, j, publisher, failed, other, found, raised, foreign, _⟩
  · refine Or.inl ⟨returned, ?_⟩
    by_cases empty : input = []
    · subst empty
      exact iff_of_true (accounted_nil labels before _) (Or.inl rfl)
    · simp only [empty, false_or]
      by_cases alone : (publishers.map Plugin.Publisher.name).count (p.toPlugin E).name = 1
      · simp only [alone, true_and]
        exact accounted_alone_iff here configured reliable alone labels real before
      · have present : 0 < (publishers.map Plugin.Publisher.name).count (p.toPlugin E).name :=
          List.count_pos_iff.mpr (List.mem_map_of_mem (List.mem_of_getElem? here))
        refine iff_of_false ?_ fun single => alone single.1
        exact not_accounted_shared (by omega) empty labels real before _
  · exact Or.inr ⟨e, j, publisher, failed, other, found, raised, foreign⟩

end accounting

theorem tlp_accounting_iff_webhook :
    ∃ w', (runPublish (observedAll [amberWebhook]) 1).Run 1000 [redPair, strictPair]
        (World.fresh feedContext ([], ([], ()))) .returned w' ∧
      Accounted ⟨fun _ => 0, fun _ => 0⟩
        (w'.env.1.foldl PublishMetrics.count ⟨fun _ => 0, fun _ => 0⟩) "webhook".toList
        (emitted w'.env.1 0) .amber [redPair, strictPair] := by
  obtain ⟨w', run⟩ := amberWebhook_runs 1 1000 [redPair, strictPair]
  refine ⟨w', run, ?_⟩
  have here : [amberWebhook][0]? = some ((redWebhook .amber).toPlugin (mutexEntryPoints .amber)) :=
    rfl
  have configured : (redWebhook .amber).maxTlp = some TLP.amber.value := rfl
  rcases tlp_accounting_iff here configured (redWebhook_reliable .amber) 1 1000 _ feedContext _
    ⟨fun _ => 0, fun _ => 0⟩ run with ⟨_, exact⟩ | ⟨_, _, _, raised, _⟩
  · refine exact.mpr (Or.inr ⟨rfl, ?_⟩)
    rintro a b ⟨j, k, same, first, second⟩
    have equal : j = k := by simpa [batchLength] using same
    rw [equal, second] at first
    cases first
    rfl
  · cases raised

/-- Of one batch with a record that may be sent and one that may not, both count as published. -/
theorem tlp_accounting_broken :
    ∃ w', (runPublish (observedAll [amberWebhook]) 2).Run 1000 [redPair, strictPair]
        (World.fresh feedContext ([], ([], ()))) .returned w' ∧
      (w'.env.1.foldl PublishMetrics.count ⟨fun _ => 0, fun _ => 0⟩).recordsOut
        "webhook".toList = 2 ∧
      (w'.env.1.foldl PublishMetrics.count ⟨fun _ => 0, fun _ => 0⟩).dropped
        (tlpReason "webhook".toList) = 0 ∧
      emitted w'.env.1 0 = [(redWebhook .amber, redPair)] ∧
      stricter TLP.amber.rank [redPair, strictPair] = [strictPair] := by
  obtain ⟨w', run⟩ := amberWebhook_runs 2 1000 [redPair, strictPair]
  refine ⟨w', run, ?_⟩
  have here : [amberWebhook][0]? = some ((redWebhook .amber).toPlugin (mutexEntryPoints .amber)) :=
    rfl
  have configured : (redWebhook .amber).maxTlp = some TLP.amber.value := rfl
  have reliable := redWebhook_reliable .amber
  rcases run_cases configured reliable here run with ⟨_, labels, real⟩ | ⟨_, _, _, raised, _⟩
  · have known := fun report member => (real report member).known
    have batches : passed w'.env.1 0 = [[redPair, strictPair]] := by
      rw [passed_eq known here, labels]
      rfl
    have both := count_both real "webhook".toList
    rw [batched_name labels] at both
    have published := batched_published configured reliable here rfl real
    rw [batches] at published
    have two : batched (w'.env.1.filter fun report =>
        report.name = "webhook".toList ∧ report.raised.isNone) = 2 := published
    have all : (List.map Plugin.Publisher.name [amberWebhook]).count "webhook".toList *
        [redPair, strictPair].length = 2 := rfl
    rw [two, all] at both
    refine ⟨?_, ?_, ?_, rfl⟩
    · rw [count_recordsOut, two]
    · rw [count_dropped]
      change 0 + _ = 0
      omega
    · rw [emitted_eq configured reliable here real, batches]
      rfl
  · cases raised

end counters

end Cti
