import Cti.Archive
import Cti.JsonLines
import Cti.PartialRuns
import Cti.TlpFilter

set_option autoImplicit false

/- One deployment as a source of another: what the webhook and kafka publishers write, and what
a pipeline with the JSON parser makes of it. -/
namespace Cti

open Py (Str)
open TaskNet (Net)

section records

variable {parseFloat : Str → PyFloat}

end records

section normalize

variable {R : Runtime}

/-- The value of an indicator is its own canonical form, and its id names it. -/
structure Indicator.Canonical (R : Runtime) (ind : Indicator) : Prop where
  fixed : canonicalize R ind.type ind.value = .ok ind.value
  trimmed : Py.strip ind.value = ind.value
  named : ind.id = R.uuid5 ctiNs (identityName ind.type ind.value)
  confident : 0 ≤ ind.confidence ∧ ind.confidence ≤ 100

/-- Settings that read type, value and tags where the publishers write them. -/
structure NormalizeConfig.Relays (cfg : NormalizeConfig) : Prop where
  typeField : cfg.typeField = some "type".toList
  valueField : cfg.valueField = "value".toList
  tagsField : cfg.tagsField = some "tags".toList

/-- A record with the type, the value and the tags of an indicator. -/
structure Carries (record : Record) (ind : Indicator) : Prop where
  type : record.get "type".toList = some (.str ind.type.value)
  value : record.get "value".toList = some (.str ind.value)
  tags : record.get "tags".toList = some (.list (ind.tags.map .str))

theorem coerceType_value (t : IndicatorType) : coerceType R t.value = .ok t := by
  have ascii : ∀ c ∈ t.value, Py.isAscii c = true := by
    apply Py.forall_mem_of_all
    cases t <;> decide
  have small : t.value.map Char.toLower = t.value := by cases t <;> rfl
  have found : (IndicatorType.all.find? fun t' => t'.value = t.value) = some t := by
    cases t <;> rfl
  rw [coerceType, Py.lower_ascii_eq ascii, small, found]

/-- The indicator that the second deployment stores. -/
def Indicator.relayed (ind : Indicator) (cfg : NormalizeConfig) (confidence firstSeen lastSeen : Int) :
    Indicator :=
  { ind with
    pattern := none
    confidence := confidence
    severity := cfg.severityDefault
    tlp := cfg.tlpDefault
    tags := (cfg.staticTags ++ ind.tags).eraseDups
    firstSeenByUs := firstSeen
    lastSeenByUs := lastSeen
    validFrom := none
    validUntil := none
    schemaVersion := Cti.schemaVersion }

variable {cfg : NormalizeConfig} {record : Record} {ind : Indicator}

theorem carries_type (relays : cfg.Relays) (carries : Carries record ind) :
    recordType R record cfg = .ok (some ind.type) := by
  have nonempty : (Val.str ind.type.value).truthy = true := by
    cases ind.type <;> rfl
  simp only [recordType, relays.typeField, carries.type, nonempty, Val.text, coerceType_value]
  rfl

theorem carries_tags (relays : cfg.Relays) (carries : Carries record ind) :
    recordTags R record cfg = cfg.staticTags ++ ind.tags := by
  have named : ¬ "tags".toList = [] := by decide
  have texts : (ind.tags.map Val.str).map (Val.text R) = ind.tags := by
    rw [List.map_map]
    exact List.map_id ind.tags
  simp only [recordTags, fieldValue, relays.tagsField, if_neg named, carries.tags, texts]

theorem Indicator.Canonical.nonempty (canonical : ind.Canonical R) : ind.value ≠ [] := by
  intro empty
  have fixed := canonical.fixed
  rw [empty] at fixed
  cases fixed

theorem carries_value (relays : cfg.Relays) (carries : Carries record ind)
    (nonempty : ind.value ≠ []) : recordValue record cfg = some (.str ind.value) := by
  obtain ⟨c, rest, same⟩ := List.exists_cons_of_ne_nil nonempty
  simp only [recordValue, relays.valueField, carries.value, same]

/-- A carried indicator is built again, with the same identity. -/
theorem carries_normalized (relays : cfg.Relays) (carries : Carries record ind)
    (canonical : ind.Canonical R) {confidence : Int} (least : 0 ≤ confidence)
    (most : confidence ≤ 100) (read : recordConfidence R record cfg = .ok confidence)
    (firstSeen lastSeen : Int) :
    normalizeRecord R record cfg firstSeen lastSeen =
      .ok (some (ind.relayed cfg confidence firstSeen lastSeen)) := by
  have built : Indicator.build R ind.type (Val.text R (.str ind.value))
      { confidence, severity := cfg.severityDefault, tlp := cfg.tlpDefault,
        tags := (cfg.staticTags ++ ind.tags).eraseDups, firstSeenByUs := firstSeen,
        lastSeenByUs := lastSeen } =
      .ok (ind.relayed cfg confidence firstSeen lastSeen) := by
    have id : indicatorUuid R ind.type ind.value = .ok ind.id := by
      rw [indicatorUuid, canonical.fixed, canonical.named]
      rfl
    simp only [Indicator.build, Val.text, canonical.fixed, id, bind, Except.bind, and_self, least,
      most, if_true, canonical.trimmed]
    rfl
  have result : recordToIndicator R record cfg firstSeen lastSeen =
      .ok (some (ind.relayed cfg confidence firstSeen lastSeen)) := by
    simp only [recordToIndicator, carries_type relays carries,
      carries_value relays carries canonical.nonempty, read, carries_tags relays carries, bind,
      Except.bind, built]
    rfl
  simp only [normalizeRecord, result]

end normalize

section pipeline

variable {S : Type} {R : Runtime} {J : JsonCodecs} {config : JsonParserConfig}
  {spec : PipelineSpec S} {clock : Clock} {ctx : RunContext}

/-- The records of a payload that the JSON parser takes; any other one fails the run. -/
def jsonRecords (J : JsonCodecs) (config : JsonParserConfig) (payload : RawPayload) : List Record :=
  match JsonParser.parseSync J config payload with
  | .ok records => records
  | .error _ => []

/-- What becomes of a pair that was sent. -/
def RelayedAs (cfg : NormalizeConfig) (confidence : Indicator → Int) (sent : Sighting)
    (ind : Indicator) : Prop :=
  ∃ firstSeen lastSeen, ind = sent.1.relayed cfg (confidence sent.1) firstSeen lastSeen

/-- A way to write pairs that the normalize stage can read. -/
structure ReadsBack (R : Runtime) (cfg : NormalizeConfig) (write : Sighting → Record)
    (confidence : Indicator → Int) (pair : Sighting) : Prop where
  carries : Carries (write pair) pair.1
  canonical : pair.1.Canonical R
  least : 0 ≤ confidence pair.1
  most : confidence pair.1 ≤ 100
  read : recordConfidence R (write pair) cfg = .ok (confidence pair.1)

variable {write : Sighting → Record} {confidence : Indicator → Int}

theorem normalized_stored (relays : spec.normalize.Relays) {sent : List Sighting}
    (reads : ∀ pair ∈ sent, ReadsBack R spec.normalize write confidence pair) (n : Nat) :
    List.Forall₂ (fun pair (item : Candidate) => RelayedAs spec.normalize confidence pair item.1)
      sent (normalizedFrom R spec.normalize clock n (sent.map write)) := by
  induction sent generalizing n with
  | nil => exact .nil
  | cons pair sent ih =>
      rw [List.forall_mem_cons] at reads
      obtain ⟨first, rest⟩ := reads
      have normalized := carries_normalized relays first.carries first.canonical first.least
        first.most first.read (clock.record n).1 (clock.record n).2
      have indicator : indicatorOf R spec.normalize clock n (write pair) =
          some (pair.1.relayed spec.normalize (confidence pair.1) (clock.record n).1
            (clock.record n).2) := by
        rw [indicatorOf, normalized]
      rw [List.map_cons, normalizedFrom_cons, indicator]
      exact .cons ⟨_, _, rfl⟩ (ih rest (n + 1))

theorem enrichAll_nil (items : List Candidate) : items.filterMap (enrichAll []) = items :=
  List.filterMap_some

theorem sightingsFrom_stored (related : Sighting → Indicator → Prop) {sent : List Sighting}
    {items : List Candidate}
    (stored : List.Forall₂ (fun pair (item : Candidate) => related pair item.1) sent items)
    (n : Nat) :
    List.Forall₂ (fun pair (stored : Sighting) => related pair stored.1) sent
      (sightingsFrom clock ctx n items) := by
  induction stored generalizing n with
  | nil => exact .nil
  | cons first rest ih =>
      rw [sightingsFrom_cons]
      exact .cons first (ih (n + 1))

/-- A pipeline without enrichers makes of such records the pairs that were written. -/
theorem sequentialRun_stored (clock : Clock) (ctx : RunContext)
    (relays : spec.normalize.Relays) {sent : List Sighting}
    (reads : ∀ pair ∈ sent, ReadsBack R spec.normalize write confidence pair)
    {payloads : List RawPayload}
    (parsed : payloads.flatMap (jsonRecords J config) = sent.map write) :
    List.Forall₂ (fun pair (stored : Sighting) => RelayedAs spec.normalize confidence pair stored.1)
      sent (sequentialRun R spec.normalize clock ctx (jsonRecords J config) [] payloads) := by
  unfold sequentialRun
  dsimp only
  rw [parsed, enrichAll_nil]
  exact sightingsFrom_stored _ (normalized_stored relays reads 0) 0

/-- Whatever fails, the pairs come through from the first one on; if nothing fails, all do. -/
theorem run_stored (computes : Computes spec (jsonRecords J config) [])
    (relays : spec.normalize.Relays) {env : S} {allowed}
    {s : (pipelineNet R spec clock ctx).State}
    (run : (pipelineNet R spec clock ctx).Reaches allowed
      ((pipelineNet R spec clock ctx).init (World.fresh ctx env)) s)
    {sent : List Sighting}
    (reads : ∀ pair ∈ sent, ReadsBack R spec.normalize write confidence pair)
    (parsed : s.world.fetched.flatMap (jsonRecords J config) = sent.map write) :
    ∃ arrived, arrived <+: sent ∧
      List.Forall₂ (fun pair (stored : Sighting) =>
        RelayedAs spec.normalize confidence pair stored.1) arrived s.world.published.flatten := by
  obtain ⟨rest, whole⟩ := published_prefix R clock ctx computes env run
  have stored := sequentialRun_stored clock ctx relays reads parsed
  rw [← whole] at stored
  refine ⟨_, List.take_prefix s.world.published.flatten.length sent, ?_⟩
  have front := List.forall₂_take_append _ _ _ stored
  exact front

section witness

end witness

end pipeline

end Cti
