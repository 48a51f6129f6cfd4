import Cti.ConfigFields
import Cti.Secrets
import Cti.TlpFilter

set_option autoImplicit false

/- `sources.yaml` as `SourceRegistry.load` takes it in. -/
namespace Cti

open Py (Str Unicode)

def Severity.value : Severity → Str
  | .info => "info".toList
  | .low => "low".toList
  | .medium => "medium".toList
  | .high => "high".toList
  | .critical => "critical".toList

/-- How pydantic takes a scalar for a number or a truth value. -/
structure Coercions where
  toInt : Val → Option Int
  toFloat : Val → Option PyFloat
  toBool : Val → Option Bool

structure RetryPolicy where
  maxAttempts : Int
  initialSeconds : PyFloat
  maxSeconds : PyFloat
  jitterSeconds : PyFloat

/-- `CircuitPolicy`, with the number that the file gives. -/
structure CircuitFields where
  failureThreshold : Int
  recoverySeconds : PyFloat

/-- `NormalizeConfig`, without its map of further fields. -/
structure NormalizeFields extends NormalizeConfig where
  validFromField : Option Str
  validUntilField : Option Str

/-- `SourceConfig`, without the dicts whose keys a plugin chooses. -/
structure SourceFields where
  id : Str
  name : Option Str
  plugin : Str
  enabled : Bool
  schedule : Str
  jitterSeconds : Int
  rateLimitRps : Option PyFloat
  maxParallelism : Int
  timeoutSeconds : Int
  retry : RetryPolicy
  circuit : CircuitFields
  parser : Str
  enrichers : List Str
  publishers : List Str
  normalize : NormalizeFields
  tlp : TLP
  severityDefault : Severity
  confidenceDefault : Int
  tags : List Str

/-- `SourceConfig`, with all its fields. -/
structure ConfiguredSource extends SourceFields where
  params : Dict
  parserParams : Dict
  enricherParams : Dict
  publisherParams : Dict
  extraFieldMap : Dict

def RetryPolicy.default : RetryPolicy where
  maxAttempts := 5
  initialSeconds := .finite 1 "1.0".toList
  maxSeconds := .finite 60 "60.0".toList
  jitterSeconds := .finite 1 "1.0".toList

def CircuitFields.default : CircuitFields where
  failureThreshold := 5
  recoverySeconds := .finite 300 "300.0".toList

def NormalizeFields.default : NormalizeFields where
  toNormalizeConfig := .default
  validFromField := none
  validUntilField := none

section validation

variable (C : Coercions) (U : Unicode)

def intField : Val → Option Int := scalarField C.toInt

def floatField : Val → Option PyFloat := scalarField C.toFloat

def boolField : Val → Option Bool := scalarField C.toBool

def tlpField : Val → Option TLP := enumField [.clear, .green, .amber, .amberStrict, .red] TLP.value

def severityField : Val → Option Severity :=
  enumField [.info, .low, .medium, .high, .critical] Severity.value

/-- `_slug`. -/
def slugField : Val → Option Str
  | .str s =>
      let rest := s.filter fun c => c != '_' && c != '-'
      if !rest.isEmpty && rest.all U.alnum then some s else none
  | _ => none

def retryFields (entries : Dict) : Option RetryPolicy := do
  let maxAttempts ← readField entries "max_attempts".toList (some 5) (intField C)
  let initialSeconds ← readField entries "initial_seconds".toList
    (some RetryPolicy.default.initialSeconds) (floatField C)
  let maxSeconds ← readField entries "max_seconds".toList (some RetryPolicy.default.maxSeconds)
    (floatField C)
  let jitterSeconds ← readField entries "jitter_seconds".toList
    (some RetryPolicy.default.jitterSeconds) (floatField C)
  return { maxAttempts := maxAttempts, initialSeconds, maxSeconds, jitterSeconds }

def circuitFields (entries : Dict) : Option CircuitFields := do
  let failureThreshold ← readField entries "failure_threshold".toList (some 5) (intField C)
  let recoverySeconds ← readField entries "recovery_seconds".toList
    (some CircuitFields.default.recoverySeconds) (floatField C)
  return { failureThreshold := failureThreshold, recoverySeconds }

def normalizeFields (entries : Dict) : Option NormalizeFields := do
  let indicatorType ← readField entries "indicator_type".toList (some none)
    (optionalField (enumField IndicatorType.all IndicatorType.value))
  let typeField ← readField entries "type_field".toList (some none) (optionalField strField)
  let valueField ← readField entries "value_field".toList (some "value".toList) strField
  let confidenceDefault ← readField entries "confidence_default".toList (some 50) (intField C)
  let confidenceField ← readField entries "confidence_field".toList (some none)
    (optionalField strField)
  let severityDefault ← readField entries "severity_default".toList (some .info) severityField
  let tlpDefault ← readField entries "tlp_default".toList (some .amber) tlpField
  let staticTags ← readField entries "static_tags".toList (some []) (listField strField)
  let tagsField ← readField entries "tags_field".toList (some none) (optionalField strField)
  let validFromField ← readField entries "valid_from_field".toList (some none)
    (optionalField strField)
  let validUntilField ← readField entries "valid_until_field".toList (some none)
    (optionalField strField)
  let skipOnError ← readField entries "skip_on_error".toList (some true) (boolField C)
  pure
    { indicatorType := indicatorType, typeField, valueField, confidenceDefault, confidenceField,
      severityDefault, tlpDefault, staticTags, tagsField, validFromField, validUntilField,
      skipOnError }

def sourceFields (entries : Dict) : Option SourceFields := do
  let id ← readField entries "id".toList none (slugField U)
  let name ← readField entries "name".toList (some none) (optionalField strField)
  let plugin ← readField entries "plugin".toList none strField
  let enabled ← readField entries "enabled".toList (some true) (boolField C)
  let schedule ← readField entries "schedule".toList (some "0 */6 * * *".toList) strField
  let jitterSeconds ← readField entries "jitter_seconds".toList (some 60) (intField C)
  let rateLimitRps ← readField entries "rate_limit_rps".toList (some none)
    (optionalField (floatField C))
  let maxParallelism ← readField entries "max_parallelism".toList (some 1) (intField C)
  let timeoutSeconds ← readField entries "timeout_seconds".toList (some 60) (intField C)
  let retry ← readField entries "retry".toList (some .default) (modelField (retryFields C))
  let circuit ← readField entries "circuit".toList (some .default) (modelField (circuitFields C))
  let parser ← readField entries "parser".toList none strField
  let enrichers ← readField entries "enrichers".toList (some []) (listField strField)
  let publishers ← readField entries "publishers".toList (some ["postgres".toList])
    (listField strField)
  let normalize ← readField entries "normalize".toList (some .default)
    (modelField (normalizeFields C))
  let tlp ← readField entries "tlp".toList (some .amber) tlpField
  let severityDefault ← readField entries "severity_default".toList (some .info) severityField
  let confidenceDefault ← readField entries "confidence_default".toList (some 50) (intField C)
  let tags ← readField entries "tags".toList (some []) (listField strField)
  pure
    { id := id, name, plugin, enabled, schedule, jitterSeconds, rateLimitRps, maxParallelism,
      timeoutSeconds, retry, circuit, parser, enrichers, publishers, normalize, tlp,
      severityDefault, confidenceDefault, tags }

def extraFields (entries : Dict) : Option Dict :=
  readField entries "extra_field_map".toList (some []) (dictField Val.isStr)

/-- `SourceConfig.model_validate`; `none` is a `ValidationError`. -/
def validateSource : Val → Option ConfiguredSource := modelField fun entries => do
  let fields ← sourceFields C U entries
  let params ← readField entries "params".toList (some []) (dictField fun _ => true)
  let parserParams ← readField entries "parser_params".toList (some []) (dictField fun _ => true)
  let enricherParams ← readField entries "enricher_params".toList (some []) (dictField Val.isDict)
  let publisherParams ← readField entries "publisher_params".toList (some [])
    (dictField Val.isDict)
  let extraFieldMap ← readField entries "normalize".toList (some []) (modelField extraFields)
  return { fields with params, parserParams, enricherParams, publisherParams, extraFieldMap }

/-- `SourcesFile.model_validate`. -/
def validateFile : Val → Option (List ConfiguredSource) := modelField fun entries =>
  readField entries "sources".toList none (listField (validateSource C U))

inductive LoadError where
  | invalid
  | duplicate (id : Str)

/-- The loop that registers the sources; no id may come twice. -/
def registerAll : List ConfiguredSource → List ConfiguredSource →
    Except LoadError (List ConfiguredSource)
  | registered, [] => .ok registered
  | registered, source :: rest =>
      if registered.any fun other => other.id = source.id then .error (.duplicate source.id)
      else registerAll (registered ++ [source]) rest

/-- `SourceRegistry.load`, of the tree that the file holds. -/
def loadRegistry (env : Environment) (raw : Val) : Except LoadError (List ConfiguredSource) :=
  let raw := if raw.truthy then raw else .dict []
  match validateFile C U (resolveSecrets env raw) with
  | none => .error .invalid
  | some sources => registerAll [] sources

end validation

/-- `SourceRegistry.get`. -/
def getSourceConfig (registry : List ConfiguredSource) (sourceId : Str) : Option ConfiguredSource :=
  registry.find? fun source => source.id = sourceId

section twins

/-- The names of the keys that `show-effective-config` masks. -/
def maskedNames : List Str :=
  ["auth_bearer".toList, "bearer".toList, "password".toList, "token".toList]

def maskedKey (U : Unicode) (key : Str) : Bool := maskedNames.contains (Py.lower U key)

/-- An ASCII key with another name. -/
def plainKey (key : Str) : Bool :=
  key.all Py.isAscii && !maskedNames.contains (key.map Char.toLower)

theorem maskedKey_ascii (U : Unicode) {key : Str} (ascii : key.all Py.isAscii = true) :
    maskedKey U key = maskedNames.contains (key.map Char.toLower) := by
  unfold maskedKey
  rw [Py.lower_ascii_eq]
  simpa using ascii

theorem maskedKey_plain (U : Unicode) {key : Str} (plain : plainKey key = true) :
    maskedKey U key = false := by
  unfold plainKey at plain
  rw [Bool.and_eq_true, Bool.not_eq_true'] at plain
  rw [maskedKey_ascii U plain.1, plain.2]

variable {C : Coercions} {U V : Unicode} {vs ws : Dict} {hidden : Str → Bool}

theorem Blind.int : Blind hidden (intField C) := .scalar C.toInt

theorem Blind.float : Blind hidden (floatField C) := .scalar C.toFloat

theorem Blind.bool : Blind hidden (boolField C) := .scalar C.toBool

theorem Blind.tlp : Blind hidden tlpField := .enum _ TLP.value

theorem Blind.severity : Blind hidden severityField := .enum _ Severity.value

theorem Blind.slug : Blind hidden (slugField U) := by
  intro v w apart
  cases apart <;> rfl

/-- A field with an ordinary key that does not see what is masked. -/
theorem Val.Apart.field {α : Type} (apart : Val.Apart (maskedKey V) (.dict vs) (.dict ws))
    (key : Str) (default : Option α) {field : Val → Option α} (blind : Blind (maskedKey V) field)
    (plain : plainKey key = true) :
    Cti.readField vs key default field = Cti.readField ws key default field :=
  apart.readField_eq (maskedKey_plain V plain) blind

theorem retryFields_apart (apart : Val.Apart (maskedKey V) (.dict vs) (.dict ws)) :
    retryFields C vs = retryFields C ws := by
  unfold retryFields
  rw [apart.field "max_attempts".toList _ .int (by decide),
    apart.field "initial_seconds".toList _ .float (by decide),
    apart.field "max_seconds".toList _ .float (by decide),
    apart.field "jitter_seconds".toList _ .float (by decide)]

theorem circuitFields_apart (apart : Val.Apart (maskedKey V) (.dict vs) (.dict ws)) :
    circuitFields C vs = circuitFields C ws := by
  unfold circuitFields
  rw [apart.field "failure_threshold".toList _ .int (by decide),
    apart.field "recovery_seconds".toList _ .float (by decide)]

theorem normalizeFields_apart (apart : Val.Apart (maskedKey V) (.dict vs) (.dict ws)) :
    normalizeFields C vs = normalizeFields C ws := by
  unfold normalizeFields
  rw [apart.field "indicator_type".toList _ (.optional (.enum _ _)) (by decide),
    apart.field "type_field".toList _ (.optional .str) (by decide),
    apart.field "value_field".toList _ .str (by decide),
    apart.field "confidence_default".toList _ .int (by decide),
    apart.field "confidence_field".toList _ (.optional .str) (by decide),
    apart.field "severity_default".toList _ .severity (by decide),
    apart.field "tlp_default".toList _ .tlp (by decide),
    apart.field "static_tags".toList _ (.list .str) (by decide),
    apart.field "tags_field".toList _ (.optional .str) (by decide),
    apart.field "valid_from_field".toList _ (.optional .str) (by decide),
    apart.field "valid_until_field".toList _ (.optional .str) (by decide),
    apart.field "skip_on_error".toList _ .bool (by decide)]

theorem sourceFields_apart (apart : Val.Apart (maskedKey V) (.dict vs) (.dict ws)) :
    sourceFields C U vs = sourceFields C U ws := by
  unfold sourceFields
  rw [apart.field "id".toList _ .slug (by decide),
    apart.field "name".toList _ (.optional .str) (by decide),
    apart.field "plugin".toList _ .str (by decide),
    apart.field "enabled".toList _ .bool (by decide),
    apart.field "schedule".toList _ .str (by decide),
    apart.field "jitter_seconds".toList _ .int (by decide),
    apart.field "rate_limit_rps".toList _ (.optional .float) (by decide),
    apart.field "max_parallelism".toList _ .int (by decide),
    apart.field "timeout_seconds".toList _ .int (by decide),
    apart.field "retry".toList _ (.model retryFields_apart) (by decide),
    apart.field "circuit".toList _ (.model circuitFields_apart) (by decide),
    apart.field "parser".toList _ .str (by decide),
    apart.field "enrichers".toList _ (.list .str) (by decide),
    apart.field "publishers".toList _ (.list .str) (by decide),
    apart.field "normalize".toList _ (.model normalizeFields_apart) (by decide),
    apart.field "tlp".toList _ .tlp (by decide),
    apart.field "severity_default".toList _ .severity (by decide),
    apart.field "confidence_default".toList _ .int (by decide),
    apart.field "tags".toList _ (.list .str) (by decide)]

/-- Two sources with the same fields and related dicts. -/
structure ConfiguredSource.Related (related : Val → Val → Prop) (c d : ConfiguredSource) : Prop where
  fields : c.toSourceFields = d.toSourceFields
  params : related (.dict c.params) (.dict d.params)
  parserParams : related (.dict c.parserParams) (.dict d.parserParams)
  enricherParams : related (.dict c.enricherParams) (.dict d.enricherParams)
  publisherParams : related (.dict c.publisherParams) (.dict d.publisherParams)
  extraFieldMap : related (.dict c.extraFieldMap) (.dict d.extraFieldMap)

/-- A field with an ordinary key that takes a dict as it is. -/
theorem Val.Apart.dictField {accepts : Val → Bool}
    (apart : Val.Apart (maskedKey V) (.dict vs) (.dict ws)) (key : Str)
    (alike : ∀ {v w}, Val.Alike v w → accepts v = accepts w) (plain : plainKey key = true) :
    Option.Rel (fun vs ws => Val.Apart (maskedKey V) (.dict vs) (.dict ws))
      (Cti.readField vs key (some []) (Cti.dictField accepts))
      (Cti.readField ws key (some []) (Cti.dictField accepts)) :=
  apart.readField (maskedKey_plain V plain) (.some (.same _)) (.dict alike)

theorem extraFields_apart (apart : Val.Apart (maskedKey V) (.dict vs) (.dict ws)) :
    Option.Rel (fun vs ws => Val.Apart (maskedKey V) (.dict vs) (.dict ws))
      (extraFields vs) (extraFields ws) :=
  apart.dictField "extra_field_map".toList Val.Alike.isStr (by decide)

theorem validateSource_apart :
    Respects (maskedKey V) (ConfiguredSource.Related (Val.Apart (maskedKey V)))
      (validateSource C U) := by
  refine Respects.model fun {vs ws} apart => ?_
  rw [sourceFields_apart apart]
  refine rel_bind (rel_eq.mpr rfl) fun fields _ same => ?_
  subst same
  refine rel_bind (apart.dictField "params".toList (fun _ => rfl) (by decide))
    fun params params' first => ?_
  refine rel_bind (apart.dictField "parser_params".toList (fun _ => rfl) (by decide))
    fun parserParams parserParams' second => ?_
  refine rel_bind (apart.dictField "enricher_params".toList Val.Alike.isDict (by decide))
    fun enricherParams enricherParams' third => ?_
  refine rel_bind (apart.dictField "publisher_params".toList Val.Alike.isDict (by decide))
    fun publisherParams publisherParams' fourth => ?_
  refine rel_bind (apart.readField (maskedKey_plain V (by decide)) (.some (.same _))
    (.model extraFields_apart)) fun extraFieldMap extraFieldMap' fifth => ?_
  exact .some ⟨rfl, first, second, third, fourth, fifth⟩

theorem validateFile_apart :
    Respects (maskedKey V) (List.Forall₂ (ConfiguredSource.Related (Val.Apart (maskedKey V))))
      (validateFile C U) :=
  Respects.model fun apart =>
    apart.readField (maskedKey_plain V (by decide)) .none validateSource_apart.list

theorem registered_apart (id : Str) {registered registered' : List ConfiguredSource}
    (before : List.Forall₂ (ConfiguredSource.Related (Val.Apart hidden)) registered registered') :
    (registered.any fun other => other.id = id) = registered'.any fun other => other.id = id := by
  induction before with
  | nil => rfl
  | cons head _ rest =>
      rw [List.any_cons, List.any_cons, rest, head.fields]

/-- The same ids come twice. -/
theorem registerAll_apart {sources sources' : List ConfiguredSource}
    (apart : List.Forall₂ (ConfiguredSource.Related (Val.Apart hidden)) sources sources') :
    ∀ {registered registered'},
      List.Forall₂ (ConfiguredSource.Related (Val.Apart hidden)) registered registered' →
      Option.Rel (List.Forall₂ (ConfiguredSource.Related (Val.Apart hidden)))
        (registerAll registered sources).toOption (registerAll registered' sources').toOption := by
  induction apart with
  | nil => exact fun before => .some before
  | @cons c d cs ds head _ rest =>
      intro registered registered' before
      have ids : c.id = d.id := congrArg SourceFields.id head.fields
      have twice := registered_apart d.id before
      rw [registerAll, registerAll, ids, twice]
      split
      · exact .none
      · exact rest (List.rel_append before (.cons head .nil))

theorem loadRegistry_apart {env₁ env₂ : Environment} {raw : Val}
    (agree : ∀ s ∈ raw.shown (maskedKey V), resolveStr env₁ s = resolveStr env₂ s) :
    Option.Rel (List.Forall₂ (ConfiguredSource.Related (Val.Apart (maskedKey V))))
      (loadRegistry C U env₁ raw).toOption (loadRegistry C U env₂ raw).toOption := by
  have apart : Val.Apart (maskedKey V)
      (resolveSecrets env₁ (if raw.truthy then raw else .dict []))
      (resolveSecrets env₂ (if raw.truthy then raw else .dict [])) := by
    split
    · exact resolve_apart raw agree
    · exact .same _
  have files := validateFile_apart (C := C) (U := U) _ _ apart
  unfold loadRegistry
  dsimp only
  generalize validateFile C U (resolveSecrets env₁ _) = x at files ⊢
  generalize validateFile C U (resolveSecrets env₂ _) = y at files ⊢
  cases files with
  | none => exact .none
  | some sources => exact registerAll_apart sources .nil

theorem getSourceConfig_apart {registry registry' : List ConfiguredSource} (sourceId : Str)
    (apart : List.Forall₂ (ConfiguredSource.Related (Val.Apart hidden)) registry registry') :
    Option.Rel (ConfiguredSource.Related (Val.Apart hidden)) (getSourceConfig registry sourceId)
      (getSourceConfig registry' sourceId) := by
  unfold getSourceConfig
  induction apart with
  | nil => exact .none
  | @cons c d _ _ head _ rest =>
      have ids : c.id = d.id := congrArg SourceFields.id head.fields
      rw [List.find?_cons, List.find?_cons, ids]
      split
      · exact .some head
      · exact rest

end twins

end Cti
