import Cti.JsonText
import Cti.SourceRegistry

set_option autoImplicit false

/- The two views of a source's configuration, `cti show-effective-config` and
`GET /v1/sources/{source_id}`, and what each tells about the secrets in it. -/
namespace Cti

open Py (Str Unicode)

section views

def optionalText : Option Str → Val
  | none => .none
  | some s => .str s

def textList (items : List Str) : Val := .list (items.map .str)

def RetryPolicy.dump (policy : RetryPolicy) : Dict :=
  [("max_attempts".toList, .int policy.maxAttempts),
    ("initial_seconds".toList, .float policy.initialSeconds),
    ("max_seconds".toList, .float policy.maxSeconds),
    ("jitter_seconds".toList, .float policy.jitterSeconds)]

def CircuitFields.dump (policy : CircuitFields) : Dict :=
  [("failure_threshold".toList, .int policy.failureThreshold),
    ("recovery_seconds".toList, .float policy.recoverySeconds)]

def NormalizeFields.dump (fields : NormalizeFields) : Dict :=
  [("indicator_type".toList, optionalText (fields.indicatorType.map IndicatorType.value)),
    ("type_field".toList, optionalText fields.typeField),
    ("value_field".toList, .str fields.valueField),
    ("confidence_default".toList, .int fields.confidenceDefault),
    ("confidence_field".toList, optionalText fields.confidenceField),
    ("severity_default".toList, .str fields.severityDefault.value),
    ("tlp_default".toList, .str fields.tlpDefault.value),
    ("static_tags".toList, textList fields.staticTags),
    ("tags_field".toList, optionalText fields.tagsField),
    ("valid_from_field".toList, optionalText fields.validFromField),
    ("valid_until_field".toList, optionalText fields.validUntilField),
    ("skip_on_error".toList, .bool fields.skipOnError)]

/-- The fields before `params`. -/
def SourceFields.dumpFirst (fields : SourceFields) : Dict :=
  [("id".toList, .str fields.id), ("name".toList, optionalText fields.name),
    ("plugin".toList, .str fields.plugin), ("enabled".toList, .bool fields.enabled),
    ("schedule".toList, .str fields.schedule),
    ("jitter_seconds".toList, .int fields.jitterSeconds),
    ("rate_limit_rps".toList, match fields.rateLimitRps with
      | none => .none
      | some rate => .float rate),
    ("max_parallelism".toList, .int fields.maxParallelism),
    ("timeout_seconds".toList, .int fields.timeoutSeconds),
    ("retry".toList, .dict fields.retry.dump), ("circuit".toList, .dict fields.circuit.dump),
    ("parser".toList, .str fields.parser), ("enrichers".toList, textList fields.enrichers),
    ("publishers".toList, textList fields.publishers)]

/-- The fields after `normalize`. -/
def SourceFields.dumpLast (fields : SourceFields) : Dict :=
  [("tlp".toList, .str fields.tlp.value),
    ("severity_default".toList, .str fields.severityDefault.value),
    ("confidence_default".toList, .int fields.confidenceDefault),
    ("tags".toList, textList fields.tags)]

/-- `cfg.model_dump(mode="json")`. -/
def ConfiguredSource.dump (source : ConfiguredSource) : Dict :=
  source.dumpFirst ++
    [("params".toList, .dict source.params), ("parser_params".toList, .dict source.parserParams),
      ("enricher_params".toList, .dict source.enricherParams),
      ("publisher_params".toList, .dict source.publisherParams),
      ("normalize".toList, .dict (source.normalize.dump ++
        [("extra_field_map".toList, .dict source.extraFieldMap)]))] ++
    source.dumpLast

variable (C : Coercions) (U : Unicode)

/-- `json.dumps(_, indent=2)`. -/
def JsonStyle.indented : JsonStyle where
  ensureAscii := true
  indent := some 2
  itemSeparator := ",".toList
  keySeparator := ": ".toList

/-- The options of `JSONResponse`. -/
def JsonStyle.compact : JsonStyle where
  ensureAscii := false
  indent := none
  itemSeparator := ",".toList
  keySeparator := ":".toList

inductive CliError where
  | load (error : LoadError)
  | unknownSource

/-- `_registry().get(source_id)`. -/
def effectiveConfig (env : Environment) (raw : Val) (sourceId : Str) :
    Except CliError ConfiguredSource :=
  match loadRegistry C U env raw with
  | .error error => .error (.load error)
  | .ok registry =>
      match getSourceConfig registry sourceId with
      | none => .error .unknownSource
      | some source => .ok source

/-- What is printed of a source. -/
def effectiveText (source : ConfiguredSource) : Str :=
  dumps .indented 0 (Val.mask (maskedKey U) (.dict source.dump)) ++ ['\n']

/-- `show_effective_config`. -/
def showEffectiveConfig (env : Environment) (raw : Val) (sourceId : Str) : Except CliError Str :=
  (effectiveConfig C U env raw sourceId).map (effectiveText U)

structure Principal where
  name : Str
  scopes : List Str

def Principal.has (principal : Principal) (scope : Str) : Bool :=
  principal.scopes.contains scope || principal.scopes.contains "admin".toList

/-- The tokens of a `TokenStore`. -/
abbrev TokenStore := List (Str × Principal)

def TokenStore.authenticate (store : TokenStore) : Option Str → Option Principal
  | none => none
  | some header =>
      if "bearer ".toList.isPrefixOf (Py.lower U header) then
        store.lookup (Py.strip (header.drop 7))
      else none

structure ApiResponse where
  status : Nat
  body : Str

/-- `JSONResponse` does not write infinities and NaN: the server answers for the exception. -/
def jsonResponse (status : Nat) (content : Val) : ApiResponse :=
  if content.isFinite then ⟨status, dumps .compact 0 content⟩
  else ⟨500, "Internal Server Error".toList⟩

/-- `_unauthorized_handler`. -/
def unauthorized (scope : Str) : ApiResponse :=
  jsonResponse 401
    (.dict [("error".toList, .str "unauthorized".toList), ("required_scope".toList, .str scope)])

/-- `get_source`. -/
def getSource (store : TokenStore) (registry : List ConfiguredSource) (authorization : Option Str)
    (sourceId : Str) : ApiResponse :=
  match store.authenticate U authorization with
  | none => unauthorized "read".toList
  | some principal =>
      if !principal.has "read".toList then unauthorized "read".toList
      else
        match getSourceConfig registry sourceId with
        | none => jsonResponse 404 (.dict [("error".toList, .str "not_found".toList)])
        | some source => jsonResponse 200 (.dict source.dump)

end views

namespace ConfiguredSource

section sections

variable {U : Unicode} {hidden : Str → Bool} {c d : ConfiguredSource}

/-- Rules for the dicts. -/
theorem Related.imp {related related' related'' : Val → Val → Prop}
    (first : c.Related related d) (second : c.Related related' d)
    (rule : ∀ {v w}, related v w → related' v w → related'' v w) : c.Related related'' d where
  fields := first.fields
  params := rule first.params second.params
  parserParams := rule first.parserParams second.parserParams
  enricherParams := rule first.enricherParams second.enricherParams
  publisherParams := rule first.publisherParams second.publisherParams
  extraFieldMap := rule first.extraFieldMap second.extraFieldMap

/-- A part of a tree is the same in the two sources, in each dict whose keys a plugin
chooses. -/
def Agree {α : Type} (part : Val → α) (c d : ConfiguredSource) : Prop :=
  c.Related (fun v w => part v = part w) d

/-- Parts that tell the same trees apart. -/
theorem Related.agree_iff {related : Val → Val → Prop} {α β : Type}
    {part : Val → α} {part' : Val → β} (between : c.Related related d)
    (same : ∀ {v w}, related v w → (part v = part w ↔ part' v = part' w)) :
    Agree part c d ↔ Agree part' c d := by
  constructor
  · exact fun agree => between.imp agree fun relation equal => (same relation).mp equal
  · exact fun agree => between.imp agree fun relation equal => (same relation).mpr equal

theorem alike_prepend (front : Dict) {vs ws : Dict} (alike : Val.Alike (.dict vs) (.dict ws)) :
    Val.Alike (.dict (front ++ vs)) (.dict (front ++ ws)) := by
  induction front with
  | nil => exact alike
  | cons entry front rest => exact .entry entry.1 (.same entry.2) rest

theorem maskEntries_append (vs ws : Dict) :
    Val.maskEntries hidden (vs ++ ws) = Val.maskEntries hidden vs ++ Val.maskEntries hidden ws := by
  induction vs with
  | nil => rfl
  | cons entry vs rest =>
      rw [List.cons_append, Val.maskEntries, Val.maskEntries, rest, List.cons_append]

theorem alike_dump (alike : c.Related Val.Alike d) :
    Val.Alike (.dict c.dump) (.dict d.dump) := by
  unfold ConfiguredSource.dump
  rw [alike.fields, List.append_assoc, List.append_assoc]
  refine alike_prepend _ (.entry _ alike.params (.entry _ alike.parserParams ?_))
  refine .entry _ alike.enricherParams (.entry _ alike.publisherParams (.entry _ ?_ (.same _)))
  exact alike_prepend _ (.entry _ alike.extraFieldMap (.same _))

theorem dump_eq_iff (fields : c.toSourceFields = d.toSourceFields) :
    Val.dict c.dump = .dict d.dump ↔ Agree id c d := by
  unfold ConfiguredSource.dump
  rw [fields]
  constructor
  · intro same
    simp only [Val.dict.injEq, List.append_cancel_left_eq, List.append_cancel_right_eq,
      List.cons.injEq, Prod.mk.injEq, true_and, and_true] at same
    obtain ⟨params, parserParams, enricherParams, publisherParams, extraFieldMap⟩ := same
    constructor
    · exact fields
    · exact congrArg Val.dict params
    · exact congrArg Val.dict parserParams
    · exact congrArg Val.dict enricherParams
    · exact congrArg Val.dict publisherParams
    · exact congrArg Val.dict extraFieldMap
  · rintro ⟨_, params, parserParams, enricherParams, publisherParams, extraFieldMap⟩
    simp only [id_eq, Val.dict.injEq] at *
    rw [params, parserParams, enricherParams, publisherParams, extraFieldMap]

/-- An ordinary key and what its value becomes. -/
theorem maskEntries_plain (key : Str) (value : Val) (entries : Dict)
    (plain : plainKey key = true) :
    Val.maskEntries (maskedKey U) ((key, value) :: entries) =
      (key, Val.mask (maskedKey U) value) :: Val.maskEntries (maskedKey U) entries := by
  rw [Val.maskEntries, maskedKey_plain U plain]
  rfl

/-- The keys of the dicts are not masked. -/
theorem mask_dump (U : Unicode) (c : ConfiguredSource) :
    Val.mask (maskedKey U) (.dict c.dump) =
      .dict (Val.maskEntries (maskedKey U) c.dumpFirst ++
        (("params".toList, Val.mask (maskedKey U) (.dict c.params)) ::
          ("parser_params".toList, Val.mask (maskedKey U) (.dict c.parserParams)) ::
          ("enricher_params".toList, Val.mask (maskedKey U) (.dict c.enricherParams)) ::
          ("publisher_params".toList, Val.mask (maskedKey U) (.dict c.publisherParams)) ::
          ("normalize".toList, .dict (Val.maskEntries (maskedKey U) c.normalize.dump ++
            [("extra_field_map".toList, Val.mask (maskedKey U) (.dict c.extraFieldMap))])) ::
          Val.maskEntries (maskedKey U) c.dumpLast)) := by
  have normalize : Val.mask (maskedKey U) (.dict (c.normalize.dump ++
      [("extra_field_map".toList, .dict c.extraFieldMap)])) =
      .dict (Val.maskEntries (maskedKey U) c.normalize.dump ++
        [("extra_field_map".toList, Val.mask (maskedKey U) (.dict c.extraFieldMap))]) := by
    rw [Val.mask, maskEntries_append,
      maskEntries_plain "extra_field_map".toList _ _ (by decide)]
    rfl
  unfold ConfiguredSource.dump
  rw [Val.mask, maskEntries_append, maskEntries_append, List.append_assoc,
    maskEntries_plain "params".toList _ _ (by decide),
    maskEntries_plain "parser_params".toList _ _ (by decide),
    maskEntries_plain "enricher_params".toList _ _ (by decide),
    maskEntries_plain "publisher_params".toList _ _ (by decide),
    maskEntries_plain "normalize".toList _ _ (by decide), normalize]
  rfl

theorem mask_dump_eq_iff (fields : c.toSourceFields = d.toSourceFields) :
    Val.mask (maskedKey U) (.dict c.dump) = Val.mask (maskedKey U) (.dict d.dump) ↔
      Agree (Val.mask (maskedKey U)) c d := by
  rw [mask_dump, mask_dump, fields]
  constructor
  · intro same
    simp only [Val.dict.injEq, List.append_cancel_left_eq, List.cons.injEq, Prod.mk.injEq, true_and,
      and_true] at same
    obtain ⟨params, parserParams, enricherParams, publisherParams, extraFieldMap⟩ := same
    exact ⟨fields, params, parserParams, enricherParams, publisherParams, extraFieldMap⟩
  · rintro ⟨_, params, parserParams, enricherParams, publisherParams, extraFieldMap⟩
    rw [params, parserParams, enricherParams, publisherParams, extraFieldMap]

/-- The printed texts of sources that differ in texts are the same if the texts that are not
masked are. -/
theorem effectiveText_eq_iff (alike : c.Related Val.Alike d) :
    effectiveText U c = effectiveText U d ↔ Agree (Val.shown (maskedKey U)) c d := by
  have masked : Val.Alike (Val.mask (maskedKey U) (.dict c.dump))
      (Val.mask (maskedKey U) (.dict d.dump)) := (alike_dump alike).mask
  unfold effectiveText
  rw [List.append_cancel_right_eq, masked.dumps_iff, ConfiguredSource.mask_dump_eq_iff alike.fields]
  exact alike.agree_iff Val.Alike.mask_eq_iff

/-- The JSON of such sources is the same if they are, or if none is written. -/
theorem jsonResponse_eq_iff (alike : c.Related Val.Alike d) (status : Nat) :
    jsonResponse status (.dict c.dump) = jsonResponse status (.dict d.dump) ↔
      Val.isFinite (.dict c.dump) = false ∨ Agree id c d := by
  unfold jsonResponse
  rw [← (alike_dump alike).isFinite]
  cases Val.isFinite (.dict c.dump) with
  | false => simp
  | true =>
      rw [if_pos rfl, if_pos rfl, ApiResponse.mk.injEq, (alike_dump alike).dumps_iff,
        ConfiguredSource.dump_eq_iff alike.fields]
      simp

end sections

end ConfiguredSource

section environments

variable {C : Coercions} {U : Unicode} {env₁ env₂ : Environment} {raw : Val} {sourceId : Str}

open ConfiguredSource

/-- Two environments that agree on every text that the mask leaves in sight. -/
def AgreeInSight (U : Unicode) (env₁ env₂ : Environment) (raw : Val) : Prop :=
  ∀ s ∈ raw.shown (maskedKey U), resolveStr env₁ s = resolveStr env₂ s

/-- They load the same sources, up to what is masked. -/
theorem AgreeInSight.load (agree : AgreeInSight U env₁ env₂ raw) {registry : List ConfiguredSource}
    (load : loadRegistry C U env₁ raw = .ok registry) :
    ∃ registry', loadRegistry C U env₂ raw = .ok registry' ∧
      List.Forall₂ (Related (Val.Apart (maskedKey U))) registry registry' := by
  have apart := loadRegistry_apart (C := C) (U := U) agree
  rw [load] at apart
  obtain ⟨registry', second, related⟩ := rel_some_left apart
  refine ⟨registry', ?_, related⟩
  cases loaded : loadRegistry C U env₂ raw with
  | error error =>
      rw [loaded] at second
      cases second
  | ok registry =>
      rw [loaded] at second
      cases second
      rfl

theorem find_apart {registry registry' : List ConfiguredSource} {c : ConfiguredSource}
    (apart : List.Forall₂ (Related (Val.Apart (maskedKey U))) registry registry')
    (found : getSourceConfig registry sourceId = some c) :
    ∃ d, getSourceConfig registry' sourceId = some d ∧ c.Related (Val.Apart (maskedKey U)) d := by
  have sources := getSourceConfig_apart sourceId apart
  rw [found] at sources
  exact rel_some_left sources

theorem showEffectiveConfig_found {env : Environment} {registry : List ConfiguredSource}
    {c : ConfiguredSource} (load : loadRegistry C U env raw = .ok registry)
    (found : getSourceConfig registry sourceId = some c) :
    showEffectiveConfig C U env raw sourceId = .ok (effectiveText U c) := by
  unfold showEffectiveConfig effectiveConfig
  simp only [load, found]
  rfl

theorem getSource_found {store : TokenStore} {authorization : Option Str} {principal : Principal}
    {registry : List ConfiguredSource} {c : ConfiguredSource}
    (caller : store.authenticate U authorization = some principal)
    (reader : principal.has "read".toList = true)
    (found : getSourceConfig registry sourceId = some c) :
    getSource U store registry authorization sourceId = jsonResponse 200 (.dict c.dump) := by
  unfold getSource
  simp only [caller, reader, found]
  rfl

theorem alike_of_apart {c d : ConfiguredSource} (apart : c.Related (Val.Apart (maskedKey U)) d) :
    c.Related Val.Alike d :=
  apart.imp apart fun first _ => first.alike

/-- Environments that differ under the mask only leave no trace in the printed configuration. The
response to a reader is the same if it is an error, for an infinity or a NaN, or if each masked
text of the source is the same. -/
theorem get_source_disclosure_iff (agree : AgreeInSight U env₁ env₂ raw) {registry : List ConfiguredSource}
    (load : loadRegistry C U env₁ raw = .ok registry) {c : ConfiguredSource}
    (found : getSourceConfig registry sourceId = some c) {store : TokenStore}
    {authorization : Option Str} {principal : Principal}
    (caller : store.authenticate U authorization = some principal)
    (reader : principal.has "read".toList = true) :
    ∃ registry' d, loadRegistry C U env₂ raw = .ok registry' ∧
      getSourceConfig registry' sourceId = some d ∧
      showEffectiveConfig C U env₁ raw sourceId = showEffectiveConfig C U env₂ raw sourceId ∧
      (getSource U store registry authorization sourceId =
          getSource U store registry' authorization sourceId ↔
        Val.isFinite (.dict c.dump) = false ∨ Agree (Val.concealed (maskedKey U)) c d) := by
  obtain ⟨registry', load', sources⟩ := agree.load load
  obtain ⟨d, found', apart⟩ := find_apart sources found
  have alike := alike_of_apart apart
  refine ⟨registry', d, load', found', ?_, ?_⟩
  · rw [showEffectiveConfig_found load found, showEffectiveConfig_found load' found']
    have inSight : Agree (Val.shown (maskedKey U)) c d :=
      apart.imp apart fun first _ => first.alike.mask_eq_iff.mp first.mask
    rw [(effectiveText_eq_iff alike).mpr inSight]
  · have trees : Agree id c d ↔ Agree (Val.concealed (maskedKey U)) c d :=
      apart.agree_iff Val.Apart.eq_iff
    rw [getSource_found caller reader found, getSource_found caller reader found',
      jsonResponse_eq_iff alike, trees]

end environments

section credentials

/-- The header names of two dicts are the same, their values need not be. -/
inductive HeadersApart : Dict → Dict → Prop
  | nil : HeadersApart [] []
  | cons (name s t : Str) {vs ws : Dict} (tail : HeadersApart vs ws) :
      HeadersApart ((name, .str s) :: vs) ((name, .str t) :: ws)

/-- Trees that differ at most in the credentials of `HttpConnectorConfig` and
`WebhookPublisherConfig`, wherever they are. -/
inductive CredentialsApart : Val → Val → Prop
  | same (v : Val) : CredentialsApart v v
  | item {v w : Val} {vs ws : List Val} (head : CredentialsApart v w)
      (tail : CredentialsApart (.list vs) (.list ws)) :
      CredentialsApart (.list (v :: vs)) (.list (w :: ws))
  | entry (key : Str) {v w : Val} {vs ws : Dict} (head : CredentialsApart v w)
      (tail : CredentialsApart (.dict vs) (.dict ws)) :
      CredentialsApart (.dict ((key, v) :: vs)) (.dict ((key, w) :: ws))
  | authBearer (s t : Str) {vs ws : Dict} (tail : CredentialsApart (.dict vs) (.dict ws)) :
      CredentialsApart (.dict (("auth_bearer".toList, .str s) :: vs))
        (.dict (("auth_bearer".toList, .str t) :: ws))
  | authBasic (user password user' password' : Str) {vs ws : Dict}
      (tail : CredentialsApart (.dict vs) (.dict ws)) :
      CredentialsApart (.dict (("auth_basic".toList, .list [.str user, .str password]) :: vs))
        (.dict (("auth_basic".toList, .list [.str user', .str password']) :: ws))
  | bearer (s t : Str) {vs ws : Dict} (tail : CredentialsApart (.dict vs) (.dict ws)) :
      CredentialsApart (.dict (("bearer".toList, .str s) :: vs))
        (.dict (("bearer".toList, .str t) :: ws))
  | headers {headers headers' : Dict} (head : HeadersApart headers headers') {vs ws : Dict}
      (tail : CredentialsApart (.dict vs) (.dict ws)) :
      CredentialsApart (.dict (("headers".toList, .dict headers) :: vs))
        (.dict (("headers".toList, .dict headers') :: ws))

/-- Two sources that differ at most in credentials. -/
structure DifferInCredentials (c d : ConfiguredSource) : Prop where
  fields : c.toSourceFields = d.toSourceFields
  params : CredentialsApart (.dict c.params) (.dict d.params)
  parserParams : c.parserParams = d.parserParams
  enricherParams : CredentialsApart (.dict c.enricherParams) (.dict d.enricherParams)
  publisherParams : CredentialsApart (.dict c.publisherParams) (.dict d.publisherParams)
  extraFieldMap : c.extraFieldMap = d.extraFieldMap

def exposedKey (key : Str) : Bool := key = "auth_basic".toList || key = "headers".toList

variable (U : Unicode)

mutual

/-- The texts of `auth_basic` and `headers` that no mask covers. -/
def exposed : Val → List Str
  | .list items => exposedItems items
  | .dict entries => exposedEntries entries
  | _ => []

def exposedItems : List Val → List Str
  | [] => []
  | item :: items => exposed item ++ exposedItems items

def exposedEntries : Dict → List Str
  | [] => []
  | (key, value) :: entries =>
      (if maskedKey U key then [] else
        if exposedKey key then value.shown (maskedKey U) else exposed value) ++
        exposedEntries entries

end

variable {U} {c d : ConfiguredSource}

theorem HeadersApart.alike {vs ws : Dict} (apart : HeadersApart vs ws) :
    Val.Alike (.dict vs) (.dict ws) := by
  induction apart with
  | nil => exact .same _
  | cons name s t _ rest => exact .entry name (.str s t) rest

theorem CredentialsApart.alike {v w : Val} (apart : CredentialsApart v w) : Val.Alike v w := by
  induction apart with
  | same v => exact .same v
  | item _ _ head tail => exact .item head tail
  | entry key _ _ head tail => exact .entry key head tail
  | authBearer s t _ tail => exact .entry _ (.str s t) tail
  | authBasic user password user' password' _ tail =>
      exact .entry _ (.item (.str user user') (.item (.str password password') (.same _))) tail
  | bearer s t _ tail => exact .entry _ (.str s t) tail
  | headers head _ tail => exact .entry _ head.alike tail

theorem exposed_length {v w : Val} (alike : Val.Alike v w) :
    (exposed U v).length = (exposed U w).length := by
  induction alike with
  | same v => rfl
  | str s t => rfl
  | item _ _ head tail =>
      simp only [exposed, exposedItems, List.length_append] at tail ⊢
      rw [head, tail]
  | entry key alike _ head tail =>
      simp only [exposed, exposedEntries, List.length_append] at tail ⊢
      rw [tail]
      split
      · rfl
      · split
        · rw [alike.shown_length]
        · rw [head]

/-- Credentials under a masked key are in neither list. -/
theorem exposed_masked {key : Str} (covered : maskedKey U key = true) (v w : Val) {vs ws : Dict}
    (rest : Val.shown (maskedKey U) (.dict vs) = Val.shown (maskedKey U) (.dict ws) ↔
      exposed U (.dict vs) = exposed U (.dict ws)) :
    Val.shown (maskedKey U) (.dict ((key, v) :: vs)) =
        Val.shown (maskedKey U) (.dict ((key, w) :: ws)) ↔
      exposed U (.dict ((key, v) :: vs)) = exposed U (.dict ((key, w) :: ws)) := by
  simpa [Val.shown, Val.shownEntries, exposed, exposedEntries, covered] using rest

/-- Credentials under another key are in both. -/
theorem exposed_plain {key : Str} (uncovered : maskedKey U key = false)
    (credential : exposedKey key = true) {v w : Val} (alike : Val.Alike v w) {vs ws : Dict}
    (rest : Val.shown (maskedKey U) (.dict vs) = Val.shown (maskedKey U) (.dict ws) ↔
      exposed U (.dict vs) = exposed U (.dict ws)) :
    Val.shown (maskedKey U) (.dict ((key, v) :: vs)) =
        Val.shown (maskedKey U) (.dict ((key, w) :: ws)) ↔
      exposed U (.dict ((key, v) :: vs)) = exposed U (.dict ((key, w) :: ws)) := by
  simp only [Val.shown, Val.shownEntries, exposed, exposedEntries, uncovered, credential] at rest ⊢
  simp only [Bool.false_eq_true, if_false, if_true]
  rw [Val.append_texts alike.shown_length, Val.append_texts alike.shown_length, rest]

/-- What differs in sight is exposed. -/
theorem CredentialsApart.shown_eq_iff {v w : Val} (apart : CredentialsApart v w) :
    Val.shown (maskedKey U) v = Val.shown (maskedKey U) w ↔ exposed U v = exposed U w := by
  induction apart with
  | same v => simp
  | item head tail first rest =>
      simp only [Val.shown, Val.shownItems, exposed, exposedItems] at rest ⊢
      rw [Val.append_texts head.alike.shown_length, Val.append_texts (exposed_length head.alike),
        first, rest]
  | entry key head tail first rest =>
      by_cases covered : maskedKey U key = true
      · exact exposed_masked covered _ _ rest
      · by_cases credential : exposedKey key = true
        · exact exposed_plain (by simpa using covered) credential head.alike rest
        · simp only [Val.shown, Val.shownEntries, exposed, exposedEntries, covered,
            credential] at rest ⊢
          simp only [Bool.false_eq_true, if_false]
          rw [Val.append_texts head.alike.shown_length,
            Val.append_texts (exposed_length head.alike), first, rest]
  | authBearer s t _ rest => exact exposed_masked (maskedKey_ascii U (by decide)) _ _ rest
  | authBasic user password user' password' _ rest =>
      exact exposed_plain (maskedKey_plain U (by decide)) (by decide)
        (.item (.str user user') (.item (.str password password') (.same _))) rest
  | bearer s t _ rest => exact exposed_masked (maskedKey_ascii U (by decide)) _ _ rest
  | headers head _ rest =>
      exact exposed_plain (maskedKey_plain U (by decide)) (by decide) head.alike rest

theorem DifferInCredentials.related (differ : DifferInCredentials c d) :
    c.Related CredentialsApart d where
  fields := differ.fields
  params := differ.params
  parserParams := by
    rw [differ.parserParams]
    exact .same _
  enricherParams := differ.enricherParams
  publisherParams := differ.publisherParams
  extraFieldMap := by
    rw [differ.extraFieldMap]
    exact .same _

/-- The printed texts are the same if the exposed credentials are. -/
theorem DifferInCredentials.effectiveText_eq_iff (differ : DifferInCredentials c d) :
    effectiveText U c = effectiveText U d ↔ ConfiguredSource.Agree (exposed U) c d := by
  have related := differ.related
  have alike : c.Related Val.Alike d := related.imp related fun first _ => first.alike
  rw [ConfiguredSource.effectiveText_eq_iff alike]
  exact related.agree_iff CredentialsApart.shown_eq_iff

variable {C : Coercions} {env₁ env₂ : Environment} {raw : Val} {sourceId : Str}

/-- For two resolutions that differ in credentials, `show-effective-config` prints the same if
`auth_basic` and the headers are the same where no mask covers them. -/
theorem effective_config_disclosure_iff (first : effectiveConfig C U env₁ raw sourceId = .ok c)
    (second : effectiveConfig C U env₂ raw sourceId = .ok d) (differ : DifferInCredentials c d) :
    showEffectiveConfig C U env₁ raw sourceId = showEffectiveConfig C U env₂ raw sourceId ↔
      ConfiguredSource.Agree (exposed U) c d := by
  unfold showEffectiveConfig
  rw [first, second, ← differ.effectiveText_eq_iff]
  exact Iff.of_eq (Except.ok.injEq _ _)

end credentials

section documents

/-- Numbers and truth values that are of the right type already. -/
def documentCoercions : Coercions where
  toInt
    | .int n => some n
    | _ => none
  toFloat
    | .float f => some f
    | _ => none
  toBool
    | .bool b => some b
    | _ => none

/-- An environment with one variable. -/
def documentEnvironment (secret : Str) : Environment where
  environ name := if name = "SECRET".toList then some secret else none
  file _ := none

/-- A file with one source, which has one parameter. -/
def documentFile (key : Str) (value : Val) : Val :=
  .dict [("sources".toList, .list [.dict [("id".toList, .str "feed".toList),
    ("plugin".toList, .str "http_json".toList), ("parser".toList, .str "json".toList),
    ("params".toList, .dict [(key, value)])]])]

def documentSource (key : Str) (value : Val) : ConfiguredSource where
  id := "feed".toList
  name := none
  plugin := "http_json".toList
  enabled := true
  schedule := "0 */6 * * *".toList
  jitterSeconds := 60
  rateLimitRps := none
  maxParallelism := 1
  timeoutSeconds := 60
  retry := .default
  circuit := .default
  parser := "json".toList
  enrichers := []
  publishers := ["postgres".toList]
  normalize := .default
  tlp := .amber
  severityDefault := .info
  confidenceDefault := 50
  tags := []
  params := [(key, value)]
  parserParams := []
  enricherParams := []
  publisherParams := []
  extraFieldMap := []

def secretText : Val := .str "$\x7benv:SECRET\x7d".toList

/-- The registry that the file gives. -/
theorem documentFile_load (secret key : Str) (value : Val) :
    loadRegistry documentCoercions .ascii (documentEnvironment secret) (documentFile key value) =
      .ok [documentSource key (resolveSecrets (documentEnvironment secret) value)] :=
  rfl

theorem documentFile_config (secret key : Str) (value : Val) :
    effectiveConfig documentCoercions .ascii (documentEnvironment secret) (documentFile key value)
        "feed".toList =
      .ok (documentSource key (resolveSecrets (documentEnvironment secret) value)) :=
  rfl

/-- A password that comes from the environment. -/
def basicAuth : Val := .list [.str "cti".toList, secretText]

theorem document_differ (secret secret' : Str) :
    DifferInCredentials
      (documentSource "auth_basic".toList (resolveSecrets (documentEnvironment secret) basicAuth))
      (documentSource "auth_basic".toList
        (resolveSecrets (documentEnvironment secret') basicAuth)) where
  fields := rfl
  params := .authBasic _ _ _ _ (.same _)
  parserParams := rfl
  enricherParams := .same _
  publisherParams := .same _
  extraFieldMap := rfl

theorem effective_config_disclosure_iff_document :
    showEffectiveConfig documentCoercions .ascii (documentEnvironment "1".toList)
          (documentFile "auth_basic".toList basicAuth) "feed".toList =
        showEffectiveConfig documentCoercions .ascii (documentEnvironment "2".toList)
          (documentFile "auth_basic".toList basicAuth) "feed".toList ↔
      ConfiguredSource.Agree (exposed .ascii)
        (documentSource "auth_basic".toList
          (resolveSecrets (documentEnvironment "1".toList) basicAuth))
        (documentSource "auth_basic".toList
          (resolveSecrets (documentEnvironment "2".toList) basicAuth)) :=
  effective_config_disclosure_iff (documentFile_config "1".toList "auth_basic".toList basicAuth)
    (documentFile_config "2".toList "auth_basic".toList basicAuth)
    (document_differ "1".toList "2".toList)

/-- The password for basic authentication is printed. -/
theorem effective_config_discloses :
    ¬ ∀ (C : Coercions) (U : Unicode) (env₁ env₂ : Environment) (raw : Val) (sourceId : Str)
      (c d : ConfiguredSource), effectiveConfig C U env₁ raw sourceId = .ok c →
        effectiveConfig C U env₂ raw sourceId = .ok d → DifferInCredentials c d →
        showEffectiveConfig C U env₁ raw sourceId = showEffectiveConfig C U env₂ raw sourceId := by
  intro blind
  have same := blind _ _ _ _ _ _ _ _
    (documentFile_config "1".toList "auth_basic".toList basicAuth)
    (documentFile_config "2".toList "auth_basic".toList basicAuth) (document_differ _ _)
  unfold showEffectiveConfig at same
  rw [documentFile_config, documentFile_config] at same
  have agree := (document_differ "1".toList "2".toList).effectiveText_eq_iff.mp
    (Except.ok.inj same)
  exact absurd agree.params (by decide)

def documentTokens : TokenStore := [("t".toList, ⟨"reader".toList, ["read".toList]⟩)]

/-- A token that comes from the environment. -/
def bearerSource (secret : Str) : ConfiguredSource :=
  documentSource "auth_bearer".toList (resolveSecrets (documentEnvironment secret) secretText)

theorem document_agree : AgreeInSight .ascii (documentEnvironment "1".toList)
    (documentEnvironment "2".toList) (documentFile "auth_bearer".toList secretText) := by
  unfold AgreeInSight
  decide

theorem bearer_apart (secret secret' : Str) :
    (bearerSource secret).Related (Val.Apart (maskedKey .ascii)) (bearerSource secret') where
  fields := rfl
  params := .covered _ rfl (resolve_alike _ _ secretText) (.same _)
  parserParams := .same _
  enricherParams := .same _
  publisherParams := .same _
  extraFieldMap := .same _

theorem get_source_disclosure_iff_document :
    ∃ registry d, loadRegistry documentCoercions .ascii (documentEnvironment "2".toList)
        (documentFile "auth_bearer".toList secretText) = .ok registry ∧
      getSourceConfig registry "feed".toList = some d ∧
      showEffectiveConfig documentCoercions .ascii (documentEnvironment "1".toList)
          (documentFile "auth_bearer".toList secretText) "feed".toList =
        showEffectiveConfig documentCoercions .ascii (documentEnvironment "2".toList)
          (documentFile "auth_bearer".toList secretText) "feed".toList ∧
      (getSource .ascii documentTokens [bearerSource "1".toList] (some "Bearer t".toList)
          "feed".toList =
          getSource .ascii documentTokens registry (some "Bearer t".toList) "feed".toList ↔
        Val.isFinite (.dict (bearerSource "1".toList).dump) = false ∨
          ConfiguredSource.Agree (Val.concealed (maskedKey .ascii)) (bearerSource "1".toList) d) :=
  get_source_disclosure_iff document_agree
    (documentFile_load "1".toList "auth_bearer".toList secretText) rfl rfl rfl

/-- The bearer token is in the response. -/
theorem get_source_discloses :
    ¬ ∀ (C : Coercions) (U : Unicode) (env₁ env₂ : Environment) (raw : Val),
      AgreeInSight U env₁ env₂ raw → ∀ registry registry' : List ConfiguredSource,
        loadRegistry C U env₁ raw = .ok registry → loadRegistry C U env₂ raw = .ok registry' →
        ∀ (store : TokenStore) (authorization : Option Str) (principal : Principal),
          store.authenticate U authorization = some principal →
          principal.has "read".toList = true → ∀ (sourceId : Str) (c : ConfiguredSource),
            getSourceConfig registry sourceId = some c →
            getSource U store registry authorization sourceId =
              getSource U store registry' authorization sourceId := by
  intro blind
  have same := blind _ _ _ _ _ document_agree _ _
    (documentFile_load "1".toList "auth_bearer".toList secretText)
    (documentFile_load "2".toList "auth_bearer".toList secretText) documentTokens
    (some "Bearer t".toList) _ rfl rfl "feed".toList _ rfl
  have responses : jsonResponse 200 (.dict (bearerSource "1".toList).dump) =
      jsonResponse 200 (.dict (bearerSource "2".toList).dump) := same
  have apart := bearer_apart "1".toList "2".toList
  rcases (ConfiguredSource.jsonResponse_eq_iff (alike_of_apart apart) 200).mp responses with
    infinite | agree
  · cases infinite
  · exact absurd ((apart.agree_iff Val.Apart.eq_iff).mp agree).params (by decide)

end documents

end Cti
