import Cti.CanonicalForm
import Cti.Ipnetwork
import Cti.Normalize
import Cti.PyBytes
import Cti.Regex

set_option autoImplicit false

/- The extractor for plain text, and what the normalize stage makes of its records. -/
namespace Cti

open Py (Str Unicode)

structure TxtExtractorConfig where
  extract : List Str
  skipCommentPrefix : Str
  expandCidrs : Bool
  encoding : Str

/-- The values that the fields of the model default to. -/
def TxtExtractorConfig.default : TxtExtractorConfig :=
  ⟨["ipv4".toList], "#".toList, false, "utf-8".toList⟩

namespace TxtExtractor

open Re (Pattern)

variable (U : Unicode)

/-- `\b` -/
def wordBoundary : Pattern := .boundary (isWord U)

/-- `\d`: decimal digits of any script. -/
def digit : Pattern := .set fun c => (U.decimal c).isSome

/-- `_RE_IPV4` -/
def reIPv4 : Pattern :=
  let octet := Pattern.times (digit U) 1 (some 3)
  Re.sequence (wordBoundary U) [octet, Re.char '.', octet, Re.char '.', octet, Re.char '.', octet,
    Re.optional (Re.sequence (Re.char '/') [.times (digit U) 1 (some 2)]), wordBoundary U]

/-- `[a-z]`, ignoring case: four letters outside ASCII are a letter of it in another case. -/
def isLetter (c : Char) : Bool := c.isAlpha || c == 'İ' || c == 'ı' || c == 'ſ' || c == 'K'

def isLabelChar (c : Char) : Bool := isLetter c || c.isDigit

/-- `_RE_DOMAIN` -/
def reDomain : Pattern :=
  let label := Re.sequence (.set isLabelChar) [Re.optional (Re.sequence
    (.times (.set fun c => isLabelChar c || c == '-') 0 (some 61)) [.set isLabelChar])]
  Re.sequence (wordBoundary U) [Re.many (Re.sequence label [Re.char '.']),
    .times (.set isLetter) 2 (some 24), wordBoundary U]

/-- A letter, ignoring case. -/
def letter (c : Char) : Pattern := .set fun d => d.toLower == c

/-- `_RE_URL` -/
def reUrl : Pattern :=
  Re.sequence (wordBoundary U) [letter 'h', letter 't', letter 't', letter 'p',
    Re.optional (.set fun c => c == 's' || c == 'S' || c == 'ſ'), Re.char ':', Re.char '/',
    Re.char '/', Re.many (.set fun c => !(Py.isSpace c || "\"'<>".toList.contains c))]

/-- `[a-fA-F0-9]{n}` between word boundaries. -/
def hashOf (n : Nat) : Pattern :=
  Re.sequence (wordBoundary U) [Re.exactly (.set Ipaddress.isHexDigit) n, wordBoundary U]

/-- `_RE_HASH` -/
def reHash : Pattern := .alt (hashOf U 32) (.alt (hashOf U 40) (hashOf U 64))

/-- What becomes of a token that looks like an address or a network: nothing if it is neither. -/
def tokenValues (expandCidrs : Bool) (token : Str) : List Str :=
  if '/' ∈ token then
    match Ipaddress.IPv4Network.parse token with
    | some net =>
        if expandCidrs ∧ 24 ≤ net.prefixlen then net.hosts.map Ipaddress.IPv4Address.str
        else [net.str]
    | none => []
  else
    match Ipaddress.IPv4Address.parse token with
    | some address => [address.str]
    | none => []

/-- `_extract_ipv4`. -/
def extractIpv4 (line : Str) (expandCidrs : Bool) : List Str :=
  (Re.findAll (reIPv4 U) line).flatMap (tokenValues expandCidrs)

def record (indType value line : Str) : Record :=
  [("type".toList, .str indType), ("value".toList, .str value), ("_raw".toList, .str line)]

/-- The names of the hashes by their length. -/
def hashTypes : List (Nat × Str) :=
  [(32, "md5".toList), (40, "sha1".toList), (64, "sha256".toList)]

def hashRecord (line m : Str) : Except Exc Record :=
  match hashTypes.lookup m.length with
  | some indType => .ok (record indType m line)
  | none => .error ((ClassName.other "KeyError".toList).exc (Nat.toDigits 10 m.length))

/-- The records of one kind. Kinds that are not known are passed over. -/
def kindRecords (expandCidrs : Bool) (line kind : Str) : Except Exc (List Record) :=
  if kind = "ipv4".toList then
    .ok ((extractIpv4 U line expandCidrs).map fun v => record "ipv4".toList v line)
  else if kind = "url".toList then
    .ok ((Re.findAll (reUrl U) line).map fun m => record "url".toList m line)
  else if kind = "domain".toList then
    .ok ((Re.findAll (reDomain U) line).map fun m => record "domain".toList m line)
  else if kind = "hash".toList then (Re.findAll (reHash U) line).mapM (hashRecord line)
  else .ok []

/-- The lines that records are looked for in: stripped, and neither blank nor a comment. -/
def keptLines (config : TxtExtractorConfig) (text : Str) : List Str :=
  ((Py.splitlines text).map Py.strip).filter fun line =>
    decide (line ≠ []) && !config.skipCommentPrefix.isPrefixOf line

/-- `TxtExtractor.parse_sync`. -/
def parseSync (C : TextCodecs) (config : TxtExtractorConfig) (payload : RawPayload) :
    Except Exc (List Record) := do
  let text ← C.bytesReplace config.encoding payload.body
  let results ← (keptLines config text).mapM fun line => do
    let kinds ← config.extract.mapM (kindRecords U config.expandCidrs line)
    return kinds.flatten
  return results.flatten

/-- How the normalize stage is set up for the records of the extractor. -/
def normalizeConfig : NormalizeConfig :=
  { NormalizeConfig.default with typeField := some "type".toList, valueField := "value".toList }

variable {U} {R : Runtime} {firstSeen lastSeen : Int}

/-- The record becomes an indicator. -/
def Accepted (R : Runtime) (firstSeen lastSeen : Int) (r : Record) : Prop :=
  ∃ ind, recordToIndicator R r normalizeConfig firstSeen lastSeen = .ok (some ind)

theorem recordType_record {t : IndicatorType} (ascii : ∀ c ∈ t.value, Py.isAscii c = true)
    (small : t.value.map Char.toLower = t.value)
    (found : IndicatorType.all.find? (fun other => other.value = t.value) = some t)
    (value line : Str) :
    recordType R (record t.value value line) normalizeConfig = .ok (some t) := by
  have typed : Val.truthy (.str t.value) = true := by cases t <;> rfl
  have coerced : coerceType R t.value = .ok t := by
    rw [coerceType, Py.lower_ascii_eq ascii, small]
    simp only [found]
  have field : Dict.get (record t.value value line) "type".toList = some (.str t.value) := rfl
  simp only [recordType, normalizeConfig, field, typed, if_true, Val.text, coerced, bind, Except.bind,
    pure, Except.pure]

/-- A record is accepted if its value has a canonical form. -/
theorem accepted_iff {t : IndicatorType} {value line : Str}
    (typed : recordType R (record t.value value line) normalizeConfig = .ok (some t))
    (stable : Stable R t value) (nonempty : value ≠ []) :
    Accepted R firstSeen lastSeen (record t.value value line) ↔
      ∃ c, canonicalize R t value = .ok c := by
  have read : recordValue (record t.value value line) normalizeConfig = some (.str value) := by
    cases value with
    | nil => exact absurd rfl nonempty
    | cons c value => rfl
  have confidence : recordConfidence R (record t.value value line) normalizeConfig = .ok 50 := rfl
  unfold Accepted
  simp only [recordToIndicator, typed, read, confidence, Val.text, bind, Except.bind]
  constructor
  · rintro ⟨ind, built⟩
    split at built
    · cases built
    · rename_i ind' built'
      obtain ⟨c, again, first, _⟩ := Indicator.build_eq built'
      exact ⟨c, first⟩
  · rintro ⟨c, first⟩
    have again := (canonicalize_fixed_iff first).1.mpr stable
    simp [Indicator.build, indicatorUuid, first, again, bind, Except.bind, pure, Except.pure,
      normalizeConfig, NormalizeConfig.default]

theorem accepted_ipv4 {value line : Str} (nonempty : value ≠ []) :
    Accepted R firstSeen lastSeen (record "ipv4".toList value line) ↔
      ∃ c, canonicalize R .ipv4 value = .ok c :=
  @accepted_iff R firstSeen lastSeen .ipv4 value line
    (recordType_record (Py.forall_mem_of_all (by decide)) (by decide) (by decide) value line) trivial nonempty

theorem address_accepted (address : Ipaddress.IPv4Address) (line : Str) :
    Accepted R firstSeen lastSeen (record "ipv4".toList address.str line) := by
  have fixed := (@ipv4_fixed R address).1
  have nonempty : address.str ≠ [] := by
    intro nil
    rw [nil] at fixed
    cases fixed
  exact (accepted_ipv4 nonempty).mpr ⟨_, fixed⟩

/-- A network is no address, so its record is refused. -/
theorem network_refused (net : Ipaddress.IPv4Network) (line : Str) :
    ¬ Accepted R firstSeen lastSeen (record "ipv4".toList net.str line) := by
  have slash : '/' ∈ Py.strip net.str := by
    rw [Ipaddress.IPv4Network.str, Py.strip_append_cons (by decide)]
    exact List.mem_append_right _ List.mem_cons_self
  have nonempty : net.str ≠ [] := by simp [Ipaddress.IPv4Network.str]
  rw [accepted_ipv4 nonempty]
  rintro ⟨c, result⟩
  unfold canonicalize at result
  simp only [Ipaddress.IPv4Address.parse_slash slash] at result
  split at result <;> cases result

/-- A network that is not expanded into its hosts. -/
def KeptWhole (expandCidrs : Bool) (token : Str) : Prop :=
  '/' ∈ token ∧ ∃ net, Ipaddress.IPv4Network.parse token = some net ∧
    ¬ (expandCidrs = true ∧ 24 ≤ net.prefixlen)

theorem token_accepted {expandCidrs : Bool} {token line : Str} :
    (∀ v ∈ tokenValues expandCidrs token,
        Accepted R firstSeen lastSeen (record "ipv4".toList v line)) ↔
      ¬ KeptWhole expandCidrs token := by
  unfold tokenValues KeptWhole
  by_cases slash : '/' ∈ token
  · rw [if_pos slash, and_iff_right slash]
    cases read : Ipaddress.IPv4Network.parse token with
    | none => simp
    | some net =>
        by_cases expanded : expandCidrs = true ∧ 24 ≤ net.prefixlen
        · simp only [if_pos expanded, Option.some.injEq, exists_eq_left', not_not,
            List.forall_mem_map]
          exact iff_of_true (fun address _ => address_accepted address line) expanded
        · simp only [if_neg expanded, Option.some.injEq, exists_eq_left', not_not,
            List.forall_mem_singleton]
          exact iff_of_false (network_refused net line) expanded
  · rw [if_neg slash]
    refine iff_of_true ?_ fun whole => slash whole.1
    cases Ipaddress.IPv4Address.parse token with
    | none => exact nofun
    | some address => exact List.forall_mem_singleton.mpr (address_accepted address line)

theorem hex_lower {c : Char} (hex : Ipaddress.isHexDigit c = true) : isLowerHex c.toLower = true :=
  Py.ascii_forall (P := fun c => Ipaddress.isHexDigit c = true → isLowerHex c.toLower = true)
    (by decide) (Ipaddress.hexDigit_ascii hex) hex

theorem hex_stripped {m : Str} (hex : ∀ c ∈ m, Ipaddress.isHexDigit c = true) : Py.strip m = m :=
  Py.strip_of_trimmed (Py.trimmed_of_forall fun c member => hexDigit_not_space (hex c member))

/-- Hexadecimal digits of the right number are a hash. -/
theorem hash_canonical {t : IndicatorType} {n : Nat} {m : Str} (length : m.length = n)
    (hex : ∀ c ∈ m, Ipaddress.isHexDigit c = true) :
    canonicalHash R t n m = .ok (m.map Char.toLower) := by
  have lower : Py.lower R.unicode m = m.map Char.toLower :=
    Py.lower_ascii_eq fun c member => Ipaddress.hexDigit_ascii (hex c member)
  have valid : ¬ ((m.map Char.toLower).length ≠ n ∨
      (m.map Char.toLower).all isLowerHex = false) := by
    rw [not_or, not_not, Bool.not_eq_false, List.length_map, List.all_eq_true, List.forall_mem_map]
    exact ⟨length, fun c member => hex_lower (hex c member)⟩
  simp only [canonicalHash, hex_stripped hex, lower, if_neg valid]

theorem hashOf_lang {n : Nat} {m : Str} (lang : (hashOf U n).Lang m) :
    m.length = n ∧ ∀ c ∈ m, Ipaddress.isHexDigit c = true :=
  Re.lang_exactly (Re.lang_boundary.mp lang)

/-- A match of one of the three patterns is a hash of the type that its length has. -/
theorem hash_accepted {t : IndicatorType} {n : Nat} {m line : Str} (lang : (hashOf U n).Lang m)
    (positive : 0 < n) (stable : Stable R t m) (name : hashTypes.lookup n = some t.value)
    (typed : recordType R (record t.value m line) normalizeConfig = .ok (some t))
    (is_hash : Py.strip m = m → m ≠ [] → canonicalize R t m = canonicalHash R t n m) :
    ∃ r, hashRecord line m = .ok r ∧ Accepted R firstSeen lastSeen r := by
  obtain ⟨length, hex⟩ := hashOf_lang lang
  have nonempty : m ≠ [] := by
    rintro rfl
    simp at length
    omega
  have canonical := is_hash (hex_stripped hex) nonempty
  rw [hash_canonical length hex] at canonical
  refine ⟨record t.value m line, ?_, (accepted_iff typed stable nonempty).mpr ⟨_, canonical⟩⟩
  rw [hashRecord, length, name]

theorem hash_record {line m : Str} (member : m ∈ Re.findAll (reHash U) line) :
    ∃ r, hashRecord line m = .ok r ∧ Accepted R firstSeen lastSeen r := by
  rcases Re.mem_findAll member with lang | lang | lang
  · apply hash_accepted lang (by decide) (t := .md5) trivial rfl
      (recordType_record (Py.forall_mem_of_all (by decide)) (by decide) (by decide) m line)
    intro plain nonempty
    simp only [canonicalize, plain, if_neg nonempty]
  · apply hash_accepted lang (by decide) (t := .sha1) trivial rfl
      (recordType_record (Py.forall_mem_of_all (by decide)) (by decide) (by decide) m line)
    intro plain nonempty
    simp only [canonicalize, plain, if_neg nonempty]
  · apply hash_accepted lang (by decide) (t := .sha256) trivial rfl
      (recordType_record (Py.forall_mem_of_all (by decide)) (by decide) (by decide) m line)
    intro plain nonempty
    simp only [canonicalize, plain, if_neg nonempty]

theorem hash_records {line : Str} {ms : List Str}
    (matched : ∀ m ∈ ms, m ∈ Re.findAll (reHash U) line) :
    ∃ out, ms.mapM (hashRecord line) = .ok out ∧ ∀ r ∈ out, Accepted R firstSeen lastSeen r := by
  induction ms with
  | nil => exact ⟨[], rfl, nofun⟩
  | cons m ms ih =>
      obtain ⟨here, later⟩ := List.forall_mem_cons.mp matched
      obtain ⟨r, made, accepted⟩ := hash_record here
      obtain ⟨out, rest, all⟩ := ih later
      refine ⟨r :: out, ?_, List.forall_mem_cons.mpr ⟨accepted, all⟩⟩
      rw [List.mapM_cons, made, rest]
      rfl

/-- Results of a list, each of which has a property if its source has another one. -/
theorem mapM_forall {α β : Type} {f : α → Except Exc (List β)} {P : β → Prop} {Q : α → Prop}
    {xs : List α} (each : ∀ x ∈ xs, ∃ ys, f x = .ok ys ∧ ((∀ y ∈ ys, P y) ↔ Q x)) :
    ∃ yss, xs.mapM f = .ok yss ∧ ((∀ y ∈ yss.flatten, P y) ↔ ∀ x ∈ xs, Q x) := by
  induction xs with
  | nil => exact ⟨[], rfl, iff_of_true nofun nofun⟩
  | cons x xs ih =>
      obtain ⟨⟨ys, first, here⟩, later⟩ := List.forall_mem_cons.mp each
      obtain ⟨yss, rest, there⟩ := ih later
      refine ⟨ys :: yss, ?_, ?_⟩
      · rw [List.mapM_cons, first, rest]
        rfl
      · rw [List.flatten_cons, List.forall_mem_append, List.forall_mem_cons, here, there]

/-- The tokens of a line that look like addresses. -/
def tokens (U : Unicode) (line : Str) : List Str := Re.findAll (reIPv4 U) line

theorem kind_records {expandCidrs : Bool} {line kind : Str}
    (known : kind = "ipv4".toList ∨ kind = "hash".toList) :
    ∃ out, kindRecords R.unicode expandCidrs line kind = .ok out ∧
      ((∀ r ∈ out, Accepted R firstSeen lastSeen r) ↔
        (kind = "ipv4".toList →
          ∀ token ∈ tokens R.unicode line, ¬ KeptWhole expandCidrs token)) := by
  rcases known with rfl | rfl
  · refine ⟨_, if_pos rfl, ?_⟩
    rw [extractIpv4, imp_iff_right rfl, List.forall_mem_map, List.forall_mem_flatMap]
    exact forall₂_congr fun token _ => token_accepted
  · obtain ⟨out, read, all⟩ :=
      @hash_records R.unicode R firstSeen lastSeen line _ fun m member => member
    exact ⟨out, read, iff_of_true all fun same => absurd same (by decide)⟩

/-- All records of the extractor become indicators if and only if no token of a line that is looked
at is a network that is kept whole. -/
theorem extracted_accepted_iff (R : Runtime) (C : TextCodecs) (config : TxtExtractorConfig)
    (payload : RawPayload) (text : Str) (firstSeen lastSeen : Int)
    (kinds : ∀ kind ∈ config.extract, kind = "ipv4".toList ∨ kind = "hash".toList)
    (decoded : C.bytesReplace config.encoding payload.body = .ok text) :
    ∃ out, parseSync R.unicode C config payload = .ok out ∧
      ((∀ r ∈ out, Accepted R firstSeen lastSeen r) ↔
        ("ipv4".toList ∈ config.extract → ∀ line ∈ keptLines config text,
          ∀ token ∈ tokens R.unicode line, ¬ KeptWhole config.expandCidrs token)) := by
  have lines : ∀ line ∈ keptLines config text, ∃ out,
      (do
        let kinds ← config.extract.mapM (kindRecords R.unicode config.expandCidrs line)
        return kinds.flatten : Except Exc (List Record)) = .ok out ∧
      ((∀ r ∈ out, Accepted R firstSeen lastSeen r) ↔
        ∀ kind ∈ config.extract, kind = "ipv4".toList →
        ∀ token ∈ tokens R.unicode line, ¬ KeptWhole config.expandCidrs token) := by
    intro line _
    obtain ⟨outs, read, all⟩ := mapM_forall fun kind member =>
      @kind_records R firstSeen lastSeen config.expandCidrs line kind (kinds kind member)
    exact ⟨outs.flatten, by rw [read]; rfl, all⟩
  obtain ⟨outs, read, all⟩ := mapM_forall lines
  refine ⟨outs.flatten, ?_, all.trans ?_⟩
  · rw [parseSync, decoded]
    simp only [bind, Except.bind] at read ⊢
    rw [read]
    rfl
  · constructor
    · exact fun every named line member => every line member _ named rfl
    · rintro every line member kind named rfl
      exact every named line member

theorem extracted_accepted_iff_example :
    let text := "10.0.0.7/30\nd41d8cd98f00b204e9800998ecf8427e".toList
    let config :=
      TxtExtractorConfig.mk ["ipv4".toList, "hash".toList] "#".toList true "utf-8".toList
    ∃ out, parseSync Unicode.ascii .utf8Only config (.ofBody (Py.utf8Encode text)) = .ok out ∧
      ((∀ r ∈ out, Accepted asciiRuntime 0 0 r) ↔
        ("ipv4".toList ∈ config.extract → ∀ line ∈ keptLines config text,
          ∀ token ∈ tokens Unicode.ascii line, ¬ KeptWhole config.expandCidrs token)) := by
  apply extracted_accepted_iff asciiRuntime .utf8Only _ _ _ 0 0
  · decide
  · exact TextCodecs.bytesReplace_utf8 _ _

/-- A network that is kept as a single indicator is lost. -/
theorem network_lost :
    let lost := record "ipv4".toList "10.0.0.0/24".toList "10.0.0.0/24".toList
    parseSync Unicode.ascii .utf8Only .default (.ofBody (Py.utf8Encode "10.0.0.0/24".toList)) =
        .ok [lost] ∧
      recordToIndicator asciiRuntime lost normalizeConfig 0 0 =
        .error (ClassName.addressValueError.exc "10.0.0.0/24".toList) ∧
      ¬ Accepted asciiRuntime 0 0 lost := by
  intro lost
  have refused : recordToIndicator asciiRuntime lost normalizeConfig 0 0 =
      .error (ClassName.addressValueError.exc "10.0.0.0/24".toList) := by rfl
  refine ⟨?_, refused, ?_⟩
  · have decoded := TextCodecs.bytesReplace_utf8 .utf8Only "10.0.0.0/24".toList
    rw [parseSync, TxtExtractorConfig.default, RawPayload.ofBody, decoded]
    rfl
  · rintro ⟨ind, accepted⟩
    rw [refused] at accepted
    cases accepted

end TxtExtractor

end Cti
