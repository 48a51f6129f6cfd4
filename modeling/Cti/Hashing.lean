import Cti.Models
import Cti.Urllib

set_option autoImplicit false

namespace Cti

open Py (Str Unicode Matcher)

/-- What the code takes from Python and its packages, apart from the functions that are
defined here: the Unicode database, the UUID hash, and texts of errors. -/
structure Runtime where
  unicode : Unicode
  uuid5 : Uuid → Str → Uuid
  repr : Str → Str
  addressError : Str → Str
  urlError : Str → Str
  confidenceError : Int → Str

/-- `_CTI_NS`. -/
def ctiNs : Uuid := 0x4f0c6c4a2c8f5f8e9b3e9c0a2c8f5f8e

/-- `_DEFANG_REPLACEMENTS`. -/
def defangReplacements : List (Str × Str) :=
  [("[.]".toList, ".".toList), ("(.)".toList, ".".toList), ("[:]".toList, ":".toList),
    ("[at]".toList, "@".toList), ("[://]".toList, "://".toList)]

def isWord (U : Unicode) (c : Char) : Bool := U.alnum c || c == '_'

/-- A pattern in lower case starts the text, ignoring case. For the letters of the
patterns below, case is a matter of ASCII only. -/
def startsIgnoringCase : Str → Str → Bool
  | [], _ => true
  | _ :: _, [] => false
  | p :: pattern, c :: rest => c.toLower == p && startsIgnoringCase pattern rest

/-- `(s?)://`, where the long s is an s in some case: what the group matches. -/
def schemeEnd (rest : Str) : Option Str :=
  if "://".toList.isPrefixOf rest then some []
  else match rest with
    | s :: rest =>
        if (s == 's' || s == 'S' || s == 'ſ') && "://".toList.isPrefixOf rest then some [s] else none
    | [] => none

/-- `\b` head `(s?)://`, ignoring case, becomes `http\1://`. -/
def webScheme (U : Unicode) (head : Str) : Matcher := fun before rest =>
  if before.any (isWord U) then none
  else if startsIgnoringCase head rest then
    (schemeEnd (rest.drop head.length)).map fun s =>
      (head.length + s.length + 3, "http".toList ++ s ++ "://".toList)
  else none

/-- `_RE_HXXP`. -/
def reHxxp (U : Unicode) : Matcher := webScheme U "hxxp".toList

def refang (U : Unicode) (value : Str) : Str :=
  let out := defangReplacements.foldl (fun out pair => Py.replace pair.1 pair.2 out) value
  Py.sub (reHxxp U) none 0 out

def isIdnaDot (c : Char) : Bool :=
  c == '.' || c.toNat == 0x3002 || c.toNat == 0xff0e || c.toNat == 0xff61

/-- `encodings.idna.ToASCII`. -/
def toAsciiLabel (U : Unicode) (label : Str) : Option Str :=
  if label.all Py.isAscii then
    if 0 < label.length ∧ label.length < 64 then some label else none
  else U.toAscii label

/-- `str.encode("idna")`. -/
def encodeIdna (U : Unicode) (text : Str) : Option Str :=
  if text.all Py.isAscii then
    let labels := text.splitOn '.'
    if (labels.dropLast.all fun label => 0 < label.length && label.length < 64) &&
        labels.getLast?.all (fun label => label.length < 64) then some text
    else none
  else do
    let labels := text.splitOnP isIdnaDot
    let trailing := labels.getLast? = some []
    let encoded ← (if trailing then labels.dropLast else labels).mapM (toAsciiLabel U)
    return ['.'].intercalate encoded ++ if trailing then ['.'] else []

/-- One to 63 letters, digits and hyphens, no hyphen at either end. -/
def isLabel (label : Str) : Bool :=
  label.head?.any Char.isAlphanum && label.getLast?.any Char.isAlphanum && label.length ≤ 63 &&
    label.all fun c => c.isAlphanum || c == '-'

/-- `_DOMAIN_LABEL_RE.match`: the dollar also matches before a final line feed. -/
def domainLabelMatches (label : Str) : Bool :=
  isLabel label || (label.getLast? == some '\n' && isLabel label.dropLast)

variable (R : Runtime)

def checkLabels : List Str → Except Exc Unit
  | [] => .ok ()
  | label :: labels =>
      if domainLabelMatches label then checkLabels labels
      else .error (ClassName.valueError.exc ("invalid domain label: ".toList ++ label))

/-- The domain before it is encoded. -/
def domainText (U : Unicode) (value : Str) : Str :=
  Py.rstrip (· == '.') (Py.lower U (refang U value))

def canonicalDomain (value : Str) : Except Exc Str :=
  match encodeIdna R.unicode (domainText R.unicode value) with
  | none => .error (ClassName.valueError.exc ("invalid IDN domain: ".toList ++ value))
  | some domain => do
      checkLabels (domain.splitOn '.')
      return domain

/-- The netloc without the default port of the scheme. -/
def dropDefaultPort (scheme netloc : Str) : Str :=
  if (scheme = "http".toList ∧ ":80".toList <:+ netloc) ∨
      (scheme = "https".toList ∧ ":443".toList <:+ netloc) then
    match Py.rpartition ':' netloc with
    | some (host, _) => host
    | none => netloc
  else netloc

def canonicalUrl (value : Str) : Except Exc Str :=
  match Urllib.urlparse R.unicode (Py.strip (refang R.unicode value)) with
  | none => .error (ClassName.valueError.exc (R.urlError value))
  | some parsed =>
      if parsed.scheme = [] ∨ parsed.netloc = [] then
        .error (ClassName.valueError.exc ("invalid URL: ".toList ++ value))
      else
        let scheme := Py.lower R.unicode parsed.scheme
        let netloc := dropDefaultPort scheme (Py.lower R.unicode parsed.netloc)
        let path := if parsed.path = [] then ['/'] else parsed.path
        .ok (Urllib.urlunparse ⟨scheme, netloc, path, parsed.params, parsed.query, []⟩)

def isLowerHex (c : Char) : Bool := "0123456789abcdef".toList.contains c

def canonicalHash (indicatorType : IndicatorType) (expected : Nat) (value : Str) : Except Exc Str :=
  let cleaned := Py.lower R.unicode (Py.strip value)
  if cleaned.length ≠ expected ∨ cleaned.all isLowerHex = false then
    .error (ClassName.valueError.exc
      ("invalid ".toList ++ indicatorType.value ++ " hash: ".toList ++ R.repr value))
  else .ok cleaned

def canonicalEmail (value : Str) : Except Exc Str :=
  match Py.rpartition '@' value with
  | none => .error (ClassName.valueError.exc ("invalid email: ".toList ++ value))
  | some (localPart, domain) => do
      let domain ← canonicalDomain R domain
      return Py.lower R.unicode (localPart ++ '@' :: domain)

def canonicalize (indicatorType : IndicatorType) (value : Str) : Except Exc Str :=
  let raw := Py.strip value
  if raw = [] then .error (ClassName.valueError.exc "empty indicator value".toList)
  else match indicatorType with
    | .ipv4 =>
        match Ipaddress.IPv4Address.parse raw with
        | some address => .ok address.str
        | none => .error (ClassName.addressValueError.exc (R.addressError raw))
    | .ipv6 =>
        match Ipaddress.IPv6Address.parse raw with
        | some address => .ok address.str
        | none => .error (ClassName.addressValueError.exc (R.addressError raw))
    | .domain => canonicalDomain R raw
    | .url => canonicalUrl R raw
    | .sha256 => canonicalHash R .sha256 64 raw
    | .sha1 => canonicalHash R .sha1 40 raw
    | .md5 => canonicalHash R .md5 32 raw
    | .email => canonicalEmail R raw
    | .fileName | .mutex | .registryKey | .yaraRule => .ok (Py.lower R.unicode raw)

/-- The name whose UUID identifies a canonical value. -/
def identityName (indicatorType : IndicatorType) (canonical : Str) : Str :=
  indicatorType.value ++ ':' :: canonical

def indicatorUuid (indicatorType : IndicatorType) (value : Str) : Except Exc Uuid := do
  let canonical ← canonicalize R indicatorType value
  return R.uuid5 ctiNs (identityName indicatorType canonical)

/-- The optional fields that callers pass to `Indicator.build`, and the two readings of
the clock that the defaults take. -/
structure IndicatorFields where
  confidence : Int
  severity : Severity
  tlp : TLP
  tags : List Str
  firstSeenByUs : Int
  lastSeenByUs : Int

/-- `Indicator.build`. Constructing the model strips the value and checks the confidence. -/
def Indicator.build (indicatorType : IndicatorType) (value : Str) (fields : IndicatorFields) :
    Except Exc Indicator := do
  let canonical ← canonicalize R indicatorType value
  let id ← indicatorUuid R indicatorType canonical
  if 0 ≤ fields.confidence ∧ fields.confidence ≤ 100 then
    return { id, type := indicatorType, value := Py.strip canonical, pattern := none,
             confidence := fields.confidence, severity := fields.severity, tlp := fields.tlp,
             tags := fields.tags, firstSeenByUs := fields.firstSeenByUs,
             lastSeenByUs := fields.lastSeenByUs, validFrom := none, validUntil := none,
             schemaVersion := Cti.schemaVersion }
  else .error (ClassName.validationError.exc (R.confidenceError fields.confidence))

end Cti
