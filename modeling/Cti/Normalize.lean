import Cti.Hashing

set_option autoImplicit false

namespace Cti

open Py (Str Unicode)

/-- `bool(value)`. -/
def Val.truthy : Val → Bool
  | .none => false
  | .bool b => b
  | .int n => n ≠ 0
  | .float (.finite value _) => value ≠ 0
  | .float _ => true
  | .str s => s ≠ []
  | .list items => !items.isEmpty
  | .dict entries => !entries.isEmpty

def decimalText (n : Int) : Str :=
  if n < 0 then '-' :: Nat.toDigits 10 n.natAbs else Nat.toDigits 10 n.natAbs

def PyFloat.text : PyFloat → Str
  | .finite _ text => text
  | .infinite negative => if negative then "-inf".toList else "inf".toList
  | .nan => "nan".toList

/-- `type(value).__name__`. -/
def Val.typeName : Val → Str
  | .none => "NoneType".toList
  | .bool _ => "bool".toList
  | .int _ => "int".toList
  | .float _ => "float".toList
  | .str _ => "str".toList
  | .list _ => "list".toList
  | .dict _ => "dict".toList

variable (R : Runtime)

mutual

/-- `repr(value)`. -/
def Val.repr : Val → Str
  | .none => "None".toList
  | .bool b => if b then "True".toList else "False".toList
  | .int n => decimalText n
  | .float f => f.text
  | .str s => R.repr s
  | .list items => '[' :: ", ".toList.intercalate (Val.reprItems items) ++ [']']
  | .dict entries => '{' :: ", ".toList.intercalate (Val.reprEntries entries) ++ ['}']

def Val.reprItems : List Val → List Str
  | [] => []
  | item :: items => item.repr :: Val.reprItems items

def Val.reprEntries : List (Str × Val) → List Str
  | [] => []
  | (key, value) :: entries =>
      (R.repr key ++ ": ".toList ++ value.repr) :: Val.reprEntries entries

end

/-- `str(value)`. -/
def Val.text : Val → Str
  | .str s => s
  | value => value.repr R

/-- The digits of an integer literal, with single underscores between digits. `none` is
any other text. -/
def digitsValue (U : Unicode) : Option Nat → Str → Option Nat
  | sofar, [] => sofar
  | some sofar, '_' :: c :: rest =>
      match U.decimal c with
      | some d => digitsValue U (some (10 * sofar + d)) rest
      | none => none
  | sofar, c :: rest =>
      match U.decimal c with
      | some d => digitsValue U (some (10 * sofar.getD 0 + d)) rest
      | none => none

/-- The most digits that `int` converts. -/
def maxStrDigits : Nat := 4300

/-- `int(text)`; `none` is a `ValueError`. -/
def intOfStr (U : Unicode) (text : Str) : Option Int :=
  let (negative, digits) := match Py.strip text with
    | '-' :: digits => (true, digits)
    | '+' :: digits => (false, digits)
    | digits => (false, digits)
  if (digits.filter (· != '_')).length > maxStrDigits then none
  else (digitsValue U none digits).map fun n => if negative then -(n : Int) else n

/-- `int(value)`. -/
def intOf (U : Unicode) : Val → Except Exc Int
  | .bool b => .ok (if b then 1 else 0)
  | .int n => .ok n
  | .float (.finite value _) => .ok (value.num.tdiv value.den)
  | .float (.infinite _) =>
      .error (ClassName.overflowError.exc "cannot convert float infinity to integer".toList)
  | .float .nan => .error (ClassName.valueError.exc "cannot convert float NaN to integer".toList)
  | .str s =>
      match intOfStr U s with
      | some n => .ok n
      | none => .error (ClassName.valueError.exc
          ("invalid literal for int() with base 10: ".toList ++ R.repr s))
  | value => .error (ClassName.typeError.exc
      ("int() argument must be a string, a bytes-like object or a real number, not ".toList ++
        R.repr value.typeName))

structure NormalizeConfig where
  indicatorType : Option IndicatorType
  typeField : Option Str
  valueField : Str
  confidenceDefault : Int
  confidenceField : Option Str
  severityDefault : Severity
  tlpDefault : TLP
  staticTags : List Str
  tagsField : Option Str
  skipOnError : Bool

/-- The defaults of `NormalizeConfig`. -/
def NormalizeConfig.default : NormalizeConfig where
  indicatorType := none
  typeField := none
  valueField := "value".toList
  confidenceDefault := 50
  confidenceField := none
  severityDefault := .info
  tlpDefault := .amber
  staticTags := []
  tagsField := none
  skipOnError := true

def coerceType (raw : Str) : Except Exc IndicatorType :=
  match IndicatorType.all.find? fun t => t.value = Py.lower R.unicode raw with
  | some t => .ok t
  | none => .error (ClassName.permanentError.exc
      ("unknown indicator type: ".toList ++ R.repr raw))

/-- An optional field name that is set, not empty, and a key of the record. -/
def fieldValue (record : Record) (field : Option Str) : Option Val :=
  match field with
  | some name => if name = [] then none else record.get name
  | none => none

/-- The configured confidence, if the record has one that reads as an integer. -/
def recordConfidence (record : Record) (cfg : NormalizeConfig) : Except Exc Int :=
  match fieldValue record cfg.confidenceField with
  | none => .ok cfg.confidenceDefault
  | some value =>
      match intOf R R.unicode value with
      | .ok n => .ok n
      | .error e =>
          if e.isA .typeError || e.isA .valueError then .ok cfg.confidenceDefault else .error e

def recordTags (record : Record) (cfg : NormalizeConfig) : List Str :=
  cfg.staticTags ++ match fieldValue record cfg.tagsField with
    | some (.list items) => items.map (Val.text R)
    | some (.str s) => ((s.splitOn ',').map Py.strip).filter (· ≠ [])
    | _ => []

/-- The type of a record's indicator: `none` drops the record. -/
def recordType (record : Record) (cfg : NormalizeConfig) : Except Exc (Option IndicatorType) :=
  match cfg.typeField with
  | some field =>
      match record.get field with
      | some value =>
          if value.truthy then do
            let t ← coerceType R (value.text R)
            return some t
          else .ok none
      | none => .ok none
  | none =>
      match cfg.indicatorType with
      | some t => .ok (some t)
      | none => .error (ClassName.permanentError.exc
          "normalize: indicator_type or type_field must be set".toList)

/-- A record value that is neither missing, nor `None`, nor an empty string. -/
def recordValue (record : Record) (cfg : NormalizeConfig) : Option Val :=
  match record.get cfg.valueField with
  | some .none => none
  | some (.str []) => none
  | some value => some value
  | none => none

/-- `_record_to_indicator`, at two readings of the clock. -/
def recordToIndicator (record : Record) (cfg : NormalizeConfig) (firstSeen lastSeen : Int) :
    Except Exc (Option Indicator) := do
  match ← recordType R record cfg with
  | none => return none
  | some t =>
      match recordValue record cfg with
      | none => return none
      | some value =>
          let confidence ← recordConfidence R record cfg
          let ind ← Indicator.build R t (value.text R)
            { confidence, severity := cfg.severityDefault, tlp := cfg.tlpDefault,
              tags := (recordTags R record cfg).eraseDups, firstSeenByUs := firstSeen,
              lastSeenByUs := lastSeen }
          return some ind

/-- What `run_normalize` makes of one record: `none` skips it. -/
def normalizeRecord (record : Record) (cfg : NormalizeConfig) (firstSeen lastSeen : Int) :
    Except Exc (Option Indicator) :=
  match recordToIndicator R record cfg firstSeen lastSeen with
  | .ok result => .ok result
  | .error e =>
      if (e.isA .valueError || e.isA .permanentError) && cfg.skipOnError then .ok none
      else .error e

end Cti
