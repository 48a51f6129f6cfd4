import Cti.PyText

set_option autoImplicit false

/- The record types that flow through the pipeline, and its exceptions. -/
namespace Cti

open Py (Str)

abbrev Uuid := Nat

inductive IndicatorType where
  | ipv4
  | ipv6
  | domain
  | url
  | sha256
  | sha1
  | md5
  | email
  | fileName
  | mutex
  | registryKey
  | yaraRule
  deriving DecidableEq

def IndicatorType.value : IndicatorType → Str
  | .ipv4 => "ipv4".toList
  | .ipv6 => "ipv6".toList
  | .domain => "domain".toList
  | .url => "url".toList
  | .sha256 => "sha256".toList
  | .sha1 => "sha1".toList
  | .md5 => "md5".toList
  | .email => "email".toList
  | .fileName => "file_name".toList
  | .mutex => "mutex".toList
  | .registryKey => "registry_key".toList
  | .yaraRule => "yara_rule".toList

def IndicatorType.all : List IndicatorType :=
  [.ipv4, .ipv6, .domain, .url, .sha256, .sha1, .md5, .email, .fileName, .mutex, .registryKey,
    .yaraRule]

inductive TLP where
  | clear
  | green
  | amber
  | amberStrict
  | red
  deriving DecidableEq

inductive Severity where
  | info
  | low
  | medium
  | high
  | critical
  deriving DecidableEq

inductive RunState where
  | pending
  | running
  | success
  | partialSuccess
  | failed
  deriving DecidableEq

/-- The exception classes that the code names, and any other one by its name. -/
inductive ClassName where
  | baseException
  | exception
  | cancelledError
  | valueError
  | addressValueError
  | validationError
  | typeError
  | overflowError
  | attributeError
  | ctiError
  | transientError
  | rateLimited
  | permanentError
  | circuitOpen
  | pluginError
  | pluginConfigError
  | pluginLoadError
  | egressBlocked
  | tlpViolation
  | watermarkConflict
  | other (name : Str)
  deriving DecidableEq

/-- A class with everything it inherits from. Nothing is said about the bases of a class
that the code does not name. -/
def ClassName.mro : ClassName → List ClassName
  | .baseException => [.baseException]
  | .exception => [.exception, .baseException]
  | .cancelledError => [.cancelledError, .baseException]
  | .valueError => [.valueError, .exception, .baseException]
  | .addressValueError => [.addressValueError, .valueError, .exception, .baseException]
  | .validationError => [.validationError, .valueError, .exception, .baseException]
  | .typeError => [.typeError, .exception, .baseException]
  | .overflowError => [.overflowError, .exception, .baseException]
  | .attributeError => [.attributeError, .exception, .baseException]
  | .ctiError => [.ctiError, .exception, .baseException]
  | .transientError => [.transientError, .ctiError, .exception, .baseException]
  | .rateLimited => [.rateLimited, .transientError, .ctiError, .exception, .baseException]
  | .permanentError => [.permanentError, .ctiError, .exception, .baseException]
  | .circuitOpen => [.circuitOpen, .transientError, .ctiError, .exception, .baseException]
  | .pluginError => [.pluginError, .ctiError, .exception, .baseException]
  | .pluginConfigError =>
      [.pluginConfigError, .pluginError, .permanentError, .ctiError, .exception, .baseException]
  | .pluginLoadError => [.pluginLoadError, .pluginError, .ctiError, .exception, .baseException]
  | .egressBlocked => [.egressBlocked, .permanentError, .ctiError, .exception, .baseException]
  | .tlpViolation => [.tlpViolation, .permanentError, .ctiError, .exception, .baseException]
  | .watermarkConflict => [.watermarkConflict, .ctiError, .exception, .baseException]
  | .other name => [.other name, .baseException]

/-- The class of an exception, shipped or defined by a plugin: whatever it inherits from
brings its own bases along. -/
structure ExcClass where
  mro : List ClassName
  closed : ∀ c ∈ mro, ∀ base ∈ c.mro, base ∈ mro

theorem ClassName.mro_closed (c : ClassName) : ∀ d ∈ c.mro, ∀ base ∈ d.mro, base ∈ c.mro := by
  cases c with
  | other name => simp [ClassName.mro]
  | _ => decide

def ClassName.toClass (c : ClassName) : ExcClass := ⟨c.mro, c.mro_closed⟩

structure Exc where
  cls : ExcClass
  message : Str

/-- `isinstance`. -/
def Exc.isA (e : Exc) (c : ClassName) : Bool := e.cls.mro.contains c

def ClassName.exc (c : ClassName) (message : Str) : Exc := ⟨c.toClass, message⟩

theorem Exc.isA_of_mro {e : Exc} {c base : ClassName} (inherits : base ∈ c.mro)
    (member : e.isA c = true) : e.isA base = true := by
  simp only [isA, List.contains_iff_mem] at member ⊢
  exact e.cls.closed c member base inherits

theorem Exc.not_isA_of_mro {e : Exc} {c base : ClassName} (inherits : base ∈ c.mro)
    (foreign : e.isA base = false) : e.isA c = false := by
  by_contra member
  have inherited := Exc.isA_of_mro inherits (by simpa using member)
  rw [foreign] at inherited
  cases inherited

@[simp] theorem ClassName.isA_exc (c d : ClassName) (message : Str) :
    (c.exc message).isA d = c.mro.contains d := rfl

theorem bind_ok {ε α β : Type} {x : Except ε α} {f : α → Except ε β} {b : β} :
    x >>= f = .ok b ↔ ∃ a, x = .ok a ∧ f a = .ok b := by
  cases x with
  | error e => simp [bind, Except.bind]
  | ok a => simp [bind, Except.bind]

/-- Whatever is in the results comes from one of the calls. -/
theorem mem_mapM_ok {α β : Type} {f : α → Except Exc β} {names : List α} {out : List β}
    (loaded : names.mapM f = .ok out) : ∀ b ∈ out, ∃ name ∈ names, f name = .ok b := by
  induction names generalizing out with
  | nil =>
      cases loaded
      exact fun _ member => (List.not_mem_nil member).elim
  | cons name names ih =>
      rw [List.mapM_cons] at loaded
      obtain ⟨head, first, loaded⟩ := bind_ok.mp loaded
      obtain ⟨tail, rest, loaded⟩ := bind_ok.mp loaded
      cases loaded
      intro b member
      rcases List.mem_cons.mp member with rfl | member
      · exact ⟨name, List.mem_cons_self, first⟩
      · obtain ⟨other, inside, found⟩ := ih rest b member
        exact ⟨other, List.mem_cons_of_mem name inside, found⟩

/-- An exception or a nonempty group of exceptions. -/
inductive ExcTree where
  | leaf (e : Exc)
  | group (message : Str) (head : ExcTree) (tail : List ExcTree)

mutual

/-- `_flatten`: the exceptions of a tree that are no groups, in order. -/
def ExcTree.flatten : ExcTree → List Exc
  | .leaf e => [e]
  | .group _ head tail => head.flatten ++ ExcTree.flattenAll tail

def ExcTree.flattenAll : List ExcTree → List Exc
  | [] => []
  | tree :: rest => tree.flatten ++ ExcTree.flattenAll rest

end

theorem ExcTree.flatten_ne_nil (tree : ExcTree) : tree.flatten ≠ [] := by
  match tree with
  | .leaf e => simp [flatten]
  | .group message head tail => simp [flatten, flatten_ne_nil head]

/-- A Python float: a finite value with the text that `repr` gives it, an infinity, or not
a number. -/
inductive PyFloat where
  | finite (value : Rat) (text : Str)
  | infinite (negative : Bool)
  | nan

/-- A value of a record. -/
inductive Val where
  | none
  | bool (b : Bool)
  | int (n : Int)
  | float (f : PyFloat)
  | str (s : Str)
  | list (items : List Val)
  | dict (entries : List (Str × Val))

/-- A Python `dict` with string keys, in insertion order. -/
abbrev Dict := List (Str × Val)

abbrev Record := Dict

def Dict.get (d : Dict) (key : Str) : Option Val := d.lookup key

/-- Assignment replaces the value of a key in place and appends a new key. -/
def Dict.set (d : Dict) (key : Str) (value : Val) : Dict :=
  if (d.lookup key).isSome then
    d.map fun entry => if entry.1 = key then (key, value) else entry
  else d ++ [(key, value)]

structure RawPayload where
  body : List UInt8
  contentType : Str
  headers : List (Str × Str)
  fetchedAt : Int
  etag : Option Str
  lastModified : Option Str
  sourceUrl : Option Str

structure RunContext where
  runId : Uuid
  sourceId : Str
  watermark : Dict
  rawUri : Option Str

structure Indicator where
  id : Uuid
  type : IndicatorType
  value : Str
  pattern : Option Str
  confidence : Int
  severity : Severity
  tlp : TLP
  tags : List Str
  firstSeenByUs : Int
  lastSeenByUs : Int
  validFrom : Option Int
  validUntil : Option Int
  schemaVersion : Str
  deriving DecidableEq

structure Observation where
  indicatorId : Uuid
  sourceId : Str
  feedRunId : Uuid
  observedAt : Int
  tlp : TLP
  confidence : Int
  raw : Record
  schemaVersion : Str

structure RunResult where
  runId : Uuid
  sourceId : Str
  state : RunState
  startedAt : Int
  finishedAt : Int
  fetchedBytes : Int
  recordsIn : Int
  recordsOut : Int
  error : Option Str
  watermark : Dict
  rawUri : Option Str

def schemaVersion : Str := "1".toList

end Cti
