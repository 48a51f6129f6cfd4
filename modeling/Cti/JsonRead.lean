import Cti.Normalize

set_option autoImplicit false

/- `json.loads` of a text, read one character at a time. -/
namespace Json

open Py (Str)
open Cti (Val Dict PyFloat)

/-- A `JSONDecodeError`, or the `ValueError` of an integer with too many digits. -/
inductive LoadsError where
  | decode
  | digits
  deriving DecidableEq

/-- Where a value belongs that is being read: to nothing, behind other items of a list, or to a
key behind other entries of an object. -/
inductive Context where
  | top
  | item (items : List Val) (outer : Context)
  | entry (entries : Dict) (key : Str) (outer : Context)

/-- The part of an escape that has been read: nothing, the backslash, or hexadecimal digits. -/
inductive Escape where
  | none
  | backslash
  | hex (count value : Nat)

/-- A string that is being read. `high` is a high surrogate that was just escaped. -/
structure StringRead where
  text : Str
  high : Option Nat
  escape : Escape

inductive NumberPart where
  | minus
  | zero
  | int
  | dot
  | frac
  | e
  | sign
  | exp
  deriving DecidableEq

structure NumberRead where
  part : NumberPart
  text : Str

/-- The values that are written as words. -/
inductive Word where
  | null
  | true
  | false
  | nan
  | infinity
  | minusInfinity

def Word.text : Word → Str
  | .null => "null".toList
  | .true => "true".toList
  | .false => "false".toList
  | .nan => "NaN".toList
  | .infinity => "Infinity".toList
  | .minusInfinity => "-Infinity".toList

def Word.value : Word → Val
  | .null => .none
  | .true => .bool Bool.true
  | .false => .bool Bool.false
  | .nan => .float .nan
  | .infinity => .float (.infinite Bool.false)
  | .minusInfinity => .float (.infinite Bool.true)

/-- What the scanner has read. An entry is kept even if its key occurs again. -/
inductive State where
  | value (context : Context)
  | firstItem (outer : Context)
  | firstKey (outer : Context)
  | key (entries : Dict) (outer : Context)
  | colon (entries : Dict) (key : Str) (outer : Context)
  | afterItem (items : List Val) (outer : Context)
  | afterEntry (entries : Dict) (outer : Context)
  | done (v : Val)
  | string (context : Context) (read : StringRead)
  | keyString (entries : Dict) (outer : Context) (read : StringRead)
  | word (context : Context) (w : Word) (count : Nat)
  | number (context : Context) (read : NumberRead)

def Context.complete : Context → Val → State
  | .top, v => .done v
  | .item items outer, v => .afterItem (items ++ [v]) outer
  | .entry entries key outer, v => .afterEntry (entries ++ [(key, v)]) outer

/-- The white space of the format. -/
def isSpace (c : Char) : Bool := c == ' ' || c == '\t' || c == '\n' || c == '\r'

/-- The first character of a value. -/
def startValue (context : Context) (c : Char) : Except LoadsError State :=
  if c = '"' then .ok (.string context ⟨[], none, .none⟩)
  else if c = '{' then .ok (.firstKey context)
  else if c = '[' then .ok (.firstItem context)
  else if c = 'n' then .ok (.word context .null 1)
  else if c = 't' then .ok (.word context .true 1)
  else if c = 'f' then .ok (.word context .false 1)
  else if c = 'N' then .ok (.word context .nan 1)
  else if c = 'I' then .ok (.word context .infinity 1)
  else if c = '-' then .ok (.number context ⟨.minus, ['-']⟩)
  else if c = '0' then .ok (.number context ⟨.zero, ['0']⟩)
  else if c.isDigit then .ok (.number context ⟨.int, [c]⟩)
  else .error .decode

/-- Stands for a surrogate without its counterpart, which is no Unicode character. -/
def loneSurrogate : Char := '\uFFFD'

/-- The text with a pending surrogate written out. -/
def StringRead.flushed (read : StringRead) : Str :=
  match read.high with
  | some _ => read.text ++ [loneSurrogate]
  | none => read.text

def StringRead.push (read : StringRead) (c : Char) : StringRead :=
  ⟨read.flushed ++ [c], none, .none⟩

/-- An escaped code unit. A low surrogate behind a high one makes a character with it. -/
def StringRead.pushUnit (read : StringRead) (n : Nat) : StringRead :=
  if 0xd800 ≤ n ∧ n < 0xdc00 then ⟨read.flushed, some n, .none⟩
  else if 0xdc00 ≤ n ∧ n < 0xe000 then
    match read.high with
    | some high =>
        ⟨read.text ++ [Char.ofNat (0x10000 + (high - 0xd800) * 1024 + (n - 0xdc00))], none, .none⟩
    | none => read.push loneSurrogate
  else read.push (Char.ofNat n)

def shortEscape (c : Char) : Option Char :=
  if c = '"' then some '"'
  else if c = '\\' then some '\\'
  else if c = '/' then some '/'
  else if c = 'b' then some '\x08'
  else if c = 'f' then some '\x0c'
  else if c = 'n' then some '\n'
  else if c = 'r' then some '\r'
  else if c = 't' then some '\t'
  else none

/-- A character within a string: `none` ends the string. -/
def StringRead.next (read : StringRead) (c : Char) : Except LoadsError (Option StringRead) :=
  match read.escape with
  | .none =>
      if c = '"' then .ok none
      else if c = '\\' then .ok (some { read with escape := .backslash })
      else if c.toNat < 32 then .error .decode
      else .ok (some (read.push c))
  | .backslash =>
      if c = 'u' then .ok (some { read with escape := .hex 0 0 })
      else match shortEscape c with
        | some e => .ok (some (read.push e))
        | none => .error .decode
  | .hex count value =>
      if Ipaddress.isHexDigit c then
        let value := 16 * value + Ipaddress.hexValue c
        if count = 3 then .ok (some (read.pushUnit value))
        else .ok (some { read with escape := .hex (count + 1) value })
      else .error .decode

/-- The part of a number that goes on with a character. -/
def NumberPart.next (part : NumberPart) (c : Char) : Option NumberPart :=
  match part with
  | .minus => if c = '0' then some .zero else if c.isDigit then some .int else none
  | .zero => if c = '.' then some .dot else if c = 'e' ∨ c = 'E' then some .e else none
  | .int =>
      if c.isDigit then some .int else if c = '.' then some .dot
      else if c = 'e' ∨ c = 'E' then some .e else none
  | .dot => if c.isDigit then some .frac else none
  | .frac => if c.isDigit then some .frac else if c = 'e' ∨ c = 'E' then some .e else none
  | .e => if c = '+' ∨ c = '-' then some .sign else if c.isDigit then some .exp else none
  | .sign => if c.isDigit then some .exp else none
  | .exp => if c.isDigit then some .exp else none

variable (parseFloat : Str → PyFloat)

/-- Too many digits for `int`. -/
def tooLong (digits : Str) : Bool := Cti.maxStrDigits < digits.length

/-- The value of a number that ends here. A point or an exponent without digits is not part of
the number before it, and is an error unless that number is one already. -/
def NumberRead.value (read : NumberRead) : Except LoadsError Val :=
  let unsigned := read.text.dropWhile (· == '-')
  let digits := unsigned.takeWhile Char.isDigit
  match read.part with
  | .minus => .error .decode
  | .zero | .int =>
      if tooLong digits then .error .digits
      else
        let n : Int := Nat.ofDigitChars 10 digits 0
        .ok (.int (if read.text.head? = some '-' then -n else n))
  | .frac | .exp => .ok (.float (parseFloat read.text))
  | .dot => if tooLong digits then .error .digits else .error .decode
  | .e | .sign => if tooLong digits ∧ '.' ∉ read.text then .error .digits else .error .decode

/-- What may stand behind a value. -/
def delimit (state : State) (c : Char) : Except LoadsError State :=
  if isSpace c then .ok state
  else match state with
    | .afterItem items outer =>
        if c = ',' then .ok (.value (.item items outer))
        else if c = ']' then .ok (outer.complete (.list items))
        else .error .decode
    | .afterEntry entries outer =>
        if c = ',' then .ok (.key entries outer)
        else if c = '}' then .ok (outer.complete (.dict entries))
        else .error .decode
    | _ => .error .decode

/-- One character. -/
def step (state : State) (c : Char) : Except LoadsError State :=
  match state with
  | .value context => if isSpace c then .ok state else startValue context c
  | .firstItem outer =>
      if isSpace c then .ok state
      else if c = ']' then .ok (outer.complete (.list []))
      else startValue (.item [] outer) c
  | .firstKey outer =>
      if isSpace c then .ok state
      else if c = '}' then .ok (outer.complete (.dict []))
      else if c = '"' then .ok (.keyString [] outer ⟨[], none, .none⟩)
      else .error .decode
  | .key entries outer =>
      if isSpace c then .ok state
      else if c = '"' then .ok (.keyString entries outer ⟨[], none, .none⟩)
      else .error .decode
  | .colon entries key outer =>
      if isSpace c then .ok state
      else if c = ':' then .ok (.value (.entry entries key outer))
      else .error .decode
  | .afterItem .. | .afterEntry .. | .done _ => delimit state c
  | .string context read => do
      match ← read.next c with
      | some read => return .string context read
      | none => return context.complete (.str read.flushed)
  | .keyString entries outer read => do
      match ← read.next c with
      | some read => return .keyString entries outer read
      | none => return .colon entries read.flushed outer
  | .word context w count =>
      if w.text[count]? = some c then
        .ok (if count + 1 = w.text.length then context.complete w.value
          else .word context w (count + 1))
      else .error .decode
  | .number context read =>
      if read.part = .minus ∧ c = 'I' then .ok (.word context .minusInfinity 2)
      else match read.part.next c with
        | some part => .ok (.number context ⟨part, read.text ++ [c]⟩)
        | none => do
            let v ← read.value parseFloat
            delimit (context.complete v) c

/-- The end of the text. -/
def finish : State → Except LoadsError Val
  | .done v => .ok v
  | .number .top read => read.value parseFloat
  | .number _ read => do
      let _ ← read.value parseFloat
      .error .decode
  | _ => .error .decode

def run (state : State) (s : Str) : Except LoadsError State := s.foldlM (step parseFloat) state

/-- The value of a text, with the entries of its objects as they were read. -/
def scan (s : Str) : Except LoadsError Val := do
  let state ← run parseFloat (.value .top) s
  finish parseFloat state

mutual

/-- The value with objects as dicts: of entries with one key the last counts. -/
def collapse : Val → Val
  | .list items => .list (collapseItems items)
  | .dict entries => .dict (collapseEntries [] entries)
  | v => v

def collapseItems : List Val → List Val
  | [] => []
  | item :: items => collapse item :: collapseItems items

def collapseEntries (dict : Dict) : List (Str × Val) → Dict
  | [] => dict
  | (key, v) :: entries => collapseEntries (dict.set key (collapse v)) entries

end

/-- `json.loads`. -/
def loads (s : Str) : Except LoadsError Val := do
  let v ← scan parseFloat s
  return collapse v

end Json
