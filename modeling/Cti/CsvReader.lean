import Cti.Models
import Mathlib.Algebra.Ring.Nat

set_option autoImplicit false

/- `csv.reader` over a `StringIO`, for dialects without an escape character that are not strict. -/
namespace Csv

open Py (Str)

structure Dialect where
  delimiter : Char
  quotechar : Char

inductive Mode where
  | startRecord
  | startField
  | inField
  | inQuotedField
  | quoteInQuotedField
  | eatCrnl
  deriving DecidableEq

/-- The reader within a row: the fields that it has saved, and the one that it is reading. -/
structure Reader where
  mode : Mode
  field : Str
  fields : List Str

def Reader.empty : Reader := ⟨.startRecord, [], []⟩

/-- A `csv.Error` with its text. -/
structure Error where
  message : Str

/-- `csv.field_size_limit()`. -/
def fieldLimit : Nat := 131072

def Reader.addChar (r : Reader) (mode : Mode) (c : Char) : Except Error Reader :=
  if fieldLimit ≤ r.field.length then .error ⟨"field larger than field limit (131072)".toList⟩
  else .ok ⟨mode, r.field ++ [c], r.fields⟩

def Reader.saveField (r : Reader) (mode : Mode) : Reader := ⟨mode, [], r.fields ++ [r.field]⟩

variable (d : Dialect)

/-- A character at the start of a field. -/
def startField (r : Reader) (c : Char) : Except Error Reader :=
  if c = '\n' ∨ c = '\r' then .ok (r.saveField .eatCrnl)
  else if c = d.quotechar then .ok { r with mode := .inQuotedField }
  else if c = d.delimiter then .ok (r.saveField .startField)
  else r.addChar .inField c

/-- One character. -/
def process (r : Reader) (c : Char) : Except Error Reader :=
  match r.mode with
  | .startRecord =>
      if c = '\n' ∨ c = '\r' then .ok { r with mode := .eatCrnl } else startField d r c
  | .startField => startField d r c
  | .inField =>
      if c = '\n' ∨ c = '\r' then .ok (r.saveField .eatCrnl)
      else if c = d.delimiter then .ok (r.saveField .startField)
      else r.addChar .inField c
  | .inQuotedField =>
      if c = d.quotechar then .ok { r with mode := .quoteInQuotedField }
      else r.addChar .inQuotedField c
  | .quoteInQuotedField =>
      if c = d.quotechar then r.addChar .inQuotedField c
      else if c = d.delimiter then .ok (r.saveField .startField)
      else if c = '\n' ∨ c = '\r' then .ok (r.saveField .eatCrnl)
      else r.addChar .inField c
  | .eatCrnl =>
      if c = '\n' ∨ c = '\r' then .ok r
      else .error ⟨("new-line character seen in unquoted field - " ++
        "do you need to open the file with newline=''?").toList⟩

/-- The end of a line, behind its line feed if it has one. -/
def Reader.endLine (r : Reader) : Reader :=
  match r.mode with
  | .startRecord | .inQuotedField => r
  | .startField | .inField | .quoteInQuotedField => r.saveField .startRecord
  | .eatCrnl => { r with mode := .startRecord }

/-- The end of the text: a row in which a field has begun is kept. -/
def Reader.flush (r : Reader) : List (List Str) :=
  if r.field ≠ [] ∨ r.mode = .inQuotedField then [r.fields ++ [r.field]] else []

/-- The rows of a text that the reader goes on with. `fresh` says that no character of the current
line was read, so that there is no line if the text ends. -/
def readFrom (r : Reader) (fresh : Bool) : Str → Except Error (List (List Str))
  | [] =>
      if fresh then .ok r.flush
      else if r.endLine.mode = .startRecord then .ok [r.endLine.fields]
      else .ok r.endLine.flush
  | c :: text => do
      let r ← process d r c
      if c = '\n' then
        if r.endLine.mode = .startRecord then do
          let rows ← readFrom .empty true text
          return r.endLine.fields :: rows
        else readFrom r.endLine true text
      else readFrom r false text

/-- `list(csv.reader(io.StringIO(text)))`. -/
def rows (text : Str) : Except Error (List (List Str)) := readFrom d .empty true text

variable {d} {r r' : Reader} {c : Char} {text : Str} {fresh : Bool} {out : List (List Str)}

/-- The reader has taken the character in, or has left its fields as they are. -/
inductive Moved (r : Reader) (c : Char) : Reader → Prop
  | kept (mode : Mode) : Moved r c { r with mode := mode }
  | added (mode : Mode) : Moved r c ⟨mode, r.field ++ [c], r.fields⟩
  | saved (mode : Mode) : Moved r c (r.saveField mode)

/-- The line feeds in the fields of a row. -/
def feeds (row : List Str) : Nat := (row.map (List.count '\n')).sum

theorem feeds_append (row more : List Str) : feeds (row ++ more) = feeds row + feeds more := by
  rw [feeds, List.map_append, List.sum_append]
  rfl

theorem feeds_singleton (field : Str) : feeds [field] = field.count '\n' := by
  simp [feeds]

def Reader.feeds (r : Reader) : Nat := Csv.feeds r.fields + r.field.count '\n'

theorem saveField_feeds (r : Reader) (mode : Mode) : (r.saveField mode).feeds = r.feeds := by
  simp only [Reader.feeds, Reader.saveField, feeds_append, feeds_singleton, List.count_nil,
    Nat.add_zero]

theorem Moved.feeds (moved : Moved r c r') : r'.feeds ≤ r.feeds + [c].count '\n' := by
  cases moved with
  | kept mode => exact Nat.le_add_right _ _
  | added mode => simp only [Reader.feeds, List.count_append, Nat.add_assoc, Nat.le_refl]
  | saved mode =>
      rw [saveField_feeds]
      exact Nat.le_add_right _ _

/-- The lines that rows take at least: one for each line feed in them, and one for their end. -/
def lines (out : List (List Str)) : Nat := (out.map fun row => feeds row + 1).sum

/-- The characters of a row. -/
def Within (P : Char → Prop) (row : List Str) : Prop := ∀ field ∈ row, ∀ x ∈ field, P x

theorem within_append {P : Char → Prop} {row more : List Str} :
    Within P (row ++ more) ↔ Within P row ∧ Within P more := List.forall_mem_append

theorem within_singleton {P : Char → Prop} {field : Str} :
    Within P [field] ↔ ∀ x ∈ field, P x := List.forall_mem_singleton

def Reader.Within (P : Char → Prop) (r : Reader) : Prop := Csv.Within P (r.fields ++ [r.field])

theorem saveField_within {P : Char → Prop} (within : r.Within P) (mode : Mode) :
    (r.saveField mode).Within P :=
  within_append.mpr ⟨within, within_singleton.mpr nofun⟩

theorem Moved.within {P : Char → Prop} (moved : Moved r c r') (within : r.Within P) (here : P c) :
    r'.Within P := by
  cases moved with
  | kept mode => exact within
  | added mode =>
      obtain ⟨before, field⟩ := within_append.mp within
      refine within_append.mpr ⟨before, within_singleton.mpr ?_⟩
      exact List.forall_mem_append.mpr
        ⟨within_singleton.mp field, List.forall_mem_singleton.mpr here⟩
  | saved mode => exact saveField_within within mode

/-- The text of a field within quotes: quotes are doubled. -/
def escape (q : Char) (field : Str) : Str := field.flatMap fun c => if c = q then [q, q] else [c]

def quoteField (q : Char) (field : Str) : Str := q :: (escape q field ++ [q])

/-- A record with every field quoted. -/
def writeRow (d : Dialect) (row : List Str) : Str :=
  [d.delimiter].intercalate (row.map (quoteField d.quotechar))

/-- Records with a carriage return and a line feed between them. -/
def write (d : Dialect) (out : List (List Str)) : Str :=
  ['\r', '\n'].intercalate (out.map (writeRow d))

variable {field : Str} {fields : List Str}

end Csv
