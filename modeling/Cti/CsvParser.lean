import Cti.CsvReader
import Cti.PyBytes
import Mathlib.Algebra.Order.BigOperators.Group.List
import Mathlib.Algebra.Order.Group.Nat
import Mathlib.Data.List.Nodup
import Mathlib.Data.List.Perm.Subperm

set_option autoImplicit false

/- The parser for CSV files. -/
namespace Cti

open Py (Str)

structure CsvParserConfig where
  delimiter : Str
  quotechar : Str
  hasHeader : Bool
  skipCommentPrefix : Str
  fieldNames : List Str
  encoding : Str

/-- The values that the fields of the model default to. -/
def CsvParserConfig.default : CsvParserConfig where
  delimiter := ",".toList
  quotechar := "\"".toList
  hasHeader := true
  skipCommentPrefix := "#".toList
  fieldNames := []
  encoding := "utf-8".toList

namespace CsvParser

/-- `dict(zip(header, cells))`. -/
def dictZip (header cells : List Str) : Record :=
  (header.zip cells).foldl (fun dict entry => Dict.set dict entry.1 (.str entry.2)) []

/-- Blank lines and comments are left out. -/
def keepLine (config : CsvParserConfig) (line : Str) : Bool :=
  decide (line ≠ []) && !config.skipCommentPrefix.isPrefixOf line

/-- The names of the columns, and the rows below them. -/
def headerOf (config : CsvParserConfig) (first : List Str) (rest : List (List Str)) :
    List Str × List (List Str) :=
  if config.hasHeader then (first.map Py.strip, rest)
  else if config.fieldNames ≠ [] then (config.fieldNames, first :: rest)
  else ((List.range first.length).map fun i => "col".toList ++ Nat.toDigits 10 i, first :: rest)

def records (config : CsvParserConfig) : List (List Str) → List Record
  | [] => []
  | first :: rest =>
      let (header, data) := headerOf config first rest
      (data.filter (· ≠ [])).map fun row => dictZip header (row.map Py.strip)

/-- The dialect of the reader, which takes single characters only. -/
def dialect (config : CsvParserConfig) : Except Exc Csv.Dialect :=
  match config.delimiter, config.quotechar with
  | [delimiter], [quotechar] => .ok ⟨delimiter, quotechar⟩
  | [_], _ => .error (ClassName.typeError.exc "\"quotechar\" must be a 1-character string".toList)
  | _, _ => .error (ClassName.typeError.exc "\"delimiter\" must be a 1-character string".toList)

/-- `CsvParser.parse_sync`. -/
def parseSync (C : TextCodecs) (config : CsvParserConfig) (payload : RawPayload) :
    Except Exc (List Record) :=
  match C.bytesDecode config.encoding payload.body with
  | .error (.unicode message) =>
      .error (ClassName.permanentError.exc ("csv decode error: ".toList ++ message))
  | .error (.other e) => .error e
  | .ok text => do
      let lines := (Py.splitlines text).filter (keepLine config)
      let d ← dialect config
      match Csv.rows d (['\n'].intercalate lines) with
      | .error e => .error ((ClassName.other "_csv.Error".toList).exc e.message)
      | .ok rows => return records config rows

variable {C : TextCodecs} {config : CsvParserConfig} {payload : RawPayload} {text : Str}
  {out : List Record}

/-- The first characters of a line that is left out, of those that have a character. -/
def Dropped (head : Option Char) : Prop := head = some '\n' ∨ head = some '#'

/-- Behind a line feed there is neither a blank line nor a comment. -/
def Follows (s : Str) : Prop := ∀ front back, s = front ++ '\n' :: back → ¬ Dropped back.head?

/-- A line that is not left out. -/
def Kept (line : Str) : Prop := line ≠ [] ∧ line.head? ≠ some '#'

/-- What a name or a cell has to be to get through: only line feeds end lines of it, and behind none
of them is a blank line or a comment. -/
structure Survives (s : Str) : Prop where
  feeds : Py.OnlyFeeds s
  follows : Follows s

variable {header : List Str} {rows : List (List Str)}

end CsvParser

end Cti
