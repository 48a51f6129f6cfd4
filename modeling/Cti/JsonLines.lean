import Cti.JsonParser
import Cti.JsonRoundtrip

set_option autoImplicit false

/- What the JSON parser makes of documents and lines that `json.dumps` has written. -/
namespace Cti

open Py (Str)
open Json (Storable StorableItems StorableEntries)

/-- `json.dumps` without options. -/
def JsonStyle.default : JsonStyle where
  ensureAscii := true
  indent := none
  itemSeparator := ", ".toList
  keySeparator := ": ".toList

theorem default_lawful : Json.Lawful .default where
  item := ⟨[], [' '], rfl, by simp, by simp [Json.isSpace]⟩
  key := ⟨[], [' '], rfl, by simp, by simp [Json.isSpace]⟩

section printed

/-- The printed characters of ASCII. -/
def isPrinted (c : Char) : Bool := 32 ≤ c.toNat && c.toNat < 127

def Printed (s : Str) : Prop := ∀ c ∈ s, isPrinted c = true

theorem Printed.append {s t : Str} (first : Printed s) (second : Printed t) :
    Printed (s ++ t) := by
  intro c member
  rcases List.mem_append.mp member with here | there
  · exact first c here
  · exact second c there

theorem Printed.cons {c : Char} {s : Str} (first : isPrinted c = true) (rest : Printed s) :
    Printed (c :: s) :=
  List.forall_mem_cons.mpr ⟨first, rest⟩

theorem printed_nil : Printed [] := fun _ member => (List.not_mem_nil member).elim

theorem digit_printed {c : Char} (digit : c.isDigit = true) : isPrinted c = true := by
  simp only [Char.isDigit, Bool.and_eq_true, decide_eq_true_eq, UInt32.le_iff_toNat_le] at digit
  have low : 48 ≤ c.toNat := digit.1
  have high : c.toNat ≤ 57 := digit.2
  simp only [isPrinted, Bool.and_eq_true, decide_eq_true_eq]
  omega

theorem hexDigit_printed (n : Nat) : isPrinted (hexDigit n) = true := by
  have table : ∀ i < 16, isPrinted (Nat.digitChar i) = true := by decide
  exact table _ (Nat.mod_lt n (by decide))

theorem unicodeEscape_printed (n : Nat) : Printed (unicodeEscape n) := by
  unfold unicodeEscape hex4
  refine .cons (by decide) (.cons (by decide) ?_)
  exact .cons (hexDigit_printed _) (.cons (hexDigit_printed _)
    (.cons (hexDigit_printed _) (.cons (hexDigit_printed _) printed_nil)))

theorem shortEscape_printed {c e : Char} (escape : shortEscape c = some e) :
    isPrinted e = true := by
  unfold shortEscape at escape
  split at escape <;> cases escape <;> decide

theorem jsonChar_printed (c : Char) : Printed (jsonChar true c) := by
  unfold jsonChar
  split
  · rename_i e escape
    exact .cons (by decide) (.cons (shortEscape_printed escape) printed_nil)
  · dsimp only
    split
    · split
      · exact unicodeEscape_printed _
      · exact (unicodeEscape_printed _).append (unicodeEscape_printed _)
    · rename_i kept
      refine .cons ?_ printed_nil
      simp only [Bool.true_and, Bool.or_eq_true, decide_eq_true_eq, not_or] at kept
      simp only [isPrinted, Bool.and_eq_true, decide_eq_true_eq]
      omega

theorem jsonString_printed (s : Str) : Printed (jsonString true s) := by
  refine .cons (by decide) ?_
  induction s with
  | nil => exact .cons (by decide) printed_nil
  | cons c s ih => exact (jsonChar_printed c).append ih

theorem part_printed {c : Char} {part part' : Json.NumberPart} (goes : part.next c = some part') :
    isPrinted c = true := by
  have known : c.isDigit = true ∨ c ∈ "0.eE+-".toList := by
    cases part <;> simp only [Json.NumberPart.next] at goes <;> grind
  rcases known with digit | symbol
  · exact digit_printed digit
  · exact Py.forall_mem_of_all (P := fun c => isPrinted c = true) (by decide) c symbol

theorem nexts_printed {s : Str} {part part' : Json.NumberPart} (goes : part.nexts s = some part') :
    Printed s := by
  induction s generalizing part with
  | nil => exact printed_nil
  | cons c s ih =>
      rw [Json.NumberPart.nexts] at goes
      split at goes
      · rename_i middle next
        exact .cons (part_printed next) (ih goes)
      · cases goes

theorem numberPart_printed {s : Str} {part : Json.NumberPart}
    (form : Json.numberPart s = some part) : Printed s := by
  cases s with
  | nil => exact printed_nil
  | cons c s =>
      rw [Json.numberPart] at form
      split at form
      · rename_i first starts
        refine .cons ?_ (nexts_printed form)
        unfold Json.NumberPart.start at starts
        split at starts
        · rename_i minus
          rw [minus]
          decide
        · exact part_printed starts
      · cases form

theorem word_printed (w : Json.Word) : Printed w.text := by
  apply Py.forall_mem_of_all
  cases w <;> decide

variable {parseFloat : Str → PyFloat}

theorem float_printed {f : PyFloat} (reads : Json.FloatReads parseFloat f) :
    Printed f.jsonText := by
  cases f with
  | finite value text =>
      obtain ⟨part, ends, _⟩ := Json.isFloatText_value parseFloat reads.1
      exact numberPart_printed ends
  | infinite negative =>
      cases negative with
      | true => exact word_printed .minusInfinity
      | false => exact word_printed .infinity
  | nan => exact word_printed .nan

theorem separator_printed : Printed JsonStyle.default.itemSeparator ∧
    Printed JsonStyle.default.keySeparator :=
  ⟨Py.forall_mem_of_all (by decide), Py.forall_mem_of_all (by decide)⟩

theorem newline_printed (depth : Nat) : Printed (JsonStyle.default.newline depth) := printed_nil

mutual

/-- Nothing but printed ASCII is written. -/
theorem dumps_printed : ∀ (v : Val) (depth : Nat), Storable parseFloat v →
    Printed (dumps .default depth v)
  | .none, _, _ => word_printed .null
  | .bool true, _, _ => word_printed .true
  | .bool false, _, _ => word_printed .false
  | .int n, _, _ => numberPart_printed (Json.numberPart_decimalText n)
  | .float _, _, reads => float_printed reads
  | .str s, _, _ => jsonString_printed s
  | .list [], _, _ => .cons (by decide) (.cons (by decide) printed_nil)
  | .list (item :: items), depth, storable => by
      rw [dumps]
      refine .cons (by decide) ((newline_printed _).append ?_)
      exact (dumps_printed item _ storable.1).append (dumpsItems_printed items depth storable.2)
  | .dict [], _, _ => .cons (by decide) (.cons (by decide) printed_nil)
  | .dict ((key, value) :: entries), depth, storable => by
      rw [dumps]
      refine .cons (by decide) ((newline_printed _).append ((jsonString_printed key).append ?_))
      refine separator_printed.2.append ((dumps_printed value _ storable.2.1).append ?_)
      exact dumpsEntries_printed entries depth storable.2.2

theorem dumpsItems_printed : ∀ (items : List Val) (depth : Nat),
    StorableItems parseFloat items → Printed (dumpsItems .default depth items)
  | [], depth, _ => by
      rw [dumpsItems]
      exact (newline_printed depth).append (.cons (by decide) printed_nil)
  | item :: items, depth, storable => by
      rw [dumpsItems]
      refine separator_printed.1.append ((newline_printed _).append ?_)
      exact (dumps_printed item _ storable.1).append (dumpsItems_printed items depth storable.2)

theorem dumpsEntries_printed : ∀ (entries : Dict) (depth : Nat),
    StorableEntries parseFloat entries → Printed (dumpsEntries .default depth entries)
  | [], depth, _ => by
      rw [dumpsEntries]
      exact (newline_printed depth).append (.cons (by decide) printed_nil)
  | (key, value) :: entries, depth, storable => by
      rw [dumpsEntries]
      refine separator_printed.1.append ((newline_printed _).append ?_)
      refine (jsonString_printed key).append (separator_printed.2.append ?_)
      exact (dumps_printed value _ storable.1).append (dumpsEntries_printed entries depth storable.2)

end

end printed

namespace JsonParser

variable {J : JsonCodecs} {config : JsonParserConfig} {payload : RawPayload}

/-- The text of a record in a line of its own. -/
def recordText (record : Record) : Str := dumps .default 0 (.dict record)

theorem serialized_dumps {record : Record} (storable : Storable J.parseFloat (.dict record)) :
    Serialized J record (recordText record) ∧
      ∀ c ∈ recordText record, isSeparator c = false := by
  have printed := dumps_printed (.dict record) 0 storable
  have other : ∀ c, isPrinted c = false → c ∉ recordText record := by
    intro c blank member
    rw [printed c member] at blank
    cases blank
  constructor
  · constructor
    · exact Json.loads_dumps default_lawful storable 0
    · exact other '\n' (by decide)
    · exact other '\r' (by decide)
  · intro c member
    have shown := printed c member
    rw [Bool.eq_false_iff]
    intro separator
    simp only [isSeparator, Bool.or_eq_true, beq_iff_eq] at separator
    rcases separator with (rfl | rfl) | rfl <;> cases shown

/-- Records that JSON can hold, written one a line by `json.dumps`, are read back as they
were. -/
theorem ndjson_dumps {records : List Record} (ndjson : config.ndjson = true)
    (utf8 : config.encoding = "utf-8".toList)
    (storable : ∀ record ∈ records, Storable J.parseFloat (.dict record))
    (encoded : payload.body = Py.utf8Encode (['\n'].intercalate (records.map recordText))) :
    parseSync J config payload = .ok records := by
  have texts := fun record member => serialized_dumps (storable record member)
  rw [parseSync_lines ndjson utf8 encoded]
  · exact read_all (fun record member => (texts record member).1)
      fun record member => (texts record member).2
  · intro text member
    obtain ⟨record, inside, rfl⟩ := List.mem_map.mp member
    exact ⟨record, (texts record inside).1⟩

theorem ndjson_dumps_example :
    let records : List Record :=
      [[("a\n".toList, .str "\u2028 \"é😀\"".toList), ("n".toList, .int (-7))],
        [("items".toList, .list [.none, .bool true, .dict []])]]
    parseSync utf8Codecs ⟨true, none, "utf-8".toList⟩
      (.ofBody (Py.utf8Encode (['\n'].intercalate (records.map recordText)))) = .ok records := by
  apply ndjson_dumps rfl rfl ?_ rfl
  rw [List.forall_mem_cons, List.forall_mem_singleton]
  constructor
  · have small : (Nat.toDigits 10 7).length ≤ maxStrDigits := by decide
    exact ⟨by decide, trivial, small, trivial⟩
  · exact ⟨by decide, ⟨trivial, trivial, ⟨by decide, trivial⟩, trivial⟩, trivial⟩

end JsonParser

end Cti
