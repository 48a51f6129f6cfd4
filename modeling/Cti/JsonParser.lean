import Cti.JsonRuns
import Cti.PyBytes

set_option autoImplicit false

/- The parser for JSON documents and for files with one JSON object a line. -/
namespace Cti

open Py (Str)

structure JsonParserConfig where
  ndjson : Bool
  rootPath : Option Str
  encoding : Str

/-- The values that the fields of the model default to. -/
def JsonParserConfig.default : JsonParserConfig := ⟨false, none, "utf-8".toList⟩

/-- What the parser takes from Python: codecs, the floats that are written as a text, and the
texts of the errors of `json.loads`. -/
structure JsonCodecs extends TextCodecs where
  parseFloat : Str → PyFloat
  decodeError : Str → Str
  digitsError : Str → Str

def resolveParts : Val → List Str → Val
  | cur, [] => cur
  | .dict entries, part :: parts => resolveParts ((Dict.get entries part).getD .none) parts
  | _, _ :: _ => .none

/-- `_resolve_path`. -/
def resolvePath (doc : Val) (path : Option Str) : Val :=
  match path with
  | none => doc
  | some path => if path = [] then doc else resolveParts doc (path.splitOn '.')

/-- `isinstance(item, dict)`. -/
def Val.record? : Val → Option Record
  | .dict entries => some entries
  | _ => Option.none

namespace JsonParser

variable (J : JsonCodecs)

/-- What is read of a line. Lines that cannot be decoded are skipped, but only `JSONDecodeError`
is caught. -/
def lineRecord (line : Str) : Except Exc (Option Record) :=
  let line := Py.strip line
  if line = [] then .ok none
  else match Json.loads J.parseFloat line with
    | .ok obj => .ok obj.record?
    | .error .decode => .ok none
    | .error .digits => .error (ClassName.valueError.exc (J.digitsError line))

def lineRecords : List Str → Except Exc (List Record)
  | [] => .ok []
  | line :: lines => do
      let record ← lineRecord J line
      let out ← lineRecords lines
      return record.toList ++ out

/-- `JsonParser.parse_sync`. -/
def parseSync (config : JsonParserConfig) (payload : RawPayload) : Except Exc (List Record) :=
  match J.bytesDecode config.encoding payload.body with
  | .error (.unicode message) =>
      .error (ClassName.permanentError.exc ("json decode error: ".toList ++ message))
  | .error (.other e) => .error e
  | .ok text =>
      if config.ndjson then lineRecords J (Py.splitlines text)
      else match Json.loads J.parseFloat text with
        | .error .decode =>
            .error (ClassName.permanentError.exc ("invalid json: ".toList ++ J.decodeError text))
        | .error .digits => .error (ClassName.valueError.exc (J.digitsError text))
        | .ok doc =>
            match resolvePath doc config.rootPath with
            | .list items => .ok (items.filterMap Val.record?)
            | .dict node => .ok [node]
            | _ => .ok []

variable {J}

theorem lineRecords_append {lines more : List Str} {out : List Record} :
    lineRecords J (lines ++ more) = .ok out ↔
      ∃ front back, lineRecords J lines = .ok front ∧ lineRecords J more = .ok back ∧
        out = front ++ back := by
  induction lines generalizing out with
  | nil =>
      rw [List.nil_append]
      constructor
      · exact fun read => ⟨[], out, rfl, read, rfl⟩
      · rintro ⟨_, back, nil, read, rfl⟩
        cases nil
        exact read
  | cons line lines ih =>
      rw [List.cons_append, lineRecords, bind_ok]
      constructor
      · rintro ⟨record, first, read⟩
        obtain ⟨rest, later, same⟩ := bind_ok.mp read
        cases same
        obtain ⟨front, back, front_eq, back_eq, rfl⟩ := ih.mp later
        refine ⟨record.toList ++ front, back, ?_, back_eq, (List.append_assoc _ _ _).symm⟩
        exact bind_ok.mpr ⟨record, first, bind_ok.mpr ⟨front, front_eq, rfl⟩⟩
      · rintro ⟨front, back, read, back_eq, rfl⟩
        obtain ⟨record, first, read⟩ := bind_ok.mp read
        obtain ⟨front', front_eq, same⟩ := bind_ok.mp read
        cases same
        have rest := ih.mpr ⟨front', back, front_eq, back_eq, rfl⟩
        refine ⟨record, first, bind_ok.mpr ⟨front' ++ back, rest, ?_⟩⟩
        rw [List.append_assoc]
        rfl

/-- The characters of a JSON text that end a line for `splitlines` only. -/
def isSeparator (c : Char) : Bool := c == '\x85' || c == '\u2028' || c == '\u2029'

theorem separator_foreign {c : Char} (separator : isSeparator c = true) : Py.isAscii c = false := by
  simp only [isSeparator, Bool.or_eq_true, beq_iff_eq] at separator
  rcases separator with (rfl | rfl) | rfl <;> rfl

theorem separator_break {c : Char} (separator : isSeparator c = true) :
    Py.isLineBreak c = true := by
  simp only [isSeparator, Bool.or_eq_true, beq_iff_eq] at separator
  rcases separator with (rfl | rfl) | rfl <;> rfl

theorem break_separator {c : Char} (ends : Py.isLineBreak c = true) (printed : 32 ≤ c.toNat) :
    isSeparator c = true := by
  have exact_ (n : Nat) (d : Char) (value : d.toNat = n) (same : c.toNat = n) : c = d :=
    Char.toNat_inj.mp (same.trans value.symm)
  simp only [Py.isLineBreak, Bool.or_eq_true, Bool.and_eq_true, decide_eq_true_eq,
    beq_iff_eq] at ends
  simp only [isSeparator, Bool.or_eq_true, beq_iff_eq]
  rcases ends with (((small | small) | same) | same) | same
  · omega
  · omega
  · exact Or.inl (Or.inl (exact_ _ _ rfl same))
  · exact Or.inl (Or.inr (exact_ _ _ rfl same))
  · exact Or.inr (exact_ _ _ rfl same)

/-- A line of a text that the scanner reads ends with a separator. -/
theorem read_separator {state next : Json.State} {c : Char} (ends : Py.isLineBreak c = true)
    (feed : c ≠ '\n') (single : c ≠ '\r')
    (stepped : Json.step J.parseFloat state c = .ok next) : isSeparator c = true := by
  rcases Json.step_printed stepped with printed | space
  · exact break_separator ends printed
  · simp only [Json.isSpace, Bool.or_eq_true, beq_iff_eq] at space
    rcases space with ((rfl | rfl) | rfl) | rfl
    · cases ends
    · cases ends
    · exact absurd rfl feed
    · exact absurd rfl single

/-- A separator is in a string or a key of the record. -/
def mentions (record : Record) : Bool := (Json.charsEntries record).any isSeparator

theorem lineRecord_some {line : Str} {record : Record}
    (read : lineRecord J line = .ok (some record)) :
    ∃ v, Json.scan J.parseFloat (Py.strip line) = .ok v ∧ Json.collapse v = .dict record := by
  unfold lineRecord at read
  dsimp only at read
  split at read
  · cases read
  split at read
  · rename_i obj loaded
    obtain ⟨v, scanned, same⟩ := bind_ok.mp loaded
    refine ⟨v, scanned, ?_⟩
    cases same
    cases shape : Json.collapse v with
    | dict entries =>
        rw [shape] at read
        cases read
        rfl
    | _ =>
        rw [shape] at read
        cases read
  · cases read
  · cases read

/-- A line that begins within a string mentions no separator, for it has neither one itself nor
an escape. -/
theorem within_mentions {state final : Json.State} {line : Str} {found : Option Record}
    (open_ : state.Open) (ran : Json.run J.parseFloat state line = .ok final)
    (plain : ∀ c ∈ line, Py.isLineBreak c = false) (read : lineRecord J line = .ok found)
    {record : Record} (member : record ∈ found) : mentions record = false := by
  rw [Option.mem_def.mp member] at read
  obtain ⟨v, scanned, same⟩ := lineRecord_some read
  have written : ∀ c ∈ Json.charsEntries record, c ∈ line := by
    intro c member
    have inner : c ∈ Json.chars (Json.collapse v) := by rwa [same, Json.chars]
    have value := Json.collapse_chars v inner
    have text := Json.scan_plain (Json.scan_within open_ ran scanned) scanned value
    exact (Py.strip_sublist line).subset text
  rw [mentions, List.any_eq_false]
  intro c member separator
  have ends := plain c (written c member)
  rw [separator_break separator] at ends
  cases ends

/-- Lines of a text that begins within a string. The induction keeps what the first of them has
had before. -/
theorem linesFrom_mentions {start state final : Json.State} {line text : Str} {out : List Record}
    (open_ : start.Open) (before : Json.run J.parseFloat start line = .ok state)
    (plain : ∀ c ∈ line, Py.isLineBreak c = false)
    (ran : Json.run J.parseFloat state text = .ok final) (feed : '\n' ∉ text) (single : '\r' ∉ text)
    (read : lineRecords J (Py.linesFrom line text) = .ok out) :
    ∀ record ∈ out, mentions record = false := by
  induction text generalizing start state line out with
  | nil =>
      rw [Py.linesFrom] at read
      split at read
      · cases read
        intro record member
        cases member
      · obtain ⟨record, first, read⟩ := bind_ok.mp read
        cases read
        rw [List.append_nil]
        exact fun o member => within_mentions open_ before plain first (Option.mem_toList.mp member)
  | cons c text ih =>
      obtain ⟨next, stepped, rest⟩ := Json.run_cons.mp ran
      rw [List.mem_cons, not_or] at feed single
      rw [Py.linesFrom_cons fun same => single.1 same.symm] at read
      split at read
      · rename_i ends
        have separator := read_separator ends (fun same => feed.1 same.symm)
          (fun same => single.1 same.symm) stepped
        have within := (Json.step_foreign (separator_foreign separator) stepped).2
        obtain ⟨record, first, read⟩ := bind_ok.mp read
        obtain ⟨more, later, same⟩ := bind_ok.mp read
        cases same
        have none : ∀ c ∈ ([] : Str), Py.isLineBreak c = false :=
          fun c member => (List.not_mem_nil member).elim
        intro o member
        rcases List.mem_append.mp member with here | there
        · exact within_mentions open_ before plain first (Option.mem_toList.mp here)
        · exact ih within (Json.run_nil next) none rest feed.2 single.2 later o there
      · rename_i goesOn
        have before' : Json.run J.parseFloat start (line ++ [c]) = .ok next :=
          Json.run_append.mpr ⟨state, before, Json.run_cons.mpr ⟨next, stepped, Json.run_nil next⟩⟩
        have plain' : ∀ d ∈ line ++ [c], Py.isLineBreak d = false := by
          intro d member
          rcases List.mem_append.mp member with here | here
          · exact plain d here
          · rw [List.mem_singleton.mp here]
            exact Bool.not_eq_true _ ▸ goesOn
        exact ih open_ before' plain' rest feed.2 single.2 read

/-- A text of one object, in one line as far as line feeds and carriage returns go. -/
structure Serialized (J : JsonCodecs) (record : Record) (text : Str) : Prop where
  loads : Json.loads J.parseFloat text = .ok (.dict record)
  feed : '\n' ∉ text
  single : '\r' ∉ text

variable {record : Record} {text : Str} {out : List Record}

theorem Serialized.scan (serialized : Serialized J record text) :
    ∃ v, Json.scan J.parseFloat text = .ok v ∧ Json.collapse v = .dict record := by
  obtain ⟨v, scanned, same⟩ := bind_ok.mp serialized.loads
  exact ⟨v, scanned, Except.ok.inj same⟩

/-- All other ways to end a line are separators. -/
theorem Serialized.break_separator (serialized : Serialized J record text) {line rest : Str}
    {c : Char} (split_ : text = line ++ c :: rest) (ends : Py.isLineBreak c = true) :
    isSeparator c = true := by
  obtain ⟨v, scanned, _⟩ := serialized.scan
  obtain ⟨final, ran, _⟩ := Json.scan_ok.mp scanned
  rw [split_] at ran
  obtain ⟨middle, _, later⟩ := Json.run_append.mp ran
  obtain ⟨next, stepped, _⟩ := Json.run_cons.mp later
  have member : c ∈ text := by simp [split_]
  exact read_separator ends (fun same => serialized.feed (same ▸ member))
    (fun same => serialized.single (same ▸ member)) stepped

theorem Serialized.nonempty (serialized : Serialized J record text) : text ≠ [] := by
  rintro rfl
  cases serialized.loads

/-- No text ends with a separator, for it would end within a string. -/
theorem Serialized.goesOn (serialized : Serialized J record text) :
    ∀ c, text.getLast? = some c → Py.isLineBreak c = false := by
  intro c last
  obtain ⟨init, same⟩ := List.getLast?_eq_some_iff.mp last
  rw [← Bool.not_eq_true]
  intro ends
  have separator := serialized.break_separator same ends
  obtain ⟨v, scanned, _⟩ := serialized.scan
  obtain ⟨final, ran, finished⟩ := Json.scan_ok.mp scanned
  rw [same] at ran
  obtain ⟨middle, _, later⟩ := Json.run_append.mp ran
  obtain ⟨next, stepped, nil⟩ := Json.run_cons.mp later
  cases nil
  obtain ⟨read, inside, _⟩ := (Json.step_foreign (separator_foreign separator) stepped).2
  rw [Json.finish_outside finished] at inside
  cases inside

/-- A text without separators is one line, and is read. -/
theorem Serialized.read_plain (serialized : Serialized J record text)
    (plain : ∀ c ∈ text, isSeparator c = false) :
    lineRecords J (Py.splitlines text) = .ok [record] := by
  have whole : ∀ c ∈ text, Py.isLineBreak c = false := by
    intro c member
    obtain ⟨line, rest, split_⟩ := List.append_of_mem member
    rw [← Bool.not_eq_true]
    intro ends
    have separator := serialized.break_separator split_ ends
    rw [plain c member] at separator
    cases separator
  obtain ⟨v, scanned, same⟩ := serialized.scan
  have stripped := Json.scan_strip scanned
  have nonempty : Py.strip text ≠ [] := by
    intro nil
    rw [nil] at stripped
    cases stripped
  have loaded : Json.loads J.parseFloat (Py.strip text) = .ok (.dict record) := by
    rw [Json.loads, stripped, ← same]
    rfl
  have first : lineRecord J text = .ok (some record) := by
    simp only [lineRecord, if_neg nonempty, loaded, Val.record?]
  rw [Py.splitlines_line whole serialized.nonempty, lineRecords, first]
  rfl

/-- A text with a separator is lost, and nothing that is read of it mentions a separator. -/
theorem Serialized.read_separated (serialized : Serialized J record text)
    (separated : ∃ c ∈ text, isSeparator c = true)
    (read : lineRecords J (Py.splitlines text) = .ok out) : ∀ o ∈ out, mentions o = false := by
  obtain ⟨separator, member, separates⟩ := separated
  have breaks : text.any Py.isLineBreak = true :=
    List.any_eq_true.mpr ⟨separator, member, separator_break separates⟩
  obtain ⟨c, found⟩ :=
    Option.isSome_iff_exists.mp (List.find?_isSome.mpr (List.any_eq_true.mp breaks))
  obtain ⟨ends, line, rest, split_, before⟩ := List.find?_eq_some_iff_append.mp found
  have plain : ∀ d ∈ line, Py.isLineBreak d = false := by simpa using before
  have foreign := separator_foreign (serialized.break_separator split_ ends)
  obtain ⟨v, scanned, _⟩ := serialized.scan
  obtain ⟨final, ran, _⟩ := Json.scan_ok.mp scanned
  rw [split_] at ran
  obtain ⟨middle, ran, later⟩ := Json.run_append.mp ran
  obtain ⟨next, stepped, later⟩ := Json.run_cons.mp later
  obtain ⟨open_, within⟩ := Json.step_foreign foreign stepped
  have inside : ∀ d ∈ rest, d ∈ text := fun d member => by simp [split_, member]
  have other : c ≠ '\r' := by
    rintro rfl
    cases foreign
  rw [split_, Py.splitlines_append plain ends other] at read
  obtain ⟨first, lost, read⟩ := bind_ok.mp read
  obtain ⟨more, rest_eq, same⟩ := bind_ok.mp read
  cases same
  cases first with
  | some o =>
      obtain ⟨w, scanned', _⟩ := lineRecord_some lost
      exact absurd scanned' (Json.scan_unfinished ran open_)
  | none =>
      exact linesFrom_mentions within (Json.run_nil next) nofun later
        (fun member => serialized.feed (inside _ member))
        (fun member => serialized.single (inside _ member)) rest_eq

/-- What is written in a record is in its text: no key of it is written twice. -/
theorem mentions_separated (distinct : Json.scan J.parseFloat text = .ok (.dict record))
    (separated : ∃ c ∈ text, isSeparator c = true) : mentions record = true := by
  obtain ⟨c, member, separator⟩ := separated
  obtain ⟨line, rest, split_⟩ := List.append_of_mem member
  rw [split_] at distinct
  have reads := Json.scan_reads (separator_foreign separator) distinct
  exact List.any_eq_true.mpr ⟨c, reads, separator⟩

variable {records : List Record} {serialize : Record → Str}

/-- Texts without separators are read one by one. -/
theorem read_all (serialized : ∀ o ∈ records, Serialized J o (serialize o))
    (plain : ∀ o ∈ records, ∀ c ∈ serialize o, isSeparator c = false) :
    lineRecords J ((records.map serialize).flatMap Py.splitlines) = .ok records := by
  induction records with
  | nil => rfl
  | cons o records ih =>
      rw [List.forall_mem_cons] at serialized plain
      rw [List.map_cons, List.flatMap_cons, lineRecords_append]
      exact ⟨[o], records, serialized.1.read_plain plain.1, ih serialized.2 plain.2, rfl⟩

/-- At most the records mention separators that were there before, and a text with a separator
takes away one of them. -/
theorem count_mentions {out : List Record}
    (serialized : ∀ o ∈ records, Serialized J o (serialize o))
    (distinct : ∀ o ∈ records, Json.scan J.parseFloat (serialize o) = .ok (.dict o))
    (read : lineRecords J ((records.map serialize).flatMap Py.splitlines) = .ok out) :
    out.countP mentions ≤ records.countP mentions ∧
      (records.countP mentions ≤ out.countP mentions →
        ∀ o ∈ records, ∀ c ∈ serialize o, isSeparator c = false) := by
  induction records generalizing out with
  | nil =>
      cases read
      exact ⟨le_rfl, fun _ => nofun⟩
  | cons o records ih =>
      rw [List.forall_mem_cons] at serialized distinct
      rw [List.map_cons, List.flatMap_cons, lineRecords_append] at read
      obtain ⟨front, back, first, rest, rfl⟩ := read
      obtain ⟨fewer, same⟩ := ih serialized.2 distinct.2 rest
      rw [List.countP_append, List.countP_cons, List.forall_mem_cons]
      by_cases separated : ∃ c ∈ serialize o, isSeparator c = true
      · have lost : front.countP mentions = 0 := by
          rw [List.countP_eq_zero]
          intro record member
          rw [serialized.1.read_separated separated first record member]
          exact Bool.false_ne_true
        rw [lost, mentions_separated distinct.1 separated, if_pos rfl]
        exact ⟨by omega, fun more => by omega⟩
      · have plain : ∀ c ∈ serialize o, isSeparator c = false := by simpa using separated
        have kept := serialized.1.read_plain plain
        rw [first] at kept
        cases kept
        rw [List.countP_singleton]
        exact ⟨by omega, fun more => ⟨plain, same (by omega)⟩⟩

theorem parseSync_utf8 {config : JsonParserConfig} {payload : RawPayload}
    (ndjson : config.ndjson = true)
    (utf8 : config.encoding = "utf-8".toList) (encoded : payload.body = Py.utf8Encode text) :
    parseSync J config payload = lineRecords J (Py.splitlines text) := by
  rw [parseSync, encoded, utf8, TextCodecs.bytesDecode_utf8]
  exact if_pos ndjson

theorem parseSync_lines {config : JsonParserConfig} {payload : RawPayload} {texts : List Str}
    (ndjson : config.ndjson = true) (utf8 : config.encoding = "utf-8".toList)
    (encoded : payload.body = Py.utf8Encode (['\n'].intercalate texts))
    (serialized : ∀ text ∈ texts, ∃ o, Serialized J o text) :
    parseSync J config payload = lineRecords J (texts.flatMap Py.splitlines) := by
  rw [parseSync_utf8 ndjson utf8 encoded, Py.splitlines_join]
  · intro text member
    obtain ⟨o, serialized⟩ := serialized text member
    exact serialized.single
  · intro text member
    obtain ⟨o, serialized⟩ := serialized text member
    exact serialized.nonempty
  · intro text member
    obtain ⟨o, serialized⟩ := serialized text member
    exact serialized.goesOn

/-- Objects in lines of their own are read back if none of their texts has one of the other
characters that end a line, and only then as far as no text writes a key of an object twice. -/
theorem ndjson_inverse_iff (J : JsonCodecs) (config : JsonParserConfig) (payload : RawPayload)
    (records : List Record) (serialize : Record → Str) (ndjson : config.ndjson = true)
    (utf8 : config.encoding = "utf-8".toList)
    (encoded : payload.body = Py.utf8Encode (['\n'].intercalate (records.map serialize)))
    (serialized : ∀ o ∈ records, Json.loads J.parseFloat (serialize o) = .ok (.dict o) ∧
      '\n' ∉ serialize o ∧ '\r' ∉ serialize o) :
    ((∀ o ∈ records, ∀ c ∈ serialize o, c ≠ '\x85' ∧ c ≠ '\u2028' ∧ c ≠ '\u2029') →
        parseSync J config payload = .ok records) ∧
      ((∀ o ∈ records, Json.scan J.parseFloat (serialize o) = .ok (.dict o)) →
        parseSync J config payload = .ok records →
        ∀ o ∈ records, ∀ c ∈ serialize o, c ≠ '\x85' ∧ c ≠ '\u2028' ∧ c ≠ '\u2029') := by
  have separators (c : Char) :
      isSeparator c = false ↔ c ≠ '\x85' ∧ c ≠ '\u2028' ∧ c ≠ '\u2029' := by
    simp [isSeparator, and_assoc]
  simp only [← separators]
  have texts : ∀ o ∈ records, Serialized J o (serialize o) := by
    intro o member
    obtain ⟨loads, feed, single⟩ := serialized o member
    exact ⟨loads, feed, single⟩
  have lines := parseSync_lines ndjson utf8 encoded (by
    intro text member
    obtain ⟨o, inside, same⟩ := List.mem_map.mp member
    exact ⟨o, same ▸ texts o inside⟩)
  constructor
  · intro plain
    rw [lines]
    exact read_all texts plain
  · intro distinct returned
    rw [lines] at returned
    exact (count_mentions texts distinct returned).2 le_rfl

/-- The codecs of a Python that reads no floats. -/
def utf8Codecs : JsonCodecs where
  toTextCodecs := .utf8Only
  parseFloat _ := .nan
  decodeError _ := "Expecting value".toList
  digitsError _ := "Exceeds the limit".toList

/-- The text of a record of at most one text, that needs no escapes. -/
def writeText : Record → Str
  | [(key, .str s)] => "\x7b\"".toList ++ key ++ "\": \"".toList ++ s ++ "\"\x7d".toList
  | _ => "\x7b\x7d".toList

theorem ndjson_inverse_iff_example :
    let records : List Record := [[("a".toList, .str "\u2027".toList)], []]
    let payload := RawPayload.ofBody (Py.utf8Encode (['\n'].intercalate (records.map writeText)))
    ((∀ o ∈ records, ∀ c ∈ writeText o, c ≠ '\x85' ∧ c ≠ '\u2028' ∧ c ≠ '\u2029') →
        parseSync utf8Codecs ⟨true, none, "utf-8".toList⟩ payload = .ok records) ∧
      ((∀ o ∈ records, Json.scan utf8Codecs.parseFloat (writeText o) = .ok (.dict o)) →
        parseSync utf8Codecs ⟨true, none, "utf-8".toList⟩ payload = .ok records →
        ∀ o ∈ records, ∀ c ∈ writeText o, c ≠ '\x85' ∧ c ≠ '\u2028' ∧ c ≠ '\u2029') := by
  apply ndjson_inverse_iff utf8Codecs _ _ _ writeText rfl rfl rfl
  intro o member
  rcases List.mem_pair.mp member with rfl | rfl
  · exact ⟨rfl, by decide, by decide⟩
  · exact ⟨rfl, by decide, by decide⟩

/-- A line separator in a string, which JSON allows, loses the record. -/
theorem ndjson_separator_lost :
    let record : Record := [("a".toList, .str "x\u2028y".toList)]
    let payload := RawPayload.ofBody (Py.utf8Encode (['\n'].intercalate ([record].map writeText)))
    Json.loads utf8Codecs.parseFloat (writeText record) = .ok (.dict record) ∧
      '\n' ∉ writeText record ∧ '\r' ∉ writeText record ∧
      parseSync utf8Codecs ⟨true, none, "utf-8".toList⟩ payload = .ok [] ∧
      parseSync utf8Codecs ⟨true, none, "utf-8".toList⟩ payload ≠ .ok [record] := by
  intro record payload
  have empty : parseSync utf8Codecs ⟨true, none, "utf-8".toList⟩ payload = .ok [] := by
    rw [parseSync_utf8 rfl rfl rfl]
    rfl
  refine ⟨rfl, by decide, by decide, empty, ?_⟩
  rw [empty]
  exact nofun

end JsonParser

end Cti
