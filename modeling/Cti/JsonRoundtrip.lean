import Cti.JsonRead
import Cti.JsonText

set_option autoImplicit false

/- `json.loads` of what `json.dumps` writes. -/
namespace Json

open Py (Str)
open Cti (Val Dict PyFloat JsonStyle dumps)

variable {parseFloat : Str → PyFloat}

section scanner

variable (parseFloat)

/-- The value of what is left of a text. -/
def scanFrom (state : State) (s : Str) : Except LoadsError Val := do
  let state ← run parseFloat state s
  finish parseFloat state

variable {parseFloat}

theorem scanFrom_cons {state next : State} {c : Char}
    (stepped : step parseFloat state c = .ok next) (s : Str) :
    scanFrom parseFloat state (c :: s) = scanFrom parseFloat next s := by
  simp only [scanFrom, run, List.foldlM_cons, stepped]
  rfl

/-- States whose next character settles what goes on look the same from there. -/
theorem scanFrom_congr {state state' : State} {c : Char}
    (same : step parseFloat state c = step parseFloat state' c) (s : Str) :
    scanFrom parseFloat state (c :: s) = scanFrom parseFloat state' (c :: s) := by
  simp only [scanFrom, run, List.foldlM_cons, same]

/-- States in which white space is skipped. -/
def State.Waits (parseFloat : Str → PyFloat) (state : State) : Prop :=
  ∀ c, isSpace c = true → step parseFloat state c = .ok state

theorem State.Waits.spaces {state : State} (waits : state.Waits parseFloat) {s : Str}
    (spaces : ∀ c ∈ s, isSpace c = true) (rest : Str) :
    scanFrom parseFloat state (s ++ rest) = scanFrom parseFloat state rest := by
  induction s with
  | nil => rfl
  | cons c s ih =>
      rw [List.cons_append, scanFrom_cons (waits c (spaces c List.mem_cons_self))]
      exact ih fun d member => spaces d (List.mem_cons_of_mem c member)

theorem delimit_waits {state : State} {c : Char} (space : isSpace c = true) :
    delimit state c = .ok state := by
  unfold delimit
  rw [if_pos space]

theorem complete_step (context : Context) (v : Val) (c : Char) :
    step parseFloat (context.complete v) c = delimit (context.complete v) c := by
  cases context <;> rfl

theorem value_waits (context : Context) : (State.value context).Waits parseFloat :=
  fun _ space => if_pos space

theorem firstItem_waits (outer : Context) : (State.firstItem outer).Waits parseFloat :=
  fun _ space => if_pos space

theorem firstKey_waits (outer : Context) : (State.firstKey outer).Waits parseFloat :=
  fun _ space => if_pos space

theorem key_waits (entries : Dict) (outer : Context) :
    (State.key entries outer).Waits parseFloat :=
  fun _ space => if_pos space

theorem colon_waits (entries : Dict) (key : Str) (outer : Context) :
    (State.colon entries key outer).Waits parseFloat :=
  fun _ space => if_pos space

end scanner

section strings

/-- The string after some more of its characters. -/
def StringRead.nexts (read : StringRead) : Str → Option StringRead
  | [] => some read
  | c :: s =>
      match read.next c with
      | .ok (some read) => read.nexts s
      | _ => none

theorem StringRead.nexts_append {read read' : StringRead} {s : Str}
    (goes : read.nexts s = some read') (t : Str) : read.nexts (s ++ t) = read'.nexts t := by
  induction s generalizing read with
  | nil =>
      cases goes
      rfl
  | cons c s ih =>
      rw [StringRead.nexts] at goes
      rw [List.cons_append, StringRead.nexts]
      split at goes
      · exact ih goes
      · cases goes

theorem scanFrom_string {read read' : StringRead} {s : Str} (goes : read.nexts s = some read')
    (context : Context) (rest : Str) :
    scanFrom parseFloat (.string context read) (s ++ rest) =
      scanFrom parseFloat (.string context read') rest := by
  induction s generalizing read with
  | nil =>
      cases goes
      rfl
  | cons c s ih =>
      rw [StringRead.nexts] at goes
      split at goes
      · rename_i middle next
        have stepped : step parseFloat (.string context read) c = .ok (.string context middle) := by
          rw [step, next]
          rfl
        rw [List.cons_append, scanFrom_cons stepped]
        exact ih goes
      · cases goes

theorem scanFrom_keyString {read read' : StringRead} {s : Str} (goes : read.nexts s = some read')
    (entries : Dict) (outer : Context) (rest : Str) :
    scanFrom parseFloat (.keyString entries outer read) (s ++ rest) =
      scanFrom parseFloat (.keyString entries outer read') rest := by
  induction s generalizing read with
  | nil =>
      cases goes
      rfl
  | cons c s ih =>
      rw [StringRead.nexts] at goes
      split at goes
      · rename_i middle next
        have stepped : step parseFloat (.keyString entries outer read) c =
            .ok (.keyString entries outer middle) := by
          rw [step, next]
          rfl
        rw [List.cons_append, scanFrom_cons stepped]
        exact ih goes
      · cases goes

theorem hexDigit_reads (n : Nat) : Ipaddress.isHexDigit (Cti.hexDigit n) = true ∧
    Ipaddress.hexValue (Cti.hexDigit n) = n % 16 := by
  have table : ∀ i < 16, Ipaddress.isHexDigit (Nat.digitChar i) = true ∧
      Ipaddress.hexValue (Nat.digitChar i) = i := by decide
  exact table _ (Nat.mod_lt n (by decide))

theorem next_hex (text : Str) (high : Option Nat) (count value n : Nat) (more : count ≠ 3) :
    (⟨text, high, .hex count value⟩ : StringRead).next (Cti.hexDigit n) =
      .ok (some ⟨text, high, .hex (count + 1) (16 * value + n % 16)⟩) := by
  obtain ⟨hex, digit⟩ := hexDigit_reads n
  simp only [StringRead.next, hex, digit, if_true, if_neg more]

theorem next_last (text : Str) (high : Option Nat) (value n : Nat) :
    (⟨text, high, .hex 3 value⟩ : StringRead).next (Cti.hexDigit n) =
      .ok (some ((⟨text, high, .none⟩ : StringRead).pushUnit (16 * value + n % 16))) := by
  obtain ⟨hex, digit⟩ := hexDigit_reads n
  simp only [StringRead.next, hex, digit, if_true]
  rfl

/-- An escaped code unit is read as it was written. -/
theorem nexts_unicodeEscape (text : Str) (high : Option Nat) {n : Nat} (small : n < 0x10000) :
    (⟨text, high, .none⟩ : StringRead).nexts (Cti.unicodeEscape n) =
      some ((⟨text, high, .none⟩ : StringRead).pushUnit n) := by
  have start : (⟨text, high, .none⟩ : StringRead).next '\\' =
      .ok (some ⟨text, high, .backslash⟩) := rfl
  have unit : (⟨text, high, .backslash⟩ : StringRead).next 'u' =
      .ok (some ⟨text, high, .hex 0 0⟩) := rfl
  have digits : 16 * (16 * (16 * (16 * 0 + n / 4096 % 16) + n / 256 % 16) + n / 16 % 16) +
      n % 16 = n := by omega
  simp only [Cti.unicodeEscape, Cti.hex4, StringRead.nexts, start, unit,
    next_hex _ _ 0 _ _ (by decide), next_hex _ _ 1 _ _ (by decide), next_hex _ _ 2 _ _ (by decide),
    Nat.reduceAdd, next_last]
  rw [digits]

/-- A character outside of the surrogates. -/
theorem pushUnit_char (text : Str) (c : Char) :
    (⟨text, none, .none⟩ : StringRead).pushUnit c.toNat = ⟨text ++ [c], none, .none⟩ := by
  have valid := Cti.char_valid c
  unfold StringRead.pushUnit
  rw [if_neg (by omega), if_neg (by omega), Char.ofNat_toNat]
  rfl

theorem pushUnit_high (text : Str) {high : Nat} (below : high < 1024) :
    (⟨text, none, .none⟩ : StringRead).pushUnit (0xd800 + high) =
      ⟨text, some (0xd800 + high), .none⟩ := by
  unfold StringRead.pushUnit
  rw [if_pos (by omega)]
  rfl

theorem pushUnit_low (text : Str) {c : Char} {high low : Nat}
    (value : c.toNat = 0x10000 + 1024 * high + low) (rest : low < 1024) :
    (⟨text, some (0xd800 + high), .none⟩ : StringRead).pushUnit (0xdc00 + low) =
      ⟨text ++ [c], none, .none⟩ := by
  have whole : 0x10000 + (0xd800 + high - 0xd800) * 1024 + (0xdc00 + low - 0xdc00) = c.toNat := by
    omega
  unfold StringRead.pushUnit
  rw [if_neg (by omega), if_pos (by omega)]
  dsimp only
  rw [whole, Char.ofNat_toNat]

theorem shortEscape_reads {c e : Char} (escape : Cti.shortEscape c = some e) :
    shortEscape e = some c := by
  unfold Cti.shortEscape at escape
  split at escape <;> cases escape <;> rfl

/-- A written character is read as one. -/
theorem nexts_jsonChar (ensureAscii : Bool) (text : Str) (c : Char) :
    (⟨text, none, .none⟩ : StringRead).nexts (Cti.jsonChar ensureAscii c) =
      some ⟨text ++ [c], none, .none⟩ := by
  unfold Cti.jsonChar
  split
  · rename_i e escape
    have start : (⟨text, none, .none⟩ : StringRead).next '\\' =
        .ok (some ⟨text, none, .backslash⟩) := rfl
    have short : (⟨text, none, .backslash⟩ : StringRead).next e =
        .ok (some ⟨text ++ [c], none, .none⟩) := by
      simp only [StringRead.next, if_neg (Cti.shortEscape_ne escape), shortEscape_reads escape]
      rfl
    simp only [StringRead.nexts, start, short]
  · rename_i plain
    dsimp only
    split
    · split
      · rename_i small
        rw [nexts_unicodeEscape text none small, pushUnit_char]
      · rename_i large
        have bound := Cti.char_valid c
        have high : (c.toNat - 0x10000) / 1024 < 1024 := by omega
        have low : (c.toNat - 0x10000) % 1024 < 1024 := Nat.mod_lt _ (by decide)
        have value : c.toNat = 0x10000 + 1024 * ((c.toNat - 0x10000) / 1024) +
            (c.toNat - 0x10000) % 1024 := by omega
        rw [StringRead.nexts_append (nexts_unicodeEscape text none (by omega)),
          pushUnit_high text high, nexts_unicodeEscape _ _ (by omega), pushUnit_low text value low]
    · rename_i printed
      have quote : c ≠ '"' := by
        rintro rfl
        cases plain
      have slash : c ≠ '\\' := by
        rintro rfl
        cases plain
      have large : ¬ c.toNat < 32 := by
        intro control
        simp [control] at printed
      have next : (⟨text, none, .none⟩ : StringRead).next c =
          .ok (some ⟨text ++ [c], none, .none⟩) := by
        simp only [StringRead.next, if_neg quote, if_neg slash, if_neg large]
        rfl
      simp only [StringRead.nexts, next]

/-- The characters of a string without its last quote. -/
def written (ensureAscii : Bool) (s : Str) : Str := s.flatMap (Cti.jsonChar ensureAscii)

theorem jsonChars_eq (ensureAscii : Bool) (s : Str) :
    Cti.jsonChars ensureAscii s = written ensureAscii s ++ ['"'] := by
  induction s with
  | nil => rfl
  | cons c s ih =>
      rw [Cti.jsonChars, ih]
      simp [written]

theorem nexts_written (ensureAscii : Bool) (text s : Str) :
    (⟨text, none, .none⟩ : StringRead).nexts (written ensureAscii s) =
      some ⟨text ++ s, none, .none⟩ := by
  induction s generalizing text with
  | nil => rw [List.append_nil]; rfl
  | cons c s ih =>
      rw [written, List.flatMap_cons, StringRead.nexts_append (nexts_jsonChar ensureAscii text c)]
      rw [← written, ih, List.append_assoc]
      rfl

/-- A string is read where a value is expected. -/
theorem scanFrom_text (ensureAscii : Bool) (s : Str) (context : Context) (rest : Str) :
    scanFrom parseFloat (.value context) (Cti.jsonString ensureAscii s ++ rest) =
      scanFrom parseFloat (context.complete (.str s)) rest := by
  have start : step parseFloat (.value context) '"' = .ok (.string context ⟨[], none, .none⟩) := rfl
  have close : step parseFloat (.string context ⟨s, none, .none⟩) '"' =
      .ok (context.complete (.str s)) := rfl
  rw [Cti.jsonString, jsonChars_eq, List.cons_append, scanFrom_cons start, List.append_assoc,
    scanFrom_string (nexts_written ensureAscii [] s)]
  exact scanFrom_cons close rest

theorem scanFrom_key (ensureAscii : Bool) (s : Str) {state : State} {entries : Dict}
    {outer : Context}
    (opens : step parseFloat state '"' = .ok (.keyString entries outer ⟨[], none, .none⟩))
    (rest : Str) :
    scanFrom parseFloat state (Cti.jsonString ensureAscii s ++ rest) =
      scanFrom parseFloat (.colon entries s outer) rest := by
  have close : step parseFloat (.keyString entries outer ⟨s, none, .none⟩) '"' =
      .ok (.colon entries s outer) := rfl
  rw [Cti.jsonString, jsonChars_eq, List.cons_append, scanFrom_cons opens, List.append_assoc,
    scanFrom_keyString (nexts_written ensureAscii [] s)]
  exact scanFrom_cons close rest

end strings

section numbers

/-- The part of a number after some more of its characters. -/
def NumberPart.nexts (part : NumberPart) : Str → Option NumberPart
  | [] => some part
  | c :: s =>
      match part.next c with
      | some part => part.nexts s
      | none => none

/-- The part of a number that its first character is. -/
def NumberPart.start (c : Char) : Option NumberPart :=
  if c = '-' then some .minus else NumberPart.minus.next c

/-- The part in which a text ends that is read as a number. -/
def numberPart : Str → Option NumberPart
  | [] => none
  | c :: s =>
      match NumberPart.start c with
      | some part => part.nexts s
      | none => none

theorem NumberPart.nexts_append {part part' : NumberPart} {s : Str}
    (goes : part.nexts s = some part') (t : Str) : part.nexts (s ++ t) = part'.nexts t := by
  induction s generalizing part with
  | nil =>
      cases goes
      rfl
  | cons c s ih =>
      rw [NumberPart.nexts] at goes
      rw [List.cons_append, NumberPart.nexts]
      split at goes
      · exact ih goes
      · cases goes

theorem numberPart_append {part : NumberPart} {s : Str} (form : numberPart s = some part)
    (t : Str) : numberPart (s ++ t) = part.nexts t := by
  cases s with
  | nil => cases form
  | cons c s =>
      rw [numberPart] at form
      rw [List.cons_append, numberPart]
      split at form
      · exact NumberPart.nexts_append form t
      · cases form

theorem digit_ne {c d : Char} (digit : c.isDigit = true) (other : d.isDigit = false) : c ≠ d := by
  rintro rfl
  rw [digit] at other
  cases other

theorem minus_next {c : Char} {part : NumberPart} (goes : NumberPart.minus.next c = some part) :
    c.isDigit = true ∧ (c = '0' ∧ part = .zero ∨ c ≠ '0' ∧ part = .int) := by
  simp only [NumberPart.next] at goes
  split at goes
  · rename_i zero
    cases goes
    exact ⟨by rw [zero]; decide, Or.inl ⟨zero, rfl⟩⟩
  · rename_i positive
    split at goes
    · rename_i digit
      cases goes
      exact ⟨digit, Or.inr ⟨positive, rfl⟩⟩
    · cases goes

/-- What a number starts with starts nothing else. -/
theorem start_step {c : Char} {part : NumberPart} (starts : NumberPart.start c = some part)
    (context : Context) :
    step parseFloat (.value context) c = .ok (.number context ⟨part, [c]⟩) := by
  unfold NumberPart.start at starts
  split at starts
  · rename_i minus
    cases starts
    subst minus
    rfl
  · rename_i plain
    obtain ⟨digit, form⟩ := minus_next starts
    have other : ∀ d, d.isDigit = false → c ≠ d := fun d other => digit_ne digit other
    have solid : isSpace c = false := by
      simp [isSpace, other ' ' (by decide), other '\t' (by decide), other '\n' (by decide),
        other '\r' (by decide)]
    have value : step parseFloat (.value context) c = startValue context c := by
      simp only [step, solid]
      rfl
    rw [value, startValue, if_neg (other '"' (by decide)), if_neg (other '\x7b' (by decide)),
      if_neg (other '[' (by decide)), if_neg (other 'n' (by decide)),
      if_neg (other 't' (by decide)), if_neg (other 'f' (by decide)),
      if_neg (other 'N' (by decide)), if_neg (other 'I' (by decide)), if_neg plain]
    rcases form with ⟨rfl, rfl⟩ | ⟨positive, rfl⟩
    · rfl
    · rw [if_neg positive, if_pos digit]

theorem next_step {c : Char} {part part' : NumberPart} (goes : part.next c = some part')
    (context : Context) (text : Str) :
    step parseFloat (.number context ⟨part, text⟩) c =
      .ok (.number context ⟨part', text ++ [c]⟩) := by
  have number : ¬ (part = .minus ∧ c = 'I') := by
    rintro ⟨rfl, rfl⟩
    cases goes
  simp only [step, if_neg number, goes]

theorem scanFrom_nexts {part part' : NumberPart} {s : Str} (goes : part.nexts s = some part')
    (context : Context) (text rest : Str) :
    scanFrom parseFloat (.number context ⟨part, text⟩) (s ++ rest) =
      scanFrom parseFloat (.number context ⟨part', text ++ s⟩) rest := by
  induction s generalizing part text with
  | nil =>
      cases goes
      rw [List.append_nil]
      rfl
  | cons c s ih =>
      rw [NumberPart.nexts] at goes
      split at goes
      · rename_i middle next
        rw [List.cons_append, scanFrom_cons (next_step next context text), ih goes,
          List.append_assoc]
        rfl
      · cases goes

theorem scanFrom_numberPart {part : NumberPart} {s : Str} (form : numberPart s = some part)
    (context : Context) (rest : Str) :
    scanFrom parseFloat (.value context) (s ++ rest) =
      scanFrom parseFloat (.number context ⟨part, s⟩) rest := by
  cases s with
  | nil => cases form
  | cons c s =>
      rw [numberPart] at form
      split at form
      · rename_i first starts
        rw [List.cons_append, scanFrom_cons (start_step starts context), scanFrom_nexts form]
        rfl
      · cases form

/-- What may follow a value in an array or an object. -/
def isDelimiter (c : Char) : Bool := isSpace c || c == ',' || c == ']' || c == '\x7d'

/-- No number goes on in what follows. -/
def Delimited (rest : Str) : Prop := ∀ c ∈ rest.head?, isDelimiter c = true

theorem delimiter_next {c : Char} (delimiter : isDelimiter c = true) (part : NumberPart) :
    part.next c = none := by
  simp only [isDelimiter, isSpace, Bool.or_eq_true, beq_iff_eq] at delimiter
  rcases delimiter with (((((rfl | rfl) | rfl) | rfl) | rfl) | rfl) | rfl <;> cases part <;> rfl

/-- A number ends where something else follows. -/
theorem scanFrom_value {read : NumberRead} {v : Val} (value : read.value parseFloat = .ok v)
    (context : Context) {rest : Str} (delimited : Delimited rest) :
    scanFrom parseFloat (.number context read) rest =
      scanFrom parseFloat (context.complete v) rest := by
  cases rest with
  | nil =>
      change finish parseFloat _ = finish parseFloat _
      cases context with
      | top => exact value
      | item items outer =>
          simp only [finish, value]
          rfl
      | entry entries key outer =>
          simp only [finish, value]
          rfl
  | cons c rest =>
      have delimiter := delimited c rfl
      have number : ¬ (read.part = .minus ∧ c = 'I') := by
        rintro ⟨_, rfl⟩
        cases delimiter
      refine scanFrom_congr ?_ rest
      rw [complete_step]
      simp only [step, if_neg number, delimiter_next delimiter, value]
      rfl

theorem int_nexts {s : Str} (digits : ∀ c ∈ s, c.isDigit = true) :
    NumberPart.int.nexts s = some .int := by
  induction s with
  | nil => rfl
  | cons c s ih =>
      have next : NumberPart.int.next c = some .int := if_pos (digits c List.mem_cons_self)
      rw [NumberPart.nexts, next]
      exact ih fun d member => digits d (List.mem_cons_of_mem c member)

theorem digitChar_start {n : Nat} (positive : 0 < n) (small : n < 10) :
    numberPart [n.digitChar] = some .int := by
  have table : ∀ n < 10, 0 < n → numberPart [Nat.digitChar n] = some .int := by decide
  exact table n small positive

/-- The digits of a positive number start with no zero. -/
theorem toDigits_part {n : Nat} (positive : 0 < n) :
    numberPart (Nat.toDigits 10 n) = some .int := by
  induction n using Nat.strongRecOn with
  | ind n ih =>
      rw [Nat.toDigits_eq_if (by decide)]
      split
      · rename_i small
        exact digitChar_start positive small
      · rename_i large
        rw [numberPart_append (ih (n / 10) (by omega) (by omega))]
        apply int_nexts
        intro c member
        have digit : c ∈ Nat.toDigits 10 (n % 10) := by
          rw [Nat.toDigits_of_lt_base (Nat.mod_lt n (by decide))]
          exact member
        exact Nat.isDigit_of_mem_toDigits (by decide) (by decide) digit

/-- Where the digits of a number end. -/
def digitsPart (n : Nat) : NumberPart := if n = 0 then .zero else .int

theorem numberPart_toDigits (n : Nat) :
    numberPart (Nat.toDigits 10 n) = some (digitsPart n) := by
  unfold digitsPart
  split
  · rename_i zero
    rw [zero]
    rfl
  · rename_i positive
    exact toDigits_part (Nat.pos_of_ne_zero positive)

theorem toDigits_digit {n : Nat} {c : Char} (member : c ∈ Nat.toDigits 10 n) :
    c.isDigit = true :=
  Nat.isDigit_of_mem_toDigits (by decide) (by decide) member

theorem numberPart_minus {s : Str} (digits : ∀ c ∈ s, c.isDigit = true) {part : NumberPart}
    (form : numberPart s = some part) : numberPart ('-' :: s) = some part := by
  cases s with
  | nil => cases form
  | cons c s =>
      have plain : c ≠ '-' := digit_ne (digits c List.mem_cons_self) (by decide)
      rw [numberPart, NumberPart.start, if_neg plain] at form
      exact form

theorem numberPart_decimalText (n : Int) :
    numberPart (Cti.decimalText n) = some (digitsPart n.natAbs) := by
  unfold Cti.decimalText
  split
  · exact numberPart_minus (fun c member => toDigits_digit member) (numberPart_toDigits _)
  · exact numberPart_toDigits _

theorem decimalText_digits (n : Int) :
    ((Cti.decimalText n).dropWhile (· == '-')).takeWhile Char.isDigit =
      Nat.toDigits 10 n.natAbs := by
  have plain : (Nat.toDigits 10 n.natAbs).dropWhile (· == '-') = Nat.toDigits 10 n.natAbs := by
    cases digits : Nat.toDigits 10 n.natAbs with
    | nil => rfl
    | cons c s =>
        have digit : c.isDigit = true := toDigits_digit (digits ▸ List.mem_cons_self)
        simp [digit_ne digit (show '-'.isDigit = false by decide)]
  have unsigned : (Cti.decimalText n).dropWhile (· == '-') = Nat.toDigits 10 n.natAbs := by
    unfold Cti.decimalText
    split
    · exact plain
    · exact plain
  rw [unsigned, List.takeWhile_eq_self_iff]
  exact fun c member => toDigits_digit member

theorem decimalText_head (n : Int) : (Cti.decimalText n).head? = some '-' ↔ n < 0 := by
  unfold Cti.decimalText
  split
  · rename_i negative
    exact iff_of_true rfl negative
  · rename_i natural
    refine iff_of_false ?_ natural
    intro head
    have digit := toDigits_digit (List.mem_of_mem_head? head)
    cases digit

/-- The number that a decimal text is read as. -/
theorem decimalText_value {n : Int}
    (short : (Nat.toDigits 10 n.natAbs).length ≤ Cti.maxStrDigits) :
    (⟨digitsPart n.natAbs, Cti.decimalText n⟩ : NumberRead).value parseFloat = .ok (.int n) := by
  have converted : tooLong (Nat.toDigits 10 n.natAbs) = false := by
    simpa [tooLong] using short
  have part : digitsPart n.natAbs = .zero ∨ digitsPart n.natAbs = .int := by
    unfold digitsPart
    split
    · exact Or.inl rfl
    · exact Or.inr rfl
  have sign : (if (Cti.decimalText n).head? = some '-' then -(n.natAbs : Int) else n.natAbs) = n := by
    simp only [decimalText_head]
    split <;> omega
  rcases part with same | same
  · simp only [NumberRead.value, same, decimalText_digits, converted,
      Nat.ofDigitChars_ten_toDigits, sign]
    rfl
  · simp only [NumberRead.value, same, decimalText_digits, converted,
      Nat.ofDigitChars_ten_toDigits, sign]
    rfl

end numbers

section trees

/-- A text with a fraction or an exponent, as floats are written. -/
def isFloatText (text : Str) : Bool :=
  numberPart text = some .frac || numberPart text = some .exp

/-- The text of a float is read as this float. -/
def FloatReads (parseFloat : Str → PyFloat) : PyFloat → Prop
  | .finite value text => isFloatText text = true ∧ parseFloat text = .finite value text
  | _ => True

mutual

/-- A tree that JSON can hold: the keys of a dict are distinct, no integer has too many digits
and floats are read as they are written. -/
def Storable (parseFloat : Str → PyFloat) : Val → Prop
  | .int n => (Nat.toDigits 10 n.natAbs).length ≤ Cti.maxStrDigits
  | .float f => FloatReads parseFloat f
  | .list items => StorableItems parseFloat items
  | .dict entries => (entries.map Prod.fst).Nodup ∧ StorableEntries parseFloat entries
  | _ => True

def StorableItems (parseFloat : Str → PyFloat) : List Val → Prop
  | [] => True
  | item :: items => Storable parseFloat item ∧ StorableItems parseFloat items

def StorableEntries (parseFloat : Str → PyFloat) : Dict → Prop
  | [] => True
  | (_, value) :: entries => Storable parseFloat value ∧ StorableEntries parseFloat entries

end

/-- White space around one character. -/
def Separates (c : Char) (text : Str) : Prop :=
  ∃ front back, text = front ++ c :: back ∧ (∀ d ∈ front, isSpace d = true) ∧
    ∀ d ∈ back, isSpace d = true

/-- The separators are those of the format. -/
structure Lawful (style : JsonStyle) : Prop where
  item : Separates ',' style.itemSeparator
  key : Separates ':' style.keySeparator

variable {style : JsonStyle}

theorem newline_spaces (style : JsonStyle) (depth : Nat) :
    ∀ c ∈ style.newline depth, isSpace c = true := by
  intro c member
  unfold JsonStyle.newline at member
  split at member
  · rcases List.mem_cons.mp member with rfl | blank
    · rfl
    · rw [List.eq_of_mem_replicate blank]
      rfl
  · cases member

theorem scanFrom_separator {state next : State} {c : Char} {text : Str}
    (separates : Separates c text) (waits : state.Waits parseFloat)
    (stepped : step parseFloat state c = .ok next) (waits' : next.Waits parseFloat) (rest : Str) :
    scanFrom parseFloat state (text ++ rest) = scanFrom parseFloat next rest := by
  obtain ⟨front, back, rfl, before, after⟩ := separates
  rw [List.append_assoc, waits.spaces before, List.cons_append, scanFrom_cons stepped,
    waits'.spaces after]

theorem delimited_spaces {s : Str} (spaces : ∀ c ∈ s, isSpace c = true) {c : Char}
    (delimiter : isDelimiter c = true) (rest : Str) : Delimited (s ++ c :: rest) := by
  cases s with
  | nil =>
      intro d head
      cases head
      exact delimiter
  | cons d s =>
      intro e head
      cases head
      have space := spaces d List.mem_cons_self
      simp [isDelimiter, space]

theorem Lawful.delimited (lawful : Lawful style) (rest : Str) :
    Delimited (style.itemSeparator ++ rest) := by
  obtain ⟨front, back, same, before, _⟩ := lawful.item
  rw [same, List.append_assoc]
  exact delimited_spaces before rfl _

theorem Lawful.delimited_items (lawful : Lawful style) (depth : Nat) (items : List Val)
    (rest : Str) : Delimited (Cti.dumpsItems style depth items ++ rest) := by
  cases items with
  | nil =>
      rw [Cti.dumpsItems, List.append_assoc]
      exact delimited_spaces (newline_spaces style depth) rfl rest
  | cons item items =>
      rw [Cti.dumpsItems, List.append_assoc]
      exact lawful.delimited _

theorem Lawful.delimited_entries (lawful : Lawful style) (depth : Nat) (entries : Dict)
    (rest : Str) : Delimited (Cti.dumpsEntries style depth entries ++ rest) := by
  cases entries with
  | nil =>
      rw [Cti.dumpsEntries, List.append_assoc]
      exact delimited_spaces (newline_spaces style depth) rfl rest
  | cons entry entries =>
      rw [Cti.dumpsEntries, List.append_assoc]
      exact lawful.delimited _

theorem isFloatText_value (parseFloat : Str → PyFloat) {text : Str} (form : isFloatText text = true) :
    ∃ part, numberPart text = some part ∧
      (⟨part, text⟩ : NumberRead).value parseFloat = .ok (.float (parseFloat text)) := by
  simp only [isFloatText, Bool.or_eq_true, decide_eq_true_eq] at form
  rcases form with frac | exp
  · exact ⟨.frac, frac, rfl⟩
  · exact ⟨.exp, exp, rfl⟩

theorem scanFrom_word (w : Word) (context : Context) (rest : Str) :
    scanFrom parseFloat (.value context) (w.text ++ rest) =
      scanFrom parseFloat (context.complete w.value) rest := by
  cases w <;> rfl

theorem scanFrom_float {f : PyFloat} (reads : FloatReads parseFloat f) (context : Context)
    {rest : Str} (delimited : Delimited rest) :
    scanFrom parseFloat (.value context) (f.jsonText ++ rest) =
      scanFrom parseFloat (context.complete (.float f)) rest := by
  cases f with
  | finite value text =>
      obtain ⟨form, read⟩ := reads
      obtain ⟨part, ends, parsed⟩ := isFloatText_value parseFloat form
      rw [read] at parsed
      change scanFrom parseFloat (.value context) (text ++ rest) = _
      rw [scanFrom_numberPart ends, scanFrom_value parsed context delimited]
  | infinite negative =>
      cases negative with
      | true => exact scanFrom_word .minusInfinity context rest
      | false => exact scanFrom_word .infinity context rest
  | nan => exact scanFrom_word .nan context rest

theorem scanFrom_int {n : Int} (short : (Nat.toDigits 10 n.natAbs).length ≤ Cti.maxStrDigits)
    (context : Context) {rest : Str} (delimited : Delimited rest) :
    scanFrom parseFloat (.value context) (Cti.decimalText n ++ rest) =
      scanFrom parseFloat (context.complete (.int n)) rest := by
  rw [scanFrom_numberPart (numberPart_decimalText n),
    scanFrom_value (decimalText_value short) context delimited]

/-- What a first item starts with is neither white space nor the end of the list. -/
structure Opens (text : Str) : Prop where
  starts : ∃ c rest, text = c :: rest ∧ isSpace c = false ∧ c ≠ ']'

theorem numberPart_opens {text : Str} {part : NumberPart} (form : numberPart text = some part) :
    Opens text := by
  cases text with
  | nil => cases form
  | cons c rest =>
      refine ⟨c, rest, rfl, ?_⟩
      rw [numberPart] at form
      unfold NumberPart.start at form
      split at form
      · rename_i part starts
        split at starts
        · rename_i minus
          rw [minus]
          decide
        · obtain ⟨digit, _⟩ := minus_next starts
          have other : ∀ d, d.isDigit = false → c ≠ d := fun d other => digit_ne digit other
          refine ⟨?_, other ']' (by decide)⟩
          simp [isSpace, other ' ' (by decide), other '\t' (by decide), other '\n' (by decide),
            other '\r' (by decide)]
      · cases form

theorem word_opens (w : Word) : Opens w.text := by
  cases w <;> exact ⟨_, _, rfl, by decide⟩

theorem float_opens {f : PyFloat} (reads : FloatReads parseFloat f) : Opens f.jsonText := by
  cases f with
  | finite value text =>
      obtain ⟨part, ends, _⟩ := isFloatText_value parseFloat reads.1
      exact numberPart_opens ends
  | infinite negative =>
      cases negative with
      | true => exact word_opens .minusInfinity
      | false => exact word_opens .infinity
  | nan => exact word_opens .nan

theorem dumps_opens {v : Val} (storable : Storable parseFloat v) (depth : Nat) :
    Opens (dumps style depth v) := by
  cases v with
  | none => exact word_opens .null
  | bool b =>
      cases b with
      | true => exact word_opens .true
      | false => exact word_opens .false
  | int n => exact numberPart_opens (numberPart_decimalText n)
  | float f => exact float_opens storable
  | str s => exact ⟨_, _, rfl, by decide⟩
  | list items => cases items <;> exact ⟨_, _, rfl, by decide⟩
  | dict entries => cases entries <;> exact ⟨_, _, rfl, by decide⟩

/-- A first item is read as any other. -/
theorem scanFrom_firstItem {text : Str} (opens : Opens text) (outer : Context) (rest : Str) :
    scanFrom parseFloat (.firstItem outer) (text ++ rest) =
      scanFrom parseFloat (.value (.item [] outer)) (text ++ rest) := by
  obtain ⟨c, tail, rfl, solid, other⟩ := opens.starts
  refine scanFrom_congr ?_ (tail ++ rest)
  simp [step, solid, other]

mutual

/-- A written tree is read as this tree, whatever follows it. -/
theorem scanFrom_dumps (lawful : Lawful style) : ∀ (v : Val), Storable parseFloat v →
    ∀ (depth : Nat) (context : Context) {rest : Str}, Delimited rest →
      scanFrom parseFloat (.value context) (dumps style depth v ++ rest) =
        scanFrom parseFloat (context.complete v) rest
  | .none, _, _, context, rest, _ => scanFrom_word .null context rest
  | .bool true, _, _, context, rest, _ => scanFrom_word .true context rest
  | .bool false, _, _, context, rest, _ => scanFrom_word .false context rest
  | .int _, short, _, context, _, delimited => scanFrom_int short context delimited
  | .float _, reads, _, context, _, delimited => scanFrom_float reads context delimited
  | .str s, _, _, context, rest, _ => scanFrom_text style.ensureAscii s context rest
  | .list [], _, _, _, _, _ => rfl
  | .list (item :: items), storable, depth, context, rest, _ => by
      have opening : step parseFloat (.value context) '[' = .ok (.firstItem context) := rfl
      have head := scanFrom_dumps lawful item storable.1 (depth + 1) (.item [] context)
        (lawful.delimited_items depth items rest)
      rw [dumps, List.cons_append, scanFrom_cons opening, List.append_assoc,
        (firstItem_waits context).spaces (newline_spaces style (depth + 1)), List.append_assoc,
        scanFrom_firstItem (dumps_opens storable.1 (depth + 1)), head]
      exact scanFrom_dumpsItems lawful items storable.2 depth [item] context rest
  | .dict [], _, _, _, _, _ => rfl
  | .dict ((key, value) :: entries), storable, depth, context, rest, _ => by
      have opening : step parseFloat (.value context) '{' = .ok (.firstKey context) := rfl
      have colon : step parseFloat (.colon [] key context) ':' =
          .ok (.value (.entry [] key context)) := rfl
      have head := scanFrom_dumps lawful value storable.2.1 (depth + 1) (.entry [] key context)
        (lawful.delimited_entries depth entries rest)
      rw [dumps, List.cons_append, scanFrom_cons opening, List.append_assoc,
        (firstKey_waits context).spaces (newline_spaces style (depth + 1)), List.append_assoc,
        scanFrom_key style.ensureAscii key rfl, List.append_assoc,
        scanFrom_separator lawful.key (colon_waits _ _ _) colon (value_waits _),
        List.append_assoc, head]
      exact scanFrom_dumpsEntries lawful entries storable.2.2 depth [(key, value)] context rest

theorem scanFrom_dumpsItems (lawful : Lawful style) : ∀ (items : List Val),
    StorableItems parseFloat items → ∀ (depth : Nat) (done : List Val) (outer : Context)
      (rest : Str),
      scanFrom parseFloat (.afterItem done outer) (Cti.dumpsItems style depth items ++ rest) =
        scanFrom parseFloat (outer.complete (.list (done ++ items))) rest
  | [], _, depth, done, outer, rest => by
      have waits : (State.afterItem done outer).Waits parseFloat :=
        fun _ space => delimit_waits space
      have closing : step parseFloat (.afterItem done outer) ']' =
          .ok (outer.complete (.list done)) := rfl
      rw [Cti.dumpsItems, List.append_assoc, waits.spaces (newline_spaces style depth),
        List.singleton_append, scanFrom_cons closing, List.append_nil]
  | item :: items, storable, depth, done, outer, rest => by
      have waits : (State.afterItem done outer).Waits parseFloat :=
        fun _ space => delimit_waits space
      have comma : step parseFloat (.afterItem done outer) ',' =
          .ok (.value (.item done outer)) := rfl
      have head := scanFrom_dumps lawful item storable.1 (depth + 1) (.item done outer)
        (lawful.delimited_items depth items rest)
      have tail := scanFrom_dumpsItems lawful items storable.2 depth (done ++ [item]) outer rest
      rw [Cti.dumpsItems, List.append_assoc,
        scanFrom_separator lawful.item waits comma (value_waits _), List.append_assoc,
        (value_waits _).spaces (newline_spaces style (depth + 1)), List.append_assoc, head]
      rw [List.append_assoc] at tail
      exact tail

theorem scanFrom_dumpsEntries (lawful : Lawful style) : ∀ (entries : Dict),
    StorableEntries parseFloat entries → ∀ (depth : Nat) (done : Dict) (outer : Context)
      (rest : Str),
      scanFrom parseFloat (.afterEntry done outer) (Cti.dumpsEntries style depth entries ++ rest) =
        scanFrom parseFloat (outer.complete (.dict (done ++ entries))) rest
  | [], _, depth, done, outer, rest => by
      have waits : (State.afterEntry done outer).Waits parseFloat :=
        fun _ space => delimit_waits space
      have closing : step parseFloat (.afterEntry done outer) '}' =
          .ok (outer.complete (.dict done)) := rfl
      rw [Cti.dumpsEntries, List.append_assoc, waits.spaces (newline_spaces style depth),
        List.singleton_append, scanFrom_cons closing, List.append_nil]
  | (key, value) :: entries, storable, depth, done, outer, rest => by
      have waits : (State.afterEntry done outer).Waits parseFloat :=
        fun _ space => delimit_waits space
      have comma : step parseFloat (.afterEntry done outer) ',' = .ok (.key done outer) := rfl
      have colon : step parseFloat (.colon done key outer) ':' =
          .ok (.value (.entry done key outer)) := rfl
      have head := scanFrom_dumps lawful value storable.1 (depth + 1) (.entry done key outer)
        (lawful.delimited_entries depth entries rest)
      have tail :=
        scanFrom_dumpsEntries lawful entries storable.2 depth (done ++ [(key, value)]) outer rest
      rw [Cti.dumpsEntries, List.append_assoc,
        scanFrom_separator lawful.item waits comma (key_waits _ _), List.append_assoc,
        (key_waits _ _).spaces (newline_spaces style (depth + 1)), List.append_assoc,
        scanFrom_key style.ensureAscii key rfl, List.append_assoc,
        scanFrom_separator lawful.key (colon_waits _ _ _) colon (value_waits _),
        List.append_assoc, head]
      rw [List.append_assoc] at tail
      exact tail

end

theorem set_fresh {dict : Dict} {key : Str} (fresh : key ∉ dict.map Prod.fst) (v : Val) :
    Cti.Dict.set dict key v = dict ++ [(key, v)] := by
  have absent : dict.lookup key = none := by
    rw [List.lookup_eq_none_iff]
    intro entry member
    have other : key ≠ entry.1 := by
      rintro rfl
      exact fresh (List.mem_map_of_mem member)
    simpa using other
  unfold Cti.Dict.set
  rw [absent]
  rfl

mutual

/-- A tree with distinct keys is the same as it was read. -/
theorem collapse_storable : ∀ v, Storable parseFloat v → collapse v = v
  | .none, _ => rfl
  | .bool _, _ => rfl
  | .int _, _ => rfl
  | .float _, _ => rfl
  | .str _, _ => rfl
  | .list items, storable => by rw [collapse, collapseItems_storable items storable]
  | .dict entries, storable => by
      have nodup : (([] ++ entries : Dict).map Prod.fst).Nodup := storable.1
      rw [collapse, collapseEntries_storable entries [] nodup storable.2, List.nil_append]

theorem collapseItems_storable : ∀ items, StorableItems parseFloat items →
    collapseItems items = items
  | [], _ => rfl
  | item :: items, storable => by
      rw [collapseItems, collapse_storable item storable.1,
        collapseItems_storable items storable.2]

theorem collapseEntries_storable : ∀ (entries dict : Dict),
    ((dict ++ entries).map Prod.fst).Nodup → StorableEntries parseFloat entries →
      collapseEntries dict entries = dict ++ entries
  | [], dict, _, _ => by rw [collapseEntries, List.append_nil]
  | (key, value) :: entries, dict, nodup, storable => by
      have fresh : key ∉ dict.map Prod.fst := by
        intro member
        rw [List.map_append, List.map_cons] at nodup
        exact (List.nodup_append.mp nodup).2.2 key member key List.mem_cons_self rfl
      have rest : ((dict ++ [(key, value)]) ++ entries).map Prod.fst |>.Nodup := by
        rw [List.append_assoc]
        exact nodup
      rw [collapseEntries, collapse_storable value storable.1, set_fresh fresh,
        collapseEntries_storable entries _ rest storable.2, List.append_assoc]
      rfl

end

/-- `json.loads(json.dumps(v)) == v`. -/
theorem loads_dumps (lawful : Lawful style) {v : Val} (storable : Storable parseFloat v)
    (depth : Nat) : loads parseFloat (dumps style depth v) = .ok v := by
  have delimited : Delimited [] := fun c head => by cases head
  have scanned := scanFrom_dumps lawful v storable depth .top delimited
  rw [List.append_nil] at scanned
  have whole : scan parseFloat (dumps style depth v) = .ok v := scanned
  rw [loads, whole]
  exact congrArg Except.ok (collapse_storable v storable)

end trees

end Json
