import Cti.JsonRead

set_option autoImplicit false

/- What a run of the scanner says about the characters that it reads. -/
namespace Json

open Py (Str)
open Cti (Val Dict PyFloat)

variable {parseFloat : Str → PyFloat} {state next : State} {c : Char}

/-- The string within which the scanner is. -/
def State.read? : State → Option StringRead
  | .string _ read | .keyString _ _ read => some read
  | _ => none

theorem complete_outside (context : Context) (v : Val) : (context.complete v).read? = none := by
  cases context <;> rfl

mutual

/-- The characters of the strings and keys in a value. -/
def chars : Val → Str
  | .str s => s
  | .list items => charsItems items
  | .dict entries => charsEntries entries
  | _ => []

def charsItems : List Val → Str
  | [] => []
  | item :: items => chars item ++ charsItems items

def charsEntries : List (Str × Val) → Str
  | [] => []
  | (key, v) :: entries => key ++ (chars v ++ charsEntries entries)

end

def Context.chars : Context → Str
  | .top => []
  | .item items outer => charsItems items ++ outer.chars
  | .entry entries key outer => charsEntries entries ++ (key ++ outer.chars)

/-- The characters of what the scanner has read so far. -/
def State.chars : State → Str
  | .value context | .word context _ _ | .number context _ => context.chars
  | .firstItem outer | .firstKey outer => outer.chars
  | .key entries outer => charsEntries entries ++ outer.chars
  | .colon entries name outer => charsEntries entries ++ (name ++ outer.chars)
  | .afterItem items outer => charsItems items ++ outer.chars
  | .afterEntry entries outer => charsEntries entries ++ outer.chars
  | .done v => Json.chars v
  | .string context read => read.text ++ context.chars
  | .keyString entries outer read => charsEntries entries ++ (read.text ++ outer.chars)

theorem charsItems_append (items more : List Val) :
    charsItems (items ++ more) = charsItems items ++ charsItems more := by
  induction items with
  | nil => simp [charsItems]
  | cons item items ih => rw [List.cons_append, charsItems, charsItems, ih, List.append_assoc]

theorem charsEntries_append (entries more : List (Str × Val)) :
    charsEntries (entries ++ more) = charsEntries entries ++ charsEntries more := by
  induction entries with
  | nil => simp [charsEntries]
  | cons entry entries ih =>
      obtain ⟨key, v⟩ := entry
      rw [List.cons_append, charsEntries, charsEntries, ih, List.append_assoc, List.append_assoc]

theorem mem_complete {context : Context} {v : Val} {x : Char} :
    x ∈ (context.complete v).chars ↔ x ∈ context.chars ∨ x ∈ Json.chars v := by
  cases context with
  | top => simp [Context.complete, State.chars, Context.chars]
  | item items outer =>
      simp only [Context.complete, State.chars, Context.chars, charsItems_append, charsItems,
        List.append_nil, List.mem_append]
      tauto
  | entry entries key outer =>
      simp only [Context.complete, State.chars, Context.chars, charsEntries_append, charsEntries,
        List.append_nil, List.mem_append]
      tauto

theorem value_chars {read : NumberRead} {v : Val} (value : read.value parseFloat = .ok v) :
    chars v = [] := by
  unfold NumberRead.value at value
  dsimp only at value
  split at value
  · cases value
  · split at value <;> cases value
    rfl
  · split at value <;> cases value
    rfl
  · cases value
    rfl
  · cases value
    rfl
  · split at value <;> cases value
  · split at value <;> cases value
  · split at value <;> cases value

theorem word_chars (w : Word) : chars w.value = [] := by
  cases w <;> rfl

theorem complete_chars (context : Context) {v : Val} (silent : chars v = []) (x : Char) :
    x ∈ (context.complete v).chars ↔ x ∈ context.chars := by
  rw [mem_complete, silent, or_iff_left List.not_mem_nil]

/-- A printed ASCII character that neither separates nor starts something in a string. -/
def isToken (c : Char) : Bool :=
  Py.isAscii c && !Py.isSpace c && 32 ≤ c.toNat && c != '\\' && c != '"'

theorem token_iff : isToken c = true ↔ Py.isAscii c = true ∧ Py.isSpace c = false ∧ 32 ≤ c.toNat ∧
    c ≠ '\\' ∧ c ≠ '"' := by
  simp [isToken, and_assoc]

theorem digit_token (digit : c.isDigit = true) : isToken c = true := by
  have ascii := Py.alphanum_ascii (c := c) (by simp [Char.isAlphanum, digit])
  exact Py.ascii_forall (P := fun c => c.isDigit = true → isToken c = true) (by decide) ascii digit

theorem word_token (w : Word) : ∀ c ∈ w.text, isToken c = true := by
  apply Py.forall_mem_of_all
  cases w <;> decide

theorem part_token {part part' : NumberPart} (goes : part.next c = some part') :
    isToken c = true := by
  have known : c.isDigit = true ∨ c ∈ "0.eE+-".toList := by
    cases part <;> simp only [NumberPart.next] at goes <;> grind
  rcases known with digit | symbol
  · exact digit_token digit
  · exact Py.forall_mem_of_all (P := fun c => isToken c = true) (by decide) c symbol

/-- What a character does outside of strings. A number may end only behind its last character, so
that the value is complete before the character is read. -/
inductive Move (parseFloat : Str → PyFloat) : State → Char → State → Prop
  | space {state : State} {c : Char} (space : isSpace c = true) : Move parseFloat state c state
  | token {state next : State} {c : Char} (token : isToken c = true) (outside : next.read? = none)
      (kept : ∀ x, x ∈ next.chars ↔ x ∈ state.chars) : Move parseFloat state c next
  | quote {state next : State} (opened : next.read? = some ⟨[], none, .none⟩)
      (kept : ∀ x, x ∈ next.chars ↔ x ∈ state.chars) : Move parseFloat state '"' next
  | ends {context : Context} {read : NumberRead} {v : Val} {next : State} {c : Char}
      (value : read.value parseFloat = .ok v)
      (moved : Move parseFloat (context.complete v) c next) :
      Move parseFloat (.number context read) c next

theorem startValue_move {context : Context} (same : ∀ x, x ∈ context.chars ↔ x ∈ state.chars)
    (started : startValue context c = .ok next) : Move parseFloat state c next := by
  unfold startValue at started
  rcases ite_eq_iff.mp started with ⟨rfl, first⟩ | ⟨_, started⟩
  · cases first
    exact .quote rfl same
  iterate 9
    rcases ite_eq_iff.mp started with ⟨rfl, first⟩ | ⟨_, started⟩
    · cases first
      exact .token (by decide) rfl same
  rcases ite_eq_iff.mp started with ⟨digit, first⟩ | ⟨_, started⟩
  · cases first
    exact .token (digit_token digit) rfl same
  · cases started

/-- A container that ends has the characters of what it holds. -/
theorem closes_chars {outer : Context} {v : Val} {held : Str} (same : chars v = held) (x : Char) :
    x ∈ (outer.complete v).chars ↔ x ∈ held ++ outer.chars := by
  rw [mem_complete, same, List.mem_append, or_comm]

theorem delimit_move (delimited : delimit state c = .ok next) : Move parseFloat state c next := by
  unfold delimit at delimited
  rcases ite_eq_iff.mp delimited with ⟨space, first⟩ | ⟨_, delimited⟩
  · cases first
    exact .space space
  split at delimited
  · rcases ite_eq_iff.mp delimited with ⟨rfl, first⟩ | ⟨_, delimited⟩
    · cases first
      exact .token (by decide) rfl fun x => Iff.rfl
    rcases ite_eq_iff.mp delimited with ⟨rfl, first⟩ | ⟨_, delimited⟩
    · cases first
      exact .token (by decide) (complete_outside _ _) (closes_chars (by rw [chars]))
    · cases delimited
  · rcases ite_eq_iff.mp delimited with ⟨rfl, first⟩ | ⟨_, delimited⟩
    · cases first
      exact .token (by decide) rfl fun x => Iff.rfl
    rcases ite_eq_iff.mp delimited with ⟨rfl, first⟩ | ⟨_, delimited⟩
    · cases first
      exact .token (by decide) (complete_outside _ _) (closes_chars (by rw [chars]))
    · cases delimited
  · cases delimited

/-- A step of the scanner outside of strings. -/
theorem step_move (outside : state.read? = none) (stepped : step parseFloat state c = .ok next) :
    Move parseFloat state c next := by
  unfold step at stepped
  split at stepped
  · split at stepped
    · rename_i space
      cases stepped
      exact .space space
    · exact startValue_move (fun x => Iff.rfl) stepped
  · split at stepped
    · rename_i space
      cases stepped
      exact .space space
    split at stepped
    · rename_i bracket
      cases stepped
      subst bracket
      exact .token (by decide) (complete_outside _ _) (complete_chars _ rfl)
    · refine startValue_move (fun x => ?_) stepped
      rfl
  · split at stepped
    · rename_i space
      cases stepped
      exact .space space
    split at stepped
    · rename_i brace
      cases stepped
      subst brace
      exact .token (by decide) (complete_outside _ _) (complete_chars _ rfl)
    split at stepped
    · rename_i quote
      cases stepped
      subst quote
      exact .quote rfl fun x => Iff.rfl
    · cases stepped
  · split at stepped
    · rename_i space
      cases stepped
      exact .space space
    split at stepped
    · rename_i quote
      cases stepped
      subst quote
      exact .quote rfl fun x => Iff.rfl
    · cases stepped
  · split at stepped
    · rename_i space
      cases stepped
      exact .space space
    split at stepped
    · rename_i colon
      cases stepped
      subst colon
      exact .token (by decide) rfl fun x => Iff.rfl
    · cases stepped
  · exact delimit_move stepped
  · exact delimit_move stepped
  · exact delimit_move stepped
  · cases outside
  · cases outside
  · rename_i context w count
    split at stepped
    · rename_i letter
      have token := word_token w c (List.mem_of_getElem? letter)
      cases stepped
      split
      · exact .token token (complete_outside _ _) (complete_chars _ (word_chars w))
      · exact .token token rfl fun x => Iff.rfl
    · cases stepped
  · rename_i context read
    split at stepped
    · rename_i infinite
      cases stepped
      rw [infinite.2]
      exact .token (by decide) rfl fun x => Iff.rfl
    split at stepped
    · rename_i part goes
      cases stepped
      exact .token (part_token goes) rfl fun x => Iff.rfl
    · obtain ⟨v, value, delimited⟩ := Cti.bind_ok.mp stepped
      exact .ends value (delimit_move delimited)

/-- What a character does outside of strings: it is ASCII, no backslash, and a quote opens a
string. -/
structure Outside (c : Char) (next : State) : Prop where
  ascii : Py.isAscii c = true
  backslash : c ≠ '\\'
  quote : next.read? = if c = '"' then some ⟨[], none, .none⟩ else none
  printed : 32 ≤ c.toNat ∨ isSpace c = true

theorem space_ascii (space : isSpace c = true) : Py.isAscii c = true ∧ c ≠ '\\' ∧ c ≠ '"' := by
  simp only [isSpace, Bool.or_eq_true, beq_iff_eq] at space
  rcases space with ((rfl | rfl) | rfl) | rfl <;> decide

theorem Outside.space (space : isSpace c = true) (outside : next.read? = none) :
    Outside c next := by
  obtain ⟨ascii, backslash, quote⟩ := space_ascii space
  exact ⟨ascii, backslash, by rw [if_neg quote, outside], Or.inr space⟩

theorem Outside.plain (token : isToken c = true) (outside : next.read? = none) :
    Outside c next := by
  obtain ⟨ascii, _, printed, backslash, quote⟩ := token_iff.mp token
  exact ⟨ascii, backslash, by rw [if_neg quote, outside], Or.inl printed⟩

/-- A step of the scanner outside of strings. -/
theorem step_outside (outside : state.read? = none) (stepped : step parseFloat state c = .ok next) :
    Outside c next := by
  have moved := step_move outside stepped
  clear stepped
  induction moved with
  | space space => exact .space space outside
  | token token ends _ => exact .plain token ends
  | quote opened _ => exact ⟨by decide, by decide, opened, Or.inl (by decide)⟩
  | ends _ _ ih => exact ih (complete_outside _ _)

/-- Within a string, a step is one of the string. -/
theorem step_inside {read : StringRead} (inside : state.read? = some read)
    (stepped : step parseFloat state c = .ok next) :
    ∃ result, read.next c = .ok result ∧ next.read? = result := by
  cases state with
  | string context read' =>
      obtain rfl : read' = read := Option.some.inj inside
      obtain ⟨result, first, stepped⟩ := Cti.bind_ok.mp stepped
      refine ⟨result, first, ?_⟩
      cases result with
      | some read => cases stepped; rfl
      | none => cases stepped; exact complete_outside _ _
  | keyString entries outer read' =>
      obtain rfl : read' = read := Option.some.inj inside
      obtain ⟨result, first, stepped⟩ := Cti.bind_ok.mp stepped
      refine ⟨result, first, ?_⟩
      cases result with
      | some read => cases stepped; rfl
      | none => cases stepped; rfl
  | _ => cases inside

theorem next_plain {read : StringRead} (open_ : read.escape = .none) {result : Option StringRead}
    (goes : read.next c = .ok result) (slash : c ≠ '\\') :
    32 ≤ c.toNat ∧ result = if c = '"' then none else some (read.push c) := by
  unfold StringRead.next at goes
  rw [open_] at goes
  simp only [slash, if_false] at goes
  split at goes
  · rename_i quote
    cases goes
    subst quote
    exact ⟨by decide, rfl⟩
  · rename_i quote
    split at goes
    · cases goes
    · rename_i printed
      cases goes
      exact ⟨by omega, (if_neg quote).symm⟩

/-- Only a quote ends a string. -/
theorem next_none {read : StringRead} (goes : read.next c = .ok none) : c = '"' := by
  by_cases open_ : read.escape = .none
  · by_cases slash : c = '\\'
    · rw [StringRead.next, open_] at goes
      simp [slash] at goes
    · have ends := (next_plain open_ goes slash).2
      by_contra quote
      rw [if_neg quote] at ends
      cases ends
  · unfold StringRead.next at goes
    split at goes
    · rename_i plain
      exact absurd plain open_
    · split at goes
      · cases goes
      split at goes <;> cases goes
    · split at goes
      · dsimp only at goes
        split at goes <;> cases goes
      · cases goes

theorem shortEscape_plain {e : Char} (escape : shortEscape c = some e) :
    Py.isAscii c = true ∧ 32 ≤ c.toNat := by
  have known : c ∈ "\"\\/bfnrt".toList := by
    unfold shortEscape at escape
    grind
  exact Py.forall_mem_of_all (P := fun c => Py.isAscii c = true ∧ 32 ≤ c.toNat) (by decide) c known

theorem hexDigit_plain (hex : Ipaddress.isHexDigit c = true) :
    Py.isAscii c = true ∧ 32 ≤ c.toNat := by
  have ascii := Ipaddress.hexDigit_ascii hex
  exact ⟨ascii, Py.ascii_forall (P := fun c => Ipaddress.isHexDigit c = true → 32 ≤ c.toNat)
    (by decide) ascii hex⟩

/-- An escape is written in ASCII. -/
theorem next_escape {read : StringRead} (escaped : read.escape ≠ .none) {result : Option StringRead}
    (goes : read.next c = .ok result) : Py.isAscii c = true ∧ 32 ≤ c.toNat := by
  unfold StringRead.next at goes
  split at goes
  · rename_i plain
    exact absurd plain escaped
  · split at goes
    · rename_i same
      subst same
      decide
    split at goes
    · rename_i e escape
      exact shortEscape_plain escape
    · cases goes
  · split at goes
    · rename_i hex
      exact hexDigit_plain hex
    · cases goes

/-- Control characters are read as white space only. -/
theorem step_printed (stepped : step parseFloat state c = .ok next) :
    32 ≤ c.toNat ∨ isSpace c = true := by
  cases inside : state.read? with
  | none => exact (step_outside inside stepped).printed
  | some read =>
      obtain ⟨result, goes, _⟩ := step_inside inside stepped
      apply Or.inl
      by_cases escape : read.escape = .none
      · by_cases slash : c = '\\'
        · subst slash
          decide
        · exact (next_plain escape goes slash).1
      · exact (next_escape escape goes).2

/-- Within a string and in no escape. -/
def State.Open (state : State) : Prop := ∃ read, state.read? = some read ∧ read.escape = .none

/-- A character outside ASCII is read only within a string. -/
theorem step_foreign (foreign : Py.isAscii c = false)
    (stepped : step parseFloat state c = .ok next) :
    state.Open ∧ next.Open := by
  cases inside : state.read? with
  | none =>
      rw [(step_outside inside stepped).ascii] at foreign
      cases foreign
  | some read =>
      obtain ⟨result, goes, same⟩ := step_inside inside stepped
      by_cases escape : read.escape = .none
      · have slash : c ≠ '\\' := by
          rintro rfl
          cases foreign
        have quote : c ≠ '"' := by
          rintro rfl
          cases foreign
        have pushed := (next_plain escape goes slash).2
        rw [if_neg quote] at pushed
        exact ⟨⟨read, inside, escape⟩, read.push c, same.trans pushed, rfl⟩
      · rw [(next_escape escape goes).1] at foreign
        cases foreign

/-- One of two scanners is within a string, the other outside. -/
inductive Opposite (state other : State) : Prop
  | inner (open_ : state.Open) (outside : other.read? = none)
  | outer (outside : state.read? = none) (open_ : other.Open)

theorem Opposite.swap {other : State} (opposite : Opposite state other) : Opposite other state := by
  cases opposite with
  | inner open_ outside => exact .outer outside open_
  | outer outside open_ => exact .inner open_ outside

/-- If both read the same character it is no backslash, and they stay opposite. -/
theorem Opposite.step {other other' : State} (opposite : Opposite state other)
    (stepped : Json.step parseFloat state c = .ok next)
    (stepped' : Json.step parseFloat other c = .ok other') : c ≠ '\\' ∧ Opposite next other' := by
  have half : ∀ {state other next other' : State}, state.Open → other.read? = none →
      Json.step parseFloat state c = .ok next → Json.step parseFloat other c = .ok other' →
      c ≠ '\\' ∧ Opposite next other' := by
    intro state other next other' ⟨read, inside, escape⟩ outside stepped stepped'
    have out := step_outside outside stepped'
    obtain ⟨result, goes, same⟩ := step_inside inside stepped
    have result_eq := (next_plain escape goes out.backslash).2
    have quote := out.quote
    refine ⟨out.backslash, ?_⟩
    by_cases quoted : c = '"'
    · rw [if_pos quoted] at quote result_eq
      exact .outer (same.trans result_eq) ⟨_, quote, rfl⟩
    · rw [if_neg quoted] at quote result_eq
      exact .inner ⟨_, same.trans result_eq, rfl⟩ quote
  cases opposite with
  | inner open_ outside => exact half open_ outside stepped stepped'
  | outer outside open_ =>
      obtain ⟨slash, opposite⟩ := half open_ outside stepped' stepped
      exact ⟨slash, opposite.swap⟩

theorem run_nil (state : State) : run parseFloat state [] = .ok state := rfl

theorem run_cons {s : Str} {final : State} : run parseFloat state (c :: s) = .ok final ↔
    ∃ next, step parseFloat state c = .ok next ∧ run parseFloat next s = .ok final := by
  rw [run, List.foldlM_cons]
  exact Cti.bind_ok

theorem run_append {s t : Str} {final : State} : run parseFloat state (s ++ t) = .ok final ↔
    ∃ middle, run parseFloat state s = .ok middle ∧ run parseFloat middle t = .ok final := by
  rw [run, List.foldlM_append]
  exact Cti.bind_ok

/-- Two scanners that start opposite to each other read no backslash. -/
theorem Opposite.run {other final final' : State} {s : Str} (opposite : Opposite state other)
    (ran : Json.run parseFloat state s = .ok final)
    (ran' : Json.run parseFloat other s = .ok final') : '\\' ∉ s := by
  induction s generalizing state other with
  | nil => exact List.not_mem_nil
  | cons c s ih =>
      obtain ⟨next, stepped, rest⟩ := run_cons.mp ran
      obtain ⟨next', stepped', rest'⟩ := run_cons.mp ran'
      obtain ⟨slash, opposite'⟩ := opposite.step stepped stepped'
      rw [List.mem_cons, not_or]
      exact ⟨fun same => slash same.symm, ih opposite' rest rest'⟩

theorem finish_outside {v : Val} (finished : finish parseFloat state = .ok v) :
    state.read? = none := by
  cases state with
  | string context read => cases finished
  | keyString entries outer read => cases finished
  | _ => rfl

theorem space_ne (space : Py.isSpace c = true) {d : Char} (solid : Py.isSpace d = false) :
    c ≠ d := by
  rintro rfl
  rw [space] at solid
  cases solid

theorem space_not_token (space : Py.isSpace c = true) : isToken c ≠ true := by
  intro token
  rw [(token_iff.mp token).2.1] at space
  cases space

/-- A space changes the state only where it ends a number. -/
theorem Move.space_cases (moved : Move parseFloat state c next) (space : Py.isSpace c = true) :
    next = state ∨ ∃ context read v, state = .number context read ∧
      read.value parseFloat = .ok v ∧ next = context.complete v := by
  induction moved with
  | space _ => exact Or.inl rfl
  | token token _ _ => exact absurd token (space_not_token space)
  | quote _ _ => cases space
  | @ends context read v next c value _ ih =>
      rcases ih space with same | ⟨context', read', v', same, _⟩
      · exact Or.inr ⟨context, read, v, rfl, value, same⟩
      · cases context <;> cases same

/-- White space before the value. -/
theorem run_spaces {s t : Str} {final : State} (spaces : ∀ c ∈ s, Py.isSpace c = true)
    (ran : run parseFloat (.value .top) (s ++ t) = .ok final) :
    run parseFloat (.value .top) s = .ok (.value .top) ∧
      run parseFloat (.value .top) t = .ok final := by
  induction s with
  | nil => exact ⟨rfl, ran⟩
  | cons c s ih =>
      obtain ⟨next, stepped, rest⟩ := run_cons.mp ran
      have same : next = .value .top := by
        rcases (step_move rfl stepped).space_cases (spaces c List.mem_cons_self) with
          same | ⟨_, _, _, number, _⟩
        · exact same
        · cases number
      rw [same] at stepped rest
      obtain ⟨first, second⟩ := ih (fun d member => spaces d (List.mem_cons_of_mem c member)) rest
      exact ⟨run_cons.mpr ⟨_, stepped, first⟩, second⟩

/-- White space behind the value: the value was complete before it. -/
theorem finish_space {v : Val} (space : Py.isSpace c = true)
    (stepped : step parseFloat state c = .ok next) (finished : finish parseFloat next = .ok v) :
    finish parseFloat state = .ok v := by
  have outside := finish_outside finished
  cases inside : state.read? with
  | none =>
      rcases (step_move inside stepped).space_cases space with
        same | ⟨context, read, v', rfl, value, same⟩
      · rwa [same] at finished
      · rw [same] at finished
        cases context with
        | top =>
            cases finished
            exact value
        | item items outer => cases finished
        | entry entries key outer => cases finished
  | some read =>
      obtain ⟨result, goes, same⟩ := step_inside inside stepped
      obtain rfl : result = none := same.symm.trans outside
      exact absurd (next_none goes) (space_ne space (by decide))

theorem finish_spaces {s : Str} {final : State} {v : Val} (spaces : ∀ c ∈ s, Py.isSpace c = true)
    (ran : run parseFloat state s = .ok final) (finished : finish parseFloat final = .ok v) :
    finish parseFloat state = .ok v := by
  induction s generalizing state with
  | nil =>
      cases ran
      exact finished
  | cons c s ih =>
      obtain ⟨next, stepped, rest⟩ := run_cons.mp ran
      apply finish_space (spaces c List.mem_cons_self) stepped
      exact ih (fun d member => spaces d (List.mem_cons_of_mem c member)) rest

theorem scan_ok {s : Str} {v : Val} : scan parseFloat s = .ok v ↔
    ∃ final, run parseFloat (.value .top) s = .ok final ∧ finish parseFloat final = .ok v :=
  Cti.bind_ok

/-- A text that was read is read without the spaces around it as well. -/
theorem scan_strip {s : Str} {v : Val} (scanned : scan parseFloat s = .ok v) :
    scan parseFloat (Py.strip s) = .ok v := by
  obtain ⟨front, back, same, before, after⟩ := Py.strip_spaces s
  obtain ⟨final, ran, finished⟩ := scan_ok.mp scanned
  rw [same, List.append_assoc] at ran
  obtain ⟨middle, inner, outer⟩ := run_append.mp (run_spaces before ran).2
  exact scan_ok.mpr ⟨middle, inner, finish_spaces after outer finished⟩

/-- Without a quote the scanner stays outside of strings. -/
theorem run_outside {s : Str} {final : State} (outside : state.read? = none) (plain : '"' ∉ s)
    (ran : run parseFloat state s = .ok final) : final.read? = none := by
  induction s generalizing state with
  | nil =>
      cases ran
      exact outside
  | cons c s ih =>
      obtain ⟨next, stepped, rest⟩ := run_cons.mp ran
      rw [List.mem_cons, not_or] at plain
      have quote := (step_outside outside stepped).quote
      rw [if_neg fun same => plain.1 same.symm] at quote
      exact ih quote plain.2 rest

/-- Without a quote and a backslash the scanner stays within a string. -/
theorem run_open {s : Str} {final : State} (open_ : state.Open)
    (plain : ∀ c ∈ s, c ≠ '"' ∧ c ≠ '\\') (ran : run parseFloat state s = .ok final) :
    final.Open := by
  induction s generalizing state with
  | nil =>
      cases ran
      exact open_
  | cons c s ih =>
      obtain ⟨next, stepped, rest⟩ := run_cons.mp ran
      obtain ⟨read, inside, escape⟩ := open_
      obtain ⟨result, goes, same⟩ := step_inside inside stepped
      obtain ⟨quote, slash⟩ := plain c List.mem_cons_self
      have pushed := (next_plain escape goes slash).2
      rw [if_neg quote] at pushed
      exact ih ⟨_, same.trans pushed, rfl⟩
        (fun d member => plain d (List.mem_cons_of_mem c member)) rest

theorem spaces_plain {s : Str} (spaces : ∀ c ∈ s, Py.isSpace c = true) :
    ∀ c ∈ s, c ≠ '"' ∧ c ≠ '\\' := fun c member =>
  ⟨space_ne (spaces c member) (by decide), space_ne (spaces c member) (by decide)⟩

/-- A text that ends within a string holds no value, with or without its spaces. -/
theorem scan_unfinished {s : Str} {final : State} {v : Val}
    (ran : run parseFloat (.value .top) s = .ok final) (open_ : final.Open) :
    scan parseFloat (Py.strip s) ≠ .ok v := by
  intro scanned
  obtain ⟨front, back, same, before, after⟩ := Py.strip_spaces s
  obtain ⟨middle, inner, finished⟩ := scan_ok.mp scanned
  rw [same, List.append_assoc] at ran
  obtain ⟨middle', inner', outer⟩ := run_append.mp (run_spaces before ran).2
  rw [inner, Except.ok.injEq] at inner'
  subst inner'
  have outside := run_outside (finish_outside finished)
    (fun member => (spaces_plain after '"' member).1 rfl) outer
  obtain ⟨read, inside, _⟩ := open_
  rw [outside] at inside
  cases inside

/-- A value that is read from within a string has no escape in its text. -/
theorem scan_within {s : Str} {final : State} {v : Val} (open_ : state.Open)
    (ran : run parseFloat state s = .ok final) (scanned : scan parseFloat (Py.strip s) = .ok v) :
    '\\' ∉ Py.strip s := by
  obtain ⟨front, back, same, before, after⟩ := Py.strip_spaces s
  obtain ⟨final', inner, _⟩ := scan_ok.mp scanned
  rw [same, List.append_assoc] at ran
  obtain ⟨middle, first, rest⟩ := run_append.mp ran
  obtain ⟨last, second, _⟩ := run_append.mp rest
  exact (Opposite.inner (run_open open_ (spaces_plain before) first) rfl).run second inner

/-- A step outside of strings reads no character of a string. -/
theorem step_chars (outside : state.read? = none) (stepped : step parseFloat state c = .ok next)
    (x : Char) : x ∈ next.chars ↔ x ∈ state.chars := by
  have moved := step_move outside stepped
  clear stepped
  induction moved with
  | space _ => rfl
  | token _ _ kept => exact kept x
  | quote _ kept => exact kept x
  | ends value _ ih =>
      exact (ih (complete_outside _ _)).trans (complete_chars _ (value_chars value) x)

/-- What a step within a string leaves of its text. -/
def StringRead.left (read : StringRead) : Option StringRead → Str
  | some read' => read'.text
  | none => read.flushed

/-- A step within a string changes its text only. -/
theorem step_text {read : StringRead} (inside : state.read? = some read)
    (stepped : step parseFloat state c = .ok next) :
    ∃ result, ∃ rest : Str, read.next c = .ok result ∧ next.read? = result ∧
      (∀ x, x ∈ state.chars ↔ x ∈ read.text ∨ x ∈ rest) ∧
      (∀ x, x ∈ next.chars ↔ x ∈ read.left result ∨ x ∈ rest) := by
  cases state with
  | string context read' =>
      obtain rfl : read' = read := Option.some.inj inside
      obtain ⟨result, goes, stepped⟩ := Cti.bind_ok.mp stepped
      refine ⟨result, context.chars, goes, ?_, fun x => List.mem_append, ?_⟩
      · cases result with
        | some read => cases stepped; rfl
        | none => cases stepped; exact complete_outside _ _
      · cases result with
        | some read =>
            cases stepped
            exact fun x => List.mem_append
        | none =>
            cases stepped
            intro x
            rw [mem_complete, or_comm]
            rfl
  | keyString entries outer read' =>
      obtain rfl : read' = read := Option.some.inj inside
      obtain ⟨result, goes, stepped⟩ := Cti.bind_ok.mp stepped
      refine ⟨result, charsEntries entries ++ outer.chars, goes, ?_, ?_, ?_⟩
      · cases result with
        | some read => cases stepped; rfl
        | none => cases stepped; rfl
      · intro x
        simp only [State.chars, List.mem_append]
        tauto
      · intro x
        cases result with
        | some read =>
            cases stepped
            simp only [State.chars, StringRead.left, List.mem_append]
            tauto
        | none =>
            cases stepped
            simp only [State.chars, StringRead.left, List.mem_append]
            tauto
  | _ => cases inside

theorem text_flushed (read : StringRead) : read.text ⊆ read.flushed := by
  unfold StringRead.flushed
  split
  · exact List.subset_append_left _ _
  · exact List.Subset.refl _

theorem flushed_push (read : StringRead) (e : Char) : read.flushed ⊆ (read.push e).text :=
  List.subset_append_left _ _

theorem text_pushUnit (read : StringRead) (n : Nat) : read.text ⊆ (read.pushUnit n).text := by
  unfold StringRead.pushUnit
  split
  · exact text_flushed read
  split
  · split
    · exact List.subset_append_left _ _
    · exact List.Subset.trans (text_flushed read) (flushed_push read _)
  · exact List.Subset.trans (text_flushed read) (flushed_push read _)

/-- A string keeps the characters that it has. -/
theorem text_left {read : StringRead} {result : Option StringRead}
    (goes : read.next c = .ok result) : read.text ⊆ read.left result := by
  have pushed (e : Char) : read.text ⊆ (read.push e).text :=
    List.Subset.trans (text_flushed read) (flushed_push read e)
  unfold StringRead.next at goes
  split at goes
  · split at goes
    · cases goes
      exact text_flushed read
    split at goes
    · cases goes
      exact List.Subset.refl _
    split at goes
    · cases goes
    · cases goes
      exact pushed c
  · split at goes
    · cases goes
      exact List.Subset.refl _
    split at goes
    · cases goes
      exact pushed _
    · cases goes
  · split at goes
    · dsimp only at goes
      split at goes
      · cases goes
        exact text_pushUnit read _
      · cases goes
        exact List.Subset.refl _
    · cases goes

theorem step_keeps (stepped : step parseFloat state c = .ok next) : state.chars ⊆ next.chars := by
  intro x member
  cases inside : state.read? with
  | none => exact (step_chars inside stepped x).mpr member
  | some read =>
      obtain ⟨result, rest, goes, _, before, after⟩ := step_text inside stepped
      rcases (before x).mp member with here | there
      · exact (after x).mpr (Or.inl (text_left goes here))
      · exact (after x).mpr (Or.inr there)

theorem run_keeps {s : Str} {final : State} (ran : run parseFloat state s = .ok final) :
    state.chars ⊆ final.chars := by
  induction s generalizing state with
  | nil =>
      cases ran
      exact List.Subset.refl _
  | cons c s ih =>
      obtain ⟨next, stepped, rest⟩ := run_cons.mp ran
      exact List.Subset.trans (step_keeps stepped) (ih rest)

/-- A character outside ASCII is one of the string that it stands in. -/
theorem step_reads (foreign : Py.isAscii c = false) (stepped : step parseFloat state c = .ok next) :
    c ∈ next.chars := by
  obtain ⟨read, inside, escape⟩ := (step_foreign foreign stepped).1
  have other (d : Char) (ascii : Py.isAscii d = true) : c ≠ d := by
    rintro rfl
    rw [ascii] at foreign
    cases foreign
  obtain ⟨result, rest, goes, _, _, after⟩ := step_text inside stepped
  have pushed := (next_plain escape goes (other '\\' rfl)).2
  rw [if_neg (other '"' rfl)] at pushed
  rw [after, pushed]
  exact Or.inl (List.mem_append_right _ List.mem_cons_self)

/-- Neither in an escape nor behind a surrogate. -/
def State.Plain (state : State) : Prop :=
  ∀ read, state.read? = some read → read.escape = .none ∧ read.high = none

theorem plain_outside (outside : state.read? = none) : state.Plain := by
  intro read inside
  rw [outside] at inside
  cases inside

/-- Without a backslash a string holds what is written. -/
theorem step_plain (plain : state.Plain) (slash : c ≠ '\\')
    (stepped : step parseFloat state c = .ok next) :
    next.Plain ∧ ∀ x ∈ next.chars, x ∈ state.chars ∨ x = c := by
  cases inside : state.read? with
  | none =>
      have quote := (step_outside inside stepped).quote
      refine ⟨?_, fun x member => Or.inl ((step_chars inside stepped x).mp member)⟩
      intro read within
      rw [quote] at within
      split at within
      · cases within
        exact ⟨rfl, rfl⟩
      · cases within
  | some read =>
      obtain ⟨escape, high⟩ := plain read inside
      obtain ⟨result, rest, goes, same, before, after⟩ := step_text inside stepped
      have flushed : read.flushed = read.text := by rw [StringRead.flushed, high]
      obtain rfl := (next_plain escape goes slash).2
      split at same
      · rename_i quote
        refine ⟨plain_outside same, fun x member => Or.inl ((before x).mpr ?_)⟩
        rw [if_pos quote, after, StringRead.left, flushed] at *
        exact member
      · rename_i quote
        constructor
        · intro read' within
          rw [same] at within
          cases within
          exact ⟨rfl, rfl⟩
        · intro x member
          rw [before]
          rw [after, if_neg quote, StringRead.left, StringRead.push, flushed, List.mem_append,
            List.mem_singleton] at member
          tauto

theorem run_plain {s : Str} {final : State} (plain : state.Plain) (slash : '\\' ∉ s)
    (ran : run parseFloat state s = .ok final) : ∀ x ∈ final.chars, x ∈ state.chars ∨ x ∈ s := by
  induction s generalizing state with
  | nil =>
      cases ran
      exact fun x member => Or.inl member
  | cons c s ih =>
      obtain ⟨next, stepped, rest⟩ := run_cons.mp ran
      rw [List.mem_cons, not_or] at slash
      obtain ⟨plain', read⟩ := step_plain plain (fun same => slash.1 same.symm) stepped
      intro x member
      rw [List.mem_cons, ← or_assoc]
      exact (ih plain' slash.2 rest x member).imp_left (read x)

theorem finish_chars {v : Val} (finished : finish parseFloat state = .ok v) :
    chars v ⊆ state.chars ∧ state.chars ⊆ chars v := by
  cases state with
  | done v' =>
      cases finished
      exact ⟨List.Subset.refl _, List.Subset.refl _⟩
  | number context read =>
      cases context with
      | top =>
          rw [value_chars finished]
          exact ⟨List.Subset.refl _, List.Subset.refl _⟩
      | item items outer =>
          obtain ⟨_, _, finished⟩ := Cti.bind_ok.mp finished
          cases finished
      | entry entries key outer =>
          obtain ⟨_, _, finished⟩ := Cti.bind_ok.mp finished
          cases finished
  | _ => cases finished

/-- A value that is written without escapes has the characters of its text only. -/
theorem scan_plain {s : Str} {v : Val} (slash : '\\' ∉ s) (scanned : scan parseFloat s = .ok v) :
    chars v ⊆ s := by
  obtain ⟨final, ran, finished⟩ := scan_ok.mp scanned
  intro x member
  rcases run_plain (plain_outside rfl) slash ran x ((finish_chars finished).1 member) with no | yes
  · cases no
  · exact yes

/-- A character outside ASCII in a text is one of a string in the value. -/
theorem scan_reads {s t : Str} {v : Val} (foreign : Py.isAscii c = false)
    (scanned : scan parseFloat (s ++ c :: t) = .ok v) : c ∈ chars v := by
  obtain ⟨final, ran, finished⟩ := scan_ok.mp scanned
  obtain ⟨middle, _, rest⟩ := run_append.mp ran
  obtain ⟨next, stepped, rest⟩ := run_cons.mp rest
  exact (finish_chars finished).2 (run_keeps rest (step_reads foreign stepped))

theorem set_chars (dict : Dict) (key : Str) (v : Val) : ∀ x ∈ charsEntries (dict.set key v),
    x ∈ charsEntries dict ∨ x ∈ key ∨ x ∈ chars v := by
  intro x member
  unfold Dict.set at member
  split at member
  · clear * - member
    induction dict with
    | nil => exact Or.inl member
    | cons entry dict ih =>
        obtain ⟨key', v'⟩ := entry
        rw [List.map_cons] at member
        rw [charsEntries, List.mem_append, List.mem_append]
        split at member
        · rw [charsEntries, List.mem_append, List.mem_append] at member
          tauto
        · rw [charsEntries, List.mem_append, List.mem_append] at member
          tauto
  · rw [charsEntries_append, List.mem_append, charsEntries, charsEntries, List.append_nil,
      List.mem_append] at member
    exact member

mutual

theorem collapse_chars : ∀ v, chars (collapse v) ⊆ chars v
  | .list items => by
      rw [collapse, chars, chars]
      exact collapseItems_chars items
  | .dict entries => by
      rw [collapse, chars, chars]
      intro x member
      exact (collapseEntries_chars [] entries x member).resolve_left List.not_mem_nil
  | .none => List.Subset.refl _
  | .bool _ => List.Subset.refl _
  | .int _ => List.Subset.refl _
  | .float _ => List.Subset.refl _
  | .str _ => List.Subset.refl _

theorem collapseItems_chars : ∀ items, charsItems (collapseItems items) ⊆ charsItems items
  | [] => List.Subset.refl _
  | item :: items => by
      rw [collapseItems, charsItems, charsItems]
      exact List.append_subset.mpr
        ⟨List.Subset.trans (collapse_chars item) (List.subset_append_left _ _),
          List.Subset.trans (collapseItems_chars items) (List.subset_append_right _ _)⟩

theorem collapseEntries_chars : ∀ (dict : Dict) (entries : List (Str × Val)),
    ∀ x ∈ charsEntries (collapseEntries dict entries),
      x ∈ charsEntries dict ∨ x ∈ charsEntries entries
  | dict, [] => fun x member => Or.inl member
  | dict, (key, v) :: entries => by
      intro x member
      rw [collapseEntries] at member
      rw [charsEntries, List.mem_append, List.mem_append]
      rcases collapseEntries_chars _ entries x member with set | rest
      · rcases set_chars dict key (collapse v) x set with here | here | here
        · exact Or.inl here
        · exact Or.inr (Or.inl here)
        · exact Or.inr (Or.inr (Or.inl (collapse_chars v here)))
      · exact Or.inr (Or.inr (Or.inr rest))

end

end Json
