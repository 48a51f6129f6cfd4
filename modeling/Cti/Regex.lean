import Cti.PyText

set_option autoImplicit false

/- Regular expressions that are matched by backtracking, as `re` does it. -/
namespace Re

open Py (Str)

/-- A place in a text: the character before it, and the text from there on. -/
structure Cursor where
  before : Option Char
  rest : Str

inductive Pattern where
  | set (accepts : Char → Bool)
  | boundary (word : Char → Bool)
  | seq (first second : Pattern)
  | alt (first second : Pattern)
  | times (body : Pattern) (least : Nat) (most : Option Nat)

/-- A greedy repetition. -/
def timesEnds (ends : Cursor → List Cursor) : Nat → Nat → Cursor → List Cursor
  | least, 0, cur => if least = 0 then [cur] else []
  | least, most + 1, cur =>
      (ends cur).flatMap (timesEnds ends (least - 1) most) ++ if least = 0 then [cur] else []

/-- The ends of the matches that begin at a place, in the order in which they are tried. A
repetition without a bound ends with the text, for what it repeats is never empty. -/
def Pattern.ends : Pattern → Cursor → List Cursor
  | .set accepts, cur =>
      match cur.rest with
      | c :: rest => if accepts c then [⟨some c, rest⟩] else []
      | [] => []
  | .boundary word, cur =>
      if cur.before.any word ≠ cur.rest.head?.any word then [cur] else []
  | .seq first second, cur => (first.ends cur).flatMap second.ends
  | .alt first second, cur => first.ends cur ++ second.ends cur
  | .times body least most, cur => timesEnds body.ends least (most.getD cur.rest.length) cur

def char (c : Char) : Pattern := .set (· == c)

/-- `p?` -/
def optional (p : Pattern) : Pattern := .times p 0 (some 1)

/-- `p{n}` -/
def exactly (p : Pattern) (n : Nat) : Pattern := .times p n (some n)

/-- `p+` -/
def many (p : Pattern) : Pattern := .times p 1 none

/-- One pattern after the other. -/
def sequence (first : Pattern) : List Pattern → Pattern
  | [] => first
  | second :: rest => .seq first (sequence second rest)

/-- The matches within a text, leftmost first and without overlaps, of a pattern that matches no
empty text. `skip` characters are still covered by the last match. -/
def findFrom (p : Pattern) : Option Char → Nat → Str → List Str
  | _, _, [] => []
  | _, skip + 1, c :: rest => findFrom p (some c) skip rest
  | before, 0, c :: rest =>
      match (p.ends ⟨before, c :: rest⟩).head? with
      | some stop =>
          let token := (c :: rest).take ((c :: rest).length - stop.rest.length)
          token :: findFrom p (some c) (token.length - 1) rest
      | none => findFrom p (some c) 0 rest

/-- `pattern.findall(text)`, for a pattern without groups. -/
def findAll (p : Pattern) (text : Str) : List Str := findFrom p none 0 text

/-- The texts that a pattern can match, wherever they stand. -/
def Pattern.Lang : Pattern → Str → Prop
  | .set accepts, s => ∃ c, s = [c] ∧ accepts c = true
  | .boundary _, s => s = []
  | .seq first second, s => ∃ front back, s = front ++ back ∧ first.Lang front ∧ second.Lang back
  | .alt first second, s => first.Lang s ∨ second.Lang s
  | .times body least most, s =>
      ∃ parts : List Str, s = parts.flatten ∧ (∀ part ∈ parts, body.Lang part) ∧
        least ≤ parts.length ∧ ∀ n, most = some n → parts.length ≤ n

/-- The match that repeats nothing. -/
theorem mem_none {P : Str → Prop} {least most : Nat} {cur stop : Cursor}
    (member : stop ∈ if least = 0 then [cur] else []) :
    ∃ parts : List Str, cur.rest = parts.flatten ++ stop.rest ∧ (∀ part ∈ parts, P part) ∧
      least ≤ parts.length ∧ parts.length ≤ most := by
  split at member
  · rename_i none
    rw [List.mem_singleton.mp member]
    exact ⟨[], rfl, nofun, none.le, Nat.zero_le _⟩
  · cases member

theorem timesEnds_sound {ends : Cursor → List Cursor} {P : Str → Prop}
    (sound : ∀ cur stop, stop ∈ ends cur → ∃ text, cur.rest = text ++ stop.rest ∧ P text)
    {least most : Nat} {cur stop : Cursor} (member : stop ∈ timesEnds ends least most cur) :
    ∃ parts : List Str, cur.rest = parts.flatten ++ stop.rest ∧ (∀ part ∈ parts, P part) ∧
      least ≤ parts.length ∧ parts.length ≤ most := by
  induction most generalizing least cur with
  | zero => exact mem_none member
  | succ most ih =>
      rw [timesEnds, List.mem_append] at member
      rcases member with more | none
      · obtain ⟨middle, first, rest⟩ := List.mem_flatMap.mp more
        obtain ⟨text, here, holds⟩ := sound cur middle first
        obtain ⟨parts, there, all, enough, few⟩ := ih rest
        refine ⟨text :: parts, ?_, List.forall_mem_cons.mpr ⟨holds, all⟩, ?_, ?_⟩
        · rw [here, there, List.flatten_cons, List.append_assoc]
        · rw [List.length_cons]
          omega
        · rw [List.length_cons]
          omega
      · exact mem_none none

/-- What is matched is a text of the pattern. -/
theorem ends_sound (p : Pattern) {cur stop : Cursor} (member : stop ∈ p.ends cur) :
    ∃ text, cur.rest = text ++ stop.rest ∧ p.Lang text := by
  induction p generalizing cur stop with
  | set accepts =>
      rw [Pattern.ends] at member
      split at member
      · rename_i c rest same
        split at member
        · rename_i accepted
          rw [List.mem_singleton.mp member]
          exact ⟨[c], same, c, rfl, accepted⟩
        · cases member
      · cases member
  | boundary word =>
      rw [Pattern.ends] at member
      split at member
      · rw [List.mem_singleton.mp member]
        exact ⟨[], rfl, rfl⟩
      · cases member
  | seq first second ih₁ ih₂ =>
      obtain ⟨middle, front, back⟩ := List.mem_flatMap.mp member
      obtain ⟨text₁, same₁, lang₁⟩ := ih₁ front
      obtain ⟨text₂, same₂, lang₂⟩ := ih₂ back
      refine ⟨text₁ ++ text₂, ?_, text₁, text₂, rfl, lang₁, lang₂⟩
      rw [same₁, same₂, List.append_assoc]
  | alt first second ih₁ ih₂ =>
      rcases List.mem_append.mp member with front | back
      · obtain ⟨text, same, lang⟩ := ih₁ front
        exact ⟨text, same, Or.inl lang⟩
      · obtain ⟨text, same, lang⟩ := ih₂ back
        exact ⟨text, same, Or.inr lang⟩
  | times body least most ih =>
      obtain ⟨parts, same, all, enough, few⟩ :=
        timesEnds_sound (fun cur stop => @ih cur stop) member
      refine ⟨parts.flatten, same, parts, rfl, all, enough, ?_⟩
      rintro n rfl
      exact few

theorem mem_findFrom {p : Pattern} {before : Option Char} {skip : Nat} {text token : Str}
    (member : token ∈ findFrom p before skip text) : p.Lang token := by
  fun_induction findFrom p before skip text with
  | case1 => cases member
  | case2 _ _ _ _ ih => exact ih member
  | case3 before c rest stop found token' ih =>
      rcases List.mem_cons.mp member with rfl | later
      · obtain ⟨text, same, lang⟩ := ends_sound p (List.mem_of_head? found)
        have matched : token' = text := by
          simp only [token']
          have whole : c :: rest = text ++ stop.rest := same
          rw [whole, List.length_append, Nat.add_sub_cancel, List.take_left]
        rw [matched]
        exact lang
      · exact ih later
  | case4 _ _ _ _ ih => exact ih member

theorem mem_findAll {p : Pattern} {text token : Str} (member : token ∈ findAll p text) :
    p.Lang token :=
  mem_findFrom member

theorem lang_boundary {word : Char → Bool} {p : Pattern} {s : Str} :
    (Pattern.seq (.boundary word) (.seq p (.boundary word))).Lang s ↔ p.Lang s := by
  constructor
  · rintro ⟨_, _, rfl, rfl, back, _, rfl, lang, rfl⟩
    simpa using lang
  · intro lang
    exact ⟨[], s, rfl, rfl, s, [], (List.append_nil s).symm, lang, rfl⟩

/-- A number of characters of a kind. -/
theorem lang_exactly {accepts : Char → Bool} {n : Nat} {s : Str} :
    (exactly (.set accepts) n).Lang s → s.length = n ∧ ∀ c ∈ s, accepts c = true := by
  rintro ⟨parts, rfl, all, enough, few⟩
  have few := few n rfl
  have count : parts.flatten.length = parts.length := by
    have ones : ∀ part ∈ parts, part.length = 1 := by
      intro part member
      obtain ⟨c, rfl, _⟩ := all part member
      rfl
    rw [List.length_flatten, List.map_congr_left ones]
    simp
  refine ⟨by omega, fun c member => ?_⟩
  obtain ⟨part, inside, here⟩ := List.mem_flatten.mp member
  obtain ⟨d, rfl, accepted⟩ := all part inside
  rwa [List.mem_singleton.mp here]

end Re
