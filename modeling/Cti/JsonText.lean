import Cti.ConfigTrees
import Cti.Normalize

set_option autoImplicit false

/- `json.dumps`, and what its text says about the tree. -/
namespace Cti

open Py (Str)

/-- The options of `json.dumps`. -/
structure JsonStyle where
  ensureAscii : Bool
  indent : Option Nat
  itemSeparator : Str
  keySeparator : Str

/-- A digit of a `\uXXXX` escape. -/
def hexDigit (n : Nat) : Char := Nat.digitChar (n % 16)

def hex4 (n : Nat) : Str := [hexDigit (n / 4096), hexDigit (n / 256), hexDigit (n / 16), hexDigit n]

def unicodeEscape (n : Nat) : Str := '\\' :: 'u' :: hex4 n

/-- The escapes of two characters. -/
def shortEscape : Char → Option Char
  | '"' => some '"'
  | '\\' => some '\\'
  | '\n' => some 'n'
  | '\r' => some 'r'
  | '\t' => some 't'
  | '\x08' => some 'b'
  | '\x0c' => some 'f'
  | _ => none

/-- A character inside a string. -/
def jsonChar (ensureAscii : Bool) (c : Char) : Str :=
  match shortEscape c with
  | some e => ['\\', e]
  | none =>
      let n := c.toNat
      if n < 32 || (ensureAscii && 126 < n) then
        if n < 0x10000 then unicodeEscape n
        else
          unicodeEscape (0xd800 + (n - 0x10000) / 1024) ++
            unicodeEscape (0xdc00 + (n - 0x10000) % 1024)
      else [c]

def jsonChars (ensureAscii : Bool) : Str → Str
  | [] => ['"']
  | c :: s => jsonChar ensureAscii c ++ jsonChars ensureAscii s

def jsonString (ensureAscii : Bool) (s : Str) : Str := '"' :: jsonChars ensureAscii s

def PyFloat.jsonText : PyFloat → Str
  | .finite _ text => text
  | .infinite negative => if negative then "-Infinity".toList else "Infinity".toList
  | .nan => "NaN".toList

def JsonStyle.newline (style : JsonStyle) (depth : Nat) : Str :=
  match style.indent with
  | some n => '\n' :: List.replicate (n * depth) ' '
  | none => []

variable (style : JsonStyle)

mutual

/-- `json.dumps`, at a depth of nesting. -/
def dumps : Nat → Val → Str
  | _, .none => "null".toList
  | _, .bool b => if b then "true".toList else "false".toList
  | _, .int n => decimalText n
  | _, .float f => f.jsonText
  | _, .str s => jsonString style.ensureAscii s
  | _, .list [] => "[]".toList
  | depth, .list (item :: items) =>
      '[' :: (style.newline (depth + 1) ++ (dumps (depth + 1) item ++ dumpsItems depth items))
  | _, .dict [] => "{}".toList
  | depth, .dict ((key, value) :: entries) =>
      '{' :: (style.newline (depth + 1) ++ (jsonString style.ensureAscii key ++
        (style.keySeparator ++ (dumps (depth + 1) value ++ dumpsEntries depth entries))))

/-- The items after the first. -/
def dumpsItems : Nat → List Val → Str
  | depth, [] => style.newline depth ++ [']']
  | depth, item :: items =>
      style.itemSeparator ++ (style.newline (depth + 1) ++
        (dumps (depth + 1) item ++ dumpsItems depth items))

/-- The entries after the first. -/
def dumpsEntries : Nat → Dict → Str
  | depth, [] => style.newline depth ++ ['}']
  | depth, (key, value) :: entries =>
      style.itemSeparator ++ (style.newline (depth + 1) ++ (jsonString style.ensureAscii key ++
        (style.keySeparator ++ (dumps (depth + 1) value ++ dumpsEntries depth entries))))

end

mutual

/-- No infinity and no NaN is in the tree. -/
def Val.isFinite : Val → Bool
  | .float (.finite _ _) => true
  | .float _ => false
  | .list items => finiteItems items
  | .dict entries => finiteEntries entries
  | _ => true

def Val.finiteItems : List Val → Bool
  | [] => true
  | item :: items => item.isFinite && finiteItems items

def Val.finiteEntries : Dict → Bool
  | [] => true
  | (_, value) :: entries => value.isFinite && finiteEntries entries

end

section characters

theorem hexDigit_inj {n m : Nat} (same : hexDigit n = hexDigit m) : n % 16 = m % 16 := by
  have table : ∀ i < 16, ∀ j < 16, Nat.digitChar i = Nat.digitChar j → i = j := by decide
  exact table _ (Nat.mod_lt n (by decide)) _ (Nat.mod_lt m (by decide)) same

theorem hex4_inj {n m : Nat} (small : n < 0x10000) (small' : m < 0x10000)
    (same : hex4 n = hex4 m) : n = m := by
  simp only [hex4, List.cons.injEq] at same
  obtain ⟨first, second, third, fourth, _⟩ := same
  have first := hexDigit_inj first
  have second := hexDigit_inj second
  have third := hexDigit_inj third
  have fourth := hexDigit_inj fourth
  omega

theorem unicodeEscape_inj {n m : Nat} {r r' : Str} (small : n < 0x10000) (small' : m < 0x10000)
    (same : unicodeEscape n ++ r = unicodeEscape m ++ r') : n = m ∧ r = r' := by
  have split := List.append_inj same rfl
  simp only [unicodeEscape, List.cons.injEq, true_and] at split
  exact ⟨hex4_inj small small' split.1, split.2⟩

theorem shortEscape_inj {c d e : Char} (first : shortEscape c = some e)
    (second : shortEscape d = some e) : c = d := by
  unfold shortEscape at first second
  split at first <;> cases first <;> split at second <;> cases second <;> rfl

theorem shortEscape_ne {c e : Char} (escape : shortEscape c = some e) : e ≠ 'u' := by
  unfold shortEscape at escape
  split at escape <;> cases escape <;> decide

/-- The four ways in which a character is written. -/
inductive JsonChar (c : Char) : Str → Prop
  | plain (quote : c ≠ '"') (escape : c ≠ '\\') : JsonChar c [c]
  | short (e : Char) (escape : shortEscape c = some e) : JsonChar c ['\\', e]
  | unicode (small : c.toNat < 0x10000) : JsonChar c (unicodeEscape c.toNat)
  | pair (high : ℕ) (low : ℕ) (value : c.toNat = 0x10000 + 1024 * high + low) (below : high < 1024)
      (rest : low < 1024) :
      JsonChar c (unicodeEscape (0xd800 + high) ++ unicodeEscape (0xdc00 + low))

theorem char_valid (c : Char) : c.toNat < 0xd800 ∨ 0xdfff < c.toNat ∧ c.toNat < 0x110000 :=
  c.valid

theorem jsonChar_cases (ensureAscii : Bool) (c : Char) : JsonChar c (jsonChar ensureAscii c) := by
  unfold jsonChar
  split
  · rename_i e escape
    exact .short e escape
  · rename_i plain
    dsimp only
    split
    · split
      · rename_i small
        exact .unicode small
      · rename_i large
        have bound := char_valid c
        exact .pair _ _ (by omega) (by omega) (by omega)
    · refine .plain ?_ ?_
      · rintro rfl
        cases plain
      · rintro rfl
        cases plain

/-- Only plain characters do without a backslash. -/
theorem JsonChar.plain_ne {c : Char} {t r r' : Str} (quote : c ≠ '\\') (same : [c] ++ r = t ++ r')
    (start : ∃ rest, t = '\\' :: rest) : False := by
  obtain ⟨rest, rfl⟩ := start
  exact quote (List.cons.inj same).1

theorem unicodeEscape_ne {e : Char} {n : Nat} {r r' : Str} (other : e ≠ 'u')
    (same : ['\\', e] ++ r = unicodeEscape n ++ r') : False :=
  other (List.cons.inj (List.cons.inj same).2).1

theorem unicodeEscape_surrogate {c : Char} {high : Nat} {r r' : Str} (small : c.toNat < 0x10000)
    (below : high < 1024) (same : unicodeEscape c.toNat ++ r = unicodeEscape (0xd800 + high) ++ r') :
    False := by
  have value := (unicodeEscape_inj small (by omega) same).1
  have bound := char_valid c
  omega

/-- One can tell where a character ends. -/
theorem JsonChar.split {c d : Char} {s t r r' : Str} (first : JsonChar c s) (second : JsonChar d t)
    (same : s ++ r = t ++ r') : c = d ∧ r = r' := by
  cases first with
  | plain quote escape =>
      cases second with
      | plain quote' escape' => exact List.cons.inj same
      | short e short => exact (JsonChar.plain_ne escape same ⟨_, rfl⟩).elim
      | unicode small => exact (JsonChar.plain_ne escape same ⟨_, rfl⟩).elim
      | pair high low value below rest => exact (JsonChar.plain_ne escape same ⟨_, rfl⟩).elim
  | short e short =>
      cases second with
      | plain quote' escape' => exact (JsonChar.plain_ne escape' same.symm ⟨_, rfl⟩).elim
      | short e' short' =>
          obtain ⟨_, rest⟩ := List.cons.inj same
          obtain ⟨rfl, tail⟩ := List.cons.inj rest
          exact ⟨shortEscape_inj short short', tail⟩
      | unicode small => exact (unicodeEscape_ne (shortEscape_ne short) same).elim
      | pair high low value below rest =>
          rw [List.append_assoc] at same
          exact (unicodeEscape_ne (shortEscape_ne short) same).elim
  | unicode small =>
      cases second with
      | plain quote' escape' => exact (JsonChar.plain_ne escape' same.symm ⟨_, rfl⟩).elim
      | short e' short' => exact (unicodeEscape_ne (shortEscape_ne short') same.symm).elim
      | unicode small' =>
          obtain ⟨value, tail⟩ := unicodeEscape_inj small small' same
          exact ⟨Char.toNat_inj.mp value, tail⟩
      | pair high low value below rest =>
          rw [List.append_assoc] at same
          exact (unicodeEscape_surrogate small below same).elim
  | pair high low value below rest =>
      cases second with
      | plain quote' escape' => exact (JsonChar.plain_ne escape' same.symm ⟨_, rfl⟩).elim
      | short e' short' =>
          rw [List.append_assoc] at same
          exact (unicodeEscape_ne (shortEscape_ne short') same.symm).elim
      | unicode small' =>
          rw [List.append_assoc] at same
          exact (unicodeEscape_surrogate small' below same.symm).elim
      | pair high' low' value' below' rest' =>
          rw [List.append_assoc, List.append_assoc] at same
          obtain ⟨first, tail⟩ := unicodeEscape_inj (by omega) (by omega) same
          obtain ⟨second, tail⟩ := unicodeEscape_inj (by omega) (by omega) tail
          refine ⟨Char.toNat_inj.mp ?_, tail⟩
          omega

/-- No character starts like the end of a string. -/
theorem JsonChar.ne_end {c : Char} {s r r' : Str} (char : JsonChar c s)
    (same : s ++ r = '"' :: r') : False := by
  cases char with
  | plain quote escape => exact quote (List.cons.inj same).1
  | short e short => cases (List.cons.inj same).1
  | unicode small => cases (List.cons.inj same).1
  | pair high low value below rest => cases (List.cons.inj same).1

theorem jsonChars_split (ensureAscii : Bool) {s t r r' : Str}
    (same : jsonChars ensureAscii s ++ r = jsonChars ensureAscii t ++ r') : s = t ∧ r = r' := by
  induction s generalizing t with
  | nil =>
      cases t with
      | nil => exact ⟨rfl, (List.cons.inj same).2⟩
      | cons d t =>
          rw [jsonChars, jsonChars, List.append_assoc] at same
          exact ((jsonChar_cases ensureAscii d).ne_end same.symm).elim
  | cons c s ih =>
      cases t with
      | nil =>
          rw [jsonChars, jsonChars, List.append_assoc] at same
          exact ((jsonChar_cases ensureAscii c).ne_end same).elim
      | cons d t =>
          rw [jsonChars, jsonChars, List.append_assoc, List.append_assoc] at same
          obtain ⟨rfl, tail⟩ := (jsonChar_cases ensureAscii c).split (jsonChar_cases ensureAscii d) same
          obtain ⟨rfl, rest⟩ := ih tail
          exact ⟨rfl, rest⟩

end characters

section trees

variable {style : JsonStyle}

/-- One can tell where the text of a tree ends, and the texts of what follows its first item or
entry. -/
structure Splits (style : JsonStyle) (v w : Val) : Prop where
  whole : ∀ {depth r r'}, dumps style depth v ++ r = dumps style depth w ++ r' → v = w ∧ r = r'
  items : ∀ {vs ws}, v = .list vs → w = .list ws → ∀ {depth r r'},
    dumpsItems style depth vs ++ r = dumpsItems style depth ws ++ r' → vs = ws ∧ r = r'
  entries : ∀ {vs ws}, v = .dict vs → w = .dict ws → ∀ {depth r r'},
    dumpsEntries style depth vs ++ r = dumpsEntries style depth ws ++ r' → vs = ws ∧ r = r'

theorem Val.Alike.splits {v w : Val} (alike : Val.Alike v w) : Splits style v w := by
  induction alike with
  | same v =>
      refine ⟨fun same => ⟨rfl, List.append_cancel_left same⟩, ?_, ?_⟩
      · rintro vs ws rfl equal depth r r' same
        cases equal
        exact ⟨rfl, List.append_cancel_left same⟩
      · rintro vs ws rfl equal depth r r' same
        cases equal
        exact ⟨rfl, List.append_cancel_left same⟩
  | str s t =>
      refine ⟨?_, nofun, nofun⟩
      intro depth r r' same
      simp only [dumps, jsonString, List.cons_append, List.cons.injEq, true_and] at same
      obtain ⟨rfl, rest⟩ := jsonChars_split style.ensureAscii same
      exact ⟨rfl, rest⟩
  | @item v w vs ws _ _ head tail =>
      have rest : ∀ {depth r r'}, dumps style (depth + 1) v ++ (dumpsItems style depth vs ++ r) =
          dumps style (depth + 1) w ++ (dumpsItems style depth ws ++ r') →
          v :: vs = w :: ws ∧ r = r' := by
        intro depth r r' same
        obtain ⟨rfl, after⟩ := head.whole same
        obtain ⟨rfl, last⟩ := tail.items rfl rfl after
        exact ⟨rfl, last⟩
      refine ⟨?_, ?_, nofun⟩
      · intro depth r r' same
        simp only [dumps, List.cons_append, List.append_assoc, List.cons.injEq, true_and,
          List.append_cancel_left_eq] at same
        obtain ⟨equal, last⟩ := rest same
        exact ⟨by rw [equal], last⟩
      · intro vs ws first second depth r r' same
        cases first
        cases second
        simp only [dumpsItems, List.append_assoc, List.append_cancel_left_eq] at same
        exact rest same
  | @entry key v w vs ws _ _ head tail =>
      have rest : ∀ {depth r r'}, dumps style (depth + 1) v ++ (dumpsEntries style depth vs ++ r) =
          dumps style (depth + 1) w ++ (dumpsEntries style depth ws ++ r') →
          (key, v) :: vs = (key, w) :: ws ∧ r = r' := by
        intro depth r r' same
        obtain ⟨rfl, after⟩ := head.whole same
        obtain ⟨rfl, last⟩ := tail.entries rfl rfl after
        exact ⟨rfl, last⟩
      refine ⟨?_, nofun, ?_⟩
      · intro depth r r' same
        simp only [dumps, List.cons_append, List.append_assoc, List.cons.injEq, true_and,
          List.append_cancel_left_eq] at same
        obtain ⟨equal, last⟩ := rest same
        exact ⟨by rw [equal], last⟩
      · intro vs ws first second depth r r' same
        cases first
        cases second
        simp only [dumpsEntries, List.append_assoc, List.append_cancel_left_eq] at same
        exact rest same

/-- Alike trees have the same text only if they are the same. -/
theorem Val.Alike.dumps_iff {v w : Val} (alike : Val.Alike v w) (depth : Nat) :
    dumps style depth v = dumps style depth w ↔ v = w := by
  constructor
  · intro same
    have splits : Splits style v w := alike.splits
    refine (splits.whole (congrArg (· ++ []) same)).1
  · rintro rfl
    rfl

theorem Val.Alike.isFinite {v w : Val} (alike : Val.Alike v w) : v.isFinite = w.isFinite := by
  induction alike with
  | same v => rfl
  | str s t => rfl
  | item _ _ head tail =>
      simp only [Val.isFinite, Val.finiteItems] at tail ⊢
      rw [head, tail]
  | entry key _ _ head tail =>
      simp only [Val.isFinite, Val.finiteEntries] at tail ⊢
      rw [head, tail]

end trees

end Cti
