import Cti.Models

set_option autoImplicit false

/- Two trees that differ in texts only, and what is left of the difference when the values of
some keys are masked. -/
namespace Cti

open Py (Str)

namespace Val

/-- Trees that differ at most in the texts at their leaves. -/
inductive Alike : Val → Val → Prop
  | same (v : Val) : Alike v v
  | str (s t : Str) : Alike (.str s) (.str t)
  | item {v w : Val} {vs ws : List Val} (head : Alike v w) (tail : Alike (.list vs) (.list ws)) :
      Alike (.list (v :: vs)) (.list (w :: ws))
  | entry (key : Str) {v w : Val} {vs ws : Dict} (head : Alike v w)
      (tail : Alike (.dict vs) (.dict ws)) : Alike (.dict ((key, v) :: vs)) (.dict ((key, w) :: ws))

mutual

/-- The texts of a tree, from left to right. -/
def texts : Val → List Str
  | .str s => [s]
  | .list items => textsItems items
  | .dict entries => textsEntries entries
  | _ => []

def textsItems : List Val → List Str
  | [] => []
  | item :: items => item.texts ++ textsItems items

def textsEntries : Dict → List Str
  | [] => []
  | (_, value) :: entries => value.texts ++ textsEntries entries

end

/-- Texts of alike trees can be compared part by part. -/
theorem append_texts {vs ws vs' ws' : List Str} (length : vs.length = ws.length) :
    vs ++ vs' = ws ++ ws' ↔ vs = ws ∧ vs' = ws' := by
  constructor
  · exact fun same => List.append_inj same length
  · rintro ⟨rfl, rfl⟩
    rfl

theorem Alike.texts_length {v w : Val} (alike : Alike v w) : v.texts.length = w.texts.length := by
  induction alike with
  | same v => rfl
  | str s t => rfl
  | item _ _ head tail =>
      simp only [texts, textsItems, List.length_append] at tail ⊢
      rw [head, tail]
  | entry key _ _ head tail =>
      simp only [texts, textsEntries, List.length_append] at tail ⊢
      rw [head, tail]

/-- Such trees are the same if their texts are. -/
theorem Alike.eq_iff {v w : Val} (alike : Alike v w) : v = w ↔ v.texts = w.texts := by
  induction alike with
  | same v => simp
  | str s t => simp [texts]
  | @item v w vs ws head tail first rest =>
      have split : texts (.list (v :: vs)) = texts (.list (w :: ws)) ↔
          v.texts = w.texts ∧ texts (.list vs) = texts (.list ws) :=
        append_texts head.texts_length
      rw [split, ← first, ← rest]
      simp
  | @entry key v w vs ws head tail first rest =>
      have split : texts (.dict ((key, v) :: vs)) = texts (.dict ((key, w) :: ws)) ↔
          v.texts = w.texts ∧ texts (.dict vs) = texts (.dict ws) :=
        append_texts head.texts_length
      rw [split, ← first, ← rest]
      simp

section masks

variable (hidden : Str → Bool)

mutual

/-- The tree with the values of the hidden keys replaced. -/
def mask : Val → Val
  | .list items => .list (maskItems items)
  | .dict entries => .dict (maskEntries entries)
  | v => v

def maskItems : List Val → List Val
  | [] => []
  | item :: items => mask item :: maskItems items

def maskEntries : Dict → Dict
  | [] => []
  | (key, value) :: entries =>
      (key, if hidden key then .str "***".toList else mask value) :: maskEntries entries

end

mutual

/-- The texts that no mask covers. -/
def shown : Val → List Str
  | .str s => [s]
  | .list items => shownItems items
  | .dict entries => shownEntries entries
  | _ => []

def shownItems : List Val → List Str
  | [] => []
  | item :: items => shown item ++ shownItems items

def shownEntries : Dict → List Str
  | [] => []
  | (key, value) :: entries => (if hidden key then [] else shown value) ++ shownEntries entries

end

mutual

/-- The texts that a mask covers. -/
def concealed : Val → List Str
  | .list items => concealedItems items
  | .dict entries => concealedEntries entries
  | _ => []

def concealedItems : List Val → List Str
  | [] => []
  | item :: items => concealed item ++ concealedItems items

def concealedEntries : Dict → List Str
  | [] => []
  | (key, value) :: entries =>
      (if hidden key then value.texts else concealed value) ++ concealedEntries entries

end

variable {hidden}

theorem Alike.shown_length {v w : Val} (alike : Alike v w) :
    (shown hidden v).length = (shown hidden w).length := by
  induction alike with
  | same v => rfl
  | str s t => rfl
  | item _ _ head tail =>
      simp only [shown, shownItems, List.length_append] at tail ⊢
      rw [head, tail]
  | entry key _ _ head tail =>
      simp only [shown, shownEntries, List.length_append] at tail ⊢
      rw [tail]
      split
      · rfl
      · rw [head]

/-- The masked trees are the same if the texts in sight are. -/
theorem Alike.mask_eq_iff {v w : Val} (alike : Alike v w) :
    mask hidden v = mask hidden w ↔ shown hidden v = shown hidden w := by
  induction alike with
  | same v => simp
  | str s t => simp [mask, shown]
  | @item v w vs ws head tail first rest =>
      have split : shown hidden (.list (v :: vs)) = shown hidden (.list (w :: ws)) ↔
          shown hidden v = shown hidden w ∧ shown hidden (.list vs) = shown hidden (.list ws) :=
        append_texts head.shown_length
      rw [split, ← first, ← rest]
      simp [mask, maskItems]
  | @entry key v w vs ws head tail first rest =>
      have split : shown hidden (.dict ((key, v) :: vs)) = shown hidden (.dict ((key, w) :: ws)) ↔
          (hidden key = false → shown hidden v = shown hidden w) ∧
            shown hidden (.dict vs) = shown hidden (.dict ws) := by
        by_cases covered : hidden key
        · simp [shown, shownEntries, covered]
        · simpa [shown, shownEntries, covered] using append_texts head.shown_length
      rw [split, ← first, ← rest]
      by_cases covered : hidden key
      · simp [mask, maskEntries, covered]
      · simp [mask, maskEntries, covered]

theorem Alike.mask {v w : Val} (alike : Alike v w) : Alike (mask hidden v) (mask hidden w) := by
  induction alike with
  | same v => exact .same _
  | str s t => exact .str s t
  | item _ _ head tail => exact .item head tail
  | entry key _ _ head tail =>
      by_cases covered : hidden key
      · simpa [Val.mask, maskEntries, covered] using Alike.entry key (.same (.str "***".toList)) tail
      · simpa [Val.mask, maskEntries, covered] using Alike.entry key head tail

end masks

section apart

variable {hidden : Str → Bool}

/-- Trees that differ at most in the texts that a mask covers. -/
inductive Apart (hidden : Str → Bool) : Val → Val → Prop
  | same (v : Val) : Apart hidden v v
  | item {v w : Val} {vs ws : List Val} (head : Apart hidden v w)
      (tail : Apart hidden (.list vs) (.list ws)) :
      Apart hidden (.list (v :: vs)) (.list (w :: ws))
  | entry (key : Str) {v w : Val} {vs ws : Dict} (head : Apart hidden v w)
      (tail : Apart hidden (.dict vs) (.dict ws)) :
      Apart hidden (.dict ((key, v) :: vs)) (.dict ((key, w) :: ws))
  | covered (key : Str) {v w : Val} {vs ws : Dict} (covers : hidden key = true) (head : Alike v w)
      (tail : Apart hidden (.dict vs) (.dict ws)) :
      Apart hidden (.dict ((key, v) :: vs)) (.dict ((key, w) :: ws))

theorem Apart.alike {v w : Val} (apart : Apart hidden v w) : Alike v w := by
  induction apart with
  | same v => exact .same v
  | item _ _ head tail => exact .item head tail
  | entry key _ _ head tail => exact .entry key head tail
  | covered key _ head _ tail => exact .entry key head tail

/-- A mask that covers the difference hides it. -/
theorem Apart.mask {v w : Val} (apart : Apart hidden v w) : mask hidden v = mask hidden w := by
  induction apart with
  | same v => rfl
  | item _ _ head tail => simpa [Val.mask, maskItems, head] using tail
  | entry key _ _ head tail => simpa [Val.mask, maskEntries, head] using tail
  | covered key covers _ _ tail => simpa [Val.mask, maskEntries, covers] using tail

theorem Alike.concealed_length {v w : Val} (alike : Alike v w) :
    (concealed hidden v).length = (concealed hidden w).length := by
  induction alike with
  | same v => rfl
  | str s t => rfl
  | item _ _ head tail =>
      simp only [concealed, concealedItems, List.length_append] at tail ⊢
      rw [head, tail]
  | entry key alike _ head tail =>
      simp only [concealed, concealedEntries, List.length_append] at tail ⊢
      rw [tail]
      split
      · rw [alike.texts_length]
      · rw [head]

/-- Without the mask the difference shows. -/
theorem Apart.eq_iff {v w : Val} (apart : Apart hidden v w) :
    v = w ↔ concealed hidden v = concealed hidden w := by
  induction apart with
  | same v => simp
  | @item v w vs ws head tail first rest =>
      have split : concealed hidden (.list (v :: vs)) = concealed hidden (.list (w :: ws)) ↔
          concealed hidden v = concealed hidden w ∧
            concealed hidden (.list vs) = concealed hidden (.list ws) :=
        append_texts head.alike.concealed_length
      rw [split, ← first, ← rest]
      simp
  | @entry key v w vs ws head tail first rest =>
      have alike := head.alike
      have split : concealed hidden (.dict ((key, v) :: vs)) =
          concealed hidden (.dict ((key, w) :: ws)) ↔
          v = w ∧ concealed hidden (.dict vs) = concealed hidden (.dict ws) := by
        by_cases covers : hidden key
        · simpa [concealed, concealedEntries, covers, alike.eq_iff] using
            append_texts alike.texts_length
        · simpa [concealed, concealedEntries, covers, first] using
            append_texts alike.concealed_length
      rw [split, ← rest]
      simp
  | @covered key v w vs ws covers alike tail rest =>
      have split : concealed hidden (.dict ((key, v) :: vs)) =
          concealed hidden (.dict ((key, w) :: ws)) ↔
          v = w ∧ concealed hidden (.dict vs) = concealed hidden (.dict ws) := by
        simpa [concealed, concealedEntries, covers, alike.eq_iff] using
          append_texts alike.texts_length
      rw [split, ← rest]
      simp

end apart

end Val

end Cti
