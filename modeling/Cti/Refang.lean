import Cti.Hashing

set_option autoImplicit false

namespace Cti

open Py (Str Unicode total)

/-- Counts what the defang patterns of the code are made of: brackets and the two x of
`hxxp`; and spaces, which trimming removes. -/
def defangWeight (c : Char) : Nat :=
  if Py.isSpace c ∨ c = '[' ∨ c = '(' ∨ c = '{' ∨ c = 'x' ∨ c = 'X' then 1 else 0

theorem lowers_defangWeight (U : Unicode) : U.Lowers defangWeight := by
  refine ⟨by decide, by decide, ?_⟩
  intro c plain
  by_cases heavy : Py.isSpace c ∨ c = '[' ∨ c = '(' ∨ c = '{' ∨ c = 'x' ∨ c = 'X'
  · have single : total defangWeight (U.lowerChar c) ≤ 1 := by
      rcases heavy with space | rfl | rfl | rfl | rfl | rfl
      · rw [U.lower_space c space, Py.total_cons, Py.total_nil]
        unfold defangWeight
        split <;> omega
      · rw [U.lower_ascii _ (by decide)]; decide
      · rw [U.lower_ascii _ (by decide)]; decide
      · rw [U.lower_ascii _ (by decide)]; decide
      · rw [U.lower_ascii _ (by decide)]; decide
      · rw [U.lower_ascii _ (by decide)]; decide
    rwa [defangWeight, if_pos heavy]
  · have light : ∀ d ∈ U.lowerChar c, defangWeight d = 0 := by
      intro d member
      rw [defangWeight, if_neg]
      simp only [not_or] at heavy ⊢
      obtain ⟨space, square, round, curly, small, large⟩ := heavy
      have keep : ∀ e, Py.isAscii e = true → e.isAlpha = false → c ≠ e → d ≠ e := by
        rintro e ascii symbol other rfl
        exact other (U.lower_symbol c d member ascii symbol)
      refine ⟨?_, keep '[' (by decide) (by decide) square, keep '(' (by decide) (by decide) round,
        keep '{' (by decide) (by decide) curly, ?_, ?_⟩
      · rw [U.lower_not_space c (by simpa using space) d member]
        simp
      · rintro rfl
        rcases U.lower_x c member with rfl | rfl
        · exact small rfl
        · exact large rfl
      · rintro rfl
        have settled := (U.lower_settled c plain 'X' member).2
        rw [U.lower_ascii 'X' (by decide)] at settled
        exact absurd settled (by decide)
    rw [Py.total_le_of_forall light]
    exact Nat.zero_le _

theorem startsIgnoringCase_append {pattern rest : Str}
    (starts : startsIgnoringCase pattern rest = true) :
    ∃ front tail, rest = front ++ tail ∧ front.map Char.toLower = pattern := by
  induction pattern generalizing rest with
  | nil => exact ⟨[], rest, rfl, rfl⟩
  | cons p pattern ih =>
      cases rest with
      | nil => cases starts
      | cons c rest =>
          simp only [startsIgnoringCase, Bool.and_eq_true, beq_iff_eq] at starts
          obtain ⟨front, tail, same, lowered⟩ := ih starts.2
          exact ⟨c :: front, tail, by rw [same]; rfl, by simp [starts.1, lowered]⟩

theorem schemeEnd_append {rest s : Str} (found : schemeEnd rest = some s) :
    (s = [] ∨ s = ['s'] ∨ s = ['S'] ∨ s = ['ſ']) ∧ ∃ tail, rest = s ++ "://".toList ++ tail := by
  unfold schemeEnd at found
  split at found
  · rename_i starts
    obtain ⟨tail, rfl⟩ := List.isPrefixOf_iff_prefix.mp starts
    cases found
    exact ⟨Or.inl rfl, tail, rfl⟩
  · split at found
    · rename_i c rest _
      split at found
      · rename_i starts
        simp only [Bool.and_eq_true, Bool.or_eq_true, beq_iff_eq] at starts
        obtain ⟨letter, starts⟩ := starts
        obtain ⟨tail, rfl⟩ := List.isPrefixOf_iff_prefix.mp starts
        cases found
        refine ⟨?_, tail, rfl⟩
        rcases letter with (rfl | rfl) | rfl <;> simp
      · cases found
    · cases found

/-- What a scheme pattern matches. -/
theorem webScheme_match {U : Unicode} {head rest text : Str} {before : Option Char} {length : Nat}
    (found : webScheme U head before rest = some (length, text)) :
    ∃ front s tail, rest = front ++ (s ++ "://".toList ++ tail) ∧ front.map Char.toLower = head ∧
      (s = [] ∨ s = ['s'] ∨ s = ['S'] ∨ s = ['ſ']) ∧ length = (front ++ (s ++ "://".toList)).length ∧
      text = "http".toList ++ s ++ "://".toList := by
  unfold webScheme at found
  split at found
  · cases found
  · split at found
    · rename_i starts
      obtain ⟨front, tail, rfl, lowered⟩ := startsIgnoringCase_append starts
      have size : head.length = front.length := by rw [← lowered, List.length_map]
      simp only [Option.map_eq_some_iff, Prod.mk.injEq, size, List.drop_left] at found
      obtain ⟨s, ends, rfl, rfl⟩ := found
      obtain ⟨letter, tail, rfl⟩ := schemeEnd_append ends
      refine ⟨front, s, tail, rfl, lowered, letter, ?_, rfl⟩
      simp only [List.length_append]
      have : ("://".toList).length = 3 := by decide
      omega
    · cases found

/-- A scheme pattern that has something of weight is a shrinking one. -/
theorem webScheme_shrinks {U : Unicode} {w : Char → Nat} {head : Str}
    (heavy : ∀ front : Str, front.map Char.toLower = head → 0 < total w front)
    (light : ∀ c ∈ "http://sSſ".toList, w c = 0) : Py.Shrinks w (webScheme U head) := by
  intro before rest length text found
  obtain ⟨front, s, tail, rfl, lowered, letter, rfl, rfl⟩ := webScheme_match found
  have group : ∀ c ∈ "http".toList ++ s ++ "://".toList, w c = 0 := by
    intro c member
    apply light
    rcases letter with rfl | rfl | rfl | rfl <;>
      exact Py.forall_mem_of_all (by decide) c member
  refine ⟨?_, ?_, ?_⟩
  · simp only [List.length_append]
    have : ("://".toList).length = 3 := by decide
    omega
  · simp only [List.length_append]
    omega
  · rw [Py.total_le_of_forall group, ← List.append_assoc front (s ++ "://".toList) tail,
      List.take_left, Py.total_append]
    have := heavy front lowered
    omega

theorem toLower_x {c : Char} (lowered : c.toLower = 'x') : c = 'x' ∨ c = 'X' := by
  cases ascii : Py.isAscii c with
  | true =>
      exact Py.ascii_forall (P := fun c => c.toLower = 'x' → c = 'x' ∨ c = 'X') (by decide) ascii
        lowered
  | false =>
      rw [Py.toLower_of_not_ascii ascii] at lowered
      exact Or.inl lowered

theorem reHxxp_shrinks (U : Unicode) : Py.Shrinks defangWeight (reHxxp U) := by
  refine webScheme_shrinks ?_ (Py.forall_mem_of_all (by decide))
  intro front lowered
  have chars : "hxxp".toList = ['h', 'x', 'x', 'p'] := by decide
  obtain ⟨h, x, rest, rfl, second⟩ : ∃ h x rest, front = h :: x :: rest ∧ x.toLower = 'x' := by
    rw [chars] at lowered
    cases front with
    | nil => cases lowered
    | cons h front =>
        cases front with
        | nil => simp at lowered
        | cons x rest =>
            simp only [List.map_cons, List.cons.injEq] at lowered
            exact ⟨h, x, rest, rfl, lowered.2.1⟩
  have : defangWeight x = 1 := by
    rcases toLower_x second with rfl | rfl <;> decide
  rw [Py.total_cons, Py.total_cons]
  omega

/-- Refanging either changes nothing or makes the text lighter. -/
theorem refang_shrinks (U : Unicode) (s : Str) :
    refang U s = s ∨ total defangWeight (refang U s) < total defangWeight s := by
  have fold : ∀ pairs : List (Str × Str), (∀ pair ∈ pairs, 0 < pair.1.length ∧
      total defangWeight pair.2 < total defangWeight pair.1) → ∀ s : Str,
      pairs.foldl (fun out pair => Py.replace pair.1 pair.2 out) s = s ∨
        total defangWeight (pairs.foldl (fun out pair => Py.replace pair.1 pair.2 out) s) <
          total defangWeight s := by
    intro pairs lighter
    induction pairs with
    | nil => intro s; exact Or.inl rfl
    | cons pair pairs ih =>
        intro s
        obtain ⟨nonempty, less⟩ := lighter pair (by simp)
        have rest := ih (fun p member => lighter p (by simp [member])) (Py.replace pair.1 pair.2 s)
        rw [List.foldl_cons]
        rcases Py.replace_shrinks nonempty less s with same | shorter
        · rwa [same] at rest ⊢
        · refine Or.inr ?_
          rcases rest with same | shorter'
          · rwa [same]
          · omega
  have replaced := fold defangReplacements (by decide) s
  have schemed := Py.sub_shrinks (reHxxp_shrinks U)
    (defangReplacements.foldl (fun out pair => Py.replace pair.1 pair.2 out) s) none 0
  rw [List.drop_zero] at schemed
  unfold refang
  simp only
  rcases schemed with same | shorter
  · rwa [same]
  · refine Or.inr ?_
    rcases replaced with same | shorter'
    · rwa [same] at shorter ⊢
    · omega

theorem reHxxp_needs {U : Unicode} (before : Option Char) (rest : Str) (found : Nat × Str)
    (same : reHxxp U before rest = some found) : ∃ c ∈ rest, c = ':' := by
  obtain ⟨front, s, tail, rfl, _⟩ := @webScheme_match _ _ _ found.2 _ found.1 same
  simp

/-- A text without brackets and colons has nothing to refang. -/
theorem refang_eq_self {U : Unicode} {s : Str} (square : '[' ∉ s) (round : '(' ∉ s)
    (colon : ':' ∉ s) : refang U s = s := by
  have fold : defangReplacements.foldl (fun out pair => Py.replace pair.1 pair.2 out) s = s := by
    simp only [defangReplacements, List.foldl_cons, List.foldl_nil]
    rw [@Py.replace_eq_self "[.]".toList _ _ '[' (by decide) square,
      @Py.replace_eq_self "(.)".toList _ _ '(' (by decide) round,
      @Py.replace_eq_self "[:]".toList _ _ '[' (by decide) square,
      @Py.replace_eq_self "[at]".toList _ _ '[' (by decide) square,
      @Py.replace_eq_self "[://]".toList _ _ '[' (by decide) square]
  unfold refang
  rw [fold]
  exact Py.sub_eq_self reHxxp_needs s (fun c here same => colon (same ▸ here)) none

end Cti
