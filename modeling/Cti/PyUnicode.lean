import Cti.PyText

set_option autoImplicit false

namespace Py

/-- What a Python program reads from the Unicode database and from the IDNA profile.
`lowerChar` is the full lower-case mapping of one code point, `toAscii` the IDNA
encoding of one label with a character outside ASCII. -/
structure Unicode where
  lowerChar : Char → Str
  cased : Char → Bool
  caseIgnorable : Char → Bool
  alnum : Char → Bool
  decimal : Char → Option Nat
  nfkc : Str → Str
  toAscii : Str → Option Str
  lower_ascii : ∀ c, isAscii c = true → lowerChar c = [c.toLower]
  lower_nonempty : ∀ c, lowerChar c ≠ []
  lower_settled : ∀ c, c ≠ 'Σ' → ∀ d ∈ lowerChar c, d ≠ 'Σ' ∧ lowerChar d = [d]
  lower_sigma : lowerChar 'σ' = ['σ'] ∧ lowerChar 'ς' = ['ς']
  /-- Apart from letters, an ASCII character is the image of itself only. -/
  lower_symbol : ∀ c d, d ∈ lowerChar c → isAscii d = true → d.isAlpha = false → c = d
  lower_x : ∀ c, 'x' ∈ lowerChar c → c = 'x' ∨ c = 'X'
  lower_space : ∀ c, isSpace c = true → lowerChar c = [c]
  lower_not_space : ∀ c, isSpace c = false → ∀ d ∈ lowerChar c, isSpace d = false
  alnum_ascii : ∀ c, isAscii c = true → alnum c = c.isAlphanum
  toAscii_ascii : ∀ s t, toAscii s = some t → ∀ c ∈ t, isAscii c = true ∧ c.isUpper = false
  toAscii_length : ∀ s t, toAscii s = some t → t.length < 64

variable (U : Unicode)

/-- A capital sigma is final after a cased letter and before none; characters that case
ignores do not count. `before` is read backwards. -/
def finalSigma (before after : Str) : Bool :=
  (before.dropWhile U.caseIgnorable).head?.any U.cased &&
    !(after.dropWhile U.caseIgnorable).head?.any U.cased

def lowerAt (before : Str) (c : Char) (after : Str) : Str :=
  if c = 'Σ' then [if finalSigma U before after then 'ς' else 'σ'] else U.lowerChar c

def lowerFrom : Str → Str → Str
  | _, [] => []
  | before, c :: rest => lowerAt U before c rest ++ lowerFrom (c :: before) rest

/-- `str.lower()`. -/
def lower (s : Str) : Str := lowerFrom U [] s

/-- A character that lower-casing leaves alone wherever it stands. -/
def Settled (c : Char) : Prop := c ≠ 'Σ' ∧ U.lowerChar c = [c]

variable {U}

theorem settled_lowerAt {before after : Str} {c d : Char} (member : d ∈ lowerAt U before c after) :
    Settled U d := by
  unfold lowerAt at member
  split at member
  · have sigma : d = 'ς' ∨ d = 'σ' := by
      rw [List.mem_singleton] at member
      split at member
      · exact Or.inl member
      · exact Or.inr member
    rcases sigma with rfl | rfl
    · exact ⟨by decide, U.lower_sigma.2⟩
    · exact ⟨by decide, U.lower_sigma.1⟩
  · rename_i other
    exact U.lower_settled c other d member

theorem settled_lowerFrom (s : Str) : ∀ before, ∀ d ∈ lowerFrom U before s, Settled U d := by
  induction s with
  | nil => intro before d member; cases member
  | cons c rest ih =>
      intro before d member
      rcases List.mem_append.mp member with here | later
      · exact settled_lowerAt here
      · exact ih _ d later

theorem settled_lower {s : Str} : ∀ d ∈ lower U s, Settled U d := settled_lowerFrom s []

theorem lowerFrom_eq_self {s : Str} (settled : ∀ c ∈ s, Settled U c) :
    ∀ before, lowerFrom U before s = s := by
  induction s with
  | nil => intro before; rfl
  | cons c rest ih =>
      intro before
      obtain ⟨plain, fixed⟩ := settled c (by simp)
      have tail := ih (fun d member => settled d (by simp [member])) (c :: before)
      simp [lowerFrom, lowerAt, plain, fixed, tail]

theorem lower_eq_self {s : Str} (settled : ∀ c ∈ s, Settled U c) : lower U s = s :=
  lowerFrom_eq_self settled []

theorem lower_lower (s : Str) : lower U (lower U s) = lower U s := lower_eq_self settled_lower

theorem settled_ascii {c : Char} (ascii : isAscii c = true) (small : c.isUpper = false) :
    Settled U c := by
  refine ⟨?_, ?_⟩
  · rintro rfl
    exact absurd ascii (by decide)
  · rw [U.lower_ascii c ascii]
    have fixed : c.toLower = c :=
      ascii_forall (P := fun c => c.isUpper = false → c.toLower = c) (by decide) ascii small
    rw [fixed]

theorem lowerAt_ascii {before after : Str} {c : Char} (ascii : isAscii c = true) :
    lowerAt U before c after = [c.toLower] := by
  have plain : c ≠ 'Σ' := by
    rintro rfl
    exact absurd ascii (by decide)
  rw [lowerAt, if_neg plain, U.lower_ascii c ascii]

theorem lowerFrom_ascii {s : Str} (ascii : ∀ c ∈ s, isAscii c = true) :
    ∀ before, lowerFrom U before s = s.map Char.toLower := by
  induction s with
  | nil => intro before; rfl
  | cons c rest ih =>
      intro before
      rw [lowerFrom, lowerAt_ascii (ascii c (by simp)), ih (fun d member => ascii d (by simp [member]))]
      rfl

theorem lower_ascii_eq {s : Str} (ascii : ∀ c ∈ s, isAscii c = true) :
    lower U s = s.map Char.toLower :=
  lowerFrom_ascii ascii []

/-- Lower-casing a text keeps whatever follows it apart. -/
theorem lowerFrom_append (s t : Str) : ∀ before, ∃ s', (∀ c ∈ s', Settled U c) ∧
    lowerFrom U before (s ++ t) = s' ++ lowerFrom U (s.reverse ++ before) t := by
  induction s with
  | nil => intro before; exact ⟨[], by simp, rfl⟩
  | cons c rest ih =>
      intro before
      obtain ⟨s', settled, same⟩ := ih (c :: before)
      refine ⟨lowerAt U before c (rest ++ t) ++ s', ?_, ?_⟩
      · intro d member
        rcases List.mem_append.mp member with here | later
        · exact settled_lowerAt here
        · exact settled d later
      · simp [lowerFrom, same]

theorem mem_lowerAt_symbol {before after : Str} {c d : Char} (ascii : isAscii d = true)
    (symbol : d.isAlpha = false) (member : d ∈ lowerAt U before c after) : d = c := by
  unfold lowerAt at member
  split at member
  · rw [List.mem_singleton] at member
    rw [member] at ascii
    split at ascii <;> exact absurd ascii (by decide)
  · exact (U.lower_symbol c d member ascii symbol).symm

/-- Lower-casing brings in no ASCII character other than letters. -/
theorem mem_of_mem_lower {s : Str} {d : Char} (ascii : isAscii d = true)
    (symbol : d.isAlpha = false) (member : d ∈ lower U s) : d ∈ s := by
  have general : ∀ s before, d ∈ lowerFrom U before s → d ∈ s := by
    intro s
    induction s with
    | nil => intro before member; cases member
    | cons c rest ih =>
        intro before member
        rcases List.mem_append.mp member with here | later
        · rw [mem_lowerAt_symbol ascii symbol here]
          exact List.mem_cons_self
        · exact List.mem_cons_of_mem _ (ih _ later)
  exact general s [] member

/-- The weights that lower-casing one character never raises. -/
def Unicode.Lowers (U : Unicode) (w : Char → Nat) : Prop :=
  w 'σ' = 0 ∧ w 'ς' = 0 ∧ ∀ c, c ≠ 'Σ' → total w (U.lowerChar c) ≤ w c

theorem total_lower {w : Char → Nat} (lowers : U.Lowers w) (s : Str) :
    total w (lower U s) ≤ total w s := by
  have general : ∀ s before, total w (lowerFrom U before s) ≤ total w s := by
    intro s
    induction s with
    | nil => intro before; exact Nat.le_refl _
    | cons c rest ih =>
        intro before
        have head : total w (lowerAt U before c rest) ≤ w c := by
          unfold lowerAt
          split
          · split <;> simp [lowers.1, lowers.2.1]
          · rename_i plain
            exact lowers.2.2 c plain
        have tail := ih (c :: before)
        rw [lowerFrom, total_append, total_cons]
        omega
  exact general s []

theorem lowerAt_nonempty (before : Str) (c : Char) (after : Str) :
    lowerAt U before c after ≠ [] := by
  unfold lowerAt
  split
  · simp
  · exact U.lower_nonempty c

theorem lowerAt_space {before after : Str} {c d : Char} (member : d ∈ lowerAt U before c after) :
    isSpace d = isSpace c := by
  unfold lowerAt at member
  split at member
  · rename_i sigma
    rw [List.mem_singleton] at member
    subst sigma member
    split <;> decide
  · cases space : isSpace c with
    | true =>
        rw [U.lower_space c space, List.mem_singleton] at member
        rw [member, space]
    | false => exact U.lower_not_space c space d member

theorem lowerFrom_head {before s : Str} {d : Char} (head : (lowerFrom U before s).head? = some d) :
    ∃ c, s.head? = some c ∧ isSpace d = isSpace c := by
  cases s with
  | nil => cases head
  | cons c rest =>
      refine ⟨c, rfl, @lowerAt_space U before rest c d ?_⟩
      obtain ⟨e, more, same⟩ := List.exists_cons_of_ne_nil (lowerAt_nonempty (U := U) before c rest)
      rw [lowerFrom, same] at head
      rw [same]
      simp only [List.cons_append, List.head?_cons, Option.some.injEq] at head
      rw [head]
      exact List.mem_cons_self

theorem lowerFrom_last {s : Str} {d : Char} : ∀ {before : Str},
    (lowerFrom U before s).getLast? = some d → ∃ c, s.getLast? = some c ∧ isSpace d = isSpace c := by
  induction s with
  | nil => intro before last; cases last
  | cons c rest ih =>
      intro before last
      cases rest with
      | nil =>
          refine ⟨c, rfl, @lowerAt_space U before [] c d ?_⟩
          rw [lowerFrom, lowerFrom, List.append_nil] at last
          exact List.mem_of_getLast? last
      | cons e more =>
          have nonempty : lowerFrom U (c :: before) (e :: more) ≠ [] := by
            rw [lowerFrom]
            simp [lowerAt_nonempty]
          rw [lowerFrom, List.getLast?_append_of_ne_nil _ nonempty] at last
          obtain ⟨f, final, same⟩ := ih last
          exact ⟨f, by rw [List.getLast?_cons_cons, final], same⟩

theorem trimmed_lower {s : Str} (trimmed : Trimmed s) : Trimmed (lower U s) := by
  refine ⟨?_, ?_⟩
  · intro d head
    obtain ⟨c, first, same⟩ := lowerFrom_head head
    rw [same, trimmed.1 c first]
  · intro d last
    obtain ⟨c, final, same⟩ := lowerFrom_last last
    rw [same, trimmed.2 c final]

theorem toLower_of_not_ascii {c : Char} (other : isAscii c = false) : c.toLower = c := by
  have large : ¬ c.toNat < 128 := by simpa [isAscii] using other
  unfold Char.toLower
  rw [dif_neg]
  rintro ⟨_, most⟩
  have : c.toNat ≤ 90 := most
  omega

private theorem toLower_cases {P : Char → Char → Prop} (all : ∀ n : Fin 128, P (Char.ofNat n)
    (Char.ofNat n).toLower) (same : ∀ c, isAscii c = false → P c c) (c : Char) : P c c.toLower := by
  cases ascii : isAscii c with
  | true => exact ascii_forall (P := fun c => P c c.toLower) all ascii
  | false => rw [toLower_of_not_ascii ascii]; exact same c ascii

/-- Python's view of text that stays within ASCII: other characters have no case, and
no label with one of them is a domain label. -/
def Unicode.ascii : Unicode where
  lowerChar c := [c.toLower]
  cased := Char.isAlpha
  caseIgnorable _ := false
  alnum := Char.isAlphanum
  decimal c := if c.isDigit then some (c.toNat - '0'.toNat) else none
  nfkc s := s
  toAscii _ := none
  lower_ascii _ _ := rfl
  lower_nonempty _ := by simp
  lower_settled c plain d member := by
    rw [List.mem_singleton] at member
    subst member
    refine toLower_cases (P := fun c d => c ≠ 'Σ' → d ≠ 'Σ' ∧ [d.toLower] = [d]) ?_ ?_ c plain
    · decide
    · intro c other plain
      exact ⟨plain, by rw [toLower_of_not_ascii other]⟩
  lower_sigma := by decide
  lower_symbol c d member := by
    rw [List.mem_singleton] at member
    subst member
    refine toLower_cases (P := fun c d => isAscii d = true → d.isAlpha = false → c = d) ?_ ?_ c
    · decide
    · intro c _ _ _
      rfl
  lower_x c member := by
    rw [List.mem_singleton] at member
    refine toLower_cases (P := fun c d => 'x' = d → c = 'x' ∨ c = 'X') ?_ ?_ c member
    · decide
    · intro c _ same
      exact Or.inl same.symm
  lower_space c := by
    refine toLower_cases (P := fun c d => isSpace c = true → [d] = [c]) ?_ ?_ c
    · decide
    · intro c _ _
      rfl
  lower_not_space c other d member := by
    rw [List.mem_singleton] at member
    subst member
    refine toLower_cases (P := fun c d => isSpace c = false → isSpace d = false) ?_ ?_ c other
    · decide
    · intro c _ other
      exact other
  alnum_ascii _ _ := rfl
  toAscii_ascii _ _ none := by cases none
  toAscii_length _ _ none := by cases none

end Py
