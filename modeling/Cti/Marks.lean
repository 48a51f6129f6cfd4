import Cti.PyText

set_option autoImplicit false

/- Texts in which some pieces are written as marks, and replacing the marks again. -/
namespace Py

variable {src dst : Str}

/-- A pass goes on behind what the last match covers. -/
theorem sub_skip {m : Matcher} (front s : Str) :
    ∀ before, ∃ before', sub m before front.length (front ++ s) = sub m before' 0 s := by
  induction front with
  | nil => intro before; exact ⟨before, rfl⟩
  | cons c front ih => intro before; exact ih (some c)

/-- A match is replaced, and the pass goes on behind it. -/
theorem sub_match {m : Matcher} {front s text : Str} {before : Option Char} (nonempty : front ≠ [])
    (found : m before (front ++ s) = some (front.length, text)) :
    ∃ before', sub m before 0 (front ++ s) = text ++ sub m before' 0 s := by
  obtain ⟨c, tail, rfl⟩ := List.exists_cons_of_ne_nil nonempty
  obtain ⟨before', skips⟩ := @sub_skip m tail s (some c)
  rw [List.cons_append] at found ⊢
  rw [sub, found]
  exact ⟨before', congrArg (text ++ ·) skips⟩

/-- A character that every match leaves behind is not lost. -/
theorem mem_sub {m : Matcher} {s : Str} {c : Char}
    (leaves : ∀ before rest length text, m before rest = some (length, text) → c ∈ text)
    (member : c ∈ s) : ∀ before, c ∈ sub m before 0 s := by
  induction s with
  | nil => cases member
  | cons d s ih =>
      intro before
      cases found : m before (d :: s) with
      | some result =>
          simp only [sub, found, List.mem_append]
          exact Or.inl (leaves before (d :: s) result.1 result.2 found)
      | none =>
          simp only [sub, found, List.mem_cons]
          rcases List.mem_cons.mp member with rfl | later
          · exact Or.inl rfl
          · exact Or.inr (ih later (some d))

/-- A pattern that matches nowhere leaves the text as it is. -/
theorem sub_of_none {m : Matcher} {s : Str}
    (miss : ∀ front rest, s = front ++ rest → ∀ before, m before rest = none) :
    ∀ before, sub m before 0 s = s := by
  induction s with
  | nil => intro before; rfl
  | cons c s ih =>
      intro before
      rw [sub, miss [] (c :: s) rfl before]
      apply congrArg (c :: ·)
      apply ih
      intro front rest same
      exact miss (c :: front) rest (by rw [same, List.cons_append])

theorem sub_literal_before (s : Str) : ∀ before before' skip,
    sub (literal src dst) before skip s = sub (literal src dst) before' skip s := by
  induction s with
  | nil => intro before before' skip; rw [sub, sub]
  | cons c s ih =>
      intro before before' skip
      cases skip with
      | zero => rw [sub, sub]; rfl
      | succ skip => rw [sub, sub]

theorem replace_cons {c : Char} {s : Str} (other : ¬ src <+: c :: s) :
    replace src dst (c :: s) = c :: replace src dst s := by
  have miss : src.isPrefixOf (c :: s) = false := by
    rw [← Bool.not_eq_true, List.isPrefixOf_iff_prefix]
    exact other
  rw [replace, sub, literal, miss]
  exact congrArg (c :: ·) (sub_literal_before s _ _ _)

/-- Replacing in a text that starts with what is replaced. -/
theorem replace_append (nonempty : src ≠ []) (s : Str) :
    replace src dst (src ++ s) = dst ++ replace src dst s := by
  have hit : src.isPrefixOf (src ++ s) = true := by
    rw [List.isPrefixOf_iff_prefix]
    exact List.prefix_append src s
  have found : literal src dst none (src ++ s) = some (src.length, dst) := by
    rw [literal, hit, if_pos rfl]
  obtain ⟨before, passed⟩ := sub_match nonempty found
  rw [replace, passed]
  exact congrArg (dst ++ ·) (sub_literal_before s _ _ _)

/-- Replacing passes over a text in which no match starts. -/
theorem replace_append_plain {front s : Str}
    (plain : ∀ done c rest, front = done ++ c :: rest → ¬ src <+: c :: (rest ++ s)) :
    replace src dst (front ++ s) = front ++ replace src dst s := by
  induction front with
  | nil => rfl
  | cons c front ih =>
      rw [List.cons_append, replace_cons (plain [] c front rfl), ih, List.cons_append]
      intro done d rest same
      exact plain (c :: done) d rest (by rw [same, List.cons_append])

/-- The same text, with some pieces written as marks. A rule is a mark and the piece that it
stands for. -/
inductive Marked (rules : List (Str × Str)) : Str → Str → Prop
  | nil : Marked rules [] []
  | keep (c : Char) {s s' : Str} (marked : Marked rules s s') : Marked rules (c :: s) (c :: s')
  | mark {rule : Str × Str} (known : rule ∈ rules) {s s' : Str} (marked : Marked rules s s') :
      Marked rules (rule.2 ++ s) (rule.1 ++ s')

/-- Marks that do not run into each other: each opens with a bracket, has no further opening
bracket, and does not start another one. -/
structure Brackets (opening : Char → Bool) (rules : List (Str × Str)) : Prop where
  opens : ∀ rule ∈ rules, rule.1.head?.any opening = true ∧ rule.1.tail.all (!opening ·) = true
  apart : rules.Pairwise fun rule other => ¬ rule.1 <+: other.1 ∧ ¬ other.1 <+: rule.1

namespace Marked

variable {rules : List (Str × Str)} {opening : Char → Bool} {s s' : Str}

theorem append {t t' : Str} (first : Marked rules s s') (second : Marked rules t t') :
    Marked rules (s ++ t) (s' ++ t') := by
  induction first with
  | nil => exact second
  | keep c _ ih => exact .keep c ih
  | mark known _ ih =>
      rw [List.append_assoc, List.append_assoc]
      exact .mark known ih

theorem refl (s : Str) : Marked rules s s := by
  induction s with
  | nil => exact .nil
  | cons c s ih => exact .keep c ih

theorem mono {more : List (Str × Str)} (known : ∀ rule ∈ rules, rule ∈ more)
    (marked : Marked rules s s') : Marked more s s' := by
  induction marked with
  | nil => exact .nil
  | keep c _ ih => exact .keep c ih
  | mark here _ ih => exact .mark (known _ here) ih

theorem unmarked (marked : Marked [] s s') : s' = s := by
  induction marked with
  | nil => rfl
  | keep c _ ih => rw [ih]
  | mark known _ _ => cases known

/-- A text without an opening bracket stands at the start of the marked text only where it
stands at the start of the text itself. -/
theorem starts (brackets : Brackets opening rules) (marked : Marked rules s s') {text : Str}
    (closed : ∀ c ∈ text, opening c = false) (start : text <+: s') : text <+: s := by
  induction marked generalizing text with
  | nil => exact start
  | keep c _ ih =>
      cases text with
      | nil => exact List.nil_prefix
      | cons d text =>
          obtain ⟨rfl, rest⟩ := List.cons_prefix_cons.mp start
          apply List.cons_prefix_cons.mpr ⟨rfl, _⟩
          exact ih (fun c member => closed c (List.mem_cons_of_mem _ member)) rest
  | @mark rule known s s' _ _ =>
      cases text with
      | nil => exact List.nil_prefix
      | cons d text =>
          have first := (brackets.opens rule known).1
          cases mark : rule.1 with
          | nil => rw [mark] at first; cases first
          | cons o tail =>
              rw [mark] at first start
              obtain ⟨rfl, _⟩ := List.cons_prefix_cons.mp start
              have closes := closed d List.mem_cons_self
              rw [List.head?_cons, Option.any_some, closes] at first
              cases first

/-- Replacing the marks of one rule leaves those of the others, if its mark does not stand in
the text itself. -/
theorem replace {rule : Str × Str} (brackets : Brackets opening (rule :: rules))
    (absent : ¬ rule.1 <:+: s) (marked : Marked (rule :: rules) s s') :
    Marked rules s (Py.replace rule.1 rule.2 s') := by
  have opens := brackets.opens rule List.mem_cons_self
  obtain ⟨o, tail, mark⟩ : ∃ o tail, rule.1 = o :: tail := by
    cases mark : rule.1 with
    | nil => rw [mark] at opens; cases opens.1
    | cons o tail => exact ⟨o, tail, rfl⟩
  have opener : opening o = true := by simpa [mark] using opens.1
  have closed : ∀ c ∈ tail, opening c = false := by simpa [mark] using opens.2
  induction marked with
  | nil => exact .nil
  | @keep c s s' inner ih =>
      have other : ¬ rule.1 <+: c :: s' := by
        intro start
        rw [mark] at start absent
        obtain ⟨rfl, rest⟩ := List.cons_prefix_cons.mp start
        apply absent
        apply List.IsPrefix.isInfix
        exact List.cons_prefix_cons.mpr ⟨rfl, inner.starts brackets closed rest⟩
      rw [replace_cons other]
      exact .keep c (ih fun inside => absent (inside.trans (List.suffix_cons c s).isInfix))
  | @mark found known s s' inner ih =>
      have rest := ih fun inside => absent (inside.trans (List.suffix_append found.2 s).isInfix)
      rcases List.mem_cons.mp known with rfl | other
      · rw [replace_append (by rw [mark]; exact List.cons_ne_nil o tail)]
        exact (refl found.2).append rest
      · rw [replace_append_plain]
        · exact .mark other rest
        · intro done c more same start
          have apart := (List.pairwise_cons.mp brackets.apart).1 found other
          cases done with
          | nil =>
              rw [List.nil_append] at same
              rw [← List.cons_append, ← same] at start
              rcases List.prefix_or_prefix_of_prefix start (List.prefix_append found.1 s') with
                shorter | longer
              · exact apart.1 shorter
              · exact apart.2 longer
          | cons d done =>
              have inside := (brackets.opens found known).2
              rw [same, List.cons_append, List.tail_cons, List.all_append, Bool.and_eq_true,
                List.all_cons, Bool.and_eq_true] at inside
              rw [mark] at start
              obtain ⟨rfl, _⟩ := List.cons_prefix_cons.mp start
              rw [opener] at inside
              cases inside.2.1

/-- Replacing all marks, one rule after the other, brings the text back. -/
theorem replaceAll (brackets : Brackets opening rules) (absent : ∀ rule ∈ rules, ¬ rule.1 <:+: s)
    (marked : Marked rules s s') :
    rules.foldl (fun out rule => Py.replace rule.1 rule.2 out) s' = s := by
  induction rules generalizing s' with
  | nil => exact marked.unmarked
  | cons rule rules ih =>
      have rest : Brackets opening rules :=
        ⟨fun other member => brackets.opens other (List.mem_cons_of_mem _ member),
          (List.pairwise_cons.mp brackets.apart).2⟩
      apply ih rest fun other member => absent other (List.mem_cons_of_mem _ member)
      exact marked.replace brackets (absent rule List.mem_cons_self)

/-- Each mark stands for one character. -/
def Single (rules : List (Str × Str)) : Prop := ∀ rule ∈ rules, rule.2.length = 1

/-- Marks of single characters do not join two texts. -/
theorem split (single : Single rules) {a b : Str} (marked : Marked rules (a ++ b) s') :
    ∃ a' b', s' = a' ++ b' ∧ Marked rules a a' ∧ Marked rules b b' := by
  induction a generalizing s' with
  | nil => exact ⟨[], s', rfl, .nil, marked⟩
  | cons c a ih =>
      generalize whole : c :: a ++ b = text at marked
      cases marked with
      | nil => cases whole
      | @keep d t t' inner =>
          rw [List.cons_append, List.cons.injEq] at whole
          obtain ⟨rfl, rfl⟩ := whole
          obtain ⟨a', b', rfl, first, second⟩ := ih inner
          exact ⟨c :: a', b', rfl, .keep c first, second⟩
      | @mark rule known t t' inner =>
          obtain ⟨d, piece⟩ := List.length_eq_one_iff.mp (single rule known)
          rw [piece, List.cons_append, List.cons_append, List.nil_append, List.cons.injEq] at whole
          obtain ⟨rfl, rfl⟩ := whole
          obtain ⟨a', b', rfl, first, second⟩ := ih inner
          refine ⟨rule.1 ++ a', b', by rw [List.append_assoc], ?_, second⟩
          rw [← List.singleton_append, ← piece]
          exact .mark known first

/-- The characters of a marked text are those of the text and of the marks. -/
theorem forall_mem {P : Char → Prop} (marks : ∀ rule ∈ rules, ∀ c ∈ rule.1, P c)
    (plain : ∀ c ∈ s, P c) (marked : Marked rules s s') : ∀ c ∈ s', P c := by
  induction marked with
  | nil => exact plain
  | @keep c s s' _ ih =>
      have rest := ih fun d member => plain d (List.mem_cons_of_mem c member)
      exact List.forall_mem_cons.mpr ⟨plain c List.mem_cons_self, rest⟩
  | @mark rule known s s' _ ih =>
      have rest := ih fun d member => plain d (List.mem_append_right rule.2 member)
      exact List.forall_mem_append.mpr ⟨marks rule known, rest⟩

/-- Nothing is marked in a text that lacks something of each piece. -/
theorem eq_of_absent (absent : ∀ rule ∈ rules, ∃ c ∈ rule.2, c ∉ s) (marked : Marked rules s s') :
    s' = s := by
  induction marked with
  | nil => rfl
  | @keep c s s' _ ih =>
      rw [ih fun rule known => ?_]
      obtain ⟨d, piece, other⟩ := absent rule known
      exact ⟨d, piece, fun member => other (List.mem_cons_of_mem c member)⟩
  | @mark rule known s s' _ _ =>
      obtain ⟨c, piece, other⟩ := absent rule known
      exact absurd (List.mem_append_left s piece) other

/-- What was replaced can be put back. -/
theorem of_replace (nonempty : src ≠ []) (s : Str) :
    Marked [(src, dst)] (Py.replace src dst s) s := by
  generalize size : s.length = n
  induction n using Nat.strongRecOn generalizing s with
  | ind n ih =>
      by_cases start : src <+: s
      · obtain ⟨rest, rfl⟩ := start
        have shorter : rest.length < n := by
          have positive := List.length_pos_iff.mpr nonempty
          rw [List.length_append] at size
          omega
        rw [replace_append nonempty]
        exact @Marked.mark _ (src, dst) List.mem_cons_self _ _ (ih _ shorter rest rfl)
      · cases s with
        | nil => exact .nil
        | cons c s =>
            rw [replace_cons start]
            apply Marked.keep c
            apply ih s.length _ s rfl
            rw [List.length_cons] at size
            omega

/-- The marks change the weight of the text, or there are none of them. -/
theorem lighter {w : Char → Nat} {kept : List (Str × Str)}
    (light : ∀ rule ∈ rules, rule ∈ kept ∧ total w rule.1 = total w rule.2 ∨
      total w rule.1 < total w rule.2) (marked : Marked rules s s') :
    Marked kept s s' ∧ total w s' = total w s ∨ total w s' < total w s := by
  induction marked with
  | nil => exact Or.inl ⟨.nil, rfl⟩
  | keep c _ ih =>
      rw [total_cons, total_cons]
      rcases ih with ⟨same, weight⟩ | less
      · exact Or.inl ⟨.keep c same, by rw [weight]⟩
      · exact Or.inr (by omega)
  | @mark rule known s s' _ ih =>
      rw [total_append, total_append]
      rcases light rule known with ⟨here, equal⟩ | less <;> rcases ih with ⟨same, weight⟩ | less'
      · exact Or.inl ⟨.mark here same, by rw [equal, weight]⟩
      all_goals exact Or.inr (by omega)

/-- Marks that weigh more than their pieces make the text heavier. -/
theorem heavier {w : Char → Nat} (heavy : ∀ rule ∈ rules, total w rule.2 < total w rule.1)
    (marked : Marked rules s s') : s' = s ∨ total w s < total w s' := by
  induction marked with
  | nil => exact Or.inl rfl
  | keep c _ ih =>
      rw [total_cons, total_cons]
      rcases ih with same | more
      · exact Or.inl (by rw [same])
      · exact Or.inr (by omega)
  | @mark rule known s s' _ ih =>
      have more := heavy rule known
      rw [total_append, total_append]
      rcases ih with same | more'
      · rw [same]
        exact Or.inr (by omega)
      · exact Or.inr (by omega)

/-- Neither the marks nor their pieces are empty, and no space is in them. -/
def Solid (rules : List (Str × Str)) : Prop :=
  ∀ rule ∈ rules, rule.1 ≠ [] ∧ rule.2 ≠ [] ∧ rule.1.all (!isSpace ·) = true ∧
    rule.2.all (!isSpace ·) = true

theorem Solid.head {rule : Str × Str} (solid : Solid rules) (known : rule ∈ rules) (t : Str) :
    ∃ c, (rule.1 ++ t).head? = some c ∧ isSpace c = false := by
  obtain ⟨mark, _, plain, _⟩ := solid rule known
  obtain ⟨c, tail, same⟩ := List.exists_cons_of_ne_nil mark
  rw [same] at plain ⊢
  exact ⟨c, rfl, by simpa using (List.all_eq_true.mp plain) c List.mem_cons_self⟩

theorem nil_iff (solid : Solid rules) (marked : Marked rules s s') : s' = [] ↔ s = [] := by
  cases marked with
  | nil => rfl
  | keep c _ => simp
  | mark known _ => simp [(solid _ known).1, (solid _ known).2.1]

/-- What no piece starts with stays in front. -/
theorem kept_append {front : Str}
    (pieces : ∀ rule ∈ rules, ∃ c, rule.2.head? = some c ∧ c ∉ front)
    (marked : Marked rules (front ++ s) s') : ∃ rest, s' = front ++ rest ∧ Marked rules s rest := by
  induction front generalizing s' with
  | nil => exact ⟨s', rfl, marked⟩
  | cons c front ih =>
      generalize whole : c :: front ++ s = text at marked
      cases marked with
      | nil => cases whole
      | keep d inner =>
          rw [List.cons_append, List.cons.injEq] at whole
          obtain ⟨rfl, rfl⟩ := whole
          have later : ∀ rule ∈ rules, ∃ e, rule.2.head? = some e ∧ e ∉ front := by
            intro rule known
            obtain ⟨e, head, absent⟩ := pieces rule known
            exact ⟨e, head, fun member => absent (List.mem_cons_of_mem c member)⟩
          obtain ⟨rest, rfl, marked⟩ := ih later inner
          exact ⟨rest, rfl, marked⟩
      | @mark rule known t t' _ =>
          obtain ⟨e, head, absent⟩ := pieces rule known
          obtain ⟨tail, same⟩ := List.head?_eq_some_iff.mp head
          rw [same, List.cons_append, List.cons_append, List.cons.injEq] at whole
          rw [whole.1] at absent
          exact absurd List.mem_cons_self absent

/-- Spaces in front of the text stand in front of the marked text. -/
theorem spaces_append (solid : Solid rules) {space : Str} (spaces : ∀ c ∈ space, isSpace c = true)
    (marked : Marked rules (space ++ s) s') : ∃ rest, s' = space ++ rest ∧ Marked rules s rest := by
  apply kept_append _ marked
  intro rule known
  obtain ⟨_, piece, _, plain⟩ := solid rule known
  obtain ⟨c, tail, same⟩ := List.exists_cons_of_ne_nil piece
  refine ⟨c, by rw [same]; rfl, fun member => ?_⟩
  rw [same, List.all_cons, spaces c member] at plain
  cases plain

/-- Spaces behind the text stand behind the marked text. -/
theorem append_spaces (solid : Solid rules) {space : Str} (spaces : ∀ c ∈ space, isSpace c = true)
    (marked : Marked rules (s ++ space) s') :
    ∃ front, s' = front ++ space ∧ Marked rules s front := by
  generalize whole : s ++ space = text at marked
  induction marked generalizing s with
  | nil =>
      obtain ⟨rfl, rfl⟩ := List.append_eq_nil_iff.mp whole
      exact ⟨[], rfl, .nil⟩
  | @keep c t t' inner ih =>
      cases s with
      | nil =>
          obtain ⟨rest, same, marked⟩ := @spaces_append rules [] (c :: t') solid space spaces
            (by rw [List.append_nil, ← List.nil_append space, whole]; exact .keep c inner)
          generalize nothing : ([] : Str) = empty at marked
          cases marked with
          | nil => exact ⟨[], by simpa using same, .nil⟩
          | keep _ _ => cases nothing
          | mark known _ =>
              exact absurd (List.append_eq_nil_iff.mp nothing.symm).1 (solid _ known).2.1
      | cons d s =>
          rw [List.cons_append, List.cons.injEq] at whole
          obtain ⟨rfl, whole⟩ := whole
          obtain ⟨front, rfl, marked⟩ := ih whole
          exact ⟨d :: front, rfl, .keep d marked⟩
  | @mark rule known t t' inner ih =>
      obtain ⟨_, piece, _, plain⟩ := solid rule known
      rcases List.append_eq_append_iff.mp whole with ⟨more, same, tail⟩ | ⟨more, same, tail⟩
      · have nothing : more = [] := by
          cases more with
          | nil => rfl
          | cons c more =>
              have space := spaces c (by rw [tail]; exact List.mem_cons_self)
              have solid := (List.all_eq_true.mp plain) c (by rw [same]; simp)
              rw [space] at solid
              cases solid
        rw [nothing, List.append_nil] at same
        rw [nothing, List.nil_append] at tail
        obtain ⟨front, rfl, marked⟩ := @ih [] (by rw [List.nil_append, tail])
        refine ⟨rule.1 ++ front, by rw [List.append_assoc], ?_⟩
        rw [← same, ← List.append_nil rule.2]
        exact .mark known marked
      · obtain ⟨front, rfl, marked⟩ := ih tail.symm
        refine ⟨rule.1 ++ front, by rw [List.append_assoc], ?_⟩
        rw [same]
        exact .mark known marked

theorem head_space (solid : Solid rules) (marked : Marked rules s s') {c : Char}
    (head : s'.head? = some c) : s.head? = some c ∨ isSpace c = false := by
  cases marked with
  | nil => exact Or.inl head
  | keep d _ => exact Or.inl (by simpa using head)
  | @mark rule known t t' _ =>
      obtain ⟨d, first, plain⟩ := solid.head known t'
      rw [first, Option.some.injEq] at head
      exact Or.inr (head ▸ plain)

theorem last_space (solid : Solid rules) (marked : Marked rules s s') {c : Char}
    (last : s'.getLast? = some c) : s.getLast? = some c ∨ isSpace c = false := by
  induction marked with
  | nil => exact Or.inl last
  | @keep d s s' inner ih =>
      cases inner with
      | nil => exact Or.inl last
      | keep e _ => exact (ih (by simpa using last)).imp (by simp) id
      | @mark rule known t t' _ =>
          obtain ⟨mark, piece, _, _⟩ := solid rule known
          rw [List.getLast?_cons_of_ne_nil (by simp [mark])] at last
          rw [List.getLast?_cons_of_ne_nil (by simp [piece])]
          exact ih last
  | @mark rule known s s' inner ih =>
      obtain ⟨mark, piece, plain, _⟩ := solid rule known
      by_cases nothing : s' = []
      · rw [nothing, List.append_nil] at last
        have member := List.mem_of_getLast? last
        exact Or.inr (by simpa using (List.all_eq_true.mp plain) c member)
      · rw [List.getLast?_append_of_ne_nil _ nothing] at last
        rcases ih last with here | solid
        · apply Or.inl
          rw [List.getLast?_append_of_ne_nil _ (by rintro rfl; cases here)]
          exact here
        · exact Or.inr solid

theorem trimmed (solid : Solid rules) (marked : Marked rules s s') (trimmed : Trimmed s) :
    Trimmed s' := by
  refine ⟨fun c head => ?_, fun c last => ?_⟩
  · exact (marked.head_space solid head).elim (trimmed.1 c) id
  · exact (marked.last_space solid last).elim (trimmed.2 c) id

end Marked

/-- Trimming a marked text. -/
theorem Marked.strip {rules : List (Str × Str)} {s s' : Str} (solid : Solid rules)
    (marked : Marked rules s s') : Marked rules (Py.strip s) (Py.strip s') := by
  obtain ⟨front, back, same, before, after⟩ := strip_spaces s
  rw [same, List.append_assoc] at marked
  obtain ⟨rest, rfl, tail⟩ := marked.spaces_append solid before
  obtain ⟨text, rfl, inner⟩ := tail.append_spaces solid after
  rw [← List.append_assoc, strip_of_spaces before (inner.trimmed solid (trimmed_strip s)) after]
  exact inner

end Py
