import Cti.CanonicalForm

set_option autoImplicit false

/- The domains that canonicalization accepts, against the grammar of the label pattern. -/
namespace Py

/-- What one pass of a pattern leaves comes from the text or from a replacement. -/
theorem sub_forall {m : Matcher} {P : Char → Prop}
    (texts : ∀ before rest length text, m before rest = some (length, text) →
      (∀ c ∈ rest, P c) → ∀ c ∈ text, P c) (s : Str) (plain : ∀ c ∈ s, P c) :
    ∀ before skip, ∀ c ∈ sub m before skip s, P c := by
  induction s with
  | nil => intro before skip c member; cases member
  | cons d rest ih =>
      have tail := ih fun c member => plain c (List.mem_cons_of_mem _ member)
      intro before skip
      cases skip with
      | succ skip => exact tail (some d) skip
      | zero =>
          intro c member
          cases found : m before (d :: rest) with
          | none =>
              simp only [sub, found, List.mem_cons] at member
              rcases member with rfl | later
              · exact plain c List.mem_cons_self
              · exact tail _ _ c later
          | some result =>
              obtain ⟨length, text⟩ := result
              simp only [sub, found, List.mem_append] at member
              rcases member with here | later
              · exact texts before (d :: rest) length text found plain c here
              · exact tail _ _ c later

theorem replace_forall {P : Char → Prop} {src dst s : Str} (replacement : ∀ c ∈ dst, P c)
    (plain : ∀ c ∈ s, P c) : ∀ c ∈ replace src dst s, P c := by
  apply sub_forall _ s plain none 0
  intro before rest length text found _
  unfold literal at found
  split at found
  · cases found
    exact replacement
  · cases found

theorem lower_ascii_forall {U : Unicode} {s : Str} (ascii : ∀ c ∈ s, isAscii c = true) :
    ∀ c ∈ lower U s, isAscii c = true ∧ c.isUpper = false := by
  rw [lower_ascii_eq ascii]
  intro c member
  obtain ⟨d, here, rfl⟩ := List.mem_map.mp member
  exact ascii_forall (P := fun d => isAscii d.toLower = true ∧ d.toLower.isUpper = false) (by decide)
    (ascii d here)

end Py

namespace Cti

open Py (Str Unicode)

variable {R : Runtime}

/-- Refanging puts only ASCII characters into a text. -/
theorem refang_ascii {U : Unicode} {s : Str} (ascii : ∀ c ∈ s, Py.isAscii c = true) :
    ∀ c ∈ refang U s, Py.isAscii c = true := by
  have fold : ∀ pairs : List (Str × Str), (∀ pair ∈ pairs, ∀ c ∈ pair.2, Py.isAscii c = true) →
      ∀ s : Str, (∀ c ∈ s, Py.isAscii c = true) →
      ∀ c ∈ pairs.foldl (fun out pair => Py.replace pair.1 pair.2 out) s, Py.isAscii c = true := by
    intro pairs texts
    induction pairs with
    | nil => intro s plain; exact plain
    | cons pair pairs ih =>
        intro s plain
        apply ih fun p member => texts p (List.mem_cons_of_mem _ member)
        exact Py.replace_forall (texts pair List.mem_cons_self) plain
  have texts : ∀ pair ∈ defangReplacements, ∀ c ∈ pair.2, Py.isAscii c = true := by
    intro pair known
    apply Py.forall_mem_of_all
    revert pair
    decide
  apply Py.sub_forall _ _ (fold defangReplacements texts s ascii) none 0
  intro before rest length text found plain
  obtain ⟨front, group, tail, rfl, _, _, _, rfl⟩ := webScheme_match found
  intro c member
  simp only [List.mem_append] at member plain
  rcases member with (http | here) | slashes
  · exact Py.forall_mem_of_all (P := fun c => Py.isAscii c = true) (by decide) c http
  · exact plain c (by simp [here])
  · exact Py.forall_mem_of_all (P := fun c => Py.isAscii c = true) (by decide) c slashes

/-- The domain of an ASCII text, before it is encoded, is ASCII in lower case. -/
theorem domainText_ascii {U : Unicode} {s : Str} (ascii : ∀ c ∈ s, Py.isAscii c = true) :
    ∀ c ∈ domainText U s, Py.isAscii c = true ∧ c.isUpper = false := by
  intro c member
  apply Py.lower_ascii_forall (refang_ascii (U := U) ascii) c
  exact (Py.rstrip_initial _ _).subset member

def isLowerAlnum (c : Char) : Bool := c.isAlphanum && !c.isUpper

/-- `[a-z0-9]([a-z0-9-]{0,61}[a-z0-9])?`, as a whole. -/
inductive DomainLabel : Str → Prop
  | single {c : Char} (alnum : isLowerAlnum c = true) : DomainLabel [c]
  | long {first last : Char} {middle : Str} (head : isLowerAlnum first = true)
      (inner : ∀ c ∈ middle, isLowerAlnum c = true ∨ c = '-') (short : middle.length ≤ 61)
      (final : isLowerAlnum last = true) : DomainLabel (first :: (middle ++ [last]))

/-- A label of at most 62 characters with a line feed behind it. -/
def FedLabel (label : Str) : Prop :=
  ∃ body, DomainLabel body ∧ body.length ≤ 62 ∧ label = body ++ ['\n']

/-- The domains of the grammar: a label, or labels with dots between them. -/
def DomainGrammar (d : Str) : Prop := d ≠ [] ∧ ∀ label ∈ d.splitOn '.', DomainLabel label

/-- The domains that would be in the grammar, but for line feeds behind some labels. -/
def LineFeedDomain (d : Str) : Prop :=
  (∀ label ∈ d.splitOn '.', DomainLabel label ∨ FedLabel label) ∧
    ∃ label ∈ d.splitOn '.', FedLabel label

/-- A domain is accepted if and only if it is in the grammar, and is returned as it is. -/
structure AcceptsGrammar (R : Runtime) (v : Str) : Prop where
  succeeds : (∃ c, canonicalize R .domain v = .ok c) ↔
    DomainGrammar (domainText R.unicode (Py.strip v))
  returns : DomainGrammar (domainText R.unicode (Py.strip v)) →
    canonicalize R .domain v = .ok (domainText R.unicode (Py.strip v))
  chars : ∀ c, canonicalize R .domain v = .ok c →
    ∀ e ∈ c, isLowerAlnum e = true ∨ e = '-' ∨ e = '.'

theorem DomainLabel.isLabel {label : Str} (grammar : DomainLabel label) :
    isLabel label = true ∧ (∀ c ∈ label, isLowerAlnum c = true ∨ c = '-') := by
  have alnum : ∀ {c}, isLowerAlnum c = true → c.isAlphanum = true := by
    intro c small
    simp only [isLowerAlnum, Bool.and_eq_true] at small
    exact small.1
  cases grammar with
  | single ok =>
      refine ⟨by simp [Cti.isLabel, alnum ok], ?_⟩
      intro c member
      rw [List.mem_singleton] at member
      exact Or.inl (member ▸ ok)
  | @long first last middle head inner short final =>
      have chars : ∀ c ∈ first :: (middle ++ [last]), isLowerAlnum c = true ∨ c = '-' := by
        intro c member
        simp only [List.mem_cons, List.mem_append, List.not_mem_nil, or_false] at member
        rcases member with rfl | here | rfl
        · exact Or.inl head
        · exact inner c here
        · exact Or.inl final
      refine ⟨?_, chars⟩
      simp only [Cti.isLabel, List.head?_cons, Option.any_some, alnum head, Bool.true_and,
        Bool.and_eq_true, decide_eq_true_eq, List.all_eq_true, Bool.or_eq_true, beq_iff_eq]
      refine ⟨⟨?_, ?_⟩, fun c member => (chars c member).imp alnum id⟩
      · rw [← List.cons_append, List.getLast?_concat, Option.any_some]
        exact alnum final
      · simp only [List.length_cons, List.length_append, List.length_nil]
        omega

/-- On text without capitals the pattern of the code is the grammar. -/
theorem isLabel_domainLabel {label : Str} (small : ∀ c ∈ label, c.isUpper = false)
    (ok : isLabel label = true) : DomainLabel label := by
  have size : label.length ≤ 63 := by
    simp only [isLabel, Bool.and_eq_true, decide_eq_true_eq] at ok
    exact ok.1.2
  obtain ⟨nonempty, first, last, chars⟩ := isLabel_chars ok
  have alnum : ∀ c ∈ label, c.isAlphanum = true → isLowerAlnum c = true := by
    intro c member letter
    simp [isLowerAlnum, letter, small c member]
  obtain ⟨c, rest, rfl⟩ := List.exists_cons_of_ne_nil nonempty
  have head := alnum c List.mem_cons_self (first c rfl)
  rcases List.eq_nil_or_concat rest with rfl | ⟨middle, e, rfl⟩
  · exact .single head
  · rw [List.concat_eq_append] at *
    have final : isLowerAlnum e = true := by
      apply alnum e (by simp)
      apply last e
      rw [← List.cons_append, List.getLast?_concat]
    apply DomainLabel.long head _ _ final
    · intro d member
      have inside : d ∈ c :: (middle ++ [e]) := by simp [member]
      exact (chars d inside).imp (alnum d inside) id
    · simp only [List.length_cons, List.length_append, List.length_nil] at size
      omega

theorem domainLabel_not_fed {label : Str} (grammar : DomainLabel label) : ¬ FedLabel label := by
  rintro ⟨body, _, _, rfl⟩
  rcases grammar.isLabel.2 '\n' (by simp) with alnum | hyphen
  · exact absurd alnum (by decide)
  · exact absurd hyphen (by decide)

/-- What the pattern and the codec accept of one label in lower case. -/
theorem domainLabelMatches_iff {label : Str} (small : ∀ c ∈ label, c.isUpper = false) :
    domainLabelMatches label = true ∧ label.length < 64 ↔ DomainLabel label ∨ FedLabel label := by
  constructor
  · rintro ⟨matched, short⟩
    rw [domainLabelMatches, Bool.or_eq_true] at matched
    rcases matched with plain | feed
    · exact Or.inl (isLabel_domainLabel small plain)
    · rw [Bool.and_eq_true, beq_iff_eq] at feed
      obtain ⟨body, rfl⟩ := List.getLast?_eq_some_iff.mp feed.1
      have label := feed.2
      rw [List.dropLast_concat] at label
      apply Or.inr
      refine ⟨body, isLabel_domainLabel (fun c member => small c (by simp [member])) label, ?_, rfl⟩
      rw [List.length_append, List.length_singleton] at short
      omega
  · intro accepted
    rw [domainLabelMatches, Bool.or_eq_true]
    rcases accepted with plain | ⟨body, plain, short, rfl⟩
    · have ok := plain.isLabel.1
      refine ⟨Or.inl ok, ?_⟩
      simp only [isLabel, Bool.and_eq_true, decide_eq_true_eq] at ok
      omega
    · refine ⟨Or.inr ?_, ?_⟩
      · simp [plain.isLabel.1]
      · rw [List.length_append, List.length_singleton]
        omega

/-- What the codec and the label pattern make of the text of an ASCII domain. -/
theorem canonicalize_domain_iff {v c : Str} (ascii : ∀ e ∈ v, Py.isAscii e = true) :
    canonicalize R .domain v = .ok c ↔ c = domainText R.unicode (Py.strip v) ∧
      ∀ label ∈ c.splitOn '.', DomainLabel label ∨ FedLabel label := by
  have trimmed : ∀ e ∈ Py.strip v, Py.isAscii e = true :=
    fun e member => ascii e ((Py.strip_sublist v).subset member)
  have text := domainText_ascii (U := R.unicode) trimmed
  have encoder : ∀ d, encodeIdna R.unicode (domainText R.unicode (Py.strip v)) = some d →
      d = domainText R.unicode (Py.strip v) := by
    intro d encode
    rw [encodeIdna, if_pos (List.all_eq_true.mpr fun e member => (text e member).1)] at encode
    simp only at encode
    split at encode
    · cases encode
      rfl
    · cases encode
  have small : ∀ label ∈ (domainText R.unicode (Py.strip v)).splitOn '.',
      ∀ e ∈ label, e.isUpper = false := by
    intro label inside e member
    rw [List.splitOn_eq_splitOnP] at inside
    exact (text e (mem_of_mem_splitOnP inside e member)).2
  constructor
  · intro result
    have domain : canonicalDomain R (Py.strip v) = .ok c := by
      by_cases empty : Py.strip v = []
      · rw [canonicalize, if_pos empty] at result
        cases result
      · rw [canonicalize, if_neg empty] at result
        exact result
    obtain ⟨encode, canonical⟩ := canonicalDomain_eq domain
    cases encoder c encode
    refine ⟨rfl, fun label inside => ?_⟩
    apply (domainLabelMatches_iff (small label inside)).mp
    exact ⟨canonical.labels label inside, canonical.short label inside⟩
  · rintro ⟨rfl, accepted⟩
    have each : ∀ label ∈ (domainText R.unicode (Py.strip v)).splitOn '.',
        domainLabelMatches label = true ∧ label.length < 64 :=
      fun label inside => (domainLabelMatches_iff (small label inside)).mpr (accepted label inside)
    have canonical : CanonicalDomain (domainText R.unicode (Py.strip v)) := by
      refine ⟨fun label inside => (each label inside).1,
        fun label inside => (each label inside).2, ?_⟩
      intro e member
      by_cases dot : e = '.'
      · rw [dot]
        decide
      · obtain ⟨label, inside, here⟩ := Py.mem_splitOn member dot
        rcases (domainLabel_shape (each label inside).1).2.2.1 e here with alnum | rfl | rfl
        · simp [isDomainChar, alnum, (text e member).2]
        · decide
        · decide
    have nonempty : Py.strip v ≠ [] := by
      intro empty
      have bad := each [] (by rw [empty]; exact List.mem_singleton_self _)
      exact absurd bad.1 (by decide)
    rw [canonicalize, if_neg nonempty]
    simp only [canonicalDomain, canonical.encode, checkLabels_ok.mpr canonical.labels]
    rfl

/-- Domain canonicalization accepts the grammar, unless line feeds end some labels. -/
theorem accepts_grammar_iff {v : Str} (ascii : ∀ e ∈ v, Py.isAscii e = true) :
    AcceptsGrammar R v ↔ ¬ LineFeedDomain (domainText R.unicode (Py.strip v)) := by
  have accepted : ∀ c, canonicalize R .domain v = .ok c ↔ _ :=
    fun c => canonicalize_domain_iff (R := R) (c := c) ascii
  constructor
  · rintro spec ⟨labels, label, inside, fed⟩
    have result := (accepted _).mpr ⟨rfl, labels⟩
    have grammar := spec.succeeds.mp ⟨_, result⟩
    exact domainLabel_not_fed (grammar.2 label inside) fed
  · intro plain
    have grammar : ∀ c, canonicalize R .domain v = .ok c →
        c = domainText R.unicode (Py.strip v) ∧ ∀ label ∈ c.splitOn '.', DomainLabel label := by
      intro c result
      obtain ⟨same, labels⟩ := (accepted c).mp result
      refine ⟨same, fun label inside => ?_⟩
      rcases labels label inside with ok | fed
      · exact ok
      · rw [same] at labels inside
        exact absurd ⟨labels, label, inside, fed⟩ plain
    have returns : DomainGrammar (domainText R.unicode (Py.strip v)) →
        canonicalize R .domain v = .ok (domainText R.unicode (Py.strip v)) :=
      fun domain => (accepted _).mpr ⟨rfl, fun label inside => Or.inl (domain.2 label inside)⟩
    refine ⟨⟨?_, fun domain => ⟨_, returns domain⟩⟩, returns, ?_⟩
    · rintro ⟨c, result⟩
      obtain ⟨rfl, labels⟩ := grammar c result
      refine ⟨?_, labels⟩
      intro empty
      have bad := labels [] (by rw [empty]; exact List.mem_singleton_self _)
      exact absurd bad.isLabel.1 (by decide)
    · intro c result e member
      by_cases dot : e = '.'
      · exact Or.inr (Or.inr dot)
      · obtain ⟨label, inside, here⟩ := Py.mem_splitOn member dot
        exact (((grammar c result).2 label inside).isLabel.2 e here).imp id Or.inl

/-- A domain whose last label ends in a line feed, behind which a dot was removed. -/
theorem accepts_line_feed :
    (∀ e ∈ "example.com\n.".toList, Py.isAscii e = true) ∧
      canonicalize asciiRuntime .domain "example.com\n.".toList = .ok "example.com\n".toList ∧
      ¬ DomainGrammar (domainText asciiRuntime.unicode (Py.strip "example.com\n.".toList)) ∧
      ¬ AcceptsGrammar asciiRuntime "example.com\n.".toList := by
  have result : canonicalize asciiRuntime .domain "example.com\n.".toList =
      .ok "example.com\n".toList := by rfl
  have parts : (domainText asciiRuntime.unicode (Py.strip "example.com\n.".toList)).splitOn '.' =
      ["example".toList, "com\n".toList] := by rfl
  refine ⟨Py.forall_mem_of_all (by decide), result, ?_, ?_⟩
  · rintro ⟨_, labels⟩
    rw [parts] at labels
    exact domainLabel_not_fed (labels "com\n".toList (by simp)) ⟨"com".toList,
      isLabel_domainLabel (Py.forall_mem_of_all (by decide)) (by decide), by decide, rfl⟩
  · intro spec
    have bad := spec.chars _ result '\n' (by decide)
    exact absurd bad (by decide)

theorem accepts_grammar_iff_example :
    AcceptsGrammar asciiRuntime "www.Example[.]com.".toList := by
  apply (accepts_grammar_iff (Py.forall_mem_of_all (by decide))).mpr
  rintro ⟨_, label, inside, body, _, _, rfl⟩
  have parts : (domainText asciiRuntime.unicode (Py.strip "www.Example[.]com.".toList)).splitOn '.' =
      ["www".toList, "example".toList, "com".toList] := by rfl
  rw [parts] at inside
  have last : ∀ text ∈ ["www".toList, "example".toList, "com".toList],
      text.getLast? ≠ some '\n' := by decide
  exact last _ inside List.getLast?_concat

end Cti
