import Cti.Refang

set_option autoImplicit false

namespace Cti

open Py (Str Unicode)

variable {R : Runtime}

/-- The characters of a canonical domain. A line feed can end a label. -/
def isDomainChar (c : Char) : Bool :=
  (c.isAlphanum && !c.isUpper) || c == '-' || c == '.' || c == '\n'

theorem domainChar_plain {c : Char} (domain : isDomainChar c = true) :
    Py.isAscii c = true ∧ c.isUpper = false ∧ c ≠ '[' ∧ c ≠ '(' ∧ c ≠ ':' ∧ c ≠ '@' ∧
      (Py.isSpace c = true → c = '\n') := by
  have ascii : Py.isAscii c = true := by
    simp only [isDomainChar, Bool.or_eq_true, Bool.and_eq_true, beq_iff_eq] at domain
    rcases domain with ((⟨letter, _⟩ | rfl) | rfl) | rfl
    · exact Py.alphanum_ascii letter
    all_goals decide
  exact Py.ascii_forall (P := fun c => isDomainChar c = true → Py.isAscii c = true ∧
    c.isUpper = false ∧ c ≠ '[' ∧ c ≠ '(' ∧ c ≠ ':' ∧ c ≠ '@' ∧
    (Py.isSpace c = true → c = '\n')) (by decide) ascii domain

theorem settled_not_upper {U : Unicode} {c : Char} (settled : Py.Settled U c)
    (ascii : Py.isAscii c = true) : c.isUpper = false := by
  have fixed := settled.2
  rw [U.lower_ascii c ascii, List.cons.injEq] at fixed
  exact Py.ascii_forall (P := fun c => c.toLower = c → c.isUpper = false) (by decide) ascii fixed.1

theorem toAsciiLabel_ascii {U : Unicode} {label encoded : Str}
    (settled : ∀ c ∈ label, Py.Settled U c) (encode : toAsciiLabel U label = some encoded) :
    (∀ c ∈ encoded, Py.isAscii c = true ∧ c.isUpper = false) ∧ encoded.length < 64 := by
  unfold toAsciiLabel at encode
  split at encode
  · rename_i ascii
    rw [List.all_eq_true] at ascii
    split at encode
    · rename_i length
      cases encode
      exact ⟨fun c member => ⟨ascii c member, settled_not_upper (settled c member) (ascii c member)⟩,
        length.2⟩
    · cases encode
  · exact ⟨U.toAscii_ascii label encoded encode, U.toAscii_length label encoded encode⟩

theorem mem_of_mem_splitOnP {p : Char → Bool} {s part : Str} (member : part ∈ s.splitOnP p) :
    ∀ c ∈ part, c ∈ s := by
  induction s generalizing part with
  | nil => simp_all
  | cons d s ih =>
      rw [List.splitOnP_cons_eq_if_modifyHead] at member
      intro c here
      split at member
      · rcases List.mem_cons.mp member with rfl | later
        · cases here
        · exact List.mem_cons_of_mem _ (ih later c here)
      · obtain ⟨first, rest, same⟩ := List.exists_cons_of_ne_nil (List.splitOnP_ne_nil p s)
        rw [same, List.modifyHead_cons] at member
        rcases List.mem_cons.mp member with rfl | later
        · rcases List.mem_cons.mp here with rfl | inside
          · exact List.mem_cons_self
          · exact List.mem_cons_of_mem _ (ih (by rw [same]; exact List.mem_cons_self) c inside)
        · exact List.mem_cons_of_mem _ (ih (by rw [same]; exact List.mem_cons_of_mem _ later) c here)

/-- The labels that the IDNA codec sees. -/
def idnaLabels (text : Str) : List Str :=
  if text.all Py.isAscii then text.splitOn '.' else text.splitOnP isIdnaDot

theorem mapM_some_forall {α β : Type} {f : α → Option β} {P : β → Prop} {l : List α} {m : List β}
    (mapped : l.mapM f = some m) (each : ∀ a ∈ l, ∀ b, f a = some b → P b) : ∀ b ∈ m, P b := by
  induction l generalizing m with
  | nil =>
      rw [List.mapM_nil] at mapped
      cases mapped
      nofun
  | cons a l ih =>
      simp only [List.mapM_cons, Option.bind_eq_bind, Option.bind_eq_some_iff, Option.pure_def,
        Option.some.injEq] at mapped
      obtain ⟨b, head, m, tail, rfl⟩ := mapped
      intro c member
      rcases List.mem_cons.mp member with rfl | later
      · exact each a (by simp) c head
      · exact ih tail (fun a inside => each a (by simp [inside])) c later

/-- What the IDNA codec makes of a text in lower case. -/
theorem encodeIdna_ascii {U : Unicode} {text encoded : Str} (settled : ∀ c ∈ text, Py.Settled U c)
    (encode : encodeIdna U text = some encoded) :
    (∀ c ∈ encoded, Py.isAscii c = true ∧ c.isUpper = false) ∧
      ((∀ label ∈ encoded.splitOn '.', label ≠ []) →
        ∀ label ∈ encoded.splitOn '.', label.length < 64) := by
  unfold encodeIdna at encode
  split at encode
  · rename_i ascii
    rw [List.all_eq_true] at ascii
    simp only at encode
    split at encode
    · rename_i lengths
      cases encode
      refine ⟨fun c member => ⟨ascii c member, settled_not_upper (settled c member) (ascii c member)⟩,
        ?_⟩
      intro _ label member
      simp only [Bool.and_eq_true, List.all_eq_true, decide_eq_true_eq] at lengths
      rcases List.eq_nil_or_concat (text.splitOn '.') with none | ⟨init, last, same⟩
      · exact absurd none (List.splitOn_ne_nil '.' text)
      · rw [List.concat_eq_append] at same
        rw [same, List.dropLast_concat, List.getLast?_concat] at lengths
        rw [same] at member
        rcases List.mem_append.mp member with early | final
        · exact (lengths.1 label early).2
        · rw [List.mem_singleton] at final
          rw [final]
          simpa using lengths.2
    · cases encode
  · simp only [Option.bind_eq_bind, Option.bind_eq_some_iff, Option.pure_def,
      Option.some.injEq] at encode
    obtain ⟨labels, mapped, rfl⟩ := encode
    have facts : ∀ label ∈ labels, (∀ c ∈ label, Py.isAscii c = true ∧ c.isUpper = false) ∧
        label.length < 64 := by
      refine mapM_some_forall mapped ?_
      intro label member encoded encode
      refine toAsciiLabel_ascii ?_ encode
      intro c here
      have inside : label ∈ text.splitOnP isIdnaDot := by
        split at member
        · exact List.dropLast_subset _ member
        · exact member
      exact settled c (mem_of_mem_splitOnP inside c here)
    refine ⟨?_, ?_⟩
    · intro c member
      by_cases dot : c = '.'
      · subst dot
        decide
      · rcases List.mem_append.mp member with joined | trailing
        · by_contra other
          refine Py.not_mem_intercalate (by simpa using dot) ?_ joined
          intro label inside here
          exact other ((facts label inside).1 c here)
        · split at trailing
          · simp at trailing
            exact absurd trailing dot
          · cases trailing
    · intro nonempty label member
      by_cases trailing : (text.splitOnP isIdnaDot).getLast? = some []
      · simp only [trailing, if_true] at nonempty
        exfalso
        refine nonempty [] ?_ rfl
        rw [show ['.'].intercalate labels ++ ['.'] = ['.'].intercalate labels ++ '.' :: [] from rfl,
          List.splitOn_append_cons_self]
        simp
      · simp only [trailing, if_false, List.append_nil] at member nonempty
        have some : labels ≠ [] := by
          rintro rfl
          exact nonempty [] (by simp [List.intercalate]) rfl
        have bounded := @Py.splitOn_intercalate_length '.' _ some 63
          (fun text inside => Nat.le_of_lt_succ (facts text inside).2) label member
        omega

theorem checkLabels_ok {labels : List Str} : checkLabels labels = .ok () ↔
    ∀ label ∈ labels, domainLabelMatches label = true := by
  induction labels with
  | nil => simp [checkLabels]
  | cons label labels ih =>
      unfold checkLabels
      split
      · rename_i ok
        simp [ih, ok]
      · rename_i bad
        simp [bad]

theorem isLabel_chars {label : Str} (ok : isLabel label = true) :
    label ≠ [] ∧ (∀ c, label.head? = some c → c.isAlphanum = true) ∧
      (∀ c, label.getLast? = some c → c.isAlphanum = true) ∧
      ∀ c ∈ label, c.isAlphanum = true ∨ c = '-' := by
  simp only [isLabel, Bool.and_eq_true, List.all_eq_true, Bool.or_eq_true, beq_iff_eq] at ok
  obtain ⟨⟨⟨first, last⟩, _⟩, chars⟩ := ok
  refine ⟨?_, ?_, ?_, chars⟩
  · rintro rfl
    cases first
  · intro c head
    simpa [head] using first
  · intro c final
    simpa [final] using last

/-- What a matching label looks like, with or without its line feed. -/
theorem domainLabel_shape {label : Str} (ok : domainLabelMatches label = true) :
    label ≠ [] ∧ (∀ c, label.head? = some c → c.isAlphanum = true) ∧
      (∀ c ∈ label, c.isAlphanum = true ∨ c = '-' ∨ c = '\n') ∧
      ((∀ c, label.getLast? = some c → c.isAlphanum = true) ∨
        ∃ body, label = body ++ ['\n'] ∧ body ≠ [] ∧
          ∀ c, body.getLast? = some c → c.isAlphanum = true) := by
  rw [domainLabelMatches, Bool.or_eq_true] at ok
  rcases ok with plain | feed
  · obtain ⟨nonempty, first, last, chars⟩ := isLabel_chars plain
    exact ⟨nonempty, first, fun c member => (chars c member).imp id Or.inl, Or.inl last⟩
  · rw [Bool.and_eq_true, beq_iff_eq] at feed
    obtain ⟨final, body⟩ := feed
    obtain ⟨nonempty, first, last, chars⟩ := isLabel_chars body
    have whole : label = label.dropLast ++ ['\n'] := by
      have some : label ≠ [] := by
        rintro rfl
        cases final
      rw [List.getLast?_eq_some_getLast some, Option.some.injEq] at final
      rw [← final, List.dropLast_append_getLast]
    refine ⟨?_, ?_, ?_, Or.inr ⟨label.dropLast, whole, nonempty, last⟩⟩
    · rw [whole]
      simp
    · intro c head
      rw [whole, List.head?_append_of_ne_nil _ nonempty] at head
      exact first c head
    · intro c member
      rw [whole] at member
      rcases List.mem_append.mp member with early | last
      · exact (chars c early).imp id Or.inl
      · exact Or.inr (Or.inr (by simpa using last))

/-- A domain in canonical form. -/
structure CanonicalDomain (d : Str) : Prop where
  labels : ∀ label ∈ d.splitOn '.', domainLabelMatches label = true
  short : ∀ label ∈ d.splitOn '.', label.length < 64
  chars : ∀ c ∈ d, isDomainChar c = true

/-- How a canonical domain starts and ends. -/
structure DomainEnds (d : Str) : Prop where
  first : ∃ c, d.head? = some c ∧ c.isAlphanum = true
  last : (∃ c, d.getLast? = some c ∧ c.isAlphanum = true) ∨
    ∃ body, d = body ++ ['\n'] ∧ ∃ c, body.getLast? = some c ∧ c.isAlphanum = true

theorem CanonicalDomain.ends {d : Str} (canonical : CanonicalDomain d) : DomainEnds d := by
  have whole : ['.'].intercalate (d.splitOn '.') = d := List.intercalate_splitOn '.'
  have head_of : ∀ {label : Str}, label ≠ [] → (∀ c, label.head? = some c → c.isAlphanum = true) →
      ∃ c, label.head? = some c ∧ c.isAlphanum = true := by
    intro label nonempty first
    obtain ⟨c, rest, rfl⟩ := List.exists_cons_of_ne_nil nonempty
    exact ⟨c, rfl, first c rfl⟩
  have last_of : ∀ {label : Str}, label ≠ [] →
      (∀ c, label.getLast? = some c → c.isAlphanum = true) →
      ∃ c, label.getLast? = some c ∧ c.isAlphanum = true := by
    intro label nonempty last
    have final := List.getLast?_eq_some_getLast nonempty
    exact ⟨_, final, last _ final⟩
  have joined : ∀ {init : List Str} {label : Str} {c : Char}, label.getLast? = some c →
      c.isAlphanum = true → (['.'].intercalate (init ++ [label])).getLast? = some c := by
    intro init label c final alnum
    refine (Py.intercalate_last ?_ init label).mpr final
    rintro rfl
    cases alnum
  refine ⟨?_, ?_⟩
  · obtain ⟨label, rest, same⟩ := List.exists_cons_of_ne_nil (List.splitOn_ne_nil '.' d)
    obtain ⟨nonempty, first, _⟩ :=
      domainLabel_shape (canonical.labels label (by rw [same]; exact List.mem_cons_self))
    rw [← whole, same, Py.intercalate_head nonempty]
    exact head_of nonempty first
  · rcases List.eq_nil_or_concat (d.splitOn '.') with none | ⟨init, label, same⟩
    · exact absurd none (List.splitOn_ne_nil '.' d)
    rw [List.concat_eq_append] at same
    obtain ⟨nonempty, _, _, last⟩ :=
      domainLabel_shape (canonical.labels label (by rw [same]; simp))
    rw [← whole, same]
    rcases last with plain | ⟨body, rfl, some, final⟩
    · obtain ⟨c, final, alnum⟩ := last_of nonempty plain
      exact Or.inl ⟨c, joined final alnum, alnum⟩
    · obtain ⟨c, final, alnum⟩ := last_of some final
      exact Or.inr ⟨['.'].intercalate (init ++ [body]), Py.intercalate_concat _ _ _ _, c,
        joined final alnum, alnum⟩

theorem domainChar_settled {U : Unicode} {s : Str} (chars : ∀ c ∈ s, isDomainChar c = true) :
    ∀ c ∈ s, Py.Settled U c := by
  intro c member
  have plain := domainChar_plain (chars c member)
  exact Py.settled_ascii plain.1 plain.2.1

theorem domainText_plain {U : Unicode} {s : Str} (chars : ∀ c ∈ s, isDomainChar c = true) :
    domainText U s = Py.rstrip (· == '.') s := by
  have absent : ∀ c, c ∈ ['[', '(', ':'] → c ∉ s := by
    intro c bad member
    have plain := domainChar_plain (chars c member)
    simp only [List.mem_cons, List.not_mem_nil, or_false] at bad
    rcases bad with rfl | rfl | rfl
    · exact plain.2.2.1 rfl
    · exact plain.2.2.2.1 rfl
    · exact plain.2.2.2.2.1 rfl
  rw [domainText, refang_eq_self (absent '[' (by simp)) (absent '(' (by simp)) (absent ':' (by simp)),
    Py.lower_eq_self (domainChar_settled chars)]

theorem canonicalDomain_eq {v d : Str} (result : canonicalDomain R v = .ok d) :
    encodeIdna R.unicode (domainText R.unicode v) = some d ∧ CanonicalDomain d := by
  unfold canonicalDomain at result
  split at result
  · cases result
  · rename_i domain encode
    cases check : checkLabels (domain.splitOn '.') with
    | error e =>
        rw [check] at result
        cases result
    | ok _ =>
        rw [check] at result
        cases result
        have labels := checkLabels_ok.mp check
        have settled : ∀ c ∈ domainText R.unicode v, Py.Settled R.unicode c := by
          intro c member
          exact Py.settled_lower c ((Py.rstrip_initial _ _).subset member)
        obtain ⟨ascii, short⟩ := encodeIdna_ascii settled encode
        refine ⟨encode, labels, short (fun label member => (domainLabel_shape (labels label member)).1),
          ?_⟩
        intro c member
        by_cases dot : c = '.'
        · subst dot
          decide
        · obtain ⟨label, inside, here⟩ := Py.mem_splitOn member dot
          have upper := (ascii c member).2
          rcases (domainLabel_shape (labels label inside)).2.2.1 c here with alnum | rfl | rfl
          · simp [isDomainChar, alnum, upper]
          · decide
          · decide

/-- On the characters of a canonical domain only trailing dots are removed. -/
theorem canonicalDomain_plain {s d : Str} (chars : ∀ c ∈ s, isDomainChar c = true)
    (result : canonicalDomain R s = .ok d) : d = Py.rstrip (· == '.') s := by
  have encode := (canonicalDomain_eq result).1
  rw [domainText_plain chars] at encode
  have ascii : (Py.rstrip (· == '.') s).all Py.isAscii = true := by
    rw [List.all_eq_true]
    intro c member
    exact (domainChar_plain (chars c ((Py.rstrip_initial _ s).subset member))).1
  simp only [encodeIdna, ascii, if_true] at encode
  split at encode
  · cases encode
    rfl
  · cases encode

theorem CanonicalDomain.encode {U : Unicode} {d : Str} (canonical : CanonicalDomain d) :
    encodeIdna U d = some d := by
  have ascii : d.all Py.isAscii = true := by
    rw [List.all_eq_true]
    exact fun c member => (domainChar_plain (canonical.chars c member)).1
  have first : (d.splitOn '.').dropLast.all (fun label => 0 < label.length && label.length < 64) =
      true := by
    rw [List.all_eq_true]
    intro label member
    have inside := List.dropLast_subset _ member
    have nonempty := (domainLabel_shape (canonical.labels label inside)).1
    have positive := List.length_pos_iff.mpr nonempty
    simp [positive, canonical.short label inside]
  have last : (d.splitOn '.').getLast?.all (fun label => label.length < 64) = true := by
    have final := List.getLast?_eq_some_getLast (List.splitOn_ne_nil '.' d)
    rw [final]
    simpa using canonical.short _ (List.getLast_mem _)
  simp [encodeIdna, ascii, first, last]

/-- A canonical domain is what it canonicalizes to. -/
theorem CanonicalDomain.fixed {d : Str} (canonical : CanonicalDomain d) :
    canonicalDomain R d = .ok d := by
  have undotted : Py.rstrip (· == '.') d = d := by
    apply Py.rstrip_eq_self
    intro c last
    rcases canonical.ends.last with ⟨e, final, alnum⟩ | ⟨body, rfl, _⟩
    · rw [final, Option.some.injEq] at last
      subst last
      rw [beq_eq_false_iff_ne]
      rintro rfl
      cases alnum
    · rw [List.getLast?_concat, Option.some.injEq] at last
      subst last
      decide
  rw [canonicalDomain, domainText_plain canonical.chars, undotted, canonical.encode]
  simp only [checkLabels_ok.mpr canonical.labels]
  rfl

theorem alnum_not_space {c : Char} (alnum : c.isAlphanum = true) : Py.isSpace c = false := by
  have ascii := Urllib.schemeChar_ascii (c := c) (by simp [Urllib.isSchemeChar, alnum])
  exact Py.ascii_forall (P := fun c => c.isAlphanum = true → Py.isSpace c = false) (by decide)
    ascii alnum

/-- A canonical domain is trimmed, or it is so without its last line feed. -/
theorem CanonicalDomain.trimmed {d : Str} (canonical : CanonicalDomain d) :
    (d.getLast? ≠ some '\n' ∧ Py.Trimmed d) ∨
      ∃ body, d = body ++ ['\n'] ∧ body ≠ [] ∧ Py.Trimmed body := by
  obtain ⟨⟨c, head, alnum⟩, last⟩ := canonical.ends
  rcases last with ⟨e, final, alnum'⟩ | ⟨body, rfl, e, final, alnum'⟩
  · refine Or.inl ⟨?_, ?_, ?_⟩
    · intro feed
      rw [final, Option.some.injEq] at feed
      subst feed
      cases alnum'
    · intro f first
      rw [head, Option.some.injEq] at first
      rw [← first, alnum_not_space alnum]
    · intro f ends
      rw [final, Option.some.injEq] at ends
      rw [← ends, alnum_not_space alnum']
  · have nonempty : body ≠ [] := by
      rintro rfl
      cases final
    refine Or.inr ⟨body, rfl, nonempty, ?_, ?_⟩
    · intro f first
      rw [List.head?_append_of_ne_nil _ nonempty] at head
      rw [head, Option.some.injEq] at first
      rw [← first, alnum_not_space alnum]
    · intro f ends
      rw [final, Option.some.injEq] at ends
      rw [← ends, alnum_not_space alnum']

/-- The last label of the domain does not end in a line feed once it is encoded. -/
def EndsClean (U : Unicode) (value : Str) : Prop :=
  ∀ label, (idnaLabels (domainText U value)).getLast? = some label →
    ∀ encoded, toAsciiLabel U label = some encoded → encoded.getLast? ≠ some '\n'

theorem mapM_concat {α β : Type} {f : α → Option β} {init : List α} {last : α} {m : List β}
    (mapped : (init ++ [last]).mapM f = some m) :
    ∃ front b, m = front ++ [b] ∧ f last = some b := by
  simp only [List.mapM_append, Option.bind_eq_bind, Option.bind_eq_some_iff, Option.pure_def,
    Option.some.injEq, List.mapM_cons, List.mapM_nil] at mapped
  obtain ⟨front, _, tail, ⟨b, encode, _, rfl, rfl⟩, rfl⟩ := mapped
  exact ⟨front, b, rfl, encode⟩

/-- Whether a canonical domain ends in a line feed can be read off the last label. -/
theorem CanonicalDomain.endsClean {U : Unicode} {v d : Str} (canonical : CanonicalDomain d)
    (encode : encodeIdna U (domainText U v) = some d) :
    EndsClean U v ↔ d.getLast? ≠ some '\n' := by
  have only : ∀ (init : List Str) (label : Str), idnaLabels (domainText U v) = init ++ [label] →
      (EndsClean U v ↔ ∀ encoded, toAsciiLabel U label = some encoded →
        encoded.getLast? ≠ some '\n') := by
    intro init label same
    simp only [EndsClean, same, List.getLast?_concat, Option.some.injEq]
    exact ⟨fun clean => clean label rfl, fun clean _ same => same ▸ clean⟩
  unfold encodeIdna at encode
  split at encode
  · rename_i ascii
    simp only at encode
    split at encode
    · rw [Option.some.injEq] at encode
      have parts : idnaLabels (domainText U v) = d.splitOn '.' := by
        rw [idnaLabels, if_pos ascii, encode]
      have whole : ['.'].intercalate (d.splitOn '.') = d := List.intercalate_splitOn '.'
      rcases List.eq_nil_or_concat (d.splitOn '.') with none | ⟨init, label, same⟩
      · exact absurd none (List.splitOn_ne_nil '.' d)
      rw [List.concat_eq_append] at same
      have inside : label ∈ d.splitOn '.' := by rw [same]; simp
      have plain : label.all Py.isAscii = true := by
        rw [List.all_eq_true]
        intro c member
        refine (domainChar_plain (canonical.chars c ?_)).1
        rw [List.splitOn_eq_splitOnP] at inside
        exact mem_of_mem_splitOnP inside c member
      have positive := List.length_pos_iff.mpr (domainLabel_shape (canonical.labels label inside)).1
      have self : toAsciiLabel U label = some label := by
        rw [toAsciiLabel, if_pos plain, if_pos ⟨positive, canonical.short label inside⟩]
      rw [only init label (parts.trans same), self]
      rw [← whole, same, ne_eq, Py.intercalate_last (by decide)]
      simp
    · cases encode
  · rename_i ascii
    have parts : idnaLabels (domainText U v) = (domainText U v).splitOnP isIdnaDot := by
      rw [idnaLabels, if_neg ascii]
    simp only [Option.bind_eq_bind, Option.bind_eq_some_iff, Option.pure_def,
      Option.some.injEq] at encode
    obtain ⟨labels, mapped, same⟩ := encode
    have dotless : ((domainText U v).splitOnP isIdnaDot).getLast? ≠ some [] := by
      intro trailing
      rw [if_pos trailing] at same
      have ends := canonical.ends.last
      rw [← same] at ends
      rcases ends with ⟨c, last, alnum⟩ | ⟨body, feed, _⟩
      · rw [List.getLast?_concat, Option.some.injEq] at last
        subst last
        cases alnum
      · have := congrArg List.getLast? feed
        simp at this
    rw [if_neg dotless] at mapped same
    rw [List.append_nil] at same
    rcases List.eq_nil_or_concat ((domainText U v).splitOnP isIdnaDot) with none | ⟨init, label, split⟩
    · exact absurd none (List.splitOnP_ne_nil _ _)
    rw [List.concat_eq_append] at split
    rw [split] at mapped
    obtain ⟨front, last, rfl, encode⟩ := mapM_concat mapped
    rw [only init label (parts.trans split), encode, ← same, ne_eq, Py.intercalate_last (by decide)]
    simp

/-- Canonicalizing a domain twice. -/
theorem domain_fixed_iff {v d : Str} (result : canonicalDomain R v = .ok d) :
    (canonicalize R .domain d = .ok d ↔ EndsClean R.unicode v) ∧
      (EndsClean R.unicode v → Py.strip d = d) := by
  obtain ⟨encode, canonical⟩ := canonicalDomain_eq result
  rw [canonical.endsClean encode]
  rcases canonical.trimmed with ⟨plain, trimmed⟩ | ⟨body, rfl, nonempty, trimmed⟩
  · have some : d ≠ [] := by
      rintro rfl
      obtain ⟨c, head, _⟩ := canonical.ends.first
      cases head
    simp only [plain, ne_eq, not_false_eq_true, iff_true, Py.strip_of_trimmed trimmed, imp_self,
      and_true]
    simp only [canonicalize, Py.strip_of_trimmed trimmed, if_neg some]
    exact canonical.fixed
  · rw [List.getLast?_concat]
    simp only [ne_eq, not_true_eq_false, iff_false, false_imp_iff, and_true]
    intro again
    simp only [canonicalize, Py.strip_concat trimmed nonempty (c := '\n') (by decide),
      if_neg nonempty] at again
    have shorter := canonicalDomain_plain (fun c member => canonical.chars c (by simp [member])) again
    have length := (Py.rstrip_initial (· == '.') body).length_le
    rw [← shorter, List.length_append, List.length_singleton] at length
    omega

theorem canonicalEmail_eq {v c : Str} (result : canonicalEmail R v = .ok c) :
    ∃ localPart domain d settled, Py.rpartition '@' v = some (localPart, domain) ∧
      canonicalDomain R domain = .ok d ∧ c = settled ++ '@' :: d ∧
      (∀ e ∈ settled, Py.Settled R.unicode e) ∧ c = Py.lower R.unicode (localPart ++ '@' :: d) := by
  unfold canonicalEmail at result
  split at result
  · cases result
  · rename_i localPart domain split
    cases inner : canonicalDomain R domain with
    | error e =>
        rw [inner] at result
        cases result
    | ok d =>
        rw [inner] at result
        cases result
        have canonical := (canonicalDomain_eq inner).2
        obtain ⟨front, settled, same⟩ :=
          Py.lowerFrom_append (U := R.unicode) localPart ('@' :: d) []
        have tail : ∀ e ∈ '@' :: d, Py.Settled R.unicode e := by
          intro e member
          rcases List.mem_cons.mp member with rfl | inside
          · exact Py.settled_ascii (by decide) (by decide)
          · exact domainChar_settled canonical.chars e inside
        rw [Py.lowerFrom_eq_self tail] at same
        exact ⟨localPart, domain, d, front, split, inner, same, settled, rfl⟩

theorem canonicalEmail_append {settled d : Str} (chars : ∀ c ∈ d, isDomainChar c = true) :
    canonicalEmail R (settled ++ '@' :: d) =
      (canonicalDomain R d).bind fun d' => .ok (Py.lower R.unicode (settled ++ '@' :: d')) := by
  have absent : '@' ∉ d := fun member => (domainChar_plain (chars '@' member)).2.2.2.2.2.1 rfl
  rw [canonicalEmail, Py.rpartition_append absent]
  rfl

/-- Lower-casing leaves no white space in front. -/
theorem lower_address_head {v localPart domain d : Str} (trimmed : Py.Trimmed v)
    (split : Py.rpartition '@' v = some (localPart, domain)) {e : Char}
    (first : (Py.lower R.unicode (localPart ++ '@' :: d)).head? = some e) :
    Py.isSpace e = false := by
  obtain ⟨f, original, space⟩ := Py.lowerFrom_head first
  rw [space]
  have whole := (Py.rpartition_eq split).1
  cases localPart with
  | nil =>
      simp only [List.nil_append, List.head?_cons, Option.some.injEq] at original
      rw [← original]
      decide
  | cons g localPart =>
      simp only [List.cons_append, List.head?_cons, Option.some.injEq] at original
      exact trimmed.1 f (by rw [whole, ← original]; rfl)

theorem trimmed_address {front domain : Str}
    (head : ∀ e, (front ++ '@' :: domain).head? = some e → Py.isSpace e = false)
    (nonempty : domain ≠ []) (trimmed : Py.Trimmed domain) :
    Py.Trimmed (front ++ '@' :: domain) := by
  refine ⟨head, ?_⟩
  intro e last
  rw [List.getLast?_append_of_ne_nil _ (by simp), List.getLast?_cons_of_ne_nil nonempty] at last
  exact trimmed.2 e last

/-- Canonicalizing an address does not give back a line feed behind it. -/
theorem canonicalEmail_line_feed {front body : Str}
    (settled : ∀ e ∈ front ++ '@' :: body, Py.Settled R.unicode e)
    (chars : ∀ e ∈ body, isDomainChar e = true) :
    canonicalEmail R (front ++ '@' :: body) ≠ .ok (front ++ '@' :: body ++ ['\n']) := by
  intro again
  rw [canonicalEmail_append chars] at again
  cases inner : canonicalDomain R body with
  | error e =>
      rw [inner] at again
      cases again
  | ok d =>
      rw [inner] at again
      simp only [Except.bind, Except.ok.injEq] at again
      have shorter := canonicalDomain_plain chars inner
      have sub := (Py.rstrip_initial (· == '.') body).subset
      have length := (Py.rstrip_initial (· == '.') body).length_le
      rw [← shorter] at sub length
      have fixed : Py.lower R.unicode (front ++ '@' :: d) = front ++ '@' :: d := by
        apply Py.lower_eq_self
        intro e member
        refine settled e ?_
        simp only [List.mem_append, List.mem_cons] at member ⊢
        rcases member with here | rfl | here
        · exact Or.inl here
        · exact Or.inr (Or.inl rfl)
        · exact Or.inr (Or.inr (sub here))
      rw [fixed] at again
      have sizes := congrArg List.length again
      simp only [List.length_append, List.length_cons, List.length_nil] at sizes
      omega

/-- Canonicalizing an e-mail address twice. -/
theorem email_fixed_iff {v c localPart domain : Str} (trimmed : Py.Trimmed v)
    (split : Py.rpartition '@' v = some (localPart, domain)) (result : canonicalEmail R v = .ok c) :
    (canonicalize R .email c = .ok c ↔ EndsClean R.unicode domain) ∧
      (EndsClean R.unicode domain → Py.strip c = c) := by
  obtain ⟨localPart', domain', d, front, split', inner, same, settled, lowered⟩ :=
    canonicalEmail_eq result
  rw [split, Option.some.injEq, Prod.mk.injEq] at split'
  obtain ⟨rfl, rfl⟩ := split'
  obtain ⟨encode, canonical⟩ := canonicalDomain_eq inner
  have head : ∀ e, c.head? = some e → Py.isSpace e = false := by
    intro e first
    rw [lowered] at first
    exact lower_address_head trimmed split first
  have settled_all : ∀ e ∈ front ++ '@' :: d, Py.Settled R.unicode e := by
    rw [← same, lowered]
    exact Py.settled_lower
  rw [canonical.endsClean encode]
  rcases canonical.trimmed with ⟨plain, trimmed'⟩ | ⟨body, rfl, nonempty, trimmed'⟩
  · have whole : Py.Trimmed c := by
      obtain ⟨f, final, _⟩ : ∃ f, d.head? = some f ∧ f.isAlphanum = true := canonical.ends.first
      have some : d ≠ [] := by
        rintro rfl
        cases final
      rw [same] at head ⊢
      exact trimmed_address head some trimmed'
    have some : c ≠ [] := by
      rw [same]
      simp
    simp only [plain, ne_eq, not_false_eq_true, iff_true, Py.strip_of_trimmed whole, imp_self,
      and_true]
    simp only [canonicalize, Py.strip_of_trimmed whole, if_neg some]
    rw [same, canonicalEmail_append canonical.chars, canonical.fixed, Except.bind,
      Py.lower_eq_self settled_all]
  · rw [List.getLast?_concat]
    simp only [ne_eq, not_true_eq_false, iff_false, false_imp_iff, and_true]
    intro again
    have shape : c = (front ++ '@' :: body) ++ ['\n'] := by
      rw [same]
      simp
    have whole : Py.Trimmed (front ++ '@' :: body) := by
      refine trimmed_address ?_ nonempty trimmed'
      intro e first
      refine head e ?_
      rw [shape, List.head?_append_of_ne_nil _ (by simp)]
      exact first
    rw [shape] at again
    simp only [canonicalize, Py.strip_concat whole (by simp) (c := '\n') (by decide),
      if_neg (by simp : front ++ '@' :: body ≠ [])] at again
    have settled_body : ∀ e ∈ front ++ '@' :: body, Py.Settled R.unicode e := by
      intro e member
      refine settled_all e ?_
      rw [← same, shape]
      exact List.mem_append_left _ member
    have chars : ∀ e ∈ body, isDomainChar e = true := fun e member =>
      canonical.chars e (List.mem_append_left _ member)
    exact canonicalEmail_line_feed settled_body chars again

end Cti
