import Cti.Identity
import Cti.Passes

set_option autoImplicit false

/- The defang enricher, applied a second time. -/
namespace Cti

open Py (Str Unicode Matcher Marked NoMatch)

/-- The marks that the first five patterns replace. -/
def defangMarks : List (Str × Str) :=
  [("[.]".toList, ".".toList), ("(.)".toList, ".".toList), (['{', 'd', 'o', 't', '}'], ".".toList),
    ("[at]".toList, "@".toList), ("[://]".toList, "://".toList)]

/-- A mark within another one, so that a pass leaves a mark behind that an earlier pass, or the
same one, would have replaced. -/
def doubleMarks : List Str :=
  ["[[.]]".toList, "[(.)]".toList, "[([.])]".toList, ['[', '{', 'd', 'o', 't', '}', ']'],
    "((.))".toList, "(([.]))".toList, ['(', '{', 'd', 'o', 't', '}', ')'], "[[://]]".toList]

theorem origins_defangMarks :
    Py.origins defangMarks (defangMarks.map Prod.fst) = doubleMarks := by
  decide

theorem separate_defangMarks : Py.Separate defangMarks (defangMarks.map Prod.fst) := by
  decide

theorem startsIgnoringCase_iff {pattern s : Str} :
    startsIgnoringCase pattern s = true ↔ pattern <+: s.map Char.toLower := by
  induction pattern generalizing s with
  | nil => exact iff_of_true rfl List.nil_prefix
  | cons p pattern ih =>
      cases s with
      | nil => simp [startsIgnoringCase]
      | cons c s =>
          rw [startsIgnoringCase, Bool.and_eq_true, beq_iff_eq, ih, List.map_cons,
            List.cons_prefix_cons, eq_comm]

theorem literal_symbols {src dst : Str}
    (symbols : src.all (fun d => !d.isAlpha && Py.isAscii d) = true) :
    Py.literal src dst = literalIgnoringCase src dst := by
  have same : ∀ rest : Str, src.isPrefixOf rest = startsIgnoringCase src rest := by
    induction src with
    | nil => intro rest; simp [startsIgnoringCase]
    | cons d src ih =>
        intro rest
        simp only [List.all_cons, Bool.and_eq_true, Bool.not_eq_true'] at symbols
        cases rest with
        | nil => rfl
        | cons c rest =>
            have caseless : (d == c) = (c.toLower == d) := by
              rw [Bool.eq_iff_iff, beq_iff_eq, beq_iff_eq]
              constructor
              · rintro rfl
                exact Py.ascii_forall (P := fun d => d.isAlpha = false → d.toLower = d) (by decide)
                  symbols.1.2 symbols.1.1
              · exact fun lowered => (toLower_symbol symbols.1.1 lowered).symm
            rw [startsIgnoringCase, List.isPrefixOf, ih symbols.2, caseless]
  funext before rest
  rw [Py.literal, literalIgnoringCase, same]

/-- Replacing a mark in any case is replacing it in the text in lower case. -/
theorem map_sub_ignoringCase {src dst : Str} (lower : dst.map Char.toLower = dst) (s : Str) :
    ∀ before before' skip,
      (Py.sub (literalIgnoringCase src dst) before skip s).map Char.toLower =
        Py.sub (Py.literal src dst) before' skip (s.map Char.toLower) := by
  induction s with
  | nil => intro before before' skip; rfl
  | cons c s ih =>
      intro before before' skip
      cases skip with
      | succ skip => exact ih (some c) (some c.toLower) skip
      | zero =>
          have same : startsIgnoringCase src (c :: s) =
              src.isPrefixOf (c.toLower :: s.map Char.toLower) := by
            rw [Bool.eq_iff_iff, startsIgnoringCase_iff, List.isPrefixOf_iff_prefix, List.map_cons]
          simp only [List.map_cons, Py.sub, literalIgnoringCase, Py.literal, same]
          split
          · rename_i found
            split at found
            · cases found
              rw [List.map_append, lower, ih (some c) (some c.toLower)]
            · cases found
          · rename_i missed
            split at missed
            · cases missed
            · rw [List.map_cons, ih (some c) (some c.toLower)]

/-- The text after the first five patterns. -/
def unmarked (U : Unicode) (value : Str) : Str :=
  ((defangPatterns U).take 5).foldl (fun value pattern => Py.sub pattern none 0 value) value

theorem defang_unmarked (U : Unicode) (value : Str) :
    defang U value = Py.sub (webScheme U "h[ttp]".toList) none 0
      (Py.sub (webScheme U "hxxp".toList) none 0 (unmarked U value)) :=
  rfl

theorem defangPatterns_eq (U : Unicode) :
    defangPatterns U = defangMarks.map (fun rule => literalIgnoringCase rule.1 rule.2) ++
      [webScheme U "hxxp".toList, webScheme U "h[ttp]".toList] := by
  have square : Py.literal "[.]".toList ".".toList =
      literalIgnoringCase "[.]".toList ".".toList := literal_symbols (by decide)
  have round : Py.literal "(.)".toList ".".toList =
      literalIgnoringCase "(.)".toList ".".toList := literal_symbols (by decide)
  simp only [defangPatterns, square, round]
  rfl

theorem map_unmarked (U : Unicode) (value : Str) :
    (unmarked U value).map Char.toLower = Py.passes defangMarks (value.map Char.toLower) := by
  have fold : ∀ rules : List (Str × Str), (∀ rule ∈ rules, rule.2.map Char.toLower = rule.2) →
      ∀ value : Str, ((rules.map fun rule => literalIgnoringCase rule.1 rule.2).foldl
        (fun value pattern => Py.sub pattern none 0 value) value).map Char.toLower =
          Py.passes rules (value.map Char.toLower) := by
    intro rules lower
    induction rules with
    | nil => intro value; rfl
    | cons rule rules ih =>
        intro value
        have here := @map_sub_ignoringCase rule.1 rule.2 (lower rule List.mem_cons_self) value
        rw [List.map_cons, List.foldl_cons,
          ih (fun r member => lower r (List.mem_cons_of_mem rule member)), here none none 0]
        rfl
  rw [unmarked, defangPatterns_eq]
  exact fold defangMarks (by decide) value

section schemes

variable {U : Unicode} {before : Option Char} {head : Str}

/-- A piece of text that a scheme pattern matches. -/
def SchemeText (head p : Str) : Prop :=
  ∃ front group, p = front ++ (group ++ "://".toList) ∧ front.map Char.toLower = head ∧
    (group = [] ∨ group = ['s'] ∨ group = ['S'] ∨ group = ['ſ'])

theorem webScheme_isSome {rest : Str} :
    (webScheme U head before rest).isSome = true ↔
      before.any (isWord U) = false ∧ ∃ p, SchemeText head p ∧ p <+: rest := by
  constructor
  · intro found
    obtain ⟨⟨length, text⟩, found⟩ := Option.isSome_iff_exists.mp found
    have unbound : before.any (isWord U) = false := by
      by_contra bound
      rw [webScheme, if_pos (by simpa using bound)] at found
      cases found
    obtain ⟨front, group, tail, rfl, lowered, letter, _⟩ := webScheme_match found
    refine ⟨unbound, _, ⟨front, group, rfl, lowered, letter⟩, tail, ?_⟩
    simp only [List.append_assoc]
  · rintro ⟨unbound, p, ⟨front, group, rfl, lowered, letter⟩, tail, rfl⟩
    have starts : startsIgnoringCase head (front ++ (group ++ "://".toList) ++ tail) = true := by
      rw [startsIgnoringCase_iff, List.append_assoc, List.map_append, lowered]
      exact List.prefix_append head _
    have ends : schemeEnd (group ++ "://".toList ++ tail) = some group := by
      rcases letter with rfl | rfl | rfl | rfl <;> rfl
    have size : front.length = head.length := by rw [← lowered, List.length_map]
    rw [webScheme, if_neg (by simp [unbound]), if_pos starts, List.append_assoc,
      List.drop_left' size, ends]
    rfl

/-- The scheme patterns start with an h, have no other one, and do not match `http`. -/
structure SchemeHead (head : Str) : Prop where
  starts : ∃ c tail, head = 'h' :: c :: tail ∧ c ≠ 't' ∧ c ≠ 'h' ∧ 'h' ∉ tail

theorem schemeHead_hxxp : SchemeHead "hxxp".toList :=
  ⟨'x', "xp".toList, rfl, by decide, by decide, by decide⟩

theorem schemeHead_bracket : SchemeHead "h[ttp]".toList :=
  ⟨'[', "ttp]".toList, rfl, by decide, by decide, by decide⟩

theorem SchemeText.starts {p : Str} (text : SchemeText head p) (kind : SchemeHead head) :
    ∃ c d tail, p = c :: d :: tail ∧ c.toLower = 'h' ∧ d ≠ 't' ∧
      ∀ e ∈ d :: tail, e.toLower ≠ 'h' := by
  obtain ⟨front, group, rfl, lowered, letter⟩ := text
  obtain ⟨h, tail, rfl, unlike, unlike', single⟩ := kind.starts
  obtain ⟨c, rest, rfl, first, lowered⟩ := List.map_eq_cons_iff.mp lowered
  obtain ⟨d, front, rfl, second, lowered⟩ := List.map_eq_cons_iff.mp lowered
  refine ⟨c, d, front ++ (group ++ "://".toList), rfl, first, ?_, ?_⟩
  · rintro rfl
    exact unlike second.symm
  · intro e member
    rw [List.mem_cons, List.mem_append, List.mem_append] at member
    rcases member with rfl | inside | inside | inside
    · rw [second]
      exact unlike'
    · intro same
      rw [← lowered] at single
      exact single (List.mem_map.mpr ⟨e, inside, same⟩)
    · have letters : ∀ e ∈ "sSſ".toList, e.toLower ≠ 'h' := Py.forall_mem_of_all (by decide)
      apply letters
      rcases letter with rfl | rfl | rfl | rfl
      · cases inside
      · simp [List.mem_singleton.mp inside]
      · simp [List.mem_singleton.mp inside]
      · simp [List.mem_singleton.mp inside]
    · exact Py.forall_mem_of_all (P := fun e => e.toLower ≠ 'h') (by decide) e inside

theorem webScheme_none {rest : Str} (kind : SchemeHead head)
    (other : ∀ c d tail, c :: d :: tail <+: rest → c.toLower = 'h' → d = 't') :
    webScheme U head before rest = none := by
  rw [← Option.not_isSome_iff_eq_none, webScheme_isSome]
  rintro ⟨_, p, text, starts⟩
  obtain ⟨c, d, tail, rfl, lowered, unlike, _⟩ := text.starts kind
  exact unlike (other c d tail starts lowered)

theorem noMatch_plain (kind : SchemeHead head) {front rest : Str} {c : Char}
    (plain : ∀ d ∈ front, d.toLower ≠ 'h') (last : c.toLower ≠ 'h')
    (behind : NoMatch (webScheme U head) (some c) rest) :
    NoMatch (webScheme U head) before (front ++ c :: rest) := by
  induction front generalizing before with
  | nil =>
      refine ⟨webScheme_none kind ?_, behind⟩
      intro d e tail starts lowered
      obtain ⟨rfl, _⟩ := List.cons_prefix_cons.mp starts
      exact absurd lowered last
  | cons b front ih =>
      refine ⟨webScheme_none kind ?_, ih fun d member => plain d (List.mem_cons_of_mem b member)⟩
      intro d e tail starts lowered
      obtain ⟨rfl, _⟩ := List.cons_prefix_cons.mp starts
      exact absurd lowered (plain d List.mem_cons_self)

/-- What a scheme pattern puts in is not matched by any. -/
theorem noMatch_http (kind : SchemeHead head) {group rest : Str}
    (letter : group = [] ∨ group = ['s'] ∨ group = ['S'] ∨ group = ['ſ'])
    (behind : NoMatch (webScheme U head) (some '/') rest) :
    NoMatch (webScheme U head) before ("http".toList ++ group ++ "://".toList ++ rest) := by
  have text : "http".toList ++ group ++ "://".toList ++ rest =
      'h' :: (("ttp".toList ++ group ++ ":/".toList) ++ '/' :: rest) := by
    simp
  rw [text]
  refine ⟨webScheme_none kind ?_, noMatch_plain kind ?_ (by decide) behind⟩
  · intro c d tail starts _
    have second := (List.cons_prefix_cons.mp starts).2
    exact (List.cons_prefix_cons.mp second).1
  · rcases letter with rfl | rfl | rfl | rfl <;>
      exact Py.forall_mem_of_all (P := fun d => d.toLower ≠ 'h') (by decide)

theorem prefix_sub_scheme {p : Str} (plain : ∀ c ∈ p, c.toLower ≠ 'h') {s : Str}
    (starts : p <+: Py.sub (webScheme U head) before 0 s) : p <+: s := by
  induction p generalizing before s with
  | nil => exact List.nil_prefix
  | cons c p ih =>
      cases s with
      | nil => exact starts
      | cons d s =>
          cases found : webScheme U head before (d :: s) with
          | none =>
              simp only [Py.sub, found] at starts
              obtain ⟨rfl, behind⟩ := List.cons_prefix_cons.mp starts
              have rest := ih (fun e member => plain e (List.mem_cons_of_mem c member)) behind
              exact List.cons_prefix_cons.mpr ⟨rfl, rest⟩
          | some result =>
              obtain ⟨_, _, _, _, _, _, _, text⟩ :=
                @webScheme_match _ _ _ result.2 _ result.1 found
              simp only [Py.sub, found, text] at starts
              obtain ⟨rfl, _⟩ := List.cons_prefix_cons.mp starts
              exact absurd rfl (plain 'h' List.mem_cons_self)

/-- After the pass of a scheme pattern there are no matches of it, and none of another scheme
pattern that had none before. -/
theorem noMatch_sub_scheme {head' : Str} (kind : SchemeHead head) (s : Str) :
    head = head' ∨ NoMatch (webScheme U head) before s →
      NoMatch (webScheme U head) before (Py.sub (webScheme U head') before 0 s) := by
  induction size : s.length using Nat.strong_induction_on generalizing s before with
  | _ n ih =>
      intro nowhere
      cases s with
      | nil => trivial
      | cons c s =>
          cases found : webScheme U head' before (c :: s) with
          | none =>
              have missed : webScheme U head before (c :: s) = none := by
                rcases nowhere with rfl | nowhere
                · exact found
                · exact nowhere.1
              simp only [Py.sub, found]
              refine ⟨?_, ih s.length (by rw [← size]; simp) s rfl (nowhere.imp_right And.right)⟩
              rw [← Option.not_isSome_iff_eq_none, webScheme_isSome]
              rintro ⟨unbound, p, text, starts⟩
              -- A match in the result would be one in the text.
              apply Option.not_isSome_iff_eq_none.mpr missed
              rw [webScheme_isSome]
              refine ⟨unbound, p, text, ?_⟩
              obtain ⟨d, e, tail, rfl, _, _, plain⟩ := text.starts kind
              obtain ⟨rfl, behind⟩ := List.cons_prefix_cons.mp starts
              exact List.cons_prefix_cons.mpr ⟨rfl, prefix_sub_scheme plain behind⟩
          | some result =>
              obtain ⟨front, group, tail, same, _, letter, length, text⟩ :=
                @webScheme_match _ _ _ result.2 _ result.1 found
              have whole : c :: s = (front ++ (group ++ ":/".toList)) ++ '/' :: tail := by
                rw [same]
                simp
              have shorter := congrArg List.length whole
              rw [List.length_append, List.length_cons, List.length_cons] at shorter
              rw [List.length_cons] at size
              have covers : result.1 = (front ++ (group ++ ":/".toList)).length + 1 := by
                rw [length]
                simp only [List.length_append]
                rfl
              rw [whole] at found nowhere ⊢
              have hit : webScheme U head' before
                  ((front ++ (group ++ ":/".toList)) ++ '/' :: tail) =
                    some ((front ++ (group ++ ":/".toList)).length + 1, result.2) := by
                rw [found, ← covers]
              rw [Py.sub_match_concat hit, text]
              apply noMatch_http kind letter
              apply ih tail.length (by omega) tail rfl
              exact nowhere.imp_right Py.NoMatch.behind

/-- What a scheme pattern matches and what it puts in, in lower case. -/
def schemeMarks (head : Str) : List (Str × Str) :=
  [[], ['s'], ['ſ']].map fun group =>
    (head ++ (group ++ "://".toList), "http".toList ++ group ++ "://".toList)

theorem marked_scheme (s : Str) :
    Marked (schemeMarks head) ((Py.sub (webScheme U head) none 0 s).map Char.toLower)
      (s.map Char.toLower) := by
  refine Py.marked_sub ?_ s
  intro before rest length text found
  obtain ⟨front, group, tail, rfl, lowered, letter, rfl, rfl⟩ := webScheme_match found
  refine ⟨front ++ (group ++ "://".toList), tail, by simp, by simp, rfl, ?_⟩
  rw [List.map_append, lowered]
  rcases letter with rfl | rfl | rfl | rfl <;> simp [schemeMarks]

theorem clear_schemes : ∀ head ∈ ["hxxp".toList, "h[ttp]".toList],
    ∀ w ∈ defangMarks.map Prod.fst, ∀ rule ∈ schemeMarks head,
      Marked.Clear w rule.1 ∧ Marked.Clear w rule.2 := by
  decide

end schemes

theorem noMatch_ignoringCase {src dst s : Str} (nonempty : src ≠ []) {before : Option Char} :
    NoMatch (literalIgnoringCase src dst) before s ↔ ¬ src <:+: s.map Char.toLower := by
  induction s generalizing before with
  | nil =>
      refine iff_of_true trivial ?_
      intro inside
      exact nonempty (List.infix_nil.mp inside)
  | cons c s ih =>
      rw [NoMatch, ih, List.map_cons, List.infix_cons_iff, not_or, ← List.map_cons,
        ← startsIgnoringCase_iff, literalIgnoringCase]
      cases startsIgnoringCase src (c :: s) <;> simp

/-- The second pass finds what the first five patterns would replace. -/
theorem defang_again {U : Unicode} (value : Str) :
    defang U (defang U value) = defang U value ↔
      ¬ ∃ w ∈ defangMarks.map Prod.fst, w <:+: (defang U value).map Char.toLower := by
  have bracket : NoMatch (webScheme U "h[ttp]".toList) none (defang U value) := by
    rw [defang_unmarked]
    exact noMatch_sub_scheme schemeHead_bracket _ (Or.inl rfl)
  have cross : NoMatch (webScheme U "hxxp".toList) none (defang U value) := by
    rw [defang_unmarked]
    apply noMatch_sub_scheme schemeHead_hxxp
    exact Or.inr (noMatch_sub_scheme schemeHead_hxxp _ (Or.inl rfl))
  have passes := @Py.foldl_sub_eq_self_iff _ _ (defangPatterns_shrink U) (defang U value)
  rw [defang, passes, defangPatterns_eq, List.forall_mem_append]
  have marks : ∀ rule ∈ defangMarks,
      (NoMatch (literalIgnoringCase rule.1 rule.2) none (defang U value) ↔
        ¬ rule.1 <:+: (defang U value).map Char.toLower) := by
    intro rule member
    have nonempty : ∀ rule ∈ defangMarks, rule.1 ≠ [] := by decide
    exact noMatch_ignoringCase (nonempty rule member)
  constructor
  · rintro ⟨none, _⟩ ⟨w, member, inside⟩
    obtain ⟨rule, known, rfl⟩ := List.mem_map.mp member
    exact (marks rule known).mp (none _ (List.mem_map_of_mem known)) inside
  · intro none
    refine ⟨?_, ?_⟩
    · intro m member
      obtain ⟨rule, known, rfl⟩ := List.mem_map.mp member
      rw [marks rule known]
      exact fun inside => none ⟨rule.1, List.mem_map_of_mem known, inside⟩
    · intro m member
      simp only [List.mem_cons, List.not_mem_nil, or_false] at member
      rcases member with rfl | rfl
      · exact cross
      · exact bracket

/-- A second pass changes nothing exactly if no mark stands within another one. -/
theorem defang_twice_iff {U : Unicode} (value : Str) :
    defang U (defang U value) = defang U value ↔
      ∀ mark ∈ doubleMarks, ¬ mark <:+: value.map Char.toLower := by
  have kept : ∀ w ∈ defangMarks.map Prod.fst,
      (w <:+: (defang U value).map Char.toLower ↔
        w <:+: Py.passes defangMarks (value.map Char.toLower)) := by
    intro w member
    have bracket := clear_schemes "h[ttp]".toList (by simp) w member
    have cross := clear_schemes "hxxp".toList (by simp) w member
    rw [defang_unmarked, ← map_unmarked U]
    exact (Marked.infix_iff_of_clear bracket (marked_scheme _)).trans
      (Marked.infix_iff_of_clear cross (marked_scheme _))
  rw [defang_again]
  calc (¬ ∃ w ∈ defangMarks.map Prod.fst, w <:+: (defang U value).map Char.toLower)
      ↔ ¬ ∃ w ∈ defangMarks.map Prod.fst,
          w <:+: Py.passes defangMarks (value.map Char.toLower) := by
        exact not_congr (exists_congr fun w => and_congr_right (kept w))
    _ ↔ ¬ ∃ mark ∈ doubleMarks, mark <:+: value.map Char.toLower := by
        rw [Py.exists_infix_passes separate_defangMarks, origins_defangMarks]
    _ ↔ ∀ mark ∈ doubleMarks, ¬ mark <:+: value.map Char.toLower := by
        simp only [not_exists, not_and]


/-- The enricher, applied twice, leaves the value that it leaves when applied once. -/
def IdempotentOn (R : Runtime) (enabled : Bool) (ind : Indicator) : Prop :=
  ∃ once twice, (Enricher.defang enabled).enrichSync R ind = .ok (some once) ∧
    (Enricher.defang enabled).enrichSync R once = .ok (some twice) ∧ twice.value = once.value

/-- The defang enricher is idempotent on the indicators in whose values no mark stands within
another one. -/
theorem defang_idempotent_iff (R : Runtime) (enabled : Bool) (ind : Indicator) :
    IdempotentOn R enabled ind ↔
      enabled = false ∨ ∀ mark ∈ doubleMarks, ¬ mark <:+: ind.value.map Char.toLower := by
  unfold IdempotentOn
  cases enabled with
  | false => exact iff_of_true ⟨ind, ind, rfl, rfl, rfl⟩ (Or.inl rfl)
  | true =>
      rw [← defang_twice_iff (U := R.unicode)]
      simp [Enricher.enrichSync]

/-- A mutex whose name is a dot in two marks. -/
def dottedMutex : Indicator where
  id := 1
  type := .mutex
  value := ['[', '{', 'd', 'o', 't', '}', ']']
  pattern := none
  confidence := 50
  severity := .info
  tlp := .amber
  tags := []
  firstSeenByUs := 0
  lastSeenByUs := 0
  validFrom := none
  validUntil := none
  schemaVersion := schemaVersion

/-- After the first pass the dot is still in one mark. -/
theorem defang_not_idempotent : ¬ IdempotentOn asciiRuntime true dottedMutex := by
  rintro ⟨once, twice, ⟨rfl⟩, ⟨rfl⟩, same⟩
  revert same
  decide

end Cti
