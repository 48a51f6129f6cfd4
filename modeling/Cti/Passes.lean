import Mathlib.Data.List.Infix
import Cti.Marks

set_option autoImplicit false

/- Where the words in the result of a substitution come from. -/
namespace Py

/-- A beginning of two texts in a row ends within the first one or reaches into the second. -/
theorem prefix_append_cases {w a b : Str} (starts : w <+: a ++ b) :
    w <+: a ∨ ∃ rest, w = a ++ rest ∧ rest <+: b := by
  rcases List.prefix_or_prefix_of_prefix starts (List.prefix_append a b) with within | ⟨rest, rfl⟩
  · exact Or.inl within
  · exact Or.inr ⟨rest, rfl, (List.prefix_append_right_inj a).mp starts⟩

/-- A word of two texts in a row starts within the first one or is in the second. -/
theorem infix_append_cases {w a b : Str} (inside : w <:+: a ++ b) :
    (∃ v, v ≠ [] ∧ v <:+ a ∧ w <+: v ++ b) ∨ w <:+: b := by
  induction a with
  | nil => exact Or.inr inside
  | cons d a ih =>
      rcases List.infix_cons_iff.mp inside with starts | behind
      · exact Or.inl ⟨d :: a, List.cons_ne_nil d a, List.suffix_rfl, starts⟩
      · rcases ih behind with ⟨v, nonempty, ends, starts⟩ | within
        · exact Or.inl ⟨v, nonempty, ends.trans (List.suffix_cons d a), starts⟩
        · exact Or.inr within

/-- A word that does not start within the first of two texts in a row is in the second. -/
theorem infix_of_append {w a b : Str} (first : ∀ c ∈ w.head?, c ∉ a) (inside : w <:+: a ++ b) :
    w <:+: b := by
  rcases infix_append_cases inside with ⟨v, nonempty, ends, starts⟩ | within
  · cases w with
    | nil => exact List.nil_infix
    | cons c w =>
        obtain ⟨d, rest, rfl⟩ := List.exists_cons_of_ne_nil nonempty
        obtain ⟨rfl, _⟩ := List.cons_prefix_cons.mp starts
        exact absurd (ends.subset List.mem_cons_self) (first c rfl)
  · exact within

section replace

variable {src dst : Str}

/-- The cases of a pass over a text. -/
theorem replace_induction (nonempty : src ≠ []) {P : Str → Prop} (nil : P [])
    (mark : ∀ s, P s → P (src ++ s)) (keep : ∀ c s, ¬ src <+: c :: s → P s → P (c :: s))
    (s : Str) : P s := by
  have positive := List.length_pos_iff.mpr nonempty
  induction size : s.length using Nat.strong_induction_on generalizing s with
  | _ n ih =>
      cases s with
      | nil => exact nil
      | cons c s =>
          by_cases starts : src <+: c :: s
          · obtain ⟨rest, same⟩ := starts
            rw [← same]
            have shorter := congrArg List.length same
            rw [List.length_append] at shorter
            exact mark rest (ih rest.length (by omega) rest rfl)
          · rw [List.length_cons] at size
            exact keep c s starts (ih s.length (by omega) s rfl)

/-- A beginning of the result comes from a beginning of the text, unless it stops within what
is put in. -/
theorem prefix_replace (nonempty : src ≠ []) {s w : Str}
    (outside : ∀ c, w.getLast? = some c → c ∉ dst) (starts : w <+: replace src dst s) :
    ∃ u, replace src dst u = w ∧ u <+: s := by
  induction s using replace_induction nonempty generalizing w with
  | nil =>
      obtain rfl : w = [] := List.prefix_nil.mp starts
      exact ⟨[], rfl, List.prefix_rfl⟩
  | mark s ih =>
      rw [replace_append nonempty] at starts
      rcases prefix_append_cases starts with within | ⟨rest, rfl, behind⟩
      · cases last : w.getLast? with
        | none =>
            obtain rfl : w = [] := List.getLast?_eq_none_iff.mp last
            exact ⟨[], rfl, List.nil_prefix⟩
        | some c => exact absurd (within.subset (List.mem_of_getLast? last)) (outside c last)
      · obtain ⟨u, same, front⟩ := ih (w := rest) (fun c last => outside c (by simp [last])) behind
        exact ⟨src ++ u, by rw [replace_append nonempty, same],
          (List.prefix_append_right_inj src).mpr front⟩
  | keep c s other ih =>
      rw [replace_cons other] at starts
      cases w with
      | nil => exact ⟨[], rfl, List.nil_prefix⟩
      | cons d w =>
          obtain ⟨rfl, behind⟩ := List.cons_prefix_cons.mp starts
          have outside' : ∀ e, w.getLast? = some e → e ∉ dst := by
            intro e last
            exact outside e (by simp [List.getLast?_cons, last])
          obtain ⟨u, same, front⟩ := ih outside' behind
          have front' : d :: u <+: d :: s := List.cons_prefix_cons.mpr ⟨rfl, front⟩
          refine ⟨d :: u, ?_, front'⟩
          rw [replace_cons (fun inside => other (inside.trans front')), same]

/-- A word of the result comes from a word of the text, unless it starts or stops within what
is put in. -/
theorem infix_replace (nonempty : src ≠ []) {s w : Str} (first : ∀ c ∈ w.head?, c ∉ dst)
    (last : ∀ c, w.getLast? = some c → c ∉ dst) (inside : w <:+: replace src dst s) :
    ∃ u, replace src dst u = w ∧ u <:+: s := by
  induction s using replace_induction nonempty with
  | nil =>
      obtain rfl : w = [] := List.infix_nil.mp inside
      exact ⟨[], rfl, List.infix_rfl⟩
  | mark s ih =>
      rw [replace_append nonempty] at inside
      obtain ⟨u, same, within⟩ := ih (infix_of_append first inside)
      exact ⟨u, same, within.trans List.infix_append_right⟩
  | keep c s other ih =>
      rw [replace_cons other] at inside
      rcases List.infix_cons_iff.mp inside with starts | behind
      · rw [← replace_cons other] at starts
        obtain ⟨u, same, front⟩ := prefix_replace nonempty last starts
        exact ⟨u, same, front.isInfix⟩
      · obtain ⟨u, same, within⟩ := ih behind
        exact ⟨u, same, within.trans (List.suffix_cons c s).isInfix⟩

theorem replace_eq_nil_iff (nonempty : src ≠ []) (filled : dst ≠ []) {u : Str} :
    replace src dst u = [] ↔ u = [] := by
  cases u with
  | nil => exact iff_of_true rfl rfl
  | cons c u =>
      refine iff_of_false ?_ (List.cons_ne_nil c u)
      by_cases marked : src <+: c :: u
      · obtain ⟨rest, same⟩ := marked
        rw [← same, replace_append nonempty]
        exact List.append_ne_nil_of_left_ne_nil filled _
      · rw [replace_cons marked]
        exact List.cons_ne_nil c _

theorem getLast?_of_replace (nonempty : src ≠ []) (filled : dst ≠ []) {u : Str} {c : Char}
    (outside : c ∉ dst) (last : (replace src dst u).getLast? = some c) : u.getLast? = some c := by
  have settled := @replace_eq_nil_iff src dst nonempty filled
  induction u using replace_induction nonempty with
  | nil => cases last
  | mark u ih =>
      rw [replace_append nonempty, List.getLast?_append] at last
      cases final : (replace src dst u).getLast? with
      | none =>
          rw [final] at last
          exact absurd (List.mem_of_getLast? last) outside
      | some d =>
          rw [final] at last
          cases last
          rw [List.getLast?_append, ih final]
          rfl
  | keep d u other ih =>
      rw [replace_cons other, List.getLast?_cons] at last
      rw [List.getLast?_cons]
      cases final : (replace src dst u).getLast? with
      | none =>
          rw [List.getLast?_eq_none_iff, settled] at final
          subst final
          exact last
      | some e =>
          rw [final] at last
          cases last
          rw [ih final]
          rfl

/-- A pass handles two texts in a row separately if the second one starts with a character that
is not within a match. -/
theorem replace_append_cons (nonempty : src ≠ []) {c : Char} (outside : c ∉ src.tail) (a b : Str) :
    replace src dst (a ++ c :: b) = replace src dst a ++ replace src dst (c :: b) := by
  induction a using replace_induction nonempty with
  | nil => rfl
  | mark a ih =>
      rw [List.append_assoc, replace_append nonempty, replace_append nonempty, ih,
        List.append_assoc]
  | keep d a other ih =>
      rw [replace_cons other, List.cons_append, replace_cons, ih]
      · rfl
      · intro starts
        rcases prefix_append_cases (a := d :: a) starts with within | ⟨rest, same, reaches⟩
        · exact other within
        · cases rest with
          | nil => exact other ⟨[], by rw [same]; simp⟩
          | cons e rest =>
              obtain ⟨rfl, _⟩ := List.cons_prefix_cons.mp reaches
              apply outside
              rw [same]
              simp

/-- A pass handles two texts in a row separately if the first one ends with a character that
no match has before its end. -/
theorem replace_concat_append (nonempty : src ≠ []) {c : Char} (outside : c ∉ src.dropLast)
    {a : Str} (last : a.getLast? = some c) (b : Str) :
    replace src dst (a ++ b) = replace src dst a ++ replace src dst b := by
  induction a using replace_induction nonempty with
  | nil => cases last
  | mark a ih =>
      rw [List.append_assoc, replace_append nonempty, replace_append nonempty, List.append_assoc]
      apply congrArg (dst ++ ·)
      cases a with
      | nil => rfl
      | cons d a => exact ih (by rwa [List.getLast?_append_of_ne_nil _ (List.cons_ne_nil d a)] at last)
  | keep d a other ih =>
      rw [replace_cons other, List.cons_append, replace_cons]
      · apply congrArg (d :: ·)
        cases a with
        | nil => rfl
        | cons e a => exact ih (by rwa [List.getLast?_cons_cons] at last)
      · intro starts
        rcases prefix_append_cases (a := d :: a) starts with within | ⟨rest, same, reaches⟩
        · exact other within
        · cases rest with
          | nil => exact other ⟨[], by rw [same]; simp⟩
          | cons e rest =>
              apply outside
              rw [same, List.dropLast_append_of_ne_nil (List.cons_ne_nil e rest)]
              exact List.mem_append_left _ (List.mem_of_getLast? last)

/-- The first and the last character of the word occur neither in what is put in nor where a
match could reach across the edge of the word. -/
def apart (src dst w : Str) : Bool :=
  w.head?.any (fun c => !(dst.contains c || src.tail.contains c)) &&
    w.getLast?.any fun c => !(dst.contains c || src.dropLast.contains c)

theorem apart_iff {w : Str} :
    apart src dst w = true ↔
      (∃ c, w.head? = some c ∧ c ∉ dst ∧ c ∉ src.tail) ∧
        ∃ c, w.getLast? = some c ∧ c ∉ dst ∧ c ∉ src.dropLast := by
  simp [apart, Option.any_eq_true]

/-- A text that becomes a word becomes it within any other text. -/
theorem infix_replace_of_infix (nonempty : src ≠ []) (filled : dst ≠ []) {u s : Str}
    (edges : apart src dst (replace src dst u) = true) (inside : u <:+: s) :
    replace src dst u <:+: replace src dst s := by
  obtain ⟨⟨c, first, unput, outside⟩, d, last, unput', outside'⟩ := apart_iff.mp edges
  obtain ⟨a, b, rfl⟩ := inside
  have starts : ∃ rest, u = c :: rest := by
    cases u with
    | nil => cases first
    | cons e rest =>
        by_cases marked : src <+: e :: rest
        · obtain ⟨rest', same⟩ := marked
          rw [← same, replace_append nonempty, List.head?_append_of_ne_nil _ filled] at first
          exact absurd (List.mem_of_mem_head? first) unput
        · rw [replace_cons marked] at first
          cases first
          exact ⟨rest, rfl⟩
  have ends : u.getLast? = some d := getLast?_of_replace nonempty filled unput' last
  obtain ⟨rest, rfl⟩ := starts
  rw [List.append_assoc, List.cons_append, replace_append_cons nonempty outside,
    ← List.cons_append, replace_concat_append nonempty outside' ends]
  exact List.infix_append' _ _ _

/-- The texts that a pass could turn into a word: each occurrence of `dst` may have been there
or have been put in. -/
def spellings (src dst : Str) : Nat → Str → List Str
  | _, [] => [[]]
  | skip + 1, _ :: w => spellings src dst skip w
  | 0, c :: w =>
      (spellings src dst 0 w).map (c :: ·) ++
        if dst.isPrefixOf (c :: w) then
          (spellings src dst (dst.length - 1) w).map (src ++ ·)
        else []

theorem spellings_skip (front w : Str) :
    spellings src dst front.length (front ++ w) = spellings src dst 0 w := by
  induction front with
  | nil => rfl
  | cons c front ih => exact ih

theorem mem_spellings (nonempty : src ≠ []) (filled : dst ≠ []) (u : Str) :
    u ∈ spellings src dst 0 (replace src dst u) := by
  induction u using replace_induction nonempty with
  | nil => exact List.mem_singleton.mpr rfl
  | mark u ih =>
      rw [replace_append nonempty]
      obtain ⟨c, rest, rfl⟩ := List.exists_cons_of_ne_nil filled
      have skips := @spellings_skip src (c :: rest) rest (replace src (c :: rest) u)
      have put : (c :: rest).isPrefixOf (c :: (rest ++ replace src (c :: rest) u)) = true :=
        List.isPrefixOf_iff_prefix.mpr (List.prefix_append (c :: rest) _)
      rw [List.cons_append, spellings, put, if_pos rfl, List.length_cons, Nat.add_sub_cancel, skips]
      exact List.mem_append_right _ (List.mem_map_of_mem ih)
  | keep c u other ih =>
      rw [replace_cons other, spellings]
      exact List.mem_append_left _ (List.mem_map_of_mem ih)

/-- The texts that a pass turns into a word. -/
def preimages (src dst w : Str) : List Str :=
  (spellings src dst 0 w).filter fun u => replace src dst u = w

theorem mem_preimages (nonempty : src ≠ []) (filled : dst ≠ []) {u w : Str} :
    u ∈ preimages src dst w ↔ replace src dst u = w := by
  simp only [preimages, List.mem_filter, decide_eq_true_eq]
  constructor
  · exact And.right
  · rintro rfl
    exact ⟨mem_spellings nonempty filled u, rfl⟩

/-- A word is in the result of a pass where one of its preimages is in the text. -/
theorem infix_replace_iff (nonempty : src ≠ []) (filled : dst ≠ []) {s w : Str}
    (edges : apart src dst w = true) :
    w <:+: replace src dst s ↔ ∃ u ∈ preimages src dst w, u <:+: s := by
  constructor
  · intro inside
    obtain ⟨⟨c, first, unput, _⟩, d, last, unput', _⟩ := apart_iff.mp edges
    obtain ⟨u, same, within⟩ := infix_replace nonempty
      (fun e head => by rw [first] at head; cases head; exact unput)
      (fun e final => by rw [last] at final; cases final; exact unput') inside
    exact ⟨u, (mem_preimages nonempty filled).mpr same, within⟩
  · rintro ⟨u, member, within⟩
    obtain rfl := (mem_preimages nonempty filled).mp member
    exact infix_replace_of_infix nonempty filled edges within

/-- Several replacements in a row. -/
def passes (rules : List (Str × Str)) (s : Str) : Str :=
  rules.foldl (fun s rule => replace rule.1 rule.2 s) s

/-- The words that several replacements turn into one of the given words. -/
def origins (rules : List (Str × Str)) (words : List Str) : List Str :=
  rules.foldr (fun rule words => words.flatMap (preimages rule.1 rule.2)) words

/-- No replacement reaches across the edges of the words. -/
def Separate : List (Str × Str) → List Str → Prop
  | [], _ => True
  | rule :: rules, words =>
      (rule.1 ≠ [] ∧ rule.2 ≠ [] ∧ (origins rules words).all (apart rule.1 rule.2) = true) ∧
        Separate rules words

instance decidableSeparate (words : List Str) : ∀ rules, Decidable (Separate rules words)
  | [] => isTrue trivial
  | _ :: rules =>
      have := decidableSeparate words rules
      inferInstanceAs (Decidable (_ ∧ _))

theorem exists_infix_passes {rules : List (Str × Str)} {words : List Str}
    (separate : Separate rules words) (s : Str) :
    (∃ w ∈ words, w <:+: passes rules s) ↔ ∃ u ∈ origins rules words, u <:+: s := by
  induction rules generalizing s with
  | nil => exact Iff.rfl
  | cons rule rules ih =>
      obtain ⟨⟨nonempty, filled, edges⟩, rest⟩ := separate
      have step : ∀ w ∈ origins rules words,
          (w <:+: replace rule.1 rule.2 s ↔ ∃ u ∈ preimages rule.1 rule.2 w, u <:+: s) :=
        fun w member => infix_replace_iff nonempty filled (List.all_eq_true.mp edges w member)
      have pass : passes (rule :: rules) s = passes rules (replace rule.1 rule.2 s) := rfl
      have back : origins (rule :: rules) words =
          (origins rules words).flatMap (preimages rule.1 rule.2) := rfl
      rw [pass, ih rest, back]
      simp only [List.mem_flatMap]
      constructor
      · rintro ⟨w, member, inside⟩
        obtain ⟨u, origin, within⟩ := (step w member).mp inside
        exact ⟨u, ⟨w, member, origin⟩, within⟩
      · rintro ⟨u, ⟨w, member, origin⟩, within⟩
        exact ⟨w, member, (step w member).mpr ⟨u, origin, within⟩⟩

end replace

section patterns

variable {m : Matcher} {before : Option Char}

/-- The pattern matches nowhere in the text. -/
def NoMatch (m : Matcher) : Option Char → Str → Prop
  | _, [] => True
  | before, c :: s => m before (c :: s) = none ∧ NoMatch m (some c) s

theorem NoMatch.sub_eq_self {s : Str} (none : NoMatch m before s) : sub m before 0 s = s := by
  induction s generalizing before with
  | nil => rfl
  | cons c s ih => rw [sub, none.1, ih none.2]

theorem NoMatch.behind {front s : Str} {c : Char} (none : NoMatch m before (front ++ c :: s)) :
    NoMatch m (some c) s := by
  induction front generalizing before with
  | nil => exact none.2
  | cons d front ih => exact ih none.2

/-- A pass of a shrinking pattern changes every text in which there is a match. -/
theorem noMatch_of_sub {w : Char → Nat} (shrinks : Shrinks w m) {s : Str}
    (same : sub m before 0 s = s) : NoMatch m before s := by
  induction s generalizing before with
  | nil => trivial
  | cons c s ih =>
      cases found : m before (c :: s) with
      | none =>
          simp only [sub, found] at same
          exact ⟨found, ih (List.cons_inj_right c |>.mp same)⟩
      | some result =>
          obtain ⟨length, text⟩ := result
          obtain ⟨positive, _, lighter⟩ := shrinks before (c :: s) length text found
          obtain ⟨length, rfl⟩ : ∃ more, length = more + 1 := ⟨length - 1, by omega⟩
          simp only [sub, found, Nat.add_sub_cancel] at same
          have rest : total w (sub m (some c) length s) ≤ total w (s.drop length) := by
            rcases sub_shrinks shrinks s (some c) length with kept | less
            · rw [kept]
            · exact Nat.le_of_lt less
          have split := congrArg (total w) (List.take_append_drop (length + 1) (c :: s))
          have weights := congrArg (total w) same
          rw [total_append, List.drop_succ_cons] at split
          rw [total_append] at weights
          omega

/-- Passes of shrinking patterns change nothing or make the text lighter. -/
theorem foldl_sub_shrinks {w : Char → Nat} {patterns : List Matcher}
    (shrink : ∀ pattern ∈ patterns, Shrinks w pattern) : ∀ s : Str,
    patterns.foldl (fun value pattern => sub pattern none 0 value) s = s ∨
      total w (patterns.foldl (fun value pattern => sub pattern none 0 value) s) < total w s := by
  induction patterns with
  | nil => intro s; exact Or.inl rfl
  | cons pattern patterns ih =>
      intro s
      have rest := ih (fun p member => shrink p (by simp [member])) (sub pattern none 0 s)
      have here := sub_shrinks (shrink pattern (by simp)) s none 0
      rw [List.drop_zero] at here
      rw [List.foldl_cons]
      rcases here with same | lighter
      · rwa [same] at rest ⊢
      · refine Or.inr ?_
        rcases rest with same | lighter'
        · rwa [same]
        · omega

/-- Passes of shrinking patterns one after the other change every text in which one of them has
a match. -/
theorem foldl_sub_eq_self_iff {w : Char → Nat} {ms : List Matcher}
    (shrinks : ∀ m ∈ ms, Shrinks w m) {s : Str} :
    ms.foldl (fun s m => sub m none 0 s) s = s ↔ ∀ m ∈ ms, NoMatch m none s := by
  induction ms with
  | nil => exact iff_of_true rfl nofun
  | cons m ms ih =>
      have later : ∀ n ∈ ms, Shrinks w n := fun n member =>
        shrinks n (List.mem_cons_of_mem m member)
      rw [List.foldl_cons, List.forall_mem_cons, ← ih later]
      constructor
      · intro same
        have kept : sub m none 0 s = s := by
          rcases sub_shrinks (shrinks m List.mem_cons_self) s none 0 with kept | less
          · exact kept
          · rw [List.drop_zero] at less
            rcases foldl_sub_shrinks later (sub m none 0 s) with rest | less'
            · rw [same] at rest
              rw [← rest] at less
              exact absurd less (Nat.lt_irrefl _)
            · rw [same] at less'
              omega
        rw [kept] at same
        exact ⟨noMatch_of_sub (shrinks m List.mem_cons_self) kept, same⟩
      · rintro ⟨nowhere, same⟩
        rw [nowhere.sub_eq_self, same]

/-- The pass behind a match knows the last character that the match covers. -/
theorem sub_match_concat {front rest text : Str} {c : Char}
    (found : m before (front ++ c :: rest) = some (front.length + 1, text)) :
    sub m before 0 (front ++ c :: rest) = text ++ sub m (some c) 0 rest := by
  have skips : ∀ (front : Str) before, sub m before (front.length + 1) (front ++ c :: rest) =
      sub m (some c) 0 rest := by
    intro front
    induction front with
    | nil => intro before; rfl
    | cons d front ih => intro before; exact ih (some d)
  cases front with
  | nil =>
      rw [List.nil_append] at found ⊢
      rw [sub, found]
      rfl
  | cons d front =>
      rw [List.cons_append] at found ⊢
      rw [sub, found]
      exact congrArg (text ++ ·) (skips front (some d))

/-- A pass replaces marks by the pieces that they stand for. -/
theorem marked_sub {rules : List (Str × Str)} {f : Char → Char}
    (found : ∀ before rest length text, m before rest = some (length, text) →
      ∃ front tail, rest = front ++ tail ∧ front ≠ [] ∧ length = front.length ∧
        (front.map f, text.map f) ∈ rules) (s : Str) :
    Marked rules ((sub m before 0 s).map f) (s.map f) := by
  induction size : s.length using Nat.strong_induction_on generalizing s before with
  | _ n ih =>
      cases s with
      | nil => exact .nil
      | cons c s =>
          cases match' : m before (c :: s) with
          | none =>
              simp only [sub, match', List.map_cons]
              exact .keep (f c) (ih s.length (by rw [← size]; simp) s rfl)
          | some result =>
              obtain ⟨front, tail, same, nonempty, length, known⟩ := found _ _ _ _ match'
              have positive := List.length_pos_iff.mpr nonempty
              have shorter := congrArg List.length same
              rw [List.length_append] at shorter
              rw [same] at match' ⊢
              obtain ⟨before', passed⟩ := sub_match nonempty (match'.trans (by rw [← length]))
              rw [passed, List.map_append, List.map_append]
              exact .mark known (ih tail.length (by omega) tail rfl)

end patterns

namespace Marked

/-- The word cannot overlap the text, at either end or within. -/
def Clear (w t : Str) : Prop :=
  (∀ v ∈ w.tails, v ≠ [] → ¬ v <+: t ∧ ¬ t <+: v) ∧
    ∀ v ∈ t.tails, v ≠ [] → ¬ v <+: w ∧ ¬ w <+: v

instance (w t : Str) : Decidable (Clear w t) := inferInstanceAs (Decidable (_ ∧ _))

variable {rules : List (Str × Str)} {s s' : Str}

theorem prefix_of_clear {w : Str} (clear : ∀ rule ∈ rules, Clear w rule.2)
    (marked : Marked rules s s') {v : Str} (ends : v <:+ w) (starts : v <+: s) : v <+: s' := by
  induction marked generalizing v with
  | nil => exact starts
  | keep c marked ih =>
      cases v with
      | nil => exact List.nil_prefix
      | cons d v =>
          obtain ⟨rfl, behind⟩ := List.cons_prefix_cons.mp starts
          have shorter := (List.suffix_cons d v).trans ends
          exact List.cons_prefix_cons.mpr ⟨rfl, ih shorter behind⟩
  | @mark rule known s s' marked ih =>
      by_cases empty : v = []
      · rw [empty]
        exact List.nil_prefix
      · obtain ⟨short, long⟩ := (clear rule known).1 v ((List.mem_tails _ _).mpr ends) empty
        rcases List.prefix_or_prefix_of_prefix starts (List.prefix_append rule.2 s) with in' | out
        · exact absurd in' short
        · exact absurd out long

/-- A word that overlaps none of the pieces is kept when they are marked. -/
theorem infix_of_clear {w : Str} (clear : ∀ rule ∈ rules, Clear w rule.2)
    (marked : Marked rules s s') (inside : w <:+: s) : w <:+: s' := by
  induction marked with
  | nil => exact inside
  | keep c marked ih =>
      rcases List.infix_cons_iff.mp inside with starts | behind
      · exact (prefix_of_clear clear (.keep c marked) List.suffix_rfl starts).isInfix
      · exact (ih behind).trans (List.suffix_cons c _).isInfix
  | @mark rule known s s' marked ih =>
      rcases infix_append_cases inside with ⟨v, nonempty, ends, starts⟩ | within
      · obtain ⟨short, long⟩ := (clear rule known).2 v ((List.mem_tails _ _).mpr ends) nonempty
        rcases List.prefix_or_prefix_of_prefix starts (List.prefix_append v s) with in' | out
        · exact absurd in' long
        · exact absurd out short
      · exact (ih within).trans List.infix_append_right

theorem swap (marked : Marked rules s s') : Marked (rules.map Prod.swap) s' s := by
  induction marked with
  | nil => exact .nil
  | keep c _ ih => exact .keep c ih
  | mark known _ ih => exact .mark (List.mem_map_of_mem known) ih

/-- A word that overlaps neither the marks nor the pieces is in both texts or in none. -/
theorem infix_iff_of_clear {w : Str} (clear : ∀ rule ∈ rules, Clear w rule.1 ∧ Clear w rule.2)
    (marked : Marked rules s s') : w <:+: s ↔ w <:+: s' := by
  constructor
  · exact infix_of_clear (fun rule known => (clear rule known).2) marked
  · refine infix_of_clear (fun rule known => ?_) marked.swap
    obtain ⟨original, member, rfl⟩ := List.mem_map.mp known
    exact (clear original member).1

end Marked

end Py
