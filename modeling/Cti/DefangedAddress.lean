import Mathlib.Data.List.Chain
import Cti.Defanged

set_option autoImplicit false

/- Canonicalizing IP addresses and e-mail addresses that a feed has defanged. -/
namespace Ipaddress

open Py (Str)

theorem parseHextet_hex {part : Str} {hextet : Fin 65536}
    (parsed : parseHextet part = some hextet) :
    ∀ c ∈ part, isHexDigit c = true := by
  unfold parseHextet at parsed
  split at parsed
  · cases parsed
  · rename_i digits
    simp only [not_or, Bool.not_eq_false, List.all_eq_true] at digits
    exact digits.1

theorem skips_empty {parts : List Str} {skip : Nat} (found : skip ∈ skips parts) :
    parts[skip]? = some [] := by
  obtain ⟨⟨part, i⟩, member, same⟩ := List.mem_filterMap.mp found
  split at same
  · rename_i empty
    cases same
    obtain ⟨above, inside⟩ := List.mk_mem_zipIdx_iff_le_and_getElem?_sub.mp member
    simp only at empty
    rw [empty, List.getElem?_dropLast, List.getElem?_tail] at inside
    split at inside
    · rwa [Nat.sub_add_cancel above] at inside
    · cases inside
  · cases same

/-- The parts that are not read as numbers are empty. -/
theorem partsAround_covers {parts : List Str} {hi lo : Nat}
    (around : partsAround parts = some (hi, lo)) :
    ∀ part ∈ parts, part = [] ∨ part ∈ parts.take hi ∨ part ∈ parts.drop (parts.length - lo) := by
  intro part member
  obtain ⟨i, inside, rfl⟩ := List.mem_iff_getElem.mp member
  have early : i < hi → parts[i] ∈ parts.take hi := fun less =>
    List.mem_take_iff_getElem.mpr ⟨i, by omega, rfl⟩
  have late : parts.length - lo ≤ i → parts[i] ∈ parts.drop (parts.length - lo) := fun more =>
    List.mem_drop_iff_getElem.mpr ⟨i - (parts.length - lo), by omega, by
      simp only [Nat.add_sub_cancel' more]⟩
  have first : i = 0 → parts.head? = some [] → parts[i] = [] := by
    rintro rfl head
    rw [List.head?_eq_getElem?, List.getElem?_eq_getElem inside, Option.some.injEq] at head
    exact head
  have last : i = parts.length - 1 → parts.getLast? = some [] → parts[i] = [] := by
    rintro rfl final
    rw [List.getLast?_eq_getElem?, List.getElem?_eq_getElem inside, Option.some.injEq] at final
    exact final
  unfold partsAround at around
  split at around
  · split at around
    · rename_i complete
      cases around
      exact Or.inr (Or.inl (early (by omega)))
    · cases around
  · rename_i skip found
    have empty : parts[skip]? = some [] := skips_empty (by rw [found]; exact List.mem_cons_self)
    have within : skip < parts.length := (List.getElem?_eq_some_iff.mp empty).1
    have middle : i = skip → parts[i] = [] := by
      rintro rfl
      rwa [List.getElem?_eq_getElem inside, Option.some.injEq] at empty
    have above : 1 ≤ skip := by
      obtain ⟨⟨_, j⟩, member, same⟩ := List.mem_filterMap.mp
        (show skip ∈ skips parts by rw [found]; exact List.mem_cons_self)
      split at same
      · cases same
        exact (List.mk_mem_zipIdx_iff_le_and_getElem?_sub.mp member).1
      · cases same
    -- Up to the skipped part everything is counted by `hi`, behind it by `lo`, unless an empty
    -- part stands at that end.
    simp only at around
    generalize front : (if parts.head? = some [] then skip - 1 else skip) = high at around
    generalize back : (if parts.getLast? = some [] then parts.length - skip - 2
      else parts.length - skip - 1) = low at around
    split at around
    · cases around
    rename_i start_ok
    split at around
    · cases around
    rename_i end_ok
    split at around
    · cases around
    cases around
    by_cases before : i < hi
    · exact Or.inr (Or.inl (early before))
    by_cases behind : parts.length - lo ≤ i
    · exact Or.inr (Or.inr (late behind))
    apply Or.inl
    by_cases start : parts.head? = some [] ∧ i = 0
    · exact first start.2 start.1
    by_cases finish : parts.getLast? = some [] ∧ i = parts.length - 1
    · exact last finish.2 finish.1
    apply middle
    by_cases head : parts.head? = some [] <;> by_cases final : parts.getLast? = some [] <;>
      simp only [head, final, if_true, if_false, true_and, false_and, not_false_eq_true, ne_eq,
        not_not] at front back start_ok end_ok start finish <;> omega
  · cases around

theorem mapM_hex {parts : List Str} {hextets : List (Fin 65536)}
    (parsed : parts.mapM parseHextet = some hextets) :
    ∀ part ∈ parts, ∀ c ∈ part, isHexDigit c = true := by
  induction parts generalizing hextets with
  | nil => nofun
  | cons part parts ih =>
      simp only [List.mapM_cons, Option.bind_eq_bind, Option.bind_eq_some_iff] at parsed
      obtain ⟨hextet, head, hextets', tail, _⟩ := parsed
      intro other member
      rcases List.mem_cons.mp member with rfl | later
      · exact parseHextet_hex head
      · exact ih tail other later

/-- The number of an IPv6 address is read from hexadecimal digits, colons and dots only. -/
theorem ipInt_plain {text : Str} {hextets : List (Fin 65536)} (parsed : ipInt text = some hextets) :
    ∀ c ∈ text, isHexDigit c = true ∨ c = ':' ∨ c = '.' := by
  unfold ipInt at parsed
  simp only [Option.bind_eq_bind, Option.pure_def] at parsed
  split at parsed
  · cases parsed
  rw [Option.bind_eq_some_iff] at parsed
  obtain ⟨parts, expand, parsed⟩ := parsed
  split at parsed
  · cases parsed
  simp only [Option.bind_eq_some_iff] at parsed
  obtain ⟨⟨hi, lo⟩, around, high, first, low, second, _⟩ := parsed
  have covered : ∀ part ∈ parts, ∀ c ∈ part, isHexDigit c = true := by
    intro part member
    rcases partsAround_covers around part member with rfl | early | late
    · nofun
    · exact mapM_hex first part early
    · exact mapM_hex second part late
  intro c member
  by_cases colon : c = ':'
  · exact Or.inr (Or.inl colon)
  obtain ⟨part, inside, here⟩ := Py.mem_splitOn member colon
  unfold expandIPv4 at expand
  split at expand
  · cases expand
    exact Or.inl (covered part inside c here)
  · rename_i last final
    split at expand
    · simp only [Option.bind_eq_bind, Option.bind_eq_some_iff, Option.pure_def,
        Option.some.injEq] at expand
      obtain ⟨address, octets, rfl⟩ := expand
      obtain ⟨init, same⟩ := List.getLast?_eq_some_iff.mp final
      rw [same] at inside covered
      rw [List.dropLast_concat] at covered
      rcases List.mem_append.mp inside with early | ends
      · exact Or.inl (covered part (List.mem_append_left _ early) c here)
      · rw [List.mem_singleton] at ends
        subst ends
        rcases IPv4Address.parse_plain octets c here with digit | dot
        · exact Or.inl (by simp [isHexDigit, digit])
        · exact Or.inr (Or.inr dot)
    · cases expand
      exact Or.inl (covered part inside c here)

/-- The text of an IPv6 address and its scope. -/
theorem IPv6Address.parse_parts {text : Str} {address : IPv6Address}
    (parsed : parse text = some address) : ∃ body, (∀ c ∈ body, isHexDigit c = true ∨ c = ':' ∨
      c = '.') ∧
      text = body ++ (match address.scope with | none => [] | some scope => '%' :: scope.val) := by
  simp only [parse, Option.bind_eq_bind, Option.bind_eq_some_iff] at parsed
  obtain ⟨⟨body, scope⟩, split, hextets, number, built⟩ := parsed
  refine ⟨body, ipInt_plain number, ?_⟩
  split at built
  · cases built
    have whole := @List.takeWhile_append_dropWhile _ (· != '%') text
    unfold splitScope at split
    split at split
    · rename_i empty
      cases split
      simp
    · rename_i percent tail rest
      split at split
      · cases split
        have stop := List.head?_dropWhile_not (· != '%') text
        rw [rest] at stop whole
        simp only [List.head?_cons, bne_eq_false_iff_eq] at stop
        rw [stop] at whole
        exact whole.symm
      · cases split
  · cases built

end Ipaddress

namespace Py

/-- Lower-casing keeps a weight that only symbols have. -/
theorem total_lower_eq {U : Unicode} {w : Char → Nat}
    (symbols : ∀ c, w c ≠ 0 → isAscii c = true ∧ c.isAlpha = false ∧ c.toLower = c) (s : Str) :
    total w (lower U s) = total w s := by
  have general : ∀ s before, total w (lowerFrom U before s) = total w s := by
    intro s
    induction s with
    | nil => intro before; rfl
    | cons c rest ih =>
        intro before
        have head : total w (lowerAt U before c rest) = w c := by
          by_cases heavy : w c = 0
          · rw [heavy]
            apply total_le_of_forall
            intro d member
            by_contra weight
            obtain ⟨ascii, letter, _⟩ := symbols d weight
            rw [mem_lowerAt_symbol ascii letter member] at weight
            exact weight heavy
          · obtain ⟨ascii, _, fixed⟩ := symbols c heavy
            rw [lowerAt_ascii ascii, fixed, total_cons, total_nil, Nat.add_zero]
        rw [lowerFrom, total_append, total_cons, head, ih]
  exact general s []

theorem total_strip {w : Char → Nat} (light : ∀ c, isSpace c = true → w c = 0) (s : Str) :
    total w (strip s) = total w s := by
  obtain ⟨front, back, same, before, after⟩ := strip_spaces s
  have whole := congrArg (total w) same
  rw [total_append, total_append, total_le_of_forall fun c member => light c (before c member),
    total_le_of_forall fun c member => light c (after c member)] at whole
  omega

theorem mem_lower {U : Unicode} {s : Str} {c : Char} (ascii : isAscii c = true)
    (fixed : c.toLower = c) (member : c ∈ s) : c ∈ lower U s := by
  have general : ∀ s before, c ∈ s → c ∈ lowerFrom U before s := by
    intro s
    induction s with
    | nil => intro before member; cases member
    | cons d rest ih =>
        intro before member
        rw [lowerFrom, List.mem_append]
        rcases List.mem_cons.mp member with rfl | later
        · rw [lowerAt_ascii ascii, fixed]
          exact Or.inl List.mem_cons_self
        · exact Or.inr (ih _ later)
  exact general s [] member

theorem mem_rstrip {p : Char → Bool} {s : Str} {c : Char} (member : c ∈ s) (keeps : p c = false) :
    c ∈ rstrip p s := by
  rw [← List.rdropWhile_append_rtakeWhile (p := p) (l := s)] at member
  rcases List.mem_append.mp member with here | dropped
  · exact here
  · rw [List.mem_rtakeWhile_imp dropped] at keeps
    cases keeps

theorem mem_splitOnP {p : Char → Bool} {s : Str} {c : Char} (member : c ∈ s) (other : p c = false) :
    ∃ part ∈ s.splitOnP p, c ∈ part := by
  induction s with
  | nil => cases member
  | cons d s ih =>
      rw [List.splitOnP_cons_eq_if_modifyHead]
      obtain ⟨first, rest, same⟩ := List.exists_cons_of_ne_nil (List.splitOnP_ne_nil p s)
      rcases List.mem_cons.mp member with rfl | later
      · rw [other, same]
        exact ⟨c :: first, List.mem_cons_self, List.mem_cons_self⟩
      · obtain ⟨part, inside, here⟩ := ih later
        split
        · exact ⟨part, List.mem_cons_of_mem _ inside, here⟩
        · rw [same, List.modifyHead_cons]
          rw [same] at inside
          rcases List.mem_cons.mp inside with rfl | after
          · exact ⟨d :: part, List.mem_cons_self, List.mem_cons_of_mem d here⟩
          · exact ⟨part, List.mem_cons_of_mem _ after, here⟩

theorem mem_intercalate {sep part : Str} {parts : List Str} {c : Char} (inside : part ∈ parts)
    (member : c ∈ part) : c ∈ sep.intercalate parts := by
  induction parts with
  | nil => cases inside
  | cons first parts ih =>
      cases parts with
      | nil =>
          rw [List.mem_singleton] at inside
          rwa [intercalate_singleton, ← inside]
      | cons second rest =>
          rw [intercalate_cons_cons, List.mem_append, List.mem_append]
          rcases List.mem_cons.mp inside with rfl | later
          · exact Or.inl member
          · exact Or.inr (Or.inr (ih later))

/-- What is marked in a text that is itself marked. The marks of `more` are those of the second
step, and those of the first step as the second one writes them. -/
theorem Marked.trans {rules marks more : List (Str × Str)} {s s' s'' : Str}
    (single : Marked.Single marks) (second : ∀ rule ∈ marks, rule ∈ more)
    (both : ∀ rule ∈ rules, ∀ mark, Marked marks rule.1 mark → (mark, rule.2) ∈ more)
    (first : Marked rules s s') (marked : Marked marks s' s'') : Marked more s s'' := by
  induction first generalizing s'' with
  | nil => exact marked.mono second
  | @keep c s s' _ ih =>
      obtain ⟨a, b, rfl, here, rest⟩ := marked.split single (a := [c])
      exact (here.mono second).append (ih rest)
  | @mark rule known s s' _ ih =>
      obtain ⟨a, b, rfl, here, rest⟩ := marked.split single
      exact @Marked.mark more (a, rule.2) (both rule known a here) _ _ (ih rest)

end Py

namespace Cti

open Py (Str Unicode Marked total)

variable {R : Runtime} {t : IndicatorType} {s s' : Str}

/-- The ways to defang a colon, and an at sign. -/
def colonMark : Str × Str := ("[:]".toList, ":".toList)
def atMark : Str × Str := ("[at]".toList, "@".toList)

/-- The spellings of an address that is defanged: any of its dots, any colon of an IPv6
address, the last at sign of an e-mail address. -/
inductive DefangsAddress : IndicatorType → Str → Str → Prop
  | ipv4 {v v' : Str} (dots : Marked dotMarks v v') : DefangsAddress .ipv4 v v'
  | ipv6 {v v' : Str} (dots : Marked (colonMark :: dotMarks) v v') : DefangsAddress .ipv6 v v'
  | email {name domain name' domain' at' : Str} (last : '@' ∉ domain)
      (first_dots : Marked dotMarks name name') (last_dots : Marked dotMarks domain domain')
      (sign : at' = "@".toList ∨ at' = "[at]".toList) :
      DefangsAddress .email (name ++ '@' :: domain) (name' ++ (at' ++ domain'))

/-- A bracket stands directly within a bracket, other than a square one within a round one. -/
def Nested (text : Str) : Prop :=
  "[[".toList <:+: text ∨ "[(".toList <:+: text ∨ "((".toList <:+: text

/-- Nothing is defanged in an IP address; in an e-mail address no dot before the last at sign
and not this sign itself, and no bracket is put around the dot of a mark that was there, other
than a square one within a round one. -/
def Survives (t : IndicatorType) (v v' : Str) : Prop :=
  match t with
  | .email => ∃ name domain domain', Py.rpartition '@' (Py.strip v) = some (name, domain) ∧
      Py.rpartition '@' (Py.strip v') = some (name, domain') ∧ ¬ Nested domain'
  | _ => v' = v

/-- The IDNA encoding of a label keeps the ASCII symbols in it. -/
def KeepsSymbols (U : Unicode) : Prop :=
  ∀ label encoded, U.toAscii label = some encoded →
    ∀ c ∈ "@:[(".toList, c ∈ label → c ∈ encoded

/-- Counts the opening brackets. -/
def bracketWeight (c : Char) : Nat := if c = '[' ∨ c = '(' then 1 else 0

def atWeight (c : Char) : Nat := if c = '@' then 1 else 0

theorem bracketWeight_symbol (c : Char) (heavy : bracketWeight c ≠ 0) :
    Py.isAscii c = true ∧ c.isAlpha = false ∧ c.toLower = c := by
  unfold bracketWeight at heavy
  split at heavy
  · rename_i bracket
    rcases bracket with rfl | rfl <;> decide
  · exact absurd rfl heavy

theorem atWeight_symbol (c : Char) (heavy : atWeight c ≠ 0) :
    Py.isAscii c = true ∧ c.isAlpha = false ∧ c.toLower = c := by
  unfold atWeight at heavy
  split at heavy
  · rename_i sign
    subst sign
    decide
  · exact absurd rfl heavy

theorem atWeight_none {text : Str} (absent : '@' ∉ text) : total atWeight text = 0 := by
  apply Py.total_le_of_forall
  intro c member
  apply if_neg
  rintro rfl
  exact absent member

theorem space_not_symbol {c : Char} (space : Py.isSpace c = true) :
    bracketWeight c = 0 ∧ atWeight c = 0 := by
  unfold bracketWeight atWeight
  refine ⟨if_neg ?_, if_neg ?_⟩
  · rintro (rfl | rfl) <;> cases space
  · rintro rfl
    cases space

theorem defanged_heavier : ∀ rule ∈ colonMark :: dotMarks,
    total bracketWeight rule.2 < total bracketWeight rule.1 := by decide

/-- Without another opening bracket nothing was defanged. -/
theorem undefanged {v v' : Str} (marked : Marked (colonMark :: dotMarks) v v')
    (weight : total bracketWeight (Py.strip v') ≤ total bracketWeight (Py.strip v)) : v' = v := by
  have light : ∀ c, Py.isSpace c = true → bracketWeight c = 0 :=
    fun c space => (space_not_symbol space).1
  rw [Py.total_strip light, Py.total_strip light] at weight
  rcases marked.heavier defanged_heavier with same | heavier
  · exact same
  · omega

/-- An IPv4 address is accepted only as it is. -/
theorem ipv4_survives {v v' c : Str} (marked : Marked (colonMark :: dotMarks) v v')
    (result : canonicalize R .ipv4 v' = .ok c) : v' = v := by
  apply undefanged marked
  have nothing : total bracketWeight (Py.strip v') = 0 := by
    unfold canonicalize at result
    simp only at result
    split at result
    · cases result
    split at result
    · rename_i address parsed
      apply Py.total_le_of_forall
      intro d member
      apply if_neg
      rcases Ipaddress.IPv4Address.parse_plain parsed d member with digit | rfl
      · rintro (rfl | rfl) <;> cases digit
      · decide
    · cases result
  omega

/-- An IPv6 address is written like itself only as it is. -/
theorem ipv6_survives {v v' c : Str} (marked : Marked (colonMark :: dotMarks) v v')
    (result : canonicalize R .ipv6 v = .ok c) (result' : canonicalize R .ipv6 v' = .ok c) :
    v' = v := by
  have parsed : ∀ {v : Str}, canonicalize R .ipv6 v = .ok c →
      ∃ address, Ipaddress.IPv6Address.parse (Py.strip v) = some address ∧ c = address.str := by
    intro v result
    unfold canonicalize at result
    simp only at result
    split at result
    · cases result
    split at result
    · rename_i address parsed
      cases result
      exact ⟨address, parsed, rfl⟩
    · cases result
  obtain ⟨address, parse, str⟩ := parsed result
  obtain ⟨address', parse', str'⟩ := parsed result'
  have same : address' = address := by
    have back := Ipaddress.IPv6Address.parse_str address
    rw [← str, str', Ipaddress.IPv6Address.parse_str, Option.some.injEq] at back
    exact back
  apply undefanged marked
  obtain ⟨body, _, whole⟩ := Ipaddress.IPv6Address.parse_parts parse
  obtain ⟨body', plain', whole'⟩ := Ipaddress.IPv6Address.parse_parts parse'
  have nothing : total bracketWeight body' = 0 := by
    apply Py.total_le_of_forall
    intro d member
    apply if_neg
    rcases plain' d member with hex | rfl | rfl
    · rintro (rfl | rfl) <;> cases hex
    · decide
    · decide
  rw [whole, whole', same, Py.total_append, Py.total_append, nothing]
  omega

/-- The marks that refanging reads as dots, and those with a bracket too many. -/
def goodMarks : List (Str × Str) :=
  [("[.]".toList, ".".toList), ("(.)".toList, ".".toList), ("([.])".toList, ".".toList)]

def nestedMarks : List (Str × Str) :=
  [("[[.]]".toList, ".".toList), ("[(.)]".toList, ".".toList), ("((.))".toList, ".".toList),
    ("([[.]])".toList, ".".toList), ("([(.)])".toList, ".".toList)]

theorem dotMarks_single : Marked.Single dotMarks := by
  unfold Marked.Single
  decide

/-- A marked text around one dot. -/
theorem dotted_mark {rules : List (Str × Str)} (single : Marked.Single rules)
    (dots : ∀ rule ∈ rules, rule.2 = ".".toList) {front back mark : Str} (before : '.' ∉ front)
    (after : '.' ∉ back) (marked : Marked rules (front ++ (".".toList ++ back)) mark) :
    mark = front ++ (".".toList ++ back) ∨ ∃ rule ∈ rules, mark = front ++ (rule.1 ++ back) := by
  have plain : ∀ {text text' : Str}, '.' ∉ text → Marked rules text text' → text' = text := by
    intro text text' absent marked
    apply marked.eq_of_absent
    intro rule known
    exact ⟨'.', by rw [dots rule known]; decide, absent⟩
  obtain ⟨front', rest, rfl, first, marked⟩ := marked.split single
  obtain ⟨dot, back', rfl, second, third⟩ := marked.split single
  rw [plain before first, plain after third]
  generalize piece : ".".toList = text at second
  cases second with
  | nil => cases piece
  | @keep c t t' inner =>
      obtain ⟨rfl, rfl⟩ := List.cons.inj (show ['.'] = c :: t from piece)
      rw [plain (by simp) inner]
      exact Or.inl rfl
  | @mark rule known t t' inner =>
      rw [dots rule known] at piece
      have empty : t = [] := by
        have size := congrArg List.length piece
        rw [List.length_append] at size
        exact List.length_eq_zero_iff.mp (by omega)
      subst empty
      rw [plain (by simp) inner, List.append_nil]
      exact Or.inr ⟨rule, known, rfl⟩

/-- What the two replacements of dots undo. -/
theorem goodMarks_of_replace {D s1 s2 : Str} (square : Marked [("[.]".toList, ".".toList)] s1 D)
    (round : Marked [("(.)".toList, ".".toList)] s2 s1) : Marked goodMarks s2 D := by
  apply Marked.trans (by unfold Marked.Single; decide) (by decide) _ round square
  intro rule known mark marked
  rw [List.mem_singleton] at known
  subst known
  have written := @dotted_mark _ (by unfold Marked.Single; decide) (by decide)
    "(".toList ")".toList mark (by decide) (by decide) marked
  rcases written with rfl | ⟨rule, known, rfl⟩
  · decide
  · rw [List.mem_singleton] at known
    subst known
    decide

/-- Defanging a text that is defanged already. -/
theorem marks_of_good {D D' : Str} (good : Marked goodMarks s D) (dots : Marked dotMarks D D') :
    Marked (goodMarks ++ nestedMarks) s D' := by
  apply Marked.trans dotMarks_single (by decide) _ good dots
  intro rule known mark marked
  have parts : ∃ front back, '.' ∉ front ∧ '.' ∉ back ∧
      rule = (front ++ (".".toList ++ back), ".".toList) ∧
      ∀ mark ∈ ".".toList :: dotMarks.map Prod.fst,
        (front ++ (mark ++ back), ".".toList) ∈ goodMarks ++ nestedMarks := by
    simp only [goodMarks, List.mem_cons, List.not_mem_nil, or_false] at known
    rcases known with rfl | rfl | rfl
    · exact ⟨"[".toList, "]".toList, by decide, by decide, by decide, by decide⟩
    · exact ⟨"(".toList, ")".toList, by decide, by decide, by decide, by decide⟩
    · exact ⟨"([".toList, "])".toList, by decide, by decide, by decide, by decide⟩
  obtain ⟨front, back, before, after, rfl, written⟩ := parts
  rcases dotted_mark dotMarks_single (by decide) before after marked with rfl | ⟨rule, inside, rfl⟩
  · exact written ".".toList List.mem_cons_self
  · exact written rule.1 (List.mem_cons_of_mem _ (List.mem_map_of_mem inside))

theorem Nested.mono {text more : Str} (inside : text <:+: more) (nested : Nested text) :
    Nested more :=
  Or.imp (·.trans inside) (Or.imp (·.trans inside) (·.trans inside)) nested

/-- Nesting takes two opening brackets. -/
theorem Nested.weight {text : Str} (nested : Nested text) : 2 ≤ total bracketWeight text := by
  have heavy : ∀ {two : Str}, two <:+: text → total bracketWeight two = 2 →
      2 ≤ total bracketWeight text := by
    intro two inside weight
    rw [← weight]
    exact Py.total_sublist bracketWeight inside.sublist
  rcases nested with inside | inside | inside
  · exact heavy inside (by decide)
  · exact heavy inside (by decide)
  · exact heavy inside (by decide)

theorem nestedMarks_nested : ∀ rule ∈ nestedMarks, Nested rule.1 := by
  intro rule known
  simp only [nestedMarks, List.mem_cons, List.not_mem_nil, or_false] at known
  rcases known with rfl | rfl | rfl | rfl | rfl
  · exact Or.inl ⟨[], ".]]".toList, by decide⟩
  · exact Or.inr (Or.inl ⟨[], ".)]".toList, by decide⟩)
  · exact Or.inr (Or.inr ⟨[], ".))".toList, by decide⟩)
  · exact Or.inl ⟨"(".toList, ".]])".toList, by decide⟩
  · exact Or.inr (Or.inl ⟨"(".toList, ".)])".toList, by decide⟩)

/-- Without a nested bracket only the good marks are there. -/
theorem good_of_not_nested (marked : Marked (goodMarks ++ nestedMarks) s s')
    (plain : ¬ Nested s') : Marked goodMarks s s' := by
  induction marked with
  | nil => exact .nil
  | @keep c s s' _ ih =>
      exact .keep c (ih fun nested => plain (nested.mono (List.suffix_cons c s').isInfix))
  | @mark rule known s s' _ ih =>
      have rest : Marked goodMarks s s' :=
        ih fun nested => plain (nested.mono (List.suffix_append rule.1 s').isInfix)
      rcases List.mem_append.mp known with good | bad
      · exact .mark good rest
      · have here : rule.1 <:+: rule.1 ++ s' := (List.prefix_append rule.1 s').isInfix
        exact absurd ((nestedMarks_nested rule bad).mono here) plain

/-- Neighbours of which the second does not open a bracket directly within the first. -/
def NotNested (a b : Char) : Prop := ¬ (a = '[' ∧ (b = '[' ∨ b = '(') ∨ a = '(' ∧ b = '(')

theorem goodMarks_notNested : ∀ rule ∈ goodMarks, rule.1.IsChain NotNested ∧
    ∀ c ∈ rule.1.getLast?, c ≠ '[' ∧ c ≠ '(' := by
  unfold NotNested goodMarks
  simp

/-- The good marks do not nest. -/
theorem not_nested_of_good (square : '[' ∉ s) (round : '(' ∉ s) (marked : Marked goodMarks s s') :
    ¬ Nested s' := by
  have chain : s'.IsChain NotNested := by
    induction marked with
    | nil => exact .nil
    | @keep c s s' _ ih =>
        rw [List.mem_cons, not_or] at square round
        have rest := ih square.2 round.2
        cases s' with
        | nil => exact .singleton c
        | cons d s' =>
            apply List.IsChain.cons_cons _ rest
            rintro (⟨rfl, _⟩ | ⟨rfl, _⟩)
            · exact square.1 rfl
            · exact round.1 rfl
    | @mark rule known s s' _ ih =>
        rw [List.mem_append, not_or] at square round
        have rest := ih square.2 round.2
        obtain ⟨closed, last⟩ := goodMarks_notNested rule known
        apply closed.append rest
        intro c final d _
        rintro (⟨same, _⟩ | ⟨same, _⟩)
        · exact (last c final).1 same
        · exact (last c final).2 same
  have pairs : ∀ a b : Char, [a, b] <:+: s' → NotNested a b := by
    intro a b inside
    have two := chain.infix inside
    simpa using two
  rintro (inside | inside | inside)
  · exact pairs '[' '[' inside (Or.inl ⟨rfl, Or.inl rfl⟩)
  · exact pairs '[' '(' inside (Or.inl ⟨rfl, Or.inr rfl⟩)
  · exact pairs '(' '(' inside (Or.inr ⟨rfl, rfl⟩)

/-- Refanging reads good marks as dots. -/
theorem refang_good {U : Unicode} (square : '[' ∉ s) (round : '(' ∉ s) (colon : ':' ∉ s)
    (marked : Marked goodMarks s s') : refang U s' = s := by
  have undone : ∃ middle, Marked [("(.)".toList, ".".toList)] s middle ∧
      Marked [("[.]".toList, ".".toList)] middle s' := by
    induction marked with
    | nil => exact ⟨[], .nil, .nil⟩
    | @keep c s s' _ ih =>
        simp only [List.mem_cons, not_or] at square round colon
        obtain ⟨middle, first, second⟩ := ih square.2 round.2 colon.2
        exact ⟨c :: middle, .keep c first, .keep c second⟩
    | @mark rule known s s' _ ih =>
        simp only [List.mem_append, not_or] at square round colon
        obtain ⟨middle, first, second⟩ := ih square.2 round.2 colon.2
        have squared : Marked [("[.]".toList, ".".toList)] ".".toList "[.]".toList :=
          @Marked.mark _ ("[.]".toList, ".".toList) List.mem_cons_self _ _ .nil
        have rounded : Marked [("(.)".toList, ".".toList)] ".".toList "(.)".toList :=
          @Marked.mark _ ("(.)".toList, ".".toList) List.mem_cons_self _ _ .nil
        have both : Marked [("[.]".toList, ".".toList)] "(.)".toList "([.])".toList :=
          .keep '(' (squared.append (Marked.refl ")".toList))
        simp only [goodMarks, List.mem_cons, List.not_mem_nil, or_false] at known
        rcases known with rfl | rfl | rfl
        · exact ⟨".".toList ++ middle, (Marked.refl _).append first, squared.append second⟩
        · exact ⟨"(.)".toList ++ middle, rounded.append first, (Marked.refl _).append second⟩
        · exact ⟨"(.)".toList ++ middle, rounded.append first, both.append second⟩
  obtain ⟨middle, first, second⟩ := undone
  have absent : '[' ∉ middle := by
    intro member
    refine first.forall_mem (P := (· ≠ '[')) (by simp) ?_ '[' member rfl
    exact fun c here same => square (same ▸ here)
  have one : Py.replace "[.]".toList ".".toList s' = middle := by
    have opens : Py.Brackets (· == '[') [("[.]".toList, ".".toList)] := ⟨by decide, by decide⟩
    apply second.replaceAll opens
    intro rule known inside
    rw [List.mem_singleton] at known
    subst known
    exact absent (inside.subset (by decide))
  have two : Py.replace "(.)".toList ".".toList middle = s := by
    have opens : Py.Brackets (· == '(') [("(.)".toList, ".".toList)] := ⟨by decide, by decide⟩
    apply first.replaceAll opens
    intro rule known inside
    rw [List.mem_singleton] at known
    subst known
    exact round (inside.subset (by decide))
  have plain := refang_eq_self (U := U) square round colon
  unfold refang at plain ⊢
  simp only [defangReplacements, List.foldl_cons, List.foldl_nil] at plain ⊢
  rw [one, two]
  rwa [@Py.replace_eq_self "[.]".toList _ _ '[' (by decide) square,
    @Py.replace_eq_self "(.)".toList _ _ '(' (by decide) round] at plain

/-- A text whose refanged form has no symbol left was defanged with good marks only. -/
theorem good_of_refang {U : Unicode} {D : Str} (sign : '@' ∉ refang U D)
    (colon : ':' ∉ refang U D) :
    Marked goodMarks (refang U D) D := by
  have undo : ∀ (src dst text : Str), src ≠ [] → Marked [(src, dst)] (Py.replace src dst text) text :=
    fun src dst text nonempty => Marked.of_replace nonempty text
  have kept : ∀ {src dst text : Str} {c : Char}, src ≠ [] → c ∈ dst →
      c ∉ Py.replace src dst text → Py.replace src dst text = text := by
    intro src dst text c nonempty piece absent
    apply Eq.symm
    apply (undo src dst text nonempty).eq_of_absent
    intro rule known
    rw [List.mem_singleton] at known
    subst known
    exact ⟨c, piece, absent⟩
  generalize first : Py.replace "[.]".toList ".".toList D = D1
  generalize second : Py.replace "(.)".toList ".".toList D1 = D2
  have whole : refang U D = Py.sub (reHxxp U) none 0 (Py.replace "[://]".toList "://".toList
      (Py.replace "[at]".toList "@".toList (Py.replace "[:]".toList ":".toList D2))) := by
    rw [← second, ← first]
    rfl
  have schemed : ':' ∉ Py.replace "[://]".toList "://".toList
      (Py.replace "[at]".toList "@".toList (Py.replace "[:]".toList ":".toList D2)) := by
    intro member
    apply colon
    rw [whole]
    apply Py.mem_sub _ member
    intro before rest length text found
    obtain ⟨_, _, _, _, _, _, _, rfl⟩ := webScheme_match found
    simp
  rw [Py.sub_eq_self reHxxp_needs _ fun c here same => schemed (same ▸ here)] at whole
  rw [kept (by decide) (by decide) schemed] at whole schemed
  rw [whole] at sign
  rw [kept (by decide) (by decide) sign] at whole schemed
  rw [kept (by decide) (by decide) schemed] at whole
  rw [whole]
  have square : Marked [("[.]".toList, ".".toList)] D1 D := by
    rw [← first]
    exact undo _ _ D (by decide)
  have round : Marked [("(.)".toList, ".".toList)] D2 D1 := by
    rw [← second]
    exact undo _ _ D1 (by decide)
  exact goodMarks_of_replace square round

theorem mem_mapM_some {α β : Type} {f : α → Option β} {l : List α} {m : List β}
    (mapped : l.mapM f = some m) {a : α} (member : a ∈ l) : ∃ b ∈ m, f a = some b := by
  induction l generalizing m with
  | nil => cases member
  | cons first l ih =>
      simp only [List.mapM_cons, Option.bind_eq_bind, Option.bind_eq_some_iff, Option.pure_def,
        Option.some.injEq] at mapped
      obtain ⟨b, head, rest, tail, rfl⟩ := mapped
      rcases List.mem_cons.mp member with rfl | later
      · exact ⟨b, List.mem_cons_self, head⟩
      · obtain ⟨b', inside, same⟩ := ih tail later
        exact ⟨b', List.mem_cons_of_mem _ inside, same⟩

/-- A domain that is accepted has none of these symbols once it is refanged. -/
theorem accepted_plain (symbols : KeepsSymbols R.unicode) {D d : Str}
    (result : canonicalDomain R D = .ok d) : ∀ c ∈ "@:[(".toList, c ∉ refang R.unicode D := by
  obtain ⟨encode, canonical⟩ := canonicalDomain_eq result
  intro c symbol member
  have facts : ∀ c ∈ "@:[(".toList, Py.isAscii c = true ∧ c.toLower = c ∧ (c == '.') = false ∧
      isIdnaDot c = false := Py.forall_mem_of_all (by decide)
  obtain ⟨ascii, fixed, dot, idna⟩ := facts c symbol
  have foreign : c ∉ d := by
    intro inside
    have plain := domainChar_plain (canonical.chars c inside)
    simp only [show "@:[(".toList = ['@', ':', '[', '('] by rfl, List.mem_cons, List.not_mem_nil,
      or_false] at symbol
    rcases symbol with rfl | rfl | rfl | rfl
    · exact plain.2.2.2.2.2.1 rfl
    · exact plain.2.2.2.2.1 rfl
    · exact plain.2.2.1 rfl
    · exact plain.2.2.2.1 rfl
  have text : c ∈ domainText R.unicode D := Py.mem_rstrip (Py.mem_lower ascii fixed member) dot
  unfold encodeIdna at encode
  split at encode
  · simp only at encode
    split at encode
    · cases encode
      exact foreign text
    · cases encode
  · obtain ⟨label, inside, here⟩ := Py.mem_splitOnP text idna
    simp only [Option.bind_eq_bind, Option.bind_eq_some_iff, Option.pure_def,
      Option.some.injEq] at encode
    obtain ⟨labels, mapped, rfl⟩ := encode
    have kept : label ∈ if ((domainText R.unicode D).splitOnP isIdnaDot).getLast? = some [] then
        ((domainText R.unicode D).splitOnP isIdnaDot).dropLast
        else (domainText R.unicode D).splitOnP isIdnaDot := by
      split
      · rename_i trailing
        obtain ⟨init, same⟩ := List.getLast?_eq_some_iff.mp trailing
        rw [same, List.dropLast_concat]
        rw [same, List.mem_append, List.mem_singleton] at inside
        rcases inside with early | rfl
        · exact early
        · cases here
      · exact inside
    obtain ⟨encoded, member', encode⟩ := mem_mapM_some mapped kept
    apply foreign
    apply List.mem_append_left
    apply Py.mem_intercalate member'
    unfold toAsciiLabel at encode
    split at encode
    · split at encode
      · cases encode
        exact here
      · cases encode
    · exact symbols label encoded encode c symbol here

/-- Defanging the domain of an address leaves it accepted if and only if no bracket is put
directly into a bracket, and then it is the same domain. -/
theorem defanged_domain_iff (symbols : KeepsSymbols R.unicode) {D D' d : Str}
    (dots : Marked dotMarks D D') (result : canonicalDomain R D = .ok d) :
    (canonicalDomain R D' = .ok d ↔ ¬ Nested D') ∧
      ∀ d', canonicalDomain R D' = .ok d' → ¬ Nested D' := by
  have plain := accepted_plain symbols result
  have good := good_of_refang (plain '@' (by decide)) (plain ':' (by decide))
  have other : ∀ d', canonicalDomain R D' = .ok d' → ¬ Nested D' := by
    intro d' result'
    have spared := accepted_plain symbols result'
    apply not_nested_of_good (spared '[' (by decide)) (spared '(' (by decide))
    exact good_of_refang (spared '@' (by decide)) (spared ':' (by decide))
  refine ⟨⟨other d, fun flat => ?_⟩, other⟩
  have good' := good_of_not_nested (marks_of_good good dots) flat
  have same := refang_good (U := R.unicode) (plain '[' (by decide)) (plain '(' (by decide))
    (plain ':' (by decide)) good'
  have equal := canonicalDomain_congr (R := R) same
  rw [result] at equal
  cases result' : canonicalDomain R D' with
  | error e =>
      rw [result'] at equal
      cases equal
  | ok d' =>
      rw [result', Except.toOption, Except.toOption, Option.some.injEq] at equal
      rw [equal]

/-- The parts of an address that is accepted, and how many signs and brackets its canonical
form has. -/
theorem accepted_email {v c : Str} (result : canonicalEmail R v = .ok c) :
    ∃ name domain d, Py.rpartition '@' v = some (name, domain) ∧ canonicalDomain R domain = .ok d ∧
      c = Py.lower R.unicode (name ++ '@' :: d) ∧ total atWeight c = total atWeight v ∧
      total bracketWeight c = total bracketWeight name := by
  obtain ⟨name, domain, d, _, split, inner, _, _, lowered⟩ := canonicalEmail_eq result
  refine ⟨name, domain, d, split, inner, lowered, ?_, ?_⟩
  · obtain ⟨whole, last⟩ := Py.rpartition_eq split
    have domain_none : '@' ∉ d := fun member =>
      (domainChar_plain ((canonicalDomain_eq inner).2.chars '@' member)).2.2.2.2.2.1 rfl
    rw [lowered, Py.total_lower_eq atWeight_symbol, whole, Py.total_append, Py.total_append,
      Py.total_cons, Py.total_cons, atWeight_none last, atWeight_none domain_none]
  · have none : total bracketWeight ('@' :: d) = 0 := by
      apply Py.total_le_of_forall
      intro e member
      apply if_neg
      rcases List.mem_cons.mp member with rfl | inside
      · decide
      · have plain := domainChar_plain ((canonicalDomain_eq inner).2.chars e inside)
        rintro (rfl | rfl)
        · exact plain.2.2.1 rfl
        · exact plain.2.2.2.1 rfl
    rw [lowered, Py.total_lower_eq bracketWeight_symbol, Py.total_append, none, Nat.add_zero]

/-- A text with as many signs as before has its last one where it was. -/
theorem dots_of_signs {v v' name domain : Str} (marked : Marked (atMark :: dotMarks) v v')
    (split : Py.rpartition '@' v = some (name, domain))
    (signs : total atWeight v' = total atWeight v) :
    ∃ name' domain', Py.rpartition '@' v' = some (name', domain') ∧ Marked dotMarks name name' ∧
      Marked dotMarks domain domain' := by
  have light : ∀ rule ∈ atMark :: dotMarks,
      rule ∈ dotMarks ∧ total atWeight rule.1 = total atWeight rule.2 ∨
        total atWeight rule.1 < total atWeight rule.2 := by decide
  obtain ⟨whole, last⟩ := Py.rpartition_eq split
  rcases marked.lighter light with ⟨dots, _⟩ | fewer
  · rw [whole] at dots
    obtain ⟨name', rest, rfl, first, dots⟩ := dots.split dotMarks_single
    obtain ⟨sign, domain', rfl, second, third⟩ := dots.split dotMarks_single (a := ['@'])
    have kept := second.eq_of_absent (by simp [dotMarks])
    subst kept
    refine ⟨name', domain', ?_, first, third⟩
    apply Py.rpartition_append
    intro member
    exact third.forall_mem (P := (· ≠ '@')) (by simp [dotMarks])
      (fun c here same => last (same ▸ here)) '@'
      member rfl
  · omega

/-- The addresses that are the same once they are defanged. -/
theorem email_survives_iff (symbols : KeepsSymbols R.unicode) {v v' c : Str}
    (marked : Marked (atMark :: dotMarks) (Py.strip v) (Py.strip v'))
    (result : canonicalEmail R (Py.strip v) = .ok c) :
    canonicalEmail R (Py.strip v') = .ok c ↔ Survives .email v v' := by
  obtain ⟨name, domain, d, split, inner, lowered, signs, brackets⟩ := accepted_email result
  constructor
  · intro result'
    obtain ⟨name', domain', d', split', inner', _, signs', brackets'⟩ := accepted_email result'
    obtain ⟨name1, domain1, split1, first, last⟩ :=
      dots_of_signs marked split (signs'.symm.trans signs)
    rw [split', Option.some.injEq, Prod.mk.injEq] at split1
    obtain ⟨rfl, rfl⟩ := split1
    have same : name' = name := by
      rcases first.heavier (w := bracketWeight) (by decide) with same | heavier
      · exact same
      · omega
    rw [same] at split'
    exact ⟨name, domain, domain', split, split',
      (defanged_domain_iff symbols last inner).2 d' inner'⟩
  · rintro ⟨name0, domain0, domain', split0, split', flat⟩
    rw [split, Option.some.injEq, Prod.mk.injEq] at split0
    obtain ⟨rfl, rfl⟩ := split0
    have signs' : total atWeight (Py.strip v') = total atWeight (Py.strip v) := by
      obtain ⟨whole, last⟩ := Py.rpartition_eq split
      obtain ⟨whole', last'⟩ := Py.rpartition_eq split'
      rw [whole, whole', Py.total_append, Py.total_append, Py.total_cons, Py.total_cons,
        atWeight_none last, atWeight_none last']
    obtain ⟨name1, domain1, split1, _, last⟩ := dots_of_signs marked split signs'
    rw [split', Option.some.injEq, Prod.mk.injEq] at split1
    obtain ⟨_, rfl⟩ := split1
    have inner' := (defanged_domain_iff symbols last inner).1.mpr flat
    rw [canonicalEmail, split', lowered]
    simp only [inner']
    rfl

theorem canonicalize_email {v c : Str} :
    canonicalize R .email v = .ok c ↔ canonicalEmail R (Py.strip v) = .ok c := by
  unfold canonicalize
  simp only
  split
  · rename_i empty
    rw [empty]
    constructor <;> intro result <;> cases result
  · rfl

/-- Defanging an address that is accepted changes what it canonicalizes to, unless it changed
nothing in an IP address, or only unmarked dots of the domain of an e-mail address. -/
theorem defanged_address_iff (symbols : KeepsSymbols R.unicode) {v v' c : Str}
    (defanged : DefangsAddress t v v') (accepted : canonicalize R t v = .ok c) :
    canonicalize R t v' = canonicalize R t v ↔ Survives t v v' := by
  rw [accepted]
  cases defanged with
  | ipv4 dots =>
      constructor
      · exact ipv4_survives (dots.mono fun rule known => List.mem_cons_of_mem colonMark known)
      · rintro rfl
        exact accepted
  | ipv6 dots =>
      constructor
      · exact ipv6_survives dots accepted
      · rintro rfl
        exact accepted
  | @email name domain name' domain' at' last first_dots last_dots sign =>
      have solid : Marked.Solid (atMark :: dotMarks) := by
        unfold Marked.Solid
        decide
      have mono : ∀ rule ∈ dotMarks, rule ∈ atMark :: dotMarks := fun rule known =>
        List.mem_cons_of_mem atMark known
      have signed : Marked (atMark :: dotMarks) ['@'] at' := by
        rcases sign with rfl | rfl
        · exact Marked.refl _
        · exact @Marked.mark _ atMark List.mem_cons_self _ _ .nil
      have marked :=
        ((first_dots.mono mono).append (signed.append (last_dots.mono mono))).strip solid
      rw [canonicalize_email] at accepted ⊢
      exact email_survives_iff symbols marked accepted

theorem ascii_keepsSymbols : KeepsSymbols asciiRuntime.unicode := nofun

theorem defanged_address_iff_email :
    canonicalize asciiRuntime .email "Ann@feed[.]com".toList =
      canonicalize asciiRuntime .email "Ann@feed.com".toList := by
  have dot : Marked dotMarks ".com".toList "[.]com".toList :=
    @Marked.mark dotMarks ("[.]".toList, ".".toList) (by decide) _ _ (Marked.refl "com".toList)
  have defanged : DefangsAddress .email "Ann@feed.com".toList "Ann@feed[.]com".toList :=
    @DefangsAddress.email "Ann".toList "feed.com".toList "Ann".toList "feed[.]com".toList "@".toList
      (by decide) (Marked.refl _) ((Marked.refl "feed".toList).append dot) (Or.inl rfl)
  have accepted : canonicalize asciiRuntime .email "Ann@feed.com".toList =
      .ok "ann@feed.com".toList := by rfl
  apply (defanged_address_iff ascii_keepsSymbols defanged accepted).mpr
  refine ⟨"Ann".toList, "feed.com".toList, "feed[.]com".toList, by rfl, by rfl, ?_⟩
  intro nested
  exact absurd nested.weight (by decide)

/-- The canonicalizers of IP addresses do not refang, and that of e-mail addresses looks for the
at sign before it does. -/
theorem defanged_address_refused :
    DefangsAddress .ipv4 "1.2.3.4".toList "1[.]2.3.4".toList ∧
      canonicalize asciiRuntime .ipv4 "1.2.3.4".toList = .ok "1.2.3.4".toList ∧
      canonicalize asciiRuntime .ipv4 "1[.]2.3.4".toList ≠ .ok "1.2.3.4".toList ∧
      DefangsAddress .email "ann@feed.com".toList "ann[at]feed.com".toList ∧
      canonicalize asciiRuntime .email "ann@feed.com".toList = .ok "ann@feed.com".toList ∧
      canonicalize asciiRuntime .email "ann[at]feed.com".toList ≠ .ok "ann@feed.com".toList := by
  have dot : Marked dotMarks ".2.3.4".toList "[.]2.3.4".toList :=
    @Marked.mark dotMarks ("[.]".toList, ".".toList) (by decide) _ _ (Marked.refl "2.3.4".toList)
  have dotted : Marked dotMarks "1.2.3.4".toList "1[.]2.3.4".toList := .keep '1' dot
  have signed : DefangsAddress .email "ann@feed.com".toList "ann[at]feed.com".toList :=
    @DefangsAddress.email "ann".toList "feed.com".toList "ann".toList "feed.com".toList
      "[at]".toList (by decide) (Marked.refl _) (Marked.refl _) (Or.inr rfl)
  refine ⟨.ipv4 dotted, by rfl, ?_, signed, by rfl, ?_⟩
  · intro accepted
    cases accepted
  · intro accepted
    cases accepted

end Cti
