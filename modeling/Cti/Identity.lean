import Mathlib.Logic.Function.Iterate
import Cti.CanonicalForm
import Cti.Enrichers
import Cti.Passes

set_option autoImplicit false

namespace Cti

open Py (Str Unicode Matcher total)

variable {R : Runtime}

theorem toLower_symbol {c s : Char} (symbol : s.isAlpha = false) (lowered : c.toLower = s) :
    c = s := by
  cases plain : Py.isAscii c with
  | true =>
      have all := Py.ascii_forall (P := fun c => c.toLower.isAlpha = false → c.toLower = c)
        (by decide) plain
      rw [← lowered]
      exact (all (by rw [lowered]; exact symbol)).symm
  | false => rwa [Py.toLower_of_not_ascii plain] at lowered

theorem literalIgnoringCase_match {src dst rest text : Str} {before : Option Char} {length : Nat}
    (found : literalIgnoringCase src dst before rest = some (length, text)) :
    ∃ front tail, rest = front ++ tail ∧ front.map Char.toLower = src ∧ length = front.length ∧
      text = dst := by
  unfold literalIgnoringCase at found
  split at found
  · rename_i starts
    obtain ⟨front, tail, rfl, lowered⟩ := startsIgnoringCase_append starts
    simp only [Option.some.injEq, Prod.mk.injEq] at found
    obtain ⟨rfl, rfl⟩ := found
    exact ⟨front, tail, rfl, lowered, by rw [← lowered, List.length_map], rfl⟩
  · cases found

/-- A pattern that starts with a bracket starts there in every case. -/
theorem lowered_head {s : Char} {src front : Str} (symbol : s.isAlpha = false)
    (lowered : front.map Char.toLower = s :: src) : ∃ rest, front = s :: rest := by
  cases front with
  | nil => cases lowered
  | cons c rest =>
      simp only [List.map_cons, List.cons.injEq] at lowered
      rw [toLower_symbol symbol lowered.1]
      exact ⟨rest, rfl⟩

theorem literalIgnoringCase_shrinks {w : Char → Nat} {s : Char} {src dst : Str}
    (symbol : s.isAlpha = false) (heavy : 0 < w s)
    (light : total w dst = 0) : Py.Shrinks w (literalIgnoringCase (s :: src) dst) := by
  intro before rest length text found
  obtain ⟨front, tail, rfl, lowered, rfl, rfl⟩ := literalIgnoringCase_match found
  obtain ⟨more, rfl⟩ := lowered_head symbol lowered
  refine ⟨by simp, by simp, ?_⟩
  rw [List.take_left, light, Py.total_cons]
  omega

theorem httpScheme_shrinks (U : Unicode) :
    Py.Shrinks defangWeight (webScheme U "h[ttp]".toList) := by
  refine webScheme_shrinks ?_ (Py.forall_mem_of_all (by decide))
  intro front lowered
  have chars : "h[ttp]".toList = 'h' :: '[' :: "ttp]".toList := by decide
  rw [chars] at lowered
  cases front with
  | nil => cases lowered
  | cons h front =>
      rw [List.map_cons, List.cons.injEq] at lowered
      obtain ⟨rest, rfl⟩ := lowered_head (by decide) lowered.2
      have : defangWeight '[' = 1 := by decide
      rw [Py.total_cons, Py.total_cons]
      omega

theorem defangPatterns_shrink (U : Unicode) :
    ∀ pattern ∈ defangPatterns U, Py.Shrinks defangWeight pattern := by
  intro pattern member
  simp only [defangPatterns, List.mem_cons, List.not_mem_nil, or_false] at member
  rcases member with rfl | rfl | rfl | rfl | rfl | rfl | rfl
  · exact Py.literal_shrinks (by decide) (by decide)
  · exact Py.literal_shrinks (by decide) (by decide)
  · exact literalIgnoringCase_shrinks (by decide) (by decide) (by decide)
  · exact @literalIgnoringCase_shrinks _ '[' "at]".toList _ (by decide) (by decide) (by decide)
  · exact @literalIgnoringCase_shrinks _ '[' "://]".toList _ (by decide) (by decide) (by decide)
  · exact reHxxp_shrinks U
  · exact httpScheme_shrinks U

theorem defang_shrinks (U : Unicode) (s : Str) :
    defang U s = s ∨ total defangWeight (defang U s) < total defangWeight s :=
  Py.foldl_sub_shrinks (defangPatterns_shrink U) s

/-- What a defang pattern matches has a bracket or a colon, and no at sign. -/
theorem defangPatterns_match {U : Unicode} {pattern : Matcher} (member : pattern ∈ defangPatterns U)
    {before : Option Char} {rest text : Str} {length : Nat}
    (found : pattern before rest = some (length, text)) :
    ∃ front tail, rest = front ++ tail ∧ length = front.length ∧ front ≠ [] ∧ '@' ∉ front ∧
      ('[' ∈ front ∨ '(' ∈ front ∨ '{' ∈ front ∨ ':' ∈ front) := by
  have exact : ∀ src dst : Str, Py.literal src dst before rest = some (length, text) →
      ∃ tail, rest = src ++ tail ∧ length = src.length := by
    intro src dst hit
    unfold Py.literal at hit
    split at hit
    · rename_i starts
      obtain ⟨tail, whole⟩ := List.isPrefixOf_iff_prefix.mp starts
      simp only [Option.some.injEq, Prod.mk.injEq] at hit
      exact ⟨tail, whole.symm, hit.1.symm⟩
    · cases hit
  have absent : ∀ (src front : Str), front.map Char.toLower = src → '@' ∉ src → '@' ∉ front := by
    rintro src front rfl plain here
    exact plain (List.mem_map.mpr ⟨'@', here, by decide⟩)
  have folded : ∀ (s : Char) (src dst : Str), s.isAlpha = false →
      '@' ∉ s :: src → s ∈ ['[', '(', '{', ':'] →
      literalIgnoringCase (s :: src) dst before rest = some (length, text) →
      ∃ front tail, rest = front ++ tail ∧ length = front.length ∧ front ≠ [] ∧ '@' ∉ front ∧
        ('[' ∈ front ∨ '(' ∈ front ∨ '{' ∈ front ∨ ':' ∈ front) := by
    intro s src dst symbol plain mark found
    obtain ⟨front, tail, whole, lowered, size, _⟩ := literalIgnoringCase_match found
    have clean := absent _ front lowered plain
    obtain ⟨more, rfl⟩ := lowered_head symbol lowered
    refine ⟨s :: more, tail, whole, size, by simp, clean, ?_⟩
    simp only [List.mem_cons, List.not_mem_nil, or_false] at mark
    rcases mark with rfl | rfl | rfl | rfl <;> simp
  have schemed : ∀ head : Str, '@' ∉ head → webScheme U head before rest = some (length, text) →
      ∃ front tail, rest = front ++ tail ∧ length = front.length ∧ front ≠ [] ∧ '@' ∉ front ∧
        ('[' ∈ front ∨ '(' ∈ front ∨ '{' ∈ front ∨ ':' ∈ front) := by
    intro head plain found
    obtain ⟨front, s, tail, whole, lowered, letter, size, _⟩ := webScheme_match found
    refine ⟨front ++ (s ++ "://".toList), tail, ?_, size, by simp, ?_, by simp⟩
    · rw [whole, List.append_assoc, List.append_assoc, List.append_assoc]
    · have clean := absent head front lowered plain
      simp only [List.mem_append, not_or]
      refine ⟨clean, ?_, by decide⟩
      rcases letter with rfl | rfl | rfl | rfl <;> decide
  simp only [defangPatterns, List.mem_cons, List.not_mem_nil, or_false] at member
  rcases member with rfl | rfl | rfl | rfl | rfl | rfl | rfl
  · obtain ⟨tail, whole, size⟩ := exact _ _ found
    exact ⟨"[.]".toList, tail, whole, size, by decide, by decide, by decide⟩
  · obtain ⟨tail, whole, size⟩ := exact _ _ found
    exact ⟨"(.)".toList, tail, whole, size, by decide, by decide, by decide⟩
  · exact folded '{' ['d', 'o', 't', '}'] _ (by decide) (by decide) (by decide) found
  · exact folded '[' "at]".toList _ (by decide) (by decide) (by decide) found
  · exact folded '[' "://]".toList _ (by decide) (by decide) (by decide) found
  · exact schemed _ (by decide) found
  · exact schemed _ (by decide) found

/-- What every defang pattern has one of. -/
def isDefangMark (c : Char) : Prop := c = '[' ∨ c = '(' ∨ c = '{' ∨ c = ':'

theorem defangPatterns_needs {U : Unicode} {pattern : Matcher} (member : pattern ∈ defangPatterns U)
    (before : Option Char) (rest : Str) (found : Nat × Str)
    (same : pattern before rest = some found) : ∃ c ∈ rest, isDefangMark c := by
  obtain ⟨front, tail, rfl, _, _, _, mark⟩ :=
    @defangPatterns_match _ _ member _ _ found.2 found.1 same
  rcases mark with here | here | here | here
  · exact ⟨'[', List.mem_append_left _ here, Or.inl rfl⟩
  · exact ⟨'(', List.mem_append_left _ here, Or.inr (Or.inl rfl)⟩
  · exact ⟨'{', List.mem_append_left _ here, Or.inr (Or.inr (Or.inl rfl))⟩
  · exact ⟨':', List.mem_append_left _ here, Or.inr (Or.inr (Or.inr rfl))⟩

theorem defang_eq_self {U : Unicode} {s : Str} (absent : ∀ c ∈ s, ¬ isDefangMark c) :
    defang U s = s := by
  have fold : ∀ patterns : List Matcher, (∀ p ∈ patterns, p ∈ defangPatterns U) →
      patterns.foldl (fun value pattern => Py.sub pattern none 0 value) s = s := by
    intro patterns known
    induction patterns with
    | nil => rfl
    | cons pattern patterns ih =>
        rw [List.foldl_cons, Py.sub_eq_self (defangPatterns_needs (known pattern (by simp))) s absent]
        exact ih fun p member => known p (by simp [member])
  exact fold _ fun _ member => member

/-- Defanging does not touch the domain of an e-mail address. -/
theorem defang_email {U : Unicode} {d : Str} (absent : ∀ c ∈ d, ¬ isDefangMark c) (s : Str) :
    ∃ s', defang U (s ++ '@' :: d) = s' ++ '@' :: d := by
  have fold : ∀ patterns : List Matcher, (∀ p ∈ patterns, p ∈ defangPatterns U) → ∀ s : Str,
      ∃ s', patterns.foldl (fun value pattern => Py.sub pattern none 0 value) (s ++ '@' :: d) =
        s' ++ '@' :: d := by
    intro patterns known
    induction patterns with
    | nil => intro s; exact ⟨s, rfl⟩
    | cons pattern patterns ih =>
        intro s
        have member := known pattern (by simp)
        obtain ⟨s', same⟩ := @Py.sub_keeps_tail pattern '@' d
          (fun before rest length text found => by
            obtain ⟨front, more, whole, size, nonempty, plain, _⟩ := defangPatterns_match member found
            exact ⟨front, more, whole, size, nonempty, plain⟩)
          (Py.sub_eq_self (defangPatterns_needs member) d absent) s none 0 (Nat.zero_le _)
        rw [List.foldl_cons, same]
        exact ih (fun p inside => known p (by simp [inside])) s'
  exact fold _ (fun _ member => member) s

theorem domainChar_not_mark {d : Str} (chars : ∀ c ∈ d, isDomainChar c = true) :
    ∀ c ∈ d, ¬ isDefangMark c := by
  intro c member mark
  have ascii := (domainChar_plain (chars c member)).1
  have plain := chars c member
  rcases mark with rfl | rfl | rfl | rfl <;> revert plain <;> decide

/-- An address in dotted notation has nothing to defang. -/
theorem ipv4_weight (address : Ipaddress.IPv4Address) : total defangWeight address.str = 0 := by
  apply Py.total_le_of_forall
  intro c member
  rcases address.str_plain c member with digit | rfl
  · have scheme : Urllib.isSchemeChar c = true := by
      simp [Urllib.isSchemeChar, Char.isAlphanum, digit]
    exact Py.ascii_forall (P := fun c => c.isDigit = true → defangWeight c = 0) (by decide)
      (Urllib.schemeChar_ascii scheme) digit
  · decide

/-- All that has weight in an address is its scope, which is kept from the text. -/
theorem ipv6_weight {text : Str} {address : Ipaddress.IPv6Address}
    (read : Ipaddress.IPv6Address.parse text = some address) :
    total defangWeight address.str ≤ total defangWeight text := by
  have light : total defangWeight
      ([':'].intercalate (Ipaddress.compressHextets address.hextets)) = 0 := by
    apply Py.total_le_of_forall
    intro c member
    rcases Ipaddress.compressHextets_hex address c member with hex | rfl
    · rw [defangWeight, if_neg]
      rw [not_or, Bool.not_eq_true]
      refine ⟨hexDigit_not_space hex, ?_⟩
      rintro (rfl | rfl | rfl | rfl | rfl) <;> revert hex <;> decide
    · decide
  rw [Ipaddress.IPv6Address.str, Py.total_append, light]
  cases scope : address.scope with
  | none => simp
  | some within =>
      have ends := Py.total_sublist defangWeight
        (Ipaddress.IPv6Address.parse_scope read scope).sublist
      have percent : defangWeight '%' = 0 := by decide
      simp only [Py.total_cons, percent]
      omega

theorem canonicalHash_weight {t : IndicatorType} {expected : Nat} {value c : Str}
    (result : canonicalHash R t expected value = .ok c) :
    total defangWeight c ≤ total defangWeight value := by
  unfold canonicalHash at result
  simp only at result
  split at result
  · cases result
  · rw [Except.ok.injEq] at result
    have lowered := Py.total_lower (lowers_defangWeight R.unicode) (Py.strip value)
    have stripped := Py.total_sublist defangWeight (Py.strip_sublist value)
    rw [result] at lowered
    omega

theorem canonicalUrl_weight {value c : Str} (result : canonicalUrl R value = .ok c) :
    total defangWeight c ≤ total defangWeight value := by
  have heavy := canonicalUrl_total result
  have inner := Py.total_sublist defangWeight (Py.strip_sublist (refang R.unicode value))
  rcases refang_shrinks R.unicode value with same | less
  · rw [same] at heavy inner
    omega
  · omega

/-- The domain of an address has nothing to defang, so that a defanged address that
canonicalizes to it would have lost weight before the at sign. -/
theorem email_defang_weight {v : Str} (fixed : canonicalEmail R (Py.strip v) = .ok v)
    (again : canonicalEmail R (Py.strip (defang R.unicode v)) = .ok v) :
    total defangWeight v ≤ total defangWeight (defang R.unicode v) := by
  have stripped := Py.total_sublist defangWeight (Py.strip_sublist (defang R.unicode v))
  obtain ⟨_, _, d, front, _, inner, same, _, _⟩ := canonicalEmail_eq fixed
  have canonical := (canonicalDomain_eq inner).2
  obtain ⟨front', defanged⟩ :=
    defang_email (U := R.unicode) (domainChar_not_mark canonical.chars) front
  rw [← same] at defanged
  have inside : ∀ c ∈ Py.rstrip Py.isSpace d, isDomainChar c = true := fun c member =>
    canonical.chars c ((Py.rstrip_initial _ d).subset member)
  rw [defanged, Py.strip_append_cons (by decide), canonicalEmail_append inside] at again
  rw [defanged, Py.strip_append_cons (by decide)] at stripped
  cases inner' : canonicalDomain R (Py.rstrip Py.isSpace d) with
  | error e =>
      rw [inner'] at again
      cases again
  | ok d' =>
      rw [inner'] at again
      have result := Except.ok.inj again
      have lowered := Py.total_lower (lowers_defangWeight R.unicode)
        (Py.lstrip Py.isSpace front' ++ '@' :: d')
      have shorter := Py.total_sublist defangWeight
        (Py.rstrip_initial (· == '.') (Py.rstrip Py.isSpace d)).sublist
      rw [← canonicalDomain_plain inside inner'] at shorter
      rw [result] at lowered
      rw [defanged]
      simp only [Py.total_append, Py.total_cons] at lowered stripped ⊢
      omega

/-- A canonical value that defanging changes is not what the changed value canonicalizes
to: it would have to be lighter than itself. -/
theorem defang_of_canonicalize {t : IndicatorType} {v : Str} (fixed : canonicalize R t v = .ok v)
    (again : canonicalize R t (defang R.unicode v) = .ok v) : defang R.unicode v = v := by
  rcases defang_shrinks R.unicode v with same | lighter
  · exact same
  exfalso
  have stripped := Py.total_sublist defangWeight (Py.strip_sublist (defang R.unicode v))
  by_cases empty : Py.strip (defang R.unicode v) = []
  · simp [canonicalize, empty] at again
  simp only [canonicalize, if_neg empty] at again
  have hash : ∀ (t : IndicatorType) (expected : Nat),
      canonicalHash R t expected (Py.strip (defang R.unicode v)) = .ok v → False := by
    intro t expected result
    have weight := canonicalHash_weight result
    omega
  have lower : Py.lower R.unicode (Py.strip (defang R.unicode v)) = v → False := by
    intro result
    have lowered := Py.total_lower (lowers_defangWeight R.unicode) (Py.strip (defang R.unicode v))
    rw [result] at lowered
    omega
  cases t with
  | ipv4 =>
      simp only at again
      split at again
      · rename_i address _
        have weight := ipv4_weight address
        rw [Except.ok.inj again] at weight
        omega
      · cases again
  | ipv6 =>
      simp only at again
      split at again
      · rename_i address read
        have weight := ipv6_weight read
        rw [Except.ok.inj again] at weight
        omega
      · cases again
  | domain =>
      have canonical := (canonicalDomain_eq again).2
      rw [defang_eq_self (domainChar_not_mark canonical.chars)] at lighter
      omega
  | url =>
      have weight := canonicalUrl_weight again
      omega
  | email =>
      have nonempty : Py.strip v ≠ [] := by
        intro none
        simp [canonicalize, none] at fixed
      simp only [canonicalize, if_neg nonempty] at fixed
      have weight := email_defang_weight fixed again
      omega
  | sha256 => exact hash .sha256 64 again
  | sha1 => exact hash .sha1 40 again
  | md5 => exact hash .md5 32 again
  | fileName => exact lower (Except.ok.inj again)
  | mutex => exact lower (Except.ok.inj again)
  | registryKey => exact lower (Except.ok.inj again)
  | yaraRule => exact lower (Except.ok.inj again)

theorem canonicalize_strip (t : IndicatorType) (v : Str) :
    canonicalize R t (Py.strip v) = canonicalize R t v := by
  simp only [canonicalize, Py.strip_strip]

/-- The id of an indicator is that of its type and value. -/
def Identified (R : Runtime) (ind : Indicator) : Prop :=
  indicatorUuid R ind.type ind.value = .ok ind.id

theorem indicatorUuid_eq {t : IndicatorType} {v c : Str} (result : canonicalize R t v = .ok c) :
    indicatorUuid R t v = .ok (R.uuid5 ctiNs (identityName t c)) := by
  rw [indicatorUuid, result]
  rfl

/-- What a record is turned into was built from some text. -/
theorem recordToIndicator_built {record : Record} {cfg : NormalizeConfig} {firstSeen lastSeen : Int}
    {ind : Indicator}
    (normalized : recordToIndicator R record cfg firstSeen lastSeen = .ok (some ind)) :
    ∃ v fields, Indicator.build R ind.type v fields = .ok ind := by
  unfold recordToIndicator at normalized
  cases typed : recordType R record cfg with
  | error e => simp [typed, bind, Except.bind] at normalized
  | ok result =>
      cases result with
      | none => simp [typed, bind, Except.bind, pure, Except.pure] at normalized
      | some t =>
          cases valued : recordValue record cfg with
          | none => simp [typed, valued, bind, Except.bind, pure, Except.pure] at normalized
          | some value =>
              cases trusted : recordConfidence R record cfg with
              | error e => simp [typed, valued, trusted, bind, Except.bind] at normalized
              | ok confidence =>
                  simp only [typed, valued, trusted, bind, Except.bind, pure, Except.pure]
                    at normalized
                  split at normalized
                  · cases normalized
                  · rename_i built
                    cases normalized
                    obtain ⟨_, _, _, _, type, _⟩ := Indicator.build_eq built
                    rw [type]
                    exact ⟨_, _, built⟩

/-- A fresh indicator carries the id of its value. -/
theorem build_identified {t : IndicatorType} {v : Str} {fields : IndicatorFields} {ind : Indicator}
    (built : Indicator.build R t v fields = .ok ind) :
    ∃ again, canonicalize R ind.type ind.value = .ok again ∧
      ind.id = R.uuid5 ctiNs (identityName ind.type again) := by
  obtain ⟨c, again, _, second, rfl, value, id⟩ := Indicator.build_eq built
  rw [value, canonicalize_strip]
  exact ⟨again, second, id⟩

theorem line_feed_dropped {body d : Str} (canonical : CanonicalDomain (body ++ ['\n']))
    (result : canonicalDomain R body = .ok d) : d = body := by
  have chars : ∀ c ∈ body, isDomainChar c = true := fun c member =>
    canonical.chars c (by simp [member])
  rw [canonicalDomain_plain chars result]
  apply Py.rstrip_eq_self
  intro c last
  rcases canonical.ends.last with ⟨e, final, alnum⟩ | ⟨body', same, e, final, alnum⟩
  · rw [List.getLast?_concat, Option.some.injEq] at final
    subst final
    cases alnum
  · rw [List.append_cancel_right_eq] at same
    rw [same, final, Option.some.injEq] at last
    subst last
    rw [beq_eq_false_iff_ne]
    rintro rfl
    cases alnum

/-- The value of a fresh indicator is a fixed point, unless it is a URL. -/
theorem build_fixed {t : IndicatorType} {v : Str} {fields : IndicatorFields} {ind : Indicator}
    (built : Indicator.build R t v fields = .ok ind) (other : ind.type ≠ .url) :
    canonicalize R ind.type ind.value = .ok ind.value := by
  obtain ⟨c, again, first, second, rfl, value, _⟩ := Indicator.build_eq built
  obtain ⟨fixed, trimmed⟩ := canonicalize_fixed_iff first
  by_cases stable : Stable R ind.type v
  · rw [value, trimmed stable]
    exact fixed.mpr stable
  rw [value, canonicalize_strip, second, Except.ok.injEq]
  have nonempty : Py.strip v ≠ [] := by
    intro empty
    simp [canonicalize, empty] at first
  cases type : ind.type with
  | domain =>
      rw [type] at first second
      simp only [canonicalize, if_neg nonempty] at first
      have canonical := (canonicalDomain_eq first).2
      rcases canonical.trimmed with ⟨_, whole⟩ | ⟨body, rfl, some, whole⟩
      · rw [Py.strip_of_trimmed whole]
        simp only [canonicalize, Py.strip_of_trimmed whole] at second
        split at second
        · cases second
        · rw [canonical.fixed] at second
          exact (Except.ok.inj second).symm
      · have stripped := Py.strip_concat whole some (c := '\n') (by decide)
        rw [stripped]
        simp only [canonicalize, stripped, if_neg some] at second
        exact line_feed_dropped canonical second
  | email =>
      rw [type] at first second stable
      simp only [canonicalize, if_neg nonempty] at first
      obtain ⟨localPart, domain, d, front, split, inner, same, settled, lowered⟩ :=
        canonicalEmail_eq first
      have canonical := (canonicalDomain_eq inner).2
      have unclean : ¬ EndsClean R.unicode domain := by
        intro clean
        apply stable
        intro localPart' domain' split'
        rw [split, Option.some.injEq, Prod.mk.injEq] at split'
        rwa [← split'.2]
      rw [canonical.endsClean (canonicalDomain_eq inner).1, not_not] at unclean
      rcases canonical.trimmed with ⟨plain, _⟩ | ⟨body, rfl, some, whole⟩
      · exact absurd unclean plain
      · have chars : ∀ e ∈ body, isDomainChar e = true := fun e member =>
          canonical.chars e (by simp [member])
        have body_ends : Py.rstrip Py.isSpace (body ++ ['\n']) = body := by
          rw [Py.rstrip, List.rdropWhile_concat_pos Py.isSpace body '\n' (by decide)]
          exact Py.rstrip_eq_self whole.2
        have stripped : Py.strip c = Py.lstrip Py.isSpace front ++ '@' :: body := by
          rw [same, Py.strip_append_cons (by decide), body_ends]
        have some' : Py.strip c ≠ [] := by
          rw [stripped]
          simp
        simp only [canonicalize, if_neg some'] at second
        rw [stripped, canonicalEmail_append chars] at second
        cases inner' : canonicalDomain R body with
        | error e =>
            rw [inner'] at second
            cases second
        | ok d' =>
            rw [inner'] at second
            have result := Except.ok.inj second
            rw [← result, stripped, line_feed_dropped canonical inner']
            apply Py.lower_eq_self
            intro e member
            rcases List.mem_append.mp member with early | late
            · exact settled e ((Py.lstrip_sublist _ front).subset early)
            · rcases List.mem_cons.mp late with rfl | inside
              · exact Py.settled_ascii (by decide) (by decide)
              · exact domainChar_settled chars e inside
  | url => exact absurd type other
  | _ =>
      rw [type] at stable
      exact absurd trivial stable

/-- A shipped enricher leaves the id and the type alone, and only defang changes the
value. -/
theorem enrichSync_keeps {enricher : Enricher} {ind ind' : Indicator}
    (emitted : enricher.enrichSync R ind = .ok (some ind')) :
    ind'.id = ind.id ∧ ind'.type = ind.type ∧
      (ind'.value = ind.value ∨ ind'.value = defang R.unicode ind.value) := by
  cases enricher with
  | defang enabled =>
      cases emitted
      cases enabled with
      | false => exact ⟨rfl, rfl, Or.inl rfl⟩
      | true => exact ⟨rfl, rfl, Or.inr rfl⟩
  | allowlist config =>
      simp only [Enricher.enrichSync] at emitted
      split at emitted
      · cases emitted
      · cases emitted
        exact ⟨rfl, rfl, Or.inl rfl⟩
  | geoip reader =>
      simp only [Enricher.enrichSync] at emitted
      split at emitted
      · cases emitted
        exact ⟨rfl, rfl, Or.inl rfl⟩
      · cases emitted
        exact ⟨rfl, rfl, Or.inl rfl⟩
      · rename_i record _ _
        cases code : isoCode R record with
        | error e => simp [code, bind, Except.bind] at emitted
        | ok country =>
            simp only [code, bind, Except.bind, pure, Except.pure] at emitted
            split at emitted
            · cases emitted
              exact ⟨rfl, rfl, Or.inl rfl⟩
            · cases emitted
              split <;> exact ⟨rfl, rfl, Or.inl rfl⟩
  | asn reader =>
      simp only [Enricher.enrichSync] at emitted
      split at emitted
      · cases emitted
        exact ⟨rfl, rfl, Or.inl rfl⟩
      · split at emitted
        · cases emitted
          exact ⟨rfl, rfl, Or.inl rfl⟩
        · cases emitted
          exact ⟨rfl, rfl, Or.inl rfl⟩

/-- Through a whole list of enrichers the value is defanged some number of times. -/
theorem enrichChain_keeps {enrichers : List Enricher} {ind ind' : Indicator}
    (emitted : enrichChain R enrichers ind = .ok (some ind')) :
    ind'.id = ind.id ∧ ind'.type = ind.type ∧ ∃ k, ind'.value = (defang R.unicode)^[k] ind.value := by
  induction enrichers generalizing ind with
  | nil =>
      cases emitted
      exact ⟨rfl, rfl, 0, rfl⟩
  | cons enricher enrichers ih =>
      cases step : enricher.enrichSync R ind with
      | error e => simp [enrichChain, step, bind, Except.bind] at emitted
      | ok result =>
          cases result with
          | none => simp [enrichChain, step, bind, Except.bind, pure, Except.pure] at emitted
          | some next =>
              simp only [enrichChain, step, bind, Except.bind] at emitted
              obtain ⟨id, type, k, value⟩ := ih emitted
              obtain ⟨id', type', value'⟩ := enrichSync_keeps step
              refine ⟨id.trans id', type.trans type', ?_⟩
              rcases value' with same | defanged
              · exact ⟨k, by rw [value, same]⟩
              · exact ⟨k + 1, by rw [value, defanged, Function.iterate_succ_apply]⟩

theorem enrichChain_defang (k : Nat) (ind : Indicator) :
    enrichChain R (List.replicate k (.defang true)) ind =
      .ok (some { ind with value := (defang R.unicode)^[k] ind.value }) := by
  induction k generalizing ind with
  | zero => rfl
  | succ k ih =>
      rw [List.replicate_succ, Function.iterate_succ_apply]
      exact ih _

/-- Defanging a value, however often, does not change what it canonicalizes to. -/
def DefangStable (R : Runtime) (t : IndicatorType) (v : Str) : Prop :=
  ∀ k, canonicalize R t ((defang R.unicode)^[k] v) = canonicalize R t v

theorem defangStable_of_eq {t : IndicatorType} {v : Str} (plain : defang R.unicode v = v) :
    DefangStable R t v := by
  intro k
  rw [Function.iterate_fixed plain]

theorem identityName_injective {t t' : IndicatorType} {c c' : Str}
    (same : identityName t c = identityName t' c') : t = t' ∧ c = c' := by
  have colon : ∀ t : IndicatorType, ':' ∉ t.value := by
    intro t
    cases t <;> decide
  have values : ∀ t t' : IndicatorType, t.value = t'.value → t = t' := by
    intro t t'
    cases t <;> cases t' <;> decide
  have cuts : ∀ (t : IndicatorType) (c : Str),
      Py.cut (· == ':') (identityName t c) = (t.value, ':' :: c) := by
    intro t c
    refine Py.cut_append ?_ (by simp)
    intro d member
    rw [beq_eq_false_iff_ne]
    rintro rfl
    exact colon t member
  have parts := congrArg (Py.cut (· == ':')) same
  rw [cuts, cuts, Prod.mk.injEq, List.cons.injEq] at parts
  exact ⟨values t t' parts.1, parts.2.2⟩

/-- Every indicator that the shipped enrichers make of `ind` carries the id of its value. -/
def IdentityKept (R : Runtime) (ind : Indicator) : Prop :=
  ∀ enrichers ind', enrichChain R enrichers ind = .ok (some ind') → Identified R ind'

theorem identityKept_iff (injective : Function.Injective (R.uuid5 ctiNs)) {t : IndicatorType}
    {v : Str} {fields : IndicatorFields} {ind : Indicator}
    (built : Indicator.build R t v fields = .ok ind) :
    IdentityKept R ind ↔ DefangStable R ind.type ind.value := by
  obtain ⟨again, canonical, id⟩ := build_identified built
  constructor
  · intro kept k
    have identified := kept _ _ (enrichChain_defang k ind)
    unfold Identified indicatorUuid at identified
    rw [canonical]
    cases result : canonicalize R ind.type ((defang R.unicode)^[k] ind.value) with
    | error e => simp [result, bind, Except.bind] at identified
    | ok c =>
        simp only [result, bind, Except.bind, pure, Except.pure, Except.ok.injEq] at identified
        rw [id] at identified
        rw [(identityName_injective (injective identified)).2]
  · intro stable enrichers ind' emitted
    obtain ⟨id', type, k, value⟩ := enrichChain_keeps emitted
    rw [Identified, type, value, id', id]
    exact indicatorUuid_eq ((stable k).trans canonical)

/-- The stored value is a fixed point of canonicalization and has no defang pattern. -/
def Undefanged (R : Runtime) (ind : Indicator) : Prop :=
  canonicalize R ind.type ind.value = .ok ind.value ∧ defang R.unicode ind.value = ind.value

/-- Two indicators of this kind have equal ids exactly if they have equal types and values. -/
theorem undefanged_id_iff (injective : Function.Injective (R.uuid5 ctiNs)) {a b : Indicator}
    (first : Undefanged R a) (second : Undefanged R b) (identified : Identified R a)
    (identified' : Identified R b) : a.id = b.id ↔ a.type = b.type ∧ a.value = b.value := by
  have id : ∀ ind : Indicator, Undefanged R ind → Identified R ind →
      ind.id = R.uuid5 ctiNs (identityName ind.type ind.value) := by
    intro ind plain known
    rw [Identified, indicatorUuid_eq plain.1, Except.ok.injEq] at known
    exact known.symm
  rw [id a first identified, id b second identified']
  constructor
  · intro same
    exact identityName_injective (injective same)
  · rintro ⟨type, value⟩
    rw [type, value]

theorem enrichChain_undefanged {enrichers : List Enricher} {ind ind' : Indicator}
    (plain : Undefanged R ind) (emitted : enrichChain R enrichers ind = .ok (some ind')) :
    Undefanged R ind' := by
  obtain ⟨_, type, k, value⟩ := enrichChain_keeps emitted
  rw [Function.iterate_fixed plain.2] at value
  rw [Undefanged, type, value]
  exact plain

/-- Up to the durability fence an indicator keeps the identity it was built with exactly if
defanging its value does not change what that value canonicalizes to. For a value that is
canonical, as every value but a URL is, this says that the value has no defang pattern;
and among such indicators ids and pairs of type and value determine each other. -/
theorem identity_kept_iff (injective : Function.Injective (R.uuid5 ctiNs)) {record : Record}
    {cfg : NormalizeConfig} {firstSeen lastSeen : Int} {ind : Indicator}
    (normalized : recordToIndicator R record cfg firstSeen lastSeen = .ok (some ind)) :
    (IdentityKept R ind ↔ DefangStable R ind.type ind.value) ∧
      (ind.type ≠ .url → canonicalize R ind.type ind.value = .ok ind.value) ∧
      (canonicalize R ind.type ind.value = .ok ind.value →
        (IdentityKept R ind ↔ defang R.unicode ind.value = ind.value)) ∧
      ∀ record' cfg' firstSeen' lastSeen' other,
        recordToIndicator R record' cfg' firstSeen' lastSeen' = .ok (some other) →
        Undefanged R ind → Undefanged R other →
        ∀ enrichers enrichers' a b, enrichChain R enrichers ind = .ok (some a) →
          enrichChain R enrichers' other = .ok (some b) →
          (a.id = b.id ↔ a.type = b.type ∧ a.value = b.value) := by
  obtain ⟨v, fields, built⟩ := recordToIndicator_built normalized
  have kept := identityKept_iff injective built
  refine ⟨kept, build_fixed built, ?_, ?_⟩
  · intro fixed
    rw [kept]
    constructor
    · intro stable
      exact defang_of_canonicalize fixed ((stable 1).trans fixed)
    · exact defangStable_of_eq
  · intro record' cfg' firstSeen' lastSeen' other normalized' plain plain' enrichers enrichers' a b
      emitted emitted'
    obtain ⟨v', fields', built'⟩ := recordToIndicator_built normalized'
    have identified := kept.mpr (defangStable_of_eq plain.2) enrichers a emitted
    have identified' := (identityKept_iff injective built').mpr (defangStable_of_eq plain'.2)
      enrichers' b emitted'
    exact undefanged_id_iff injective (enrichChain_undefanged plain emitted)
      (enrichChain_undefanged plain' emitted') identified identified'

theorem spell_injective : Function.Injective spell := by
  have base : ∀ c : Char, c.toNat < 0x110000 := by
    intro c
    rcases c.valid with low | high
    · have : c.toNat < 0xd800 := low
      omega
    · exact high.2
  have concat : ∀ (s : Str) (c : Char), spell (s ++ [c]) = spell s * 0x110000 + c.toNat := by
    intro s c
    simp [spell]
  have positive : ∀ s : Str, 0 < spell s := by
    intro s
    induction s using List.reverseRecOn with
    | nil => decide
    | append_singleton s c ih =>
        rw [concat]
        omega
  have first : spell [] = 1 := rfl
  intro s
  induction s using List.reverseRecOn with
  | nil =>
      intro s' same
      rcases List.eq_nil_or_concat s' with rfl | ⟨s', d, rfl⟩
      · rfl
      · rw [List.concat_eq_append, concat, first] at same
        have := positive s'
        omega
  | append_singleton s c ih =>
      intro s' same
      rcases List.eq_nil_or_concat s' with rfl | ⟨s', d, rfl⟩
      · rw [concat, first] at same
        have := positive s
        omega
      · rw [List.concat_eq_append] at same ⊢
        rw [concat, concat] at same
        have := base c
        have := base d
        have front : spell s = spell s' := by omega
        have last : c.toNat = d.toNat := by omega
        rw [ih front, Char.toNat_inj.mp last]

theorem asciiRuntime_injective : Function.Injective (asciiRuntime.uuid5 ctiNs) := spell_injective

/-- A source of file names. -/
def fileNames : NormalizeConfig := { NormalizeConfig.default with indicatorType := some .fileName }

def valueRecord (value : Str) : Record := [("value".toList, .str value)]

theorem identity_kept_plain_name :
    ∃ ind, recordToIndicator asciiRuntime (valueRecord "Invoice.exe".toList) fileNames 0 1 =
        .ok (some ind) ∧ IdentityKept asciiRuntime ind := by
  have normalized : recordToIndicator asciiRuntime (valueRecord "Invoice.exe".toList) fileNames 0 1 =
      .ok (some _) := rfl
  have facts := identity_kept_iff asciiRuntime_injective normalized
  exact ⟨_, normalized, (facts.2.2.1 rfl).mpr rfl⟩

/-- A file name with a defanged dot is stored under one id and published with the value of
another. -/
theorem identity_lost_defanged_name :
    ∃ ind ind', recordToIndicator asciiRuntime (valueRecord "foo[.]exe".toList) fileNames 0 1 =
        .ok (some ind) ∧ enrichChain asciiRuntime [.defang true] ind = .ok (some ind') ∧
      ind'.value = "foo.exe".toList ∧ ¬ Identified asciiRuntime ind' := by
  refine ⟨_, _, rfl, rfl, by rfl, ?_⟩
  intro identified
  have ids := Except.ok.inj identified
  exact absurd ids (by decide)

end Cti
