import Cti.CanonicalForm
import Cti.Marks

set_option autoImplicit false

/- Canonicalizing domains and URLs that a feed has defanged. -/
namespace Urllib

open Py (Str Unicode)

variable {U : Unicode}

/-- A scheme in any letter case. -/
def isScheme (raw : Str) : Bool := raw.head?.any Char.isAlpha && raw.all isSchemeChar

theorem splitScheme_raw {raw : Str} (scheme : isScheme raw = true) (rest : Str) :
    splitScheme U (raw ++ ':' :: rest) = (raw.map Char.toLower, rest) := by
  have chars := scheme
  rw [isScheme, Bool.and_eq_true, List.all_eq_true] at chars
  have cuts : Py.cut (· == ':') (raw ++ ':' :: rest) = (raw, ':' :: rest) := by
    apply Py.cut_append (fun c member => (schemeChar_plain (chars.2 c member)).1)
    intro c head
    rw [List.head?_cons, Option.some.injEq] at head
    rw [← head]
    decide
  rw [splitScheme, cuts]
  simp only [show (raw.head?.any Char.isAlpha && raw.all isSchemeChar) = true from scheme, if_true]
  rw [Py.lower_ascii_eq fun c member => schemeChar_ascii (chars.2 c member)]

/-- Splitting a text that starts with a scheme: the scheme only labels the result. -/
theorem urlsplit_raw {raw raw' : Str} (scheme : isScheme raw = true)
    (scheme' : isScheme raw' = true)
    (rest : Str) : urlsplit U (raw' ++ ':' :: rest) =
      (urlsplit U (raw ++ ':' :: rest)).map fun parts =>
        { parts with scheme := raw'.map Char.toLower } := by
  have clean : ∀ {raw : Str}, isScheme raw = true →
      (Py.lstrip isControlOrSpace (raw ++ ':' :: rest)).filter (fun c => !isUnsafe c) =
        raw ++ ':' :: rest.filter (fun c => !isUnsafe c) := by
    intro raw scheme
    rw [isScheme, Bool.and_eq_true, List.all_eq_true] at scheme
    have plain := fun c member => schemeChar_plain (scheme.2 c member)
    rw [Py.lstrip_eq_self, List.filter_append, List.filter_cons_of_pos (by decide),
      List.filter_eq_self.mpr fun c member => by simp [(plain c member).2.1]]
    intro c head
    cases raw with
    | nil => cases scheme.1
    | cons d raw =>
        rw [List.cons_append, List.head?_cons, Option.some.injEq] at head
        rw [← head]
        exact (plain d List.mem_cons_self).2.2
  unfold urlsplit
  simp only [clean scheme, clean scheme', splitScheme_raw scheme, splitScheme_raw scheme']
  split <;> rfl

/-- Parsing a text that starts with a scheme. -/
theorem urlparse_raw {raw raw' : Str} (scheme : isScheme raw = true)
    (scheme' : isScheme raw' = true)
    {rest : Str} {parsed : ParseResult} (parse : urlparse U (raw ++ ':' :: rest) = some parsed) :
    parsed.scheme = raw.map Char.toLower ∧
      ∃ parsed', urlparse U (raw' ++ ':' :: rest) = some parsed' ∧
        parsed'.scheme = raw'.map Char.toLower ∧ parsed'.netloc = parsed.netloc := by
  have self := urlsplit_raw (U := U) scheme scheme rest
  have other := urlsplit_raw (U := U) scheme scheme' rest
  cases split : urlsplit U (raw ++ ':' :: rest) with
  | none =>
      rw [urlparse, split] at parse
      cases parse
  | some parts =>
      rw [split, Option.map_some, Option.some.injEq] at self
      rw [split, Option.map_some] at other
      simp only [urlparse, split, Option.bind_eq_bind, Option.bind_some, Option.pure_def,
        Option.some.injEq] at parse
      simp only [urlparse, other, Option.bind_eq_bind, Option.bind_some, Option.pure_def,
        Option.some.injEq]
      rw [← parse]
      exact ⟨congrArg SplitResult.scheme self, _, rfl, rfl, rfl⟩

/-- Schemes that differ in letter case only are read as the same. -/
theorem urlparse_congr {raw raw' : Str} (scheme : isScheme raw = true)
    (scheme' : isScheme raw' = true) (same : raw.map Char.toLower = raw'.map Char.toLower)
    (rest : Str) : urlparse U (raw' ++ ':' :: rest) = urlparse U (raw ++ ':' :: rest) := by
  have self := urlsplit_raw (U := U) scheme scheme rest
  have other := urlsplit_raw (U := U) scheme scheme' rest
  rw [← same, ← self] at other
  rw [urlparse, urlparse, other]

end Urllib

namespace Cti

open Py (Str Unicode Marked)

variable {R : Runtime} {t : IndicatorType} {s s' : Str}

/-- A text with none of the markers and with no defanged scheme. -/
structure Clean (s : Str) : Prop where
  markers : ∀ pair ∈ defangReplacements, ¬ pair.1 <:+: s
  scheme : ¬ "hxxp".toList <:+: s.map Char.toLower

/-- The ways to defang a dot. -/
def dotMarks : List (Str × Str) :=
  [("[.]".toList, ".".toList), ("(.)".toList, ".".toList)]

/-- A scheme and its defanged form, both in any letter case. -/
def SchemeMark (scheme mark : Str) : Prop :=
  (scheme.map Char.toLower = "http".toList ∧ mark.map Char.toLower = "hxxp".toList) ∨
    (scheme.map Char.toLower = "https".toList ∧ mark.map Char.toLower = "hxxps".toList)

/-- The leading scheme is left as it is, or defanged. -/
inductive DefangsScheme : Str → Str → Prop
  | keep (s : Str) : DefangsScheme s s
  | mark {space scheme mark : Str} (rest : Str) (spaces : ∀ c ∈ space, Py.isSpace c = true)
      (kind : SchemeMark scheme mark) :
      DefangsScheme (space ++ (scheme ++ ':' :: rest)) (space ++ (mark ++ ':' :: rest))

/-- The first `://` is left as it is, or defanged. -/
inductive DefangsSlashes : Str → Str → Prop
  | keep (s : Str) : DefangsSlashes s s
  | mark {front : Str} (rest : Str) (first : ¬ "://".toList <:+: front ++ ":/".toList) :
      DefangsSlashes (front ++ ("://".toList ++ rest)) (front ++ ("[://]".toList ++ rest))

/-- The spellings of a text that is defanged as a domain or as a URL. -/
def Defangs : IndicatorType → Str → Str → Prop
  | .url, s, s' => ∃ schemed slashed, DefangsScheme s schemed ∧ DefangsSlashes schemed slashed ∧
      Marked dotMarks slashed s'
  | _, s, s' => Marked dotMarks s s'

/-- Both spellings fail, or both are the same indicator. -/
structure DefangBlind (R : Runtime) (t : IndicatorType) (s s' : Str) : Prop where
  canonical : (canonicalize R t s').toOption = (canonicalize R t s).toOption
  uuid : (indicatorUuid R t s').toOption = (indicatorUuid R t s).toOption

/-- The text is a URL with an authority. -/
def Hosted (U : Unicode) (text : Str) : Prop :=
  ∃ parsed, Urllib.urlparse U text = some parsed ∧ parsed.netloc ≠ []

/-- The scheme is defanged, no slashes follow its colon at once, and still the text is a URL
with an authority, since `urlsplit` drops tabs and line breaks. -/
def SchemeLost (U : Unicode) (s s' : Str) : Prop :=
  startsIgnoringCase "hxxp".toList (Py.strip s') = true ∧
    (∃ scheme rest, Py.strip s = scheme ++ ':' :: rest ∧ ':' ∉ scheme ∧ ¬ "//".toList <+: rest) ∧
    Hosted U (Py.strip s)

theorem blind_of_canonical
    (canonical : (canonicalize R t s').toOption = (canonicalize R t s).toOption) :
    DefangBlind R t s s' := by
  refine ⟨canonical, ?_⟩
  unfold indicatorUuid
  cases first : canonicalize R t s' <;> cases second : canonicalize R t s <;>
    rw [first, second] at canonical <;> cases canonical <;> rfl

theorem defangBrackets : Py.Brackets (fun c => c == '[' || c == '(') defangReplacements :=
  ⟨by decide, by decide⟩

theorem defangSolid : Marked.Solid defangReplacements := by
  unfold Marked.Solid
  decide

theorem dotMarks_known : ∀ rule ∈ dotMarks, rule ∈ defangReplacements := by decide

/-- An occurrence that starts with a character not in the front is one behind it. -/
theorem infix_behind {o : Char} {tail front rest : Str} (absent : o ∉ front)
    (inside : o :: tail <:+: front ++ rest) : o :: tail <:+: rest := by
  induction front with
  | nil => exact inside
  | cons c front ih =>
      rw [List.cons_append, List.infix_cons_iff] at inside
      rcases inside with start | later
      · have same := (List.cons_prefix_cons.mp start).1
        rw [same] at absent
        exact absurd List.mem_cons_self absent
      · exact ih (fun member => absent (List.mem_cons_of_mem c member)) later

theorem infix_of_lstrip (p : Char → Bool) (s : Str) : Py.lstrip p s <:+: s :=
  (List.dropWhile_suffix p).isInfix

theorem infix_of_strip (s : Str) : Py.strip s <:+: s :=
  (Py.rstrip_initial _ _).isInfix.trans (infix_of_lstrip _ s)

theorem Clean.strip (clean : Clean s) : Clean (Py.strip s) :=
  ⟨fun pair known inside => clean.markers pair known (inside.trans (infix_of_strip s)),
    fun inside => clean.scheme (inside.trans ((infix_of_strip s).map Char.toLower))⟩

/-- What the scheme pattern matches is a defanged scheme. -/
theorem reHxxp_none {U : Unicode} {s : Str} (plain : ¬ "hxxp".toList <:+: s.map Char.toLower)
    {front rest : Str} (whole : s = front ++ rest) (before : Option Char) :
    reHxxp U before rest = none := by
  cases found : reHxxp U before rest with
  | none => rfl
  | some result =>
      obtain ⟨text, group, tail, same, lowered, _⟩ := @webScheme_match _ _ _ result.2 _ result.1 found
      exfalso
      apply plain
      rw [whole, same, List.map_append, List.map_append, lowered]
      exact ⟨front.map Char.toLower, _, by rw [List.append_assoc]⟩

theorem sub_reHxxp_eq_self {U : Unicode} (plain : ¬ "hxxp".toList <:+: s.map Char.toLower)
    (before : Option Char) : Py.sub (reHxxp U) before 0 s = s :=
  Py.sub_of_none (fun _ _ whole before => reHxxp_none plain whole before) before

/-- Refanging a marked text leaves only its scheme to be restored. -/
theorem refang_marked {U : Unicode} (absent : ∀ pair ∈ defangReplacements, ¬ pair.1 <:+: s)
    (marked : Marked defangReplacements s s') : refang U s' = Py.sub (reHxxp U) none 0 s := by
  rw [refang, marked.replaceAll defangBrackets absent]

theorem Clean.refang {U : Unicode} (clean : Clean s) : refang U s = s := by
  rw [refang_marked clean.markers (Marked.refl s), sub_reHxxp_eq_self clean.scheme]

/-- Defanged dots are seen as dots. -/
theorem refang_dots {U : Unicode} (clean : Clean s) (marked : Marked dotMarks s s') :
    Cti.refang U (Py.strip s') = Py.strip s := by
  have known := (marked.mono dotMarks_known).strip defangSolid
  rw [refang_marked clean.strip.markers known, sub_reHxxp_eq_self clean.strip.scheme]

/-- Apart from its error, canonicalizing a domain depends on the refanged text only. -/
theorem canonicalDomain_congr {v v' : Str} (same : refang R.unicode v' = refang R.unicode v) :
    (canonicalDomain R v').toOption = (canonicalDomain R v).toOption := by
  unfold canonicalDomain domainText
  rw [same]
  split <;> rfl

theorem canonicalUrl_congr {v v' : Str}
    (same : Urllib.urlparse R.unicode (Py.strip (refang R.unicode v')) =
      Urllib.urlparse R.unicode (Py.strip (refang R.unicode v))) :
    (canonicalUrl R v').toOption = (canonicalUrl R v).toOption := by
  unfold canonicalUrl
  rw [same]
  split
  · rfl
  · split <;> rfl

/-- Without an authority a URL is refused. -/
theorem canonicalUrl_hostless {v : Str}
    (hostless : ¬ Hosted R.unicode (Py.strip (refang R.unicode v))) :
    (canonicalUrl R v).toOption = none := by
  unfold canonicalUrl
  split
  · rfl
  · rename_i parsed parse
    have empty : parsed.netloc = [] := by
      by_contra full
      exact hostless ⟨parsed, parse, full⟩
    rw [if_pos (Or.inr empty)]
    rfl

/-- Defanging what follows the scheme marks the text with the markers of the code. -/
theorem DefangsSlashes.marked {slashed : Str} (slashes : DefangsSlashes s slashed)
    (dots : Marked dotMarks slashed s') : Marked defangReplacements s s' := by
  have single : Marked.Single dotMarks := by unfold Marked.Single; decide
  cases slashes with
  | keep _ => exact dots.mono dotMarks_known
  | @mark front rest _ =>
      obtain ⟨front', tail, rfl, first, second⟩ := dots.split single
      obtain ⟨slashes, rest', rfl, third, last⟩ := second.split single
      have kept := third.eq_of_absent (by simp [dotMarks])
      have mark : ("[://]".toList, "://".toList) ∈ defangReplacements := by decide
      rw [kept]
      exact (first.mono dotMarks_known).append (.mark mark (last.mono dotMarks_known))

/-- What the schemes of the web have in common, plain or defanged. -/
structure WebScheme (text : Str) : Prop where
  nonempty : text ≠ []
  letters : ∀ c ∈ text, c.isAlpha = true

theorem webScheme_of_lower {text lowered : Str} (same : text.map Char.toLower = lowered)
    (nonempty : lowered ≠ []) (known : lowered.all (· ∈ "htpsx".toList) = true) :
    WebScheme text := by
  refine ⟨?_, ?_⟩
  · rintro rfl
    exact nonempty same.symm
  · intro c member
    have lower : c.toLower ∈ lowered := by
      rw [← same]
      exact List.mem_map_of_mem member
    have small := Py.forall_mem_of_all known _ lower
    have ascii : Py.isAscii c = true := by
      by_contra other
      rw [Bool.not_eq_true] at other
      rw [Py.toLower_of_not_ascii other] at small
      have plain := Py.forall_mem_of_all (P := fun c => Py.isAscii c = true)
        (s := "htpsx".toList) (by decide) c small
      rw [other] at plain
      cases plain
    exact Py.ascii_forall (P := fun c => c.toLower ∈ "htpsx".toList → c.isAlpha = true) (by decide)
      ascii small

theorem WebScheme.not_mem {text : Str} (web : WebScheme text) {c : Char}
    (other : c.isAlpha = false) :
    c ∉ text := by
  intro member
  rw [web.letters c member] at other
  cases other

theorem WebScheme.valid {text : Str} (web : WebScheme text) : Urllib.isScheme text = true := by
  obtain ⟨c, text, rfl⟩ := List.exists_cons_of_ne_nil web.nonempty
  rw [Urllib.isScheme, List.head?_cons, Option.any_some, web.letters c List.mem_cons_self,
    Bool.true_and, List.all_eq_true]
  intro d member
  simp [Urllib.isSchemeChar, Char.isAlphanum, web.letters d member]

theorem WebScheme.trimmed {text : Str} (web : WebScheme text) : Py.Trimmed text := by
  apply Py.trimmed_of_forall
  intro c member
  exact alnum_not_space (by simp [Char.isAlphanum, web.letters c member])

theorem SchemeMark.web {scheme mark : Str} (kind : SchemeMark scheme mark) :
    WebScheme scheme ∧ WebScheme mark := by
  rcases kind with ⟨first, second⟩ | ⟨first, second⟩
  · exact ⟨webScheme_of_lower first (by decide) (by decide),
      webScheme_of_lower second (by decide) (by decide)⟩
  · exact ⟨webScheme_of_lower first (by decide) (by decide),
      webScheme_of_lower second (by decide) (by decide)⟩

/-- Stripping a text that starts with a scheme strips what follows its colon. -/
theorem WebScheme.strip {space scheme : Str} (web : WebScheme scheme)
    (spaces : ∀ c ∈ space, Py.isSpace c = true) (rest : Str) :
    Py.strip (space ++ (scheme ++ ':' :: rest)) =
      scheme ++ ':' :: Py.rstrip Py.isSpace rest := by
  have front : Py.lstrip Py.isSpace (space ++ scheme) = scheme := by
    rw [Py.lstrip, List.dropWhile_append_of_pos spaces]
    exact Py.lstrip_eq_self (WebScheme.trimmed web).1
  rw [← List.append_assoc, Py.strip_append_cons (by decide), front]

theorem WebScheme.strip_self {scheme rest : Str} (web : WebScheme scheme) :
    Py.strip (scheme ++ ':' :: Py.rstrip Py.isSpace rest) =
      scheme ++ ':' :: Py.rstrip Py.isSpace rest := by
  have twice := @WebScheme.strip [] scheme web nofun (Py.rstrip Py.isSpace rest)
  rw [List.nil_append] at twice
  rw [twice, Py.rstrip, Py.rstrip, List.rdropWhile_idempotent]

theorem startsIgnoringCase_front {pattern front : Str} (lowered : front.map Char.toLower = pattern)
    (rest : Str) : startsIgnoringCase pattern (front ++ rest) = true := by
  induction front generalizing pattern with
  | nil =>
      rw [← lowered]
      rfl
  | cons c front ih =>
      rw [← lowered, List.map_cons, List.cons_append, startsIgnoringCase, ih rfl]
      simp

/-- A defanged scheme before a colon: its letters, and the group of the pattern. -/
theorem SchemeMark.parts {scheme mark : Str} (kind : SchemeMark scheme mark) :
    ∃ front group, mark = front ++ group ∧ front.map Char.toLower = "hxxp".toList ∧
      (group = [] ∨ group = ['s'] ∨ group = ['S']) ∧
      scheme.map Char.toLower = ("http".toList ++ group).map Char.toLower := by
  rcases kind with ⟨first, second⟩ | ⟨first, second⟩
  · exact ⟨mark, [], (List.append_nil mark).symm, second, Or.inl rfl, first⟩
  · obtain ⟨front, group, rfl, lowered, letter⟩ := List.map_eq_append_iff.mp
      (second.trans (show "hxxps".toList = "hxxp".toList ++ ['s'] by rfl))
    obtain ⟨c, tail, rfl, small, nothing⟩ := List.map_eq_cons_iff.mp letter
    rw [List.map_eq_nil_iff] at nothing
    subst nothing
    refine ⟨front, [c], rfl, lowered, Or.inr ?_, ?_⟩
    · have lower : [c].map Char.toLower = [_] := congrArg (fun d => [d]) small
      have web := webScheme_of_lower lower (by decide) (by decide)
      have ascii := web.letters c List.mem_cons_self
      have plain := Py.alphanum_ascii (c := c) (by simp [Char.isAlphanum, ascii])
      have only := Py.ascii_forall (P := fun c => c.toLower = 's' → c = 's' ∨ c = 'S') (by decide)
        plain small
      simpa using only
    · rw [first, List.map_append, List.map_singleton, small]
      rfl

/-- If slashes follow its colon, refanging restores the scheme. -/
theorem reHxxp_restores {U : Unicode} {scheme mark : Str} (kind : SchemeMark scheme mark)
    {rest : Str} (plain : ¬ "hxxp".toList <:+: rest.map Char.toLower) :
    ∃ restored, restored.map Char.toLower = scheme.map Char.toLower ∧
      Py.sub (reHxxp U) none 0 (mark ++ ':' :: '/' :: '/' :: rest) =
        restored ++ ':' :: '/' :: '/' :: rest := by
  obtain ⟨front, group, rfl, lowered, letter, same⟩ := kind.parts
  have ends : schemeEnd (group ++ "://".toList ++ rest) = some group := by
    rcases letter with rfl | rfl | rfl
    · rfl
    · rfl
    · rfl
  have size : front.length = "hxxp".toList.length := by rw [← lowered, List.length_map]
  have found : reHxxp U none ((front ++ (group ++ "://".toList)) ++ rest) =
      some ((front ++ (group ++ "://".toList)).length,
        "http".toList ++ group ++ "://".toList) := by
    rw [List.append_assoc, reHxxp, webScheme, if_neg (by simp), startsIgnoringCase_front lowered,
      if_pos rfl, List.drop_left' size, ends]
    simp only [Option.map_some, List.length_append, size]
    rfl
  obtain ⟨before, passed⟩ := Py.sub_match (by simp) found
  rw [sub_reHxxp_eq_self plain] at passed
  refine ⟨"http".toList ++ group, same.symm, ?_⟩
  have text : (front ++ group) ++ ':' :: '/' :: '/' :: rest =
      (front ++ (group ++ "://".toList)) ++ rest := by simp
  rw [text, passed]
  simp

/-- If something else follows its colon, the scheme stays defanged. -/
theorem reHxxp_misses {U : Unicode} {scheme mark : Str} (kind : SchemeMark scheme mark)
    {rest : Str} (plain : ¬ "hxxp".toList <:+: rest.map Char.toLower)
    (other : ¬ "//".toList <+: rest) :
    Py.sub (reHxxp U) none 0 (mark ++ ':' :: rest) = mark ++ ':' :: rest := by
  obtain ⟨front, group, rfl, lowered, letter, same⟩ := kind.parts
  apply Py.sub_of_none
  intro done more whole before
  cases found : reHxxp U before more with
  | none => rfl
  | some result =>
      exfalso
      obtain ⟨text, ending, tail, rfl, starts, letter', _⟩ :=
        @webScheme_match _ _ _ result.2 _ result.1 found
      cases done with
      | nil =>
          rw [List.nil_append, List.append_assoc] at whole
          have size : front.length = text.length := by
            rw [← @List.length_map _ _ front, lowered, ← starts, List.length_map]
          have behind := (List.append_inj whole size).2
          apply other
          rcases letter with rfl | rfl | rfl <;> rcases letter' with rfl | rfl | rfl | rfl <;>
            simp at behind
          all_goals exact ⟨tail, behind.symm⟩
      | cons d done =>
          -- The match would have to start in the letters of the scheme or behind its colon.
          have lower := congrArg (List.map Char.toLower) whole
          have letters : "hxxp".toList = 'h' :: "xxp".toList := by rfl
          simp only [List.map_append, List.map_cons, List.cons_append, lowered, starts,
            letters] at lower
          have behind := (List.cons.inj lower).2
          apply plain
          apply @infix_behind 'h' "xxp".toList ("xxp".toList ++ (group.map Char.toLower ++ [':']))
          · rcases letter with rfl | rfl | rfl <;> decide
          · exact ⟨done.map Char.toLower, _, by
              rw [List.append_assoc]
              simpa using behind.symm⟩

theorem canonicalize_url_option (v : Str) : (canonicalize R .url v).toOption =
    if Py.strip v = [] then none else (canonicalUrl R (Py.strip v)).toOption := by
  unfold canonicalize
  simp only
  split <;> rfl

theorem canonicalUrl_hosted {v : Str} {parsed : Urllib.ParseResult}
    (parse : Urllib.urlparse R.unicode (Py.strip (refang R.unicode v)) = some parsed)
    (schemed : parsed.scheme ≠ []) (hosted : parsed.netloc ≠ []) :
    ∃ c tail, canonicalUrl R v = .ok c ∧ c = parsed.scheme ++ ':' :: tail := by
  cases result : canonicalUrl R v with
  | error e =>
      unfold canonicalUrl at result
      rw [parse] at result
      simp only [schemed, hosted, or_self, if_false] at result
      cases result
  | ok c =>
      obtain ⟨parsed', parse', _, _, _, same⟩ := canonicalUrl_eq result
      rw [parse, Option.some.injEq] at parse'
      rw [← parse'] at same
      exact ⟨c, _, rfl, same⟩

/-- The two results of a URL whose scheme stays defanged. -/
theorem lost_scheme_iff {scheme mark rest v v' : Str} (kind : SchemeMark scheme mark)
    (plain : Py.strip (refang R.unicode v) = scheme ++ ':' :: rest)
    (marked : Py.strip (refang R.unicode v') = mark ++ ':' :: rest) :
    (canonicalUrl R v').toOption = (canonicalUrl R v).toOption ↔
      ¬ Hosted R.unicode (scheme ++ ':' :: rest) := by
  have webs := kind.web
  constructor
  · rintro same ⟨parsed, parse, hosted⟩
    obtain ⟨labelled, parsed', parse', labelled', netloc⟩ :=
      Urllib.urlparse_raw webs.1.valid webs.2.valid parse
    obtain ⟨c, tail, result, text⟩ := canonicalUrl_hosted (v := v) (plain ▸ parse)
      (by simp [labelled, webs.1.nonempty]) hosted
    obtain ⟨c', tail', result', text'⟩ := canonicalUrl_hosted (v := v') (marked ▸ parse')
      (by simp [labelled', webs.2.nonempty]) (netloc ▸ hosted)
    rw [result, result', Except.toOption, Except.toOption, Option.some.injEq, text, text', labelled,
      labelled'] at same
    have second := congrArg (fun text => text[1]?) same
    rcases kind with ⟨first, other⟩ | ⟨first, other⟩ <;> rw [first, other] at second <;>
      exact absurd (show some 'x' = some 't' from second) (by decide)
  · intro hostless
    have hostless' : ¬ Hosted R.unicode (mark ++ ':' :: rest) := by
      rintro ⟨parsed, parse, hosted⟩
      obtain ⟨_, parsed', parse', _, netloc⟩ :=
        Urllib.urlparse_raw webs.2.valid webs.1.valid parse
      exact hostless ⟨parsed', parse', netloc ▸ hosted⟩
    rw [← plain] at hostless
    rw [← marked] at hostless'
    rw [canonicalUrl_hostless hostless, canonicalUrl_hostless hostless']

/-- A defanged scheme brings no marker into the text. -/
theorem marked_scheme_clean {space scheme mark rest : Str} (web : WebScheme mark)
    (spaces : ∀ c ∈ space, Py.isSpace c = true)
    (clean : Clean (space ++ (scheme ++ ':' :: rest))) :
    ∀ pair ∈ defangReplacements, ¬ pair.1 <:+: space ++ (mark ++ ':' :: rest) := by
  intro pair known inside
  apply clean.markers pair known
  have open_mark : ∃ o tail, pair.1 = o :: tail ∧ Py.isSpace o = false ∧ o.isAlpha = false ∧
      o ≠ ':' := by
    have each : ∀ pair ∈ defangReplacements, pair.1.head?.any (fun o =>
        !Py.isSpace o && !o.isAlpha && o != ':') = true := by decide
    cases same : pair.1 with
    | nil =>
        have first := each pair known
        rw [same] at first
        cases first
    | cons o tail =>
        have first := each pair known
        rw [same] at first
        simp at first
        exact ⟨o, tail, rfl, first.1.1, first.1.2, first.2⟩
  obtain ⟨o, tail, same, solid, symbol, other⟩ := open_mark
  rw [same] at inside ⊢
  have absent : o ∉ space ++ (mark ++ [':']) := by
    simp only [List.mem_append, List.mem_singleton, not_or]
    refine ⟨fun member => ?_, web.not_mem symbol, other⟩
    rw [spaces o member] at solid
    cases solid
  have behind : o :: tail <:+: rest := by
    apply infix_behind absent
    simpa using inside
  exact behind.trans ⟨space ++ (scheme ++ [':']), [], by simp⟩

/-- The text in front of the first colon is determined, and the text behind it. -/
theorem append_colon_inj {a b a' b' : Str} (first : ':' ∉ a) (first' : ':' ∉ a')
    (same : a ++ ':' :: b = a' ++ ':' :: b') : b = b' := by
  have cuts : ∀ {a b : Str}, ':' ∉ a → Py.cut (· == ':') (a ++ ':' :: b) = (a, ':' :: b) := by
    intro a b absent
    apply Py.cut_append
    · intro c member
      rw [beq_eq_false_iff_ne]
      exact fun colon => absent (colon ▸ member)
    · intro c head
      rw [List.head?_cons, Option.some.injEq] at head
      rw [← head]
      rfl
  have both := cuts first (b := b)
  rw [same, cuts first', Prod.mk.injEq, List.cons.injEq] at both
  exact both.2.2.symm

/-- The spellings of a URL, when its scheme is defanged. -/
theorem url_marked_iff {space scheme mark rest : Str} (kind : SchemeMark scheme mark)
    (spaces : ∀ c ∈ space, Py.isSpace c = true)
    (clean : Clean (space ++ (scheme ++ ':' :: rest)))
    (marked : Marked defangReplacements (space ++ (mark ++ ':' :: rest)) s') :
    (canonicalUrl R (Py.strip s')).toOption =
        (canonicalUrl R (Py.strip (space ++ (scheme ++ ':' :: rest)))).toOption ↔
      ¬ SchemeLost R.unicode (space ++ (scheme ++ ':' :: rest)) s' := by
  have webs := kind.web
  have plain : ¬ "hxxp".toList <:+: (Py.rstrip Py.isSpace rest).map Char.toLower := by
    intro inside
    apply clean.scheme
    rw [List.map_append, List.map_append, List.map_cons]
    have whole := inside.trans ((Py.rstrip_initial Py.isSpace rest).isInfix.map Char.toLower)
    exact whole.trans ⟨space.map Char.toLower ++ (scheme.map Char.toLower ++ [':'.toLower]), [],
      by simp⟩
  have text := clean.strip.refang (U := R.unicode)
  have inner := marked.strip defangSolid
  have absent : ∀ pair ∈ defangReplacements,
      ¬ pair.1 <:+: Py.strip (space ++ (mark ++ ':' :: rest)) := fun pair known inside =>
    marked_scheme_clean webs.2 spaces clean pair known (inside.trans (infix_of_strip _))
  have text' := refang_marked (U := R.unicode) absent inner
  rw [webs.2.strip spaces] at text' inner
  rw [webs.1.strip spaces] at text
  have starts : startsIgnoringCase "hxxp".toList (Py.strip s') = true := by
    obtain ⟨front, group, rfl, lowered, _⟩ := kind.parts
    have foreign : ∀ rule ∈ defangReplacements,
        ∃ c, rule.2.head? = some c ∧ c ∉ front ++ group := by
      intro rule known
      have each : ∀ rule ∈ defangReplacements, rule.2.head?.any (!Char.isAlpha ·) = true := by
        decide
      obtain ⟨c, head, symbol⟩ := (Option.any_eq_true _ _).mp (each rule known)
      exact ⟨c, head, webs.2.not_mem (by simpa using symbol)⟩
    obtain ⟨tail, same, _⟩ := inner.kept_append foreign
    rw [same, List.append_assoc]
    exact startsIgnoringCase_front lowered _
  have only : SchemeLost R.unicode (space ++ (scheme ++ ':' :: rest)) s' ↔
      ¬ "//".toList <+: Py.rstrip Py.isSpace rest ∧
        Hosted R.unicode (scheme ++ ':' :: Py.rstrip Py.isSpace rest) := by
    rw [SchemeLost, webs.1.strip spaces]
    constructor
    · rintro ⟨_, ⟨scheme', rest', same, colon, other⟩, hosted⟩
      have behind := append_colon_inj (webs.1.not_mem (by decide)) colon same
      exact ⟨behind ▸ other, hosted⟩
    · rintro ⟨other, hosted⟩
      exact ⟨starts, ⟨scheme, _, rfl, webs.1.not_mem (by decide), other⟩, hosted⟩
  rw [only, webs.1.strip spaces, not_and]
  by_cases slashes : "//".toList <+: Py.rstrip Py.isSpace rest
  · simp only [slashes, not_true_eq_false, false_imp_iff, iff_true]
    obtain ⟨more, whole⟩ := slashes
    have plain_more : ¬ "hxxp".toList <:+: more.map Char.toLower := by
      intro inside
      apply plain
      rw [← whole, List.map_append]
      exact inside.trans (List.suffix_append _ _).isInfix
    obtain ⟨restored, same, written⟩ := reHxxp_restores (U := R.unicode) kind plain_more
    have web : WebScheme restored := by
      rcases kind with ⟨first, _⟩ | ⟨first, _⟩
      · exact webScheme_of_lower (same.trans first) (by decide) (by decide)
      · exact webScheme_of_lower (same.trans first) (by decide) (by decide)
    apply canonicalUrl_congr
    have slashed : Py.rstrip Py.isSpace rest = '/' :: '/' :: more := whole.symm
    rw [slashed, written, ← slashed] at text'
    rw [text', text, web.strip_self, webs.1.strip_self]
    exact Urllib.urlparse_congr webs.1.valid web.valid same.symm _
  · simp only [slashes, not_false_eq_true, true_imp_iff]
    rw [reHxxp_misses kind plain slashes] at text'
    apply lost_scheme_iff kind
    · rw [text, webs.1.strip_self]
    · rw [text', webs.2.strip_self]

/-- Marks alone do not make a defanged scheme. -/
theorem Clean.keeps_scheme {U : Unicode} (clean : Clean s)
    (marked : Marked defangReplacements (Py.strip s) (Py.strip s')) : ¬ SchemeLost U s s' := by
  rintro ⟨starts, _⟩
  obtain ⟨front, tail, same, lowered⟩ := startsIgnoringCase_append starts
  have web : WebScheme front := webScheme_of_lower lowered (by decide) (by decide)
  have start : front <+: Py.strip s := by
    apply marked.starts defangBrackets
    · intro c member
      rw [Bool.or_eq_false_iff, beq_eq_false_iff_ne, beq_eq_false_iff_ne]
      exact ⟨fun square => web.not_mem (c := '[') (by decide) (square ▸ member),
        fun round => web.not_mem (c := '(') (by decide) (round ▸ member)⟩
    · rw [same]
      exact List.prefix_append front tail
  apply clean.strip.scheme
  rw [← lowered]
  exact start.isInfix.map Char.toLower

/-- Marks alone are not seen in a URL. -/
theorem url_marks_unseen (clean : Clean s)
    (marked : Marked defangReplacements (Py.strip s) (Py.strip s')) :
    (if Py.strip s' = [] then none else (canonicalUrl R (Py.strip s')).toOption) =
      if Py.strip s = [] then none else (canonicalUrl R (Py.strip s)).toOption := by
  have text := refang_marked (U := R.unicode) clean.strip.markers marked
  rw [sub_reHxxp_eq_self clean.strip.scheme] at text
  rw [← clean.strip.refang (U := R.unicode)] at text
  by_cases blank : Py.strip s = []
  · rw [if_pos blank, if_pos ((marked.nil_iff defangSolid).mpr blank)]
  · rw [if_neg blank, if_neg ((marked.nil_iff defangSolid).not.mpr blank)]
    apply canonicalUrl_congr
    rw [text]

/-- Defanged dots are not seen in a domain. -/
theorem domain_dots_unseen (clean : Clean s) (marked : Marked dotMarks s s') :
    (canonicalize R .domain s').toOption = (canonicalize R .domain s).toOption := by
  have text := refang_dots (U := R.unicode) clean marked
  rw [← clean.strip.refang (U := R.unicode)] at text
  have empty := ((Marked.mono dotMarks_known marked).strip defangSolid).nil_iff defangSolid
  unfold canonicalize
  by_cases blank : Py.strip s = []
  · simp only [blank, empty.mpr blank, if_true]
  · simp only [blank, empty.not.mpr blank, if_false]
    exact canonicalDomain_congr text

/-- Canonicalizing a domain or a URL does not see how it was defanged, unless a defanged scheme
is lost. -/
theorem defang_blind_iff (kind : t = .domain ∨ t = .url) (clean : Clean s)
    (defanged : Defangs t s s') :
    DefangBlind R t s s' ↔ ¬ (t = .url ∧ SchemeLost R.unicode s s') := by
  have canonical : DefangBlind R t s s' ↔
      (canonicalize R t s').toOption = (canonicalize R t s).toOption :=
    ⟨fun blind => blind.canonical, blind_of_canonical⟩
  rw [canonical]
  rcases kind with rfl | rfl
  · simp only [reduceCtorEq, false_and, not_false_eq_true, iff_true]
    exact domain_dots_unseen clean defanged
  · obtain ⟨schemed, slashed, scheme, slashes, dots⟩ := defanged
    have marked := slashes.marked dots
    rw [canonicalize_url_option, canonicalize_url_option]
    simp only [true_and]
    cases scheme with
    | keep _ =>
        have inner := marked.strip defangSolid
        exact iff_of_true (url_marks_unseen clean inner) (clean.keeps_scheme inner)
    | @mark space scheme mark rest spaces kind =>
        have webs := kind.web
        have full : Py.strip (space ++ (scheme ++ ':' :: rest)) ≠ [] := by
          rw [webs.1.strip spaces]
          simp
        have full' : Py.strip s' ≠ [] := by
          rw [ne_eq, (marked.strip defangSolid).nil_iff defangSolid, webs.2.strip spaces]
          simp
        rw [if_neg full, if_neg full']
        exact url_marked_iff kind spaces clean marked

theorem clean_of_absent (square : '[' ∉ s) (round : '(' ∉ s) (cross : 'x' ∉ s.map Char.toLower) :
    Clean s := by
  refine ⟨?_, fun inside => cross (inside.subset (by decide))⟩
  intro pair known inside
  have each : ∀ pair ∈ defangReplacements, '[' ∈ pair.1 ∨ '(' ∈ pair.1 := by decide
  rcases each pair known with open_square | open_round
  · exact square (inside.subset open_square)
  · exact round (inside.subset open_round)

theorem defang_blind_iff_example : DefangBlind asciiRuntime .url "http://feed.com/a".toList
    "hXXp[://]feed[.]com/a".toList := by
  have clean : Clean "http://feed.com/a".toList := clean_of_absent (by decide) (by decide) (by decide)
  have scheme : DefangsScheme "http://feed.com/a".toList "hXXp://feed.com/a".toList :=
    @DefangsScheme.mark [] "http".toList "hXXp".toList "//feed.com/a".toList nofun
      (Or.inl ⟨by decide, by decide⟩)
  have slashes : DefangsSlashes "hXXp://feed.com/a".toList "hXXp[://]feed.com/a".toList :=
    @DefangsSlashes.mark "hXXp".toList "feed.com/a".toList (by decide)
  have dot : Marked dotMarks ".com/a".toList "[.]com/a".toList :=
    @Marked.mark dotMarks ("[.]".toList, ".".toList) (by decide) _ _ (Marked.refl "com/a".toList)
  have dots : Marked dotMarks "hXXp[://]feed.com/a".toList "hXXp[://]feed[.]com/a".toList :=
    (Marked.refl "hXXp[://]feed".toList).append dot
  apply (defang_blind_iff (Or.inr rfl) clean ⟨_, _, scheme, slashes, dots⟩).mpr
  rintro ⟨_, _, ⟨scheme, rest, same, colon, other⟩, _⟩
  apply other
  have behind := @append_colon_inj scheme rest "http".toList "//feed.com/a".toList colon
    (by decide) same.symm
  rw [behind]
  decide

/-- A tab behind the colon: the URL is read as `http` in one spelling, as `hxxp` in the other. -/
theorem defanged_scheme_lost :
    Clean "http:\t//a.com".toList ∧
      Defangs .url "http:\t//a.com".toList "hxxp:\t//a.com".toList ∧
      canonicalize asciiRuntime .url "http:\t//a.com".toList =
        .ok "http://a.com/".toList ∧
      canonicalize asciiRuntime .url "hxxp:\t//a.com".toList =
        .ok "hxxp://a.com/".toList ∧
      ¬ DefangBlind asciiRuntime .url "http:\t//a.com".toList
        "hxxp:\t//a.com".toList := by
  have first : canonicalize asciiRuntime .url "http:\t//a.com".toList =
      .ok "http://a.com/".toList := by rfl
  have second : canonicalize asciiRuntime .url "hxxp:\t//a.com".toList =
      .ok "hxxp://a.com/".toList := by rfl
  have scheme : DefangsScheme "http:\t//a.com".toList "hxxp:\t//a.com".toList :=
    @DefangsScheme.mark [] "http".toList "hxxp".toList "\t//a.com".toList nofun
      (Or.inl ⟨by decide, by decide⟩)
  refine ⟨clean_of_absent (by decide) (by decide) (by decide),
    ⟨_, _, scheme, .keep _, Marked.refl _⟩, first, second, ?_⟩
  intro blind
  have same := blind.canonical
  rw [first, second, Except.toOption, Except.toOption, Option.some.injEq] at same
  exact absurd same (by decide)

end Cti
