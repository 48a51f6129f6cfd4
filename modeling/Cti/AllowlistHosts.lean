import Cti.AllowlistUrls
import Cti.DomainGrammar
import Mathlib.Data.Set.Finite.Basic

set_option autoImplicit false

/- URLs on other hosts that start with an entry of the allowlist. -/
namespace Cti

open Py (Str Unicode)
open Urllib (webText pathOf)

variable {R : Runtime} {U : Unicode}

section tabs

/-- A text with a tab before each character. Cleaning a URL removes the tabs, refanging sees
none of the markers between them. -/
def tabbed (s : Str) : Str := s.flatMap fun c => ['\t', c]

theorem tabbed_cons (c : Char) (s : Str) : tabbed (c :: s) = '\t' :: c :: tabbed s := rfl

theorem filter_tabbed {s : Str} (safe : ∀ c ∈ s, Urllib.isUnsafe c = false) :
    (tabbed s).filter (fun c => !Urllib.isUnsafe c) = s := by
  induction s with
  | nil => rfl
  | cons c s ih =>
      have first := safe c List.mem_cons_self
      have rest := ih fun d member => safe d (List.mem_cons_of_mem c member)
      rw [tabbed_cons, List.filter_cons_of_neg (by decide),
        List.filter_cons_of_pos (by rw [first]; rfl), rest]

/-- No word stands in one piece. -/
theorem not_infix_tabbed {w : Str} (long : 2 ≤ w.length) (plain : '\t' ∉ w) (s : Str) :
    ¬ w <:+: tabbed s := by
  obtain ⟨a, b, w, rfl⟩ : ∃ a b rest, w = a :: b :: rest := by
    match w, long with
    | a :: b :: rest, _ => exact ⟨a, b, rest, rfl⟩
  have first : a ≠ '\t' := fun tab => plain (tab ▸ List.mem_cons_self)
  have second : b ≠ '\t' := fun tab => plain (tab ▸ List.mem_cons_of_mem a List.mem_cons_self)
  induction s with
  | nil =>
      intro inside
      cases List.infix_nil.mp inside
  | cons c s ih =>
      intro inside
      rw [tabbed_cons] at inside
      rcases List.infix_cons_iff.mp inside with starts | inside
      · exact first (List.cons_prefix_cons.mp starts).1
      · rcases List.infix_cons_iff.mp inside with starts | inside
        · have tail := (List.cons_prefix_cons.mp starts).2
          cases s with
          | nil => cases List.prefix_nil.mp tail
          | cons d s => exact second (List.cons_prefix_cons.mp tail).1
        · exact ih inside

theorem map_tabbed (s : Str) : (tabbed s).map Char.toLower = tabbed (s.map Char.toLower) := by
  induction s with
  | nil => rfl
  | cons c s ih =>
      rw [tabbed_cons, List.map_cons, List.map_cons, ih, List.map_cons, tabbed_cons]
      rfl

/-- A web URL, tabs between its characters behind the slashes. -/
def tabbedText (scheme text : Str) : Str := scheme ++ ':' :: '/' :: '/' :: tabbed text

/-- What stands before the authority of a web URL. -/
theorem web_front {scheme : Str} (web : scheme = "http".toList ∨ scheme = "https".toList) :
    ∀ c ∈ scheme ++ "://".toList, c ∈ "https:/".toList := by
  rcases web with rfl | rfl
  · exact Py.forall_mem_of_all (by decide)
  · exact Py.forall_mem_of_all (by decide)

theorem tabbedText_eq (scheme text : Str) :
    tabbedText scheme text = (scheme ++ "://".toList) ++ tabbed text := by
  rw [List.append_assoc]
  rfl

/-- What every marker starts with. -/
theorem marker_shape : ∀ pair ∈ defangReplacements, ∃ a b w, pair.1 = a :: b :: w ∧
    (a ∉ "https:/".toList ∧ a ∉ "]@v1.e/".toList) ∧ ('[' ∉ b :: w ∧ b ≠ ']') ∧ '\t' ∉ pair.1 ∧
    (pair.2 ⊆ ".:@".toList ∨ '/' ∈ pair.1) := by
  intro pair known
  simp only [defangReplacements, List.mem_cons, List.not_mem_nil, or_false] at known
  rcases known with rfl | rfl | rfl | rfl | rfl
  · exact ⟨'[', '.', "]".toList, rfl, by decide⟩
  · exact ⟨'(', '.', ")".toList, rfl, by decide⟩
  · exact ⟨'[', ':', "]".toList, rfl, by decide⟩
  · exact ⟨'[', 'a', "t]".toList, rfl, by decide⟩
  · exact ⟨'[', ':', "//]".toList, rfl, by decide⟩

theorem tabbedText_clean {scheme : Str} (web : scheme = "http".toList ∨ scheme = "https".toList)
    (text : Str) : Clean (tabbedText scheme text) := by
  constructor
  · intro pair known inside
    obtain ⟨a, b, w, same, first, _, plain, _⟩ := marker_shape pair known
    rw [tabbedText_eq] at inside
    refine not_infix_tabbed (by rw [same]; simp) plain text (Py.infix_of_append ?_ inside)
    intro c head member
    rw [same] at head
    obtain rfl : a = c := Option.some.inj head
    exact first.1 (web_front web a member)
  · intro inside
    have crosses : "xx".toList <:+: (tabbedText scheme text).map Char.toLower :=
      (show "xx".toList <:+: "hxxp".toList by decide).trans inside
    have front : 'x' ∉ (scheme ++ "://".toList).map Char.toLower := by
      rcases web with rfl | rfl <;> decide
    rw [tabbedText_eq, List.map_append, map_tabbed] at crosses
    refine not_infix_tabbed (by decide) (by decide) _ (Py.infix_of_append ?_ crosses)
    intro c head
    obtain rfl : 'x' = c := Option.some.inj head
    exact front

theorem cleaned_tabbedText {scheme text : Str} (valid : Urllib.IsScheme scheme)
    (safe : ∀ c ∈ text, Urllib.isUnsafe c = false) :
    Urllib.cleaned (tabbedText scheme text) = scheme ++ ':' :: '/' :: '/' :: text := by
  rw [tabbedText, Urllib.cleaned_scheme valid]
  show scheme ++ ':' :: '/' :: '/' :: (tabbed text).filter (fun c => !Urllib.isUnsafe c) = _
  rw [filter_tabbed safe]

end tabs

section behind

/-- A host that a netloc with brackets may have. -/
def otherHost (k : Nat) : Str := "v1.".toList ++ List.replicate (k + 1) 'e'

/-- A netloc on that host, with all of another netloc as its user. -/
def behind (netloc : Str) (k : Nat) : Str := netloc ++ ('[' :: ']' :: '@' :: otherHost k)

theorem otherHost_chars (k : Nat) : ∀ c ∈ otherHost k, c ∈ "v1.e".toList := by
  have front : ∀ c ∈ "v1.".toList, c ∈ "v1.e".toList := Py.forall_mem_of_all (by decide)
  intro c member
  rcases List.mem_append.mp member with here | here
  · exact front c here
  · rw [List.eq_of_mem_replicate here]
    decide

theorem otherHost_injective : Function.Injective otherHost := by
  intro j k same
  have lengths := congrArg List.length (List.append_cancel_left same)
  rw [List.length_replicate, List.length_replicate] at lengths
  omega

/-- Some host is not among finitely many. -/
theorem exists_unlisted (hosts : List (Option Str)) : ∃ k, some (otherHost k) ∉ hosts := by
  have many := Set.infinite_range_of_injective
    ((Option.some_injective Str).comp otherHost_injective)
  obtain ⟨_, ⟨k, rfl⟩, other⟩ := many.exists_notMem_finite hosts.finite_toSet
  exact ⟨k, other⟩

variable {netloc : Str} {k : Nat}

theorem behind_rcut : Py.rcut (· == '@') (behind netloc k) =
    (netloc ++ "[]@".toList, otherHost k) := by
  have whole : behind netloc k = (netloc ++ "[]@".toList) ++ otherHost k := by
    rw [List.append_assoc]
    rfl
  rw [whole]
  apply Py.rcut_append
  · intro c final
    rw [List.getLast?_append_of_ne_nil _ (by decide)] at final
    obtain rfl : '@' = c := Option.some.inj final
    rfl
  · intro c member
    have outside : ∀ c ∈ "v1.e".toList, (c == '@') = false := Py.forall_mem_of_all (by decide)
    exact outside c (otherHost_chars k c member)

theorem otherHost_cut (stop : Char → Bool) (plain : "v1.e".toList.any stop = false) :
    Py.cut stop (otherHost k) = (otherHost k, []) := by
  rw [List.any_eq_false] at plain
  have before : ∀ c ∈ otherHost k, stop c = false :=
    fun c member => Bool.not_eq_true _ ▸ plain c (otherHost_chars k c member)
  have whole := Py.cut_append (t := []) before nofun
  rwa [List.append_nil] at whole

theorem behind_hostname : Urllib.hostname U (behind netloc k) = some (otherHost k) := by
  have lowered : Py.lower U (otherHost k) = otherHost k := by
    apply Py.lower_eq_self
    intro c member
    have small : ∀ c ∈ "v1.e".toList, Py.isAscii c = true ∧ c.isUpper = false :=
        Py.forall_mem_of_all (by decide)
    have facts := small c (otherHost_chars k c member)
    exact Py.settled_ascii facts.1 facts.2
  have full : otherHost k ≠ [] := nofun
  simp only [Urllib.hostname, behind_rcut, otherHost_cut (· == '[') (by decide),
    otherHost_cut (· == ':') (by decide), otherHost_cut (· == '%') (by decide), if_neg full, lowered, List.append_nil]

theorem otherHost_ok : Urllib.bracketedHostOk (otherHost k) = true := by
  have cuts : Py.cut (fun c => !Ipaddress.isHexDigit c)
      ('1' :: '.' :: List.replicate (k + 1) 'e') = (['1'], '.' :: List.replicate (k + 1) 'e') :=
    Py.cut_append (s := ['1']) (Py.forall_mem_of_all (by decide)) (by simp; decide)
  have whole : otherHost k = 'v' :: '1' :: '.' :: List.replicate (k + 1) 'e' := rfl
  simp only [whole, Urllib.bracketedHostOk, cuts]
  simp [List.mem_replicate]

/-- A delimiter of a netloc is in the normal form of a text exactly if it is in that of a
character: no delimiter takes part in a composition. An ASCII character is its own normal form. -/
structure Delimits (U : Unicode) : Prop where
  ascii : ∀ c, Py.isAscii c = true → U.nfkc [c] = [c]
  each : ∀ s, ∀ d ∈ "/?#@:".toList, d ∈ U.nfkc s ↔ ∃ c ∈ s, d ∈ U.nfkc [c]

/-- ASCII characters may be added to a netloc. -/
theorem nfkcOk_of_chars (delimits : Delimits U) {n : Str} (ok : Urllib.nfkcOk U n = true)
    (flat : '/' ∉ n) {n' : Str}
    (chars : ∀ c ∈ n', c ∈ n ∨ Py.isAscii c = true ∧ c ≠ '/') : Urllib.nfkcOk U n' = true := by
  have among : ∀ d ∈ "/?#@:".toList, d ∈ "@:#?".toList ∨ d = '/' := Py.forall_mem_of_all (by decide)
  have plain : ∀ {t : Str}, '/' ∉ t → ∀ d ∈ "/?#@:".toList,
      d ∉ t.filter fun c => !"@:#?".toList.contains c := by
    intro t flat d delimiter member
    have facts := List.mem_filter.mp member
    rcases among d delimiter with removed | rfl
    · have kept : (!"@:#?".toList.contains d) = true := facts.2
      rw [List.contains_iff_mem.mpr removed] at kept
      cases kept
    · exact flat facts.1
  have flat' : '/' ∉ n' := by
    intro member
    rcases chars '/' member with here | ⟨_, other⟩
    · exact flat here
    · exact other rfl
  rw [Urllib.nfkcOk, Bool.or_eq_true]
  refine Or.inr ?_
  simp only [Bool.or_eq_true, decide_eq_true_eq, Bool.not_eq_true', List.any_eq_false,
    List.contains_iff_mem]
  refine Or.inr fun d delimiter inside => ?_
  obtain ⟨c, kept, composed⟩ := (delimits.each _ d delimiter).mp inside
  cases ascii : Py.isAscii c with
  | true =>
      rw [delimits.ascii c ascii, List.mem_singleton] at composed
      rw [← composed] at kept
      exact plain flat' d delimiter kept
  | false =>
      have old : c ∈ n := by
        rcases chars c (List.mem_filter.mp kept).1 with here | ⟨symbol, _⟩
        · exact here
        · rw [ascii] at symbol
          cases symbol
      have early : c ∈ n.filter fun c => !"@:#?".toList.contains c :=
        List.mem_filter.mpr ⟨old, (List.mem_filter.mp kept).2⟩
      have inside := (delimits.each _ d delimiter).mpr ⟨c, early, composed⟩
      simp only [Urllib.nfkcOk, Bool.or_eq_true, decide_eq_true_eq, Bool.not_eq_true',
        List.any_eq_false, List.contains_iff_mem, List.all_eq_true] at ok
      rcases ok with all | same | none
      · rw [all c old] at ascii
        cases ascii
      · rw [same] at inside
        exact plain flat d delimiter inside
      · exact none d delimiter inside

/-- What is added to a netloc. -/
theorem behind_chars {c : Char} (member : c ∈ behind netloc k) :
    c ∈ netloc ∨ c ∈ "[]@v1.e".toList := by
  have host : ∀ c ∈ "v1.e".toList, c ∈ "[]@v1.e".toList := Py.forall_mem_of_all (by decide)
  rcases List.mem_append.mp member with here | here
  · exact Or.inl here
  · simp only [List.mem_cons] at here
    rcases here with rfl | rfl | rfl | here
    · exact Or.inr (by decide)
    · exact Or.inr (by decide)
    · exact Or.inr (by decide)
    · exact Or.inr (host c (otherHost_chars k c here))

/-- The brackets before the other host make its form count. -/
theorem behind_ok (delimits : Delimits U) {n : Str} (ok : Urllib.nfkcOk U n = true)
    (flat : '/' ∉ n) (chars : ∀ c ∈ netloc, c ∈ n ∨ c ∈ ".:@".toList) :
    Urllib.netlocOk U (behind netloc k) = true := by
  have added : ∀ c ∈ ".:@".toList ++ "[]@v1.e".toList, Py.isAscii c = true ∧ c ≠ '/' :=
        Py.forall_mem_of_all (by decide)
  have normal : Urllib.nfkcOk U (behind netloc k) = true := by
    refine nfkcOk_of_chars delimits ok flat fun c member => ?_
    rcases behind_chars member with here | here
    · rcases chars c here with old | mark
      · exact Or.inl old
      · exact Or.inr (added c (List.mem_append_left _ mark))
    · exact Or.inr (added c (List.mem_append_right _ here))
  have opened : (behind netloc k).contains '[' = true := by simp [behind]
  have closed : (behind netloc k).contains ']' = true := by simp [behind]
  have hosted : Urllib.bracketedNetlocOk (behind netloc k) = true := by
    simp only [Urllib.bracketedNetlocOk, behind_rcut, otherHost_cut (· == '[') (by decide),
      otherHost_cut (· == ':') (by decide), otherHost_ok]
  rw [Urllib.netlocOk, opened, closed, hosted, normal]
  rfl

end behind

section spelling

variable {scheme netloc : Str} {k : Nat}

/-- A pass over a URL on such a netloc reaches only what is before the brackets. -/
theorem replace_behind (web : scheme = "http".toList ∨ scheme = "https".toList) {a b : Char}
    {w dst : Str} (opens : a ∉ "https:/".toList ∧ a ∉ "]@v1.e/".toList) (once : '[' ∉ b :: w)
    (filled : b ≠ ']') : Py.replace (a :: b :: w) dst (webText scheme (behind netloc k) ['/']) =
      webText scheme (behind (Py.replace (a :: b :: w) dst netloc) k) ['/'] := by
  have whole : ∀ n, webText scheme (behind n k) ['/'] =
      ((scheme ++ "://".toList) ++ n) ++ '[' :: ']' :: '@' :: (otherHost k ++ ['/']) := by
    intro n
    simp [webText, behind]
  have front : Py.replace (a :: b :: w) dst ((scheme ++ "://".toList) ++ netloc) =
      (scheme ++ "://".toList) ++ Py.replace (a :: b :: w) dst netloc := by
    apply Py.replace_append_plain
    intro done c rest same starts
    obtain ⟨rfl, _⟩ := List.cons_prefix_cons.mp starts
    exact opens.1 (web_front web a (by rw [same]; simp))
  have kept : Py.replace (a :: b :: w) dst ('[' :: ']' :: '@' :: (otherHost k ++ ['/'])) =
      '[' :: ']' :: '@' :: (otherHost k ++ ['/']) := by
    rw [Py.replace_cons, Py.replace_eq_self List.mem_cons_self]
    · intro member
      have inside : ∀ c ∈ "v1.e".toList, c ∈ "]@v1.e/".toList := Py.forall_mem_of_all (by decide)
      simp only [List.mem_cons, List.mem_append, List.not_mem_nil, or_false] at member
      rcases member with rfl | rfl | here | rfl
      · exact opens.2 (by decide)
      · exact opens.2 (by decide)
      · exact opens.2 (inside a (otherHost_chars k a here))
      · exact opens.2 (by decide)
    · intro starts
      exact filled (List.cons_prefix_cons.mp (List.cons_prefix_cons.mp starts).2).1
  rw [whole, whole, Py.replace_append_cons (List.cons_ne_nil a _) once, front, kept]

/-- The passes leave such a URL on the host. -/
theorem markers_behind (web : scheme = "http".toList ∨ scheme = "https".toList)
    (flat : '/' ∉ netloc) : ∃ netloc', (∀ c ∈ netloc', c ∈ netloc ∨ c ∈ ".:@".toList) ∧
      defangReplacements.foldl (fun out pair => Py.replace pair.1 pair.2 out)
        (webText scheme (behind netloc k) ['/']) = webText scheme (behind netloc' k) ['/'] := by
  have shapes := marker_shape
  generalize defangReplacements = rules at shapes
  induction rules generalizing netloc with
  | nil => exact ⟨netloc, fun c member => Or.inl member, rfl⟩
  | cons pair rules ih =>
      obtain ⟨a, b, w, same, opens, ⟨once, filled⟩, _, written⟩ := shapes pair List.mem_cons_self
      have chars : ∀ c ∈ Py.replace pair.1 pair.2 netloc, c ∈ netloc ∨ c ∈ ".:@".toList := by
        rcases written with dots | slash
        · exact Py.replace_forall (fun c member => Or.inr (dots member)) fun c => Or.inl
        · rw [Py.replace_eq_self slash flat]
          exact fun c => Or.inl
      have flat' : '/' ∉ Py.replace pair.1 pair.2 netloc := by
        intro member
        rcases chars '/' member with here | here
        · exact flat here
        · exact absurd here (by decide)
      obtain ⟨netloc', chars', passed⟩ := ih flat'
        (fun pair member => shapes pair (List.mem_cons_of_mem _ member))
      refine ⟨netloc', ?_, ?_⟩
      · intro c member
        rcases chars' c member with here | mark
        · exact chars c here
        · exact Or.inr mark
      · have step : Py.replace pair.1 pair.2 (webText scheme (behind netloc k) ['/']) =
            webText scheme (behind (Py.replace pair.1 pair.2 netloc) k) ['/'] := by
          rw [same]
          exact replace_behind web opens once filled
        rw [List.foldl_cons, step, passed]

/-- The slashes behind the scheme are the only ones of such a URL. -/
theorem slashes_once {a t : Str} (colon : ':' ∉ scheme) (flat : '/' ∉ netloc)
    (same : scheme ++ ("://".toList ++ (netloc ++ ['/'])) = a ++ ("://".toList ++ t)) :
    a = scheme := by
  rcases List.append_eq_append_iff.mp same with ⟨m, rfl, tail⟩ | ⟨m, rfl, tail⟩
  · cases m with
    | nil => rw [List.append_nil]
    | cons c m =>
        -- A second pair of slashes would be in the authority.
        have inside : "://".toList <:+: "//".toList ++ (netloc ++ ['/']) :=
          ⟨m, t, by rw [List.append_assoc]; exact (List.cons.inj tail).2.symm⟩
        have within : "://".toList <:+: netloc ++ ['/'] := by
          refine Py.infix_of_append (fun c head => ?_) inside
          obtain rfl : ':' = c := Option.some.inj head
          decide
        have slashes := within.sublist.count_le '/'
        rw [List.count_append, List.count_eq_zero_of_not_mem flat] at slashes
        exact absurd slashes (by decide)
  · cases m with
    | nil => rw [List.append_nil]
    | cons c m =>
        obtain rfl : ':' = c := (List.cons.inj tail).1
        exact absurd (by simp) colon

/-- Refanging leaves such a URL on the host. -/
theorem refang_behind (web : scheme = "http".toList ∨ scheme = "https".toList)
    (flat : '/' ∉ netloc) : ∃ netloc', (∀ c ∈ netloc', c ∈ netloc ∨ c ∈ ".:@".toList) ∧
      refang U (webText scheme (behind netloc k) ['/']) =
        webText scheme (behind netloc' k) ['/'] := by
  obtain ⟨netloc', chars, passed⟩ := markers_behind (k := k) web flat
  refine ⟨netloc', chars, ?_⟩
  have flat' : '/' ∉ behind netloc' k := by
    intro member
    rcases behind_chars member with here | here
    · rcases chars '/' here with here | here
      · exact flat here
      · exact absurd here (by decide)
    · exact absurd here (by decide)
  have colon : ':' ∉ scheme := by
    rcases web with rfl | rfl <;> decide
  rw [refang, passed]
  apply Py.sub_of_none
  intro front rest whole before
  cases found : reHxxp U before rest with
  | none => rfl
  | some result =>
      obtain ⟨text, s, tail, rfl, lowered, _⟩ := @webScheme_match _ _ _ result.2 _ result.1 found
      have first : front ++ text ++ s = scheme := by
        apply slashes_once (t := tail) colon flat'
        rw [webText] at whole
        simpa using whole
      have cross : 'x' ∉ scheme.map Char.toLower := by
        rcases web with rfl | rfl <;> decide
      refine absurd ?_ cross
      rw [← first, List.map_append, List.map_append, lowered]
      exact List.mem_append_left _ (List.mem_append_right _ (by decide))

theorem web_valid (web : scheme = "http".toList ∨ scheme = "https".toList) :
    Urllib.IsScheme scheme := by
  rcases web with rfl | rfl
  · exact ⟨⟨'h', rfl, by decide⟩, Py.forall_mem_of_all (by decide)⟩
  · exact ⟨⟨'h', rfl, by decide⟩, Py.forall_mem_of_all (by decide)⟩

theorem trimmed_web (web : scheme = "http".toList ∨ scheme = "https".toList) {text : Str}
    (last : text.getLast? = some '/') : Py.Trimmed (scheme ++ text) := by
  have first : (scheme ++ text).head? = some 'h' := by
    rcases web with rfl | rfl <;> rfl
  constructor
  · intro c head
    rw [first, Option.some.injEq] at head
    rw [← head]
    decide
  · intro c final
    rw [List.getLast?_append_of_ne_nil _ (by rintro rfl; cases last), last,
      Option.some.injEq] at final
    rw [← final]
    decide

theorem behind_keeps_port : dropDefaultPort scheme (behind netloc k) = behind netloc k := by
  have last : (behind netloc k).getLast? = some 'e' := by
    have whole : behind netloc k =
        (netloc ++ "[]@v1.".toList ++ List.replicate k 'e') ++ ['e'] := by
      rw [List.append_assoc, List.append_assoc, ← List.replicate_succ']
      rfl
    rw [whole, List.getLast?_concat]
  have ends : ∀ port : Str, port.getLast? ≠ some 'e' → port ≠ [] → ¬ port <:+ behind netloc k := by
    intro port other full suffix
    obtain ⟨front, same⟩ := suffix
    rw [← same, List.getLast?_append_of_ne_nil _ full] at last
    exact other last
  rw [dropDefaultPort, if_neg]
  rintro (⟨_, port⟩ | ⟨_, port⟩)
  · exact ends _ (by decide) (by decide) port
  · exact ends _ (by decide) (by decide) port

/-- What holds of every character of a netloc and of every character that is added. -/
theorem behind_forall {P : Char → Prop} {n : Str} (old : ∀ c ∈ n, P c)
    (added : ∀ c ∈ ".:@[]@v1.e".toList, P c) (chars : ∀ c ∈ netloc, c ∈ n ∨ c ∈ ".:@".toList) :
    ∀ c ∈ behind netloc k, P c := by
  intro c member
  rcases behind_chars member with here | here
  · rcases chars c here with here | here
    · exact old c here
    · exact added c (List.mem_append_left "[]@v1.e".toList here)
  · exact added c (List.mem_append_right ".:@".toList here)

/-- A netloc that may begin a longer one in a canonical URL. -/
structure Continuable (U : Unicode) (netloc : Str) : Prop where
  plain : ∀ c ∈ netloc, Urllib.isNetlocEnd c = false
  settled : ∀ c ∈ netloc, Py.Settled U c
  safe : ∀ c ∈ netloc, Urllib.isUnsafe c = false
  normal : Urllib.nfkcOk U netloc = true

theorem Continuable.flat (base : Continuable U netloc) : '/' ∉ netloc :=
  fun member => absurd (base.plain '/' member) (by decide)

theorem behind_safe {n : Str} (base : Continuable U n)
    (chars : ∀ c ∈ netloc, c ∈ n ∨ c ∈ ".:@".toList) :
    ∀ c ∈ behind netloc k ++ ['/'], Urllib.isUnsafe c = false := by
  intro c member
  rcases List.mem_append.mp member with here | here
  · exact behind_forall base.safe (Py.forall_mem_of_all (by decide)) chars c here
  · rw [List.mem_singleton.mp here]
    decide

/-- What the passes of refanging leave of such a URL is read as one on the host. -/
theorem urlparse_behind (delimits : Delimits U)
    (web : scheme = "http".toList ∨ scheme = "https".toList) {n : Str} (base : Continuable U n)
    (chars : ∀ c ∈ netloc, c ∈ n ∨ c ∈ ".:@".toList) :
    ∃ params query fragment, Urllib.urlparse U (webText scheme (behind netloc k) ['/']) =
      some ⟨scheme, behind netloc k, pathOf ['/'], params, query, fragment⟩ :=
  Urllib.urlparse_webText (web_valid web) (web_usesParams web)
    (behind_forall base.plain (Py.forall_mem_of_all (by decide)) chars) (slash_ends rfl)
    (behind_safe base chars) (behind_ok delimits base.normal base.flat chars)

theorem behind_parts (web : scheme = "http".toList ∨ scheme = "https".toList)
    (base : Continuable U netloc) : UrlParts U scheme (behind netloc k) ['/'] [] [] := by
  have same : ∀ c ∈ netloc, c ∈ netloc ∨ c ∈ ".:@".toList := fun c => Or.inl
  have small : ∀ c ∈ ".:@[]@v1.e".toList, Py.isAscii c = true ∧ c.isUpper = false :=
    Py.forall_mem_of_all (by decide)
  refine ⟨web_valid web, Or.inl (by simp [behind]), ?_, behind_forall base.settled ?_ same, rfl,
    ?_, ?_⟩
  · exact behind_forall base.plain (Py.forall_mem_of_all (by decide)) same
  · exact fun c member => Py.settled_ascii (small c member).1 (small c member).2
  · exact ⟨Py.forall_mem_of_all (by decide), nofun, nofun, fun _ => by decide, fun _ => rfl⟩
  · have safe := behind_safe (k := k) base same
    rwa [List.append_nil, List.append_nil]

/-- The tabs hide the markers from the first run. -/
theorem canonicalize_tabbed (delimits : Delimits R.unicode)
    (web : scheme = "http".toList ∨ scheme = "https".toList)
    (base : Continuable R.unicode netloc) :
    canonicalize R .url (tabbedText scheme (behind netloc k ++ ['/'])) =
      .ok (webText scheme (behind netloc k) ['/']) := by
  have same : ∀ c ∈ netloc, c ∈ netloc ∨ c ∈ ".:@".toList := fun c => Or.inl
  have parts := behind_parts (k := k) web base
  have safe := behind_safe (k := k) base same
  have text : Urllib.urlText scheme (behind netloc k) ['/'] [] [] =
      webText scheme (behind netloc k) ['/'] := by
    simp [Urllib.urlText, webText, Urllib.joinPart]
  have cleaned : Urllib.cleaned (tabbedText scheme (behind netloc k ++ ['/'])) =
      Urllib.cleaned (webText scheme (behind netloc k) ['/']) := by
    rw [cleaned_tabbedText parts.valid safe, webText, Urllib.cleaned_authority parts.valid safe]
  have trimmed : Py.strip (tabbedText scheme (behind netloc k ++ ['/'])) =
      tabbedText scheme (behind netloc k ++ ['/']) := by
    apply Py.strip_of_trimmed
    apply trimmed_web web
    rw [tabbed, List.flatMap_append, ← List.cons_append, ← List.cons_append, ← List.cons_append,
      List.getLast?_append_of_ne_nil _ (by decide)]
    rfl
  have parse : Urllib.urlparse R.unicode
      (Py.strip (refang R.unicode (tabbedText scheme (behind netloc k ++ ['/'])))) =
        some ⟨scheme, behind netloc k, ['/'], [], [], []⟩ := by
    rw [(tabbedText_clean web _).refang, trimmed, Urllib.urlparse_congr_cleaned cleaned, ← text,
      Urllib.urlparse_urlText parts.valid parts.netloc_plain rfl parts.tail parts.safe,
      if_pos (behind_ok delimits base.normal base.flat same)]
  have full : tabbedText scheme (behind netloc k ++ ['/']) ≠ [] := by simp [tabbedText]
  simp only [canonicalize, trimmed, if_neg full]
  rw [canonicalUrl_text parse (by simp [behind]) parts, behind_keeps_port, text]

theorem strip_behind (web : scheme = "http".toList ∨ scheme = "https".toList) (n : Str) :
    Py.strip (webText scheme (behind n k) ['/']) = webText scheme (behind n k) ['/'] := by
  apply Py.strip_of_trimmed
  apply trimmed_web web
  rw [← List.cons_append, ← List.cons_append, ← List.cons_append, List.getLast?_concat]

/-- The second run may see markers, but it accepts what it makes of them. -/
theorem canonicalize_behind (delimits : Delimits R.unicode)
    (web : scheme = "http".toList ∨ scheme = "https".toList)
    (base : Continuable R.unicode netloc) :
    ∃ c, canonicalize R .url (webText scheme (behind netloc k) ['/']) = .ok c := by
  obtain ⟨netloc', chars, refanged⟩ := refang_behind (U := R.unicode) (k := k) web base.flat
  obtain ⟨params, query, fragment, parse⟩ := urlparse_behind (k := k) delimits web base chars
  rw [← strip_behind web, ← refanged] at parse
  obtain ⟨c, _, result, _⟩ :=
    canonicalUrl_hosted parse (IsScheme.ne_nil (web_valid web)) (by simp [behind])
  have full : webText scheme (behind netloc k) ['/'] ≠ [] := by simp [webText]
  simp only [canonicalize, strip_behind web, if_neg full]
  exact ⟨c, result⟩

/-- Everything that may begin the netloc of a canonical URL begins one on another host. -/
theorem exists_behind (delimits : Delimits R.unicode)
    (web : scheme = "http".toList ∨ scheme = "https".toList)
    (base : Continuable R.unicode netloc) (k : Nat) :
    ∃ ind, Built R ind ∧ ind.type = .url ∧
      ind.value = webText scheme (behind netloc k) ['/'] := by
  obtain ⟨c, second⟩ := canonicalize_behind (k := k) delimits web base
  exact exists_built_of (canonicalize_tabbed delimits web base) second (strip_behind web netloc)

end spelling

section decision

variable (R) (config : AllowlistConfig)

/-- An entry has the scheme, the host and the port of a URL, and a part of its path. -/
def Agrees (u v : Str) : Prop :=
  ∃ entry url, Urllib.urlparse R.unicode u = some entry ∧ Urllib.urlparse R.unicode v = some url ∧
    entry.scheme = url.scheme ∧
    Urllib.hostname R.unicode entry.netloc = Urllib.hostname R.unicode url.netloc ∧
    Urllib.port entry.netloc = Urllib.port url.netloc ∧ entry.path <+: url.path

/-- Every URL that is dropped agrees with an entry. -/
def HostBound : Prop :=
  ∀ ind, Built R ind → ind.type = .url → Drops R config ind →
    ∃ u ∈ config.urls, Agrees R u ind.value

/-- The entry goes on behind its authority. -/
def Pathed (u : Str) : Prop :=
  ∃ entry, Urllib.urlparse R.unicode u = some entry ∧ entry.path ≠ []

variable {R config}

theorem drops_url_iff {ind : Indicator} (kind : ind.type = .url) :
    Drops R config ind ↔ ∃ u ∈ config.urls, u <+: ind.value := by
  rw [drops_iff]
  simp [allowlisted, kind]

/-- An entry that begins a canonical URL, in the parts of that URL. -/
theorem AbsoluteUrl.begins {u : Str} (absolute : AbsoluteUrl R u) {ind : Indicator}
    (built : Built R ind) (kind : ind.type = .url) (begins : u <+: ind.value) :
    ∃ scheme netloc rest entry more, ind.value = webText scheme netloc rest ∧
      WebParts R.unicode scheme netloc rest ∧
      (scheme = "http".toList ∨ scheme = "https".toList) ∧
      Urllib.urlparse R.unicode u = some entry ∧ entry.scheme = scheme ∧
      Urllib.netlocOk R.unicode entry.netloc = true ∧
      u = webText scheme entry.netloc more ∧ entry.path = pathOf more ∧
      (more = [] ∧ entry.netloc <+: netloc ∨ entry.netloc = netloc ∧ more <+: rest) := by
  obtain ⟨scheme, netloc, rest, value, parts⟩ := built.url kind
  obtain ⟨entry, parse, web, hosted⟩ := absolute
  rw [value] at begins
  obtain ⟨schemeSame, ok, more, text, path, cases⟩ :=
    parts.entry begins parse (IsScheme.ne_nil (web_valid web)) (web_usesParams web) hosted
  rw [schemeSame] at web
  exact ⟨scheme, netloc, rest, entry, more, value, parts, web, parse, schemeSame, ok, text, path,
    cases⟩

/-- An entry with a path agrees with every URL that it begins. -/
theorem AbsoluteUrl.agrees {u : Str} (absolute : AbsoluteUrl R u) (pathed : Pathed R u)
    {ind : Indicator} (built : Built R ind) (kind : ind.type = .url) (begins : u <+: ind.value) :
    Agrees R u ind.value := by
  obtain ⟨scheme, netloc, rest, entry, more, value, parts, web, parse, schemeSame, ok, _, path,
    cases⟩ := absolute.begins built kind begins
  obtain ⟨entry', parse', full⟩ := pathed
  obtain rfl : entry = entry' := by rwa [parse, Option.some.injEq] at parse'
  rcases cases with ⟨rfl, _⟩ | ⟨netlocSame, within⟩
  · exact absurd path full
  · rw [netlocSame] at ok
    obtain ⟨params, query, fragment, url⟩ := Urllib.urlparse_webText parts.valid
      (web_usesParams web) parts.plain (slash_ends parts.slash) parts.safe ok
    rw [← value] at url
    refine ⟨entry, _, parse, url, schemeSame, ?_, ?_, ?_⟩
    · rw [netlocSame]
    · rw [netlocSame]
    · rw [path]
      exact Urllib.pathOf_mono within

/-- An entry without a path that begins some canonical URL begins one on a host of no entry. -/
theorem AbsoluteUrl.crosses {u : Str} (delimits : Delimits R.unicode) (absolute : AbsoluteUrl R u)
    (bare : ¬ Pathed R u) {ind : Indicator} (built : Built R ind) (kind : ind.type = .url)
    (begins : u <+: ind.value) (entries : List Str) :
    ∃ other, Built R other ∧ other.type = .url ∧ u <+: other.value ∧
      ∀ u' ∈ entries, ¬ Agrees R u' other.value := by
  obtain ⟨scheme, netloc, rest, entry, more, _, parts, web, parse, _, ok, text, path, cases⟩ :=
    absolute.begins built kind begins
  have pathless : pathOf more = [] := by
    rw [← path]
    by_contra full
    exact bare ⟨entry, parse, full⟩
  obtain ⟨rfl, within⟩ : more = [] ∧ entry.netloc <+: netloc := by
    rcases cases with short | ⟨same, inside⟩
    · exact short
    · -- What follows the authority starts with a slash, which is a path.
      cases more with
      | nil => exact ⟨rfl, same ▸ List.prefix_rfl⟩
      | cons c more =>
          have slash := parts.slash
          obtain ⟨tail, rfl⟩ := inside
          obtain rfl : c = '/' := Option.some.inj slash
          have longer := @Urllib.pathOf_mono ['/'] ('/' :: more) ⟨more, rfl⟩
          rw [pathless] at longer
          cases List.prefix_nil.mp longer
  have base : Continuable R.unicode entry.netloc := by
    refine ⟨fun c member => parts.plain c (within.subset member),
      fun c member => parts.settled c (within.subset member),
      fun c member => parts.safe c (List.mem_append_left _ (within.subset member)), ?_⟩
    rw [Urllib.netlocOk, Bool.and_eq_true] at ok
    exact ok.2
  obtain ⟨k, unlisted⟩ := exists_unlisted (entries.map fun u =>
    (Urllib.urlparse R.unicode u).bind fun parts => Urllib.hostname R.unicode parts.netloc)
  obtain ⟨other, built, kind, value⟩ := exists_behind delimits web base k
  refine ⟨other, built, kind, ?_, ?_⟩
  · rw [value, text, webText, webText, List.append_nil]
    exact ⟨('[' :: ']' :: '@' :: otherHost k) ++ ['/'], by simp [behind]⟩
  · rintro u' member ⟨entry', url, parse', url', _, host, _⟩
    obtain ⟨params, query, fragment, found⟩ :=
      @urlparse_behind _ _ entry.netloc k delimits web _ base fun c => Or.inl
    rw [← value, url', Option.some.injEq] at found
    rw [found, behind_hostname] at host
    exact unlisted (List.mem_map.mpr ⟨u', member, by rw [parse', Option.bind_some, host]⟩)

/-- No URL on another host is dropped exactly if each entry has a path, or begins no canonical
URL at all. -/
theorem allowlist_hosts_iff (delimits : Delimits R.unicode)
    (absolute : ∀ u ∈ config.urls, AbsoluteUrl R u) :
    HostBound R config ↔ ∀ u ∈ config.urls, Pathed R u ∨
      ∀ ind, Built R ind → ind.type = .url → ¬ u <+: ind.value := by
  constructor
  · intro bound u member
    by_cases pathed : Pathed R u
    · exact Or.inl pathed
    · refine Or.inr fun ind built kind begins => ?_
      obtain ⟨other, built', kind', begins', apart⟩ :=
        (absolute u member).crosses delimits pathed built kind begins config.urls
      obtain ⟨u', member', agrees⟩ :=
        bound other built' kind' ((drops_url_iff kind').mpr ⟨u, member, begins'⟩)
      exact apart u' member' agrees
  · intro entries ind built kind dropped
    obtain ⟨u, member, begins⟩ := (drops_url_iff kind).mp dropped
    rcases entries u member with pathed | none
    · exact ⟨u, member, (absolute u member).agrees pathed built kind begins⟩
    · exact absurd begins (none ind built kind)

end decision

theorem ascii_delimits : Delimits asciiRuntime.unicode := by
  refine ⟨fun c _ => rfl, fun s d _ => ?_⟩
  show d ∈ s ↔ ∃ c ∈ s, d ∈ [c]
  simp

/-- An allowlist of one URL. -/
def oneUrl (u : Str) : AllowlistConfig := ⟨true, [], [], [u]⟩

/-- Reading a URL on the host, whose path is nothing or the root. -/
theorem good_entry {rest : Str} (short : rest = [] ∨ rest = ['/']) :
    ∃ params query fragment, Urllib.urlparse asciiRuntime.unicode
        (webText "https".toList "good.com".toList rest) =
      some ⟨"https".toList, "good.com".toList, pathOf rest, params, query, fragment⟩ := by
  refine Urllib.urlparse_webText (web_valid (Or.inr rfl)) (by decide)
    (Py.forall_mem_of_all (by decide)) ?_ ?_ (by decide)
  · rcases short with rfl | rfl
    · exact nofun
    · exact slash_ends rfl
  · rcases short with rfl | rfl
    · exact Py.forall_mem_of_all (by decide)
    · exact Py.forall_mem_of_all (by decide)

theorem good_absolute {rest : Str} (short : rest = [] ∨ rest = ['/']) :
    ∀ u ∈ (oneUrl (webText "https".toList "good.com".toList rest)).urls,
      AbsoluteUrl asciiRuntime u := by
  intro u member
  obtain ⟨params, query, fragment, parse⟩ := good_entry short
  rw [List.mem_singleton.mp member]
  exact ⟨_, parse, Or.inr rfl, show "good.com".toList ≠ [] by decide⟩

theorem allowlist_hosts_iff_slash :
    HostBound asciiRuntime (oneUrl "https://good.com/".toList) := by
  refine (allowlist_hosts_iff ascii_delimits (good_absolute (Or.inr rfl))).mpr ?_
  intro u member
  obtain ⟨params, query, fragment, parse⟩ := good_entry (Or.inr rfl)
  rw [List.mem_singleton.mp member]
  exact Or.inl ⟨_, parse, show pathOf ['/'] ≠ [] by decide⟩

/-- Without the slash, the entry begins the URLs of every host that its own begins. -/
theorem allowlist_crosses_hosts :
    (∀ u ∈ (oneUrl "https://good.com".toList).urls, AbsoluteUrl asciiRuntime u) ∧
      ∃ ind, Built asciiRuntime ind ∧ ind.type = .url ∧
        ind.value = "https://good.com.evil.net/".toList ∧
        Drops asciiRuntime (oneUrl "https://good.com".toList) ind ∧
        ∀ u ∈ (oneUrl "https://good.com".toList).urls, ¬ Agrees asciiRuntime u ind.value := by
  let evil : Str := "good.com.evil.net".toList
  have parts : UrlParts asciiRuntime.unicode "https".toList evil ['/'] [] [] := by
    refine ⟨web_valid (Or.inr rfl), Or.inl (by decide), Py.forall_mem_of_all (by decide), ?_, rfl,
      ?_, Py.forall_mem_of_all (by decide)⟩
    · have small : ∀ c ∈ evil, Py.isAscii c = true ∧ c.isUpper = false :=
        Py.forall_mem_of_all (by decide)
      exact fun c member => Py.settled_ascii (small c member).1 (small c member).2
    · exact ⟨Py.forall_mem_of_all (by decide), nofun, nofun, fun _ => by decide, fun _ => rfl⟩
  have url : Urllib.urlparse asciiRuntime.unicode "https://good.com.evil.net/".toList =
      some ⟨"https".toList, evil, ['/'], [], [], []⟩ := by
    have read := Urllib.urlparse_urlText (U := asciiRuntime.unicode) parts.valid parts.netloc_plain
      parts.slash parts.tail parts.safe
    rwa [if_pos (by decide)] at read
  have clean : refang asciiRuntime.unicode "https://good.com.evil.net/".toList =
      "https://good.com.evil.net/".toList :=
    (clean_of_absent (by decide) (by decide) (by decide)).refang
  have trimmed : Py.strip "https://good.com.evil.net/".toList =
      "https://good.com.evil.net/".toList := by decide
  have fixed : canonicalize asciiRuntime .url "https://good.com.evil.net/".toList =
      .ok "https://good.com.evil.net/".toList := by
    have full : "https://good.com.evil.net/".toList ≠ [] := by decide
    have result := canonicalUrl_text (R := asciiRuntime) (v := "https://good.com.evil.net/".toList)
      (by rw [clean, trimmed, url]) (by decide) parts
    simp only [canonicalize, trimmed, if_neg full]
    rw [result, show dropDefaultPort "https".toList evil = evil by decide]
    rfl
  obtain ⟨ind, built, kind, value⟩ := exists_built fixed trimmed
  obtain ⟨params, query, fragment, entry⟩ := good_entry (Or.inl rfl)
  refine ⟨good_absolute (Or.inl rfl), ind, built, kind, value, ?_, ?_⟩
  · rw [drops_url_iff kind, value]
    exact ⟨_, List.mem_cons_self, by decide⟩
  · rintro u member ⟨entry', url', parse, parse', _, host, _⟩
    rw [List.mem_singleton.mp member] at parse
    rw [value, url, Option.some.injEq] at parse'
    have same := entry.symm.trans parse
    rw [Option.some.injEq] at same
    rw [← same, ← parse'] at host
    exact absurd host (show ¬ Urllib.hostname asciiRuntime.unicode "good.com".toList =
      Urllib.hostname asciiRuntime.unicode evil by decide)

end Cti
