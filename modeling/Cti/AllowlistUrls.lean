import Cti.AllowlistForms
import Cti.Defanged
import Cti.Passes

set_option autoImplicit false

/- Hosts of the URLs that the allowlist drops. -/
namespace Py

theorem cut_mono {stop : Char → Bool} {s t : Str} (begins : s <+: t) :
    (cut stop s).1 <+: (cut stop t).1 := by
  obtain ⟨more, rfl⟩ := begins
  have whole := cut_fst_append_snd stop s
  cases rest : (cut stop s).2 with
  | nil =>
      rw [rest, List.append_nil] at whole
      have plain := @cut_before stop s
      rw [whole] at plain
      have cuts := cut_fst_append_snd stop more
      have same : cut stop (s ++ more) = (s ++ (cut stop more).1, (cut stop more).2) := by
        conv_lhs => rw [← cuts, ← List.append_assoc]
        refine cut_append ?_ fun c head => cut_after head
        intro c member
        rcases List.mem_append.mp member with early | late
        · exact plain c early
        · exact cut_before c late
      rw [whole, same]
      exact List.prefix_append _ _
  | cons c tail =>
      have head : (cut stop s).2.head? = some c := by rw [rest]; rfl
      have same : cut stop (s ++ more) = ((cut stop s).1, (cut stop s).2 ++ more) := by
        conv_lhs => rw [← whole, List.append_assoc]
        refine cut_append cut_before fun d first => ?_
        rw [rest, List.cons_append, List.head?_cons, ← List.head?_cons, ← rest] at first
        exact cut_after first
      rw [same]

end Py

namespace Urllib

open Py (Str Unicode cut rcut)

variable {U : Unicode}

/-- What the `port` of a netloc is read from: what stands behind the colon of the host. -/
def port (netloc : Str) : Option Str :=
  let hostinfo := (rcut (· == '@') netloc).2
  let port := match cut (· == '[') hostinfo with
    | (_, _ :: bracketed) => (cut (· == ':') (cut (· == ']') bracketed).2.tail).2.tail
    | (_, []) => (cut (· == ':') hostinfo).2.tail
  if port = [] then none else some port

/-- A longer path keeps the shorter one, without its parameters. -/
theorem splitParams_mono {p q : Str} (begins : p <+: q) :
    (splitParams p).1 <+: (splitParams q).1 := by
  obtain ⟨more, rfl⟩ := begins
  have last := @Py.rcut_after (· == '/') more
  have split := Py.rcut_fst_append_snd (· == '/') more
  by_cases flat : (rcut (· == '/') more).1 = []
  · -- The last segment grows.
    rw [flat, List.nil_append] at split
    rw [split] at last
    have whole := Py.rcut_fst_append_snd (· == '/') p
    have same : rcut (· == '/') (p ++ more) =
        ((rcut (· == '/') p).1, (rcut (· == '/') p).2 ++ more) := by
      conv_lhs => rw [← whole, List.append_assoc]
      refine Py.rcut_append (fun c final => @Py.rcut_before (· == '/') p c final) ?_
      intro c member
      rcases List.mem_append.mp member with early | late
      · exact Py.rcut_after c early
      · exact last c late
    rw [splitParams, splitParams, same]
    exact (List.prefix_append_right_inj _).mpr (Py.cut_mono (List.prefix_append _ _))
  · -- A new segment begins.
    have same : rcut (· == '/') (p ++ more) =
        (p ++ (rcut (· == '/') more).1, (rcut (· == '/') more).2) := by
      conv_lhs => rw [← split, ← List.append_assoc]
      refine Py.rcut_append ?_ last
      intro c final
      rw [List.getLast?_append_of_ne_nil _ flat] at final
      exact @Py.rcut_before (· == '/') more c final
    refine (splitParams_initial p).trans ?_
    rw [splitParams, same]
    exact (List.prefix_append p _).trans (List.prefix_append _ _)

/-- The path of what follows the authority of a web URL. -/
def pathOf (rest : Str) : Str := (splitParams (cut (· == '?') (cut (· == '#') rest).1).1).1

theorem pathOf_mono {rest rest' : Str} (begins : rest <+: rest') : pathOf rest <+: pathOf rest' :=
  splitParams_mono (Py.cut_mono (Py.cut_mono begins))

/-- A URL from its scheme, its authority and the rest. -/
def webText (scheme netloc rest : Str) : Str := scheme ++ ':' :: '/' :: '/' :: (netloc ++ rest)

/-- Reading depends on the cleaned text only. -/
theorem urlparse_congr_cleaned {url url' : Str} (same : cleaned url = cleaned url') :
    urlparse U url = urlparse U url' := by
  have split : urlsplit U url = urlsplit U url' := by
    unfold cleaned at same
    rw [urlsplit, urlsplit, same]
  rw [urlparse, urlparse, split]

/-- What begins a clean text is clean. -/
theorem cleaned_prefix {url front : Str} (clean : cleaned url = url) (begins : front <+: url) :
    cleaned front = front := by
  have stripped : Py.lstrip isControlOrSpace url = url := by
    apply (Py.lstrip_sublist _ url).eq_of_length_le
    have shorter := List.length_filter_le (fun c => !isUnsafe c) (Py.lstrip isControlOrSpace url)
    have same := congrArg List.length clean
    rw [cleaned] at same
    omega
  have first : Py.lstrip isControlOrSpace front = front := by
    obtain ⟨tail, rfl⟩ := begins
    cases front with
    | nil => rfl
    | cons c rest =>
        by_cases control : isControlOrSpace c = true
        · have shorter := (Py.lstrip_sublist isControlOrSpace (rest ++ tail)).length_le
          have same := congrArg List.length stripped
          rw [List.cons_append, Py.lstrip, List.dropWhile_cons_of_pos control, ← Py.lstrip,
            List.length_cons] at same
          omega
        · exact List.dropWhile_cons_of_neg control
  rw [cleaned, first, List.filter_eq_self]
  intro c member
  have safe := cleaned_safe url c
  rw [clean] at safe
  rw [safe (begins.subset member)]
  rfl

/-- Of two URLs that begin alike one ends within the authority of the other, or they have one
authority. -/
theorem authority_cases {netloc rest netloc' rest' tail : Str}
    (plain : ∀ c ∈ netloc, isNetlocEnd c = false)
    (ends : ∀ c, rest.head? = some c → isNetlocEnd c = true)
    (plain' : ∀ c ∈ netloc', isNetlocEnd c = false)
    (ends' : ∀ c, rest'.head? = some c → isNetlocEnd c = true)
    (same : netloc' ++ (rest' ++ tail) = netloc ++ rest) :
    rest' = [] ∧ netloc' <+: netloc ∨ netloc' = netloc ∧ rest' <+: rest := by
  have first : cut isNetlocEnd (netloc ++ rest) = (netloc, rest) := Py.cut_append plain ends
  cases rest' with
  | nil =>
      have whole := Py.cut_append (t := []) plain' fun c head => by cases head
      rw [List.append_nil] at whole
      have begins := @Py.cut_mono isNetlocEnd netloc' (netloc ++ rest) ⟨tail, same⟩
      rw [first, whole] at begins
      exact Or.inl ⟨rfl, begins⟩
  | cons c rest' =>
      have second : cut isNetlocEnd (netloc' ++ (c :: rest' ++ tail)) =
          (netloc', c :: rest' ++ tail) := Py.cut_append plain' ends'
      rw [same, first, Prod.mk.injEq] at second
      obtain ⟨rfl, rfl⟩ := second
      exact Or.inr ⟨rfl, List.prefix_append _ tail⟩

/-- Reading such a URL. -/
theorem urlparse_webText {scheme netloc rest : Str} (valid : IsScheme scheme)
    (uses : scheme ∈ usesParams) (plain : ∀ c ∈ netloc, isNetlocEnd c = false)
    (ends : ∀ c, rest.head? = some c → isNetlocEnd c = true)
    (safe : ∀ c ∈ netloc ++ rest, isUnsafe c = false) (ok : netlocOk U netloc = true) :
    ∃ params query fragment, urlparse U (webText scheme netloc rest) =
      some ⟨scheme, netloc, pathOf rest, params, query, fragment⟩ := by
  have clean : cleaned (webText scheme netloc rest) = webText scheme netloc rest :=
    cleaned_authority valid safe
  unfold cleaned at clean
  have authority : splitNetloc ('/' :: '/' :: (netloc ++ rest)) = (netloc, rest) :=
    Py.cut_append plain ends
  have split : urlsplit U (webText scheme netloc rest) =
      some ⟨scheme, netloc, (cut (· == '?') (cut (· == '#') rest).1).1,
        (cut (· == '?') (cut (· == '#') rest).1).2.tail, (cut (· == '#') rest).2.tail⟩ := by
    rw [urlsplit, clean, webText, splitScheme_append valid]
    simp only [authority, ok, if_true]
  rw [urlparse, split]
  by_cases marked : ';' ∈ (cut (· == '?') (cut (· == '#') rest).1).1
  · simp only [Option.bind_eq_bind, Option.bind_some, uses, marked, and_self, if_true]
    exact ⟨_, _, _, rfl⟩
  · simp only [Option.bind_eq_bind, Option.bind_some, marked, and_false, if_false]
    rw [pathOf, splitParams_plain marked]
    exact ⟨_, _, _, rfl⟩

end Urllib

namespace Cti

open Py (Str Unicode)
open Urllib (webText pathOf)

variable {R : Runtime}

section prefixes

/-- The text is a web URL with an authority. -/
def AbsoluteUrl (R : Runtime) (u : Str) : Prop :=
  ∃ parts, Urllib.urlparse R.unicode u = some parts ∧
    (parts.scheme = "http".toList ∨ parts.scheme = "https".toList) ∧ parts.netloc ≠ []

theorem web_usesParams {scheme : Str} (web : scheme = "http".toList ∨ scheme = "https".toList) :
    scheme ∈ Urllib.usesParams := by
  rcases web with rfl | rfl <;> decide

/-- A text from its parts, as the values of URL indicators are. -/
structure WebParts (U : Unicode) (scheme netloc rest : Str) : Prop where
  valid : Urllib.IsScheme scheme
  plain : ∀ c ∈ netloc, Urllib.isNetlocEnd c = false
  settled : ∀ c ∈ netloc, Py.Settled U c
  slash : rest.head? = some '/'
  safe : ∀ c ∈ netloc ++ rest, Urllib.isUnsafe c = false

theorem slash_ends {rest : Str} (slash : rest.head? = some '/') :
    ∀ c, rest.head? = some c → Urllib.isNetlocEnd c = true := by
  intro c head
  rw [slash, Option.some.injEq] at head
  rw [← head]
  rfl

/-- The value of a URL indicator, in parts. -/
theorem Built.url {ind : Indicator} (built : Built R ind) (kind : ind.type = .url) :
    ∃ scheme netloc rest, ind.value = webText scheme netloc rest ∧
      WebParts R.unicode scheme netloc rest := by
  obtain ⟨t, v, fields, built⟩ := built
  obtain ⟨c, _, first, _, rfl, value, _⟩ := Indicator.build_eq built
  rw [kind] at first
  by_cases empty : Py.strip v = []
  · simp [canonicalize, empty] at first
  simp only [canonicalize, if_neg empty] at first
  obtain ⟨parsed, _, schemed, hosted, facts, same⟩ := canonicalUrl_eq first
  have parts := canonicalUrl_parts facts hosted
  generalize dropDefaultPort parsed.scheme (Py.lower R.unicode parsed.netloc) = netloc at same parts
  obtain ⟨tail, path⟩ : ∃ tail, pathOrSlash parsed.path = '/' :: tail := by
    have slash := parts.slash
    cases full : pathOrSlash parsed.path with
    | nil =>
        rw [full] at slash
        cases slash
    | cons e tail =>
        rw [full, List.head?_cons, Option.some.injEq] at slash
        exact ⟨tail, by rw [slash]⟩
  let rest := (tail ++ Urllib.joinPart ';' parsed.params) ++ Urllib.joinPart '?' parsed.query
  have text : c = (parsed.scheme ++ ':' :: '/' :: '/' :: netloc) ++ '/' :: rest := by
    rw [same, Urllib.urlText, path]
    simp [rest]
  have head : Py.lstrip Py.isSpace (parsed.scheme ++ ':' :: '/' :: '/' :: netloc) =
      parsed.scheme ++ ':' :: '/' :: '/' :: netloc := by
    apply Py.lstrip_eq_self
    intro e first
    obtain ⟨d, head, alpha⟩ := parts.valid.1
    rw [List.head?_append, head] at first
    simp only [Option.some_or, Option.some.injEq] at first
    rw [← first]
    exact alnum_not_space (by simp [Char.isAlphanum, alpha])
  refine ⟨parsed.scheme, netloc, '/' :: Py.rstrip Py.isSpace rest, ?_, parts.valid,
    parts.netloc_plain, parts.netloc_settled, rfl, ?_⟩
  · rw [value, text, Py.strip_append_cons (by decide), head, webText]
    simp
  · intro e member
    have safe := parts.safe
    rw [path] at safe
    have inside : e ∈ netloc ++ '/' :: rest := by
      rcases List.mem_append.mp member with here | here
      · exact List.mem_append_left _ here
      · refine List.mem_append_right _ ?_
        rcases List.mem_cons.mp here with rfl | here
        · exact List.mem_cons_self
        · exact List.mem_cons_of_mem _ ((Py.rstrip_initial _ _).subset here)
    simp only [rest, List.mem_append, List.mem_cons] at inside
    rcases inside with here | rfl | (here | here) | here
    · exact safe e (by simp [here])
    · decide
    · exact safe e (by simp [here])
    · rcases Urllib.mem_joinPart here with rfl | here
      · decide
      · exact safe e (by simp [here])
    · rcases Urllib.mem_joinPart here with rfl | here
      · decide
      · exact safe e (by simp [here])

/-- A web URL that such a text starts with, in parts: it ends within the authority, or it has the
whole authority and some of what follows. -/
theorem WebParts.entry {scheme netloc rest u : Str} (parts : WebParts R.unicode scheme netloc rest)
    (begins : u <+: webText scheme netloc rest) {entry : Urllib.ParseResult}
    (parse : Urllib.urlparse R.unicode u = some entry) (schemed : entry.scheme ≠ [])
    (uses : entry.scheme ∈ Urllib.usesParams) (hosted : entry.netloc ≠ []) :
    entry.scheme = scheme ∧ Urllib.netlocOk R.unicode entry.netloc = true ∧
      ∃ more, u = webText scheme entry.netloc more ∧ entry.path = pathOf more ∧
        (more = [] ∧ entry.netloc <+: netloc ∨ entry.netloc = netloc ∧ more <+: rest) := by
  have facts := Urllib.urlparse_parsed parse schemed hosted
  obtain ⟨split, pieces, same⟩ : ∃ split, Urllib.urlsplit R.unicode u = some split ∧
      split.scheme = entry.scheme ∧ split.netloc = entry.netloc := by
    simp only [Urllib.urlparse, Option.bind_eq_bind, Option.bind_eq_some_iff, Option.pure_def,
      Option.some.injEq] at parse
    obtain ⟨split, pieces, rfl⟩ := parse
    exact ⟨split, pieces, rfl, rfl⟩
  obtain ⟨schemeSame, netlocSame⟩ := same
  obtain ⟨ok, raw, more, query, fragment, cleaned, lowered, valid, plain, ends, _⟩ :=
    Urllib.urlsplit_pieces pieces (by rwa [schemeSame]) (by rwa [netlocSame])
  rw [netlocSame] at ok cleaned plain
  rw [schemeSame] at lowered valid
  have clean : Urllib.cleaned u = u :=
    Urllib.cleaned_prefix (Urllib.cleaned_authority parts.valid parts.safe) begins
  rw [clean] at cleaned
  obtain ⟨tail, whole⟩ := begins
  have colon : ∀ {scheme : Str}, Urllib.IsScheme scheme → ':' ∉ scheme := by
    intro scheme valid member
    have plain := (Urllib.schemeChar_plain (valid.2 ':' member).1).1
    cases plain
  have rawColon : ':' ∉ raw := by
    intro member
    apply colon valid
    rw [lowered]
    exact Py.mem_lower (by decide) (by decide) member
  rw [cleaned, webText, List.append_assoc, List.cons_append] at whole
  have behind := append_colon_inj rawColon (colon parts.valid) whole
  rw [behind] at whole
  obtain rfl : raw = scheme := List.append_cancel_right whole
  have schemeEq : entry.scheme = raw := by rw [lowered, parts.valid.lower_eq]
  simp only [List.cons_append, List.cons.injEq, true_and, List.append_assoc] at behind
  have text : u = webText raw entry.netloc more := cleaned
  have cases := Urllib.authority_cases parts.plain (slash_ends parts.slash) plain ends behind
  refine ⟨schemeEq, ok, more, text, ?_, cases⟩
  have safe : ∀ c ∈ entry.netloc ++ more, Urllib.isUnsafe c = false := by
    intro c member
    refine parts.safe c ?_
    rw [← behind, ← List.append_assoc]
    exact List.mem_append_left _ member
  obtain ⟨params, query, fragment, again⟩ :=
    Urllib.urlparse_webText (U := R.unicode) parts.valid (schemeEq ▸ uses) plain ends safe ok
  rw [← text, parse, Option.some.injEq] at again
  rw [again]

end prefixes

end Cti
