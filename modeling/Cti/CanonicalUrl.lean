import Cti.Refang

set_option autoImplicit false

namespace Cti

open Py (Str Unicode total)

variable {R : Runtime}

theorem lower_ne_nil {U : Unicode} {s : Str} (nonempty : s ≠ []) : Py.lower U s ≠ [] := by
  obtain ⟨c, rest, rfl⟩ := List.exists_cons_of_ne_nil nonempty
  rw [Py.lower, Py.lowerFrom]
  exact List.append_ne_nil_of_left_ne_nil (Py.lowerAt_nonempty _ _ _) _

theorem dropDefaultPort_initial (scheme netloc : Str) : dropDefaultPort scheme netloc <+: netloc := by
  unfold dropDefaultPort
  split
  · split
    · rename_i host port split
      rw [(Py.rpartition_eq split).1]
      exact List.prefix_append _ _
    · exact List.prefix_refl _
  · exact List.prefix_refl _

/-- Only schemes with an authority have a default port. -/
theorem dropDefaultPort_cases (scheme netloc : Str) :
    dropDefaultPort scheme netloc = netloc ∨ scheme ∈ Urllib.usesNetloc := by
  unfold dropDefaultPort
  split
  · rename_i default
    refine Or.inr ?_
    rcases default with ⟨rfl, _⟩ | ⟨rfl, _⟩ <;> decide
  · exact Or.inl rfl

/-- The path that a canonical URL has. -/
def pathOrSlash (path : Str) : Str := if path = [] then ['/'] else path

/-- A URL whose parts, put together again with one default port dropped, have a valid
authority without a further default port, no defang pattern and no space at the end. -/
def UrlStable (U : Unicode) (value : Str) : Prop :=
  ∀ parsed, Urllib.urlparse U (Py.strip (refang U value)) = some parsed →
    parsed.scheme ≠ [] → parsed.netloc ≠ [] →
    let netloc := dropDefaultPort parsed.scheme (Py.lower U parsed.netloc)
    let text := Urllib.urlText parsed.scheme netloc (pathOrSlash parsed.path) parsed.params
      parsed.query
    netloc ≠ [] ∧ Urllib.netlocOk U netloc = true ∧ dropDefaultPort parsed.scheme netloc = netloc ∧
      refang U text = text ∧ Py.strip text = text

/-- The parts of a canonical URL. -/
structure UrlParts (U : Unicode) (scheme netloc path params query : Str) : Prop where
  valid : Urllib.IsScheme scheme
  hosted : netloc ≠ [] ∨ scheme ∈ Urllib.usesNetloc
  netloc_plain : ∀ c ∈ netloc, Urllib.isNetlocEnd c = false
  netloc_settled : ∀ c ∈ netloc, Py.Settled U c
  slash : path.head? = some '/'
  tail : Urllib.Tail scheme path params query
  safe : ∀ c ∈ netloc ++ path ++ params ++ query, Urllib.isUnsafe c = false

theorem IsScheme.ne_nil {scheme : Str} (valid : Urllib.IsScheme scheme) : scheme ≠ [] := by
  rintro rfl
  obtain ⟨c, head, _⟩ := valid.1
  cases head

theorem netlocEnd_symbol {c : Char} (ends : Urllib.isNetlocEnd c = true) :
    Py.isAscii c = true ∧ c.isAlpha = false := by
  simp only [Urllib.isNetlocEnd, Bool.or_eq_true, beq_iff_eq] at ends
  rcases ends with (rfl | rfl) | rfl <;> decide

theorem unsafe_symbol {c : Char} (ends : Urllib.isUnsafe c = true) :
    Py.isAscii c = true ∧ c.isAlpha = false := by
  simp only [Urllib.isUnsafe, Bool.or_eq_true, beq_iff_eq] at ends
  rcases ends with (rfl | rfl) | rfl <;> decide

theorem canonicalUrl_parts {U : Unicode} {parsed : Urllib.ParseResult} (facts : parsed.Parsed U)
    (hosted : parsed.netloc ≠ []) :
    UrlParts U parsed.scheme (dropDefaultPort parsed.scheme (Py.lower U parsed.netloc))
      (pathOrSlash parsed.path) parsed.params parsed.query := by
  have inside : ∀ c ∈ dropDefaultPort parsed.scheme (Py.lower U parsed.netloc),
      c ∈ Py.lower U parsed.netloc :=
    fun c member => (dropDefaultPort_initial _ _).subset member
  refine ⟨facts.scheme, ?_, ?_, fun c member => Py.settled_lower c (inside c member), ?_, ?_, ?_⟩
  · rcases dropDefaultPort_cases parsed.scheme (Py.lower U parsed.netloc) with same | uses
    · rw [same]
      exact Or.inl (lower_ne_nil hosted)
    · exact Or.inr uses
  · intro c member
    by_contra ends
    rw [Bool.not_eq_false] at ends
    have symbol := netlocEnd_symbol ends
    have original := Py.mem_of_mem_lower symbol.1 symbol.2 (inside c member)
    rw [facts.netloc_plain c original] at ends
    cases ends
  · unfold pathOrSlash
    rcases facts.path with ⟨empty, _⟩ | slash
    · rw [if_pos empty]
      rfl
    · rw [if_neg (by rintro none; rw [none] at slash; cases slash)]
      exact slash
  · unfold pathOrSlash
    rcases facts.path with ⟨empty, none⟩ | slash
    · rw [if_pos empty, none]
      refine ⟨by simp, nofun, facts.tail.query_plain, fun _ => ?_, fun _ => rfl⟩
      exact Urllib.splitParams_plain (by decide)
    · rw [if_neg (by rintro none; rw [none] at slash; cases slash)]
      exact facts.tail
  · intro c member
    by_contra bad
    rw [Bool.not_eq_false] at bad
    have symbol := unsafe_symbol bad
    have original : c ∈ parsed.netloc ++ parsed.path ++ parsed.params ++ parsed.query ∨ c = '/' := by
      simp only [List.mem_append] at member ⊢
      rcases member with ((here | here) | here) | here
      · exact Or.inl (Or.inl (Or.inl (Or.inl (Py.mem_of_mem_lower symbol.1 symbol.2
          (inside c here)))))
      · unfold pathOrSlash at here
        split at here
        · exact Or.inr (by simpa using here)
        · exact Or.inl (Or.inl (Or.inl (Or.inr here)))
      · exact Or.inl (Or.inl (Or.inr here))
      · exact Or.inl (Or.inr here)
    rcases original with original | rfl
    · rw [facts.safe c original] at bad
      cases bad
    · cases bad

/-- What canonicalizing a URL yields. -/
theorem canonicalUrl_eq {v c : Str} (result : canonicalUrl R v = .ok c) :
    ∃ parsed, Urllib.urlparse R.unicode (Py.strip (refang R.unicode v)) = some parsed ∧
      parsed.scheme ≠ [] ∧ parsed.netloc ≠ [] ∧ parsed.Parsed R.unicode ∧
      c = Urllib.urlText parsed.scheme
        (dropDefaultPort parsed.scheme (Py.lower R.unicode parsed.netloc))
        (pathOrSlash parsed.path) parsed.params parsed.query := by
  unfold canonicalUrl at result
  split at result
  · cases result
  · rename_i parsed parse
    split at result
    · cases result
    · rename_i complete
      rw [not_or] at complete
      have facts := Urllib.urlparse_parsed parse complete.1 complete.2
      have parts := canonicalUrl_parts facts complete.2
      refine ⟨parsed, parse, complete.1, complete.2, facts, ?_⟩
      rw [← Urllib.urlunparse_eq_text complete.1 parts.hosted parts.slash]
      simp only [facts.scheme.lower_eq, Except.ok.injEq] at result
      exact result.symm

/-- A URL that parses into these parts canonicalizes to itself, or is too short. -/
theorem canonicalUrl_text {v scheme netloc path params query : Str}
    (parse : Urllib.urlparse R.unicode (Py.strip (refang R.unicode v)) =
      some ⟨scheme, netloc, path, params, query, []⟩) (hosted : netloc ≠ [])
    (parts : UrlParts R.unicode scheme netloc path params query) :
    canonicalUrl R v =
      .ok (Urllib.urlText scheme (dropDefaultPort scheme netloc) path params query) := by
  have schemed := IsScheme.ne_nil parts.valid
  have full : path ≠ [] := by
    rintro rfl
    cases parts.slash
  have kept : dropDefaultPort scheme netloc ≠ [] ∨ scheme ∈ Urllib.usesNetloc := by
    rcases dropDefaultPort_cases scheme netloc with same | uses
    · rw [same]
      exact Or.inl hosted
    · exact Or.inr uses
  rw [canonicalUrl, parse]
  simp only [schemed, hosted, or_self, if_false, parts.valid.lower_eq,
    Py.lower_eq_self parts.netloc_settled, full]
  rw [Urllib.urlunparse_eq_text schemed kept parts.slash]

theorem total_joinPart {w : Char → Nat} {delimiter : Char} (light : w delimiter = 0) (part : Str) :
    total w (Urllib.joinPart delimiter part) = total w part := by
  unfold Urllib.joinPart
  split
  · rename_i empty
    rw [empty]
  · rw [Py.total_cons, light, Nat.zero_add]

/-- A canonical URL weighs no more than the text it was made from. -/
theorem canonicalUrl_total {v c : Str} (result : canonicalUrl R v = .ok c) :
    total defangWeight c ≤ total defangWeight (Py.strip (refang R.unicode v)) := by
  obtain ⟨parsed, parse, schemed, hosted, facts, rfl⟩ := canonicalUrl_eq result
  have lowers := lowers_defangWeight R.unicode
  have whole := Urllib.urlparse_total lowers parse schemed hosted
  have netloc := Py.total_sublist defangWeight
    (dropDefaultPort_initial parsed.scheme (Py.lower R.unicode parsed.netloc)).sublist
  have lowered := Py.total_lower lowers parsed.netloc
  have path : total defangWeight (pathOrSlash parsed.path) = total defangWeight parsed.path := by
    unfold pathOrSlash
    split
    · rename_i empty
      rw [empty]
      decide
    · rfl
  have colon : defangWeight ':' = 0 := by decide
  have slash : defangWeight '/' = 0 := by decide
  simp only [Urllib.urlText, Py.total_append, Py.total_cons, colon, slash, path,
    @total_joinPart defangWeight ';' (by decide), @total_joinPart defangWeight '?' (by decide)]
  omega

/-- Stripping either changes nothing or makes the text lighter. -/
theorem strip_shrinks (s : Str) :
    Py.strip s = s ∨ total defangWeight (Py.strip s) < total defangWeight s := by
  have heavy : ∀ c, Py.isSpace c = true → defangWeight c = 1 := by
    intro c space
    rw [defangWeight, if_pos (Or.inl space)]
  have left : ∀ s : Str, Py.lstrip Py.isSpace s = s ∨
      total defangWeight (Py.lstrip Py.isSpace s) < total defangWeight s := by
    intro s
    cases s with
    | nil => exact Or.inl rfl
    | cons c rest =>
        cases space : Py.isSpace c with
        | false => exact Or.inl (Py.lstrip_eq_self (by simpa using space))
        | true =>
            refine Or.inr ?_
            have tail := Py.total_sublist defangWeight (Py.lstrip_sublist Py.isSpace rest)
            have same : Py.lstrip Py.isSpace (c :: rest) = Py.lstrip Py.isSpace rest := by
              simp [Py.lstrip, space]
            rw [same, Py.total_cons, heavy c space]
            omega
  have right : ∀ s : Str, Py.rstrip Py.isSpace s = s ∨
      total defangWeight (Py.rstrip Py.isSpace s) < total defangWeight s := by
    intro s
    rcases List.eq_nil_or_concat s with rfl | ⟨init, c, rfl⟩
    · exact Or.inl rfl
    · rw [List.concat_eq_append]
      cases space : Py.isSpace c with
      | false =>
          refine Or.inl (Py.rstrip_eq_self ?_)
          intro d last
          rw [List.getLast?_concat, Option.some.injEq] at last
          rw [← last, space]
      | true =>
          refine Or.inr ?_
          have tail := Py.total_sublist defangWeight (Py.rstrip_initial Py.isSpace init).sublist
          have same : Py.rstrip Py.isSpace (init ++ [c]) = Py.rstrip Py.isSpace init :=
            List.rdropWhile_concat_pos Py.isSpace init c space
          rw [same, Py.total_append, Py.total_cons, heavy c space]
          omega
  unfold Py.strip
  rcases left s with same | lighter
  · rw [same]
    exact right s
  · refine Or.inr ?_
    rcases right (Py.lstrip Py.isSpace s) with same | lighter'
    · rwa [same]
    · omega

/-- Canonicalizing a URL twice. -/
theorem url_fixed_iff {v c : Str} (result : canonicalUrl R v = .ok c) :
    (canonicalize R .url c = .ok c ↔ UrlStable R.unicode v) ∧
      (UrlStable R.unicode v → Py.strip c = c) := by
  obtain ⟨parsed, parse, schemed, hosted, facts, same⟩ := canonicalUrl_eq result
  have parts := canonicalUrl_parts facts hosted
  have only : UrlStable R.unicode v ↔
      (dropDefaultPort parsed.scheme (Py.lower R.unicode parsed.netloc) ≠ [] ∧
        Urllib.netlocOk R.unicode
          (dropDefaultPort parsed.scheme (Py.lower R.unicode parsed.netloc)) = true ∧
        dropDefaultPort parsed.scheme
            (dropDefaultPort parsed.scheme (Py.lower R.unicode parsed.netloc)) =
          dropDefaultPort parsed.scheme (Py.lower R.unicode parsed.netloc) ∧
        refang R.unicode c = c ∧ Py.strip c = c) := by
    simp only [UrlStable, parse, Option.some.injEq]
    constructor
    · intro stable
      have this := stable parsed rfl schemed hosted
      simp only [← same] at this
      exact this
    · rintro stable _ rfl _ _
      simp only [← same]
      exact stable
  rw [only]
  refine ⟨?_, fun stable => stable.2.2.2.2⟩
  generalize dropDefaultPort parsed.scheme (Py.lower R.unicode parsed.netloc) = netloc at parts same
  have read : Urllib.urlparse R.unicode c =
      if Urllib.netlocOk R.unicode netloc then
        some ⟨parsed.scheme, netloc, pathOrSlash parsed.path, parsed.params, parsed.query, []⟩
      else none := by
    rw [same]
    exact Urllib.urlparse_urlText parts.valid parts.netloc_plain parts.slash parts.tail parts.safe
  have some : c ≠ [] := by
    rw [same, Urllib.urlText]
    simp
  constructor
  · intro again
    have full : Py.strip c ≠ [] := by
      intro empty
      simp [canonicalize, empty] at again
    simp only [canonicalize, if_neg full] at again
    have total_le := canonicalUrl_total again
    have stripped := Py.total_sublist defangWeight (Py.strip_sublist (refang R.unicode (Py.strip c)))
    have trimmed : Py.strip c = c := by
      rcases strip_shrinks c with trimmed | lighter
      · exact trimmed
      · rcases refang_shrinks R.unicode (Py.strip c) with plain | lighter'
        · rw [plain] at total_le stripped
          omega
        · omega
    rw [trimmed] at again total_le stripped
    have plain : refang R.unicode c = c := by
      rcases refang_shrinks R.unicode c with plain | lighter
      · exact plain
      · omega
    obtain ⟨parsed', parse', schemed', hosted', _, same'⟩ := canonicalUrl_eq again
    rw [plain, trimmed, read] at parse'
    split at parse'
    · rename_i ok
      cases parse'
      refine ⟨hosted', ok, ?_, plain, trimmed⟩
      simp only [Py.lower_eq_self parts.netloc_settled] at same'
      have unslashed : pathOrSlash (pathOrSlash parsed.path) = pathOrSlash parsed.path := by
        unfold pathOrSlash
        split <;> simp_all
      rw [unslashed] at same'
      have length := congrArg List.length (same.symm.trans same')
      simp only [Urllib.urlText, List.length_append, List.length_cons] at length
      exact (dropDefaultPort_initial parsed.scheme netloc).eq_of_length (by omega)
    · cases parse'
  · rintro ⟨hosted', ok, port, plain, trimmed⟩
    rw [ok, if_pos rfl] at read
    simp only [canonicalize, trimmed, if_neg some]
    rw [canonicalUrl_text (by rw [plain, trimmed, read]) hosted' parts, port, ← same]

end Cti
