import Cti.PyText

set_option autoImplicit false

/- Paths as `pathlib` reads them, on a file system without links. -/
namespace Py

/-- A name that an entry of a directory can have. -/
structure PlainName (name : Str) : Prop where
  nonempty : name ≠ []
  slashless : '/' ∉ name
  notHere : name ≠ ".".toList
  notAbove : name ≠ "..".toList

/-- An absolute path without detours: the names on it, from the root on. -/
abbrev Location := { names : List Str // ∀ name ∈ names, PlainName name }

/-- The names on a path; empty ones and dots lead nowhere. -/
def pathNames (path : Str) : List Str :=
  (path.splitOn '/').filter fun name => name ≠ [] ∧ name ≠ ".".toList

/-- From a directory along the names. -/
def follow (start names : List Str) : List Str :=
  names.foldl (fun above name => if name = "..".toList then above.dropLast else above ++ [name]) start

/-- `root / rel`. -/
def joinPath (root rel : Str) : Str :=
  if root = [] ∨ rel.head? = some '/' then rel else root ++ '/' :: rel

/-- `str` of an absolute path. -/
def pathText (location : Location) : Str := '/' :: ['/'].intercalate location.1

theorem not_mem_splitOn {sep : Char} {s part : Str} (member : part ∈ s.splitOn sep) : sep ∉ part := by
  induction s generalizing part with
  | nil =>
      rw [List.splitOn_nil, List.mem_singleton] at member
      subst member
      exact List.not_mem_nil
  | cons c s ih =>
      rw [List.splitOn_cons_eq_if_modifyHead] at member
      split at member
      · rcases List.mem_cons.mp member with rfl | later
        · exact List.not_mem_nil
        · exact ih later
      · rename_i other
        obtain ⟨first, rest, same⟩ := List.exists_cons_of_ne_nil (List.splitOn_ne_nil sep s)
        rw [same, List.modifyHead_cons] at member
        rcases List.mem_cons.mp member with rfl | later
        · intro here
          rcases List.mem_cons.mp here with rfl | here
          · simp at other
          · exact ih (by rw [same]; exact List.mem_cons_self) here
        · exact ih (by rw [same]; exact List.mem_cons_of_mem _ later)

theorem cut_slash {s : Str} (plain : '/' ∉ s) (t : Str) :
    cut (· == '/') (s ++ '/' :: t) = (s, '/' :: t) := by
  refine cut_append ?_ ?_
  · intro c member
    rw [beq_eq_false_iff_ne]
    rintro rfl
    exact plain member
  · rintro c ⟨rfl⟩
    rfl

theorem append_slash_inj {s s' t t' : Str} (plain : '/' ∉ s) (plain' : '/' ∉ s') :
    s ++ '/' :: t = s' ++ '/' :: t' ↔ s = s' ∧ t = t' := by
  constructor
  · intro same
    have cuts := cut_slash plain t
    rw [same, cut_slash plain', Prod.mk.injEq, List.cons.injEq] at cuts
    exact ⟨cuts.1.symm, cuts.2.2.symm⟩
  · rintro ⟨rfl, rfl⟩
    rfl

theorem follow_plain {start names : List Str} (plain : ∀ name ∈ start, PlainName name)
    (real : ∀ name ∈ names, name ≠ [] ∧ '/' ∉ name ∧ name ≠ ".".toList) :
    ∀ name ∈ follow start names, PlainName name := by
  induction names generalizing start with
  | nil => exact plain
  | cons first names ih =>
      refine ih ?_ fun name member => real name (List.mem_cons_of_mem first member)
      obtain ⟨nonempty, slashless, notHere⟩ := real first List.mem_cons_self
      dsimp only
      split
      · intro name member
        exact plain name (List.dropLast_subset start member)
      · rename_i notAbove
        intro name member
        rcases List.mem_append.mp member with old | new
        · exact plain name old
        · cases List.mem_singleton.mp new
          exact ⟨nonempty, slashless, notHere, notAbove⟩

theorem pathNames_real (path : Str) :
    ∀ name ∈ pathNames path, name ≠ [] ∧ '/' ∉ name ∧ name ≠ ".".toList := by
  intro name member
  obtain ⟨part, real⟩ := List.mem_filter.mp member
  obtain ⟨nonempty, notHere⟩ := of_decide_eq_true real
  exact ⟨nonempty, not_mem_splitOn part, notHere⟩

/-- `Path(path).resolve()`. -/
def resolvePath (cwd : Location) (path : Str) : Location :=
  ⟨follow (if path.head? = some '/' then [] else cwd.1) (pathNames path), by
    refine follow_plain ?_ (pathNames_real path)
    split
    · exact fun _ member => (List.not_mem_nil member).elim
    · exact cwd.2⟩

/-- Plain names are followed one by one. -/
theorem follow_of_plain {names : List Str} (plain : ∀ name ∈ names, PlainName name)
    (start : List Str) : follow start names = start ++ names := by
  induction names generalizing start with
  | nil => exact (List.append_nil start).symm
  | cons first names ih =>
      have down : follow start (first :: names) = follow (start ++ [first]) names := by
        unfold follow
        rw [List.foldl_cons, if_neg (plain first List.mem_cons_self).notAbove]
      rw [down, ih fun name member => plain name (List.mem_cons_of_mem first member),
        List.append_assoc, List.singleton_append]

theorem filter_plain {names : List Str} (plain : ∀ name ∈ names, PlainName name) :
    names.filter (fun name => name ≠ [] ∧ name ≠ ".".toList) = names := by
  rw [List.filter_eq_self]
  intro name member
  exact decide_eq_true ⟨(plain name member).nonempty, (plain name member).notHere⟩

theorem pathNames_intercalate {names : List Str} (plain : ∀ name ∈ names, PlainName name) :
    pathNames (['/'].intercalate names) = names := by
  unfold pathNames
  cases names with
  | nil => rfl
  | cons first rest =>
      rw [List.splitOn_intercalate '/' (fun name member => (plain name member).slashless)
        (List.cons_ne_nil first rest)]
      exact filter_plain plain

/-- The text of a resolved path leads back to it. -/
theorem resolvePath_pathText (cwd location : Location) :
    resolvePath cwd (pathText location) = location := by
  obtain ⟨names, plain⟩ := location
  apply Subtype.ext
  have parts : pathNames (pathText ⟨names, plain⟩) = names := by
    refine Eq.trans ?_ (pathNames_intercalate plain)
    unfold pathNames pathText
    rw [List.splitOn_cons_eq_if_modifyHead, if_pos BEq.rfl]
    rfl
  have absolute : (pathText ⟨names, plain⟩).head? = some '/' := rfl
  change follow (if (pathText ⟨names, plain⟩).head? = some '/' then [] else cwd.1)
    (pathNames (pathText ⟨names, plain⟩)) = names
  rw [parts, if_pos absolute]
  exact follow_of_plain plain []

/-- Plain names below a directory. -/
theorem resolvePath_joinPath (cwd : Location) (root : Str) {first : Str} {rest : List Str}
    (plain : ∀ name ∈ first :: rest, PlainName name) :
    (resolvePath cwd (joinPath root (['/'].intercalate (first :: rest)))).1 =
      (resolvePath cwd root).1 ++ first :: rest := by
  have names := pathNames_intercalate plain
  have relative : (['/'].intercalate (first :: rest)).head? ≠ some '/' := by
    obtain ⟨nonempty, slashless, _⟩ := plain first List.mem_cons_self
    rw [intercalate_head nonempty]
    intro slash
    exact slashless (List.mem_of_head? slash)
  change follow (if (joinPath root _).head? = some '/' then [] else cwd.1)
    (pathNames (joinPath root _)) = follow (if root.head? = some '/' then [] else cwd.1)
      (pathNames root) ++ first :: rest
  cases root with
  | nil =>
      have here : joinPath [] (['/'].intercalate (first :: rest)) =
          ['/'].intercalate (first :: rest) := if_pos (Or.inl rfl)
      rw [here, names, if_neg relative, follow_of_plain plain]
      rfl
  | cons c root =>
      have below : joinPath (c :: root) (['/'].intercalate (first :: rest)) =
          (c :: root) ++ '/' :: ['/'].intercalate (first :: rest) := by
        refine if_neg ?_
        rintro (empty | slash)
        · cases empty
        · exact relative slash
      have split : pathNames ((c :: root) ++ '/' :: ['/'].intercalate (first :: rest)) =
          pathNames (c :: root) ++ first :: rest := by
        conv_rhs => rw [← names]
        unfold pathNames
        rw [List.splitOn_append_cons_self, List.filter_append]
      rw [below, split]
      unfold follow
      rw [List.foldl_append]
      exact follow_of_plain plain _

end Py
