import Mathlib.Data.List.DropRight

set_option autoImplicit false

/- Text as a Python program sees it: strings are lists of code points, and what
depends on the Unicode database is a parameter with the properties that database has. -/
namespace Py

abbrev Str := List Char

def isAscii (c : Char) : Bool := c.toNat < 128

/-- The code points that `str.isspace` accepts one by one. -/
def isSpace (c : Char) : Bool :=
  (9 ≤ c.toNat && c.toNat ≤ 13) || (28 ≤ c.toNat && c.toNat ≤ 32) || c.toNat == 0x85 ||
    c.toNat == 0xa0 || c.toNat == 0x1680 || (0x2000 ≤ c.toNat && c.toNat ≤ 0x200a) ||
    c.toNat == 0x2028 || c.toNat == 0x2029 || c.toNat == 0x202f || c.toNat == 0x205f ||
    c.toNat == 0x3000

/-- A property of the ASCII characters can be checked one by one. -/
theorem ascii_forall {P : Char → Prop} (all : ∀ n : Fin 128, P (Char.ofNat n)) {c : Char}
    (ascii : isAscii c = true) : P c := by
  have small : c.toNat < 128 := by simpa [isAscii] using ascii
  have this := all ⟨c.toNat, small⟩
  rwa [show Char.ofNat c.toNat = c from Char.ofNat_toNat c] at this

theorem alphanum_ascii {c : Char} (alnum : c.isAlphanum = true) : isAscii c = true := by
  change ((decide (c.val ≥ 'A'.val ∧ c.val ≤ 'Z'.val) ||
    (decide (c.val ≥ 'a'.val) && decide (c.val ≤ 'z'.val))) ||
    (decide (c.val ≥ '0'.val) && decide (c.val ≤ '9'.val))) = true at alnum
  simp only [Bool.or_eq_true, Bool.and_eq_true, decide_eq_true_eq, UInt32.le_iff_toNat_le,
    ge_iff_le] at alnum
  change ((65 ≤ c.toNat ∧ c.toNat ≤ 90) ∨ (97 ≤ c.toNat ∧ c.toNat ≤ 122)) ∨
    (48 ≤ c.toNat ∧ c.toNat ≤ 57) at alnum
  have small : c.toNat < 128 := by omega
  simpa [isAscii] using small

theorem forall_mem_of_all {P : Char → Prop} [DecidablePred P] {s : Str}
    (all : s.all (fun c => decide (P c)) = true) : ∀ c ∈ s, P c := by
  simpa using all

def lstrip (p : Char → Bool) (s : Str) : Str := s.dropWhile p

def rstrip (p : Char → Bool) (s : Str) : Str := s.rdropWhile p

/-- `str.strip()`. -/
def strip (s : Str) : Str := rstrip isSpace (lstrip isSpace s)

/-- A pattern: given the character before the current position and the text from that
position on, the length of the match that starts here and the text that replaces it. -/
abbrev Matcher := Option Char → Str → Option (Nat × Str)

/-- One pass of leftmost, non-overlapping substitution. `skip` characters are still
covered by the last match. -/
def sub (m : Matcher) : Option Char → Nat → Str → Str
  | _, _, [] => []
  | _, skip + 1, c :: rest => sub m (some c) skip rest
  | before, 0, c :: rest =>
      match m before (c :: rest) with
      | some (length, text) => text ++ sub m (some c) (length - 1) rest
      | none => c :: sub m (some c) 0 rest

def literal (src dst : Str) : Matcher := fun _ rest =>
  if src.isPrefixOf rest then some (src.length, dst) else none

/-- `str.replace`, for a nonempty `src`. -/
def replace (src dst s : Str) : Str := sub (literal src dst) none 0 s

/-- The sum of a weight over a text. -/
def total (w : Char → Nat) : Str → Nat
  | [] => 0
  | c :: s => w c + total w s

@[simp] theorem total_nil (w : Char → Nat) : total w [] = 0 := rfl

@[simp] theorem total_cons (w : Char → Nat) (c : Char) (s : Str) :
    total w (c :: s) = w c + total w s := rfl

@[simp] theorem total_append (w : Char → Nat) (s t : Str) :
    total w (s ++ t) = total w s + total w t := by
  induction s with
  | nil => simp
  | cons c s ih => rw [List.cons_append, total_cons, total_cons, ih, Nat.add_assoc]

theorem total_sublist (w : Char → Nat) {s t : Str} (sub : s.Sublist t) : total w s ≤ total w t := by
  induction sub with
  | slnil => exact Nat.le_refl _
  | cons c _ ih => rw [total_cons]; omega
  | cons_cons c _ ih => rw [total_cons, total_cons]; omega

theorem total_le_of_forall {w : Char → Nat} {s : Str} (zero : ∀ c ∈ s, w c = 0) :
    total w s = 0 := by
  induction s with
  | nil => rfl
  | cons c s ih =>
      rw [total_cons, zero c (by simp), ih (fun d member => zero d (by simp [member]))]

/-- Every match of `m` is replaced by something lighter. -/
def Shrinks (w : Char → Nat) (m : Matcher) : Prop :=
  ∀ before rest length text, m before rest = some (length, text) →
    0 < length ∧ length ≤ rest.length ∧ total w text < total w (rest.take length)

/-- A pass of a shrinking pattern either finds nothing or makes the text lighter. -/
theorem sub_shrinks {w : Char → Nat} {m : Matcher} (shrinks : Shrinks w m) (s : Str) :
    ∀ before skip, sub m before skip s = s.drop skip ∨
      total w (sub m before skip s) < total w (s.drop skip) := by
  induction s with
  | nil => intro before skip; exact Or.inl (by simp [sub])
  | cons c rest ih =>
      intro before skip
      cases skip with
      | succ skip => simpa [sub] using ih (some c) skip
      | zero =>
          cases found : m before (c :: rest) with
          | none =>
              simp only [sub, found, List.drop_zero]
              rcases ih (some c) 0 with same | lighter
              · exact Or.inl (by rw [same, List.drop_zero])
              · refine Or.inr ?_
                rw [List.drop_zero] at lighter
                rw [total_cons, total_cons]
                omega
          | some found' =>
              obtain ⟨length, text⟩ := found'
              obtain ⟨positive, within, lighter⟩ := shrinks before (c :: rest) length text found
              refine Or.inr ?_
              simp only [sub, found, List.drop_zero]
              have split : total w (c :: rest) =
                  total w ((c :: rest).take length) + total w (rest.drop (length - 1)) := by
                obtain ⟨length, rfl⟩ : ∃ k, length = k + 1 := ⟨length - 1, by omega⟩
                rw [← total_append, List.take_succ_cons, List.cons_append, Nat.add_sub_cancel,
                  List.take_append_drop]
              have tail : total w (sub m (some c) (length - 1) rest) ≤
                  total w (rest.drop (length - 1)) := by
                rcases ih (some c) (length - 1) with same | less
                · exact Nat.le_of_eq (congrArg (total w) same)
                · exact Nat.le_of_lt less
              rw [total_append]
              omega

/-- A pattern that needs a character of some kind finds nothing in a text without one. -/
theorem sub_eq_self {m : Matcher} {kind : Char → Prop}
    (needs : ∀ before rest found, m before rest = some found → ∃ c ∈ rest, kind c) (s : Str)
    (absent : ∀ c ∈ s, ¬ kind c) : ∀ before, sub m before 0 s = s := by
  induction s with
  | nil => intro before; rfl
  | cons d rest ih =>
      intro before
      have tail : ∀ c ∈ rest, ¬ kind c := fun c member => absent c (by simp [member])
      cases found : m before (d :: rest) with
      | none => simp only [sub, found, ih tail]
      | some found' =>
          obtain ⟨c, member, needed⟩ := needs before (d :: rest) found' found
          exact absurd needed (absent c member)

/-- A pattern that never matches a separator leaves alone what stands after the last one,
if it finds nothing there. -/
theorem sub_keeps_tail {m : Matcher} {sep : Char} {tail : Str}
    (clean : ∀ before rest length text, m before rest = some (length, text) →
      ∃ front more, rest = front ++ more ∧ length = front.length ∧ front ≠ [] ∧ sep ∉ front)
    (plain : ∀ before, sub m before 0 tail = tail) (s : Str) :
    ∀ before skip, skip ≤ s.length → ∃ s', sub m before skip (s ++ sep :: tail) = s' ++ sep :: tail := by
  induction s with
  | nil =>
      intro before skip inside
      have zero : skip = 0 := by simpa using inside
      subst zero
      refine ⟨[], ?_⟩
      cases found : m before (sep :: tail) with
      | none => simp only [List.nil_append, sub, found, plain]
      | some result =>
          obtain ⟨front, more, whole, _, nonempty, absent⟩ := clean before _ result.1 result.2 found
          obtain ⟨c, front, rfl⟩ := List.exists_cons_of_ne_nil nonempty
          rw [List.cons_append, List.cons.injEq] at whole
          exact absurd (by rw [whole.1]; exact List.mem_cons_self) absent
  | cons c s ih =>
      intro before skip inside
      cases skip with
      | succ skip =>
          simp only [List.cons_append, sub]
          exact ih (some c) skip (by simpa using inside)
      | zero =>
          cases found : m before (c :: (s ++ sep :: tail)) with
          | none =>
              obtain ⟨s', same⟩ := ih (some c) 0 (Nat.zero_le _)
              exact ⟨c :: s', by simp only [List.cons_append, sub, found, same]⟩
          | some result =>
              obtain ⟨length, text⟩ := result
              obtain ⟨front, more, whole, rfl, nonempty, absent⟩ := clean before _ length text found
              have short : front.length ≤ (c :: s).length := by
                by_contra long
                have reach : (c :: s) ++ [sep] <+: front := by
                  refine @List.prefix_of_prefix_length_le _ _ _ (c :: (s ++ sep :: tail)) ?_ ?_ ?_
                  · exact ⟨tail, by simp⟩
                  · exact ⟨more, whole.symm⟩
                  · simp only [List.length_append, List.length_cons, List.length_nil] at long ⊢
                    omega
                exact absent (reach.subset (by simp))
              obtain ⟨s', same⟩ := ih (some c) (front.length - 1) (by
                simp only [List.length_cons] at short
                omega)
              exact ⟨text ++ s', by simp only [List.cons_append, sub, found, same, List.append_assoc]⟩

theorem isPrefixOf_mem {src rest : Str} (starts : src.isPrefixOf rest = true) {c : Char}
    (member : c ∈ src) : c ∈ rest := by
  obtain ⟨tail, same⟩ := List.isPrefixOf_iff_prefix.mp starts
  rw [← same]
  exact List.mem_append_left _ member

theorem literal_needs {src dst : Str} {c : Char} (member : c ∈ src) (before : Option Char)
    (rest : Str) (found : Nat × Str) (same : literal src dst before rest = some found) :
    ∃ d ∈ rest, d = c := by
  unfold literal at same
  split at same
  · rename_i starts
    exact ⟨c, isPrefixOf_mem starts member, rfl⟩
  · cases same

theorem literal_shrinks {w : Char → Nat} {src dst : Str} (nonempty : 0 < src.length)
    (lighter : total w dst < total w src) : Shrinks w (literal src dst) := by
  intro before rest length text found
  unfold literal at found
  split at found
  · rename_i starts
    obtain ⟨tail, rfl⟩ := List.isPrefixOf_iff_prefix.mp starts
    simp only [Option.some.injEq, Prod.mk.injEq] at found
    obtain ⟨rfl, rfl⟩ := found
    refine ⟨nonempty, by simp, ?_⟩
    simpa using lighter
  · cases found

theorem replace_eq_self {src dst s : Str} {c : Char} (member : c ∈ src) (absent : c ∉ s) :
    replace src dst s = s :=
  sub_eq_self (literal_needs member) s (fun _ here same => absent (same ▸ here)) none

theorem replace_shrinks {w : Char → Nat} {src dst : Str} (nonempty : 0 < src.length)
    (lighter : total w dst < total w src) (s : Str) :
    replace src dst s = s ∨ total w (replace src dst s) < total w s := by
  simpa [replace] using sub_shrinks (literal_shrinks nonempty lighter) s none 0

/-- Replacing single characters. -/
theorem replace_singleton (a b : Char) (s : Str) :
    replace [a] [b] s = s.map fun c => if a = c then b else c := by
  have general : ∀ before, sub (literal [a] [b]) before 0 s = s.map fun c => if a = c then b else c := by
    induction s with
    | nil => exact fun _ => rfl
    | cons c s ih =>
        intro before
        by_cases hit : a = c
        · subst hit
          have step : sub (literal [a] [b]) before 0 (a :: s) =
              b :: sub (literal [a] [b]) (some a) 0 s := by simp [sub, literal]
          rw [step, ih, List.map_cons, if_pos rfl]
        · have step : sub (literal [a] [b]) before 0 (c :: s) =
              c :: sub (literal [a] [b]) (some c) 0 s := by simp [sub, literal, hit]
          rw [step, ih, List.map_cons, if_neg hit]
  exact general none

/-- The text up to the first character that stops, and the text from there on. -/
def cut (stop : Char → Bool) (s : Str) : Str × Str :=
  (s.takeWhile (fun c => !stop c), s.dropWhile (fun c => !stop c))

theorem cut_append {stop : Char → Bool} {s t : Str} (before : ∀ c ∈ s, stop c = false)
    (after : ∀ c, t.head? = some c → stop c = true) : cut stop (s ++ t) = (s, t) := by
  have plain : ∀ c ∈ s, (!stop c) = true := by
    intro c member
    simp [before c member]
  unfold cut
  rw [List.takeWhile_append_of_pos plain, List.dropWhile_append_of_pos plain]
  cases t with
  | nil => simp
  | cons c t => simp [after c rfl]

theorem cut_fst_append_snd (stop : Char → Bool) (s : Str) : (cut stop s).1 ++ (cut stop s).2 = s :=
  List.takeWhile_append_dropWhile

theorem cut_before {stop : Char → Bool} {s : Str} : ∀ c ∈ (cut stop s).1, stop c = false := by
  intro c member
  simpa using List.mem_takeWhile_imp member

theorem cut_after {stop : Char → Bool} {s : Str} {c : Char}
    (head : (cut stop s).2.head? = some c) : stop c = true := by
  have found := List.head?_dropWhile_not (fun c => !stop c) s
  rw [show s.dropWhile (fun c => !stop c) = (cut stop s).2 from rfl, head] at found
  simpa using found

/-- The text up to and with the last character that stops, and the text after it. -/
def rcut (stop : Char → Bool) (s : Str) : Str × Str :=
  (s.rdropWhile (fun c => !stop c), s.rtakeWhile (fun c => !stop c))

theorem rcut_eq_reverse (stop : Char → Bool) (s : Str) :
    rcut stop s = ((cut stop s.reverse).2.reverse, (cut stop s.reverse).1.reverse) := rfl

theorem rcut_append {stop : Char → Bool} {s t : Str}
    (before : ∀ c, s.getLast? = some c → stop c = true) (after : ∀ c ∈ t, stop c = false) :
    rcut stop (s ++ t) = (s, t) := by
  have mirrored : cut stop (s ++ t).reverse = (t.reverse, s.reverse) := by
    rw [List.reverse_append]
    refine cut_append (fun c member => after c (List.mem_reverse.mp member)) ?_
    intro c head
    rw [List.head?_reverse] at head
    exact before c head
  rw [rcut_eq_reverse, mirrored, List.reverse_reverse, List.reverse_reverse]

theorem rcut_fst_append_snd (stop : Char → Bool) (s : Str) :
    (rcut stop s).1 ++ (rcut stop s).2 = s := by
  rw [rcut_eq_reverse, ← List.reverse_append, cut_fst_append_snd, List.reverse_reverse]

theorem rcut_before {stop : Char → Bool} {s : Str} {c : Char}
    (last : (rcut stop s).1.getLast? = some c) : stop c = true := by
  rw [rcut_eq_reverse, List.getLast?_reverse] at last
  exact cut_after last

theorem rcut_after {stop : Char → Bool} {s : Str} : ∀ c ∈ (rcut stop s).2, stop c = false := by
  intro c member
  rw [rcut_eq_reverse, List.mem_reverse] at member
  exact cut_before c member

/-- `str.rpartition` on one character: what stands before and after its last occurrence. -/
def rpartition (sep : Char) (s : Str) : Option (Str × Str) :=
  if sep ∈ s then some ((rcut (· == sep) s).1.dropLast, (rcut (· == sep) s).2) else none

theorem rpartition_append {sep : Char} {s t : Str} (after : sep ∉ t) :
    rpartition sep (s ++ sep :: t) = some (s, t) := by
  have cuts : rcut (· == sep) ((s ++ [sep]) ++ t) = (s ++ [sep], t) := by
    refine rcut_append ?_ ?_
    · intro c last
      rw [List.getLast?_concat, Option.some.injEq] at last
      simp [last]
    · intro c member
      rw [beq_eq_false_iff_ne]
      rintro rfl
      exact after member
  rw [List.append_assoc, List.singleton_append] at cuts
  rw [rpartition, if_pos (by simp), cuts, List.dropLast_concat]

/-- What `rpartition` splits is put together again around the separator. -/
theorem rpartition_eq {sep : Char} {s before after : Str}
    (split : rpartition sep s = some (before, after)) :
    s = before ++ sep :: after ∧ sep ∉ after := by
  unfold rpartition at split
  split at split
  · rename_i member
    simp only [Option.some.injEq, Prod.mk.injEq] at split
    obtain ⟨rfl, rfl⟩ := split
    have whole := rcut_fst_append_snd (· == sep) s
    have plain : sep ∉ (rcut (· == sep) s).2 := fun here => by simpa using rcut_after sep here
    have nonempty : (rcut (· == sep) s).1 ≠ [] := by
      intro empty
      rw [empty, List.nil_append] at whole
      rw [← whole] at member
      exact plain member
    have last := rcut_before (List.getLast?_eq_some_getLast nonempty)
    rw [beq_iff_eq] at last
    refine ⟨?_, plain⟩
    conv_lhs => rw [← whole, ← List.dropLast_append_getLast nonempty, last]
    simp
  · cases split

theorem not_mem_intercalate {c : Char} {sep : Str} {parts : List Str} (apart : c ∉ sep)
    (plain : ∀ part ∈ parts, c ∉ part) : c ∉ sep.intercalate parts := by
  induction parts with
  | nil => simp [List.intercalate]
  | cons first rest ih =>
      have tail := ih (fun part member => plain part (by simp [member]))
      cases rest with
      | nil => simpa [List.intercalate] using plain first (by simp)
      | cons second rest =>
          have head := plain first (by simp)
          simp only [List.intercalate, List.intersperse_cons_cons, List.flatten_cons] at tail ⊢
          simp [head, apart, tail]

theorem intercalate_cons_cons (sep first second : Str) (rest : List Str) :
    sep.intercalate (first :: second :: rest) = first ++ (sep ++ sep.intercalate (second :: rest)) := by
  simp [List.intercalate]

theorem intercalate_singleton (sep part : Str) : sep.intercalate [part] = part := by
  simp [List.intercalate]

theorem intercalate_head {sep first : Str} {rest : List Str} (nonempty : first ≠ []) :
    (sep.intercalate (first :: rest)).head? = first.head? := by
  cases rest with
  | nil => rw [intercalate_singleton]
  | cons second rest => rw [intercalate_cons_cons, List.head?_append_of_ne_nil _ nonempty]

/-- The last character of joined parts, if it is no separator, ends the last part. -/
theorem intercalate_last {sep c : Char} (other : c ≠ sep) (init : List Str) (last : Str) :
    ([sep].intercalate (init ++ [last])).getLast? = some c ↔ last.getLast? = some c := by
  induction init with
  | nil => rw [List.nil_append, intercalate_singleton]
  | cons first init ih =>
      obtain ⟨second, rest, same⟩ := List.exists_cons_of_ne_nil
        (List.append_ne_nil_of_right_ne_nil init (List.cons_ne_nil last []))
      rw [List.cons_append, same, intercalate_cons_cons, ← same, ← ih]
      cases joined : [sep].intercalate (init ++ [last]) with
      | nil => simpa [List.getLast?_append] using fun same => absurd same.symm other
      | cons d text =>
          rw [List.getLast?_append_of_ne_nil _ (by simp), List.getLast?_append_of_ne_nil _ (by simp)]

theorem intercalate_concat (sep : Str) (init : List Str) (last tail : Str) :
    sep.intercalate (init ++ [last ++ tail]) = sep.intercalate (init ++ [last]) ++ tail := by
  induction init with
  | nil => rw [List.nil_append, List.nil_append, intercalate_singleton, intercalate_singleton]
  | cons first init ih =>
      cases init with
      | nil =>
          simp only [List.nil_append, List.cons_append, intercalate_cons_cons,
            intercalate_singleton, List.append_assoc]
      | cons second rest =>
          simp only [List.cons_append, intercalate_cons_cons] at ih ⊢
          rw [ih]
          simp only [List.append_assoc]

theorem mem_splitOn {sep c : Char} {s : Str} (member : c ∈ s) (other : c ≠ sep) :
    ∃ part ∈ s.splitOn sep, c ∈ part := by
  by_contra absent
  refine @not_mem_intercalate c [sep] (s.splitOn sep) (by simpa using other) ?_ ?_
  · intro part inside here
    exact absent ⟨part, inside, here⟩
  · rwa [List.intercalate_splitOn]

/-- The parts of joined texts are parts of these texts. -/
theorem splitOn_intercalate_length {sep : Char} {texts : List Str} (nonempty : texts ≠ [])
    {bound : Nat} (short : ∀ text ∈ texts, text.length ≤ bound) :
    ∀ part ∈ ([sep].intercalate texts).splitOn sep, part.length ≤ bound := by
  have pieces : ∀ text part : Str, part ∈ text.splitOn sep → part.length ≤ text.length := by
    intro text
    induction text with
    | nil => intro part member; simp_all
    | cons c text ih =>
        intro part member
        rw [List.splitOn_cons_eq_if_modifyHead] at member
        split at member
        · rcases List.mem_cons.mp member with rfl | later
          · simp
          · exact Nat.le_succ_of_le (ih part later)
        · obtain ⟨first, rest, same⟩ := List.exists_cons_of_ne_nil (List.splitOn_ne_nil sep text)
          rw [same, List.modifyHead_cons] at member
          rcases List.mem_cons.mp member with rfl | later
          · have := ih first (by rw [same]; exact List.mem_cons_self)
            simpa using this
          · exact Nat.le_succ_of_le (ih part (by rw [same]; exact List.mem_cons_of_mem _ later))
  induction texts with
  | nil => exact absurd rfl nonempty
  | cons first texts ih =>
      intro part member
      cases texts with
      | nil =>
          rw [intercalate_singleton] at member
          exact (pieces first part member).trans (short first (by simp))
      | cons second rest =>
          rw [intercalate_cons_cons, List.singleton_append, List.splitOn_append_cons_self] at member
          rcases List.mem_append.mp member with here | later
          · exact (pieces first part here).trans (short first (by simp))
          · exact ih (by simp) (fun text inside => short text (by simp [inside])) part later

/-- Neither end of the text is a space. -/
def Trimmed (s : Str) : Prop :=
  (∀ c, s.head? = some c → isSpace c = false) ∧ ∀ c, s.getLast? = some c → isSpace c = false

theorem lstrip_sublist (p : Char → Bool) (s : Str) : (lstrip p s).Sublist s :=
  List.dropWhile_sublist p

theorem rstrip_initial (p : Char → Bool) (s : Str) : rstrip p s <+: s := List.rdropWhile_prefix p s

theorem strip_sublist (s : Str) : (strip s).Sublist s :=
  (rstrip_initial isSpace _).sublist.trans (lstrip_sublist isSpace s)

theorem trimmed_of_forall {s : Str} (plain : ∀ c ∈ s, isSpace c = false) : Trimmed s :=
  ⟨fun c head => plain c (List.mem_of_head? head), fun c last => plain c (List.mem_of_getLast? last)⟩

theorem trimmed_strip (s : Str) : Trimmed (strip s) := by
  refine ⟨?_, ?_⟩
  · intro c head
    obtain ⟨tail, same⟩ := rstrip_initial isSpace (lstrip isSpace s)
    have first : (lstrip isSpace s).head? = some c := by
      rw [← same]
      cases nonempty : strip s with
      | nil => simp [nonempty] at head
      | cons d rest =>
          rw [nonempty] at head
          rw [show rstrip isSpace (lstrip isSpace s) = d :: rest from nonempty]
          simpa using head
    have stop := List.head?_dropWhile_not isSpace s
    rw [show s.dropWhile isSpace = lstrip isSpace s from rfl, first] at stop
    simpa using stop
  · intro c last
    have nonempty : strip s ≠ [] := by
      intro nil
      simp [nil] at last
    have stop := List.rdropWhile_last_not isSpace (lstrip isSpace s) nonempty
    rw [List.getLast?_eq_some_getLast nonempty, Option.some.injEq] at last
    rw [← last]
    exact Bool.eq_false_iff.mpr stop

theorem lstrip_eq_self {p : Char → Bool} {s : Str} (head : ∀ c, s.head? = some c → p c = false) :
    lstrip p s = s := by
  cases s with
  | nil => rfl
  | cons c rest => simp [lstrip, head c rfl]

theorem rstrip_eq_self {p : Char → Bool} {s : Str}
    (last : ∀ c, s.getLast? = some c → p c = false) : rstrip p s = s := by
  rw [rstrip, List.rdropWhile_eq_self_iff]
  intro nonempty
  simpa using last _ (List.getLast?_eq_some_getLast nonempty)

theorem strip_of_trimmed {s : Str} (trimmed : Trimmed s) : strip s = s := by
  rw [strip, lstrip_eq_self trimmed.1, rstrip_eq_self trimmed.2]

theorem dropWhile_append_cons {p : Char → Bool} {c : Char} (stop : p c = false) (s t : Str) :
    (s ++ c :: t).dropWhile p = s.dropWhile p ++ c :: t := by
  induction s with
  | nil => simp [stop]
  | cons d s ih =>
      cases skip : p d with
      | true => simp [skip, ih]
      | false => simp [skip]

/-- Stripping works on both sides of a character that is no space. -/
theorem strip_append_cons {c : Char} (plain : isSpace c = false) (s t : Str) :
    strip (s ++ c :: t) = lstrip isSpace s ++ c :: rstrip isSpace t := by
  have left : lstrip isSpace (s ++ c :: t) = lstrip isSpace s ++ c :: t :=
    dropWhile_append_cons plain s t
  rw [strip, left, rstrip, rstrip, List.rdropWhile, List.rdropWhile, List.reverse_append,
    List.reverse_cons, List.append_assoc, List.singleton_append, dropWhile_append_cons plain]
  simp

/-- A single space after a trimmed text is stripped. -/
theorem strip_concat {s : Str} {c : Char} (trimmed : Trimmed s) (nonempty : s ≠ [])
    (space : isSpace c = true) : strip (s ++ [c]) = s := by
  have front : lstrip isSpace (s ++ [c]) = s ++ [c] := by
    apply lstrip_eq_self
    intro d head
    rw [List.head?_append_of_ne_nil _ nonempty] at head
    exact trimmed.1 d head
  rw [strip, front, rstrip, List.rdropWhile_concat_pos isSpace s c space]
  exact rstrip_eq_self trimmed.2

theorem strip_strip (s : Str) : strip (strip s) = strip s := strip_of_trimmed (trimmed_strip s)

/-- A text is its trimmed text between spaces. -/
theorem strip_spaces (s : Str) : ∃ front back, s = front ++ strip s ++ back ∧
    (∀ c ∈ front, isSpace c = true) ∧ ∀ c ∈ back, isSpace c = true := by
  refine ⟨s.takeWhile isSpace, (lstrip isSpace s).rtakeWhile isSpace, ?_, ?_, ?_⟩
  · rw [strip, rstrip, List.append_assoc, List.rdropWhile_append_rtakeWhile, lstrip,
      List.takeWhile_append_dropWhile]
  · exact fun c member => List.mem_takeWhile_imp member
  · exact fun c member => List.mem_rtakeWhile_imp member

theorem strip_of_spaces {front text back : Str} (before : ∀ c ∈ front, isSpace c = true)
    (trimmed : Trimmed text) (after : ∀ c ∈ back, isSpace c = true) :
    strip (front ++ text ++ back) = text := by
  have left : lstrip isSpace (front ++ text ++ back) = lstrip isSpace (text ++ back) := by
    rw [lstrip, List.append_assoc, List.dropWhile_append_of_pos before]
    rfl
  rw [strip, left]
  by_cases nothing : text = []
  · rw [nothing, List.nil_append]
    have all : lstrip isSpace back = [] := List.dropWhile_eq_nil_iff.mpr after
    rw [all]
    rfl
  · rw [lstrip_eq_self fun c head => trimmed.1 c (by
      rwa [List.head?_append_of_ne_nil _ nothing] at head)]
    rw [rstrip, List.rdropWhile, List.reverse_append,
      List.dropWhile_append_of_pos fun c member => after c (List.mem_reverse.mp member)]
    exact rstrip_eq_self trimmed.2

end Py
