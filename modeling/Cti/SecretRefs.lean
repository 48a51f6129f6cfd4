import Mathlib.Data.List.Forall2
import Cti.Secrets

set_option autoImplicit false

/- The references of a configuration are looked up in a single pass, from files that may fail to
be read. -/
namespace Cti

open Py (Str)

/-- What a reference is looked up in. -/
structure Host where
  environ : Str → Option Str
  isFile : Str → Bool
  readText : Str → Except Exc Str

inductive Reference where
  | env (name : Str)
  | file (path : Str)
  deriving DecidableEq

namespace Reference

def opening : Reference → Str
  | .env _ => "$\x7benv:".toList
  | .file _ => "$\x7bfile:".toList

def target : Reference → Str
  | .env name => name
  | .file path => path

/-- How a reference is written. -/
def text (r : Reference) : Str := r.opening ++ (r.target ++ ['}'])

def Valid (r : Reference) : Prop := r.target ≠ [] ∧ '}' ∉ r.target

/-- `_REF_RE` at a position, with its groups. -/
def matched (rest : Str) : Option (Nat × Reference) :=
  if "$\x7benv:".toList.isPrefixOf rest then
    (referenceTarget (rest.drop 6)).map fun target => (target.length + 7, .env target)
  else if "$\x7bfile:".toList.isPrefixOf rest then
    (referenceTarget (rest.drop 7)).map fun target => (target.length + 8, .file target)
  else none

end Reference

/-- `repl` of `_resolve_str`. -/
def Host.repl (host : Host) : Reference → Except Exc Str
  | .env name => .ok ((host.environ name).getD [])
  | .file path =>
      if host.isFile path then do return Py.strip (← host.readText path)
      else .ok []

/-- `_REF_RE.sub`, past the characters that a match has covered. -/
def substitute (repl : Reference → Except Exc Str) : Nat → Str → Except Exc Str
  | _, [] => .ok []
  | skip + 1, _ :: rest => substitute repl skip rest
  | 0, c :: rest =>
      match Reference.matched (c :: rest) with
      | some (length, r) => do
          let text ← repl r
          let out ← substitute repl (length - 1) rest
          return text ++ out
      | none => do
          let out ← substitute repl 0 rest
          return c :: out

variable (host : Host)

/-- `_resolve_str`, with files that may fail to be read. -/
def resolveText (value : Str) : Except Exc Str := substitute host.repl 0 value

mutual

/-- `resolve_secrets`. -/
def resolveTree : Val → Except Exc Val
  | .str s => do return .str (← resolveText host s)
  | .dict entries => do return .dict (← resolveTreeEntries entries)
  | .list items => do return .list (← resolveTreeItems items)
  | v => .ok v

def resolveTreeItems : List Val → Except Exc (List Val)
  | [] => .ok []
  | item :: items => do
      let item ← resolveTree item
      let items ← resolveTreeItems items
      return item :: items

def resolveTreeEntries : Dict → Except Exc Dict
  | [] => .ok []
  | (key, value) :: entries => do
      let value ← resolveTree value
      let entries ← resolveTreeEntries entries
      return (key, value) :: entries

end

theorem referenceTarget_iff {rest target : Str} : referenceTarget rest = some target ↔
    target ≠ [] ∧ '}' ∉ target ∧ ∃ more, rest = target ++ '}' :: more := by
  have split := List.takeWhile_append_dropWhile (p := (· ≠ '}')) (l := rest)
  unfold referenceTarget
  constructor
  · intro found
    dsimp only at found
    split at found
    · cases found
    · rename_i proper
      cases found
      simp only [Bool.or_eq_true, decide_eq_true_eq, not_or] at proper
      refine ⟨proper.1, ?_, ?_⟩
      · intro member
        simpa using List.mem_takeWhile_imp member
      · cases stop : rest.dropWhile (· ≠ '}') with
        | nil =>
            rw [stop, List.append_nil] at split
            exact absurd (congrArg List.length split) proper.2
        | cons c more =>
            have brace : c = '}' := by
              have head := List.head?_dropWhile_not (· ≠ '}') rest
              rw [stop] at head
              simpa using head
            subst brace
            exact ⟨more, by rw [← stop]; exact split.symm⟩
  · rintro ⟨nonempty, plain, more, rfl⟩
    have taken : (target ++ '}' :: more).takeWhile (· ≠ '}') = target := by
      rw [List.takeWhile_append_of_pos, List.takeWhile_cons_of_neg, List.append_nil]
      · simp
      · intro c member
        exact decide_eq_true fun same => plain (same ▸ member)
    rw [taken]
    simp [nonempty]

namespace Reference

@[simp] theorem opening_env (name : Str) : (env name).opening = "$\x7benv:".toList := rfl

@[simp] theorem opening_file (path : Str) : (file path).opening = "$\x7bfile:".toList := rfl

@[simp] theorem target_env (name : Str) : (env name).target = name := rfl

@[simp] theorem target_file (path : Str) : (file path).target = path := rfl

/-- What a target behind an opening says about the whole text. -/
theorem target_matched {make : Str → Reference} {opening tail : Str} {n : Nat} {r : Reference}
    (opens : ∀ target, (make target).opening = opening)
    (reads : ∀ target, (make target).target = target) :
    ((referenceTarget tail).map fun target => (target.length + (opening.length + 1), make target)) =
        some (n, r) ↔
      (∃ target, r = make target) ∧ r.Valid ∧ n = r.text.length ∧
        ∃ more, opening ++ tail = r.text ++ more := by
  have length (target : Str) :
      target.length + (opening.length + 1) = (make target).text.length := by
    simp only [text, opens, reads, List.length_append, List.length_singleton]
    omega
  rw [Option.map_eq_some_iff]
  constructor
  · rintro ⟨target, found, same⟩
    cases same
    obtain ⟨nonempty, plain, more, rfl⟩ := referenceTarget_iff.mp found
    refine ⟨⟨target, rfl⟩, ?_, length target, more, ?_⟩
    · rw [Valid, reads]
      exact ⟨nonempty, plain⟩
    · rw [text, opens, reads]
      simp
  · rintro ⟨⟨target, rfl⟩, ⟨nonempty, plain⟩, rfl, more, same⟩
    rw [reads] at nonempty plain
    rw [text, opens, reads, List.append_assoc] at same
    have tail_eq := List.append_cancel_left same
    refine ⟨target, referenceTarget_iff.mpr ⟨nonempty, plain, more, ?_⟩, ?_⟩
    · rw [tail_eq]
      simp
    · rw [length]

theorem openings_apart (s t : Str) : "$\x7benv:".toList ++ s ≠ "$\x7bfile:".toList ++ t := by
  intro same
  cases congrArg (fun text => text[2]?) same

/-- A match is a reference that the rest of the text starts with. -/
theorem matched_iff {rest : Str} {n : Nat} {r : Reference} :
    matched rest = some (n, r) ↔ r.Valid ∧ n = r.text.length ∧ ∃ more, rest = r.text ++ more := by
  have opens {opening : Str} (starts : opening.isPrefixOf rest = true) :
      ∃ tail, rest = opening ++ tail := by
    obtain ⟨tail, same⟩ := List.isPrefixOf_iff_prefix.mp starts
    exact ⟨tail, same.symm⟩
  unfold matched
  by_cases env : "$\x7benv:".toList.isPrefixOf rest = true
  · obtain ⟨tail, rfl⟩ := opens env
    rw [if_pos env]
    refine (target_matched opening_env target_env).trans (and_iff_right_of_imp ?_)
    rintro ⟨_, _, more, same⟩
    cases r with
    | env name => exact ⟨name, rfl⟩
    | file path => exact absurd (same.trans (List.append_assoc _ _ _)) (openings_apart _ _)
  · rw [if_neg env]
    by_cases file : "$\x7bfile:".toList.isPrefixOf rest = true
    · obtain ⟨tail, rfl⟩ := opens file
      rw [if_pos file]
      refine (target_matched opening_file target_file).trans (and_iff_right_of_imp ?_)
      rintro ⟨_, _, more, same⟩
      cases r with
      | env name => exact absurd (same.trans (List.append_assoc _ _ _)).symm (openings_apart _ _)
      | file path => exact ⟨path, rfl⟩
    · rw [if_neg file]
      refine iff_of_false nofun ?_
      rintro ⟨_, _, more, rfl⟩
      cases r with
      | env name => exact env (List.isPrefixOf_iff_prefix.mpr ⟨_, (List.append_assoc _ _ _).symm⟩)
      | file path =>
          exact file (List.isPrefixOf_iff_prefix.mpr ⟨_, (List.append_assoc _ _ _).symm⟩)

end Reference

/-- A part of a text: a character that starts no reference, or a reference. -/
inductive Piece where
  | char (c : Char)
  | reference (r : Reference)

/-- How a text is read from left to right. -/
inductive Written : Str → List Piece → Prop
  | nil : Written [] []
  | char {c : Char} {rest : Str} {ps : List Piece}
      (plain : ∀ r : Reference, r.Valid → ¬ r.text <+: c :: rest) (tail : Written rest ps) :
      Written (c :: rest) (.char c :: ps)
  | reference {r : Reference} {rest : Str} {ps : List Piece} (valid : r.Valid)
      (tail : Written rest ps) : Written (r.text ++ rest) (.reference r :: ps)

/-- The text that a piece becomes. -/
def Piece.value (repl : Reference → Except Exc Str) : Piece → Except Exc Str
  | .char c => .ok [c]
  | .reference r => repl r

namespace Reference

theorem matched_text {r : Reference} (valid : r.Valid) (rest : Str) :
    matched (r.text ++ rest) = some (r.text.length, r) :=
  matched_iff.mpr ⟨valid, rfl, rest, rfl⟩

theorem text_inj {r r' : Reference} {rest rest' : Str} (valid : r.Valid) (valid' : r'.Valid)
    (same : r.text ++ rest = r'.text ++ rest') : r = r' ∧ rest = rest' := by
  have first := matched_text valid rest
  rw [same, matched_text valid' rest'] at first
  obtain rfl : r' = r := (Prod.mk.inj (Option.some.inj first)).2
  exact ⟨rfl, List.append_cancel_left same⟩

theorem matched_none {rest : Str} :
    matched rest = none ↔ ∀ r : Reference, r.Valid → ¬ r.text <+: rest := by
  constructor
  · rintro missed r valid ⟨more, rfl⟩
    rw [matched_text valid] at missed
    cases missed
  · intro plain
    cases found : matched rest with
    | none => rfl
    | some result =>
        obtain ⟨valid, _, more, same⟩ := matched_iff.mp found
        exact absurd ⟨more, same.symm⟩ (plain result.2 valid)

theorem text_ne_nil (r : Reference) : r.text ≠ [] := by
  cases r <;> exact List.cons_ne_nil _ _

end Reference

/-- Every text is written in one way. -/
theorem exists_written (s : Str) : ∃ ps, Written s ps := by
  generalize size : s.length = n
  induction n using Nat.strongRecOn generalizing s with
  | ind n ih =>
      cases s with
      | nil => exact ⟨[], .nil⟩
      | cons c rest =>
          cases found : Reference.matched (c :: rest) with
          | none =>
              obtain ⟨ps, tail⟩ := ih rest.length (by rw [← size]; exact Nat.lt_succ_self _) rest rfl
              exact ⟨.char c :: ps, .char (Reference.matched_none.mp found) tail⟩
          | some result =>
              obtain ⟨valid, _, more, same⟩ := Reference.matched_iff.mp found
              have positive := List.length_pos_iff.mpr result.2.text_ne_nil
              have shorter : more.length < n := by
                rw [← size, same, List.length_append]
                omega
              obtain ⟨ps, tail⟩ := ih more.length shorter more rfl
              rw [same]
              exact ⟨.reference result.2 :: ps, .reference valid tail⟩

theorem Written.unique {s : Str} {ps ps' : List Piece} (written : Written s ps)
    (written' : Written s ps') : ps = ps' := by
  induction written generalizing ps' with
  | nil =>
      generalize whole : [] = text at written'
      cases written' with
      | nil => rfl
      | char _ _ => cases whole
      | @reference r rest' _ _ _ =>
          exact absurd (List.append_eq_nil_iff.mp whole.symm).1 r.text_ne_nil
  | @char c rest ps plain _ ih =>
      generalize whole : c :: rest = text at written'
      cases written' with
      | nil => cases whole
      | char _ tail =>
          cases whole
          rw [ih tail]
      | @reference r rest' _ valid _ => exact absurd ⟨rest', whole.symm⟩ (plain r valid)
  | @reference r rest ps valid _ ih =>
      generalize whole : r.text ++ rest = text at written'
      cases written' with
      | nil => exact absurd (List.append_eq_nil_iff.mp whole).1 r.text_ne_nil
      | char plain _ => exact absurd ⟨rest, whole⟩ (plain r valid)
      | reference valid' tail =>
          obtain ⟨rfl, rfl⟩ := Reference.text_inj valid valid' whole
          rw [ih tail]

variable {repl repl' : Reference → Except Exc Str}

theorem substitute_skip (front s : Str) :
    substitute repl front.length (front ++ s) = substitute repl 0 s := by
  induction front with
  | nil => rfl
  | cons c front ih =>
      rw [List.cons_append, List.length_cons, substitute]
      exact ih

/-- The pass puts the values of the pieces in a row. What it has put there it does not read. -/
theorem substitute_written {s : Str} {ps : List Piece} (written : Written s ps) :
    substitute repl 0 s = (do return (← ps.mapM (Piece.value repl)).flatten) := by
  induction written with
  | nil => rfl
  | @char c rest ps plain _ ih =>
      rw [substitute, Reference.matched_none.mpr plain]
      dsimp only
      rw [ih, List.mapM_cons]
      cases ps.mapM (Piece.value repl) <;> rfl
  | @reference r rest ps valid _ ih =>
      obtain ⟨c, tail, same⟩ := List.exists_cons_of_ne_nil r.text_ne_nil
      have found := Reference.matched_text valid rest
      have skip := @substitute_skip repl tail rest
      rw [same, List.length_cons, List.cons_append] at found
      rw [same, List.cons_append, substitute, found]
      dsimp only
      rw [Nat.add_sub_cancel, skip, ih, List.mapM_cons, Piece.value]
      cases repl r with
      | error e => rfl
      | ok text => cases ps.mapM (Piece.value repl) <;> rfl

theorem mapM_ok_iff {α β : Type} {f : α → Except Exc β} {xs : List α} {ys : List β} :
    xs.mapM f = .ok ys ↔ List.Forall₂ (fun x y => f x = .ok y) xs ys := by
  induction xs generalizing ys with
  | nil =>
      rw [List.forall₂_nil_left_iff]
      exact ⟨fun same => (Except.ok.inj same).symm, fun same => by rw [same]; rfl⟩
  | cons x xs ih =>
      rw [List.mapM_cons, List.forall₂_cons_left_iff, bind_ok]
      constructor
      · rintro ⟨y, first, rest⟩
        obtain ⟨ys', later, same⟩ := bind_ok.mp rest
        cases same
        exact ⟨y, ys', first, ih.mp later, rfl⟩
      · rintro ⟨y, ys', first, later, rfl⟩
        exact ⟨y, first, bind_ok.mpr ⟨ys', ih.mpr later, rfl⟩⟩

theorem mapM_congr {α β : Type} {f g : α → Except Exc β} {xs : List α}
    (agree : ∀ x ∈ xs, f x = g x) : xs.mapM f = xs.mapM g := by
  induction xs with
  | nil => rfl
  | cons x xs ih =>
      obtain ⟨here, later⟩ := List.forall_mem_cons.mp agree
      rw [List.mapM_cons, List.mapM_cons, here, ih later]

/-- A text becomes the values of its pieces in a row. -/
def Resolves (s t : Str) : Prop :=
  ∀ ps, Written s ps → ∃ values,
    List.Forall₂ (fun (p : Piece) value => p.value host.repl = .ok value) ps values ∧
      t = values.flatten

theorem resolveText_ok {s t : Str} (resolved : resolveText host s = .ok t) :
    Resolves host s t := by
  intro ps written
  rw [resolveText, substitute_written written] at resolved
  obtain ⟨values, mapped, same⟩ := bind_ok.mp resolved
  cases same
  exact ⟨values, mapM_ok_iff.mp mapped, rfl⟩

/-- The references of a text. -/
def NamedIn (s : Str) (r : Reference) : Prop := ∃ ps, Written s ps ∧ .reference r ∈ ps

theorem substitute_congr {s : Str} (agree : ∀ r, NamedIn s r → repl r = repl' r) :
    substitute repl 0 s = substitute repl' 0 s := by
  obtain ⟨ps, written⟩ := exists_written s
  have values : ps.mapM (Piece.value repl) = ps.mapM (Piece.value repl') := by
    refine mapM_congr fun p member => ?_
    cases p with
    | char c => rfl
    | reference r => exact agree r ⟨ps, written, member⟩
  rw [substitute_written written, substitute_written written, values]

mutual

theorem resolveTree_ok : (v : Val) → {w : Val} → resolveTree host v = .ok w →
    v.Alike w ∧ List.Forall₂ (Resolves host) v.texts w.texts
  | .str s, w, resolved => by
      obtain ⟨t, text, same⟩ := bind_ok.mp resolved
      cases same
      exact ⟨.str s t, .cons (resolveText_ok host text) .nil⟩
  | .dict entries, w, resolved => by
      obtain ⟨entries', inner, same⟩ := bind_ok.mp resolved
      cases same
      exact resolveTreeEntries_ok entries inner
  | .list items, w, resolved => by
      obtain ⟨items', inner, same⟩ := bind_ok.mp resolved
      cases same
      exact resolveTreeItems_ok items inner
  | .none, w, resolved => by
      cases resolved
      exact ⟨.same _, .nil⟩
  | .bool b, w, resolved => by
      cases resolved
      exact ⟨.same _, .nil⟩
  | .int n, w, resolved => by
      cases resolved
      exact ⟨.same _, .nil⟩
  | .float f, w, resolved => by
      cases resolved
      exact ⟨.same _, .nil⟩

theorem resolveTreeItems_ok : (items : List Val) → {items' : List Val} →
    resolveTreeItems host items = .ok items' →
    Val.Alike (.list items) (.list items') ∧
      List.Forall₂ (Resolves host) (Val.textsItems items) (Val.textsItems items')
  | [], items', resolved => by
      cases resolved
      exact ⟨.same _, .nil⟩
  | item :: items, items', resolved => by
      obtain ⟨item', first, resolved⟩ := bind_ok.mp resolved
      obtain ⟨rest, later, same⟩ := bind_ok.mp resolved
      cases same
      obtain ⟨head, texts⟩ := resolveTree_ok item first
      obtain ⟨tail, more⟩ := resolveTreeItems_ok items later
      exact ⟨.item head tail, List.rel_append texts more⟩

theorem resolveTreeEntries_ok : (entries : Dict) → {entries' : Dict} →
    resolveTreeEntries host entries = .ok entries' →
    Val.Alike (.dict entries) (.dict entries') ∧
      List.Forall₂ (Resolves host) (Val.textsEntries entries) (Val.textsEntries entries')
  | [], entries', resolved => by
      cases resolved
      exact ⟨.same _, .nil⟩
  | (key, value) :: entries, entries', resolved => by
      obtain ⟨value', first, resolved⟩ := bind_ok.mp resolved
      obtain ⟨rest, later, same⟩ := bind_ok.mp resolved
      cases same
      obtain ⟨head, texts⟩ := resolveTree_ok value first
      obtain ⟨tail, more⟩ := resolveTreeEntries_ok entries later
      exact ⟨.entry key head tail, List.rel_append texts more⟩

end

theorem bind_total {α β : Type} {x : Except Exc α} {f : α → β} :
    (∃ b, (do return f (← x) : Except Exc β) = .ok b) ↔ ∃ a, x = .ok a := by
  constructor
  · rintro ⟨b, result⟩
    obtain ⟨a, found, _⟩ := bind_ok.mp result
    exact ⟨a, found⟩
  · rintro ⟨a, rfl⟩
    exact ⟨f a, rfl⟩

theorem bind_total₂ {α β γ : Type} {x : Except Exc α} {y : Except Exc β} {f : α → β → γ} :
    (∃ c, (do let a ← x; return f a (← y) : Except Exc γ) = .ok c) ↔
      (∃ a, x = .ok a) ∧ ∃ b, y = .ok b := by
  constructor
  · rintro ⟨c, result⟩
    obtain ⟨a, first, result⟩ := bind_ok.mp result
    obtain ⟨b, second, _⟩ := bind_ok.mp result
    exact ⟨⟨a, first⟩, b, second⟩
  · rintro ⟨⟨a, rfl⟩, b, rfl⟩
    exact ⟨f a b, rfl⟩

mutual

/-- Resolving returns if and only if it does for all texts. -/
theorem resolveTree_total : (v : Val) →
    ((∃ w, resolveTree host v = .ok w) ↔ ∀ s ∈ v.texts, ∃ t, resolveText host s = .ok t)
  | .str s => by
      rw [Val.texts, List.forall_mem_singleton]
      exact bind_total
  | .dict entries => bind_total.trans (resolveTreeEntries_total entries)
  | .list items => bind_total.trans (resolveTreeItems_total items)
  | .none => iff_of_true ⟨_, rfl⟩ nofun
  | .bool _ => iff_of_true ⟨_, rfl⟩ nofun
  | .int _ => iff_of_true ⟨_, rfl⟩ nofun
  | .float _ => iff_of_true ⟨_, rfl⟩ nofun

theorem resolveTreeItems_total : (items : List Val) →
    ((∃ w, resolveTreeItems host items = .ok w) ↔
      ∀ s ∈ Val.textsItems items, ∃ t, resolveText host s = .ok t)
  | [] => iff_of_true ⟨_, rfl⟩ nofun
  | item :: items => by
      rw [Val.textsItems, List.forall_mem_append, ← resolveTree_total item,
        ← resolveTreeItems_total items]
      exact bind_total₂

theorem resolveTreeEntries_total : (entries : Dict) →
    ((∃ w, resolveTreeEntries host entries = .ok w) ↔
      ∀ s ∈ Val.textsEntries entries, ∃ t, resolveText host s = .ok t)
  | [] => iff_of_true ⟨_, rfl⟩ nofun
  | (key, value) :: entries => by
      rw [Val.textsEntries, List.forall_mem_append, ← resolveTree_total value,
        ← resolveTreeEntries_total entries]
      exact bind_total₂

end

variable {host} {host' : Host}

mutual

theorem resolveTree_congr : (v : Val) →
    (∀ s ∈ v.texts, resolveText host s = resolveText host' s) →
    resolveTree host v = resolveTree host' v
  | .str s, agree => by rw [resolveTree, resolveTree, agree s (List.mem_singleton_self s)]
  | .dict entries, agree => by rw [resolveTree, resolveTree, resolveTreeEntries_congr entries agree]
  | .list items, agree => by rw [resolveTree, resolveTree, resolveTreeItems_congr items agree]
  | .none, _ => rfl
  | .bool _, _ => rfl
  | .int _, _ => rfl
  | .float _, _ => rfl

theorem resolveTreeItems_congr : (items : List Val) →
    (∀ s ∈ Val.textsItems items, resolveText host s = resolveText host' s) →
    resolveTreeItems host items = resolveTreeItems host' items
  | [], _ => rfl
  | item :: items, agree => by
      obtain ⟨here, later⟩ := List.forall_mem_append.mp agree
      rw [resolveTreeItems, resolveTreeItems, resolveTree_congr item here,
        resolveTreeItems_congr items later]

theorem resolveTreeEntries_congr : (entries : Dict) →
    (∀ s ∈ Val.textsEntries entries, resolveText host s = resolveText host' s) →
    resolveTreeEntries host entries = resolveTreeEntries host' entries
  | [], _ => rfl
  | (key, value) :: entries, agree => by
      obtain ⟨here, later⟩ := List.forall_mem_append.mp agree
      rw [resolveTreeEntries, resolveTreeEntries, resolveTree_congr value here,
        resolveTreeEntries_congr entries later]

end

/-- The environment of a host all of whose files can be read. -/
def Host.environment (host : Host) : Environment where
  environ := host.environ
  file path := if host.isFile path then (host.readText path).toOption else none

def Reference.value (env : Environment) : Reference → Str
  | .env name => (env.environ name).getD []
  | .file path =>
      match env.file path with
      | some text => Py.strip text
      | none => []

theorem secretRef_eq (env : Environment) (before : Option Char) (rest : Str) :
    secretRef env before rest =
      (Reference.matched rest).map fun found => (found.1, found.2.value env) := by
  unfold secretRef Reference.matched
  split
  · rw [Option.map_map]
    rfl
  · split
    · rw [Option.map_map]
      rfl
    · rfl

theorem substitute_pure (env : Environment) (s : Str) : ∀ before skip,
    substitute (fun r => .ok (r.value env)) skip s = .ok (Py.sub (secretRef env) before skip s) := by
  induction s with
  | nil => intro before skip; cases skip <;> rfl
  | cons c rest ih =>
      intro before skip
      cases skip with
      | succ skip => exact ih (some c) skip
      | zero =>
          rw [substitute, Py.sub, secretRef_eq]
          cases Reference.matched (c :: rest) with
          | none =>
              dsimp only [Option.map_none]
              rw [ih (some c) 0]
              rfl
          | some found =>
              dsimp only [Option.map_some]
              rw [ih (some c) (found.1 - 1)]
              rfl

theorem Host.repl_environment {r : Reference} {text : Str} (found : host.repl r = .ok text) :
    host.repl r = .ok (r.value host.environment) := by
  cases r with
  | env name => rfl
  | file path =>
      unfold Host.repl at found ⊢
      dsimp only [Reference.value, Host.environment] at found ⊢
      by_cases present : host.isFile path = true
      · rw [if_pos present] at found ⊢
        obtain ⟨content, read, _⟩ := bind_ok.mp found
        rw [read, if_pos present]
        rfl
      · rw [if_neg present, if_neg present]

/-- Where all files can be read, this is the resolution in the environment of the host. -/
theorem resolveText_environment {s : Str}
    (readable : ∀ r, NamedIn s r → ∃ text, host.repl r = .ok text) :
    resolveText host s = .ok (resolveStr host.environment s) := by
  rw [resolveText, resolveStr, ← substitute_pure]
  refine substitute_congr fun r named => ?_
  obtain ⟨text, found⟩ := readable r named
  exact Host.repl_environment found

mutual

theorem resolveTree_environment : (v : Val) →
    (∀ s ∈ v.texts, resolveText host s = .ok (resolveStr host.environment s)) →
    resolveTree host v = .ok (resolveSecrets host.environment v)
  | .str s, readable => by
      rw [resolveTree, readable s (List.mem_singleton_self s)]
      rfl
  | .dict entries, readable => by
      rw [resolveTree, resolveTreeEntries_environment entries readable]
      rfl
  | .list items, readable => by
      rw [resolveTree, resolveTreeItems_environment items readable]
      rfl
  | .none, _ => rfl
  | .bool _, _ => rfl
  | .int _, _ => rfl
  | .float _, _ => rfl

theorem resolveTreeItems_environment : (items : List Val) →
    (∀ s ∈ Val.textsItems items, resolveText host s = .ok (resolveStr host.environment s)) →
    resolveTreeItems host items = .ok (resolveItems host.environment items)
  | [], _ => rfl
  | item :: items, readable => by
      obtain ⟨here, later⟩ := List.forall_mem_append.mp readable
      rw [resolveTreeItems, resolveTree_environment item here,
        resolveTreeItems_environment items later]
      rfl

theorem resolveTreeEntries_environment : (entries : Dict) →
    (∀ s ∈ Val.textsEntries entries, resolveText host s = .ok (resolveStr host.environment s)) →
    resolveTreeEntries host entries = .ok (resolveEntries host.environment entries)
  | [], _ => rfl
  | (key, value) :: entries, readable => by
      obtain ⟨here, later⟩ := List.forall_mem_append.mp readable
      rw [resolveTreeEntries, resolveTree_environment value here,
        resolveTreeEntries_environment entries later]
      rfl

end

/-- A tree of which every file can be read is resolved in the environment of the host. -/
theorem resolveTree_readable {v : Val}
    (readable : ∀ s ∈ v.texts, ∀ r, NamedIn s r → ∃ text, host.repl r = .ok text) :
    resolveTree host v = .ok (resolveSecrets host.environment v) :=
  resolveTree_environment v fun s member => resolveText_environment (readable s member)

/-- Two hosts answer a reference with the same variable or the same file. -/
def Host.Agree (host host' : Host) : Reference → Prop
  | .env name => host.environ name = host'.environ name
  | .file path =>
      host.isFile path = host'.isFile path ∧ host.readText path = host'.readText path

end Cti
