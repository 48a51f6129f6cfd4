import Cti.ConfigTrees

set_option autoImplicit false

/- Secret references in a configuration, and what the environments put in their places. -/
namespace Cti

open Py (Str)

/-- The environment variables, and the texts of the files. -/
structure Environment where
  environ : Str → Option Str
  file : Str → Option Str

/-- `([^}]+)\}`: the target of a reference. -/
def referenceTarget (rest : Str) : Option Str :=
  let target := rest.takeWhile (· ≠ '}')
  if target = [] || target.length = rest.length then none else some target

/-- `_REF_RE`, with what `repl` puts in the place of a match. -/
def secretRef (env : Environment) : Py.Matcher := fun _ rest =>
  if "$\x7benv:".toList.isPrefixOf rest then
    (referenceTarget (rest.drop 6)).map fun target =>
      (target.length + 7, (env.environ target).getD [])
  else if "$\x7bfile:".toList.isPrefixOf rest then
    (referenceTarget (rest.drop 7)).map fun target =>
      (target.length + 8, match env.file target with
        | some text => Py.strip text
        | none => [])
  else none

/-- `_resolve_str`. -/
def resolveStr (env : Environment) (value : Str) : Str := Py.sub (secretRef env) none 0 value

variable (env : Environment)

mutual

/-- `resolve_secrets`. -/
def resolveSecrets : Val → Val
  | .str s => .str (resolveStr env s)
  | .dict entries => .dict (resolveEntries entries)
  | .list items => .list (resolveItems items)
  | v => v

def resolveItems : List Val → List Val
  | [] => []
  | item :: items => resolveSecrets item :: resolveItems items

def resolveEntries : Dict → Dict
  | [] => []
  | (key, value) :: entries => (key, resolveSecrets value) :: resolveEntries entries

end

example : resolveStr ⟨fun name => if name = "A".toList then some "1".toList else none, fun _ => none⟩
    "x$\x7benv:A\x7d$\x7benv:\x7d$\x7bfile:B\x7d".toList = "x1$\x7benv:\x7d".toList := by decide

variable (env₁ env₂ : Environment)

mutual

/-- Resolution changes texts only. -/
theorem resolve_alike : (v : Val) →
    Val.Alike (resolveSecrets env₁ v) (resolveSecrets env₂ v)
  | .none => .same _
  | .bool _ => .same _
  | .int _ => .same _
  | .float _ => .same _
  | .str _ => .str _ _
  | .list items => resolveItems_alike items
  | .dict entries => resolveEntries_alike entries

theorem resolveItems_alike : (items : List Val) →
    Val.Alike (.list (resolveItems env₁ items)) (.list (resolveItems env₂ items))
  | [] => .same _
  | item :: items => .item (resolve_alike item) (resolveItems_alike items)

theorem resolveEntries_alike : (entries : Dict) →
    Val.Alike (.dict (resolveEntries env₁ entries)) (.dict (resolveEntries env₂ entries))
  | [] => .same _
  | (key, value) :: entries => .entry key (resolve_alike value) (resolveEntries_alike entries)

end

variable {env₁ env₂} {hidden : Str → Bool}

mutual

/-- Environments that agree on what no mask covers give trees that differ under the mask
only. -/
theorem resolve_apart : (v : Val) →
    (∀ s ∈ v.shown hidden, resolveStr env₁ s = resolveStr env₂ s) →
    Val.Apart hidden (resolveSecrets env₁ v) (resolveSecrets env₂ v)
  | .none, _ => .same _
  | .bool _, _ => .same _
  | .int _, _ => .same _
  | .float _, _ => .same _
  | .str s, agree => by
      rw [resolveSecrets, resolveSecrets, agree s (List.mem_singleton_self s)]
      exact .same _
  | .list items, agree => resolveItems_apart items agree
  | .dict entries, agree => resolveEntries_apart entries agree

theorem resolveItems_apart : (items : List Val) →
    (∀ s ∈ Val.shownItems hidden items, resolveStr env₁ s = resolveStr env₂ s) →
    Val.Apart hidden (.list (resolveItems env₁ items)) (.list (resolveItems env₂ items))
  | [], _ => .same _
  | item :: items, agree =>
      .item (resolve_apart item fun s member => agree s (List.mem_append_left _ member))
        (resolveItems_apart items fun s member => agree s (List.mem_append_right _ member))

theorem resolveEntries_apart : (entries : Dict) →
    (∀ s ∈ Val.shownEntries hidden entries, resolveStr env₁ s = resolveStr env₂ s) →
    Val.Apart hidden (.dict (resolveEntries env₁ entries)) (.dict (resolveEntries env₂ entries))
  | [], _ => .same _
  | (key, value) :: entries, agree => by
      have rest := resolveEntries_apart entries fun s member =>
        agree s (List.mem_append_right _ member)
      by_cases covers : hidden key = true
      · exact .covered key covers (resolve_alike env₁ env₂ value) rest
      · refine .entry key (resolve_apart value fun s member => agree s ?_) rest
        rw [Val.shownEntries, if_neg covers]
        exact List.mem_append_left _ member

end

end Cti
