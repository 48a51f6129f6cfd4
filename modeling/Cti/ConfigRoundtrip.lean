import Cti.HttpApi
import Cti.JsonRoundtrip
import Cti.SecretRefs

set_option autoImplicit false

/- What the API shows of the configured sources, taken in again as a configuration. -/
namespace Cti

open Py (Str Unicode)

/-- Numbers and truth values are taken as they are. -/
structure Coercions.Plain (C : Coercions) : Prop where
  int : ∀ n, C.toInt (.int n) = some n
  float : ∀ f, C.toFloat (.float f) = some f
  bool : ∀ b, C.toBool (.bool b) = some b

section fields

variable {α : Type} {C : Coercions}

theorem Coercions.Plain.intField (plain : C.Plain) (n : Int) : intField C (.int n) = some n :=
  plain.int n

theorem Coercions.Plain.floatField (plain : C.Plain) (f : PyFloat) :
    floatField C (.float f) = some f := plain.float f

theorem Coercions.Plain.boolField (plain : C.Plain) (b : Bool) : boolField C (.bool b) = some b :=
  plain.bool b

variable {U : Unicode}

end fields

/-- What validation has checked of a source. -/
structure ConfiguredSource.Valid (U : Unicode) (c : ConfiguredSource) : Prop where
  slug : slugField U (.str c.id) = some c.id
  enricherParams : c.enricherParams.all (fun entry => entry.2.isDict) = true
  publisherParams : c.publisherParams.all (fun entry => entry.2.isDict) = true
  extraFieldMap : c.extraFieldMap.all (fun entry => entry.2.isStr) = true

section sources

variable {C : Coercions} {U : Unicode}

end sources

section references

variable {env : Environment}

/-- The environment gives back the references of a text as they are written. -/
def Returned (env : Environment) (s : Str) : Prop := ∀ r, NamedIn s r → r.value env = r.text

theorem substitute_text (s : Str) : substitute (fun r => .ok r.text) 0 s = .ok s := by
  obtain ⟨ps, written⟩ := exists_written s
  rw [substitute_written written]
  induction written with
  | nil => rfl
  | char _ _ ih =>
      obtain ⟨values, mapped, whole⟩ := bind_ok.mp ih
      rw [List.mapM_cons, mapped]
      cases whole
      rfl
  | reference _ _ ih =>
      obtain ⟨values, mapped, whole⟩ := bind_ok.mp ih
      rw [List.mapM_cons, mapped]
      cases whole
      rfl

theorem Returned.resolveStr {s : Str} (returned : Returned env s) : resolveStr env s = s := by
  have pure := substitute_pure env s none 0
  have same : substitute (fun r => .ok (r.value env)) 0 s = substitute (fun r => .ok r.text) 0 s :=
    substitute_congr fun r named => congrArg Except.ok (returned r named)
  rw [same, substitute_text] at pure
  exact (Except.ok.inj pure).symm

mutual

theorem resolveSecrets_returned : (v : Val) → (∀ s ∈ v.texts, Returned env s) →
    resolveSecrets env v = v
  | .str s, returned => congrArg Val.str (returned s (List.mem_singleton_self s)).resolveStr
  | .dict entries, returned => congrArg Val.dict (resolveEntries_returned entries returned)
  | .list items, returned => congrArg Val.list (resolveItems_returned items returned)
  | .none, _ => rfl
  | .bool _, _ => rfl
  | .int _, _ => rfl
  | .float _, _ => rfl

theorem resolveItems_returned : (items : List Val) →
    (∀ s ∈ Val.textsItems items, Returned env s) → resolveItems env items = items
  | [], _ => rfl
  | item :: items, returned => by
      obtain ⟨here, later⟩ := List.forall_mem_append.mp returned
      rw [resolveItems, resolveSecrets_returned item here, resolveItems_returned items later]

theorem resolveEntries_returned : (entries : Dict) →
    (∀ s ∈ Val.textsEntries entries, Returned env s) → resolveEntries env entries = entries
  | [], _ => rfl
  | (key, value) :: entries, returned => by
      obtain ⟨here, later⟩ := List.forall_mem_append.mp returned
      rw [resolveEntries, resolveSecrets_returned value here,
        resolveEntries_returned entries later]

end

end references

section reload

variable {C : Coercions} {U : Unicode} {env : Environment} {raw : Val}
  {registry : List ConfiguredSource}

end reload

end Cti
