import Mathlib.Data.List.Forall2
import Cti.ConfigTrees

set_option autoImplicit false

/- How the fields of a model read the tree of a configuration, and which of them see what a mask
covers. -/
namespace Cti

open Py (Str)

section fields

variable {α : Type}

def scalarField (convert : Val → Option α) : Val → Option α
  | .list _ => none
  | .dict _ => none
  | v => convert v

def strField : Val → Option Str
  | .str s => some s
  | _ => none

def optionalField (field : Val → Option α) : Val → Option (Option α)
  | .none => some none
  | v => (field v).map some

def enumField (members : List α) (value : α → Str) : Val → Option α
  | .str s => members.find? fun member => value member = s
  | _ => none

def listField (field : Val → Option α) : Val → Option (List α)
  | .list items => items.mapM field
  | _ => none

/-- A dict with string keys whose values are accepted as they are. -/
def dictField (accepts : Val → Bool) : Val → Option Dict
  | .dict entries => if entries.all fun entry => accepts entry.2 then some entries else none
  | _ => none

/-- A nested model. Its other keys are ignored. -/
def modelField (read : Dict → Option α) : Val → Option α
  | .dict entries => read entries
  | _ => none

/-- A field of a model; one without a default is required. -/
def readField (entries : Dict) (key : Str) (default : Option α) (field : Val → Option α) :
    Option α :=
  match entries.get key with
  | some value => field value
  | none => default

end fields

def Val.isStr : Val → Bool
  | .str _ => true
  | _ => false

def Val.isDict : Val → Bool
  | .dict _ => true
  | _ => false

section apart

variable {hidden : Str → Bool} {α β : Type}

/-- A field that reads trees that differ under the mask the same way, up to a relation. -/
def Respects (hidden : Str → Bool) (related : α → α → Prop) (field : Val → Option α) : Prop :=
  ∀ v w, Val.Apart hidden v w → Option.Rel related (field v) (field w)

/-- A field that does not see the difference. -/
def Blind (hidden : Str → Bool) (field : Val → Option α) : Prop :=
  ∀ v w, Val.Apart hidden v w → field v = field w

theorem Blind.scalar (convert : Val → Option α) : Blind hidden (scalarField convert) := by
  intro v w apart
  cases apart <;> rfl

theorem Blind.str : Blind hidden strField := by
  intro v w apart
  cases apart <;> rfl

theorem Blind.enum (members : List α) (value : α → Str) :
    Blind hidden (enumField members value) := by
  intro v w apart
  cases apart <;> rfl

theorem Blind.optional {field : Val → Option α} (blind : Blind hidden field) :
    Blind hidden (optionalField field) := by
  intro v w apart
  have same := blind v w apart
  cases apart with
  | same v => rfl
  | item head tail => exact congrArg (Option.map some) same
  | entry key head tail => exact congrArg (Option.map some) same
  | covered key covers head tail => exact congrArg (Option.map some) same

/-- The items of lists that differ under the mask, one by one. -/
theorem Val.Apart.items {vs ws : List Val} (apart : Val.Apart hidden (.list vs) (.list ws)) :
    List.Forall₂ (Val.Apart hidden) vs ws := by
  generalize left : Val.list vs = v at apart
  generalize right : Val.list ws = w at apart
  induction apart generalizing vs ws with
  | same v =>
      rw [← left, Val.list.injEq] at right
      rw [right]
      exact List.forall₂_same.mpr fun item _ => .same item
  | item head tail _ rest =>
      cases left
      cases right
      exact .cons head (rest rfl rfl)
  | entry => cases left
  | covered => cases left

theorem rel_bind {γ δ : Type} {related : α → β → Prop} {related' : γ → δ → Prop} {x : Option α}
    {y : Option β} {f : α → Option γ} {g : β → Option δ} (first : Option.Rel related x y)
    (rest : ∀ a b, related a b → Option.Rel related' (f a) (g b)) :
    Option.Rel related' (x >>= f) (y >>= g) := by
  cases first with
  | none => exact .none
  | some same => exact rest _ _ same

theorem rel_eq {x y : Option α} : Option.Rel Eq x y ↔ x = y := by
  constructor
  · intro related
    cases related with
    | none => rfl
    | some same => rw [same]
  · rintro rfl
    cases x with
    | none => exact .none
    | some a => exact .some rfl

theorem rel_some_left {related : α → β → Prop} {a : α} {y : Option β}
    (between : Option.Rel related (some a) y) : ∃ b, y = some b ∧ related a b := by
  cases between with
  | some relation => exact ⟨_, rfl, relation⟩

theorem Respects.mapM {related : α → α → Prop} {field : Val → Option α}
    (respects : Respects hidden related field) {vs ws : List Val}
    (apart : List.Forall₂ (Val.Apart hidden) vs ws) :
    Option.Rel (List.Forall₂ related) (vs.mapM field) (ws.mapM field) := by
  induction apart with
  | nil => exact .some .nil
  | cons head _ rest =>
      rw [List.mapM_cons, List.mapM_cons]
      refine rel_bind (respects _ _ head) fun a b first => ?_
      exact rel_bind rest fun as bs others => .some (.cons first others)

theorem Respects.list {related : α → α → Prop} {field : Val → Option α}
    (respects : Respects hidden related field) :
    Respects hidden (List.Forall₂ related) (listField field) := by
  intro v w apart
  have items : ∀ {vs ws}, Val.Apart hidden (.list vs) (.list ws) →
      Option.Rel (List.Forall₂ related) (vs.mapM field) (ws.mapM field) :=
    fun apart => respects.mapM apart.items
  cases apart with
  | same v =>
      cases v with
      | list vs => exact items (.same _)
      | _ => exact .none
  | item head tail => exact items (.item head tail)
  | entry => exact .none
  | covered => exact .none

theorem Blind.list {field : Val → Option α} (blind : Blind hidden field) :
    Blind hidden (listField field) := by
  intro v w apart
  have respects : Respects hidden Eq field := fun v w apart => rel_eq.mpr (blind v w apart)
  have related := respects.list v w apart
  rw [List.forall₂_eq_eq_eq] at related
  exact rel_eq.mp related

/-- Values of a key that no mask covers. -/
theorem Val.Apart.get {vs ws : Dict} (apart : Val.Apart hidden (.dict vs) (.dict ws)) {key : Str}
    (plain : hidden key = false) : Option.Rel (Val.Apart hidden) (vs.get key) (ws.get key) := by
  generalize left : Val.dict vs = v at apart
  generalize right : Val.dict ws = w at apart
  unfold Dict.get
  induction apart generalizing vs ws with
  | same v =>
      rw [← left, Val.dict.injEq] at right
      rw [right]
      cases vs.lookup key with
      | none => exact .none
      | some value => exact .some (.same value)
  | item => cases left
  | @entry name v w vs' ws' head tail _ rest =>
      cases left
      cases right
      rw [List.lookup_cons, List.lookup_cons]
      split
      · exact .some head
      · exact rest rfl rfl
  | @covered name v w vs' ws' covers head tail rest =>
      cases left
      cases right
      have other : (key == name) = false := by
        by_contra same
        have same : key = name := by simpa using same
        rw [same, covers] at plain
        cases plain
      rw [List.lookup_cons, List.lookup_cons, other]
      exact rest rfl rfl

theorem Val.Apart.readField {vs ws : Dict} (apart : Val.Apart hidden (.dict vs) (.dict ws))
    {key : Str} (plain : hidden key = false) {related : α → α → Prop} {default : Option α}
    (same : Option.Rel related default default) {field : Val → Option α}
    (respects : Respects hidden related field) :
    Option.Rel related (readField vs key default field) (readField ws key default field) := by
  have found := apart.get plain
  unfold Cti.readField
  generalize vs.get key = x at found ⊢
  generalize ws.get key = y at found ⊢
  cases found with
  | none => exact same
  | some value => exact respects _ _ value

theorem Val.Apart.readField_eq {vs ws : Dict} (apart : Val.Apart hidden (.dict vs) (.dict ws))
    {key : Str} (plain : hidden key = false) {default : Option α} {field : Val → Option α}
    (blind : Blind hidden field) :
    Cti.readField vs key default field = Cti.readField ws key default field :=
  rel_eq.mp (apart.readField plain (rel_eq.mpr rfl) fun v w apart => rel_eq.mpr (blind v w apart))

/-- A model respects what its fields respect. -/
theorem Respects.model {related : α → α → Prop} {read : Dict → Option α}
    (respects : ∀ {vs ws}, Val.Apart hidden (.dict vs) (.dict ws) →
      Option.Rel related (read vs) (read ws)) : Respects hidden related (modelField read) := by
  intro v w apart
  cases apart with
  | same v =>
      cases v with
      | dict vs => exact respects (.same _)
      | _ => exact .none
  | item => exact .none
  | entry key head tail => exact respects (.entry key head tail)
  | covered key covers head tail => exact respects (.covered key covers head tail)

theorem Blind.model {read : Dict → Option α}
    (blind : ∀ {vs ws}, Val.Apart hidden (.dict vs) (.dict ws) → read vs = read ws) :
    Blind hidden (modelField read) := fun v w apart =>
  rel_eq.mp (Respects.model (fun apart => rel_eq.mpr (blind apart)) v w apart)

theorem Val.Alike.all_accept {accepts : Val → Bool}
    (alike : ∀ {v w}, Val.Alike v w → accepts v = accepts w) {vs ws : Dict}
    (entries : Val.Alike (.dict vs) (.dict ws)) :
    (vs.all fun entry => accepts entry.2) = ws.all fun entry => accepts entry.2 := by
  generalize left : Val.dict vs = v at entries
  generalize right : Val.dict ws = w at entries
  induction entries generalizing vs ws with
  | same v =>
      rw [← left, Val.dict.injEq] at right
      rw [right]
  | str => cases left
  | item => cases left
  | entry key head tail _ rest =>
      cases left
      cases right
      rw [List.all_cons, List.all_cons, alike head, rest rfl rfl]

/-- A dict is taken as it is. -/
theorem Respects.dict {accepts : Val → Bool}
    (alike : ∀ {v w}, Val.Alike v w → accepts v = accepts w) :
    Respects hidden (fun vs ws => Val.Apart hidden (.dict vs) (.dict ws)) (dictField accepts) := by
  refine Respects.model fun {vs ws} apart => ?_
  rw [apart.alike.all_accept alike]
  split
  · exact .some apart
  · exact .none

theorem Val.Alike.isStr {v w : Val} (alike : Val.Alike v w) : v.isStr = w.isStr := by
  cases alike <;> rfl

theorem Val.Alike.isDict {v w : Val} (alike : Val.Alike v w) : v.isDict = w.isDict := by
  cases alike <;> rfl

end apart

end Cti
