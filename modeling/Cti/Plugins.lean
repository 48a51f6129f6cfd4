import Cti.Normalize
import Cti.Repositories
import Cti.TaskNet

set_option autoImplicit false

/- What the stages call but do not define: connectors, parsers, enrichers, publishers, the
archive and the bloom filter. `S` is the state of everything behind them. -/
namespace Cti

open Py (Str)
open TaskNet (Action)

/-- Every exception of the tree is an `Exception`. -/
def ExcTree.IsException (tree : ExcTree) : Prop := ∀ e ∈ tree.flatten, e.isA .exception = true

/-- What a plugin may raise. -/
abbrev Failure := { tree : ExcTree // tree.IsException }

def Failure.leaf (e : Exc) (exception : e.isA .exception = true) : Failure :=
  ⟨.leaf e, by simpa [ExcTree.IsException, ExcTree.flatten] using exception⟩

/-- A call of a plugin: it returns or raises, in the ways its relations allow. -/
structure Call (S α : Type) where
  returns : S → α → S → Prop
  raises : S → Failure → S → Prop
  answers : ∀ s, (∃ a s', returns s a s') ∨ ∃ e s', raises s e s'

namespace Call

variable {S α : Type}

/-- A plugin that answers at once. -/
def pure (a : α) : Call S α where
  returns s b s' := b = a ∧ s' = s
  raises _ _ _ := False
  answers s := Or.inl ⟨a, s, rfl, rfl⟩

/-- A plugin that raises at once. -/
def fails (failure : Failure) : Call S α where
  returns _ _ _ := False
  raises s e s' := e = failure ∧ s' = s
  answers s := Or.inr ⟨failure, s, rfl, rfl⟩

end Call

namespace Plugin

variable (S : Type)

/-- `fetch` is an asynchronous generator; `resume` asks it for the next payload. Of the
context it changes the watermark. -/
structure Connector where
  Gen : Type
  fetch : Gen
  resume : Gen → Call (RunContext × S) (Option (RawPayload × Gen))

structure Parser where
  Gen : Type
  parse : RawPayload → Gen
  resume : Gen → RunContext → Call S (Option (Record × Gen))

structure Enricher where
  enrich : Indicator → RunContext → Call S (Option Indicator)

structure Publisher where
  name : Str
  publish : List Sighting → RunContext → Call S Unit

structure RawArchive where
  put : RunContext → RawPayload → Call S Str

/-- `BloomCache`: its client, if it has one, with the `BF.ADD` command. -/
structure BloomCache where
  redis : Option (Uuid → Call S Unit)

variable {S}

/-- `BloomCache.add`: the filter is advisory, so that a failing client is ignored. -/
def BloomCache.add (execute : Uuid → Call S Unit) (id : Uuid) : Call S Unit where
  returns s _ s' := (execute id).returns s () s' ∨ ∃ e, (execute id).raises s e s'
  raises _ _ _ := False
  answers s := by
    rcases (execute id).answers s with ⟨a, s', result⟩ | ⟨e, s', result⟩
    · exact Or.inl ⟨(), s', Or.inl result⟩
    · exact Or.inl ⟨(), s', Or.inr ⟨e, result⟩⟩

end Plugin

/-- What the stages of one run share. `fetched` and `published` record the payloads that the
connector has yielded and the batches that the canonical publisher has taken. -/
structure World (S : Type) where
  ctx : RunContext
  env : S
  fetched : List RawPayload
  published : List (List Sighting)

/-- An await on a plugin; `after` is what the stage does with the answer to the world. -/
def Call.await {S α β γ Pc : Type} (call : RunContext → Call S α)
    (after : α → World S → World S) (next : α → Pc) : Action (World S) Failure β γ Pc :=
  .call
    (fun w w' pc => ∃ a s', (call w.ctx).returns w.env a s' ∧ w' = after a { w with env := s' } ∧
      pc = next a)
    (fun w e w' => ∃ s', (call w.ctx).raises w.env e s' ∧ w' = { w with env := s' })

/-- A statement that raises. -/
def raising {S β γ Pc : Type} (failure : Failure) : Action (World S) Failure β γ Pc :=
  .call (fun _ _ _ => False) (fun w e w' => e = failure ∧ w' = w)

section exceptions

variable {α β : Type}

/-- Whatever the computation raises is of a class. -/
def Raises (base : ClassName) (x : Except Exc α) : Prop := ∀ e, x = .error e → e.isA base = true

theorem Raises.ok {base : ClassName} (a : α) : Raises base (.ok a) := nofun

theorem Raises.error {base : ClassName} {e : Exc} (raised : e.isA base = true) :
    Raises base (.error e : Except Exc α) := by
  intro e' same
  cases same
  exact raised

theorem Raises.bind {base : ClassName} {x : Except Exc α} {f : α → Except Exc β}
    (first : Raises base x) (rest : ∀ a, Raises base (f a)) : Raises base (x >>= f) := by
  cases x with
  | error e => exact Raises.error (first e rfl)
  | ok a => exact rest a

/-- Whatever the computation raises is an `Exception`. -/
def Exceptional (x : Except Exc α) : Prop := ∀ e, x = .error e → e.isA .exception = true

theorem Exceptional.ok (a : α) : Exceptional (.ok a) := Raises.ok a

theorem Exceptional.error {e : Exc} (exception : e.isA .exception = true) :
    Exceptional (.error e : Except Exc α) :=
  Raises.error exception

theorem Exceptional.bind {x : Except Exc α} {f : α → Except Exc β} (first : Exceptional x)
    (rest : ∀ a, Exceptional (f a)) : Exceptional (x >>= f) :=
  Raises.bind first rest

theorem Raises.exceptional {base : ClassName} (inherits : .exception ∈ base.mro) {x : Except Exc α}
    (raises : Raises base x) : Exceptional x :=
  fun e failed => Exc.isA_of_mro inherits (raises e failed)

end exceptions

section normalize

variable (R : Runtime)

theorem checkLabels_raises (labels : List Str) : Raises .valueError (checkLabels labels) := by
  induction labels with
  | nil => exact .ok ()
  | cons label labels ih =>
      unfold checkLabels
      split
      · exact ih
      · exact .error rfl

theorem canonicalDomain_raises (value : Str) : Raises .valueError (canonicalDomain R value) := by
  unfold canonicalDomain
  split
  · exact .error rfl
  · exact .bind (checkLabels_raises _) (fun _ => .ok _)

theorem canonicalHash_raises (t : IndicatorType) (expected : Nat) (value : Str) :
    Raises .valueError (canonicalHash R t expected value) := by
  simp only [canonicalHash]
  split
  · exact .error rfl
  · exact .ok _

theorem canonicalUrl_raises (value : Str) : Raises .valueError (canonicalUrl R value) := by
  unfold canonicalUrl
  split
  · exact .error rfl
  · split
    · exact .error rfl
    · exact .ok _

theorem canonicalEmail_raises (value : Str) : Raises .valueError (canonicalEmail R value) := by
  unfold canonicalEmail
  split
  · exact .error rfl
  · exact .bind (canonicalDomain_raises R _) (fun _ => .ok _)

theorem canonicalize_raises (t : IndicatorType) (value : Str) :
    Raises .valueError (canonicalize R t value) := by
  simp only [canonicalize]
  split
  · exact .error rfl
  · cases t with
    | ipv4 => dsimp only; split <;> first | exact .ok _ | exact .error rfl
    | ipv6 => dsimp only; split <;> first | exact .ok _ | exact .error rfl
    | domain => exact canonicalDomain_raises R _
    | url => exact canonicalUrl_raises R _
    | sha256 => exact canonicalHash_raises R _ _ _
    | sha1 => exact canonicalHash_raises R _ _ _
    | md5 => exact canonicalHash_raises R _ _ _
    | email => exact canonicalEmail_raises R _
    | _ => exact .ok _

theorem build_raises (t : IndicatorType) (value : Str) (fields : IndicatorFields) :
    Raises .valueError (Indicator.build R t value fields) := by
  unfold Indicator.build indicatorUuid
  refine .bind (canonicalize_raises R t value) ?_
  intro canonical
  refine .bind (.bind (canonicalize_raises R t canonical) (fun _ => .ok _)) ?_
  intro id
  split
  · exact .ok _
  · exact .error rfl

theorem intOf_exceptional (value : Val) : Exceptional (intOf R R.unicode value) := by
  cases value with
  | float f => cases f <;> first | exact .ok _ | exact .error rfl
  | str s =>
      simp only [intOf]
      split
      · exact .ok _
      · exact .error rfl
  | _ => first | exact .ok _ | exact .error rfl

theorem recordConfidence_exceptional (record : Record) (cfg : NormalizeConfig) :
    Exceptional (recordConfidence R record cfg) := by
  unfold recordConfidence
  split
  · exact .ok _
  · rename_i value found
    split
    · exact .ok _
    · rename_i e failed
      split
      · exact .ok _
      · exact .error (intOf_exceptional R value e failed)

theorem recordType_raises (record : Record) (cfg : NormalizeConfig) :
    Raises .permanentError (recordType R record cfg) := by
  have coerce : ∀ raw, Raises .permanentError (coerceType R raw) := by
    intro raw
    unfold coerceType
    split
    · exact .ok _
    · exact .error rfl
  unfold recordType
  split
  · split
    · split
      · exact .bind (coerce _) (fun _ => .ok _)
      · exact .ok _
    · exact .ok _
  · split
    · exact .ok _
    · exact .error rfl

theorem normalizeRecord_exceptional (record : Record) (cfg : NormalizeConfig) (first last : Int) :
    Exceptional (normalizeRecord R record cfg first last) := by
  have built : Exceptional (recordToIndicator R record cfg first last) := by
    unfold recordToIndicator
    refine .bind ((recordType_raises R record cfg).exceptional (by decide)) ?_
    intro t
    split
    · exact .ok _
    · split
      · exact .ok _
      · refine .bind (recordConfidence_exceptional R record cfg) ?_
        intro confidence
        exact .bind ((build_raises R _ _ _).exceptional (by decide)) (fun _ => .ok _)
  unfold normalizeRecord
  split
  · exact .ok _
  · rename_i e failed
    split
    · exact .ok _
    · exact .error (built e failed)

end normalize

end Cti
