import Cti.StageContracts

set_option autoImplicit false

/- Plugins that share their environment with others. -/
namespace Cti

open Py (Str)

/-- How a shared part of the environment may change while a plugin that does not write to it
is called. -/
structure Drift (L : Type) where
  Keeps : L → L → Prop
  refl : ∀ l, Keeps l l

variable {L T : Type} (D : Drift L)

/-- A call that does not write to the shared part. -/
def Call.beside {α : Type} (call : Call T α) : Call (L × T) α where
  returns s a s' := D.Keeps s.1 s'.1 ∧ call.returns s.2 a s'.2
  raises s e s' := D.Keeps s.1 s'.1 ∧ call.raises s.2 e s'.2
  answers s := by
    rcases call.answers s.2 with ⟨a, t, result⟩ | ⟨e, t, result⟩
    · exact Or.inl ⟨a, (s.1, t), D.refl s.1, result⟩
    · exact Or.inr ⟨e, (s.1, t), D.refl s.1, result⟩

namespace Plugin

def Connector.beside (connector : Connector T) : Connector (L × T) where
  Gen := connector.Gen
  fetch := connector.fetch
  resume gen :=
    { returns := fun s a s' => D.Keeps s.2.1 s'.2.1 ∧
        (connector.resume gen).returns (s.1, s.2.2) a (s'.1, s'.2.2)
      raises := fun s e s' => D.Keeps s.2.1 s'.2.1 ∧
        (connector.resume gen).raises (s.1, s.2.2) e (s'.1, s'.2.2)
      answers := fun s => by
        rcases (connector.resume gen).answers (s.1, s.2.2) with ⟨a, t, result⟩ | ⟨e, t, result⟩
        · exact Or.inl ⟨a, (t.1, s.2.1, t.2), D.refl _, result⟩
        · exact Or.inr ⟨e, (t.1, s.2.1, t.2), D.refl _, result⟩ }

def Parser.beside (parser : Parser T) : Parser (L × T) where
  Gen := parser.Gen
  parse := parser.parse
  resume gen ctx := (parser.resume gen ctx).beside D

def Enricher.beside (enricher : Enricher T) : Enricher (L × T) :=
  ⟨fun ind ctx => (enricher.enrich ind ctx).beside D⟩

def Publisher.beside (publisher : Publisher T) : Publisher (L × T) :=
  ⟨publisher.name, fun batch ctx => (publisher.publish batch ctx).beside D⟩

def RawArchive.beside (archive : RawArchive T) : RawArchive (L × T) :=
  ⟨fun ctx payload => (archive.put ctx payload).beside D⟩

def BloomCache.beside (bloom : BloomCache T) : BloomCache (L × T) :=
  ⟨bloom.redis.map fun execute id => (execute id).beside D⟩

end Plugin

/-- What a plugin that does not write to the shared part leaves of the world. -/
def Aside (w w' : World (L × T)) : Prop :=
  D.Keeps w.env.1 w'.env.1 ∧ w'.published = w.published

theorem Call.beside_moves {α : Type} (call : Call T α) (w : World (L × T)) :
    (call.beside D).Moves (Aside D) w :=
  ⟨fun _ _ result => ⟨result.1, rfl⟩, fun _ _ result => ⟨result.1, rfl⟩⟩

theorem fetch_aside (connector : Plugin.Connector T) (archive : Option (Plugin.RawArchive T))
    {pc : FetchPc (L × T) connector.Gen} (own : pc.Own (archive.map (·.beside D))) :
    (fetchAct (connector.beside D) (archive.map (·.beside D)) pc).Keeps (Aside D) := by
  cases pc with
  | pulling gen =>
      constructor
      · rintro w w' next ⟨answer, ctx, env, answered, after⟩
        cases answer with
        | none =>
            obtain ⟨rfl, _⟩ := after
            exact ⟨answered.1, rfl⟩
        | some yielded =>
            obtain ⟨rfl, _⟩ := after
            exact ⟨answered.1, rfl⟩
      · rintro w e w' ⟨ctx, env, raised, rfl⟩
        exact ⟨raised.1, rfl⟩
  | archiving mine payload gen =>
      obtain ⟨inner, _, rfl⟩ := Option.map_eq_some_iff.mp own
      constructor
      · rintro w w' next ⟨uri, env, put, rfl, _⟩
        exact ⟨put.1, rfl⟩
      · rintro w e w' ⟨env, failed, rfl⟩
        exact ⟨failed.1, rfl⟩
  | _ => trivial

theorem add_aside {bloom : Option (Plugin.BloomCache T)} {execute : Uuid → Call (L × T) Unit}
    (own : (bloom.map (·.beside D)).bind Plugin.BloomCache.redis = some execute) (id : Uuid)
    (w : World (L × T)) : (Plugin.BloomCache.add execute id).Moves (Aside D) w := by
  have moves : (execute id).Moves (Aside D) w := by
    rcases bloom with _ | ⟨_ | inner⟩
    · cases own
    · cases own
    · cases own
      exact Call.beside_moves D (inner id) w
  refine ⟨?_, fun _ _ => False.elim⟩
  rintro a env (result | ⟨e, result⟩)
  · exact moves.1 _ _ result
  · exact moves.2 _ _ result

end Cti
