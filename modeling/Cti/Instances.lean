import Mathlib.Data.List.Basic
import Mathlib.Data.List.Range
import Cti.Builder

set_option autoImplicit false

/- The plugin instances that `build_pipeline_spec` makes for a run, also where it stops half
way, and those that the runner closes. -/
namespace Cti

open Py (Str)

/-- What is handed to `instantiate`. -/
inductive PluginRef where
  | connector (name : Str) (params : Dict)
  | parser (name : Str) (params : Dict)
  | enricher (name : Str) (params : Dict)
  | publisher (name : Str) (params : Dict)

/-- A computation that makes instances; an instance is known by its place among them. -/
def Build (α : Type) : Type := List PluginRef → Except Exc α × List PluginRef

namespace Build

variable {α β : Type}

def pure (a : α) : Build α := fun made => (.ok a, made)

def raise (e : Exc) : Build α := fun made => (.error e, made)

def bind (x : Build α) (f : α → Build β) : Build β := fun made =>
  match x made with
  | (.ok a, made') => f a made'
  | (.error e, made') => (.error e, made')

end Build

/-- The names of the publishers, with postgres among them. -/
def SourceConfig.pubNames (source : SourceConfig) : List Str :=
  let pubNames := if source.publishers = [] then ["postgres".toList] else source.publishers
  if pubNames.contains "postgres".toList then pubNames else "postgres".toList :: pubNames

def SourceConfig.enricherRef (source : SourceConfig) (name : Str) : PluginRef :=
  .enricher name ((source.enricherParams.lookup name).getD [])

def SourceConfig.publisherRef (source : SourceConfig) (name : Str) : PluginRef :=
  .publisher name ((source.publisherParams.lookup name).getD [])

/-- The instances of a pipeline. -/
structure PipelineInstances where
  connector : Nat
  parser : Nat
  enrichers : List Nat
  canonicalPublisher : Nat
  extraPublishers : List Nat

/-- The order in which the runner closes them. -/
def PipelineInstances.closing (spec : PipelineInstances) : List Nat :=
  [spec.connector, spec.parser, spec.canonicalPublisher] ++ spec.enrichers ++ spec.extraPublishers

section build

variable (loads : Nat → PluginRef → Except Exc Unit)

/-- `instantiate`: the class is loaded, its configuration is validated and the class is called.
Whether that works may differ from call to call. -/
def instantiate (ref : PluginRef) : Build Nat := fun made =>
  match loads made.length ref with
  | .ok _ => (.ok made.length, made ++ [ref])
  | .error e => (.error e, made)

def instantiateAll : List PluginRef → Build (List Nat)
  | [] => .pure []
  | ref :: refs =>
      .bind (instantiate loads ref) fun first =>
      .bind (instantiateAll refs) fun rest => .pure (first :: rest)

/-- The loop over the names of the publishers. -/
def splitInstances (ref : Str → PluginRef) :
    List Str → Option Nat → List Nat → Build (Option Nat × List Nat)
  | [], canonical, extras => .pure (canonical, extras)
  | name :: names, canonical, extras =>
      .bind (instantiate loads (ref name)) fun made =>
        if name = "postgres".toList ∧ canonical.isNone then
          splitInstances ref names (some made) extras
        else splitInstances ref names canonical (extras ++ [made])

/-- `build_pipeline_spec`, with the instances that it makes. -/
def buildInstances (source : SourceConfig) : Build PipelineInstances :=
  .bind (instantiate loads (.connector source.plugin source.params)) fun connector =>
  .bind (instantiate loads (.parser source.parser source.parserParams)) fun parser =>
  .bind (instantiateAll loads (source.enrichers.map source.enricherRef)) fun enrichers =>
  .bind (splitInstances loads source.publisherRef source.pubNames none []) fun
    | (none, _) => .raise (pyError ["AssertionError".toList] [])
    | (some canonical, extras) => .pure ⟨connector, parser, enrichers, canonical, extras⟩

/-- All that a source asks for, in the order in which it is made. -/
def SourceConfig.pluginRefs (source : SourceConfig) : List PluginRef :=
  [.connector source.plugin source.params, .parser source.parser source.parserParams] ++
    source.enrichers.map source.enricherRef ++ source.pubNames.map source.publisherRef

/-- The instances that are made until one fails. -/
def loadedFrom : Nat → List PluginRef → List PluginRef
  | _, [] => []
  | n, ref :: refs =>
      match loads n ref with
      | .ok _ => ref :: loadedFrom (n + 1) refs
      | .error _ => []

/-- Every plugin of the source can be made. -/
def SourceConfig.Loads (source : SourceConfig) : Prop :=
  loadedFrom loads 0 source.pluginRefs = source.pluginRefs

end build

section loaded

variable {loads : Nat → PluginRef → Except Exc Unit}

theorem loadedFrom_append {n : Nat} {refs : List PluginRef} (all : loadedFrom loads n refs = refs)
    (refs' : List PluginRef) :
    loadedFrom loads n (refs ++ refs') = refs ++ loadedFrom loads (n + refs.length) refs' := by
  induction refs generalizing n with
  | nil => rfl
  | cons ref refs ih =>
      unfold loadedFrom at all
      cases loaded : loads n ref with
      | error e =>
          rw [loaded] at all
          cases all
      | ok u =>
          rw [loaded] at all
          have tail := ih (List.cons.inj all).2
          rw [List.length_cons, ← Nat.add_assoc, Nat.add_right_comm]
          simp [loadedFrom, loaded, tail]

theorem loadedFrom_stopped {n : Nat} {refs : List PluginRef}
    (stopped : loadedFrom loads n refs ≠ refs) (refs' : List PluginRef) :
    loadedFrom loads n (refs ++ refs') = loadedFrom loads n refs := by
  induction refs generalizing n with
  | nil => exact absurd rfl stopped
  | cons ref refs ih =>
      unfold loadedFrom at stopped
      cases loaded : loads n ref with
      | error e => simp [loadedFrom, loaded]
      | ok u =>
          rw [loaded] at stopped
          have tail := ih fun all => stopped (congrArg (ref :: ·) all)
          simp [loadedFrom, loaded, tail]

theorem loadedFrom_length_le (n : Nat) (refs : List PluginRef) :
    (loadedFrom loads n refs).length ≤ refs.length := by
  induction refs generalizing n with
  | nil => exact Nat.le_refl 0
  | cons ref refs ih =>
      unfold loadedFrom
      split
      · exact Nat.succ_le_succ (ih (n + 1))
      · exact Nat.zero_le _

/-- All was made as soon as both parts were. -/
theorem loadedFrom_append_eq {n : Nat} {refs refs' : List PluginRef} :
    loadedFrom loads n (refs ++ refs') = refs ++ refs' ↔
      loadedFrom loads n refs = refs ∧ loadedFrom loads (n + refs.length) refs' = refs' := by
  by_cases all : loadedFrom loads n refs = refs
  · rw [loadedFrom_append all]
    simp [all]
  · rw [loadedFrom_stopped all]
    refine ⟨?_, fun both => absurd both.1 all⟩
    intro same
    -- The first part would have been made in full.
    have shorter : (loadedFrom loads n refs).length ≤ refs.length := loadedFrom_length_le n refs
    rw [same, List.length_append] at shorter
    have empty : refs' = [] := List.length_eq_zero_iff.mp (by omega)
    rw [empty, List.append_nil] at same
    exact absurd same all

end loaded

theorem postgres_mem (names : List Str) :
    "postgres".toList ∈ if names.contains "postgres".toList then names
      else "postgres".toList :: names := by
  split
  · rename_i listed
    exact List.contains_iff_mem.mp listed
  · exact List.mem_cons_self

/-- Started with `n` instances, the computation makes the given ones until one fails; if none
does, it returns. -/
structure Build.Makes {α : Type} (loads : Nat → PluginRef → Except Exc Unit) (n : Nat) (x : Build α)
    (refs : List PluginRef) (Post : α → Prop) : Prop where
  made : ∀ made, made.length = n → (x made).2 = made ++ loadedFrom loads n refs
  complete : ∀ made, made.length = n → loadedFrom loads n refs = refs →
    ∃ a, (x made).1 = .ok a ∧ Post a
  stopped : ∀ made, made.length = n → loadedFrom loads n refs ≠ refs → ∃ e, (x made).1 = .error e

namespace Build.Makes

variable {loads : Nat → PluginRef → Except Exc Unit} {n : Nat} {α β : Type}

theorem pure {a : α} {Post : α → Prop} (post : Post a) : Makes loads n (.pure a) [] Post where
  made made _ := (List.append_nil made).symm
  complete _ _ _ := ⟨a, rfl, post⟩
  stopped _ _ none' := absurd rfl none'

theorem bind {x : Build α} {f : α → Build β} {refs refs' : List PluginRef} {Mid : α → Prop}
    {Post : β → Prop} (first : Makes loads n x refs Mid)
    (rest : ∀ a, Mid a → Makes loads (n + refs.length) (f a) refs' Post) :
    Makes loads n (x.bind f) (refs ++ refs') Post := by
  by_cases all : loadedFrom loads n refs = refs
  · have run : ∀ made, made.length = n → ∃ a, Mid a ∧ (x.bind f) made = f a (made ++ refs) ∧
        (made ++ refs).length = n + refs.length := by
      intro made length
      obtain ⟨a, ok, mid⟩ := first.complete made length all
      have state := first.made made length
      rw [all] at state
      refine ⟨a, mid, ?_, by rw [List.length_append, length]⟩
      unfold Build.bind
      rw [show x made = (.ok a, made ++ refs) from Prod.ext ok state]
    refine ⟨?_, ?_, ?_⟩
    · intro made length
      obtain ⟨a, mid, same, longer⟩ := run made length
      rw [same, (rest a mid).made _ longer, loadedFrom_append all, List.append_assoc]
    · intro made length both
      obtain ⟨a, mid, same, longer⟩ := run made length
      rw [same]
      exact (rest a mid).complete _ longer (loadedFrom_append_eq.mp both).2
    · intro made length stopped
      obtain ⟨a, mid, same, longer⟩ := run made length
      rw [same]
      exact (rest a mid).stopped _ longer fun tail => stopped (loadedFrom_append_eq.mpr ⟨all, tail⟩)
  · have run : ∀ made, made.length = n → ∃ e,
        (x.bind f) made = (.error e, made ++ loadedFrom loads n refs) := by
      intro made length
      obtain ⟨e, error⟩ := first.stopped made length all
      refine ⟨e, ?_⟩
      unfold Build.bind
      rw [show x made = (.error e, made ++ loadedFrom loads n refs) from
        Prod.ext error (first.made made length)]
    refine ⟨?_, ?_, ?_⟩
    · intro made length
      obtain ⟨e, same⟩ := run made length
      rw [same, loadedFrom_stopped all]
    · intro made length both
      exact absurd (loadedFrom_append_eq.mp both).1 all
    · intro made length _
      obtain ⟨e, same⟩ := run made length
      exact ⟨e, by rw [same]⟩

theorem weaken {x : Build α} {refs : List PluginRef} {Post Post' : α → Prop}
    (makes : Makes loads n x refs Post) (implies : ∀ a, Post a → Post' a) :
    Makes loads n x refs Post' where
  made := makes.made
  complete made length all := by
    obtain ⟨a, ok, post⟩ := makes.complete made length all
    exact ⟨a, ok, implies a post⟩
  stopped := makes.stopped

theorem instantiate (ref : PluginRef) :
    Makes loads n (Cti.instantiate loads ref) [ref] (fun made => made = n) := by
  refine ⟨?_, ?_, ?_⟩
  · rintro made rfl
    unfold Cti.instantiate loadedFrom
    cases loads made.length ref with
    | ok u => rfl
    | error e => simp
  · rintro made rfl all
    unfold Cti.instantiate
    unfold loadedFrom at all
    cases loaded : loads made.length ref with
    | ok u => exact ⟨_, rfl, rfl⟩
    | error e =>
        rw [loaded] at all
        cases all
  · rintro made rfl stopped
    unfold Cti.instantiate
    unfold loadedFrom at stopped
    cases loaded : loads made.length ref with
    | ok u =>
        rw [loaded] at stopped
        exact absurd rfl stopped
    | error e => exact ⟨e, rfl⟩

theorem instantiateAll (refs : List PluginRef) :
    Makes loads n (Cti.instantiateAll loads refs) refs
      (fun made => made = List.range' n refs.length) := by
  induction refs generalizing n with
  | nil => exact pure rfl
  | cons ref refs ih =>
      change Makes loads n _ ([ref] ++ refs) _
      refine bind (instantiate ref) ?_
      intro first position
      have tail : Makes loads (n + 1)
          (Build.bind (Cti.instantiateAll loads refs) fun rest => .pure (first :: rest)) (refs ++ [])
          (fun made => made = List.range' n (refs.length + 1)) := by
        refine bind ih ?_
        intro rest positions
        refine pure ?_
        rw [position, positions]
        rfl
      rw [List.append_nil] at tail
      exact tail

theorem splitInstances (ref : Str → PluginRef) (names : List Str) (canonical : Option Nat)
    (extras : List Nat) :
    Makes loads n (Cti.splitInstances loads ref names canonical extras) (names.map ref)
      (fun split => (split.1.toList ++ split.2).Perm
          (canonical.toList ++ extras ++ List.range' n names.length) ∧
        (canonical.isSome ∨ "postgres".toList ∈ names → split.1.isSome)) := by
  induction names generalizing n canonical extras with
  | nil => exact pure ⟨by simp, by simp⟩
  | cons name names ih =>
      change Makes loads n _ ([ref name] ++ names.map ref) _
      refine bind (instantiate (ref name)) ?_
      intro made position
      have later := fun canonical extras => ih (n := n + 1) canonical extras
      split
      · rename_i first
        obtain ⟨_, missing⟩ := first
        rw [Option.isNone_iff_eq_none.mp missing]
        refine (later (some made) extras).weaken ?_
        rintro split ⟨perm, present⟩
        refine ⟨perm.trans ?_, fun _ => present (Or.inl rfl)⟩
        rw [position]
        simpa [List.range'_succ] using List.perm_middle.symm
      · rename_i other
        refine (later canonical (extras ++ [made])).weaken ?_
        rintro split ⟨perm, present⟩
        refine ⟨perm.trans ?_, ?_⟩
        · rw [position]
          simp [List.range'_succ]
        · intro named
          refine present ?_
          rcases named with known | member
          · exact Or.inl known
          · rcases List.mem_cons.mp member with rfl | member
            · refine Or.inl ?_
              simpa [Option.isSome_iff_ne_none] using other
            · exact Or.inr member

theorem buildInstances (source : SourceConfig) :
    Makes loads 0 (Cti.buildInstances loads source) source.pluginRefs
      (fun spec => spec.closing.Perm (List.range source.pluginRefs.length)) := by
  have named : "postgres".toList ∈ source.pubNames := postgres_mem _
  have refs : source.pluginRefs = [.connector source.plugin source.params] ++
      ([.parser source.parser source.parserParams] ++ (source.enrichers.map source.enricherRef ++
        (source.pubNames.map source.publisherRef ++ []))) := by
    simp [SourceConfig.pluginRefs]
  rw [refs]
  refine bind (instantiate _) ?_
  rintro connector rfl
  refine bind (instantiate _) ?_
  rintro parser rfl
  refine bind (instantiateAll _) ?_
  rintro enrichers rfl
  refine bind (splitInstances _ _ none []) ?_
  rintro ⟨canonical, extras⟩ ⟨perm, present⟩
  obtain ⟨canonical, rfl⟩ := Option.isSome_iff_exists.mp (present (Or.inr named))
  refine pure ?_
  have split : (canonical :: extras).Perm
      (List.range' (2 + source.enrichers.length) source.pubNames.length) := by
    simpa [Nat.add_comm, Nat.add_assoc] using perm
  have range : List.range source.pluginRefs.length = [0, 1] ++
      (List.range' 2 source.enrichers.length ++
        List.range' (2 + source.enrichers.length) source.pubNames.length) := by
    have length : source.pluginRefs.length =
        source.enrichers.length + source.pubNames.length + 1 + 1 := by
      rw [refs]
      simp
    rw [List.range'_append_1, length, List.range_eq_range', List.range'_succ, List.range'_succ]
    rfl
  rw [← refs, range]
  refine List.Perm.append_left [0, 1] ?_
  have moved : (List.range' 2 source.enrichers.length ++ canonical :: extras).Perm
      (canonical :: (List.range' 2 source.enrichers.length ++ extras)) := List.perm_middle
  simpa [PipelineInstances.closing] using moved.symm.trans (split.append_left _)

end Build.Makes

section built

variable {loads : Nat → PluginRef → Except Exc Unit} {source : SourceConfig}
  {made : List PluginRef}

/-- What a build that works has made, and closes. -/
theorem buildInstances_ok {spec : PipelineInstances}
    (built : buildInstances loads source [] = (.ok spec, made)) :
    source.Loads loads ∧ made = source.pluginRefs ∧ spec.closing.Perm (List.range made.length) := by
  have makes : Build.Makes loads 0 _ _ _ := .buildInstances source
  have all : source.Loads loads := by
    by_contra stopped
    obtain ⟨e, failed⟩ := makes.stopped [] rfl stopped
    rw [built] at failed
    cases failed
  have state : made = source.pluginRefs := by
    have same := makes.made [] rfl
    rwa [built, List.nil_append, all] at same
  obtain ⟨spec', built', perm⟩ := makes.complete [] rfl all
  rw [built] at built'
  cases built'
  rw [state]
  exact ⟨all, rfl, perm⟩

/-- What a build that fails has made. -/
theorem buildInstances_error {e : Exc}
    (failed : buildInstances loads source [] = (.error e, made)) :
    ¬ source.Loads loads ∧ made = loadedFrom loads 0 source.pluginRefs := by
  have makes : Build.Makes loads 0 _ _ _ := .buildInstances source
  have state := makes.made [] rfl
  rw [failed, List.nil_append] at state
  refine ⟨?_, state⟩
  intro all
  obtain ⟨spec, built, _⟩ := makes.complete [] rfl all
  rw [failed] at built
  cases built

/-- The connector comes first. -/
theorem loadedFrom_eq_nil_iff :
    loadedFrom loads 0 source.pluginRefs = [] ↔
      ∃ e, loads 0 (.connector source.plugin source.params) = .error e := by
  cases first : loads 0 (.connector source.plugin source.params) with
  | error e => simp [SourceConfig.pluginRefs, loadedFrom, first]
  | ok u => simp [SourceConfig.pluginRefs, loadedFrom, first]

end built

/-- Only whether it worked, and what was raised if it did not. -/
def outcomeOf {α : Type*} : Except Exc α → Except Exc Unit
  | .ok _ => .ok ()
  | .error e => .error e

/-- The loaders, forgetting what they load. -/
def Loader.loads {S : Type} (loader : Loader S) : PluginRef → Except Exc Unit
  | .connector name params => outcomeOf (loader.loadConnector name params)
  | .parser name params => outcomeOf (loader.loadParser name params)
  | .enricher name params => outcomeOf (loader.loadEnricher name params)
  | .publisher name params => outcomeOf (loader.loadPublisher name params)

/-- The two computations work alike. -/
def Build.Agrees {α : Type*} {β : Type} (x : Except Exc α) (y : Build β) : Prop :=
  ∀ made, outcomeOf x = outcomeOf (y made).1

namespace Build.Agrees

variable {α α' : Type*} {β β' : Type}

theorem ok (a : α) (b : β) : Agrees (.ok a) (.pure b) := fun _ => rfl

theorem andThen {x : Except Exc α} {f : α → Except Exc α'} {y : Build β} {g : β → Build β'}
    (first : Agrees x y)
    (rest : ∀ a b, x = .ok a → (∃ made, (y made).1 = .ok b) → Agrees (f a) (g b)) :
    Agrees (Cti.andThen x f) (y.bind g) := by
  intro made
  have same := first made
  unfold Build.bind Cti.andThen
  cases x with
  | error e =>
      cases result : y made with
      | mk outcome after =>
          rw [result] at same
          cases outcome with
          | error e' => exact same
          | ok b => cases same
  | ok a =>
      cases result : y made with
      | mk outcome after =>
          rw [result] at same
          cases outcome with
          | error e' => cases same
          | ok b => exact rest a b rfl ⟨made, by rw [result]⟩ after

theorem instantiate {loads : PluginRef → Except Exc Unit} {ref : PluginRef} {x : Except Exc α}
    (same : loads ref = outcomeOf x) : Agrees x (Cti.instantiate (fun _ => loads) ref) := by
  intro made
  unfold Cti.instantiate
  dsimp only
  rw [same]
  cases x with
  | error e => rfl
  | ok a => rfl

end Build.Agrees

section loader

variable {S : Type} (loader : Loader S)

theorem bind_eq_andThen {α β : Type} (x : Except Exc α) (f : α → Except Exc β) :
    (x >>= f) = andThen x f := by
  cases x with
  | error e => rfl
  | ok a => rfl

theorem enrichers_agree (source : SourceConfig) (names : List Str) :
    Build.Agrees (names.mapM fun name =>
        loader.loadEnricher name ((source.enricherParams.lookup name).getD []))
      (instantiateAll (fun _ => loader.loads) (names.map source.enricherRef)) := by
  induction names with
  | nil => exact .ok _ _
  | cons name names ih =>
      rw [List.mapM_cons, bind_eq_andThen]
      refine .andThen (.instantiate rfl) ?_
      intro enricher first _ _
      rw [bind_eq_andThen]
      refine .andThen ih ?_
      intro enrichers rest _ _
      exact .ok _ _

theorem publishers_agree (source : SourceConfig) (names : List Str)
    {canonical : Option (Plugin.Publisher S)} {canonical' : Option Nat}
    (alike : canonical.isNone = canonical'.isNone) (extras : List (Plugin.Publisher S))
    (extras' : List Nat) :
    Build.Agrees (splitPublishers loader source.publisherParams names canonical extras)
      (splitInstances (fun _ => loader.loads) source.publisherRef names canonical' extras') := by
  induction names generalizing canonical canonical' extras extras' with
  | nil => exact .ok _ _
  | cons name names ih =>
      unfold splitPublishers splitInstances
      rw [bind_eq_andThen]
      refine .andThen (.instantiate rfl) ?_
      intro publisher made _ _
      rw [alike]
      split
      · exact ih rfl _ _
      · exact ih alike _ _

/-- The builder fails where one of its loads does, and with what that raises. -/
theorem build_agrees (source : SourceConfig) (uri : Option Str) :
    Build.Agrees (buildPipelineSpec loader source uri)
      (buildInstances (fun _ => loader.loads) source) := by
  have named : "postgres".toList ∈ source.pubNames := postgres_mem _
  refine .andThen (.instantiate rfl) ?_
  intro connector connector' _ _
  refine .andThen (.instantiate rfl) ?_
  intro parser parser' _ _
  refine .andThen (enrichers_agree loader source source.enrichers) ?_
  intro enrichers enrichers' _ _
  refine .andThen (publishers_agree loader source source.pubNames rfl [] []) ?_
  rintro ⟨canonical, extras⟩ ⟨canonical', extras'⟩ split ⟨made, split'⟩
  have first := splitPublishers_canonical (Or.inr named) split
  have first' : canonical'.isSome := by
    have makes : Build.Makes (fun _ => loader.loads) made.length _ _ _ :=
      .splitInstances source.publisherRef source.pubNames none []
    by_cases all : loadedFrom (fun _ => loader.loads) made.length
        (source.pubNames.map source.publisherRef) = source.pubNames.map source.publisherRef
    · obtain ⟨pair, result, _, present⟩ := makes.complete made rfl all
      rw [split'] at result
      cases result
      exact present (Or.inr named)
    · obtain ⟨e, result⟩ := makes.stopped made rfl all
      rw [split'] at result
      cases result
  obtain ⟨canonical, rfl⟩ := Option.isSome_iff_exists.mp first
  obtain ⟨canonical', rfl⟩ := Option.isSome_iff_exists.mp first'
  exact .ok _ _

/-- A pipeline is built as soon as every plugin of the source loads. -/
theorem build_ok_iff (source : SourceConfig) (uri : Option Str) :
    (∃ spec, buildPipelineSpec loader source uri = .ok spec) ↔
      source.Loads (fun _ => loader.loads) := by
  have agrees := build_agrees loader source uri []
  have makes : Build.Makes (fun _ => loader.loads) 0 _ _ _ := .buildInstances source
  constructor
  · rintro ⟨spec, built⟩
    by_contra stopped
    obtain ⟨e, failed⟩ := makes.stopped [] rfl stopped
    rw [built, failed] at agrees
    cases agrees
  · intro all
    obtain ⟨instances, made, _⟩ := makes.complete [] rfl all
    cases built : buildPipelineSpec loader source uri with
    | ok spec => exact ⟨spec, rfl⟩
    | error e =>
        rw [built, made] at agrees
        cases agrees

end loader

end Cti
