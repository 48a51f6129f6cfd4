import Cti.Delivery
import Cti.Enrichers
import Cti.PartialRuns
import Cti.SerialTables

set_option autoImplicit false

/- A source that is run again over an unchanged feed. -/
namespace Cti

open Py (Str)
open TaskNet (Net)

section times

variable (R : Runtime)

variable (cfg : NormalizeConfig) (clock : Clock) (ctx : RunContext)

variable {enrich : List (Indicator → Option Indicator)}

end times

section store

instance : Std.Associative onConflict where
  assoc a b c := by simp [onConflict, max_assoc]

instance : Std.IdempotentOp onConflict where
  idempotent row := by simp [onConflict]

variable {table table' first all : List Indicator}

end store

section typing

variable {T : Type} (R : Runtime) (spec : PipelineSpec T) (clock : Clock) (ctx : RunContext)

/-- The transactions of the canonical publisher are all that happens to the tables. -/
def CommitsPublished (w w' : World (Store × T)) : Prop :=
  ∃ batches, w'.published = w.published ++ batches ∧ publishAll w.env.1 batches = .ok w'.env.1

theorem CommitsPublished.of_aside {w w' : World (Store × T)} (aside : Aside stillDrift w w') :
    CommitsPublished w w' := by
  obtain ⟨tables, published⟩ := aside
  refine ⟨[], by rw [published, List.append_nil], ?_⟩
  rw [← show w.env.1 = w'.env.1 from tables]
  rfl

theorem CommitsPublished.trans {w w' w'' : World (Store × T)} (first : CommitsPublished w w')
    (second : CommitsPublished w' w'') : CommitsPublished w w'' := by
  obtain ⟨batches, published, committed⟩ := first
  obtain ⟨batches', published', committed'⟩ := second
  exact ⟨batches ++ batches', by rw [published', published, List.append_assoc],
    publishAll_append committed committed'⟩

/-- No publisher but the canonical one writes to the tables. -/
def PipelineSpec.WritesOnce (spec : PipelineSpec T) : Prop :=
  ∀ publisher ∈ spec.extraPublishers, publisher.name ≠ "postgres".toList

variable {spec} in
def commitsTyping (once : spec.WritesOnce) : PipelineTyping R spec.onTables clock ctx :=
  tablesTyping CommitsPublished .trans .of_aside (fun _ => True) (fun _ _ => trivial)
    (fun {batch} _ {w env} committed => ⟨[batch], rfl, by simp [publishAll, committed]⟩)
    (fun publisher member {w batch} _ => by
      have beside : publisher.onTables = publisher.beside stillDrift :=
        if_neg (once publisher member)
      rw [beside]
      exact (Call.beside_moves stillDrift (publisher.publish batch w.ctx) w).mono .of_aside)

end typing

section runs

variable {T : Type} {R : Runtime} {spec : PipelineSpec T} {parse : RawPayload → List Record}

/-- Plugins compute the same functions beside the tables. -/
def Computes.onTables {enrich : List (Indicator → Option Indicator)}
    (computes : Computes spec parse enrich) : Computes spec.onTables parse enrich where
  left := computes.left
  left_parse := computes.left_parse
  left_some answer := computes.left_some answer.2
  left_none answer := computes.left_none answer.2
  enrich_length := by
    rw [computes.enrich_length]
    exact (List.length_map _).symm
  enrich_returns {k enricher f} found same {ind ctx s out s'} answer := by
    obtain ⟨inner, listed, rfl⟩ := Option.map_eq_some_iff.mp
      ((List.getElem?_map ..).symm.trans found)
    exact computes.enrich_returns listed same answer.2

variable {clock : Clock} {ctx : RunContext} {store store' : Store} {env : T} {allowed}
  {s : (pipelineNet R spec.onTables clock ctx).State} {enrichers : List Enricher}
  {records : List Record}

theorem run_commits (once : spec.WritesOnce)
    (run : (pipelineNet R spec.onTables clock ctx).Reaches allowed
      ((pipelineNet R spec.onTables clock ctx).init (World.fresh ctx (store, env))) s) :
    publishAll store s.world.published = .ok s.world.env.1 := by
  obtain ⟨batches, published, committed⟩ :=
    (Net.typed_reaches (commitsTyping R clock ctx once).typing run).later
  rw [published]
  exact committed

/-- A run over the tables that stops anywhere, whatever has failed in it by then. The records that
it has parsed are the first ones of those given. -/
def CutOff (R : Runtime) (spec : PipelineSpec T) (parse : RawPayload → List Record)
    (records : List Record) (store store' : Store) : Prop :=
  ∃ clock ctx, ∃ (env : T) (s : (pipelineNet R spec.onTables clock ctx).State),
    (pipelineNet R spec.onTables clock ctx).Reaches (fun _ _ => True)
      ((pipelineNet R spec.onTables clock ctx).init (World.fresh ctx (store, env))) s ∧
    s.world.fetched.flatMap parse <+: records ∧ s.world.env.1 = store'

theorem CutOff.observations (once : spec.WritesOnce)
    (cut : CutOff R spec parse records store store') :
    store.observations <+: store'.observations := by
  obtain ⟨clock, ctx, env, s, run, _, rfl⟩ := cut
  exact (publishAll_extends (run_commits once run)).observations

end runs

end Cti
