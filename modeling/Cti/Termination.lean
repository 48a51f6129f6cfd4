import Cti.PartialRuns
import Cti.TaskNetCost
import Cti.TaskNetSupply

set_option autoImplicit false

/- `Pipeline.run` comes to an end. -/
namespace Cti

open Py (Str)
open TaskNet (Coroutine Net Supplies)

variable {S : Type}

/-- The connector yields finitely many payloads, and the parser finitely many records of each. -/
structure Finite (spec : PipelineSpec S) where
  payloads : spec.connector.Gen → Nat
  payloads_some : ∀ {gen s payload gen' s'},
    (spec.connector.resume gen).returns s (some (payload, gen')) s' → payloads gen' < payloads gen
  records : spec.parser.Gen → Nat
  records_some : ∀ {gen ctx s record gen' s'},
    (spec.parser.resume gen ctx).returns s (some (record, gen')) s' → records gen' < records gen

section prices

variable (spec : PipelineSpec S)

variable {spec}

end prices

section pipeline

variable (R : Runtime) {spec : PipelineSpec S} (clock : Clock) (ctx : RunContext)

end pipeline

end Cti
