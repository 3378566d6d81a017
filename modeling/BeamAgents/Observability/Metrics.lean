import Mathlib.Data.List.Basic

/-!
# The metric surface

`observability/metrics.py`: the counters and distributions of the runtime, and the tally that one
activation accumulates for them.

## Main definitions

* `Counter`, `Distribution`, `ActivationTally`.
-/

namespace BeamAgents

/-- The counters. -/
inductive Counter
  | activations
  | llmCalls
  | toolCalls
  | intentsEmitted
  | agentErrors
  | suspensions
  | orphanedResults
  | longtermUpserts
  | eventsBuffered
  | batchFlushesSize
  | batchFlushesTimer
  deriving DecidableEq, Repr

/-- The distributions. -/
inductive Distribution
  | activationMs
  | overheadMs
  | llmMs
  | tokens
  | promptTokens
  | completionTokens
  | memoryBytes
  | iterations
  | batchSize
  deriving DecidableEq, Repr

/-- Worker-local counts and durations accumulated during one activation. `iterations` is resolved
from the step cursor when the tally is read. -/
structure ActivationTally where
  llmCalls : ℕ := 0
  toolCalls : ℕ := 0
  iterations : ℕ := 0
  totalTokens : Int := 0
  promptTokens : Int := 0
  completionTokens : Int := 0
  usageObserved : Bool := false
  llmMs : List Int := []
  toolMs : List Int := []
  deriving DecidableEq, Repr

end BeamAgents
