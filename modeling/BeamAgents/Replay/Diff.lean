import BeamAgents.Replay.Bundle
import Mathlib.Data.List.Sort

/-!
# Comparing a replay with its record

`replay/diff.py`: the second run of an activation is compared with the recorded attempt on three
surfaces, the status, the trace events and the staged intents. An event is compared by its
deterministic bytes, after the two attributes of a model call that say how it was served have been
set to what a replay reports. The digests that the report adds as notes are not modelled.

Two events have the same deterministic bytes when they agree in every field and in the entries of
their attribute map, whose order does not matter.

## Main definitions

* `normalizeEvent`, `TraceEvent.deterministic`.
* `Difference`, `compare`.

## Main results

* `normalizeEvent_ignoresServing`: normalised events do not tell how a model call was served.
* `compare_eq_nil`: what a record and an outcome without a difference have in common.
-/

namespace BeamAgents

open Containers

/-- `normalize_event`: the two attributes are pinned on the events of model calls only. -/
def normalizeEvent (event : TraceEvent) : TraceEvent :=
  if event.eventType = .llmCall then
    { event with attributes :=
        (((Dict.ofList event.attributes).set "beam_agents.cache_hit" "true").set
          "beam_agents.billed" "false").items }
  else event

/-- What the deterministic serialization of an event depends on: its fields, and the entries of its
attribute map in the order of their keys. -/
def TraceEvent.deterministic (event : TraceEvent) : TraceEvent :=
  { event with attributes :=
      (Dict.ofList event.attributes).items.insertionSort fun a b => a.1 ≤ b.1 }

/-- One reported divergence. -/
structure Difference where
  kind : String
  detail : String
  deriving DecidableEq, Repr

variable (py : PyLib)

/-- `_traced_status`. -/
def tracedStatus (traced : List TraceEvent) : String :=
  if traced.any fun event => event.eventType = .error then "failed"
  else
    match traced.find? fun event => event.eventType = .activationEnd with
    | some event => (event.attribute? "beam_agents.activation.status").getD ""
    | none => ""

/-- `_status_differences`. -/
def statusDifferences (traced : List TraceEvent) (status : String) : List Difference :=
  let expected := tracedStatus traced
  if expected = "" ∨ expected = status then []
  else [⟨"status", s!"traced {py.reprStr expected}, replayed {py.reprStr status}"⟩]

/-- `repr` of an attribute that may be missing. -/
def reprAttribute (value : Option String) : String := (value.map py.reprStr).getD "None"

/-- `_field_differences`. -/
def fieldDifferences (traced replayed : TraceEvent) : List String :=
  let differing (name left right : String) : List String :=
    if left = right then [] else [s!"{name}: traced {left}, replayed {right}"]
  let keys := ((traced.attributes ++ replayed.attributes).map Prod.fst).dedup.insertionSort (· ≤ ·)
  let parts :=
    differing "event_type" (toString traced.eventType.number)
      (toString replayed.eventType.number) ++
    differing "step_index" (toString traced.stepIndex) (toString replayed.stepIndex) ++
    differing "start_ms" (toString traced.startMs) (toString replayed.startMs) ++
    differing "end_ms" (toString traced.endMs) (toString replayed.endMs) ++
    differing "trace_id" traced.traceId.hex replayed.traceId.hex ++
    differing "span_id" traced.spanId.hex replayed.spanId.hex ++
    differing "parent_span_id" traced.parentSpanId.hex replayed.parentSpanId.hex ++
    keys.flatMap fun key =>
      if traced.attribute? key = replayed.attribute? key then []
      else [s!"{key}: traced {reprAttribute py (traced.attribute? key)}, replayed " ++
        s!"{reprAttribute py (replayed.attribute? key)}"]
  if parts = [] then ["events differ in an unrepresented field"] else parts

/-- The first position from `index` on at which two events diverge. -/
def firstDivergence : (index : ℕ) → List TraceEvent → List TraceEvent → List Difference
  | index, left :: traced, right :: replayed =>
    if (normalizeEvent left).deterministic = (normalizeEvent right).deterministic then
      firstDivergence (index + 1) traced replayed
    else [⟨"trace_event", s!"first divergence at position {index} ({left.eventType.name}): " ++
      "; ".intercalate (fieldDifferences py (normalizeEvent left) (normalizeEvent right))⟩]
  | _, _, _ => []

/-- `_event_differences`. -/
def eventDifferences (traced replayed : List TraceEvent) : List Difference :=
  (if traced.length ≠ replayed.length then
    [⟨"trace_event", s!"event count differs: traced {traced.length}, replayed {replayed.length}"⟩]
  else []) ++ firstDivergence py 0 traced replayed

/-- What an `INTENT_EMITTED` event says of its intent: id, tool, kind and expiry. -/
def tracedIntent (event : TraceEvent) : List String :=
  ["beam_agents.intent_id", "beam_agents.tool_name", "beam_agents.intent_kind",
    "beam_agents.expires_at_ms"].map fun name => (event.attribute? name).getD ""

/-- The same of a staged intent. -/
def replayedIntent (intent : ToolIntent) : List String :=
  [intent.intentId, intent.toolName, intent.kind.name, toString intent.expiresAtMs]

/-- The intents that a trace tells of. -/
def tracedIntents (traced : List TraceEvent) : List (List String) :=
  (traced.filter fun event => event.eventType = .intentEmitted).map tracedIntent

/-- What differs between the `index`-th traced intent and the replayed one. -/
def intentDifference (index : ℕ) (left right : List String) : List Difference :=
  let names := ["intent_id", "tool_name", "kind", "expires_at_ms"]
  let mismatched := (names.zip (left.zip right)).flatMap fun (name, a, b) =>
    if a = b then [] else [s!"{name}: traced {py.reprStr a}, replayed {py.reprStr b}"]
  if mismatched = [] then []
  else [⟨"intent", s!"intent {index}: " ++ "; ".intercalate mismatched⟩]

/-- `_intent_differences`. -/
def intentDifferences (traced : List TraceEvent) (intents : List ToolIntent) : List Difference :=
  let left := tracedIntents traced
  let right := intents.map replayedIntent
  if left.length ≠ right.length then
    [⟨"intent", s!"intent count differs: traced {left.length}, replayed {right.length}"⟩]
  else ((left.zip right).zipIdx.map fun ((a, b), index) => intentDifference py index a b).flatten

/-- `compare`: the differences of a report. The replay reproduces the attempt when there are
none. -/
def compare (bundle : ReplayBundle) (outcome : ReplayOutcome) : List Difference :=
  statusDifferences py bundle.traced outcome.status ++
    eventDifferences py bundle.traced outcome.traces ++
    intentDifferences py bundle.traced outcome.intents

/-! ### No difference -/

/-- Normalised events do not tell how a model call was served. -/
theorem normalizeEvent_ignoresServing : IgnoresServing normalizeEvent := by
  intro e cacheHit modelId usage he
  simp only [normalizeEvent, he, if_true, llmAttributes, usageAttributes]
  cases usage <;> simp [Dict.ofList, Dict.set, Dict.empty]

variable {py}

theorem firstDivergence_eq_nil (index : ℕ) {traced replayed : List TraceEvent}
    (h : replayed.map normalizeEvent = traced.map normalizeEvent) :
    firstDivergence py index traced replayed = [] := by
  induction traced generalizing index replayed with
  | nil => cases replayed <;> rfl
  | cons left traced ih =>
    cases replayed with
    | nil => rfl
    | cons right replayed =>
      obtain ⟨hhead, htail⟩ := List.cons.inj h
      rw [firstDivergence, hhead, if_pos rfl]
      exact ih (index + 1) htail

/-- Traces that are the same once normalised are not reported. -/
theorem eventDifferences_eq_nil {traced replayed : List TraceEvent}
    (h : replayed.map normalizeEvent = traced.map normalizeEvent) :
    eventDifferences py traced replayed = [] := by
  have hlength : traced.length = replayed.length := by
    simpa using (congrArg List.length h).symm
  rw [eventDifferences, if_neg (not_not.mpr hlength), firstDivergence_eq_nil 0 h]
  rfl

/-- Intents of which the trace tells the same are not reported. -/
theorem intentDifferences_eq_nil {traced : List TraceEvent} {intents : List ToolIntent}
    (h : tracedIntents traced = intents.map replayedIntent) :
    intentDifferences py traced intents = [] := by
  have hsame (index : ℕ) (left : List String) : intentDifference py index left left = [] := by
    have hmismatched : ∀ p ∈ (["intent_id", "tool_name", "kind", "expires_at_ms"].zip
        (left.zip left)), p.2.1 = p.2.2 := by
      intro p hp
      obtain ⟨i, hi⟩ := List.mem_iff_getElem?.mp (List.of_mem_zip hp).2
      obtain ⟨ha, hb⟩ := List.getElem?_zip_eq_some.mp hi
      exact Option.some.inj (ha.symm.trans hb)
    rw [intentDifference, if_pos]
    exact List.flatMap_eq_nil_iff.mpr fun p hp => if_pos (hmismatched p hp)
  unfold intentDifferences
  rw [h, if_neg (not_not.mpr rfl)]
  refine List.flatten_eq_nil_iff.mpr fun l hl => ?_
  obtain ⟨⟨⟨a, b⟩, index⟩, hmem, rfl⟩ := List.mem_map.mp hl
  obtain ⟨i, hi⟩ := List.mem_iff_getElem?.mp (List.fst_mem_of_mem_zipIdx hmem)
  obtain ⟨ha, hb⟩ := List.getElem?_zip_eq_some.mp hi
  obtain rfl : a = b := Option.some.inj (ha.symm.trans hb)
  exact hsame index a

/-- **A replay without a difference.** The status is the one that the trace ends with, the events
are the same once normalised, and the trace tells of the same intents. -/
theorem compare_eq_nil {bundle : ReplayBundle} {outcome : ReplayOutcome}
    (hstatus : tracedStatus bundle.traced = outcome.status)
    (htraces : outcome.traces.map normalizeEvent = bundle.traced.map normalizeEvent)
    (hintents : tracedIntents bundle.traced = outcome.intents.map replayedIntent) :
    compare py bundle outcome = [] := by
  rw [compare, eventDifferences_eq_nil htraces, intentDifferences_eq_nil hintents,
    statusDifferences, if_pos (.inr hstatus)]
  rfl

end BeamAgents
