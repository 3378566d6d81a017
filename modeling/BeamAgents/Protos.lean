import Mathlib.Algebra.GroupWithZero.Nat
import Mathlib.Algebra.Ring.Int.Defs
import Mathlib.Algebra.Ring.Nat
import Mathlib.Data.List.Basic

/-!
# Wire and state messages

The messages of `protos/beam_agents.proto` that the runtime and the effector read, with the
defaults of proto3, and the parts of Python's standard library that mint identifiers. Times are
unix-epoch milliseconds (`Int`), counters and sizes are `Nat`; field ranges of the wire format are
not modelled. A proto `map` is an association list.

The hash functions are parameters (`PyLib`): nothing here depends on how `uuid5`, `sha256` or the
`repr` and the JSON text of a string are computed, only on the text that is handed to them.

## Main definitions

* `MemoryBlob`, `LlmCacheBlob`, `Continuation`: the versioned state blobs.
* `ToolIntent`, `ToolResult`, `Approval`, `AgentEnvelope`, `TraceEvent`, `StateSnapshot`.
* `PyLib`, `Uuid`, `PyExn`.
-/

namespace BeamAgents

/-- Python `bytes`. -/
abbrev Bytes := List UInt8

/-- One lowercase hex digit. -/
def hexDigit (n : ℕ) : Char :=
  if n < 10 then Char.ofNat (48 + n) else Char.ofNat (87 + n)

/-- `bytes.hex()`. -/
def Bytes.hex (b : Bytes) : String :=
  String.ofList (b.flatMap fun x => [hexDigit (x.toNat / 16), hexDigit (x.toNat % 16)])

/-- A `uuid.UUID`: its canonical text and its 16 bytes. -/
structure Uuid where
  text : String
  bytes : Bytes
  deriving DecidableEq, Repr

/-- The functions of Python's standard library whose values the runtime only passes on. -/
structure PyLib where
  /-- `uuid.uuid5(namespace, name)`. -/
  uuid5 : String → String → Uuid
  /-- `hashlib.sha256(data).digest()`. -/
  sha256 : Bytes → Bytes
  /-- `repr` of a `str`. -/
  reprStr : String → String
  /-- `json.dumps` of a `str`, with `ensure_ascii=False`. -/
  jsonStr : String → String

/-- `repr` of an exception whose one argument is a message. -/
def PyLib.exnRepr (py : PyLib) (typeName message : String) : String :=
  s!"{typeName}({py.reprStr message})"

/-- The classes of exceptions that the runtime tells apart: the tripped token budget, a
cancellation, and every other `Exception`. -/
inductive ExnClass
  | budgetExceeded
  | cancelled
  | other
  deriving DecidableEq, Repr

/-- A raised exception: what `except` clauses test, `type(exc).__name__` and `repr(exc)`. -/
structure PyExn where
  cls : ExnClass := .other
  typeName : String
  repr : String
  deriving DecidableEq, Repr

/-! ### State blobs -/

/-- `MemoryBlob.MemoryEntry`. -/
structure MemoryEntry where
  key : String
  value : Bytes
  lastAccessMs : Int
  deriving DecidableEq, Repr

/-- Per-key working memory. -/
structure MemoryBlob where
  stateSchemaVersion : ℕ := 0
  entries : List MemoryEntry := []
  totalValueBytes : ℕ := 0
  deriving DecidableEq, Repr

/-- `LlmCacheBlob.LlmCacheEntry`. -/
structure LlmCacheEntry where
  cacheKey : String
  response : Bytes
  responseDigest : Bytes
  createdAtMs : Int
  lastAccessMs : Int
  digestOnly : Bool
  deriving DecidableEq, Repr

/-- Per-key replay cache. -/
structure LlmCacheBlob where
  stateSchemaVersion : ℕ := 0
  entries : List LlmCacheEntry := []
  totalResponseBytes : ℕ := 0
  deriving DecidableEq, Repr

/-- Persisted resume state of a suspended activation. -/
structure Continuation where
  stateSchemaVersion : ℕ := 0
  seq : ℕ := 0
  stepIndex : ℕ := 0
  pendingIntentIds : List String := []
  adapter : String := ""
  snapshot : Bytes := []
  suspendedAtMs : Int := 0
  deadlineMs : Int := 0
  escalations : ℕ := 0
  deriving DecidableEq, Repr

/-! ### Intents, results and envelopes -/

/-- `ToolIntent.Kind`. -/
inductive IntentKind
  | unspecified
  | tool
  | approval
  deriving DecidableEq, Repr

/-- `ToolIntent.Kind.Name`. -/
def IntentKind.name : IntentKind → String
  | .unspecified => "TOOL_KIND_UNSPECIFIED"
  | .tool => "TOOL"
  | .approval => "APPROVAL"

/-- Declarative side-effect request emitted by an activation. -/
structure ToolIntent where
  intentId : String
  entityKey : Bytes := []
  seq : ℕ := 0
  stepIndex : ℕ := 0
  toolName : String := ""
  argsJson : String := ""
  createdAtMs : Int := 0
  expiresAtMs : Int := 0
  attempt : ℕ := 0
  kind : IntentKind := .unspecified
  traceId : Bytes := []
  deriving DecidableEq, Repr

/-- `ToolResult.Status`. -/
inductive ResultStatus
  | unspecified
  | ok
  | error
  | expired
  | rejected
  deriving DecidableEq, Repr

/-- Effector outcome, re-injected on the key of the intent. -/
structure ToolResult where
  intentId : String
  entityKey : Bytes := []
  seq : ℕ := 0
  status : ResultStatus := .unspecified
  payload : Bytes := []
  errorMessage : String := ""
  completedAtMs : Int := 0
  deriving DecidableEq, Repr

/-- `AgentEnvelope.Approval`. -/
structure Approval where
  intentId : String
  approved : Bool := false
  approver : String := ""
  decidedAtMs : Int := 0
  deriving DecidableEq, Repr

/-- The `payload` oneof of an envelope; `unset` is an envelope without a payload. -/
inductive Payload
  | unset
  | externalEvent (event : Bytes)
  | toolResult (result : ToolResult)
  | approval (approval : Approval)
  | exportRequest (requestId : String)
  deriving DecidableEq, Repr

/-- The keyed element type entering the agent transform. -/
structure AgentEnvelope where
  entityKey : Bytes := []
  eventTimeMs : Int := 0
  payload : Payload := .unset
  deriving DecidableEq, Repr

/-- `envelope.external_event`: proto3 reads the empty default when another member is set. -/
def AgentEnvelope.externalEvent (e : AgentEnvelope) : Bytes :=
  match e.payload with
  | .externalEvent event => event
  | _ => []

/-! ### Observability -/

/-- `TraceEvent.EventType`. -/
inductive EventType
  | unspecified
  | activationStart
  | llmCall
  | toolCall
  | intentEmitted
  | activationEnd
  | error
  | suspended
  deriving DecidableEq, Repr

/-- `TraceEvent.EventType.Name`. -/
def EventType.name : EventType → String
  | .unspecified => "EVENT_TYPE_UNSPECIFIED"
  | .activationStart => "ACTIVATION_START"
  | .llmCall => "LLM_CALL"
  | .toolCall => "TOOL_CALL"
  | .intentEmitted => "INTENT_EMITTED"
  | .activationEnd => "ACTIVATION_END"
  | .error => "ERROR"
  | .suspended => "SUSPENDED"

/-- The number of an event type. -/
def EventType.number : EventType → ℕ
  | .unspecified => 0
  | .activationStart => 1
  | .llmCall => 2
  | .toolCall => 3
  | .intentEmitted => 4
  | .activationEnd => 5
  | .error => 6
  | .suspended => 7

/-- One observability record. -/
structure TraceEvent where
  traceId : Bytes := []
  spanId : Bytes := []
  parentSpanId : Bytes := []
  entityKey : Bytes := []
  seq : ℕ := 0
  stepIndex : ℕ := 0
  eventType : EventType := .unspecified
  attributes : List (String × String) := []
  startMs : Int := 0
  endMs : Int := 0
  deriving DecidableEq, Repr

/-- Point-in-time image of a key's state; the absent message fields are `none`. -/
structure StateSnapshot where
  stateSchemaVersion : ℕ
  entityKey : Bytes
  seq : ℕ
  snapshotAtMs : Int
  memory : Option MemoryBlob
  llmCache : Option LlmCacheBlob
  continuation : Option Continuation
  pending : List ToolIntent
  requestId : String
  deriving DecidableEq, Repr

/-- One long-term memory row as an activation stages it. -/
structure MemoryRecord where
  entityKey : Bytes
  key : String
  value : Bytes
  seq : ℕ
  updatedAtMs : Int
  deriving DecidableEq, Repr

end BeamAgents
