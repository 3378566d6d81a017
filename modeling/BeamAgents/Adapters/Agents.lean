import BeamAgents.Adapters.Deferred
import BeamAgents.Containers.Dict

/-!
# The agents of the three frameworks

What `PydanticAIAgent`, `LangGraphAgent` and `AdkAgent` add to what they share: what a run of the
framework takes and gives, which calls it puts off, what the snapshot keeps of each of them, and
how their answers are handed back. A run of the framework is a parameter, like the codecs of events
and outputs.

## Main definitions

* `PydanticAIAgent`, `LangGraphAgent`, `AdkAgent`, each with its `adapter`.
* `AdkAgent.pendingOrder`: the order in which the calls of a run are staged.
-/

namespace BeamAgents

open Containers Wire

variable (py : PyLib)

/-! ### Entries and answers -/

/-- `json.dumps(value, sort_keys=True)` as a text. -/
def dumpsText (style : Json.Style) (value : Json.Value) : String :=
  String.ofList (Json.dumpText style value.sorted)

/-- The `KeyError` of a member that a record lacks. -/
def missingField (name : String) : PyExn where
  typeName := "KeyError"
  repr := py.exnRepr "KeyError" name

/-- `record[name]`. -/
def recordField (record : JsonRecord) (name : String) : Except PyExn Json.Scalar :=
  match record.get? name with
  | none => .error (missingField py name)
  | some value => .ok value

/-- The record of these members of another. -/
def recordFields (record : JsonRecord) (names : List String) : Except PyExn JsonRecord := do
  let values ← names.mapM fun name => (recordField py record name).map (name, ·)
  return SortedMap.ofList values

/-- What a computation that may raise comes to, its first step came to as well. -/
theorem except_bind_eq_ok {ε α β : Type} {x : Except ε α} {f : α → Except ε β} {b : β}
    (h : (x >>= f) = .ok b) : ∃ a, x = .ok a ∧ f a = .ok b := by
  cases x with
  | error e => cases h
  | ok a => exact ⟨a, rfl, h⟩

/-- Whether a value counts as true. A float is zero when its digits are. -/
def scalarTruthy : Json.Scalar → Bool
  | .text s => s ≠ ""
  | .bool b => b
  | .int n => n ≠ 0
  | .decimal d => d.whole ≠ 0 || d.fraction.any (· ≠ '0')

/-- The members of a tool result that the framework is handed. -/
def resultFields : List String := ["status", "payload", "error_message"]

/-- The members of an approval that the framework is handed. -/
def decisionFields : List String := ["approved", "approver", "decided_at_ms"]

/-- What LangGraph and ADK agents keep of an approval. -/
def Approval.record (approval : Approval) : JsonRecord :=
  .ofList [("kind", .text CallKind.approval.text), ("approved", .bool approval.approved),
    ("approver", .text approval.approver), ("decided_at_ms", .int approval.decidedAtMs)]

/-- What LangGraph and ADK agents hand back for a call. -/
def handedBack (entry result : JsonRecord) : Except PyExn JsonRecord := do
  let kind ← recordField py entry "kind"
  recordFields py result
    (if kind = .text CallKind.approval.text then decisionFields else resultFields)

/-- Perform an operation, and go on with what it answers. -/
def Prog.doing {ρ : Type} (op : CtxOp) (k : op.Ans → Prog ρ) : Prog ρ :=
  .perform op fun answer =>
    match answer with
    | .error e => .raise e
    | .ok a => k a

/-! ### Pydantic AI -/

/-- `ToolCallPart`, its arguments as `args_as_dict` reads them. -/
structure ToolCallPart where
  toolName : String
  args : Json.Value
  toolCallId : String

/-- `DeferredToolRequests`. -/
structure DeferredToolRequests where
  calls : List ToolCallPart := []
  approvals : List ToolCallPart := []

/-- `DeferredToolResults`; an approval is `ToolApproved` or `ToolDenied`. -/
structure DeferredToolResults where
  calls : Dict Json.Scalar Json.Scalar := .empty
  approvals : Dict Json.Scalar Bool := .empty

/-- `AgentRunResult`, its messages as `ModelMessagesTypeAdapter` dumps them. -/
structure AgentRunResult (ο : Type) where
  messages : Bytes
  usage : TokenUsage
  output : ο ⊕ DeferredToolRequests

/-- `PydanticAIAgent`. A run takes the prompt, the history and the results of deferred calls. -/
structure PydanticAIAgent (μ ο : Type) where
  run : Option String → List μ → Option DeferredToolResults → Prog (AgentRunResult ο)
  /-- `ModelMessagesTypeAdapter.validate_json`. -/
  validateMessages : Bytes → Except PyExn (List μ)
  decodeEvent : Bytes → Except PyExn String
  encodeOutput : AgentRunResult ο → Except PyExn Bytes
  hitlTimeoutMs : Option Int := none
  foreign : Bytes → PyExn

namespace PydanticAIAgent

variable {μ ο : Type} (self : PydanticAIAgent μ ο)

/-- `_MESSAGES_KEY`. -/
def messagesKey : String := "__pydantic_ai__/messages"

/-- `_canonical_json`. -/
def canonicalJson : Json.Value → String := dumpsText { compact := true, ensureAscii := false }

/-- `_load_history`. -/
def loadHistory : Prog (List μ) :=
  .doing (.memoryGet messagesKey) fun raw =>
    match raw with
    | none => .ret []
    | some raw => .ofExcept (self.validateMessages raw)

/-- What is staged for a deferred call, and its entry. -/
def deferredCall (kind : CallKind) (call : ToolCallPart) : DeferredCall where
  kind := kind
  toolName := call.toolName
  argsJson := canonicalJson call.args
  entry := .ofList [("kind", .text kind.text), ("tool_call_id", .text call.toolCallId)]

/-- The calls of `_stage_and_suspend`: those of tools before those to approve. -/
def deferredCalls (requests : DeferredToolRequests) : List DeferredCall :=
  requests.calls.map (deferredCall .tool) ++ requests.approvals.map (deferredCall .approval)

/-- What `__call__` does with the result of a run. -/
def conclude (result : AgentRunResult ο) : Prog RunEnd :=
  .doing (.memorySet messagesKey result.messages) fun _ =>
    .doing (.accumulateUsage result.usage) fun _ =>
      match result.output with
      | .inr requests => .ret (.deferred (deferredCalls requests))
      | .inl _ => .ofExcept ((self.encodeOutput result).map .finished)

/-- One answer of `_deferred_results`: a tool result that is not `OK` is shown as it is. -/
def addResult (results : DeferredToolResults) (entry collected : JsonRecord) :
    Except PyExn DeferredToolResults := do
  let callId ← recordField py entry "tool_call_id"
  let kind ← recordField py entry "kind"
  if kind = .text CallKind.approval.text then
    let approved ← recordField py collected "approved"
    return { results with approvals := results.approvals.set callId (scalarTruthy approved) }
  else
    let status ← recordField py collected "status"
    if status = .text ResultStatus.ok.name then
      let payload ← recordField py collected "payload"
      return { results with calls := results.calls.set callId payload }
    else
      let failure ← recordFields py collected resultFields
      let shown := dumpsText {} (Json.ofMap Json.Scalar.value failure)
      return { results with calls := results.calls.set callId (.text shown) }

/-- `_deferred_results`. -/
def deferredResults (answered : List (JsonRecord × JsonRecord)) :
    Except PyExn DeferredToolResults :=
  answered.foldlM (fun results p => addResult py results p.1 p.2) {}

/-- The number of results. -/
def resultCount (results : DeferredToolResults) : ℕ := results.calls.size + results.approvals.size

/-- One answer is one result. -/
theorem resultCount_of_single {entry collected : JsonRecord} {results : DeferredToolResults}
    (h : deferredResults py [(entry, collected)] = .ok results) : resultCount results = 1 := by
  obtain ⟨results', hadd, hpure⟩ := except_bind_eq_ok h
  cases hpure
  obtain ⟨callId, -, hadd⟩ := except_bind_eq_ok hadd
  obtain ⟨kind, -, hadd⟩ := except_bind_eq_ok hadd
  split_ifs at hadd
  · obtain ⟨approved, -, hadd⟩ := except_bind_eq_ok hadd
    cases hadd
    rfl
  obtain ⟨status, -, hadd⟩ := except_bind_eq_ok hadd
  split_ifs at hadd <;>
    obtain ⟨payload, -, hadd⟩ := except_bind_eq_ok hadd <;> cases hadd <;> rfl

/-- The agent. -/
def adapter : Adapter (List μ) DeferredToolResults where
  name := "pydantic_ai"
  hitlTimeoutMs := self.hitlTimeoutMs
  decision approval :=
    .ofList [("kind", .text CallKind.approval.text), ("approved", .bool approval.approved)]
  prepare := self.loadHistory
  start history event := (Prog.ofExcept (self.decodeEvent event)).bind fun prompt =>
    (self.run (some prompt) history none).bind self.conclude
  answers := deferredResults py
  resume history results := (self.run none history (some results)).bind self.conclude
  foreign := self.foreign

end PydanticAIAgent

/-! ### LangGraph -/

/-- A call of the batch of `BeamToolNode`. -/
structure ToolNodeCall where
  id : String
  name : String
  args : Json.Value

/-- What a node interrupts with: the batch of `BeamToolNode` under its marker, or anything else. -/
inductive InterruptValue
  | toolCalls (calls : List ToolNodeCall)
  | other (value : Json.Value)

/-- `Interrupt`. -/
structure Interrupt where
  id : String
  value : InterruptValue

/-- A part of the value that an interrupt is resumed with. -/
inductive ResumeItem
  | scalar (a : Json.Scalar)
  | record (r : JsonRecord)

/-- What an interrupt is resumed with. -/
abbrev ResumeValue := Dict Json.Scalar ResumeItem

/-- `LangGraphAgent`. A run takes the input of the graph, or the map that it is resumed with, and
ends at interrupts or in a result. -/
structure LangGraphAgent (ι ο : Type) where
  run : ι ⊕ Dict Json.Scalar ResumeValue → Prog (ο ⊕ List Interrupt)
  decodeEvent : Bytes → Except PyExn ι
  encodeOutput : ο → Except PyExn Bytes
  hitlTimeoutMs : Option Int := none
  foreign : Bytes → PyExn

namespace LangGraphAgent

variable {ι ο : Type} (self : LangGraphAgent ι ο)

/-- `_canonical_json`. -/
def canonicalJson : Json.Value → String := dumpsText {}

/-- What is staged for an interrupt, and the entries. -/
def deferredCalls (interrupt : Interrupt) : List DeferredCall :=
  match interrupt.value with
  | .toolCalls calls => calls.map fun call => {
      kind := .tool
      toolName := call.name
      argsJson := canonicalJson call.args
      entry := .ofList [("kind", .text CallKind.tool.text), ("interrupt_id", .text interrupt.id),
        ("tool_call_id", .text call.id)] }
  | .other value => [{
      kind := .approval
      argsJson := canonicalJson value
      entry := .ofList
        [("kind", .text CallKind.approval.text), ("interrupt_id", .text interrupt.id)] }]

/-- What `__call__` does with the result of a run. -/
def conclude (result : ο ⊕ List Interrupt) : Prog RunEnd :=
  match result with
  | .inr interrupts => .ret (.deferred (interrupts.flatMap deferredCalls))
  | .inl output => .ofExcept ((self.encodeOutput output).map .finished)

/-- A decision as the value that an interrupt is resumed with. -/
def decisionValue (decision : JsonRecord) : ResumeValue :=
  Dict.ofList (decision.entries.map fun p => (.text p.1, .scalar p.2))

/-- One answer of `_resume_map`: the calls of one interrupt are answered together. -/
def addResume (resume : Dict Json.Scalar ResumeValue) (entry result : JsonRecord) :
    Except PyExn (Dict Json.Scalar ResumeValue) := do
  let kind ← recordField py entry "kind"
  let value ← handedBack py entry result
  let interruptId ← recordField py entry "interrupt_id"
  if kind = .text CallKind.approval.text then
    return resume.set interruptId (decisionValue value)
  else
    let callId ← recordField py entry "tool_call_id"
    let perCall := (resume.get? interruptId).getD .empty
    return resume.set interruptId (perCall.set callId (.record value))

/-- `_resume_map`. -/
def resumeMap (answered : List (JsonRecord × JsonRecord)) :
    Except PyExn (Dict Json.Scalar ResumeValue) :=
  answered.foldlM (fun resume p => addResume py resume p.1 p.2) .empty

/-- The agent. -/
def adapter : Adapter Unit (Dict Json.Scalar ResumeValue) where
  name := "langgraph"
  hitlTimeoutMs := self.hitlTimeoutMs
  decision := Approval.record
  prepare := .ret ()
  start _ event := (Prog.ofExcept (self.decodeEvent event)).bind fun input =>
    (self.run (.inl input)).bind self.conclude
  answers := resumeMap py
  resume _ resume := (self.run (.inr resume)).bind self.conclude
  foreign := self.foreign

end LangGraphAgent

/-! ### ADK -/

/-- `_PendingCall`. -/
structure AdkPendingCall where
  kind : CallKind
  toolName : String
  args : Json.Value
  functionCallId : String

/-- An event of a run: the ids of its function calls, which of them are long-running, and its
text. -/
structure AdkEvent where
  functionCalls : List (Option String) := []
  longRunningToolIds : List String := []
  text : String := ""

/-- A run: the events of its stream, and the calls in the order in which the tools recorded them. -/
structure AdkRun where
  events : List AdkEvent
  recorded : List AdkPendingCall

/-- `FunctionResponse`. -/
structure FunctionResponse where
  id : Json.Scalar
  name : Json.Scalar
  response : JsonRecord

/-- `AdkAgent`. A run takes the content of an event, or the responses to earlier calls. -/
structure AdkAgent (κ σ : Type) where
  run : κ ⊕ List FunctionResponse → Prog AdkRun
  /-- `session_service.get_session`. -/
  getSession : Prog σ
  decodeEvent : Bytes → Except PyExn κ
  encodeOutput : String → σ → Except PyExn Bytes
  hitlTimeoutMs : Option Int := none
  foreign : Bytes → PyExn

/-- `_pending_ids`. -/
def AdkEvent.pendingIds (event : AdkEvent) : List String :=
  event.functionCalls.filterMap fun id => id.filter (event.longRunningToolIds.contains ·)

namespace AdkRun

variable (run : AdkRun)

/-- The ids of the calls that the stream surfaced, in its order. -/
def orderedIds : List String := run.events.flatMap AdkEvent.pendingIds

/-- The text of the last event that has one. -/
def finalText : String :=
  run.events.foldl (fun text event => if event.text ≠ "" then event.text else text) ""

/-- `_CallCollector.calls`. -/
def calls : Dict String AdkPendingCall :=
  Dict.ofList (run.recorded.map fun call => (call.functionCallId, call))

end AdkRun

namespace AdkAgent

variable {κ σ : Type} (self : AdkAgent κ σ)

/-- `_canonical_json`. -/
def canonicalJson : Json.Value → String := dumpsText { compact := true }

/-- The collected calls that the stream surfaced, each at its first place. -/
def surfacedIds (calls : Dict String AdkPendingCall) : List String → List String → List String
  | seen, [] => seen
  | seen, id :: ids =>
    if (calls.get? id).isSome ∧ id ∉ seen then surfacedIds calls (seen ++ [id]) ids
    else surfacedIds calls seen ids

/-- The order of `_stage_and_suspend`: that of the stream, then the other calls by id. -/
def pendingIds (calls : Dict String AdkPendingCall) (orderedIds : List String) : List String :=
  let seen := surfacedIds calls [] orderedIds
  seen ++ (calls.keys.insertionSort (· ≤ ·)).filter (· ∉ seen)

/-- The calls in the order in which they are staged. -/
def pendingOrder (calls : Dict String AdkPendingCall) (orderedIds : List String) :
    List AdkPendingCall :=
  (pendingIds calls orderedIds).filterMap calls.get?

/-- What is staged for a call, and its entry. -/
def deferredCall (call : AdkPendingCall) : DeferredCall where
  kind := call.kind
  toolName := call.toolName
  argsJson := canonicalJson call.args
  entry := .ofList [("kind", .text call.kind.text),
    ("function_call_id", .text call.functionCallId), ("tool_name", .text call.toolName)]

/-- What `__call__` does with a run. -/
def conclude (run : AdkRun) : Prog RunEnd :=
  if run.calls.items ≠ [] then
    .ret (.deferred ((pendingOrder run.calls run.orderedIds).map deferredCall))
  else
    self.getSession.bind fun session =>
      .ofExcept ((self.encodeOutput run.finalText session).map .finished)

/-- `_function_response_message`. -/
def functionResponses (answered : List (JsonRecord × JsonRecord)) :
    Except PyExn (List FunctionResponse) :=
  answered.mapM fun p => do
    let response ← handedBack py p.1 p.2
    let id ← recordField py p.1 "function_call_id"
    let name ← recordField py p.1 "tool_name"
    return ⟨id, name, response⟩

/-- The agent. -/
def adapter : Adapter Unit (List FunctionResponse) where
  name := "adk"
  hitlTimeoutMs := self.hitlTimeoutMs
  decision := Approval.record
  prepare := .ret ()
  start _ event := (Prog.ofExcept (self.decodeEvent event)).bind fun content =>
    (self.run (.inl content)).bind self.conclude
  answers := functionResponses py
  resume _ responses := (self.run (.inr responses)).bind self.conclude
  foreign := self.foreign

end AdkAgent

end BeamAgents
