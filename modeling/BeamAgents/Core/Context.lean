import BeamAgents.Core.Policies
import BeamAgents.Memory.Facade
import BeamAgents.Model.ReplayCache
import BeamAgents.Observability.Metrics
import Mathlib.Data.Nat.Basic
import Mathlib.Order.Basic

/-!
# The activation context

`ActivationContext` of `core/context.py`: the surface on which an agent stages the effects of one
activation. An agent is user code, so it is a program over the operations of the context: between
two awaits it performs operations, and at an await the world answers it. A method of the context
that awaits in the middle is cut there (`modelEnter`, `modelLeave`, `toolEnter`, `toolLeave`), so
that an agent that runs calls concurrently is a program that interleaves the parts. Exceptions are
answers: an agent may catch one and go on. An activation ends when the agent returns; tasks that
outlive the agent are not modelled.

## Main definitions

* `ActivationContext`, `CtxOp`, `ActivationContext.perform`.
* `Await`, `Prog`, `Prog.run`.
* `callModel`, `runTool`, `longtermLoad`, `longtermSearch`: the awaiting methods as programs.
* `Minted`, `ActivationContext.Extends`: what any operation may do to the staged intents.

## Main results

* `Prog.run_extends`: whatever an agent does, the intents it stages carry the steps between the
  cursor it started from and the cursor it leaves, in increasing order.
-/

namespace BeamAgents

open Containers

/-! ### The context -/

/-- A registered tool, as far as the context looks at it. -/
structure Tool where
  sideEffect : Bool
  deriving DecidableEq, Repr

theorem unmetered_decode :
    (none : Option ℕ).isSome → (none : Option (Bytes → Except PyExn TokenUsage)).isSome := by
  decide

theorem unmetered_pos : ∀ n ∈ (none : Option ℕ), 0 < n := by decide

/-- What an activation context is built with, the same for all activations of a pipeline. -/
structure ContextConfig where
  compactor : Option Compactor := none
  /-- The provider's response decoder; it is user code and may raise. -/
  decode : Option (Bytes → Except PyExn TokenUsage) := none
  tools : String → Option Tool := fun _ => none
  /-- Whether a long-term store is configured. -/
  longterm : Bool := false
  intentTtlMs : Int := defaultIntentTtlMs
  approvalChannel : String := defaultApprovalChannel
  maxTokensPerActivation : Option ℕ := none
  /-- `AgentConfig` refuses a budget without a decoder, and one that is not positive. -/
  decode_of_budget : maxTokensPerActivation.isSome → decode.isSome := by
    first | exact unmetered_decode | decide
  budget_pos : ∀ n ∈ maxTokensPerActivation, 0 < n := by first | exact unmetered_pos | decide

/-- The staging surface of one activation. -/
structure ActivationContext where
  entityKey : Bytes
  seq : ℕ
  nowMs : Int
  /-- `Sum.inr` is the list of a batch activation. -/
  event : Bytes ⊕ List Bytes
  snapshot : Bytes
  resumeResult : Option ToolResult
  resumeApproval : Option Approval
  memory : Memory
  /-- The staged long-term saves by key. -/
  longterm : Dict String MemoryRecord
  replayCache : ReplayCache
  budget : Option TokenBudget
  trace : ActivationTrace
  stepIndex : ℕ
  startStepIndex : ℕ
  toolIndex : ℕ
  intents : List ToolIntent
  traces : List TraceEvent
  tally : ActivationTally

/-- The locals that a `call_model` keeps across its await of the provider. -/
structure ModelCall where
  step : ℕ
  cacheKey : String
  modelId : String
  deriving DecidableEq, Repr

/-- How a `call_model` enters: answered from the cache, or on its way to the provider. -/
inductive ModelEntry
  | hit (response : Bytes)
  | miss (call : ModelCall)
  deriving DecidableEq, Repr

/-- The operations on a context between two awaits. -/
inductive CtxOp
  | act (toolName argsJson : String) (ttlMs : Option Int := none)
  | requestApproval (argsJson : String) (channel : Option String := none)
      (ttlMs : Option Int := none)
  | modelEnter (request : LlmRequest)
  | modelLeave (call : ModelCall) (response : Bytes) (elapsedNs : Int)
  | toolEnter (toolName : String)
  | toolLeave (toolName : String) (elapsedNs : Int)
  | stageTrace (event : TraceEvent)
  | accumulateUsage (usage : TokenUsage)
  | memoryGet (key : String)
  | memorySet (key : String) (value : Bytes)
  | memoryDelete (key : String)
  | memoryAppend (key : String) (item : Bytes) (maxItems : Int := 64)
  | memoryRing (key : String)
  | longtermSave (key : String) (value : Bytes)
  | longtermStaged (key : String)
  | longtermMerge (keyPrefix : String) (limit : ℕ) (stored : List MemoryRecord)

/-- What an operation answers. -/
@[reducible] def CtxOp.Ans : CtxOp → Type
  | .act .. | .requestApproval .. => String
  | .modelEnter _ => ModelEntry
  | .modelLeave .. => Bytes
  | .memoryGet _ => Option Bytes
  | .memoryRing _ => List Bytes
  | .longtermStaged _ => Option MemoryRecord
  | .longtermMerge .. => List MemoryRecord
  | .toolEnter _ | .toolLeave .. | .stageTrace _ | .accumulateUsage _ | .memorySet ..
  | .memoryDelete _ | .memoryAppend .. | .longtermSave .. => Unit

variable (py : PyLib) (cfg : ContextConfig)

/-- `ToolNotFoundError`. -/
def toolNotFound (name : String) : PyExn where
  typeName := "ToolNotFoundError"
  repr := py.exnRepr "ToolNotFoundError" s!"no tool registered under name {py.reprStr name}"

/-- `SideEffectToolError`. -/
def sideEffectTool (name : String) : PyExn where
  typeName := "SideEffectToolError"
  repr := py.exnRepr "SideEffectToolError"
    (s!"tool {py.reprStr name} is side_effect=True and cannot be invoked directly; " ++
      "request it through ctx.act(...) instead")

/-- The `RuntimeError` of `Memory.longterm` without a configured store. -/
def noLongtermStore : PyExn where
  typeName := "RuntimeError"
  repr := "RuntimeError('no long-term memory store is configured for this pipeline; set " ++
    "AgentConfig.longterm_memory to a store URI (memory://, redis://, " ++
    "bigtable://<project>/<instance>/<table>, firestore://<project>/<collection>, " ++
    "or a SQLAlchemy async URL) to enable ctx.memory.longterm')"

/-- The `ValueError` of `LongtermMemory.save` without a key. -/
def emptyLongtermKey : PyExn where
  typeName := "ValueError"
  repr := "ValueError('longterm save requires a non-empty key')"

namespace ActivationContext

variable (ctx : ActivationContext)

/-- `ActivationContext.is_resume`. -/
def isResume : Bool := ctx.resumeResult.isSome || ctx.resumeApproval.isSome

/-- `ActivationContext.is_batch`. -/
def isBatch : Bool := ctx.event.isRight

/-- `ActivationContext.events`. -/
def events : List Bytes :=
  match ctx.event with
  | .inr events => events
  | .inl event => if ctx.isResume then [] else [event]

/-- `ActivationContext.iterations`. -/
def iterations : ℕ := ctx.stepIndex - ctx.startStepIndex

/-- `ActivationContext.tally()`. -/
def readTally : ActivationTally := { ctx.tally with iterations := ctx.iterations }

/-- `ActivationContext.staged_upserts`. -/
def stagedUpserts : List MemoryRecord := ctx.longterm.values

/-- `ActivationContext._advance_step`. -/
def advanceStep : ℕ × ActivationContext :=
  (ctx.stepIndex, { ctx with stepIndex := ctx.stepIndex + 1 })

/-- `ActivationContext.stage_trace`, and `stage_trace_event`. -/
def stageTrace (event : TraceEvent) : ActivationContext :=
  { ctx with traces := ctx.traces ++ [ctx.trace.stamp py event] }

/-- `ActivationContext._stage_intent`. -/
def stageIntent (toolName argsJson : String) (kind : IntentKind) (ttlMs : Option Int) :
    String × ActivationContext :=
  let (step, ctx) := ctx.advanceStep
  let intentId := intentIdFor py ctx.entityKey ctx.seq step
  let expiresAtMs := ctx.nowMs + ttlMs.getD cfg.intentTtlMs
  let intent : ToolIntent :=
    { intentId := intentId
      entityKey := ctx.entityKey
      seq := ctx.seq
      stepIndex := step
      toolName := toolName
      argsJson := argsJson
      createdAtMs := ctx.nowMs
      expiresAtMs := expiresAtMs
      attempt := 0
      kind := kind
      traceId := ctx.trace.traceId py }
  (intentId, { ctx with
    intents := ctx.intents ++ [intent]
    traces := ctx.traces ++
      [ctx.trace.intentEmitted py step intentId toolName kind.name expiresAtMs] })

/-- `ActivationContext._decoded_usage`. -/
def decodedUsage (response : Bytes) : Except PyExn (Option TokenUsage) :=
  match cfg.decode with
  | none => .ok none
  | some decode => (decode response).map some

/-- `ActivationContext._stage_llm_trace`. -/
def stageLlmTrace (step : ℕ) (cacheHit : Bool) (modelId : String) (usage : Option TokenUsage) :
    ActivationContext :=
  ctx.stageTrace py {
    entityKey := ctx.entityKey
    seq := ctx.seq
    stepIndex := step
    eventType := .llmCall
    attributes := [("gen_ai.operation.name", "chat"), ("gen_ai.request.model", modelId),
      ("beam_agents.cache_hit", boolText cacheHit)] ++ usageAttributes usage (!cacheHit)
    startMs := ctx.nowMs
    endMs := ctx.nowMs }

/-- `ActivationContext._charge`. A budget comes with a decoder, so the usage is known. -/
def charge (usage : Option TokenUsage) : ActivationContext × Option PyExn :=
  match ctx.budget, usage with
  | some budget, some usage =>
    let (budget, tripped) := budget.charge usage.totalTokens
    ({ ctx with budget := some budget }, tripped)
  | _, _ => (ctx, none)

/-- The tail that both branches of `call_model` share: decode, trace, charge. -/
def finishModel (step : ℕ) (cacheHit : Bool) (modelId : String) (response : Bytes) :
    ActivationContext × Option PyExn :=
  match decodedUsage cfg response with
  | .error e => (ctx, some e)
  | .ok usage => (ctx.stageLlmTrace py step cacheHit modelId usage).charge usage

/-- `ActivationContext.call_model` up to its await: a live hit is answered at once. -/
def modelEnter (request : LlmRequest) : ActivationContext × Except PyExn ModelEntry :=
  match ctx.budget.bind TokenBudget.check with
  | some e => (ctx, .error e)
  | none =>
    let (step, ctx) := ctx.advanceStep
    match computeCacheKey py request ctx.entityKey ctx.seq with
    | .error e => (ctx, .error e)
    | .ok cacheKey =>
      let (cache, cached) := ctx.replayCache.get cacheKey
      let ctx := { ctx with replayCache := cache }
      match cached.filter fun entry => !entry.digestOnly with
      | none => (ctx, .ok (.miss ⟨step, cacheKey, request.modelId⟩))
      | some entry =>
        match ctx.finishModel py cfg step true request.modelId entry.response with
        | (ctx, some e) => (ctx, .error e)
        | (ctx, none) => (ctx, .ok (.hit entry.response))

/-- `_NS_PER_MS`. -/
def nsPerMs : Int := 1000000

/-- `ActivationContext.call_model` after the provider answered. -/
def modelLeave (call : ModelCall) (response : Bytes) (elapsedNs : Int) :
    ActivationContext × Except PyExn Bytes :=
  let ctx := { ctx with
    replayCache := ctx.replayCache.put py call.cacheKey response
    tally := { ctx.tally with
      llmCalls := ctx.tally.llmCalls + 1
      llmMs := ctx.tally.llmMs ++ [elapsedNs / nsPerMs] } }
  match ctx.finishModel py cfg call.step false call.modelId response with
  | (ctx, some e) => (ctx, .error e)
  | (ctx, none) => (ctx, .ok response)

/-- `ActivationContext.run_tool` up to its await: unknown and side-effecting tools are refused. -/
def toolEnter (toolName : String) : Except PyExn Unit :=
  match cfg.tools toolName with
  | none => .error (toolNotFound py toolName)
  | some tool => if tool.sideEffect then .error (sideEffectTool py toolName) else .ok ()

/-- `ActivationContext.run_tool` after the tool returned; the step cursor does not move. -/
def toolLeave (toolName : String) (elapsedNs : Int) : ActivationContext :=
  { ctx with
    tally := { ctx.tally with
      toolCalls := ctx.tally.toolCalls + 1
      toolMs := ctx.tally.toolMs ++ [elapsedNs / nsPerMs] }
    traces := ctx.traces ++ [ctx.trace.toolCall py ctx.stepIndex ctx.toolIndex toolName]
    toolIndex := ctx.toolIndex + 1 }

/-- `ActivationContext.accumulate_usage`. -/
def accumulateUsage (usage : TokenUsage) : ActivationContext :=
  { ctx with tally := { ctx.tally with
      totalTokens := ctx.tally.totalTokens + usage.totalTokens
      promptTokens := ctx.tally.promptTokens + usage.promptTokens
      completionTokens := ctx.tally.completionTokens + usage.completionTokens
      usageObserved := true } }

/-- `LongtermMemory.save`, behind `Memory.longterm`. -/
def longtermSave (key : String) (value : Bytes) : ActivationContext × Except PyExn Unit :=
  if !cfg.longterm then (ctx, .error noLongtermStore)
  else if key = "" then (ctx, .error emptyLongtermKey)
  else
    let record : MemoryRecord := ⟨ctx.entityKey, key, value, ctx.seq, ctx.nowMs⟩
    ({ ctx with longterm := ctx.longterm.set key record }, .ok ())

/-- The merge of `LongtermMemory.search`: staged saves over the rows of the store, by key. -/
def longtermMerge (keyPrefix : String) (limit : ℕ) (stored : List MemoryRecord) :
    List MemoryRecord :=
  let merged := (ctx.longterm.items.filter fun p => keyPrefix.isPrefixOf p.1).foldl
    (fun d p => d.set p.1 p.2) (Dict.ofList (stored.map fun r => (r.key, r)))
  (merged.values.mergeSort fun a b => decide (a.key ≤ b.key)).take limit

/-- A memory operation on the context's working memory. -/
def withMemory {α : Type} (r : Memory × α) : ActivationContext × α :=
  ({ ctx with memory := r.1 }, r.2)

/-- The `Except` of an operation that answers nothing but may raise. -/
def unitResult (raised : Option PyExn) : Except PyExn Unit :=
  match raised with
  | some e => .error e
  | none => .ok ()

/-- One operation of the agent on its context. -/
def perform : (op : CtxOp) → ActivationContext → ActivationContext × Except PyExn op.Ans
  | .act toolName argsJson ttlMs, ctx =>
    let (intentId, ctx) := ctx.stageIntent py cfg toolName argsJson .tool ttlMs
    (ctx, .ok intentId)
  | .requestApproval argsJson channel ttlMs, ctx =>
    let (intentId, ctx) :=
      ctx.stageIntent py cfg (channel.getD cfg.approvalChannel) argsJson .approval ttlMs
    (ctx, .ok intentId)
  | .modelEnter request, ctx => ctx.modelEnter py cfg request
  | .modelLeave call response elapsedNs, ctx => ctx.modelLeave py cfg call response elapsedNs
  | .toolEnter toolName, ctx => (ctx, toolEnter py cfg toolName)
  | .toolLeave toolName elapsedNs, ctx => (ctx.toolLeave py toolName elapsedNs, .ok ())
  | .stageTrace event, ctx => (ctx.stageTrace py event, .ok ())
  | .accumulateUsage usage, ctx => (ctx.accumulateUsage usage, .ok ())
  | .memoryGet key, ctx => ctx.withMemory (ctx.memory.get py key)
  | .memorySet key value, ctx =>
    let (memory, raised) := ctx.memory.set py cfg.compactor key value
    ctx.withMemory (memory, unitResult raised)
  | .memoryDelete key, ctx => ctx.withMemory (ctx.memory.delete key, .ok ())
  | .memoryAppend key item maxItems, ctx =>
    let (memory, raised) := ctx.memory.append py cfg.compactor key item maxItems
    ctx.withMemory (memory, unitResult raised)
  | .memoryRing key, ctx => ctx.withMemory (ctx.memory.ring py key)
  | .longtermSave key value, ctx => ctx.longtermSave cfg key value
  | .longtermStaged key, ctx =>
    (ctx, if cfg.longterm then .ok (ctx.longterm.get? key) else .error noLongtermStore)
  | .longtermMerge keyPrefix limit stored, ctx =>
    (ctx, .ok (ctx.longtermMerge keyPrefix limit stored))

end ActivationContext

/-! ### Agents as programs -/

/-- What an agent may wait for outside of its context. -/
inductive Await
  | model (request : LlmRequest)
  | tool (toolName argsJson : String)
  | storeLoad (key : String)
  | storeSearch (keyPrefix : String) (limit : ℕ)
  | other (what : String)

/-- What an await is answered with. -/
@[reducible] def Await.Ans : Await → Type
  | .model _ | .tool .. | .other _ => Bytes
  | .storeLoad _ => Option MemoryRecord
  | .storeSearch .. => List MemoryRecord

/-- The answer to an await, and the monotonic time it took. A cancellation arrives as an answer. -/
structure Answer (α : Type) where
  value : Except PyExn α
  elapsedNs : Int := 0

/-- A program of user code over the context: it may read the context, perform operations on it,
wait for the world, return and raise. -/
inductive Prog (ρ : Type)
  | ret (r : ρ)
  | raise (e : PyExn)
  | read (k : ActivationContext → Prog ρ)
  | perform (op : CtxOp) (k : Except PyExn op.Ans → Prog ρ)
  | await (a : Await) (k : Answer a.Ans → Prog ρ)

/-- Where a program ended: the context it leaves, how often it waited, and what it returned. -/
structure ProgEnd (ρ : Type) where
  ctx : ActivationContext
  awaits : ℕ
  outcome : Except PyExn ρ

/-- The answers of the world to the awaits of one activation, in order. -/
abbrev Answers := ℕ → (a : Await) → Answer a.Ans

/-- Run a program that has waited `awaits` times already. -/
def Prog.run {ρ : Type} (answers : Answers) : Prog ρ → ℕ → ActivationContext → ProgEnd ρ
  | .ret r, awaits, ctx => ⟨ctx, awaits, .ok r⟩
  | .raise e, awaits, ctx => ⟨ctx, awaits, .error e⟩
  | .read k, awaits, ctx => (k ctx).run answers awaits ctx
  | .perform op k, awaits, ctx =>
    let r := ActivationContext.perform py cfg op ctx
    (k r.2).run answers awaits r.1
  | .await a k, awaits, ctx => (k (answers awaits a)).run answers (awaits + 1) ctx

section Awaiting

variable {ρ : Type}

/-- `ActivationContext.call_model`. -/
def callModel (request : LlmRequest) (k : Except PyExn Bytes → Prog ρ) : Prog ρ :=
  .perform (.modelEnter request) fun
    | .error e => k (.error e)
    | .ok (.hit response) => k (.ok response)
    | .ok (.miss call) => .await (.model request) fun answer =>
      match answer.value with
      | .error e => k (.error e)
      | .ok response => .perform (.modelLeave call response answer.elapsedNs) k

/-- `ActivationContext.run_tool`. -/
def runTool (toolName argsJson : String) (k : Except PyExn Bytes → Prog ρ) : Prog ρ :=
  .perform (.toolEnter toolName) fun
    | .error e => k (.error e)
    | .ok () => .await (.tool toolName argsJson) fun answer =>
      match answer.value with
      | .error e => k (.error e)
      | .ok value => .perform (.toolLeave toolName answer.elapsedNs) fun _ => k (.ok value)

/-- `LongtermMemory.load`: the activation's own staged save first. -/
def longtermLoad (key : String) (k : Except PyExn (Option MemoryRecord) → Prog ρ) : Prog ρ :=
  .perform (.longtermStaged key) fun
    | .error e => k (.error e)
    | .ok (some record) => k (.ok (some record))
    | .ok none => .await (.storeLoad key) fun answer => k answer.value

/-- `LongtermMemory.search`. -/
def longtermSearch (keyPrefix : String) (limit : ℕ)
    (k : Except PyExn (List MemoryRecord) → Prog ρ) : Prog ρ :=
  .perform (.longtermStaged keyPrefix) fun
    | .error e => k (.error e)
    | .ok _ => .await (.storeSearch keyPrefix limit) fun answer =>
      match answer.value with
      | .error e => k (.error e)
      | .ok stored => .perform (.longtermMerge keyPrefix limit stored) k

end Awaiting

/-! ### What a program does to the staged intents -/

/-- The intents in `l` were minted for `(key, seq)` at increasing steps from `lo` on, below `hi`. -/
structure Minted (key : Bytes) (seq lo hi : ℕ) (l : List ToolIntent) : Prop where
  intentId : ∀ i ∈ l, i.intentId = intentIdFor py key seq i.stepIndex
  lower : ∀ i ∈ l, lo ≤ i.stepIndex
  upper : ∀ i ∈ l, i.stepIndex < hi
  increasing : (l.map ToolIntent.stepIndex).Pairwise (· < ·)
  entityKey : ∀ i ∈ l, i.entityKey = key
  seq : ∀ i ∈ l, i.seq = seq

section Minted

variable {py} {key : Bytes} {seq lo mid hi : ℕ} {l l' : List ToolIntent}

theorem Minted.nil : Minted py key seq lo hi [] :=
  ⟨by simp, by simp, by simp, List.Pairwise.nil, by simp, by simp⟩

theorem Minted.append (h : Minted py key seq lo mid l) (h' : Minted py key seq mid hi l')
    (hlo : lo ≤ mid) (hhi : mid ≤ hi) : Minted py key seq lo hi (l ++ l') := by
  refine ⟨?_, ?_, ?_, ?_, ?_, ?_⟩
  · exact fun i hi => (List.mem_append.mp hi).elim (h.intentId i) (h'.intentId i)
  · exact fun i hi => (List.mem_append.mp hi).elim (h.lower i) fun hi => hlo.trans (h'.lower i hi)
  · exact fun i hi =>
      (List.mem_append.mp hi).elim (fun hi => (h.upper i hi).trans_le hhi) (h'.upper i)
  · rw [List.map_append, List.pairwise_append]
    refine ⟨h.increasing, h'.increasing, fun a ha b hb => ?_⟩
    obtain ⟨i, hi, rfl⟩ := List.mem_map.mp ha
    obtain ⟨j, hj, rfl⟩ := List.mem_map.mp hb
    exact (h.upper i hi).trans_le (h'.lower j hj)
  · exact fun i hi => (List.mem_append.mp hi).elim (h.entityKey i) (h'.entityKey i)
  · exact fun i hi => (List.mem_append.mp hi).elim (h.seq i) (h'.seq i)

end Minted

namespace ActivationContext

/-- `ctx'` is a later context of the same activation: the scope is the same, the cursor has not
gone back, and the new intents were minted at the steps in between. -/
structure Extends (ctx ctx' : ActivationContext) : Prop where
  entityKey : ctx'.entityKey = ctx.entityKey
  seq : ctx'.seq = ctx.seq
  nowMs : ctx'.nowMs = ctx.nowMs
  stepIndex : ctx.stepIndex ≤ ctx'.stepIndex
  intents : ∃ new, ctx'.intents = ctx.intents ++ new ∧
    Minted py ctx.entityKey ctx.seq ctx.stepIndex ctx'.stepIndex new

section Extends

variable {py} {cfg} {ctx ctx' ctx'' : ActivationContext}

theorem Extends.trans (h : Extends py ctx ctx') (h' : Extends py ctx' ctx'') :
    Extends py ctx ctx'' := by
  obtain ⟨new, hnew, hm⟩ := h.intents
  obtain ⟨new', hnew', hm'⟩ := h'.intents
  refine ⟨h'.entityKey.trans h.entityKey, h'.seq.trans h.seq, h'.nowMs.trans h.nowMs,
    h.stepIndex.trans h'.stepIndex, new ++ new', ?_, ?_⟩
  · rw [hnew', hnew, List.append_assoc]
  · rw [h.entityKey, h.seq] at hm'
    exact hm.append hm' h.stepIndex h'.stepIndex

/-- An operation that stages no intent extends its context as soon as the cursor stays or moves
on. -/
theorem Extends.of_quiet (hkey : ctx'.entityKey = ctx.entityKey) (hseq : ctx'.seq = ctx.seq)
    (hnow : ctx'.nowMs = ctx.nowMs) (hstep : ctx.stepIndex ≤ ctx'.stepIndex)
    (hintents : ctx'.intents = ctx.intents) : Extends py ctx ctx' :=
  ⟨hkey, hseq, hnow, hstep, [], by rw [hintents, List.append_nil], .nil⟩

theorem Extends.refl (ctx : ActivationContext) : Extends py ctx ctx :=
  .of_quiet rfl rfl rfl le_rfl rfl

theorem stageIntent_extends (toolName argsJson : String) (kind : IntentKind)
    (ttlMs : Option Int) :
    Extends py ctx (ctx.stageIntent py cfg toolName argsJson kind ttlMs).2 := by
  refine ⟨rfl, rfl, rfl, Nat.le_succ _, [_], rfl, ?_⟩
  refine ⟨?_, ?_, ?_, List.pairwise_singleton _ _, ?_, ?_⟩ <;>
    simp [advanceStep, stageIntent]

theorem charge_extends (usage : Option TokenUsage) : Extends py ctx (ctx.charge usage).1 := by
  unfold charge
  split
  · exact .of_quiet rfl rfl rfl le_rfl rfl
  · exact .refl ctx

theorem finishModel_extends (cfg : ContextConfig) (step : ℕ) (cacheHit : Bool) (modelId : String)
    (response : Bytes) :
    Extends py ctx (ctx.finishModel py cfg step cacheHit modelId response).1 := by
  have hstaged (usage : Option TokenUsage) :
      Extends py ctx (ctx.stageLlmTrace py step cacheHit modelId usage) :=
    .of_quiet rfl rfl rfl le_rfl rfl
  unfold finishModel
  split
  · exact .refl ctx
  · exact (hstaged _).trans (charge_extends _)

theorem modelEnter_extends (request : LlmRequest) :
    Extends py ctx (ctx.modelEnter py cfg request).1 := by
  have hadvance : Extends py ctx ctx.advanceStep.2 := .of_quiet rfl rfl rfl (Nat.le_succ _) rfl
  unfold modelEnter
  split
  · exact .refl ctx
  · dsimp only
    split
    · exact hadvance
    · rename_i cacheKey hkey
      have hlookup : Extends py ctx
          { ctx.advanceStep.2 with replayCache := (ctx.replayCache.get cacheKey).1 } :=
        .of_quiet rfl rfl rfl (Nat.le_succ _) rfl
      split
      · exact hlookup
      · rename_i entry hentry
        have hfinish := hlookup.trans
          (finishModel_extends cfg ctx.stepIndex true request.modelId entry.response)
        split
        · rename_i c e heq
          exact (congrArg Prod.fst heq) ▸ hfinish
        · rename_i c heq
          exact (congrArg Prod.fst heq) ▸ hfinish

theorem modelLeave_extends (call : ModelCall) (response : Bytes) (elapsedNs : Int) :
    Extends py ctx (ctx.modelLeave py cfg call response elapsedNs).1 := by
  unfold modelLeave
  dsimp only
  have hput : Extends py ctx { ctx with
      replayCache := ctx.replayCache.put py call.cacheKey response
      tally := { ctx.tally with
        llmCalls := ctx.tally.llmCalls + 1
        llmMs := ctx.tally.llmMs ++ [elapsedNs / nsPerMs] } } :=
    .of_quiet rfl rfl rfl le_rfl rfl
  refine hput.trans ?_
  have hfinish (ctx : ActivationContext) :
      Extends py ctx (ctx.finishModel py cfg call.step false call.modelId response).1 :=
    finishModel_extends cfg call.step false call.modelId response
  split
  · rename_i c e heq
    exact (congrArg Prod.fst heq) ▸ hfinish _
  · rename_i c heq
    exact (congrArg Prod.fst heq) ▸ hfinish _

/-- Whatever an operation answers, it extends the context. -/
theorem perform_extends (op : CtxOp) (ctx : ActivationContext) :
    Extends py ctx (perform py cfg op ctx).1 := by
  cases op with
  | act toolName argsJson ttlMs => exact stageIntent_extends _ _ _ _
  | requestApproval argsJson channel ttlMs => exact stageIntent_extends _ _ _ _
  | modelEnter request => exact modelEnter_extends request
  | modelLeave call response elapsedNs => exact modelLeave_extends call response elapsedNs
  | longtermSave key value =>
    simp only [perform, longtermSave]
    split_ifs
    · exact .refl ctx
    · exact .refl ctx
    · exact .of_quiet rfl rfl rfl le_rfl rfl
  | _ => exact .of_quiet rfl rfl rfl le_rfl rfl

end Extends

end ActivationContext

/-- **Agents only mint upwards.** Whatever a program does and whatever the world answers, the
context it leaves extends the one it started from. -/
theorem Prog.run_extends {py : PyLib} (cfg : ContextConfig) {ρ : Type} (answers : Answers)
    (p : Prog ρ) (awaits : ℕ) (ctx : ActivationContext) :
    ctx.Extends py (p.run py cfg answers awaits ctx).ctx := by
  induction p generalizing awaits ctx with
  | ret r => exact .refl ctx
  | raise e => exact .refl ctx
  | read k ih => exact ih ctx awaits ctx
  | perform op k ih =>
    exact (ActivationContext.perform_extends op ctx).trans (ih _ awaits _)
  | await a k ih => exact ih (answers awaits a) (awaits + 1) ctx

end BeamAgents
