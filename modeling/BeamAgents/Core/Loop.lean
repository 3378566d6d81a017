import BeamAgents.Core.Context
import BeamAgents.Core.Migration

/-!
# The activation driver

`run_activation` of `core/loop.py` and `AsyncBridge.run` of `core/bridge.py`: build the context,
run the agent, run the summarizer when memory has grown, fold the outcome into a result, and flush
the staged long-term saves. Nothing here touches keyed state: the caller commits the result, or
nothing.

What the world decides about one activation (the answers to its awaits, the outcomes of the
flushed saves, whether the activation timeout struck, the clock readings) is the parameter `World`.

## Main definitions

* `Outcome`, `Agent`, `Summarizer`, `ActivationInput`, `ActivationResult`, `ActivationFailure`.
* `World`, `runActivation`, `bridgeRun`.

## Main results

* `runActivation_valid`: what every result looks like, for every agent and every world.
-/

namespace BeamAgents

open Containers

/-- What an agent returns: `Complete`, `Suspend`, or a value that is no outcome. -/
inductive Outcome
  | complete (output : Bytes := [])
  | suspend (snapshot : Bytes := []) (adapter : String := "") (timeoutMs : Option Int := none)
  | other (repr : String)
  deriving DecidableEq, Repr

/-- An agent: a program over its context. -/
abbrev Agent := Prog Outcome

/-- The tier-2 contract the driver invokes. -/
structure Summarizer where
  triggerBytes : ℕ
  compact : Prog Unit

/-- The arguments of `run_activation` that differ from one activation to the next. -/
structure ActivationInput where
  entityKey : Bytes
  seq : ℕ
  nowMs : Int
  memoryBlob : Option MemoryBlob
  cacheBlob : Option LlmCacheBlob
  event : Bytes ⊕ List Bytes := .inl []
  batchTrigger : String := ""
  resumeResult : Option ToolResult := none
  resumeApproval : Option Approval := none
  snapshot : Bytes := []
  stepIndex : ℕ := 0

/-- `ActivationResult.status`. -/
inductive ActivationStatus
  | completed
  | suspended
  deriving DecidableEq, Repr

/-- The staged, all-or-nothing result of one activation. -/
structure ActivationResult where
  status : ActivationStatus
  seq : ℕ
  memoryBlob : MemoryBlob
  cacheBlob : LlmCacheBlob
  intents : List ToolIntent
  traces : List TraceEvent
  outputs : List Bytes
  continuation : Option Continuation
  hitlDeadlineMs : Option Int
  tally : ActivationTally
  upserts : List MemoryRecord
  deriving DecidableEq, Repr

/-- How an activation ends without a result: `ActivationTimeout`, `ActivationFailed` with its
cause, or an exception that no wrap caught. -/
inductive ActivationFailure
  | timeout
  | failed (context : FailureContext) (cause : PyExn)
  | raised (exn : PyExn)
  deriving DecidableEq, Repr

/-- When a write that a save began reaches the store: by the time the activation is reported, after
that, or never. -/
inductive Landing
  | landed
  | underWay
  | lost
  deriving DecidableEq, Repr

/-- What the world decides during one call of the transform. -/
structure World where
  /-- The answers to the awaits of the agent and the summarizer. -/
  answers : Answers
  /-- What the `k`-th save of the commit-tail flush raises, if it does. -/
  saveRaises : ℕ → Option PyExn := fun _ => none
  /-- What becomes of the write of the `k`-th save when the save raises, or when the bridge has
  given the activation up. -/
  saveLands : ℕ → Landing := fun _ => .lost
  /-- Whether the activation timeout strikes before the activation is through. -/
  timedOut : Bool := false
  /-- The monotonic time of the bridge submission. -/
  elapsedNs : Int := 0
  /-- `int(time_fn() * 1000)`. -/
  wallNowMs : Int := 0
  /-- What submitting the `on_expire` hook raises, if it does. -/
  expireRaises : Option PyExn := none

/-- A world in which no await succeeds. -/
def quietWorld : World where
  answers _ _ := ⟨.error ⟨.other, "RuntimeError", "RuntimeError()"⟩, 0⟩

variable (py : PyLib) (schema : StateSchema) (cfg : ContextConfig)

/-- The `ValueError` of `ActivationContext(events=[])`. -/
def emptyBatch : PyExn where
  typeName := "ValueError"
  repr := "ValueError('ActivationContext(events=[]) is not a valid activation: a flush only " ++
    "ever runs over a non-empty buffer, and an empty batch has no activation clock to derive')"

/-- `ActivationContext.__init__`. -/
def ActivationContext.new (input : ActivationInput) : Except PyExn ActivationContext :=
  if input.event = .inr [] then .error emptyBatch
  else .ok {
    entityKey := input.entityKey
    seq := input.seq
    nowMs := input.nowMs
    event := input.event
    snapshot := input.snapshot
    resumeResult := input.resumeResult
    resumeApproval := input.resumeApproval
    memory := Memory.ofBlob input.memoryBlob input.nowMs
    longterm := Dict.empty
    replayCache := ReplayCache.ofBlob input.cacheBlob input.nowMs
    budget := cfg.maxTokensPerActivation.map fun limit => { limit := limit }
    trace := ActivationTrace.new py input.entityKey input.seq input.nowMs input.stepIndex
      (input.resumeResult.isSome || input.resumeApproval.isSome)
    stepIndex := input.stepIndex
    startStepIndex := input.stepIndex
    toolIndex := 0
    intents := []
    traces := []
    tally := {} }

/-- `ActivationContext.build_continuation`. -/
def ActivationContext.buildContinuation (ctx : ActivationContext) (snapshot : Bytes)
    (adapter : String) (deadlineMs : Int) : Continuation where
  stateSchemaVersion := schema.current
  seq := ctx.seq
  stepIndex := ctx.stepIndex
  pendingIntentIds := ctx.intents.map ToolIntent.intentId
  adapter := adapter
  snapshot := snapshot
  suspendedAtMs := ctx.nowMs
  deadlineMs := deadlineMs

/-- The earliest of the suspension timeout and the expiries of the staged intents. -/
def suspensionDeadline (timeoutDeadlineMs : Int) (intents : List ToolIntent) : Int :=
  (intents.map ToolIntent.expiresAtMs).foldl min timeoutDeadlineMs

/-- The `ACTIVATION_START` event; a batch activation also carries its size and its trigger. -/
def startEvent (ctx : ActivationContext) (batchTrigger : String) : TraceEvent :=
  let event := ctx.trace.activationStart py
  if ctx.isBatch then
    { event with attributes := event.attributes ++
        [("beam_agents.batch.size", toString ctx.events.length),
          ("beam_agents.batch.trigger", batchTrigger)] }
  else event

/-- The `except Exception` of `run_activation`: every exception but a cancellation is wrapped, with
the position of the context. -/
def wrapFailure (ctx : ActivationContext) (e : PyExn) : ActivationFailure :=
  if e.cls = .cancelled then .raised e
  else .failed {
    stepIndex := ctx.stepIndex
    lastEvent := (ctx.traces.getLast?.map fun t => t.eventType.name).getD ""
    stagedIntents := ctx.intents.length
    llmCalls := ctx.tally.llmCalls } e

/-- `LongtermFlushFailed`. -/
def longtermFlushFailed (key : String) : PyExn where
  typeName := "LongtermFlushFailed"
  repr := py.exnRepr "LongtermFlushFailed" s!"long-term flush failed for key {py.reprStr key}"

/-- `_flush_longterm`: the saves go one by one, and the first that raises ends the loop. -/
def flushLongterm (saveRaises : ℕ → Option PyExn) : (k : ℕ) → List MemoryRecord → Option PyExn
  | _, [] => none
  | k, record :: records =>
    match saveRaises k with
    | none => flushLongterm saveRaises (k + 1) records
    | some e => some (if e.cls = .cancelled then e else longtermFlushFailed py record.key)

/-- The driver's call of the summarizer: only when memory has reached its trigger. -/
def runSummarizer (summarizer : Option Summarizer) (answers : Answers) (e : ProgEnd Outcome) :
    ActivationContext × Except PyExn Unit :=
  match summarizer with
  | none => (e.ctx, .ok ())
  | some summarizer =>
    if summarizer.triggerBytes ≤ e.ctx.memory.total then
      let e' := summarizer.compact.run py cfg answers e.awaits e.ctx
      (e'.ctx, e'.outcome)
    else (e.ctx, .ok ())

/-- The tail of `run_activation` once the final events are staged: flush, then assemble. -/
def finishActivation (w : World) (ctx : ActivationContext) (status : ActivationStatus)
    (outputs : List Bytes) (continuation : Option Continuation) :
    Except ActivationFailure ActivationResult :=
  match flushLongterm py w.saveRaises 0 ctx.stagedUpserts with
  | some e => .error (wrapFailure ctx e)
  | none => .ok {
      status := status
      seq := ctx.seq
      memoryBlob := ctx.memory.toBlob schema.current
      cacheBlob := ctx.replayCache.toBlob schema.current
      intents := ctx.intents
      traces := ctx.traces
      outputs := outputs
      continuation := continuation
      hitlDeadlineMs := continuation.map Continuation.deadlineMs
      tally := ctx.readTally
      upserts := ctx.stagedUpserts }

/-- The `TypeError` of an agent that returns no outcome. -/
def notAnOutcome (repr : String) : PyExn where
  typeName := "TypeError"
  repr := py.exnRepr "TypeError" s!"agent returned a non-Outcome value: {repr}"

/-- Fold the agent's outcome into a result. -/
def foldOutcome (defaultHitlTimeoutMs : Int) (w : World) (ctx : ActivationContext) :
    Outcome → Except ActivationFailure ActivationResult
  | .suspend snapshot adapter timeoutMs =>
    let deadlineMs :=
      suspensionDeadline (ctx.nowMs + timeoutMs.getD defaultHitlTimeoutMs) ctx.intents
    let continuation := ctx.buildContinuation schema snapshot adapter deadlineMs
    let ctx := ctx.stageTrace py
      (ctx.trace.suspended py ctx.stepIndex deadlineMs adapter continuation.pendingIntentIds)
    let ctx := ctx.stageTrace py (ctx.trace.activationEnd py "suspended" ctx.stepIndex)
    finishActivation py schema w ctx .suspended [] (some continuation)
  | .complete output =>
    let ctx := ctx.stageTrace py (ctx.trace.activationEnd py "completed" ctx.stepIndex)
    finishActivation py schema w ctx .completed (if output = [] then [] else [output]) none
  | .other repr => .error (wrapFailure ctx (notAnOutcome py repr))

/-- `run_activation`. -/
def runActivation (agent : Agent) (summarizer : Option Summarizer) (defaultHitlTimeoutMs : Int)
    (w : World) (input : ActivationInput) : Except ActivationFailure ActivationResult :=
  match ActivationContext.new py cfg input with
  | .error e => .error (.raised e)
  | .ok ctx =>
    let ctx := ctx.stageTrace py (startEvent py ctx input.batchTrigger)
    let agentEnd := agent.run py cfg w.answers 0 ctx
    match agentEnd.outcome with
    | .error e => .error (wrapFailure agentEnd.ctx e)
    | .ok outcome =>
      match runSummarizer py cfg summarizer w.answers agentEnd with
      | (ctx, .error e) => .error (wrapFailure ctx e)
      | (ctx, .ok ()) => foldOutcome py schema defaultHitlTimeoutMs w ctx outcome

/-- `AsyncBridge.run` around `run_activation`: on a timeout the coroutine is cancelled, drained,
and whatever it came to is dropped. -/
def bridgeRun (w : World) (r : Except ActivationFailure ActivationResult) :
    Except ActivationFailure ActivationResult :=
  if w.timedOut then .error .timeout else r

/-! ### What a result looks like -/

/-- A result of the activation with this input whose cursor ended at `cursor`. -/
structure ActivationResult.Valid (input : ActivationInput) (cursor : ℕ) (r : ActivationResult) :
    Prop where
  seq : r.seq = input.seq
  cursor_le : input.stepIndex ≤ cursor
  minted : Minted py input.entityKey input.seq input.stepIndex cursor r.intents
  status : r.status = .suspended ↔ r.continuation.isSome
  hitlDeadline : r.hitlDeadlineMs = r.continuation.map Continuation.deadlineMs
  contVersion : ∀ c ∈ r.continuation, c.stateSchemaVersion = schema.current
  contSeq : ∀ c ∈ r.continuation, c.seq = input.seq
  contStep : ∀ c ∈ r.continuation, c.stepIndex = cursor
  contPending : ∀ c ∈ r.continuation, c.pendingIntentIds = r.intents.map ToolIntent.intentId

section Valid

variable {py} {schema} {cfg} {input : ActivationInput} {w : World} {ctx ctx' : ActivationContext}
  {r : ActivationResult}

theorem finishActivation_ok {status : ActivationStatus} {outputs : List Bytes}
    {continuation : Option Continuation}
    (h : finishActivation py schema w ctx status outputs continuation = .ok r) :
    r.seq = ctx.seq ∧ r.intents = ctx.intents ∧ r.status = status ∧
      r.continuation = continuation ∧
        r.hitlDeadlineMs = continuation.map Continuation.deadlineMs := by
  unfold finishActivation at h
  split at h
  · exact absurd h (by simp)
  · cases h
    exact ⟨rfl, rfl, rfl, rfl, rfl⟩

/-- The context of an activation in progress: it extends the one the activation began with, which
had staged nothing. -/
private theorem begun_extends (hnew : ActivationContext.new py cfg input = .ok ctx)
    (hext : ctx.Extends py ctx') : ctx'.seq = input.seq ∧ input.stepIndex ≤ ctx'.stepIndex ∧
      Minted py input.entityKey input.seq input.stepIndex ctx'.stepIndex ctx'.intents := by
  unfold ActivationContext.new at hnew
  split_ifs at hnew
  cases hnew
  obtain ⟨new, hintents, hminted⟩ := hext.intents
  refine ⟨hext.seq, hext.stepIndex, ?_⟩
  rw [hintents, List.nil_append]
  exact hminted

theorem runSummarizer_extends (cfg : ContextConfig) (summarizer : Option Summarizer)
    (answers : Answers)
    (e : ProgEnd Outcome) : e.ctx.Extends py (runSummarizer py cfg summarizer answers e).1 := by
  unfold runSummarizer
  split
  · exact .refl e.ctx
  · split_ifs
    · exact Prog.run_extends cfg answers _ e.awaits e.ctx
    · exact .refl e.ctx

theorem foldOutcome_valid {defaultHitlTimeoutMs : Int} {outcome : Outcome}
    (hseq : ctx.seq = input.seq) (hle : input.stepIndex ≤ ctx.stepIndex)
    (hminted : Minted py input.entityKey input.seq input.stepIndex ctx.stepIndex ctx.intents)
    (h : foldOutcome py schema defaultHitlTimeoutMs w ctx outcome = .ok r) :
    r.Valid py schema input ctx.stepIndex := by
  cases outcome with
  | complete output =>
    obtain ⟨hrseq, hintents, hstatus, hcont, hdeadline⟩ := finishActivation_ok h
    refine ⟨hrseq.trans hseq, hle, ?_, ?_, ?_, ?_, ?_, ?_, ?_⟩
    · rw [hintents]
      exact hminted
    all_goals simp [hstatus, hcont, hdeadline]
  | suspend snapshot adapter timeoutMs =>
    obtain ⟨hrseq, hintents, hstatus, hcont, hdeadline⟩ := finishActivation_ok h
    refine ⟨hrseq.trans hseq, hle, ?_, ?_, ?_, ?_, ?_, ?_, ?_⟩
    · rw [hintents]
      exact hminted
    all_goals simp [hstatus, hcont, hdeadline, ActivationContext.buildContinuation, hseq,
      hintents, ActivationContext.stageTrace]
  | other repr => exact absurd h (by simp [foldOutcome])

end Valid

section Result

variable {py : PyLib} {schema : StateSchema} {cfg : ContextConfig} {agent : Agent}
  {summarizer : Option Summarizer} {defaultHitlTimeoutMs : Int} {w : World}
  {input : ActivationInput} {r : ActivationResult}

/-- An activation comes to a result when its context can be built, the agent returns an outcome,
the summarizer does not raise, and the outcome is folded. -/
theorem runActivation_eq_ok
    (h : runActivation py schema cfg agent summarizer defaultHitlTimeoutMs w input = .ok r) :
    ∃ ctx outcome ctx', ActivationContext.new py cfg input = .ok ctx ∧
      (agent.run py cfg w.answers 0
        (ctx.stageTrace py (startEvent py ctx input.batchTrigger))).outcome = .ok outcome ∧
      runSummarizer py cfg summarizer w.answers (agent.run py cfg w.answers 0
        (ctx.stageTrace py (startEvent py ctx input.batchTrigger))) = (ctx', .ok ()) ∧
      foldOutcome py schema defaultHitlTimeoutMs w ctx' outcome = .ok r := by
  unfold runActivation at h
  split at h
  · exact absurd h (by simp)
  rename_i ctx hnew
  dsimp only at h
  split at h
  · exact absurd h (by simp)
  rename_i outcome houtcome
  split at h
  · exact absurd h (by simp)
  · rename_i ctx' heq
    exact ⟨ctx, outcome, ctx', hnew, houtcome, heq, h⟩

/-- **Every result is valid.** Whatever the agent, the summarizer and the world do, a result
carries the `seq` it was given, its intents are minted at increasing steps from the seeded cursor
on, and a continuation is of the current version, pends exactly those intents and resumes past
them. -/
theorem runActivation_valid
    (h : runActivation py schema cfg agent summarizer defaultHitlTimeoutMs w input = .ok r) :
    ∃ cursor, r.Valid py schema input cursor := by
  obtain ⟨ctx, outcome, ctx', hnew, -, hsummarized, hfold⟩ := runActivation_eq_ok h
  -- The contexts that the trace, the agent and the summarizer leave extend the first one.
  have hstart : ctx.Extends py (ctx.stageTrace py (startEvent py ctx input.batchTrigger)) :=
    .of_quiet rfl rfl rfl le_rfl rfl
  have hagent := hstart.trans (Prog.run_extends cfg w.answers agent 0 _)
  have hsummary := hagent.trans (runSummarizer_extends cfg summarizer w.answers _)
  obtain ⟨hseq, hle, hminted⟩ := begun_extends hnew hsummary
  rw [hsummarized] at hseq hle hminted
  exact ⟨_, foldOutcome_valid hseq hle hminted hfold⟩

/-- A continuation is built from the context at the end of the activation. -/
theorem runActivation_continuation
    (h : runActivation py schema cfg agent summarizer defaultHitlTimeoutMs w input = .ok r) :
    ∀ cont ∈ r.continuation, ∃ ctx snapshot adapter deadlineMs,
      cont = ActivationContext.buildContinuation schema ctx snapshot adapter deadlineMs := by
  obtain ⟨-, outcome, ctx, -, -, -, hfold⟩ := runActivation_eq_ok h
  intro cont hcont
  cases outcome with
  | complete output =>
    rw [(finishActivation_ok hfold).2.2.2.1] at hcont
    cases hcont
  | suspend snapshot adapter timeoutMs =>
    rw [(finishActivation_ok hfold).2.2.2.1] at hcont
    cases hcont
    exact ⟨_, _, _, _, rfl⟩
  | other repr => cases hfold

end Result

end BeamAgents
