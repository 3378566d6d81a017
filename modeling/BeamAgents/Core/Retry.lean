import BeamAgents.Core.Sequential
import BeamAgents.Core.Flush

/-!
# Retried activations

An activation that is run again from the same memory and continuation, with the replay-cache blob
that its first run returned: every model call is answered from the cache, so that the provider is
not asked, and the two runs go through the same steps. Of the two contexts only what belongs to the
driver differs: the cache, the tally, and in the staged events the attributes that say whether a
model call was answered from the cache and whether it is billed.

The responses that the calls of the first run used have to fit the cache together, and every
provider call of the first run has to have returned: an exception of the provider is not stored.

## Main definitions

* `IgnoresServing`: a way to look at events that does not see how a model call was served.
* `TraceEvent.unserved`: an event up to how its model call was served.
* `ActivationContext.Alike`: the contexts of the two runs at the same point.
* `activationLog`: what an activation shows of its model calls.
* `ActivationResult.Repeats`: the second result is the first one again.

## Main results

* `Prog.Sequential.repeats`: the two runs of a program, in lockstep.
* `runActivation_served`: a second run from any cache that serves the responses of the first.
* `runActivation_repeats`: a second run from the cache that the first run returned.
-/

namespace BeamAgents

open Containers

/-- The attributes of the event of a model call. -/
def llmAttributes (cacheHit : Bool) (modelId : String) (usage : Option TokenUsage) :
    List (String × String) :=
  [("gen_ai.operation.name", "chat"), ("gen_ai.request.model", modelId),
    ("beam_agents.cache_hit", boolText cacheHit)] ++ usageAttributes usage (!cacheHit)

/-- A way to look at an event that does not see how its model call was served. -/
def IgnoresServing {β : Type} (norm : TraceEvent → β) : Prop :=
  ∀ (e : TraceEvent) (cacheHit : Bool) (modelId : String) (usage : Option TokenUsage),
    e.eventType = .llmCall →
      norm { e with attributes := llmAttributes cacheHit modelId usage } =
        norm { e with attributes := llmAttributes true modelId usage }

/-- An event without the attributes that say how its model call was served. -/
def TraceEvent.unserved (e : TraceEvent) : TraceEvent :=
  { e with attributes := e.attributes.filter fun p =>
      p.1 ∉ ["beam_agents.cache_hit", "beam_agents.billed"] }

theorem unserved_ignoresServing : IgnoresServing TraceEvent.unserved := by
  intro e cacheHit modelId usage _
  simp [TraceEvent.unserved, llmAttributes, usageAttributes]

namespace ActivationContext

variable {β : Type}

/-- The contexts of the two runs at the same point: they differ in what belongs to the driver only,
their events look the same, and the cache of the second one serves the responses that the first run
uses. -/
structure Alike (norm : TraceEvent → β) (now : Int) (stored : List StoredResponse)
    (ctx ctx' : ActivationContext) : Prop where
  view : ctx.view = ctx'.view
  traces : ctx.traces.map norm = ctx'.traces.map norm
  serves : ctx'.replayCache.Serves now stored

variable {py : PyLib} {cfg : ContextConfig} {ctx ctx' : ActivationContext} {now : Int}
  {stored : List StoredResponse} {norm : TraceEvent → β}

/-! ### Steps of the two runs -/

theorem perform_view (ctx : ActivationContext) {op : CtxOp} (hop : op.Plain) :
    (perform py cfg op ctx).1.view = (perform py cfg op ctx.view).1.view := by
  cases op with
  | modelEnter | modelLeave | toolEnter | toolLeave => exact hop.elim
  | longtermSave key value =>
    simp only [perform, longtermSave]
    split_ifs <;> rfl
  | _ => rfl

theorem perform_answer (ctx : ActivationContext) {op : CtxOp} (hop : op.Plain) :
    (perform py cfg op ctx).2 = (perform py cfg op ctx.view).2 := by
  cases op with
  | modelEnter | modelLeave | toolEnter | toolLeave => exact hop.elim
  | longtermSave key value =>
    simp only [perform, longtermSave]
    split_ifs <;> rfl
  | _ => rfl

theorem perform_traces (ctx : ActivationContext) {op : CtxOp} (hop : op.Plain) :
    (perform py cfg op ctx).1.traces = ctx.traces ++ (perform py cfg op ctx.view).1.traces := by
  cases op with
  | modelEnter | modelLeave | toolEnter | toolLeave => exact hop.elim
  | longtermSave key value =>
    simp only [perform, longtermSave]
    split_ifs <;> exact (List.append_nil _).symm
  | act | requestApproval | stageTrace => rfl
  | _ => exact (List.append_nil _).symm

variable (py cfg) in
/-- A plain operation of the two runs. -/
theorem Alike.perform (h : Alike norm now stored ctx ctx') {op : CtxOp} (hop : op.Plain) :
    Alike norm now stored (perform py cfg op ctx).1 (perform py cfg op ctx').1 ∧
      (ActivationContext.perform py cfg op ctx).2 =
        (ActivationContext.perform py cfg op ctx').2 := by
  refine ⟨⟨?_, ?_, ?_⟩, ?_⟩
  · rw [perform_view ctx hop, h.view, ← perform_view ctx' hop]
  · rw [perform_traces ctx hop, perform_traces ctx' hop, List.map_append, List.map_append,
      h.traces, h.view]
  · rw [perform_replayCache hop]
    exact h.serves
  · rw [perform_answer ctx hop, h.view, ← perform_answer ctx' hop]

/-- The event of a model call, up to how the call was served. -/
theorem map_norm_llm (hnorm : IgnoresServing norm) (ctx : ActivationContext) (step : ℕ)
    (cacheHit : Bool) (modelId : String) (usage : Option TokenUsage) :
    (ctx.stageLlmTrace py step cacheHit modelId usage).traces.map norm =
      ctx.traces.map norm ++
        (ctx.view.stageLlmTrace py step true modelId usage).traces.map norm := by
  rw [stageLlmTrace, stageTrace, List.map_append]
  refine congrArg (ctx.traces.map norm ++ ·) ?_
  exact congrArg (fun e => [e]) (hnorm (ctx.trace.stamp py
    { entityKey := ctx.entityKey
      seq := ctx.seq
      stepIndex := step
      eventType := .llmCall
      attributes := []
      startMs := ctx.nowMs
      endMs := ctx.nowMs }) cacheHit modelId usage rfl)

theorem Alike.stageLlmTrace (hnorm : IgnoresServing norm) (h : Alike norm now stored ctx ctx')
    (step : ℕ) (cacheHit cacheHit' : Bool) (modelId : String) (usage : Option TokenUsage) :
    Alike norm now stored (ctx.stageLlmTrace py step cacheHit modelId usage)
      (ctx'.stageLlmTrace py step cacheHit' modelId usage) := by
  refine ⟨h.view, ?_, h.serves⟩
  rw [map_norm_llm hnorm ctx, map_norm_llm hnorm ctx', h.traces, h.view]

theorem Alike.budget (h : Alike norm now stored ctx ctx') : ctx.budget = ctx'.budget :=
  congrArg (fun c => c.budget) h.view

theorem Alike.charge (h : Alike norm now stored ctx ctx') (usage : Option TokenUsage) :
    Alike norm now stored (ctx.charge usage).1 (ctx'.charge usage).1 ∧
      (ctx.charge usage).2 = (ctx'.charge usage).2 := by
  unfold ActivationContext.charge
  rw [h.budget]
  split
  · rename_i budget usage _
    refine ⟨⟨?_, h.traces, h.serves⟩, rfl⟩
    exact congrArg (fun c => { c with budget := some (budget.charge usage.totalTokens).1 }) h.view
  · exact ⟨h, rfl⟩

variable (py cfg) in
/-- The tails of a model call in the two runs: however the call was served, it is decoded, traced
and charged in the same way. -/
theorem Alike.settled (hnorm : IgnoresServing norm) (h : Alike norm now stored ctx ctx')
    (step : ℕ) (cacheHit cacheHit' : Bool) (modelId : String) (response : Bytes) :
    Alike norm now stored (ctx.settled py cfg step cacheHit modelId response).1
        (ctx'.settled py cfg step cacheHit' modelId response).1 ∧
      (ctx.settled py cfg step cacheHit modelId response).2 =
        (ctx'.settled py cfg step cacheHit' modelId response).2 := by
  have hfinish : Alike norm now stored (ctx.finishModel py cfg step cacheHit modelId response).1
        (ctx'.finishModel py cfg step cacheHit' modelId response).1 ∧
      (ctx.finishModel py cfg step cacheHit modelId response).2 =
        (ctx'.finishModel py cfg step cacheHit' modelId response).2 := by
    unfold finishModel
    cases decodedUsage cfg response with
    | error e => exact ⟨h, rfl⟩
    | ok usage => exact (h.stageLlmTrace hnorm step cacheHit cacheHit' modelId usage).charge usage
  unfold ActivationContext.settled
  generalize finishModel py cfg ctx step cacheHit modelId response = r at hfinish
  generalize finishModel py cfg ctx' step cacheHit' modelId response = r' at hfinish
  obtain ⟨c, raised⟩ := r
  obtain ⟨c', raised'⟩ := r'
  obtain ⟨halike, rfl⟩ := hfinish
  cases raised with
  | none => exact ⟨halike, rfl⟩
  | some e => exact ⟨halike, rfl⟩

/-- **One model call of the two runs.** When the cache of the second run serves what the call of the
first run used, the second call answers the same without the provider. -/
theorem Alike.callEnd (hnorm : IgnoresServing norm) (h : Alike norm now stored ctx ctx')
    (request : LlmRequest) (reply reply' : Answer Bytes)
    (hused : usedOf (ctx.callEnd py cfg request reply).events ⊆ stored)
    (hreplied : ∀ e, .error e ∉ askedOf (ctx.callEnd py cfg request reply).events) :
    let c := ctx.callEnd py cfg request reply
    let c' := ctx'.callEnd py cfg request reply'
    Alike norm now stored c.ctx c'.ctx ∧ c.answer = c'.answer ∧ askedOf c'.events = [] ∧
      answeredOf c.events = answeredOf c'.events := by
  intro c c'
  have hscope : ctx'.entityKey = ctx.entityKey ∧ ctx'.seq = ctx.seq ∧
      ctx'.stepIndex = ctx.stepIndex :=
    ⟨congrArg (fun c => c.entityKey) h.view.symm, congrArg (fun c => c.seq) h.view.symm,
      congrArg (fun c => c.stepIndex) h.view.symm⟩
  have hbudget' : ctx'.budget.bind TokenBudget.check = ctx.budget.bind TokenBudget.check := by
    rw [h.budget]
  have hkey' : computeCacheKey py request ctx'.entityKey ctx'.seq =
      computeCacheKey py request ctx.entityKey ctx.seq := by
    rw [hscope.1, hscope.2.1]
  cases hbudget : ctx.budget.bind TokenBudget.check with
  | some e =>
    have hc : c = _ := callEnd_refused reply hbudget
    have hc' : c' = _ := callEnd_refused reply' (hbudget'.trans hbudget)
    rw [hc, hc']
    exact ⟨h, rfl, rfl, rfl⟩
  | none =>
    cases hkey : computeCacheKey py request ctx.entityKey ctx.seq with
    | error e =>
      have hc : c = _ := callEnd_unkeyed reply hbudget hkey
      have hc' : c' = _ := callEnd_unkeyed reply' (hbudget'.trans hbudget) (hkey'.trans hkey)
      rw [hc, hc']
      refine ⟨⟨?_, h.traces, h.serves⟩, rfl, rfl, rfl⟩
      exact congrArg (fun c => { c with stepIndex := c.stepIndex + 1 }) h.view
    | ok cacheKey =>
      -- The second call finds the response that the first one used.
      have hlooked (hserves : (ctx'.replayCache.get cacheKey).1.Serves now stored) :
          Alike norm now stored (ctx.looked cacheKey) (ctx'.looked cacheKey) :=
        ⟨congrArg (fun c => { c with stepIndex := c.stepIndex + 1 }) h.view, h.traces, hserves⟩
      cases hserved : ctx.replayCache.served cacheKey with
      | some s =>
        have hc : c = _ := callEnd_hit hbudget hkey reply hserved
        have hs : s ∈ stored := by
          rw [callEnd_hit hbudget hkey reply hserved] at hused
          exact hused List.mem_cons_self
        obtain ⟨⟨s', hserved', hresponse⟩, hserves⟩ := h.serves.lookup hs
        rw [ReplayCache.served_cacheKey hserved] at hserved' hserves
        have hc' : c' = _ :=
          callEnd_hit (hbudget'.trans hbudget) (hkey'.trans hkey) reply' hserved'
        rw [hscope.2.2, hresponse] at hc'
        obtain ⟨halike, hanswer⟩ := (hlooked hserves).settled py cfg hnorm
          ctx.stepIndex true true request.modelId s.response
        rw [hc, hc']
        exact ⟨halike, hanswer, rfl, by simp [answeredOf, hanswer]⟩
      | none =>
        cases hreply : reply.value with
        | error e =>
          rw [callEnd_raised hbudget hkey hserved hreply] at hreplied
          exact absurd (List.mem_singleton_self _) (hreplied e)
        | ok response =>
          have hc : c = _ := callEnd_replied hbudget hkey hserved hreply
          have hs : (ctx.looked cacheKey).replayCache.answered py cacheKey response ∈ stored := by
            rw [callEnd_replied hbudget hkey hserved hreply] at hused
            exact hused List.mem_cons_self
          obtain ⟨⟨s', hserved', hanswered⟩, hserves⟩ := h.serves.lookup hs
          have hresponse : s'.response = response := hanswered
          have hc' : c' = _ :=
            callEnd_hit (hbudget'.trans hbudget) (hkey'.trans hkey) reply' hserved'
          rw [hscope.2.2, hresponse] at hc'
          have hstored : Alike norm now stored
              ((ctx.looked cacheKey).stored py cacheKey response reply.elapsedNs)
              (ctx'.looked cacheKey) :=
            ⟨(hlooked hserves).view, (hlooked hserves).traces, hserves⟩
          obtain ⟨halike, hanswer⟩ := hstored.settled py cfg hnorm
            ctx.stepIndex false true request.modelId response
          rw [hc, hc']
          exact ⟨halike, hanswer, rfl, by simp [answeredOf, hanswer]⟩

variable (py cfg) in
/-- One tool run of the two runs, of a tool that replies the same. -/
theorem Alike.toolEnd (h : Alike norm now stored ctx ctx') (toolName : String)
    {reply reply' : Answer Bytes} (hreply : reply.value = reply'.value) :
    Alike norm now stored (ctx.toolEnd py cfg toolName reply).1
      (ctx'.toolEnd py cfg toolName reply').1 ∧
      (ctx.toolEnd py cfg toolName reply).2 = (ctx'.toolEnd py cfg toolName reply').2 := by
  have hleave : Alike norm now stored (ctx.toolLeave py toolName reply.elapsedNs)
      (ctx'.toolLeave py toolName reply'.elapsedNs) := by
    refine ⟨congrArg (fun c => { c with toolIndex := c.toolIndex + 1 }) h.view, ?_, h.serves⟩
    have hevent : ctx.trace.toolCall py ctx.stepIndex ctx.toolIndex toolName =
        ctx'.trace.toolCall py ctx'.stepIndex ctx'.toolIndex toolName :=
      congrArg (fun c => c.trace.toolCall py c.stepIndex c.toolIndex toolName) h.view
    simp only [toolLeave, List.map_append, h.traces, hevent]
  unfold ActivationContext.toolEnd
  rw [hreply]
  split
  · exact ⟨h, rfl⟩
  · exact ⟨h, rfl⟩
  · exact ⟨hleave, rfl⟩

end ActivationContext

/-! ### The two runs -/

/-- The inline tools are deterministic: a tool replies the same to the same arguments, whenever it
is run. -/
def ToolsReply (answers : Answers) (tool : String → String → Except PyExn Bytes) : Prop :=
  ∀ awaits toolName argsJson,
    (answers awaits (.tool toolName argsJson)).value = tool toolName argsJson

section Repeats

variable {py : PyLib} {cfg : ContextConfig} {answers answers' : Answers}
  {tool : String → String → Except PyExn Bytes} {now : Int} {stored : List StoredResponse}
  {β : Type} {norm : TraceEvent → β}

/-- **Two runs in lockstep.** When the cache serves whatever the model calls of the first run used,
the second run makes no provider call, its calls answer the same, and it ends alike. -/
theorem Prog.Sequential.repeats {ρ : Type} {p : Prog ρ} (hp : p.Sequential)
    (hnorm : IgnoresServing norm) (hstore : cfg.longterm = false) (htools : ToolsReply answers tool)
    (htools' : ToolsReply answers' tool) {awaits : ℕ} (awaits' : ℕ)
    {ctx ctx' : ActivationContext} (h : ctx.Alike norm now stored ctx')
    (hused : usedOf (p.log py cfg answers awaits ctx) ⊆ stored)
    (hreplied : ∀ e, .error e ∉ askedOf (p.log py cfg answers awaits ctx)) :
    let run := p.run py cfg answers awaits ctx
    let run' := p.run py cfg answers' awaits' ctx'
    run.ctx.Alike norm now stored run'.ctx ∧ run.outcome = run'.outcome ∧
      askedOf (p.log py cfg answers' awaits' ctx') = [] ∧
      answeredOf (p.log py cfg answers awaits ctx) =
        answeredOf (p.log py cfg answers' awaits' ctx') := by
  induction hp generalizing awaits awaits' ctx ctx' with
  | ret r => exact ⟨h, rfl, rfl, rfl⟩
  | raise e => exact ⟨h, rfl, rfl, rfl⟩
  | read k hview _ ih =>
    have hk : k ctx' = k ctx := by rw [hview ctx', ← h.view, ← hview ctx]
    rw [Prog.run, Prog.log, Prog.run, Prog.log, hk]
    exact ih ctx _ h hused hreplied
  | perform op k hop _ ih =>
    obtain ⟨halike, hanswer⟩ := h.perform py cfg hop
    simp only [Prog.log, Prog.run, ActivationContext.modelEvents_plain hop, List.nil_append]
      at hused hreplied ⊢
    rw [← hanswer]
    exact ih _ _ halike hused hreplied
  | callModel request k _ ih =>
    obtain ⟨hrun, hlog⟩ := callModel_step py cfg request k answers awaits ctx
    obtain ⟨hrun', hlog'⟩ := callModel_step py cfg request k answers' awaits' ctx'
    rw [hlog, usedOf_append] at hused
    rw [hlog, askedOf_append] at hreplied
    obtain ⟨halike, hanswer, hasked, hanswered⟩ := h.callEnd hnorm request
      (answers awaits (.model request)) (answers' awaits' (.model request))
      (fun s hs => hused (List.mem_append_left _ hs))
      (fun e he => hreplied e (List.mem_append_left _ he))
    rw [hrun, hrun', hlog, hlog', askedOf_append, answeredOf_append, answeredOf_append, hasked,
      hanswered, List.nil_append, ← hanswer]
    obtain ⟨hend, houtcome, hasked', hanswered'⟩ := ih _
      (awaits' + (ctx'.callEnd py cfg request (answers' awaits' (.model request))).awaits) halike
      (fun s hs => hused (List.mem_append_right _ hs))
      (fun e he => hreplied e (List.mem_append_right _ he))
    exact ⟨hend, houtcome, hasked', congrArg _ hanswered'⟩
  | runTool toolName argsJson k _ ih =>
    obtain ⟨hrun, hlog⟩ := runTool_step py answers awaits ctx cfg toolName argsJson k
    obtain ⟨hrun', hlog'⟩ := runTool_step py answers' awaits' ctx' cfg toolName argsJson k
    obtain ⟨halike, hanswer⟩ := h.toolEnd py cfg toolName
      ((htools awaits toolName argsJson).trans (htools' awaits' toolName argsJson).symm)
    rw [hlog] at hused hreplied ⊢
    rw [hrun, hrun', hlog', ← hanswer]
    exact ih _ _ halike hused hreplied
  | longtermLoad key k _ ih =>
    obtain ⟨hrun, hlog⟩ := longtermLoad_step py answers awaits ctx hstore key k
    obtain ⟨hrun', hlog'⟩ := longtermLoad_step py answers' awaits' ctx' hstore key k
    rw [hlog] at hused hreplied ⊢
    rw [hrun, hrun', hlog']
    exact ih _ _ h hused hreplied
  | longtermSearch keyPrefix limit k _ ih =>
    obtain ⟨hrun, hlog⟩ := longtermSearch_step py answers awaits ctx hstore keyPrefix limit k
    obtain ⟨hrun', hlog'⟩ := longtermSearch_step py answers' awaits' ctx' hstore keyPrefix limit k
    rw [hlog] at hused hreplied ⊢
    rw [hrun, hrun', hlog']
    exact ih _ _ h hused hreplied

end Repeats

/-! ### The two activations -/

section Activation

variable (py : PyLib) (cfg : ContextConfig)

/-- What the driver's call of the summarizer shows of its model calls. -/
def summarizerLog (summarizer : Option Summarizer) (answers : Answers) (e : ProgEnd Outcome) :
    List ModelEvent :=
  match summarizer with
  | none => []
  | some summarizer =>
    if summarizer.triggerBytes ≤ e.ctx.memory.total then
      summarizer.compact.log py cfg answers e.awaits e.ctx
    else []

/-- What an activation shows of its model calls. -/
def activationLog (agent : Agent) (summarizer : Option Summarizer) (answers : Answers)
    (input : ActivationInput) : List ModelEvent :=
  match ActivationContext.new py cfg input with
  | .error _ => []
  | .ok ctx =>
    let ctx := ctx.stageTrace py (startEvent py ctx input.batchTrigger)
    let agentEnd := agent.run py cfg answers 0 ctx
    agent.log py cfg answers 0 ctx ++
      match agentEnd.outcome with
      | .error _ => []
      | .ok _ => summarizerLog py cfg summarizer answers agentEnd

/-- The second result is the first one again: what an activation commits is the same, and so are its
trace events up to how their model calls were served. -/
structure ActivationResult.Repeats (r r' : ActivationResult) : Prop where
  status : r'.status = r.status
  seq : r'.seq = r.seq
  memoryBlob : r'.memoryBlob = r.memoryBlob
  intents : r'.intents = r.intents
  outputs : r'.outputs = r.outputs
  continuation : r'.continuation = r.continuation
  hitlDeadlineMs : r'.hitlDeadlineMs = r.hitlDeadlineMs
  upserts : r'.upserts = r.upserts
  iterations : r'.tally.iterations = r.tally.iterations
  traces : r'.traces.map TraceEvent.unserved = r.traces.map TraceEvent.unserved

/-- The second result is the first one again, and its trace events look the same. -/
def ActivationResult.RepeatsUpTo {β : Type} (norm : TraceEvent → β) (r r' : ActivationResult) :
    Prop :=
  r.Repeats { r' with traces := r.traces } ∧ r'.traces.map norm = r.traces.map norm

theorem ActivationResult.RepeatsUpTo.repeats {r r' : ActivationResult}
    (h : r.RepeatsUpTo TraceEvent.unserved r') : r.Repeats r' :=
  { h.1 with traces := h.2 }

variable {py} {cfg} {schema : StateSchema} {ctx ctx' : ActivationContext} {w w' : World} {now : Int}
  {stored : List StoredResponse} {β : Type} {norm : TraceEvent → β}

/-- Without a store no program stages a save. -/
theorem Prog.run_longterm (hstore : cfg.longterm = false) {ρ : Type} (answers : Answers)
    (p : Prog ρ) (awaits : ℕ) (ctx : ActivationContext) :
    (p.run py cfg answers awaits ctx).ctx.longterm = ctx.longterm := by
  have hperform (op : CtxOp) (ctx : ActivationContext) :
      (ActivationContext.perform py cfg op ctx).1.longterm = ctx.longterm := by
    cases op with
    | modelEnter request => exact ActivationContext.longterm_modelEnter request
    | modelLeave call response elapsedNs =>
      exact ActivationContext.longterm_modelLeave call response elapsedNs
    | longtermSave key value =>
      simp only [ActivationContext.perform, ActivationContext.longtermSave, hstore]
      rfl
    | _ => rfl
  induction p generalizing awaits ctx with
  | ret r => rfl
  | raise e => rfl
  | read k ih => exact ih ctx awaits ctx
  | perform op k ih => exact (ih _ awaits _).trans (hperform op ctx)
  | await a k ih => exact ih (answers awaits a) (awaits + 1) ctx

variable (py) in
/-- Without a store the summarizer stages no save. -/
theorem runSummarizer_longterm (hstore : cfg.longterm = false) (summarizer : Option Summarizer)
    (answers : Answers) (e : ProgEnd Outcome) :
    (runSummarizer py cfg summarizer answers e).1.longterm = e.ctx.longterm := by
  unfold runSummarizer
  split
  · rfl
  · split_ifs
    · exact Prog.run_longterm hstore answers _ e.awaits e.ctx
    · rfl

/-- An activation that staged no save comes to its result without a flush. -/
theorem finishActivation_unsaved (h : ctx.longterm = Dict.empty) (status : ActivationStatus)
    (outputs : List Bytes) (continuation : Option Continuation) :
    finishActivation py schema w ctx status outputs continuation = .ok {
      status := status
      seq := ctx.seq
      memoryBlob := ctx.memory.toBlob schema.current
      cacheBlob := ctx.replayCache.toBlob schema.current
      intents := ctx.intents
      traces := ctx.traces
      outputs := outputs
      continuation := continuation
      hitlDeadlineMs := continuation.map Continuation.deadlineMs
      tally := ctx.readTally
      upserts := [] } := by
  have hnone : ctx.stagedUpserts = [] := by
    rw [ActivationContext.stagedUpserts, h]
    rfl
  rw [finishActivation, hnone]
  rfl

variable (w') in
/-- The ends of the two activations. -/
theorem finishActivation_repeats (h : ctx.Alike norm now stored ctx')
    (hlongterm : ctx.longterm = Dict.empty) (status : ActivationStatus) (outputs : List Bytes)
    (continuation : Option Continuation) {r : ActivationResult}
    (hr : finishActivation py schema w ctx status outputs continuation = .ok r) :
    ∃ r', finishActivation py schema w' ctx' status outputs continuation = .ok r' ∧
      r.RepeatsUpTo norm r' := by
  have hlongterm' : ctx'.longterm = Dict.empty :=
    (congrArg (fun c => c.longterm) h.view.symm).trans hlongterm
  rw [finishActivation_unsaved hlongterm] at hr
  cases hr
  refine ⟨_, finishActivation_unsaved hlongterm' status outputs continuation, ?_⟩
  have hview := h.view.symm
  exact ⟨{
    status := rfl
    seq := congrArg (fun c => c.seq) hview
    memoryBlob := congrArg (fun c => c.memory.toBlob schema.current) hview
    intents := congrArg (fun c => c.intents) hview
    outputs := rfl
    continuation := rfl
    hitlDeadlineMs := rfl
    upserts := rfl
    iterations := congrArg (fun c => c.iterations) hview
    traces := rfl }, h.traces.symm⟩

variable (py) in
/-- The driver's final events of the two activations. -/
theorem ActivationContext.Alike.stageTrace (h : ctx.Alike norm now stored ctx')
    (event : TraceEvent) :
    (ctx.stageTrace py event).Alike norm now stored (ctx'.stageTrace py event) := by
  have htrace : ctx'.trace = ctx.trace := congrArg (fun c => c.trace) h.view.symm
  refine ⟨h.view, ?_, h.serves⟩
  simp only [ActivationContext.stageTrace, List.map_append, h.traces, htrace]

/-- A result carries the blob of the cache that its activation left. -/
theorem foldOutcome_cacheBlob {defaultHitlTimeoutMs : Int} {outcome : Outcome}
    {r : ActivationResult}
    (hr : foldOutcome py schema defaultHitlTimeoutMs w ctx outcome = .ok r) :
    r.cacheBlob = ctx.replayCache.toBlob schema.current := by
  have hfinish (ctx : ActivationContext) {status : ActivationStatus} {outputs : List Bytes}
      {continuation : Option Continuation}
      (h : finishActivation py schema w ctx status outputs continuation = .ok r) :
      r.cacheBlob = ctx.replayCache.toBlob schema.current := by
    unfold finishActivation at h
    split at h
    · cases h
    · cases h
      rfl
  cases outcome with
  | complete output => exact hfinish (ctx.stageTrace py _) hr
  | suspend snapshot adapter timeoutMs =>
    exact hfinish ((ctx.stageTrace py _).stageTrace py _) hr
  | other repr => cases hr

variable (w') in
theorem foldOutcome_repeats (h : ctx.Alike norm now stored ctx')
    (hlongterm : ctx.longterm = Dict.empty)
    {defaultHitlTimeoutMs : Int} {outcome : Outcome} {r : ActivationResult}
    (hr : foldOutcome py schema defaultHitlTimeoutMs w ctx outcome = .ok r) :
    ∃ r', foldOutcome py schema defaultHitlTimeoutMs w' ctx' outcome = .ok r' ∧
      r.RepeatsUpTo norm r' := by
  have htrace : ctx'.trace = ctx.trace := congrArg (fun c => c.trace) h.view.symm
  have hstep : ctx'.stepIndex = ctx.stepIndex := congrArg (fun c => c.stepIndex) h.view.symm
  have hnow : ctx'.nowMs = ctx.nowMs := congrArg (fun c => c.nowMs) h.view.symm
  have hintents : ctx'.intents = ctx.intents := congrArg (fun c => c.intents) h.view.symm
  have hseq : ctx'.seq = ctx.seq := congrArg (fun c => c.seq) h.view.symm
  cases outcome with
  | complete output =>
    have hend := h.stageTrace py (ctx.trace.activationEnd py "completed" ctx.stepIndex)
    obtain ⟨r', hr', hrepeats⟩ := finishActivation_repeats w' hend hlongterm _ _ _ hr
    refine ⟨r', ?_, hrepeats⟩
    rw [← hr', foldOutcome, htrace, hstep]
  | suspend snapshot adapter timeoutMs =>
    let deadlineMs :=
      suspensionDeadline (ctx.nowMs + timeoutMs.getD defaultHitlTimeoutMs) ctx.intents
    let continuation := ctx.buildContinuation schema snapshot adapter deadlineMs
    have hcontinuation : ctx'.buildContinuation schema snapshot adapter deadlineMs =
        continuation :=
      congrArg (fun c => c.buildContinuation schema snapshot adapter deadlineMs) h.view.symm
    have hend := (h.stageTrace py (ctx.trace.suspended py ctx.stepIndex deadlineMs adapter
      continuation.pendingIntentIds)).stageTrace py
        (ctx.trace.activationEnd py "suspended" ctx.stepIndex)
    obtain ⟨r', hr', hrepeats⟩ := finishActivation_repeats w' hend hlongterm _ _ _ hr
    refine ⟨r', ?_, hrepeats⟩
    have htrace' (event : TraceEvent) : (ctx'.stageTrace py event).trace = ctx.trace := htrace
    have hstep' (event : TraceEvent) : (ctx'.stageTrace py event).stepIndex = ctx.stepIndex :=
      hstep
    rw [← hr', foldOutcome, hnow, hintents, hcontinuation, htrace, hstep, htrace', hstep']
  | other repr => cases hr

/-- What the cache blob decides about a context. -/
theorem new_cacheBlob {input : ActivationInput}
    (hnew : ActivationContext.new py cfg input = .ok ctx) :
    ctx.longterm = Dict.empty ∧
      ctx.replayCache = ReplayCache.ofBlob input.cacheBlob input.nowMs ∧
      ∀ blob, ActivationContext.new py cfg { input with cacheBlob := blob } =
        .ok { ctx with replayCache := ReplayCache.ofBlob blob input.nowMs } := by
  unfold ActivationContext.new at hnew ⊢
  split_ifs at hnew with hempty
  cases hnew
  exact ⟨rfl, rfl, fun blob => if_neg hempty⟩

/-- How an activation comes to a result. -/
theorem runActivation_ok {agent : Agent} {summarizer : Option Summarizer}
    {defaultHitlTimeoutMs : Int} {input : ActivationInput} {outcome : Outcome}
    {r : ActivationResult} (hnew : ActivationContext.new py cfg input = .ok ctx)
    (houtcome : (agent.run py cfg w.answers 0
      (ctx.stageTrace py (startEvent py ctx input.batchTrigger))).outcome = .ok outcome)
    (hsummarized : runSummarizer py cfg summarizer w.answers (agent.run py cfg w.answers 0
      (ctx.stageTrace py (startEvent py ctx input.batchTrigger))) = (ctx', .ok ()))
    (hfold : foldOutcome py schema defaultHitlTimeoutMs w ctx' outcome = .ok r) :
    runActivation py schema cfg agent summarizer defaultHitlTimeoutMs w input = .ok r := by
  rw [runActivation, hnew]
  dsimp only
  rw [houtcome]
  dsimp only
  rw [hsummarized]
  exact hfold

theorem activationLog_eq {agent : Agent} (summarizer : Option Summarizer) {answers : Answers}
    {input : ActivationInput} {outcome : Outcome}
    (hnew : ActivationContext.new py cfg input = .ok ctx)
    (houtcome : (agent.run py cfg answers 0
      (ctx.stageTrace py (startEvent py ctx input.batchTrigger))).outcome = .ok outcome) :
    let start := ctx.stageTrace py (startEvent py ctx input.batchTrigger)
    activationLog py cfg agent summarizer answers input = agent.log py cfg answers 0 start ++
      summarizerLog py cfg summarizer answers (agent.run py cfg answers 0 start) := by
  intro start
  rw [activationLog, hnew]
  dsimp only
  rw [houtcome]

/-- The cache retains what the summarizer used. -/
theorem runSummarizer_retains {summarizer : Option Summarizer}
    (hsummarizer : ∀ s ∈ summarizer, s.compact.Sequential) (hstore : cfg.longterm = false)
    {answers : Answers} {e : ProgEnd Outcome} (h : e.ctx.replayCache.Retains now stored)
    (hreplied : ∀ raised, .error raised ∉ askedOf (summarizerLog py cfg summarizer answers e))
    (hfits : Fits (stored ++ usedOf (summarizerLog py cfg summarizer answers e))) :
    (runSummarizer py cfg summarizer answers e).1.replayCache.Retains now
      (stored ++ usedOf (summarizerLog py cfg summarizer answers e)) := by
  cases summarizer with
  | none => simpa [summarizerLog, runSummarizer, usedOf] using h
  | some summarizer =>
    unfold summarizerLog runSummarizer at *
    dsimp only at *
    split_ifs with htrigger
    · simp only [if_pos htrigger] at hreplied hfits
      exact (hsummarizer summarizer rfl).run_retains hstore h hreplied hfits
    · simpa [usedOf] using h

/-- The summarizers of the two runs. -/
theorem runSummarizer_repeats {summarizer : Option Summarizer} {answers answers' : Answers}
    {tool : String → String → Except PyExn Bytes} (hnorm : IgnoresServing norm)
    (hsummarizer : ∀ s ∈ summarizer, s.compact.Sequential) (hstore : cfg.longterm = false)
    (htools : ToolsReply answers tool) (htools' : ToolsReply answers' tool)
    {e e' : ProgEnd Outcome} (h : e.ctx.Alike norm now stored e'.ctx)
    (hused : usedOf (summarizerLog py cfg summarizer answers e) ⊆ stored)
    (hreplied : ∀ raised, .error raised ∉ askedOf (summarizerLog py cfg summarizer answers e)) :
    (runSummarizer py cfg summarizer answers e).1.Alike norm now stored
        (runSummarizer py cfg summarizer answers' e').1 ∧
      (runSummarizer py cfg summarizer answers e).2 =
        (runSummarizer py cfg summarizer answers' e').2 ∧
      askedOf (summarizerLog py cfg summarizer answers' e') = [] ∧
      answeredOf (summarizerLog py cfg summarizer answers e) =
        answeredOf (summarizerLog py cfg summarizer answers' e') := by
  have htotal : e'.ctx.memory.total = e.ctx.memory.total :=
    congrArg (fun c => c.memory.total) h.view.symm
  cases summarizer with
  | none => exact ⟨h, rfl, rfl, rfl⟩
  | some summarizer =>
    unfold summarizerLog runSummarizer at *
    dsimp only at *
    rw [htotal]
    split_ifs with htrigger
    · simp only [if_pos htrigger] at hused hreplied
      exact (hsummarizer summarizer rfl).repeats hnorm hstore htools htools' _ h hused hreplied
    · exact ⟨h, rfl, rfl, rfl⟩

variable (w') in
/-- **A second run from a cache that serves the first.** The agent and the summarizer issue their
calls one after another, there is no long-term store and the inline tools are deterministic. When no
provider call of the first run raised, a second run from a cache blob that serves the responses of
the first asks the provider nothing, each of its model calls answers the same, and it comes to the
same result. -/
theorem runActivation_served {agent : Agent} {summarizer : Option Summarizer}
    {defaultHitlTimeoutMs : Int} {tool : String → String → Except PyExn Bytes}
    {input : ActivationInput} {r : ActivationResult} (hnorm : IgnoresServing norm)
    (hagent : agent.Sequential) (hsummarizer : ∀ s ∈ summarizer, s.compact.Sequential)
    (hstore : cfg.longterm = false) (htools : ToolsReply w.answers tool)
    (htools' : ToolsReply w'.answers tool)
    (hrun : runActivation py schema cfg agent summarizer defaultHitlTimeoutMs w input = .ok r)
    (hreplied : ∀ e, .error e ∉ askedOf (activationLog py cfg agent summarizer w.answers input))
    {blob : Option LlmCacheBlob} (hserves : (ReplayCache.ofBlob blob input.nowMs).Serves input.nowMs
      (usedOf (activationLog py cfg agent summarizer w.answers input))) :
    let again := { input with cacheBlob := blob }
    ∃ r', runActivation py schema cfg agent summarizer defaultHitlTimeoutMs w' again = .ok r' ∧
      r.RepeatsUpTo norm r' ∧
      askedOf (activationLog py cfg agent summarizer w'.answers again) = [] ∧
      answeredOf (activationLog py cfg agent summarizer w'.answers again) =
        answeredOf (activationLog py cfg agent summarizer w.answers input) := by
  intro again
  obtain ⟨ctx, outcome, ctxEnd, hnew, houtcome, hsummarized, hfold⟩ := runActivation_eq_ok hrun
  have hlog := activationLog_eq summarizer hnew houtcome
  dsimp only at hlog
  rw [hlog] at hreplied hserves ⊢
  rw [askedOf_append] at hreplied
  rw [usedOf_append] at hserves
  obtain ⟨hlongterm, -, hagain⟩ := new_cacheBlob hnew
  set start := ctx.stageTrace py (startEvent py ctx input.batchTrigger) with hstart
  set agentEnd := agent.run py cfg w.answers 0 start with hagentEnd
  set used := usedOf (agent.log py cfg w.answers 0 start) ++
    usedOf (summarizerLog py cfg summarizer w.answers agentEnd)
  -- The second context serves all that the first run uses, so that the two runs go in lockstep.
  let ctx' : ActivationContext :=
    { ctx with replayCache := ReplayCache.ofBlob blob input.nowMs }
  have hnew' : ActivationContext.new py cfg again = .ok ctx' := hagain blob
  let start' := ctx'.stageTrace py (startEvent py ctx' again.batchTrigger)
  have halike : start.Alike norm input.nowMs used start' := ⟨rfl, rfl, hserves⟩
  obtain ⟨hend, houtcome', hasked, hanswered⟩ := hagent.repeats hnorm hstore htools htools' 0 halike
    (List.subset_append_left _ _) (fun e he => hreplied e (List.mem_append_left _ he))
  obtain ⟨hendSummary, hsummarized', hasked', hanswered'⟩ :=
    runSummarizer_repeats hnorm hsummarizer hstore htools htools' hend
      (List.subset_append_right _ _) (fun e he => hreplied e (List.mem_append_right _ he))
  have hunsaved : ctxEnd.longterm = Dict.empty := by
    have hsummary := runSummarizer_longterm py hstore summarizer w.answers agentEnd
    rw [hsummarized] at hsummary
    exact hsummary.trans ((Prog.run_longterm hstore w.answers agent 0 start).trans hlongterm)
  rw [hsummarized] at hendSummary hsummarized'
  obtain ⟨r', hr', hrepeats⟩ := foldOutcome_repeats w' hendSummary hunsaved hfold
  have hlog' := activationLog_eq summarizer hnew' (houtcome'.symm.trans houtcome)
  dsimp only at hlog'
  refine ⟨r', ?_, hrepeats, ?_, ?_⟩
  · exact runActivation_ok hnew' (houtcome'.symm.trans houtcome)
      (Prod.ext rfl hsummarized'.symm) hr'
  · rw [hlog', askedOf_append]
    exact List.append_eq_nil_iff.mpr ⟨hasked, hasked'⟩
  · rw [hlog', answeredOf_append, answeredOf_append]
    exact congrArg₂ _ hanswered.symm hanswered'.symm

/-- The blob of a result serves what its activation used, when that fits the cache together. -/
theorem runActivation_cacheBlob_serves {agent : Agent} {summarizer : Option Summarizer}
    {defaultHitlTimeoutMs : Int} {input : ActivationInput} {r : ActivationResult}
    (hagent : agent.Sequential) (hsummarizer : ∀ s ∈ summarizer, s.compact.Sequential)
    (hstore : cfg.longterm = false)
    (hkeys : ∀ blob ∈ input.cacheBlob, (blob.entries.map LlmCacheEntry.cacheKey).Nodup)
    (hrun : runActivation py schema cfg agent summarizer defaultHitlTimeoutMs w input = .ok r)
    (hreplied : ∀ e, .error e ∉ askedOf (activationLog py cfg agent summarizer w.answers input))
    (hfits : Fits (usedOf (activationLog py cfg agent summarizer w.answers input))) :
    (ReplayCache.ofBlob (some r.cacheBlob) input.nowMs).Serves input.nowMs
      (usedOf (activationLog py cfg agent summarizer w.answers input)) := by
  obtain ⟨ctx, outcome, ctxEnd, hnew, houtcome, hsummarized, hfold⟩ := runActivation_eq_ok hrun
  have hlog := activationLog_eq summarizer hnew houtcome
  dsimp only at hlog
  rw [hlog] at hreplied hfits ⊢
  rw [askedOf_append] at hreplied
  rw [usedOf_append] at hfits ⊢
  obtain ⟨-, hcache, -⟩ := new_cacheBlob hnew
  set start := ctx.stageTrace py (startEvent py ctx input.batchTrigger) with hstart
  -- What the run used is retained, up to its result.
  have hbegin : start.replayCache.Retains input.nowMs [] := by
    show ctx.replayCache.Retains input.nowMs []
    rw [hcache]
    cases hblob : input.cacheBlob with
    | none => exact (ReplayCache.ofBlob_none_lists _).retains
    | some blob => exact (ReplayCache.ofBlob_lists (hkeys blob hblob) _).retains
  have hagentRetains := hagent.run_retains hstore hbegin
    (fun e he => hreplied e (List.mem_append_left _ he)) (hfits.mono (List.subset_append_left _ _))
  rw [List.nil_append] at hagentRetains
  have hretains := runSummarizer_retains hsummarizer hstore hagentRetains
    (fun e he => hreplied e (List.mem_append_right _ he)) hfits
  rw [hsummarized] at hretains
  rw [foldOutcome_cacheBlob hfold]
  exact hretains.serves schema.current

/-- **A retried activation repeats its first run.** The agent and the summarizer issue their calls
one after another, there is no long-term store, the inline tools are deterministic, and the starting
cache is one that was written to a blob. When no provider call of the first run raised and the
responses that its model calls used fit the cache together, the second run from the blob of the
first asks the provider nothing, each of its model calls answers the same, the tripped budget
included, and it comes to the same result. A response counts for the size that the cache tracks it
by: its wire size when it was loaded or stored. -/
theorem runActivation_repeats {agent : Agent} {summarizer : Option Summarizer}
    {defaultHitlTimeoutMs : Int} {tool : String → String → Except PyExn Bytes}
    {input : ActivationInput} {r : ActivationResult} (hagent : agent.Sequential)
    (hsummarizer : ∀ s ∈ summarizer, s.compact.Sequential) (hstore : cfg.longterm = false)
    (htools : ToolsReply w.answers tool) (htools' : ToolsReply w'.answers tool)
    (hkeys : ∀ blob ∈ input.cacheBlob, (blob.entries.map LlmCacheEntry.cacheKey).Nodup)
    (hrun : runActivation py schema cfg agent summarizer defaultHitlTimeoutMs w input = .ok r)
    (hreplied : ∀ e, .error e ∉ askedOf (activationLog py cfg agent summarizer w.answers input))
    (hfits : Fits (usedOf (activationLog py cfg agent summarizer w.answers input))) :
    let again := { input with cacheBlob := some r.cacheBlob }
    ∃ r', runActivation py schema cfg agent summarizer defaultHitlTimeoutMs w' again = .ok r' ∧
      r.Repeats r' ∧ askedOf (activationLog py cfg agent summarizer w'.answers again) = [] ∧
      answeredOf (activationLog py cfg agent summarizer w'.answers again) =
        answeredOf (activationLog py cfg agent summarizer w.answers input) := by
  intro again
  obtain ⟨r', hr', hrepeats, hlogs⟩ := runActivation_served w' unserved_ignoresServing hagent
    hsummarizer hstore htools htools' hrun hreplied
    (runActivation_cacheBlob_serves hagent hsummarizer hstore hkeys hrun hreplied hfits)
  exact ⟨r', hr', hrepeats.repeats, hlogs⟩

end Activation

/-! ### Runs on one input -/

/-- The `uuid5` values behind the runs below. -/
def retryTable : List (String × String) :=
  [("6b|0|0", "6509fb29-9e35-5f25-bf85-b7860d49a026"),
    ("6b|0|1", "2e047468-1bb8-5717-8cb0-d8e98f15a767"),
    ("6b|0|2", "cf8bf923-306f-5146-82a8-520e5a27f716"),
    ("6b|0", "2bf05d87-d332-5171-8085-abe0727ad51a"),
    ("6b|0|activation|0", "7b312788-5df6-577e-9862-a217d85e4c83"),
    ("6b|0|TOOL_CALL|0", "04792d4b-fa0b-5844-afa6-adbd83dc00b7"),
    ("6b|0|LLM_CALL|0", "d8f49edb-3906-5909-a2cd-b5dfbc726817"),
    ("6b|0|LLM_CALL|1", "bbc2009b-67b0-57c0-afb3-bfa8478910e6"),
    ("6b|0|INTENT_EMITTED|1", "babdc904-6660-57c8-9b18-b02b1cd8d042"),
    ("6b|0|INTENT_EMITTED|2", "a1fec5a3-e349-50af-adb6-6002f8df8729"),
    ("6b|0|SUSPENDED|2", "351fe3c3-2687-5f50-84c2-73d41743850b"),
    ("6b|0|SUSPENDED|3", "58774827-4278-5bbf-bc75-09e94bbf55ae")]

/-- The library of the runs below: the digests of their one response and of their one request. -/
def retryPy : PyLib :=
  { PyLib.ofTable retryTable with
    sha256 := fun data =>
      if data = [1] then
        [75, 245, 18, 47, 52, 69, 84, 197, 59, 222, 46, 187, 140, 210, 183, 227, 209, 96, 10, 214,
          49, 195, 133, 165, 215, 204, 226, 60, 119, 133, 69, 154]
      else
        [44, 116, 6, 206, 114, 186, 235, 159, 45, 97, 145, 249, 73, 72, 34, 41, 87, 255, 123, 241,
          224, 51, 46, 211, 176, 56, 69, 185, 48, 174, 181, 11] }

/-- The request of the runs below. -/
def retryRequest : LlmRequest := ⟨"m", .ok ("[]", "null", "{}")⟩

/-- A world in which tools answer, and the provider replies to the calls in turn. -/
def replyingWorld (replies : ℕ → Except PyExn Bytes) : World where
  answers
    | awaits, .model _ => ⟨replies awaits, 1000000⟩
    | _, .tool .. => ⟨.ok [7], 0⟩
    | _, .other _ => ⟨.ok [], 0⟩
    | _, .storeLoad _ => ⟨.ok none, 0⟩
    | _, .storeSearch .. => ⟨.ok [], 0⟩

/-- A provider that raises on the first call. -/
def failsOnce : ℕ → Except PyExn Bytes
  | 0 => .error ⟨.other, "ProviderError", "ProviderError()"⟩
  | _ + 1 => .ok [1]

/-- The first event of a key. -/
def retryInput : ActivationInput where
  entityKey := [107]
  seq := 0
  nowMs := 1000
  memoryBlob := none
  cacheBlob := none
  event := .inl [1]

theorem replyingWorld_tools (replies : ℕ → Except PyExn Bytes) :
    ToolsReply (replyingWorld replies).answers fun _ _ => .ok [7] := fun _ _ _ => rfl

/-- An agent that asks the model, runs a tool, stages an intent and suspends. -/
def askingAgent : Agent :=
  callModel retryRequest fun _ => runTool "clock" "{}" fun _ =>
    .perform (.act "mail" "{}") fun _ => .ret .suspend

theorem askingAgent_sequential : askingAgent.Sequential :=
  .callModel _ _ fun _ => .runTool _ _ _ fun _ => .perform _ _ trivial fun _ => .ret _

/-- The agent runs again, and the provider that would fail it is not asked. -/
theorem runActivation_repeats_asking : ∃ r r',
    runActivation retryPy .v1 {} askingAgent none 1000 (replyingWorld fun _ => .ok [1])
        retryInput = .ok r ∧
      runActivation retryPy .v1 {} askingAgent none 1000 (replyingWorld failsOnce)
        { retryInput with cacheBlob := some r.cacheBlob } = .ok r' ∧
      r.Repeats r' ∧ askedOf (activationLog retryPy {} askingAgent none
        (replyingWorld failsOnce).answers
        { retryInput with cacheBlob := some r.cacheBlob }) = [] := by
  have hok : (runActivation retryPy .v1 {} askingAgent none 1000 (replyingWorld fun _ => .ok [1])
      retryInput).isOk = true := by decide +kernel
  cases hrun : runActivation retryPy .v1 {} askingAgent none 1000 (replyingWorld fun _ => .ok [1])
      retryInput with
  | error failure =>
    rw [hrun] at hok
    cases hok
  | ok r =>
    have hreplied : askedOf (activationLog retryPy {} askingAgent none
        (replyingWorld fun _ => .ok [1]).answers retryInput) = [.ok [1]] := by decide +kernel
    obtain ⟨r', hr', hrepeats, hasked, -⟩ := runActivation_repeats
      askingAgent_sequential (by simp) rfl (replyingWorld_tools _) (replyingWorld_tools failsOnce)
      (by simp [retryInput]) hrun (by simp [hreplied])
      ⟨by decide +kernel, by decide +kernel⟩
    exact ⟨r, r', rfl, hr', hrepeats, hasked⟩

/-- An agent that asks the model again when the provider raised. -/
def persistentAgent : Agent :=
  callModel retryRequest fun
    | .ok _ => .perform (.act "mail" "{}") fun _ => .ret .suspend
    | .error _ => callModel retryRequest fun _ =>
      .perform (.act "mail" "{}") fun _ => .ret .suspend

theorem persistentAgent_sequential : persistentAgent.Sequential := by
  refine .callModel _ _ fun answer => ?_
  cases answer with
  | ok _ => exact .perform _ _ trivial fun _ => .ret _
  | error _ => exact .callModel _ _ fun _ => .perform _ _ trivial fun _ => .ret _

/-- The provider raises on the first call of the first run, and the agent asks again: one request,
whose response is stored and fits the cache. The second run is answered at once, so that its intent
is minted one step earlier. -/
theorem raised_call_not_repeated : persistentAgent.Sequential ∧
    Fits (usedOf (activationLog retryPy {} persistentAgent none (replyingWorld failsOnce).answers
      retryInput)) ∧
    ∃ r r', runActivation retryPy .v1 {} persistentAgent none 1000 (replyingWorld failsOnce)
        retryInput = .ok r ∧
      runActivation retryPy .v1 {} persistentAgent none 1000 (replyingWorld failsOnce)
        { retryInput with cacheBlob := some r.cacheBlob } = .ok r' ∧
      r.cacheBlob.entries.length = 1 ∧
      r.intents.map ToolIntent.intentId = ["cf8bf923-306f-5146-82a8-520e5a27f716"] ∧
      r'.intents.map ToolIntent.intentId = ["2e047468-1bb8-5717-8cb0-d8e98f15a767"] := by
  refine ⟨persistentAgent_sequential, ⟨by decide +kernel, by decide +kernel⟩, ?_⟩
  have hruns : ((runActivation retryPy .v1 {} persistentAgent none 1000 (replyingWorld failsOnce)
      retryInput).toOption.bind fun r =>
        (runActivation retryPy .v1 {} persistentAgent none 1000 (replyingWorld failsOnce)
          { retryInput with cacheBlob := some r.cacheBlob }).toOption.map fun r' =>
        decide (r.cacheBlob.entries.length = 1 ∧
          r.intents.map ToolIntent.intentId = ["cf8bf923-306f-5146-82a8-520e5a27f716"] ∧
          r'.intents.map ToolIntent.intentId = ["2e047468-1bb8-5717-8cb0-d8e98f15a767"])) =
      some true := by decide +kernel
  obtain ⟨r, hr, hruns'⟩ := Option.bind_eq_some_iff.mp hruns
  obtain ⟨r', hr', hids⟩ := Option.map_eq_some_iff.mp hruns'
  have hok {x : Except ActivationFailure ActivationResult} {r : ActivationResult}
      (h : x.toOption = some r) : x = .ok r := by
    cases x with
    | error failure => cases h
    | ok r => cases h; rfl
  exact ⟨r, r', hok hr, hok hr', of_decide_eq_true hids⟩

end BeamAgents
