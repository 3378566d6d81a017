import BeamAgents.Replay.Diff

/-!
# Activations that a replay can repeat

A replay builds the context of an activation with the decoder and the tools of the pipeline and with
the defaults of everything else: the intent TTL, the approval channel, the suspension timeout, no
compactor, no summarizer, no long-term store and no token budget. An activation in which none of
these settings came to act is the same activation under the settings of a replay.

## Main definitions

* `ContextConfig.replayed`: the settings that a replay rebuilds.
* `CtxOp.Replayable`, `Prog.Replayable`: an operation, and a run, in which the other settings do not
  act.
* `ReplayableActivation`: the same for a whole activation.

## Main results

* `runActivation_replayable`: such an activation comes to the same result under the settings of a
  replay.
* `replayableActivation_of_default`: with the default settings every activation is one.
-/

namespace BeamAgents

/-- What a replay builds the context with, for a pipeline with these settings. -/
def ContextConfig.replayed (cfg : ContextConfig) : ContextConfig :=
  replayConfig cfg.decode cfg.tools

/-- The context without its token budget. -/
def ActivationContext.unmetered (ctx : ActivationContext) : ActivationContext :=
  { ctx with budget := none }

/-- The event types that the driver stages itself. -/
def EventType.ofDriver : EventType → Bool
  | .activationStart | .activationEnd | .error | .intentEmitted => true
  | .unspecified | .llmCall | .toolCall | .suspended => false

variable (py : PyLib) (cfg : ContextConfig)

/-- An operation on which no setting acts that a replay does not rebuild: an intent is staged with
its own TTL and channel or with the defaults, the budget is not exceeded, the compactor has nothing
to do, and no long-term store is called. An event that the agent stages itself is in the scope of
the activation and of no type that the driver stages. -/
def CtxOp.Replayable : CtxOp → ActivationContext → Prop
  | .act _ _ ttlMs, _ => ttlMs.isSome ∨ cfg.intentTtlMs = defaultIntentTtlMs
  | .requestApproval _ channel ttlMs, _ =>
    (channel.isSome ∨ cfg.approvalChannel = defaultApprovalChannel) ∧
      (ttlMs.isSome ∨ cfg.intentTtlMs = defaultIntentTtlMs)
  | .modelEnter request, ctx =>
    (ctx.modelEnter py cfg request).1.budget.bind TokenBudget.check = none
  | .modelLeave call response elapsedNs, ctx =>
    (ctx.modelLeave py cfg call response elapsedNs).1.budget.bind TokenBudget.check = none
  | .memorySet key value, ctx =>
    ctx.memory.set py cfg.compactor key value = ctx.memory.set py none key value
  | .memoryAppend key item maxItems, ctx =>
    ctx.memory.append py cfg.compactor key item maxItems =
      ctx.memory.append py none key item maxItems
  | .longtermSave .., _ | .longtermStaged _, _ => cfg.longterm = false
  | .stageTrace event, ctx =>
    event.entityKey = ctx.entityKey ∧ event.seq = ctx.seq ∧ event.eventType.ofDriver = false
  | _, _ => True

/-- A run of which every operation is replayable, and which does not look at the budget. -/
def Prog.Replayable {ρ : Type} (answers : Answers) : Prog ρ → ℕ → ActivationContext → Prop
  | .ret _, _, _ | .raise _, _, _ => True
  | .read k, awaits, ctx => k ctx.unmetered = k ctx ∧ (k ctx).Replayable answers awaits ctx
  | .perform op k, awaits, ctx =>
    op.Replayable py cfg ctx ∧
      (k (ActivationContext.perform py cfg op ctx).2).Replayable answers awaits
        (ActivationContext.perform py cfg op ctx).1
  | .await a k, awaits, ctx => (k (answers awaits a)).Replayable answers (awaits + 1) ctx

namespace ActivationContext

variable {py} {cfg} {ctx : ActivationContext}

/-! ### One operation -/

/-- A charge that does not exceed the budget raises nothing. -/
theorem charge_unmetered {usage : Option TokenUsage}
    (h : (ctx.charge usage).1.budget.bind TokenBudget.check = none) :
    (ctx.charge usage).1.unmetered = ctx.unmetered ∧ (ctx.charge usage).2 = none := by
  unfold charge at h ⊢
  cases hb : ctx.budget with
  | none => exact ⟨rfl, rfl⟩
  | some budget =>
    cases usage with
    | none => exact ⟨rfl, rfl⟩
    | some usage =>
      refine ⟨rfl, ?_⟩
      -- A charge that raises leaves the budget exhausted.
      simp only [hb, TokenBudget.charge, TokenBudget.check] at h ⊢
      split_ifs at h ⊢ <;> simp_all [TokenBudget.check]

/-- The tail of a model call that does not exceed the budget. -/
theorem finishModel_unmetered {step : ℕ} {cacheHit : Bool} {modelId : String} {response : Bytes}
    (h : (ctx.finishModel py cfg step cacheHit modelId response).1.budget.bind TokenBudget.check =
      none) :
    ctx.unmetered.finishModel py cfg.replayed step cacheHit modelId response =
      ((ctx.finishModel py cfg step cacheHit modelId response).1.unmetered,
        (ctx.finishModel py cfg step cacheHit modelId response).2) := by
  have hdecoded : decodedUsage cfg.replayed response = decodedUsage cfg response := rfl
  unfold finishModel at h ⊢
  rw [hdecoded]
  generalize decodedUsage cfg response = decoded at h ⊢
  obtain e | usage := decoded
  · rfl
  · obtain ⟨hctx, hraised⟩ := charge_unmetered h
    exact Prod.ext hctx.symm hraised.symm

/-- A model call that does not exceed the budget, as far as its tail. -/
theorem settled_unmetered {step : ℕ} {cacheHit : Bool} {modelId : String} {response : Bytes}
    (h : (ctx.settled py cfg step cacheHit modelId response).1.budget.bind TokenBudget.check =
      none) :
    ctx.unmetered.settled py cfg.replayed step cacheHit modelId response =
      ((ctx.settled py cfg step cacheHit modelId response).1.unmetered,
        (ctx.settled py cfg step cacheHit modelId response).2) := by
  have hfinish (h : (ctx.finishModel py cfg step cacheHit modelId response).1.budget.bind
      TokenBudget.check = none) := finishModel_unmetered h
  unfold settled at h ⊢
  generalize finishModel py cfg ctx step cacheHit modelId response = r at h hfinish ⊢
  obtain ⟨ctx', _ | e⟩ := r
  · rw [hfinish h]
  · rw [hfinish h]

/-- Entering a model call that does not exceed the budget. -/
theorem modelEnter_unmetered {request : LlmRequest}
    (h : (ctx.modelEnter py cfg request).1.budget.bind TokenBudget.check = none) :
    ctx.budget.bind TokenBudget.check = none ∧
      ctx.unmetered.modelEnter py cfg.replayed request =
        ((ctx.modelEnter py cfg request).1.unmetered, (ctx.modelEnter py cfg request).2) := by
  cases hbudget : ctx.budget.bind TokenBudget.check with
  | some e =>
    rw [modelEnter_refused hbudget, hbudget] at h
    cases h
  | none =>
    refine ⟨rfl, ?_⟩
    have hunmetered : ctx.unmetered.budget.bind TokenBudget.check = none := rfl
    cases hkey : computeCacheKey py request ctx.entityKey ctx.seq with
    | error e => rw [modelEnter_unkeyed hbudget hkey, modelEnter_unkeyed hunmetered hkey]; rfl
    | ok cacheKey =>
      cases hserved : ctx.replayCache.served cacheKey with
      | none =>
        rw [modelEnter_miss hbudget hkey hserved, modelEnter_miss hunmetered hkey hserved]
        rfl
      | some s =>
        rw [modelEnter_hit hbudget hkey hserved] at h ⊢
        have hsettled := settled_unmetered h
        rw [modelEnter_hit hunmetered hkey hserved]
        exact congrArg (fun r => (r.1, r.2.map ModelEntry.hit)) hsettled

theorem modelLeave_unmetered {call : ModelCall} {response : Bytes} {elapsedNs : Int}
    (h : (ctx.modelLeave py cfg call response elapsedNs).1.budget.bind TokenBudget.check = none) :
    ctx.unmetered.modelLeave py cfg.replayed call response elapsedNs =
      ((ctx.modelLeave py cfg call response elapsedNs).1.unmetered,
        (ctx.modelLeave py cfg call response elapsedNs).2) := by
  rw [modelLeave_eq] at h ⊢
  rw [modelLeave_eq]
  exact settled_unmetered h

/-- **A replayable operation does the same under the settings of a replay.** -/
theorem perform_replayable {op : CtxOp} (h : op.Replayable py cfg ctx) :
    perform py cfg.replayed op ctx.unmetered =
      ((perform py cfg op ctx).1.unmetered, (perform py cfg op ctx).2) := by
  have httl {ttlMs : Option Int} (h : ttlMs.isSome ∨ cfg.intentTtlMs = defaultIntentTtlMs) :
      ttlMs.getD cfg.replayed.intentTtlMs = ttlMs.getD cfg.intentTtlMs := by
    cases ttlMs with
    | some ttlMs => rfl
    | none =>
      obtain h | h := h
      · cases h
      · exact h.symm
  cases op with
  | act toolName argsJson ttlMs => simp [perform, stageIntent, httl h, advanceStep, unmetered]
  | requestApproval argsJson channel ttlMs =>
    have hchannel :
        channel.getD cfg.replayed.approvalChannel = channel.getD cfg.approvalChannel := by
      cases channel with
      | some channel => rfl
      | none =>
        obtain h | h := h.1
        · cases h
        · exact h.symm
    simp [perform, stageIntent, httl h.2, hchannel, advanceStep, unmetered]
  | modelEnter request => exact (modelEnter_unmetered h).2
  | modelLeave call response elapsedNs => exact modelLeave_unmetered h
  | memorySet key value =>
    have hset : ctx.memory.set py cfg.replayed.compactor key value =
        ctx.memory.set py cfg.compactor key value := Eq.symm h
    simp only [perform, hset, unmetered, withMemory]
  | memoryAppend key item maxItems =>
    have happend : ctx.memory.append py cfg.replayed.compactor key item maxItems =
        ctx.memory.append py cfg.compactor key item maxItems := Eq.symm h
    simp only [perform, happend, unmetered, withMemory]
  | longtermSave key value =>
    have hstore : cfg.longterm = false := h
    simp [perform, longtermSave, hstore, ContextConfig.replayed, replayConfig]
  | longtermStaged key =>
    have hstore : cfg.longterm = false := h
    simp [perform, hstore, ContextConfig.replayed, replayConfig]
  | _ => rfl

/-- A replayable operation shows the same of the model calls. -/
theorem modelEvents_replayable {op : CtxOp} (h : op.Replayable py cfg ctx) :
    modelEvents py cfg.replayed op ctx.unmetered = modelEvents py cfg op ctx := by
  cases op with
  | modelEnter request =>
    obtain ⟨hbudget, henter⟩ := modelEnter_unmetered h
    have hkey : ctx.unmetered.lookupKey py request = ctx.lookupKey py request := by
      simp only [lookupKey, hbudget, unmetered]
      rfl
    rw [modelEvents, modelEvents, hkey, henter]
    rfl
  | modelLeave call response elapsedNs =>
    rw [modelEvents, modelEvents, modelLeave_unmetered h]
    rfl
  | _ => rfl

end ActivationContext

/-! ### A run -/

variable {py} {cfg}

open ActivationContext in
/-- **A replayable run is the same run under the settings of a replay.** -/
theorem Prog.Replayable.run {ρ : Type} {answers : Answers} {p : Prog ρ} {awaits : ℕ}
    {ctx : ActivationContext} (h : p.Replayable py cfg answers awaits ctx) :
    p.run py cfg.replayed answers awaits ctx.unmetered =
        { p.run py cfg answers awaits ctx with
          ctx := (p.run py cfg answers awaits ctx).ctx.unmetered } ∧
      p.log py cfg.replayed answers awaits ctx.unmetered = p.log py cfg answers awaits ctx := by
  induction p generalizing awaits ctx with
  | ret r => exact ⟨rfl, rfl⟩
  | raise e => exact ⟨rfl, rfl⟩
  | read k ih =>
    obtain ⟨hread, hk⟩ := h
    rw [Prog.run, Prog.log, hread]
    exact ih ctx hk
  | perform op k ih =>
    obtain ⟨hop, hk⟩ := h
    have hperform := perform_replayable hop
    obtain ⟨hrun, hlog⟩ := ih _ hk
    simp only [Prog.run, Prog.log, hperform, modelEvents_replayable hop]
    exact ⟨hrun, congrArg _ hlog⟩
  | await a k ih =>
    obtain ⟨hrun, hlog⟩ := ih (answers awaits a) h
    exact ⟨hrun, congrArg _ hlog⟩

/-! ### The activation -/

variable (py cfg) in
/-- An activation in which no setting acts that a replay does not rebuild: it is of a single event
or a resume, its run is replayable, memory has not reached the trigger of the summarizer, and a
suspension that names no timeout of its own is due when it is due under the default timeout. -/
structure ReplayableActivation (agent : Agent) (summarizer : Option Summarizer)
    (hitlTimeoutMs : Int) (answers : Answers) (input : ActivationInput) : Prop where
  single : input.event.isLeft
  run : ∀ ctx, ActivationContext.new py cfg input = .ok ctx →
    agent.Replayable py cfg answers 0 (ctx.stageTrace py (startEvent py ctx input.batchTrigger))
  summarizer : ∀ ctx, ActivationContext.new py cfg input = .ok ctx → ∀ s ∈ summarizer,
    (agent.run py cfg answers 0
      (ctx.stageTrace py (startEvent py ctx input.batchTrigger))).ctx.memory.total < s.triggerBytes
  timeout : ∀ ctx, ActivationContext.new py cfg input = .ok ctx →
    let e := agent.run py cfg answers 0 (ctx.stageTrace py (startEvent py ctx input.batchTrigger))
    ∀ snapshot adapter, e.outcome = .ok (.suspend snapshot adapter none) →
      suspensionDeadline (e.ctx.nowMs + hitlTimeoutMs) e.ctx.intents =
        suspensionDeadline (e.ctx.nowMs + defaultHitlTimeoutMs) e.ctx.intents

section Activation

variable {schema : StateSchema} {agent : Agent} {summarizer : Option Summarizer}
  {hitlTimeoutMs : Int} {w : World} {input : ActivationInput} {r : ActivationResult}

/-- The outcome of an agent is folded into the same result. -/
theorem foldOutcome_unmetered {ctx : ActivationContext} {outcome : Outcome}
    (htimeout : ∀ snapshot adapter, outcome = .suspend snapshot adapter none →
      suspensionDeadline (ctx.nowMs + hitlTimeoutMs) ctx.intents =
        suspensionDeadline (ctx.nowMs + defaultHitlTimeoutMs) ctx.intents) :
    foldOutcome py schema defaultHitlTimeoutMs w ctx.unmetered outcome =
      foldOutcome py schema hitlTimeoutMs w ctx outcome := by
  have hfinish (ctx : ActivationContext) (status : ActivationStatus) (outputs : List Bytes)
      (continuation : Option Continuation) :
      finishActivation py schema w ctx.unmetered status outputs continuation =
        finishActivation py schema w ctx status outputs continuation := rfl
  cases outcome with
  | complete output => exact hfinish (ctx.stageTrace py _) _ _ _
  | suspend snapshot adapter timeoutMs =>
    have hdeadline : suspensionDeadline (ctx.unmetered.nowMs + timeoutMs.getD defaultHitlTimeoutMs)
          ctx.unmetered.intents =
        suspensionDeadline (ctx.nowMs + timeoutMs.getD hitlTimeoutMs) ctx.intents := by
      cases timeoutMs with
      | some timeoutMs => rfl
      | none => exact (htimeout snapshot adapter rfl).symm
    unfold foldOutcome
    dsimp only
    rw [hdeadline]
    exact hfinish ((ctx.stageTrace py _).stageTrace py _) _ _ _
  | other repr => rfl

variable (py) in
/-- A summarizer whose trigger memory has not reached does not run. -/
theorem runSummarizer_silent {answers : Answers} {e : ProgEnd Outcome}
    (h : ∀ s ∈ summarizer, e.ctx.memory.total < s.triggerBytes) :
    runSummarizer py cfg summarizer answers e = (e.ctx, .ok ()) ∧
      summarizerLog py cfg summarizer answers e = [] := by
  cases summarizer with
  | none => exact ⟨rfl, rfl⟩
  | some s =>
    have hlt := Nat.not_le_of_lt (h s rfl)
    exact ⟨if_neg hlt, if_neg hlt⟩

/-- **A replayable activation comes to the same result under the settings of a replay**, and shows
the same of its model calls. -/
theorem runActivation_replayable
    (h : ReplayableActivation py cfg agent summarizer hitlTimeoutMs w.answers input)
    (hrun : runActivation py schema cfg agent summarizer hitlTimeoutMs w input = .ok r) :
    runActivation py schema cfg.replayed agent none defaultHitlTimeoutMs w input = .ok r ∧
      activationLog py cfg.replayed agent none w.answers input =
        activationLog py cfg agent summarizer w.answers input := by
  obtain ⟨ctx, outcome, ctxEnd, hnew, houtcome, hsummarized, hfold⟩ := runActivation_eq_ok hrun
  have hnew' : ActivationContext.new py cfg.replayed input = .ok ctx.unmetered := by
    unfold ActivationContext.new at hnew ⊢
    split_ifs at hnew ⊢ with hempty
    cases hnew
    rfl
  obtain ⟨hagent, hlog⟩ := (h.run ctx hnew).run
  have hdeadline := h.timeout ctx hnew
  have hquiet := h.summarizer ctx hnew
  have hstart : ctx.unmetered.stageTrace py (startEvent py ctx.unmetered input.batchTrigger) =
      (ctx.stageTrace py (startEvent py ctx input.batchTrigger)).unmetered := rfl
  set start := ctx.stageTrace py (startEvent py ctx input.batchTrigger) with hstartDef
  obtain ⟨hsilent, hsilentLog⟩ := runSummarizer_silent py hquiet
  obtain rfl : (agent.run py cfg w.answers 0 start).ctx = ctxEnd :=
    congrArg Prod.fst (hsilent.symm.trans hsummarized)
  have houtcome' : (agent.run py cfg.replayed w.answers 0 (ctx.unmetered.stageTrace py
      (startEvent py ctx.unmetered input.batchTrigger))).outcome = .ok outcome := by
    rw [hstart, hagent]
    exact houtcome
  refine ⟨runActivation_ok hnew' houtcome' (Prod.ext rfl rfl) ?_, ?_⟩
  · rw [hstart, hagent, ← hfold]
    exact foldOutcome_unmetered fun snapshot adapter hsuspend =>
      hdeadline snapshot adapter (hsuspend ▸ houtcome)
  · have hlogs := activationLog_eq summarizer hnew houtcome
    have hlogs' := activationLog_eq none hnew' houtcome'
    dsimp only at hlogs hlogs'
    rw [hlogs, hlogs', hsilentLog, hstart, hlog]
    rfl

end Activation

/-! ### The default settings -/

/-- A program that stages no trace event of its own. -/
def Prog.StagesNoTrace {ρ : Type} : Prog ρ → Prop
  | .ret _ | .raise _ => True
  | .read k => ∀ ctx, (k ctx).StagesNoTrace
  | .perform op k => (∀ event, op ≠ .stageTrace event) ∧ ∀ answer, (k answer).StagesNoTrace
  | .await _ k => ∀ answer, (k answer).StagesNoTrace

namespace ActivationContext

variable {ctx : ActivationContext}

theorem settled_budget (h : ctx.budget = none) (step : ℕ) (cacheHit : Bool) (modelId : String)
    (response : Bytes) :
    (ctx.settled py cfg step cacheHit modelId response).1.budget = none := by
  have hfinish : (ctx.finishModel py cfg step cacheHit modelId response).1.budget = none := by
    unfold finishModel charge
    cases decodedUsage cfg response with
    | error e => exact h
    | ok usage =>
      have hstaged : (ctx.stageLlmTrace py step cacheHit modelId usage).budget = none := h
      dsimp only
      rw [hstaged]
      exact hstaged
  unfold settled
  generalize finishModel py cfg ctx step cacheHit modelId response = r at hfinish ⊢
  obtain ⟨ctx', _ | e⟩ := r <;> exact hfinish

theorem modelEnter_budget (h : ctx.budget = none) (request : LlmRequest) :
    (ctx.modelEnter py cfg request).1.budget = none := by
  have hbudget : ctx.budget.bind TokenBudget.check = none := by rw [h]; rfl
  cases hkey : computeCacheKey py request ctx.entityKey ctx.seq with
  | error e =>
    rw [modelEnter_unkeyed hbudget hkey]
    exact h
  | ok cacheKey =>
    have hlooked : (ctx.looked cacheKey).budget = none := h
    cases hserved : ctx.replayCache.served cacheKey with
    | none =>
      rw [modelEnter_miss hbudget hkey hserved]
      exact hlooked
    | some s =>
      rw [modelEnter_hit hbudget hkey hserved]
      exact settled_budget hlooked _ _ _ _

theorem modelLeave_budget (h : ctx.budget = none) (call : ModelCall) (response : Bytes)
    (elapsedNs : Int) : (ctx.modelLeave py cfg call response elapsedNs).1.budget = none := by
  have hstored : (ctx.stored py call.cacheKey response elapsedNs).budget = none := h
  rw [modelLeave_eq]
  exact settled_budget hstored _ _ _ _

/-- No operation sets a budget. -/
theorem perform_budget (h : ctx.budget = none) (op : CtxOp) :
    (perform py cfg op ctx).1.budget = none := by
  cases op with
  | modelEnter request => exact modelEnter_budget h request
  | modelLeave call response elapsedNs => exact modelLeave_budget h call response elapsedNs
  | longtermSave key value =>
    simp only [perform, longtermSave]
    split_ifs <;> exact h
  | _ => exact h

/-- Under the settings that a replay rebuilds, every operation is replayable. -/
theorem replayable_of_default (hcfg : cfg.replayed = cfg) (h : ctx.budget = none) {op : CtxOp}
    (hop : ∀ event, op ≠ .stageTrace event) : op.Replayable py cfg ctx := by
  have httl : cfg.intentTtlMs = defaultIntentTtlMs := by rw [← hcfg]; rfl
  have hchannel : cfg.approvalChannel = defaultApprovalChannel := by rw [← hcfg]; rfl
  have hcompactor : cfg.compactor = none := by rw [← hcfg]; rfl
  have hstore : cfg.longterm = false := by rw [← hcfg]; rfl
  cases op with
  | act toolName argsJson ttlMs => exact .inr httl
  | requestApproval argsJson channel ttlMs => exact ⟨.inr hchannel, .inr httl⟩
  | modelEnter request =>
    show (ctx.modelEnter py cfg request).1.budget.bind TokenBudget.check = none
    rw [modelEnter_budget h]
    rfl
  | modelLeave call response elapsedNs =>
    show (ctx.modelLeave py cfg call response elapsedNs).1.budget.bind TokenBudget.check = none
    rw [modelLeave_budget h]
    rfl
  | memorySet key value => exact congrArg (fun c => ctx.memory.set py c key value) hcompactor
  | memoryAppend key item maxItems =>
    exact congrArg (fun c => ctx.memory.append py c key item maxItems) hcompactor
  | longtermSave key value => exact hstore
  | longtermStaged key => exact hstore
  | stageTrace event => exact absurd rfl (hop event)
  | _ => trivial

end ActivationContext

theorem Prog.StagesNoTrace.replayable {ρ : Type} {p : Prog ρ} (hp : p.StagesNoTrace)
    (hcfg : cfg.replayed = cfg) (answers : Answers) (awaits : ℕ) {ctx : ActivationContext}
    (h : ctx.budget = none) : p.Replayable py cfg answers awaits ctx := by
  induction p generalizing awaits ctx with
  | ret r => trivial
  | raise e => trivial
  | read k ih =>
    have hunmetered : ctx.unmetered = ctx := by rw [ActivationContext.unmetered, ← h]
    exact ⟨by rw [hunmetered], ih ctx (hp ctx) awaits h⟩
  | perform op k ih =>
    exact ⟨ActivationContext.replayable_of_default hcfg h hp.1,
      ih _ (hp.2 _) awaits (ActivationContext.perform_budget h op)⟩
  | await a k ih => exact ih (answers awaits a) (hp _) (awaits + 1) h

/-- **Under the default settings every activation is replayable**, when its agent stages no trace
event of its own. -/
theorem replayableActivation_of_default (hcfg : cfg.replayed = cfg) {agent : Agent}
    (hagent : agent.StagesNoTrace) (answers : Answers) {input : ActivationInput}
    (hsingle : input.event.isLeft) :
    ReplayableActivation py cfg agent none defaultHitlTimeoutMs answers input where
  single := hsingle
  run ctx hnew := by
    refine hagent.replayable hcfg answers 0 ?_
    show ctx.budget = none
    unfold ActivationContext.new at hnew
    split_ifs at hnew
    cases hnew
    have hlimit : cfg.maxTokensPerActivation = none := by rw [← hcfg]; rfl
    simp [hlimit]
  summarizer _ _ _ hs := by cases hs
  timeout _ _ _ _ _ := rfl

end BeamAgents
