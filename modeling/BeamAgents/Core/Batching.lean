import BeamAgents.Core.Atomicity

/-!
# A batch of one event

The per-event path and the batched path of `core/dofn.py` side by side, for one event. The context
of a flush holds the list of its events and its start event carries the size and the trigger of the
batch; nothing else tells it from the context of a start. An agent that reads its input only through
`events` therefore stages the same effects in both, and what the two callers commit is the same. A
failure is reported by both with one record and one trace; the batched path does not know the reason
of a tripped budget.

## Main definitions

* `Prog.ReadsEvents`: programs that read their input only through `events`.
* `ActivationContext.BatchOf`, `ActivationResult.asBatch`, `OutputAlike`.

## Main results

* `runActivation_asBatch`: the activation of a batch of one event.
-/

namespace BeamAgents

/-! ### Contexts of a batch -/

/-- The start event of a batch activation. -/
def TraceEvent.batched (size : ℕ) (trigger : String) (e : TraceEvent) : TraceEvent :=
  { e with attributes := e.attributes ++
      [("beam_agents.batch.size", toString size), ("beam_agents.batch.trigger", trigger)] }

/-- The traces of a batch activation: the start event comes first. -/
def batchedTraces (size : ℕ) (trigger : String) : List TraceEvent → List TraceEvent
  | [] => []
  | start :: rest => start.batched size trigger :: rest

/-- The context of a batch whose events are those of the other context: it differs in how the events
are held and in the start event. -/
structure ActivationContext.BatchOf (size : ℕ) (trigger : String) (ctx ctx' : ActivationContext) :
    Prop where
  events : ctx'.events = ctx.events
  length : ctx.events.length = size
  traces : ctx'.traces = batchedTraces size trigger ctx.traces
  started : ctx.traces ≠ []
  same : ctx' = { ctx with event := ctx'.event, traces := ctx'.traces }

/-- A program that reads its input only through `events`: it goes on in the same way in the context
of a batch of the same events. -/
inductive Prog.ReadsEvents {ρ : Type} : Prog ρ → Prop
  | ret (r : ρ) : ReadsEvents (.ret r)
  | raise (e : PyExn) : ReadsEvents (.raise e)
  | read (k : ActivationContext → Prog ρ)
      (hevents : ∀ size trigger ctx ctx', ActivationContext.BatchOf size trigger ctx ctx' →
        k ctx = k ctx')
      (hk : ∀ ctx, ReadsEvents (k ctx)) : ReadsEvents (.read k)
  | perform (op : CtxOp) (k : Except PyExn op.Ans → Prog ρ)
      (hk : ∀ answer, ReadsEvents (k answer)) : ReadsEvents (.perform op k)
  | await (a : Await) (k : Answer a.Ans → Prog ρ) (hk : ∀ answer, ReadsEvents (k answer)) :
      ReadsEvents (.await a k)

/-- An operation that neither reads nor changes the input, and only adds to the traces. -/
def Framed {α : Type} (f : ActivationContext → ActivationContext × α) : Prop :=
  ∀ ctx, (f ctx).1.isResume = ctx.isResume ∧ ∃ new, ∀ event traces,
    f { ctx with event := event, traces := traces } =
      ({ (f ctx).1 with event := event, traces := traces ++ new }, (f ctx).2)

section Framed

variable {py : PyLib} {cfg : ContextConfig}

open ActivationContext

/-- An operation that adds nothing to the traces. -/
theorem Framed.of_quiet {α : Type} {f : ActivationContext → ActivationContext × α}
    (hresume : ∀ ctx, (f ctx).1.isResume = ctx.isResume)
    (h : ∀ ctx event traces, f { ctx with event := event, traces := traces } =
      ({ (f ctx).1 with event := event, traces := traces }, (f ctx).2)) : Framed f :=
  fun ctx => ⟨hresume ctx, [], fun event traces => by rw [h, List.append_nil]⟩

/-- An operation that adds to the traces what it would stage on its own. -/
theorem Framed.of_staged {α : Type} {f : ActivationContext → ActivationContext × α}
    (hresume : ∀ ctx, (f ctx).1.isResume = ctx.isResume)
    (h : ∀ ctx event traces, f { ctx with event := event, traces := traces } =
      ({ (f ctx).1 with
        event := event, traces := traces ++ (f { ctx with traces := [] }).1.traces }, (f ctx).2)) :
    Framed f :=
  fun ctx => ⟨hresume ctx, _, h ctx⟩

/-- One operation after another. -/
theorem Framed.comp {α β : Type} {f : ActivationContext → ActivationContext × α}
    {g : α → ActivationContext → ActivationContext × β} (hf : Framed f) (hg : ∀ a, Framed (g a)) :
    Framed fun ctx => g (f ctx).2 (f ctx).1 := by
  intro ctx
  obtain ⟨hresume, new, hnew⟩ := hf ctx
  obtain ⟨hresume', new', hnew'⟩ := hg (f ctx).2 (f ctx).1
  refine ⟨hresume'.trans hresume, new ++ new', fun event traces => ?_⟩
  dsimp only
  rw [hnew, hnew', List.append_assoc]

theorem framed_charge (usage : Option TokenUsage) : Framed fun ctx => ctx.charge usage := by
  refine .of_quiet (fun ctx => ?_) fun ctx event traces => ?_
  · cases hb : ctx.budget <;> cases usage <;> simp [charge, hb, isResume]
  · cases hb : ctx.budget <;> cases usage <;> simp [charge, hb]

theorem framed_stageLlmTrace (step : ℕ) (cacheHit : Bool) (modelId : String)
    (usage : Option TokenUsage) :
    Framed fun ctx => (ctx.stageLlmTrace py step cacheHit modelId usage, ()) :=
  .of_staged (fun _ => rfl) fun _ _ _ => rfl

variable (py cfg) in
theorem framed_finishModel (step : ℕ) (cacheHit : Bool) (modelId : String) (response : Bytes) :
    Framed fun ctx => ctx.finishModel py cfg step cacheHit modelId response := by
  unfold finishModel
  cases decodedUsage cfg response with
  | error e => exact .of_quiet (fun _ => rfl) fun _ _ _ => rfl
  | ok usage =>
    exact (framed_stageLlmTrace step cacheHit modelId usage).comp fun _ => framed_charge usage

theorem framed_stageIntent (toolName argsJson : String) (kind : IntentKind) (ttlMs : Option Int) :
    Framed fun ctx => ((ctx.stageIntent py cfg toolName argsJson kind ttlMs).2,
      (ctx.stageIntent py cfg toolName argsJson kind ttlMs).1) :=
  .of_staged (fun _ => rfl) fun _ _ _ => rfl

/-- An operation on the answer of another one. -/
theorem Framed.map {α β : Type} {f : ActivationContext → ActivationContext × α} (hf : Framed f)
    (g : α → β) : Framed fun ctx => ((f ctx).1, g (f ctx).2) :=
  hf.comp fun a => .of_quiet (f := fun ctx => (ctx, g a)) (fun _ => rfl) fun _ _ _ => rfl

/-- The answer of an operation, unless it raised at its end. -/
private def unlessRaised {α : Type} (a : α) : Option PyExn → Except PyExn α
  | some e => .error e
  | none => .ok a

theorem framed_modelLeave (call : ModelCall) (response : Bytes) (elapsedNs : Int) :
    Framed fun ctx => ctx.modelLeave py cfg call response elapsedNs := by
  let put (ctx : ActivationContext) : ActivationContext := { ctx with
    replayCache := ctx.replayCache.put py call.cacheKey response
    tally := { ctx.tally with
      llmCalls := ctx.tally.llmCalls + 1
      llmMs := ctx.tally.llmMs ++ [elapsedNs / nsPerMs] } }
  have hput : Framed fun ctx => (put ctx, ()) := .of_quiet (fun _ => rfl) fun _ _ _ => rfl
  have hframed := hput.comp fun _ =>
    (framed_finishModel py cfg call.step false call.modelId response).map (unlessRaised response)
  convert hframed using 2 with ctx
  unfold modelLeave
  dsimp only
  split <;> (rename_i h; rw [h]; rfl)

theorem framed_modelEnter (request : LlmRequest) :
    Framed fun ctx => ctx.modelEnter py cfg request := by
  intro ctx
  unfold modelEnter
  dsimp only [advanceStep]
  cases ctx.budget.bind TokenBudget.check with
  | some e => exact ⟨rfl, [], fun _ _ => by rw [List.append_nil]⟩
  | none =>
    dsimp only
    cases computeCacheKey py request ctx.entityKey ctx.seq with
    | error e => exact ⟨rfl, [], fun _ _ => by rw [List.append_nil]⟩
    | ok cacheKey =>
      dsimp only
      cases (ctx.replayCache.get cacheKey).2.filter fun entry => !entry.digestOnly with
      | none => exact ⟨rfl, [], fun _ _ => by rw [List.append_nil]⟩
      | some entry =>
        obtain ⟨hresume, new, hnew⟩ :=
          framed_finishModel py cfg ctx.stepIndex true request.modelId entry.response
            { ctx with
              stepIndex := ctx.stepIndex + 1
              replayCache := (ctx.replayCache.get cacheKey).1 }
        dsimp only at hnew ⊢
        beta_reduce at hresume hnew
        refine ⟨?_, new, fun event traces => ?_⟩
        · generalize finishModel py cfg _ _ _ _ _ = r at hresume
          obtain ⟨ctx', _ | e⟩ := r <;> exact hresume
        · rw [hnew event traces]
          generalize finishModel py cfg _ _ _ _ _ = r
          obtain ⟨ctx', _ | e⟩ := r <;> rfl

/-- **No operation reads the input.** Whatever an operation of the agent is, it leaves the input
alone and only adds to the traces. -/
theorem framed_perform (op : CtxOp) : Framed (perform py cfg op) := by
  cases op with
  | act toolName argsJson ttlMs => exact (framed_stageIntent _ _ _ _).map _
  | requestApproval argsJson channel ttlMs => exact (framed_stageIntent _ _ _ _).map _
  | modelEnter request => exact framed_modelEnter request
  | modelLeave call response elapsedNs => exact framed_modelLeave call response elapsedNs
  | toolLeave toolName elapsedNs => exact .of_staged (fun _ => rfl) fun _ _ _ => rfl
  | stageTrace event => exact .of_staged (fun _ => rfl) fun _ _ _ => rfl
  | longtermSave key value =>
    refine .of_quiet (fun ctx => ?_) fun ctx event traces => ?_ <;>
      (simp only [perform, longtermSave]; split_ifs <;> rfl)
  | _ => exact .of_quiet (fun _ => rfl) fun _ _ _ => rfl

end Framed

/-! ### The activation of a batch of one event -/

/-- The batch attributes leave the kinds of the events as they are. -/
theorem map_eventType_batchedTraces (size : ℕ) (trigger : String) (traces : List TraceEvent) :
    (batchedTraces size trigger traces).map TraceEvent.eventType =
      traces.map TraceEvent.eventType := by
  cases traces <;> rfl

/-- Only the start event carries the batch attributes: what comes later is added to both. -/
theorem batchedTraces_append {size : ℕ} {trigger : String} {traces : List TraceEvent}
    (h : traces ≠ []) (new : List TraceEvent) :
    batchedTraces size trigger (traces ++ new) = batchedTraces size trigger traces ++ new := by
  cases traces with
  | nil => exact absurd rfl h
  | cons start rest => rfl

/-- The result of a batch activation: the start event is that of a batch. -/
def ActivationResult.asBatch (size : ℕ) (trigger : String) (r : ActivationResult) :
    ActivationResult :=
  { r with traces := batchedTraces size trigger r.traces }

section Batched

variable (py : PyLib) (schema : StateSchema) (cfg : ContextConfig) {size : ℕ} {trigger : String}
  {ctx ctx' : ActivationContext}

open ActivationContext

/-- The events depend on how the input is held, and on whether the activation is a resume. -/
private theorem events_congr (hevent : ctx'.event = ctx.event)
    (hresume : ctx'.isResume = ctx.isResume) : ctx'.events = ctx.events := by
  simp only [events, hevent, hresume]

/-- An operation that does not read the input keeps the two contexts alike, and answers both in the
same way. -/
theorem Framed.batchOf {α : Type} {f : ActivationContext → ActivationContext × α} (hf : Framed f)
    (h : BatchOf size trigger ctx ctx') :
    BatchOf size trigger (f ctx).1 (f ctx').1 ∧ (f ctx').2 = (f ctx).2 := by
  obtain ⟨hresume, new, hnew⟩ := hf ctx
  have hself : f ctx = ({ (f ctx).1 with
      event := ctx.event, traces := ctx.traces ++ new }, (f ctx).2) := hnew ctx.event ctx.traces
  have hother : f ctx' = ({ (f ctx).1 with
      event := ctx'.event, traces := ctx'.traces ++ new }, (f ctx).2) := by
    rw [← hnew ctx'.event ctx'.traces, ← h.same]
  have htraces : (f ctx).1.traces = ctx.traces ++ new := congrArg (fun r => r.1.traces) hself
  have hevents : (f ctx).1.events = ctx.events :=
    events_congr (congrArg (fun r => r.1.event) hself) hresume
  have hresume' : ctx'.isResume = ctx.isResume := by rw [h.same]; rfl
  rw [hother]
  refine ⟨⟨?_, (congrArg List.length hevents).trans h.length, ?_, ?_, rfl⟩, rfl⟩
  · rw [hevents, ← h.events]
    exact events_congr rfl (hresume.trans hresume'.symm)
  · rw [htraces, batchedTraces_append h.started, ← h.traces]
  · rw [htraces]
    exact List.append_ne_nil_of_left_ne_nil h.started new

theorem ActivationContext.BatchOf.stageTrace (h : BatchOf size trigger ctx ctx')
    (event : TraceEvent) :
    BatchOf size trigger (ctx.stageTrace py event) (ctx'.stageTrace py event) :=
  (Framed.batchOf (f := fun ctx => (ctx.stageTrace py event, ()))
    (.of_staged (fun _ => rfl) fun _ _ _ => rfl) h).1

/-- **A program that reads its input only through `events` runs alike on both.** It waits as often,
comes to the same outcome, and leaves contexts that are alike. -/
theorem Prog.ReadsEvents.run {ρ : Type} {p : Prog ρ} (hp : p.ReadsEvents) (answers : Answers)
    (awaits : ℕ) (h : BatchOf size trigger ctx ctx') :
    BatchOf size trigger (p.run py cfg answers awaits ctx).ctx
        (p.run py cfg answers awaits ctx').ctx ∧
      (p.run py cfg answers awaits ctx').awaits = (p.run py cfg answers awaits ctx).awaits ∧
      (p.run py cfg answers awaits ctx').outcome = (p.run py cfg answers awaits ctx).outcome := by
  induction hp generalizing awaits ctx ctx' with
  | ret r => exact ⟨h, rfl, rfl⟩
  | raise e => exact ⟨h, rfl, rfl⟩
  | read k hevents hk ih =>
    have hsame : (Prog.read k).run py cfg answers awaits ctx' =
        (k ctx).run py cfg answers awaits ctx' := by
      rw [hevents size trigger ctx ctx' h]
      rfl
    rw [hsame]
    exact ih ctx awaits h
  | perform op k hk ih =>
    have hop : Framed (ActivationContext.perform py cfg op) := framed_perform op
    obtain ⟨hctx, hanswer⟩ := hop.batchOf h
    simp only [Prog.run, hanswer]
    exact ih _ awaits hctx
  | await a k hk ih => exact ih (answers awaits a) (awaits + 1) h

/-- A failure in the one context is reported at the position of the other. -/
theorem ActivationContext.BatchOf.wrapFailure (h : BatchOf size trigger ctx ctx') (e : PyExn) :
    wrapFailure ctx' e = BeamAgents.wrapFailure ctx e := by
  have hlast : ctx'.traces.getLast?.map TraceEvent.eventType =
      ctx.traces.getLast?.map TraceEvent.eventType := by
    rw [← List.getLast?_map, ← List.getLast?_map, h.traces, map_eventType_batchedTraces]
  have hname : (ctx'.traces.getLast?.map fun t => t.eventType.name) =
      ctx.traces.getLast?.map fun t => t.eventType.name := by
    have hnames := congrArg (Option.map EventType.name) hlast
    rw [Option.map_map, Option.map_map] at hnames
    exact hnames
  rw [BeamAgents.wrapFailure, BeamAgents.wrapFailure, hname, h.same]

theorem finishActivation_batchOf (w : World) (h : BatchOf size trigger ctx ctx')
    (status : ActivationStatus) (outputs : List Bytes) (continuation : Option Continuation) :
    finishActivation py schema w ctx' status outputs continuation =
      (finishActivation py schema w ctx status outputs continuation).map
        (ActivationResult.asBatch size trigger) := by
  have hupserts : ctx'.stagedUpserts = ctx.stagedUpserts := by rw [h.same]; rfl
  unfold finishActivation
  rw [hupserts]
  cases flushLongterm py w.saveRaises 0 ctx.stagedUpserts with
  | some e => exact congrArg Except.error (h.wrapFailure e)
  | none =>
    refine congrArg Except.ok ?_
    rw [ActivationResult.asBatch, ← h.traces, h.same]
    rfl

theorem foldOutcome_batchOf (defaultHitlTimeoutMs : Int) (w : World)
    (h : BatchOf size trigger ctx ctx') (outcome : Outcome) :
    foldOutcome py schema defaultHitlTimeoutMs w ctx' outcome =
      (foldOutcome py schema defaultHitlTimeoutMs w ctx outcome).map
        (ActivationResult.asBatch size trigger) := by
  have hcontinuation : ctx'.buildContinuation schema = ctx.buildContinuation schema := by
    rw [h.same]
    rfl
  cases outcome with
  | other repr => exact congrArg Except.error (h.wrapFailure _)
  | complete output =>
    have hfields : ctx'.trace = ctx.trace ∧ ctx'.stepIndex = ctx.stepIndex := by
      rw [h.same]
      exact ⟨rfl, rfl⟩
    simp only [foldOutcome, hfields.1, hfields.2]
    exact finishActivation_batchOf py schema w (h.stageTrace py _) _ _ _
  | suspend snapshot adapter timeoutMs =>
    have hfields : ctx'.trace = ctx.trace ∧ ctx'.stepIndex = ctx.stepIndex ∧
        ctx'.nowMs = ctx.nowMs ∧ ctx'.intents = ctx.intents := by
      rw [h.same]
      exact ⟨rfl, rfl, rfl, rfl⟩
    obtain ⟨htrace, hstep, hnow, hintents⟩ := hfields
    have hstaged (c : ActivationContext) (event : TraceEvent) :
        (c.stageTrace py event).trace = c.trace ∧ (c.stageTrace py event).stepIndex = c.stepIndex :=
      ⟨rfl, rfl⟩
    simp only [foldOutcome, hstaged, htrace, hstep, hnow, hintents, hcontinuation]
    exact finishActivation_batchOf py schema w ((h.stageTrace py _).stageTrace py _) _ _ _

/-- The two contexts after the agent, and after the summarizer when memory has grown. -/
theorem runSummarizer_batchOf (summarizer : Option Summarizer)
    (hsummarizer : ∀ s ∈ summarizer, s.compact.ReadsEvents) (answers : Answers)
    {e e' : ProgEnd Outcome} (h : BatchOf size trigger e.ctx e'.ctx)
    (hawaits : e'.awaits = e.awaits) :
    BatchOf size trigger (runSummarizer py cfg summarizer answers e).1
        (runSummarizer py cfg summarizer answers e').1 ∧
      (runSummarizer py cfg summarizer answers e').2 =
        (runSummarizer py cfg summarizer answers e).2 := by
  have htotal : e'.ctx.memory.total = e.ctx.memory.total := by rw [h.same]
  unfold runSummarizer
  cases summarizer with
  | none => exact ⟨h, rfl⟩
  | some s =>
    dsimp only
    rw [htotal, hawaits]
    split_ifs
    · obtain ⟨hctx, -, houtcome⟩ :=
        (hsummarizer s rfl).run py cfg answers e.awaits h
      exact ⟨hctx, houtcome⟩
    · exact ⟨h, rfl⟩

variable (trigger) in
/-- **The activation of a batch of one event is the activation of the event.** For an agent and a
summarizer that read the input only through `events`, it comes to the same result up to the two
attributes of the start event, and to the same failure. -/
theorem runActivation_asBatch {agent : Agent} (hagent : agent.ReadsEvents)
    (summarizer : Option Summarizer) (hsummarizer : ∀ s ∈ summarizer, s.compact.ReadsEvents)
    (defaultHitlTimeoutMs : Int) (w : World) (input : ActivationInput) {event : Bytes}
    (hevent : input.event = .inl event) (hresult : input.resumeResult = none)
    (happroval : input.resumeApproval = none) :
    runActivation py schema cfg agent summarizer defaultHitlTimeoutMs w
        { input with event := .inr [event], batchTrigger := trigger } =
      (runActivation py schema cfg agent summarizer defaultHitlTimeoutMs w input).map
        (ActivationResult.asBatch 1 trigger) := by
  obtain ⟨ctx, hnew, hbatch, hheld, hfresh, htraces⟩ : ∃ ctx,
      ActivationContext.new py cfg input = .ok ctx ∧
      ActivationContext.new py cfg { input with event := .inr [event], batchTrigger := trigger } =
        .ok { ctx with event := .inr [event] } ∧
      ctx.event = .inl event ∧ ctx.isResume = false ∧ ctx.traces = [] := by
    refine ⟨_, if_neg (by simp [hevent]), if_neg (by simp), hevent, ?_, rfl⟩
    simp [isResume, hresult, happroval]
  have hevents : ctx.events = [event] := by simp [events, hheld, hfresh]
  have hbegun : BatchOf 1 trigger (ctx.stageTrace py (startEvent py ctx input.batchTrigger))
      (({ ctx with event := .inr [event] } : ActivationContext).stageTrace py
        (startEvent py { ctx with event := .inr [event] } trigger)) := by
    have hstart : startEvent py ctx input.batchTrigger = ctx.trace.activationStart py := by
      simp [startEvent, isBatch, hheld]
    refine ⟨hevents.symm, congrArg List.length hevents, ?_, by simp [ActivationContext.stageTrace],
      rfl⟩
    rw [hstart]
    simp only [ActivationContext.stageTrace, htraces]
    rfl
  obtain ⟨hctx, hawaits, houtcome⟩ := hagent.run py cfg w.answers 0 hbegun
  obtain ⟨hctx', hanswer⟩ :=
    runSummarizer_batchOf py cfg summarizer hsummarizer w.answers hctx hawaits
  unfold runActivation
  simp only [hnew, hbatch, houtcome]
  cases (agent.run py cfg w.answers 0
      (ctx.stageTrace py (startEvent py ctx input.batchTrigger))).outcome with
  | error e => exact congrArg Except.error (hctx.wrapFailure e)
  | ok outcome =>
    dsimp only
    generalize runSummarizer py cfg summarizer w.answers _ = r at hctx' hanswer ⊢
    generalize runSummarizer py cfg summarizer w.answers _ = r' at hctx' hanswer ⊢
    obtain ⟨end₁, answer⟩ := r
    obtain ⟨end₂, answer'⟩ := r'
    obtain rfl : answer' = answer := hanswer
    cases answer' with
    | error e => exact congrArg Except.error (hctx'.wrapFailure e)
    | ok u => exact foldOutcome_batchOf py schema defaultHitlTimeoutMs w hctx' outcome

end Batched

end BeamAgents
