import BeamAgents.Core.TraceIdentity

/-!
# The spans that trace events hang under

The trace surface of an attempt names the attempt's span by the step that it entered at, puts the
attempt under the span of the initial one, entered at step zero, and everything else that the
attempt stages under the attempt. The intent of an escalation is staged outside of any attempt. Its
trace surface takes the cursor of the stored continuation for the entry step, and the cursor has
moved on when the suspended attempt took a step, or when an escalation went before: no attempt has
entered there.

## Main definitions

* `Prog.Uncorrelated`: a program whose events leave their place to the trace surface.
* `ActivationTrace.Places`: where the trace surface of an attempt puts an event.
* `Parented`: an event hangs under a span that was emitted in its trace.
* `AgentDoFn.EscalatesEntered`: the condition on a step.

## Main results

* `AgentDoFn.activate_places`: where the events of a result are.
* `AgentDoFn.run_parented`: where the events of a run are.
-/

namespace BeamAgents

open Transition

/-! ### Events that the trace surface places -/

/-- The producer left the fields of correlation empty. -/
def TraceEvent.Uncorrelated (event : TraceEvent) : Prop :=
  event.traceId = [] ∧ event.spanId = [] ∧ event.parentSpanId = []

/-- The operation stages no event whose place the program chose itself. -/
def CtxOp.Uncorrelated : CtxOp → Prop
  | .stageTrace event => event.Uncorrelated
  | _ => True

/-- A program that leaves the place of every event it stages to the trace surface. -/
def Prog.Uncorrelated {ρ : Type} : Prog ρ → Prop
  | .ret _ | .raise _ => True
  | .read k => ∀ ctx, (k ctx).Uncorrelated
  | .perform op k => op.Uncorrelated ∧ ∀ answer, (k answer).Uncorrelated
  | .await _ k => ∀ answer, (k answer).Uncorrelated

/-- An orderly program stages no event by hand. -/
theorem Prog.Orderly.uncorrelated {ρ : Type} {p : Prog ρ} {entered : List ModelCall}
    (h : p.Orderly entered) : p.Uncorrelated := by
  induction p generalizing entered with
  | ret r => trivial
  | raise e => trivial
  | read k ih => exact fun ctx => ih ctx (h ctx)
  | perform op k ih =>
    refine ⟨?_, fun answer => ih answer (h.2 answer)⟩
    cases op with
    | stageTrace event => exact h.1.elim
    | _ => trivial
  | await a k ih => exact fun answer => ih answer (h answer)

/-- Where the trace surface of an attempt puts an event: the two ends of the attempt on its span and
under its parent, everything else under its span. -/
structure ActivationTrace.Places (t : ActivationTrace) (py : PyLib) (event : TraceEvent) :
    Prop where
  traceId : event.traceId = t.traceId py
  ends : roleForEventType event.eventType = roleActivation →
    event.spanId = t.spanId ∧ event.parentSpanId = t.parentSpanId
  children : roleForEventType event.eventType ≠ roleActivation → event.parentSpanId = t.spanId

section Places

variable {py : PyLib} {t : ActivationTrace} {event : TraceEvent}

/-- A trace surface places the events that it stamps. -/
theorem ActivationTrace.places_stamp (h : event.Uncorrelated) : t.Places py (t.stamp py event) := by
  obtain ⟨htrace, hspan, hparent⟩ := h
  refine ⟨?_, fun hrole => ?_, fun hrole => ?_⟩
  · simp only [stamp, htrace, if_true]
  · have hrole' : roleForEventType event.eventType = roleActivation := hrole
    simp only [stamp, hspan, hparent, if_true, Option.getD_none, hrole', and_self]
  · have hrole' : roleForEventType event.eventType ≠ roleActivation := hrole
    simp only [stamp, hparent, if_true, Option.getD_none, if_neg hrole']

/-- The events that the trace surface makes are placed. -/
theorem ActivationTrace.places_event (eventType : EventType) (stepIndex : ℕ)
    (attributes : List (String × String)) :
    t.Places py (t.event py eventType stepIndex attributes) :=
  places_stamp ⟨rfl, rfl, rfl⟩

/-- Staging an event of the trace surface stamps it again, which changes nothing. -/
theorem ActivationTrace.places_staged (eventType : EventType) (stepIndex : ℕ)
    (attributes : List (String × String)) :
    t.Places py (t.stamp py (t.event py eventType stepIndex attributes)) := by
  rw [event, stamp_stamp]
  exact places_event ..

theorem tool_ne_activation : roleForEventType .toolCall ≠ roleActivation := by decide

/-- The span of an inline tool is named anew; the event stays where it is. -/
theorem ActivationTrace.places_toolCall (stepIndex toolIndex : ℕ) (toolName : String) :
    t.Places py (t.toolCall py stepIndex toolIndex toolName) := by
  have hplaced : t.Places py
      (t.event py .toolCall stepIndex [("beam_agents.tool_name", toolName)]) :=
    t.places_event ..
  exact ⟨hplaced.traceId, fun hrole => absurd hrole tool_ne_activation, hplaced.children⟩

end Places

/-! ### What one attempt stages -/

namespace ActivationContext

variable {py : PyLib} {cfg : ContextConfig} {ctx ctx' ctx'' : ActivationContext}

/-- A later context of the same attempt; what was staged in between is where the trace surface puts
it. -/
structure StagesPlaced (py : PyLib) (ctx ctx' : ActivationContext) : Prop where
  trace : ctx'.trace = ctx.trace
  traces : ∃ new, ctx'.traces = ctx.traces ++ new ∧ ∀ event ∈ new, ctx.trace.Places py event

theorem StagesPlaced.quiet (htrace : ctx'.trace = ctx.trace) (htraces : ctx'.traces = ctx.traces) :
    StagesPlaced py ctx ctx' :=
  ⟨htrace, [], by rw [htraces, List.append_nil], by simp⟩

theorem StagesPlaced.refl (ctx : ActivationContext) : StagesPlaced py ctx ctx := .quiet rfl rfl

theorem StagesPlaced.one {event : TraceEvent} (htrace : ctx'.trace = ctx.trace)
    (htraces : ctx'.traces = ctx.traces ++ [event]) (hplaced : ctx.trace.Places py event) :
    StagesPlaced py ctx ctx' :=
  ⟨htrace, [event], htraces, List.forall_mem_singleton.mpr hplaced⟩

theorem StagesPlaced.trans (h : StagesPlaced py ctx ctx') (h' : StagesPlaced py ctx' ctx'') :
    StagesPlaced py ctx ctx'' := by
  obtain ⟨new, hnew, hplaced⟩ := h.traces
  obtain ⟨new', hnew', hplaced'⟩ := h'.traces
  rw [h.trace] at hplaced'
  refine ⟨h'.trace.trans h.trace, new ++ new', by rw [hnew', hnew, List.append_assoc], ?_⟩
  exact List.forall_mem_append.mpr ⟨hplaced, hplaced'⟩

theorem stageTrace_placed {event : TraceEvent} (h : event.Uncorrelated) :
    StagesPlaced py ctx (ctx.stageTrace py event) :=
  .one rfl rfl (ActivationTrace.places_stamp h)

theorem charge_placed (usage : Option TokenUsage) : StagesPlaced py ctx (ctx.charge usage).1 := by
  unfold charge
  split <;> exact .quiet rfl rfl

theorem finishModel_placed (cfg : ContextConfig) (step : ℕ) (cacheHit : Bool) (modelId : String)
    (response : Bytes) :
    StagesPlaced py ctx (ctx.finishModel py cfg step cacheHit modelId response).1 := by
  unfold finishModel
  split
  · exact .refl ctx
  · have hstaged (usage : Option TokenUsage) :
        StagesPlaced py ctx (ctx.stageLlmTrace py step cacheHit modelId usage) :=
      stageTrace_placed ⟨rfl, rfl, rfl⟩
    exact (hstaged _).trans (charge_placed _)

theorem modelEnter_placed (request : LlmRequest) :
    StagesPlaced py ctx (ctx.modelEnter py cfg request).1 := by
  unfold modelEnter
  split
  · exact .refl ctx
  · dsimp only
    split
    · exact .quiet rfl rfl
    · rename_i cacheKey hkey
      have hlookup : StagesPlaced py ctx
          { ctx.advanceStep.2 with replayCache := (ctx.replayCache.get cacheKey).1 } :=
        .quiet rfl rfl
      split
      · exact hlookup
      · rename_i entry hentry
        have hfinish := hlookup.trans
          (finishModel_placed cfg ctx.stepIndex true request.modelId entry.response)
        split
        · rename_i c e heq
          exact (congrArg Prod.fst heq) ▸ hfinish
        · rename_i c heq
          exact (congrArg Prod.fst heq) ▸ hfinish

theorem modelLeave_placed (call : ModelCall) (response : Bytes) (elapsedNs : Int) :
    StagesPlaced py ctx (ctx.modelLeave py cfg call response elapsedNs).1 := by
  unfold modelLeave
  dsimp only
  have hput : StagesPlaced py ctx { ctx with
      replayCache := ctx.replayCache.put py call.cacheKey response
      tally := { ctx.tally with
        llmCalls := ctx.tally.llmCalls + 1
        llmMs := ctx.tally.llmMs ++ [elapsedNs / nsPerMs] } } :=
    .quiet rfl rfl
  have hfinish := hput.trans
    (finishModel_placed cfg call.step false call.modelId response)
  split
  · rename_i c e heq
    exact (congrArg Prod.fst heq) ▸ hfinish
  · rename_i c heq
    exact (congrArg Prod.fst heq) ▸ hfinish

/-- Whatever an operation answers, what it stages is placed. -/
theorem perform_placed {op : CtxOp} (h : op.Uncorrelated) (ctx : ActivationContext) :
    StagesPlaced py ctx (perform py cfg op ctx).1 := by
  cases op with
  | act toolName argsJson ttlMs => exact .one rfl rfl (ActivationTrace.places_event ..)
  | requestApproval argsJson channel ttlMs =>
    exact .one rfl rfl (ActivationTrace.places_event ..)
  | modelEnter request => exact modelEnter_placed request
  | modelLeave call response elapsedNs => exact modelLeave_placed call response elapsedNs
  | toolLeave toolName elapsedNs => exact .one rfl rfl (ActivationTrace.places_toolCall ..)
  | stageTrace event => exact stageTrace_placed h
  | longtermSave key value =>
    simp only [perform, longtermSave]
    split_ifs <;> exact .quiet rfl rfl
  | _ => exact .quiet rfl rfl

end ActivationContext

/-- Whatever a program does that leaves the place of its events to the trace surface, what it stages
is placed. -/
theorem Prog.run_placed {py : PyLib} (cfg : ContextConfig) {ρ : Type} (answers : Answers)
    {p : Prog ρ} (hp : p.Uncorrelated) (awaits : ℕ) (ctx : ActivationContext) :
    ctx.StagesPlaced py (p.run py cfg answers awaits ctx).ctx := by
  induction p generalizing awaits ctx with
  | ret r => exact .refl ctx
  | raise e => exact .refl ctx
  | read k ih => exact ih ctx (hp ctx) awaits ctx
  | perform op k ih =>
    exact (ActivationContext.perform_placed hp.1 ctx).trans (ih _ (hp.2 _) awaits _)
  | await a k ih => exact ih _ (hp _) (awaits + 1) ctx

/-! ### Where the events of a result are -/

/-- Whether the activation goes on with a suspended one. -/
def ActivationInput.isResume (input : ActivationInput) : Bool :=
  input.resumeResult.isSome || input.resumeApproval.isSome

/-- The trace surface of the attempt with this input. -/
def ActivationInput.trace (py : PyLib) (input : ActivationInput) : ActivationTrace :=
  ActivationTrace.new py input.entityKey input.seq input.nowMs input.stepIndex input.isResume

section Result

variable {py : PyLib} {cfg : ContextConfig} {input : ActivationInput}
  {ctx : ActivationContext}

/-- The events of an attempt are where its trace surface puts them, and the first is that of its
start. -/
structure PlacedEvents (py : PyLib) (input : ActivationInput) (events : List TraceEvent) :
    Prop where
  placed : ∀ event ∈ events, (input.trace py).Places py event
  started : ∃ start ∈ events, start.eventType = .activationStart

/-- What is staged later on is placed as well. -/
theorem PlacedEvents.append {events new : List TraceEvent} (h : PlacedEvents py input events)
    (hnew : ∀ event ∈ new, (input.trace py).Places py event) :
    PlacedEvents py input (events ++ new) := by
  obtain ⟨start, hstart, htype⟩ := h.started
  exact ⟨List.forall_mem_append.mpr ⟨h.placed, hnew⟩, start, List.mem_append_left _ hstart, htype⟩

theorem PlacedEvents.later {ctx' : ActivationContext} (h : PlacedEvents py input ctx.traces)
    (htrace : ctx.trace = input.trace py) (hstaged : ctx.StagesPlaced py ctx') :
    PlacedEvents py input ctx'.traces ∧ ctx'.trace = input.trace py := by
  obtain ⟨new, hnew, hplaced⟩ := hstaged.traces
  rw [htrace] at hplaced
  exact ⟨hnew ▸ h.append hplaced, hstaged.trace.trans htrace⟩

theorem PlacedEvents.stage (h : PlacedEvents py input ctx.traces)
    (htrace : ctx.trace = input.trace py) (eventType : EventType) (stepIndex : ℕ)
    (attributes : List (String × String)) :
    PlacedEvents py input
        (ctx.stageTrace py (ctx.trace.event py eventType stepIndex attributes)).traces ∧
      (ctx.stageTrace py (ctx.trace.event py eventType stepIndex attributes)).trace =
        input.trace py :=
  h.later htrace (.one rfl rfl (ActivationTrace.places_staged ..))

/-- The first event of an attempt, that of its start. -/
theorem placed_start (batchTrigger : String) (hnew : ActivationContext.new py cfg input = .ok ctx) :
    PlacedEvents py input (ctx.stageTrace py (startEvent py ctx batchTrigger)).traces ∧
      (ctx.stageTrace py (startEvent py ctx batchTrigger)).trace = input.trace py := by
  have htrace : ctx.trace = input.trace py := by
    unfold ActivationContext.new at hnew
    split_ifs at hnew
    cases hnew
    rfl
  have htraces := (new_begun hnew).traces
  obtain ⟨attributes, hevent⟩ := startEvent_eq py ctx batchTrigger
  have hplaced : ctx.trace.Places py (ctx.trace.stamp py (startEvent py ctx batchTrigger)) := by
    rw [hevent, ActivationTrace.stamp_stamp]
    exact ActivationTrace.places_stamp ⟨rfl, rfl, rfl⟩
  refine ⟨⟨?_, ?_⟩, htrace⟩
  · simp only [ActivationContext.stageTrace, htraces, List.nil_append, List.forall_mem_singleton]
    exact htrace ▸ hplaced
  · simp only [ActivationContext.stageTrace, htraces, List.nil_append, List.mem_singleton,
      exists_eq_left]
    rw [hevent]
    rfl

/-- Folding an outcome stages the suspension and the end of the attempt. -/
theorem foldOutcome_placed {schema : StateSchema} {defaultHitlTimeoutMs : Int} {w : World}
    {outcome : Outcome} {result : ActivationResult} (h : PlacedEvents py input ctx.traces)
    (htrace : ctx.trace = input.trace py)
    (hfold : foldOutcome py schema defaultHitlTimeoutMs w ctx outcome = .ok result) :
    PlacedEvents py input result.traces := by
  cases outcome with
  | other repr => cases hfold
  | complete output =>
    rw [(finishActivation_traces hfold).1]
    exact (h.stage htrace ..).1
  | suspend snapshot adapter timeoutMs =>
    rw [(finishActivation_traces hfold).1]
    have hsuspended := h.stage htrace
    exact ((hsuspended ..).1.stage (hsuspended ..).2 ..).1

end Result

namespace AgentDoFn

variable {d : AgentDoFn} {py : PyLib} {w : World} {input : ActivationInput}

/-- The agent and the summarizer leave the place of their events to the trace surface. -/
structure Uncorrelated (d : AgentDoFn) : Prop where
  agent : d.agent.Uncorrelated
  summarizer : ∀ summarizer ∈ d.summarizer, summarizer.compact.Uncorrelated

theorem Orderly.uncorrelated (h : d.Orderly) : d.Uncorrelated :=
  ⟨h.agent.uncorrelated, fun summarizer hsome => (h.summarizer summarizer hsome).uncorrelated⟩

theorem runSummarizer_placed (h : d.Uncorrelated) (cfg : ContextConfig) (answers : Answers)
    (e : ProgEnd Outcome) :
    e.ctx.StagesPlaced py (runSummarizer py cfg d.summarizer answers e).1 := by
  unfold runSummarizer
  split
  · exact .refl e.ctx
  · rename_i summarizer hsome
    split_ifs
    · exact Prog.run_placed cfg answers (h.summarizer summarizer hsome) e.awaits e.ctx
    · exact .refl e.ctx

/-- **The events of a result are where the trace surface of its attempt puts them.** -/
theorem activate_places (h : d.Uncorrelated) {result : ActivationResult}
    (hresult : d.activate py w input = .ok result) : PlacedEvents py input result.traces := by
  obtain ⟨-, ctx, outcome, htail, hfold⟩ := activate_fold hresult
  obtain ⟨begun, hnew, hctx⟩ := commitTail_eq htail
  obtain ⟨hstart, htrace⟩ := placed_start input.batchTrigger hnew
  obtain ⟨hagent, htrace⟩ := hstart.later htrace
    (Prog.run_placed d.contextConfig w.answers h.agent 0 _)
  obtain ⟨hsummary, htrace⟩ := hagent.later htrace
    (runSummarizer_placed h d.contextConfig w.answers _)
  rw [hctx] at hsummary htrace
  exact foldOutcome_placed hsummary htrace hfold

/-! ### The attempt that a call commits -/

section Attempt

variable {key : Bytes} {s : KeyState} {c : KeyCall}

theorem withBlobs_isResume {resumes : Bool}
    {f : Option MemoryBlob → Option LlmCacheBlob → ActivationInput}
    (h : d.withBlobs s f = some input)
    (hf : ∀ memoryBlob cacheBlob, (f memoryBlob cacheBlob).isResume = resumes) :
    input.isResume = resumes := by
  obtain ⟨memoryBlob, cacheBlob, rfl⟩ := withBlobs_eq h
  exact hf memoryBlob cacheBlob

theorem flushAttempt_isResume {trigger : String} (h : d.flushAttempt key trigger s = some input) :
    input.isResume = false := by
  unfold flushAttempt at h
  split at h
  · cases h
  · exact withBlobs_isResume h fun _ _ => rfl

theorem bufferAttempt_isResume {settings : BatchSettings} {envelope : AgentEnvelope}
    (h : d.bufferAttempt key settings envelope s w = some input) : input.isResume = false := by
  unfold bufferAttempt at h
  split_ifs at h
  dsimp only at h
  split at h
  · cases h
  split_ifs at h
  exact flushAttempt_isResume h

theorem resumeAttempt_isResume {now : Int} {intentId : String} {resumeResult : Option ToolResult}
    {approval : Option Approval} (hanswer : (resumeResult.isSome || approval.isSome) = true)
    (h : d.resumeAttempt key now intentId resumeResult approval s = some input) :
    input.isResume = true := by
  unfold resumeAttempt at h
  split at h
  · cases h
  · cases h
  split at h
  · cases h
  · exact withBlobs_isResume h fun _ _ => hanswer

/-- The activation of a call goes on with a suspended one exactly when the call answers an intent.
-/
theorem attempt_isResume (h : d.attempt key s c = some (w, input)) :
    input.isResume = c.answers.isSome := by
  cases c with
  | onTtl micros w => cases h
  | onHitl micros w => cases h
  | onFlush w =>
    simp only [attempt] at h
    split_ifs at h
    split at h
    · cases h
    split_ifs at h
    obtain ⟨input', hinput, heq⟩ := Option.map_eq_some_iff.mp h
    cases heq
    exact flushAttempt_isResume hinput
  | process envelope w =>
    simp only [attempt] at h
    split at h
    · cases h
    · rename_i result hp
      obtain ⟨input', hinput, heq⟩ := Option.map_eq_some_iff.mp h
      cases heq
      rw [resumeAttempt_isResume rfl hinput]
      simp [KeyCall.answers, AgentEnvelope.answers, hp]
    · rename_i approval hp
      obtain ⟨input', hinput, heq⟩ := Option.map_eq_some_iff.mp h
      cases heq
      rw [resumeAttempt_isResume rfl hinput]
      simp [KeyCall.answers, AgentEnvelope.answers, hp]
    all_goals
      rename_i hp
      have hanswers : (KeyCall.process envelope w).answers.isSome = false := by
        simp [KeyCall.answers, AgentEnvelope.answers, hp]
      rw [hanswers]
      split at h
      · obtain ⟨input', hinput, heq⟩ := Option.map_eq_some_iff.mp h
        cases heq
        exact bufferAttempt_isResume hinput
      · obtain ⟨input', hinput, heq⟩ := Option.map_eq_some_iff.mp h
        cases heq
        exact withBlobs_isResume hinput fun _ _ => rfl

variable (d py key) in
/-- The attempt that a call commits: its `seq`, and the step that it entered at. -/
def entered (s : KeyState) (c : KeyCall) : List (ℕ × ℕ) :=
  match d.attempt key s c with
  | none => []
  | some (w, input) =>
    match d.activate py w input with
    | .error _ => []
    | .ok _ => [(input.seq, input.stepIndex)]

variable (d key) in
/-- A due fire that escalates finds the cursor of the suspension at a step that an attempt of it
entered at: the attempt that suspended took no step, and was not escalated before. -/
def EscalatesEntered (x : KeyState × List (ℕ × ℕ)) : KeyCall → Prop
  | .onHitl micros _ => ∀ cont ∈ x.1.continuation, cont.deadlineMs ≤ firedAtMs micros →
      (d.routeTimeout key cont (firedAtMs micros)).1.ends = false →
      (cont.seq, cont.stepIndex) ∈ x.2
  | _ => True

end Attempt

end AgentDoFn

/-! ### Where the events of a run are -/

/-- The event is that of the start of an attempt under `seq` that entered at `entry`. -/
structure StartAt (py : PyLib) (key : Bytes) (seq entry : ℕ) (event : TraceEvent) : Prop where
  eventType : event.eventType = .activationStart
  traceId : event.traceId = traceIdFor py key seq
  spanId : event.spanId = spanIdFor py key seq roleActivation entry

/-- Where an event is among those emitted: it is one of the ends of an initial attempt, which has no
parent; or one of the ends of a resumed attempt, under the span of the initial one; or it is under
the span of an attempt. -/
inductive Parented (py : PyLib) (key : Bytes) (emitted : List TraceEvent) (event : TraceEvent) :
    Prop
  | root {seq} (hrole : roleForEventType event.eventType = roleActivation)
      (htrace : event.traceId = traceIdFor py key seq)
      (hspan : event.spanId = spanIdFor py key seq roleActivation 0)
      (hparent : event.parentSpanId = [])
  | resumed {start} (hrole : roleForEventType event.eventType = roleActivation)
      (hstart : start ∈ emitted) (htype : start.eventType = .activationStart)
      (htrace : start.traceId = event.traceId) (hspan : start.spanId = event.parentSpanId)
      (hroot : start.parentSpanId = [])
  | child {start} (hrole : roleForEventType event.eventType ≠ roleActivation)
      (hstart : start ∈ emitted) (htype : start.eventType = .activationStart)
      (htrace : start.traceId = event.traceId) (hspan : start.spanId = event.parentSpanId)

/-- The start of an initial attempt under `seq` was emitted. -/
def RootEmitted (py : PyLib) (key : Bytes) (seq : ℕ) (emitted : List TraceEvent) : Prop :=
  ∃ start ∈ emitted, StartAt py key seq 0 start ∧ start.parentSpanId = []

section Run

variable {py : PyLib} {key : Bytes} {emitted events : List TraceEvent} {event : TraceEvent}
  {input : ActivationInput} {seq entry : ℕ}

theorem Parented.mono (h : Parented py key emitted event) :
    Parented py key (emitted ++ events) event := by
  cases h with
  | root hrole htrace hspan hparent => exact .root hrole htrace hspan hparent
  | resumed hrole hstart htype htrace hspan hroot =>
    exact .resumed hrole (List.mem_append_left _ hstart) htype htrace hspan hroot
  | child hrole hstart htype htrace hspan =>
    exact .child hrole (List.mem_append_left _ hstart) htype htrace hspan

theorem RootEmitted.mono (h : RootEmitted py key seq emitted) :
    RootEmitted py key seq (emitted ++ events) := by
  obtain ⟨start, hstart, hroot⟩ := h
  exact ⟨start, List.mem_append_left _ hstart, hroot⟩

/-- The start of the attempt is among its events. -/
theorem PlacedEvents.start (h : PlacedEvents py input events) (hkey : input.entityKey = key) :
    ∃ start ∈ events, StartAt py key input.seq input.stepIndex start ∧
      start.parentSpanId = (input.trace py).parentSpanId := by
  obtain ⟨start, hstart, htype⟩ := h.started
  have hplaced := h.placed start hstart
  obtain ⟨hspan, hparent⟩ := hplaced.ends (by rw [htype]; rfl)
  subst hkey
  exact ⟨start, hstart, ⟨htype, hplaced.traceId, hspan⟩, hparent⟩

/-- After the commit of an attempt, the initial attempt under its `seq` was emitted: it is the one
committed, or that of the continuation resumed. -/
theorem PlacedEvents.root (h : PlacedEvents py input events) (hkey : input.entityKey = key)
    (hroot : input.isResume = false ∧ input.stepIndex = 0 ∨
      input.isResume = true ∧ RootEmitted py key input.seq emitted) :
    RootEmitted py key input.seq (emitted ++ events) := by
  rcases hroot with ⟨hfresh, hstep⟩ | ⟨-, hroot⟩
  · obtain ⟨start, hstart, hat, hparent⟩ := h.start hkey
    refine ⟨start, List.mem_append_right _ hstart, hstep ▸ hat, ?_⟩
    rw [hparent, ActivationInput.trace, ActivationTrace.new, hfresh]
    rfl
  · exact hroot.mono

/-- The events of an attempt are parented once it is committed. -/
theorem PlacedEvents.parented (h : PlacedEvents py input events) (hkey : input.entityKey = key)
    (hroot : input.isResume = false ∧ input.stepIndex = 0 ∨
      input.isResume = true ∧ RootEmitted py key input.seq emitted) :
    ∀ event ∈ events, Parented py key (emitted ++ events) event := by
  intro event hevent
  have hplaced := h.placed event hevent
  have htrace : event.traceId = traceIdFor py key input.seq := hkey ▸ hplaced.traceId
  by_cases hrole : roleForEventType event.eventType = roleActivation
  · obtain ⟨hspan, hparent⟩ := hplaced.ends hrole
    rcases hroot with ⟨hfresh, hstep⟩ | ⟨hresume, start, hstart, hat, hroot⟩
    · refine .root hrole htrace ?_ ?_
      · rw [hspan, ← hkey, ← hstep]
        rfl
      · rw [hparent, ActivationInput.trace, ActivationTrace.new, hfresh]
        rfl
    · refine .resumed hrole (List.mem_append_left _ hstart) hat.eventType
        (hat.traceId.trans htrace.symm) ?_ hroot
      rw [hat.spanId, hparent, ActivationInput.trace, ActivationTrace.new, hresume, ← hkey]
      rfl
  · obtain ⟨start, hstart, hat, -⟩ := h.start hkey
    refine .child hrole (List.mem_append_right _ hstart) hat.eventType
      (hat.traceId.trans htrace.symm) ?_
    rw [hat.spanId, hplaced.children hrole, ← hkey]
    rfl

end Run

namespace AgentDoFn

variable {d : AgentDoFn} {py : PyLib} {key : Bytes} {s : KeyState} {c : KeyCall}
  {effects : List Effect} {emitted events : List TraceEvent} {attempts new : List (ℕ × ℕ)}

variable (d py key) in
/-- The events emitted so far are parented, every attempt recorded has had its start emitted, and so
has the initial attempt of the stored continuation. -/
structure Hanging (x : KeyState × List (ℕ × ℕ)) (emitted : List TraceEvent) : Prop where
  current : d.Current x.1
  parented : ∀ event ∈ emitted, event.eventType ≠ .error → Parented py key emitted event
  starts : ∀ p ∈ x.2, ∃ start ∈ emitted, StartAt py key p.1 p.2 start
  root : ∀ cont ∈ x.1.continuation, RootEmitted py key cont.seq emitted

theorem Hanging.empty : d.Hanging py key ({}, []) [] :=
  ⟨.empty, by simp, by simp, by simp⟩

/-- A step that emits parented events, and leaves the continuation of an attempt that was emitted.
-/
theorem Hanging.append (h : d.Hanging py key (s, attempts) emitted) {s' : KeyState}
    (hcurrent : d.Current s')
    (hevents : ∀ event ∈ events, event.eventType ≠ .error →
      Parented py key (emitted ++ events) event)
    (hnew : ∀ p ∈ new, ∃ start ∈ events, StartAt py key p.1 p.2 start)
    (hroot : ∀ cont ∈ s'.continuation, RootEmitted py key cont.seq (emitted ++ events)) :
    d.Hanging py key (s', attempts ++ new) (emitted ++ events) := by
  refine ⟨hcurrent, fun event hevent hne => ?_, fun p hp => ?_, hroot⟩
  · rcases List.mem_append.mp hevent with hevent | hevent
    · exact (h.parented event hevent hne).mono
    · exact hevents event hevent hne
  · rcases List.mem_append.mp hp with hp | hp
    · obtain ⟨start, hstart, hat⟩ := h.starts p hp
      exact ⟨start, List.mem_append_left _ hstart, hat⟩
    · obtain ⟨start, hstart, hat⟩ := hnew p hp
      exact ⟨start, List.mem_append_right _ hstart, hat⟩

/-- A step that emits error events only, and leaves the stored continuation or none. -/
theorem Hanging.errors (h : d.Hanging py key (s, attempts) emitted) {s' : KeyState}
    (hcurrent : d.Current s') (herrors : ∀ event ∈ events, event.eventType = .error)
    (hcont : s'.continuation = s.continuation ∨ s'.continuation = none) :
    d.Hanging py key (s', attempts ++ []) (emitted ++ events) := by
  refine h.append hcurrent (fun event hevent hne => absurd (herrors event hevent) hne) (by simp) ?_
  intro cont hmem
  rcases hcont with hkept | hnone
  · exact (h.root cont (hkept ▸ hmem)).mono
  · rw [hnone] at hmem
    cases hmem

/-- A call that escalates is a due fire on which the route escalates. -/
theorem escalate_due {micros : Int} {w : World} {cont : Continuation} {toolName argsJson : String}
    {timeoutMs : Int} (hcont : d.schema.migrateContinuation s.continuation = .ok (some cont))
    (hcall : d.call py key s (.onHitl micros w) =
      ⟨d.escalate py key cont (firedAtMs micros) toolName argsJson timeoutMs, none⟩) :
    cont.deadlineMs ≤ firedAtMs micros ∧
      (d.routeTimeout key cont (firedAtMs micros)).1.ends = false := by
  simp only [call, onHitl, hcont] at hcall
  split_ifs at hcall with hearly
  · cases hcall
  refine ⟨Int.not_lt.mp hearly, ?_⟩
  split at hcall
  · rename_i hroute
    rw [hroute]
    rfl
  · cases hcall

/-- **A step keeps the events parented**, as long as an escalation is of a suspension whose cursor
is where an attempt entered. -/
theorem Hanging.step (hplaced : d.Uncorrelated) (h : d.Hanging py key (s, attempts) emitted)
    (hcond : d.EscalatesEntered key (s, attempts) c) (hcall : d.call py key s c = ⟨effects, none⟩) :
    d.Hanging py key (s.applyAll effects, attempts ++ d.entered py key s c)
      (emitted ++ tracesOf effects) := by
  have hcurrent := h.current.call hcall
  have reported {seq : ℕ} (hentered : d.entered py key s c = [])
      (hreported : Reported py key s seq effects) : d.Hanging py key
        (s.applyAll effects, attempts ++ d.entered py key s c) (emitted ++ tracesOf effects) := by
    obtain ⟨hcore, -, now, reason, errorType, position, htraces⟩ := hreported
    rw [hentered, htraces]
    exact h.errors hcurrent (List.forall_mem_singleton.mpr rfl)
      (.inl (congrArg KeyCore.continuation hcore))
  cases call_ran hcall with
  | idle hattempt hidle =>
    rw [hidle.traces, entered, hattempt]
    exact h.errors hcurrent (by simp) (.inl (congrArg KeyCore.continuation hidle.core))
  | refused hattempt hfails hreported => exact reported (by rw [entered, hattempt]) hreported
  | @concluded _ _ w input hattempt hconcluded =>
    cases hactivate : d.activate py w input with
    | error failure =>
      exact reported (by simp only [entered, hattempt, hactivate]) (hconcluded.reported hactivate)
    | ok result =>
      have hentered : d.entered py key s c = [(input.seq, input.stepIndex)] := by
        simp only [entered, hattempt, hactivate]
      have hcommitted := hconcluded.committed hactivate
      have hevents := activate_places hplaced hactivate
      obtain ⟨hkey, hscope⟩ := attempt_scope hattempt
      have hresume := attempt_isResume hattempt
      have hroot : input.isResume = false ∧ input.stepIndex = 0 ∨
          input.isResume = true ∧ RootEmitted py key input.seq emitted := by
        cases hscope with
        | fresh hanswers hseq hstep => exact .inl ⟨by rw [hresume, hanswers]; rfl, hstep⟩
        | resume hanswers hcont hpends hseq hstep =>
          refine .inr ⟨by rw [hresume, hanswers]; rfl, ?_⟩
          rw [hseq]
          exact h.root _ (h.current.stored hcont)
      rw [hentered, hcommitted.traces]
      refine h.append hcurrent
        (fun event hevent _ => hevents.parented hkey hroot event hevent) ?_ ?_
      · rw [List.forall_mem_singleton]
        obtain ⟨start, hstart, hat, -⟩ := hevents.start hkey
        exact ⟨start, hstart, hat⟩
      · rw [hcommitted.continuation]
        intro cont hcont
        rw [(activate_moves hactivate cont hcont).1]
        exact hevents.root hkey hroot
  | @escalated micros w cont toolName argsJson timeoutMs hcont =>
    have hstored := h.current.stored hcont
    obtain ⟨hdue, hroute⟩ := escalate_due hcont hcall
    obtain ⟨start, hstart, hat⟩ := h.starts _ (hcond cont hstored hdue hroute)
    refine h.append hcurrent (List.forall_mem_singleton.mpr fun _ => ?_) (List.forall_mem_nil _) ?_
    · -- The trace surface of the escalation is that of an attempt at the cursor.
      have hrole : roleForEventType .intentEmitted ≠ roleActivation := by decide
      let trace := escalationTrace py key cont (firedAtMs micros)
      have hplace (attributes : List (String × String)) : trace.Places py
          (trace.event py .intentEmitted cont.stepIndex attributes) := trace.places_event ..
      refine .child hrole (List.mem_append_left _ hstart) hat.eventType ?_ ?_
      · exact hat.traceId.trans (hplace _).traceId.symm
      · exact hat.spanId.trans ((hplace _).children hrole).symm
    · rw [applyAll_escalate]
      rintro cont' hcont'
      cases hcont'
      exact (h.root cont hstored).mono
  | @ended micros w cont route detail hcont hends =>
    refine h.errors hcurrent (fun event hevent => ?_) (.inr (by rw [applyAll_endSuspension]))
    rw [tracesOf_endSuspension, List.mem_singleton] at hevent
    rw [hevent]
    rfl
  | @wiped micros w cont hcont =>
    refine h.errors hcurrent (fun event hevent => ?_) (.inr ?_)
    · rw [tracesOf_wiped] at hevent
      obtain ⟨cont, -, rfl⟩ := List.mem_map.mp hevent
      rfl
    · rw [KeyState.applyAll_append, KeyState.applyAll_append, applyAll_wipe]

/-- **Every child span has its attempt**, as far as escalations find one. Let the agent and the
summarizer leave the place of their events to the trace surface. In every run of one key in which a
due fire escalates a suspension only where an attempt of it entered, every emitted event that is no
error is one of the ends of an initial attempt, and has no parent, or one of the ends of a resumed
attempt, under the span of the initial one that was emitted in the same trace, or it is under the
span of an attempt that was emitted in the same trace. -/
theorem run_parented (d : AgentDoFn) (py : PyLib) (key : Bytes) (hplaced : d.Uncorrelated)
    {calls : List KeyCall} {effects : List Effect} {x : KeyState × List (ℕ × ℕ)}
    (h : (((d.machine py key).recorded (d.entered py key)).guarded (d.EscalatesEntered key)).Run
      ({}, []) calls effects x) :
    ∀ event ∈ tracesOf effects, event.eventType ≠ .error →
      Parented py key (tracesOf effects) event := by
  have hhanging : d.Hanging py key x (tracesOf effects) := by
    refine h.invariant (I := fun _ effects x => d.Hanging py key x (tracesOf effects)) .empty ?_
    rintro _ log ⟨s, attempts⟩ c ⟨s', attempts'⟩ effects - h ⟨hcond, ⟨hcall, rfl⟩, rfl⟩
    rw [tracesOf_append]
    exact h.step hplaced hcond hcall
  exact hhanging.parented

private theorem pagingTimeout_pos : (0 : Int) < 1500 := by decide

/-- A pipeline that asks once more when a suspension times out. -/
def pagingPolicy : HitlPolicy := {
  timeoutMs := 1500, maxEscalations := 1, onTimeout := fun _ => .ok (.escalate "pager" "{}" 1000),
  timeout_pos := pagingTimeout_pos }

/-- The `uuid5` values behind the runs below. -/
def pagingTable : List (String × String) :=
  [("6b|0|0", "6509fb29-9e35-5f25-bf85-b7860d49a026"),
    ("6b|0|1", "2e047468-1bb8-5717-8cb0-d8e98f15a767"),
    ("6b|0", "2bf05d87-d332-5171-8085-abe0727ad51a"),
    ("6b|0|activation|0", "7b312788-5df6-577e-9862-a217d85e4c83"),
    ("6b|0|activation|1", "7d08bfec-5c19-5863-ae6b-f723ed6e5ce6"),
    ("6b|0|INTENT_EMITTED|0", "4cbba867-ec24-5d41-8e3d-eaddea1fe5bf"),
    ("6b|0|INTENT_EMITTED|1", "babdc904-6660-57c8-9b18-b02b1cd8d042"),
    ("6b|0|SUSPENDED|0", "5b953494-a17c-5eee-82d1-32cebdfe9fa9"),
    ("6b|0|SUSPENDED|1", "a206662f-4f01-5b73-9665-3e84035ff8b0")]

/-- An agent that waits, with nothing asked, until it is answered. -/
def pagedAgent : AgentDoFn where
  agent := .read fun ctx => if ctx.isResume then .ret .complete else .ret .suspend
  policy := pagingPolicy

theorem pagedAgent_uncorrelated : pagedAgent.Uncorrelated := by
  have hagent : pagedAgent.agent =
      .read fun ctx => if ctx.isResume then .ret .complete else .ret .suspend := rfl
  refine ⟨hagent ▸ fun ctx => ?_, by simp [pagedAgent]⟩
  dsimp only
  split_ifs <;> trivial

instance (d : AgentDoFn) (key : Bytes) (x : KeyState × List (ℕ × ℕ)) (c : KeyCall) :
    Decidable (d.EscalatesEntered key x c) :=
  match c with
  | .onHitl micros _ => inferInstanceAs (Decidable (∀ cont ∈ x.1.continuation,
      cont.deadlineMs ≤ firedAtMs micros →
        (d.routeTimeout key cont (firedAtMs micros)).1.ends = false →
        (cont.seq, cont.stepIndex) ∈ x.2))
  | .process .. | .onTtl .. | .onFlush .. => isTrue trivial

/-- A step that meets the condition, as a function. -/
def enteredStep (d : AgentDoFn) (py : PyLib) (key : Bytes) (x : KeyState × List (ℕ × ℕ))
    (c : KeyCall) : Option ((KeyState × List (ℕ × ℕ)) × List Effect) :=
  let exit := d.call py key x.1 c
  if exit.raised.isNone ∧ d.EscalatesEntered key x c then
    some ((x.1.applyAll exit.effects, x.2 ++ d.entered py key x.1 c), exit.effects)
  else none

theorem enteredStep_step {d : AgentDoFn} {py : PyLib} {key : Bytes}
    {x y : KeyState × List (ℕ × ℕ)} {c : KeyCall} {effects : List Effect}
    (h : enteredStep d py key x c = some (y, effects)) :
    (((d.machine py key).recorded (d.entered py key)).guarded (d.EscalatesEntered key)).step
      x c y effects := by
  unfold enteredStep at h
  dsimp only at h
  split_ifs at h with hentered
  cases h
  exact ⟨hentered.2, call_step (by simpa using hentered.1), rfl⟩

/-- A suspension that took no step, one escalation, and an answer to it: six events, all parented.
-/
theorem run_parented_paged : ∃ effects x,
    (((pagedAgent.machine (.ofTable pagingTable) [107]).recorded
      (pagedAgent.entered (.ofTable pagingTable) [107])).guarded
        (pagedAgent.EscalatesEntered [107])).Run ({}, []) [
        .process ⟨[107], 1000, .externalEvent [1]⟩ quietWorld, .onHitl 4000000 quietWorld,
        .process ⟨[107], 4500, .approval
          { intentId := "6509fb29-9e35-5f25-bf85-b7860d49a026" }⟩ quietWorld] effects x ∧
    (tracesOf effects).length = 6 ∧
    ∀ event ∈ tracesOf effects, event.eventType ≠ .error →
      Parented (.ofTable pagingTable) [107] (tracesOf effects) event := by
  have hexec : ((Machine.exec (enteredStep pagedAgent (.ofTable pagingTable) [107]) ({}, []) [
      .process ⟨[107], 1000, .externalEvent [1]⟩ quietWorld, .onHitl 4000000 quietWorld,
      .process ⟨[107], 4500, .approval
        { intentId := "6509fb29-9e35-5f25-bf85-b7860d49a026" }⟩ quietWorld]).map
      fun r : List Effect × KeyState × List (ℕ × ℕ) => decide ((tracesOf r.1).length = 6)) =
        some true := by decide
  obtain ⟨⟨effects, x⟩, hr, hlength⟩ := Option.map_eq_some_iff.mp hexec
  have hrun := Machine.Run.of_exec
    (M := ((pagedAgent.machine (.ofTable pagingTable) [107]).recorded
      (pagedAgent.entered (.ofTable pagingTable) [107])).guarded
        (pagedAgent.EscalatesEntered [107]))
    (fun _ _ => enteredStep_step) hr
  exact ⟨effects, x, hrun, of_decide_eq_true hlength,
    run_parented _ _ _ pagedAgent_uncorrelated hrun⟩

/-- An agent that asks, and waits for the answer. -/
def pagingAgent : AgentDoFn where
  agent := .read fun ctx =>
    if ctx.isResume then .ret .complete else .perform (.act "ask" "{}") fun _ => .ret .suspend
  policy := pagingPolicy

/-- The escalation of a suspension that took a step hangs under a span that no event carries. -/
theorem escalation_orphaned : pagingAgent.Uncorrelated ∧ ∃ effects s,
    (pagingAgent.machine (.ofTable pagingTable) [107]).Run {} [
      .process ⟨[107], 1000, .externalEvent [1]⟩ quietWorld, .onHitl 4000000 quietWorld] effects s ∧
    ∃ event ∈ tracesOf effects, event.eventType = .intentEmitted ∧ event.parentSpanId ≠ [] ∧
      ∀ other ∈ tracesOf effects, other.spanId ≠ event.parentSpanId := by
  have hagent : pagingAgent.agent = .read fun ctx => if ctx.isResume then .ret .complete
      else .perform (.act "ask" "{}") fun _ => .ret .suspend := rfl
  have hplaced : pagingAgent.Uncorrelated := by
    refine ⟨hagent ▸ fun ctx => ?_, by simp [pagingAgent]⟩
    dsimp only
    split_ifs
    · trivial
    · exact ⟨trivial, fun _ => trivial⟩
  have hexec : ((pagingAgent.exec (.ofTable pagingTable) [107] {} [
      .process ⟨[107], 1000, .externalEvent [1]⟩ quietWorld,
      .onHitl 4000000 quietWorld]).map fun r : List Effect × KeyState =>
        decide (∃ event ∈ tracesOf r.1, event.eventType = .intentEmitted ∧ event.parentSpanId ≠ [] ∧
          ∀ other ∈ tracesOf r.1, other.spanId ≠ event.parentSpanId)) = some true := by decide
  obtain ⟨⟨effects, s⟩, hr, heq⟩ := Option.map_eq_some_iff.mp hexec
  have hrun := (exec_run (C := fun _ _ => True) hr fun _ _ _ => trivial).of_guarded
  exact ⟨hplaced, effects, s, hrun, of_decide_eq_true heq⟩

end AgentDoFn

end BeamAgents
