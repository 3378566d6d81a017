import BeamAgents.Replay.Replayable

/-!
# The record of an activation

What the trace events of a committed activation look like to a replay: they are all in the scope of
the activation, they begin with the one start event and end with the one end event, none of them is
an error, and the intents they tell of are the staged ones, in order.

## Main definitions

* `ActivationContext.Recorded`: the events staged so far, in the middle of a run.
* `ActivationResult.Record`: the events of a result.

## Main results

* `Prog.Replayable.recorded`: a replayable run keeps its events recorded.
* `runActivation_record`: the record of a replayable activation.
-/

namespace BeamAgents

open Containers

/-- The type of an event in the middle of a record. -/
def EventType.inner : EventType → Bool
  | .activationStart | .activationEnd | .error => false
  | .unspecified | .llmCall | .toolCall | .intentEmitted | .suspended => true

/-- An event in the middle of the record of the activation `(key, seq)`. -/
structure TraceEvent.Inner (key : Bytes) (seq : ℕ) (e : TraceEvent) : Prop where
  entityKey : e.entityKey = key
  seq : e.seq = seq
  eventType : e.eventType.inner

/-- The events staged so far: they follow the start event, and tell of the intents staged so far. -/
structure ActivationContext.Recorded (t : ActivationTrace) (start : TraceEvent)
    (rest : List TraceEvent) (ctx : ActivationContext) : Prop where
  entityKey : ctx.entityKey = t.entityKey
  seq : ctx.seq = t.seq
  trace : ctx.trace = t
  traces : ctx.traces = start :: rest
  inner : ∀ e ∈ rest, e.Inner t.entityKey t.seq
  intents : tracedIntents rest = ctx.intents.map replayedIntent

/-- The record of an activation with this scope. -/
structure ActivationResult.Record (input : ActivationInput) (isResume : Bool) (start : TraceEvent)
    (rest : List TraceEvent) (last : TraceEvent) (r : ActivationResult) : Prop where
  traces : r.traces = start :: (rest ++ [last])
  scope : ∀ e ∈ r.traces, e.entityKey = input.entityKey ∧ e.seq = input.seq
  start_type : start.eventType = .activationStart
  kind : start.attribute? "beam_agents.activation.kind" =
    some (if isResume then "resume" else "start")
  clock : start.startMs = input.nowMs
  inner : ∀ e ∈ rest, e.eventType.inner
  last_type : last.eventType = .activationEnd
  status : last.attribute? "beam_agents.activation.status" = some r.status.text
  intents : tracedIntents r.traces = r.intents.map replayedIntent

section Attributes

variable (py : PyLib) (t : ActivationTrace)

/-- The trace tells of an intent what is staged of it. -/
theorem tracedIntent_intentEmitted (stepIndex : ℕ) (intentId toolName intentKind : String)
    (expiresAtMs : Int) :
    tracedIntent (t.intentEmitted py stepIndex intentId toolName intentKind expiresAtMs) =
      [intentId, toolName, intentKind, toString expiresAtMs] := by
  simp [tracedIntent, TraceEvent.attribute?, ActivationTrace.intentEmitted, ActivationTrace.event,
    ActivationTrace.stamp, Dict.ofList, Dict.set, Dict.empty, Dict.get?, List.lookup_cons]

theorem attribute?_activationStart :
    (t.stamp py (t.activationStart py)).attribute? "beam_agents.activation.kind" =
      some t.kindText := by
  simp [TraceEvent.attribute?, ActivationTrace.activationStart, ActivationTrace.event,
    ActivationTrace.stamp, Dict.ofList, Dict.set, Dict.empty, Dict.get?]

theorem attribute?_activationEnd (status : String) (stepIndex : ℕ) :
    (t.stamp py (t.activationEnd py status stepIndex)).attribute?
      "beam_agents.activation.status" = some status := by
  simp [TraceEvent.attribute?, ActivationTrace.activationEnd, ActivationTrace.event,
    ActivationTrace.stamp, Dict.ofList, Dict.set, Dict.empty, Dict.get?]

end Attributes

section Intents

variable {events : List TraceEvent} {event : TraceEvent}

theorem tracedIntents_append (events events' : List TraceEvent) :
    tracedIntents (events ++ events') = tracedIntents events ++ tracedIntents events' := by
  rw [tracedIntents, List.filter_append, List.map_append]
  rfl

theorem tracedIntents_singleton (h : event.eventType ≠ .intentEmitted) :
    tracedIntents [event] = [] := by
  simp [tracedIntents, h]

end Intents

namespace ActivationContext

variable {py : PyLib} {cfg : ContextConfig} {t : ActivationTrace} {start : TraceEvent}
  {rest : List TraceEvent} {ctx ctx' : ActivationContext}

/-! ### One operation -/

/-- A step that stages nothing. -/
theorem Recorded.quiet (h : ctx.Recorded t start rest)
    (hkey : ctx'.entityKey = ctx.entityKey) (hseq : ctx'.seq = ctx.seq)
    (htrace : ctx'.trace = ctx.trace) (htraces : ctx'.traces = ctx.traces)
    (hintents : ctx'.intents = ctx.intents) : ∃ rest', ctx'.Recorded t start rest' :=
  ⟨rest, hkey.trans h.entityKey, hseq.trans h.seq, htrace.trans h.trace, htraces.trans h.traces,
    h.inner, hintents ▸ h.intents⟩

/-- A step that stages one event, which tells of no intent. -/
theorem Recorded.stage (h : ctx.Recorded t start rest) {event : TraceEvent}
    (hkey : ctx'.entityKey = ctx.entityKey) (hseq : ctx'.seq = ctx.seq)
    (htrace : ctx'.trace = ctx.trace) (htraces : ctx'.traces = ctx.traces ++ [event])
    (hintents : ctx'.intents = ctx.intents) (hinner : event.Inner t.entityKey t.seq)
    (hevent : event.eventType ≠ .intentEmitted) :
    ∃ rest', ctx'.Recorded t start rest' := by
  refine ⟨rest ++ [event], hkey.trans h.entityKey, hseq.trans h.seq, htrace.trans h.trace, ?_, ?_,
    ?_⟩
  · rw [htraces, h.traces, List.cons_append]
  · intro e he
    rcases List.mem_append.mp he with he | he
    · exact h.inner e he
    · exact List.mem_singleton.mp he ▸ hinner
  · rw [tracedIntents_append, tracedIntents_singleton hevent, List.append_nil, hintents, h.intents]

/-- Staging an intent: the event tells of it. -/
theorem Recorded.stageIntent (h : ctx.Recorded t start rest) (cfg : ContextConfig)
    (toolName argsJson : String) (kind : IntentKind) (ttlMs : Option Int) :
    ∃ rest', (ctx.stageIntent py cfg toolName argsJson kind ttlMs).2.Recorded t start rest' := by
  refine ⟨rest ++ [ctx.trace.intentEmitted py ctx.stepIndex
    (intentIdFor py ctx.entityKey ctx.seq ctx.stepIndex) toolName kind.name
    (ctx.nowMs + ttlMs.getD cfg.intentTtlMs)], h.entityKey, h.seq, h.trace, ?_, ?_, ?_⟩
  · show ctx.traces ++ [_] = _
    rw [h.traces, List.cons_append]
  · intro e he
    rcases List.mem_append.mp he with he | he
    · exact h.inner e he
    · rw [List.mem_singleton.mp he, h.trace]
      exact ⟨rfl, rfl, rfl⟩
  · have hevent : tracedIntents [ctx.trace.intentEmitted py ctx.stepIndex
        (intentIdFor py ctx.entityKey ctx.seq ctx.stepIndex) toolName kind.name
        (ctx.nowMs + ttlMs.getD cfg.intentTtlMs)] = [[intentIdFor py ctx.entityKey ctx.seq
          ctx.stepIndex, toolName, kind.name, toString (ctx.nowMs + ttlMs.getD cfg.intentTtlMs)]] :=
      congrArg (fun l => [l]) (tracedIntent_intentEmitted py ctx.trace _ _ _ _ _)
    rw [tracedIntents_append, hevent, h.intents]
    simp [ActivationContext.stageIntent, advanceStep, replayedIntent]

variable (py cfg) in
/-- The tail of a model call. -/
theorem Recorded.finishModel (h : ctx.Recorded t start rest) (step : ℕ) (cacheHit : Bool)
    (modelId : String) (response : Bytes) :
    ∃ rest', (ctx.finishModel py cfg step cacheHit modelId response).1.Recorded t start rest' := by
  unfold ActivationContext.finishModel
  cases decodedUsage cfg response with
  | error e => exact ⟨rest, h⟩
  | ok usage =>
    obtain ⟨rest', hstaged⟩ : ∃ rest',
        (ctx.stageLlmTrace py step cacheHit modelId usage).Recorded t start rest' :=
      h.stage rfl rfl rfl rfl rfl ⟨h.entityKey, h.seq, rfl⟩ (by simp [ActivationTrace.stamp])
    dsimp only
    unfold charge
    split
    · exact hstaged.quiet rfl rfl rfl rfl rfl
    · exact ⟨rest', hstaged⟩

theorem Recorded.settled (h : ctx.Recorded t start rest) (step : ℕ) (cacheHit : Bool)
    (modelId : String) (response : Bytes) :
    ∃ rest', (ctx.settled py cfg step cacheHit modelId response).1.Recorded t start rest' := by
  have hfinish := h.finishModel py cfg step cacheHit modelId response
  unfold ActivationContext.settled
  generalize ActivationContext.finishModel py cfg ctx step cacheHit modelId response = r
    at hfinish ⊢
  obtain ⟨ctx', _ | e⟩ := r <;> exact hfinish

theorem Recorded.modelEnter (h : ctx.Recorded t start rest) (request : LlmRequest) :
    ∃ rest', (ctx.modelEnter py cfg request).1.Recorded t start rest' := by
  cases hbudget : ctx.budget.bind TokenBudget.check with
  | some e =>
    rw [modelEnter_refused hbudget]
    exact ⟨rest, h⟩
  | none =>
    cases hkey : computeCacheKey py request ctx.entityKey ctx.seq with
    | error e =>
      rw [modelEnter_unkeyed hbudget hkey]
      exact h.quiet rfl rfl rfl rfl rfl
    | ok cacheKey =>
      obtain ⟨rest', hlooked⟩ : ∃ rest', (ctx.looked cacheKey).Recorded t start rest' :=
        h.quiet rfl rfl rfl rfl rfl
      cases hserved : ctx.replayCache.served cacheKey with
      | none =>
        rw [modelEnter_miss hbudget hkey hserved]
        exact ⟨rest', hlooked⟩
      | some s =>
        rw [modelEnter_hit hbudget hkey hserved]
        exact hlooked.settled _ _ _ _

variable (py cfg) in
/-- **A replayable operation keeps the events recorded.** -/
theorem Recorded.perform (h : ctx.Recorded t start rest) {op : CtxOp}
    (hop : op.Replayable py cfg ctx) :
    ∃ rest', (ActivationContext.perform py cfg op ctx).1.Recorded t start rest' := by
  cases op with
  | act toolName argsJson ttlMs => exact h.stageIntent cfg _ _ _ _
  | requestApproval argsJson channel ttlMs => exact h.stageIntent cfg _ _ _ _
  | modelEnter request => exact h.modelEnter request
  | modelLeave call response elapsedNs =>
    obtain ⟨rest', hstored⟩ : ∃ rest',
        (ctx.stored py call.cacheKey response elapsedNs).Recorded t start rest' :=
      h.quiet rfl rfl rfl rfl rfl
    show ∃ rest', (ctx.modelLeave py cfg call response elapsedNs).1.Recorded t start rest'
    rw [modelLeave_eq]
    exact hstored.settled _ _ _ _
  | toolLeave toolName elapsedNs =>
    refine h.stage rfl rfl rfl rfl rfl ?_ (by simp [ActivationTrace.toolCall, ActivationTrace.event,
      ActivationTrace.stamp])
    rw [h.trace]
    exact ⟨rfl, rfl, rfl⟩
  | stageTrace event =>
    obtain ⟨hkey, hseq, htype⟩ := hop
    refine h.stage rfl rfl rfl rfl rfl ⟨hkey.trans h.entityKey, hseq.trans h.seq, ?_⟩ ?_
    · show event.eventType.inner = true
      cases hevent : event.eventType <;> simp_all [EventType.ofDriver, EventType.inner]
    · intro hmem
      simp only [ActivationTrace.stamp] at hmem
      simp [hmem, EventType.ofDriver] at htype
  | longtermSave key value =>
    simp only [ActivationContext.perform, longtermSave]
    split_ifs
    · exact ⟨rest, h⟩
    · exact ⟨rest, h⟩
    · exact h.quiet rfl rfl rfl rfl rfl
  | _ => exact h.quiet rfl rfl rfl rfl rfl

end ActivationContext

/-! ### The activation -/

section Activation

variable {py : PyLib} {cfg : ContextConfig} {t : ActivationTrace} {start : TraceEvent}
  {rest : List TraceEvent} {ctx : ActivationContext}

/-- **A replayable run keeps its events recorded.** -/
theorem Prog.Replayable.recorded {ρ : Type} {answers : Answers} {p : Prog ρ} {awaits : ℕ}
    (hp : p.Replayable py cfg answers awaits ctx) (h : ctx.Recorded t start rest) :
    ∃ rest', (p.run py cfg answers awaits ctx).ctx.Recorded t start rest' := by
  induction p generalizing awaits ctx rest with
  | ret r => exact ⟨rest, h⟩
  | raise e => exact ⟨rest, h⟩
  | read k ih => exact ih ctx hp.2 h
  | perform op k ih =>
    obtain ⟨rest', h'⟩ := h.perform py cfg hp.1
    exact ih _ hp.2 h'
  | await a k ih => exact ih (answers awaits a) hp h

variable {schema : StateSchema} {agent : Agent} {summarizer : Option Summarizer}
  {hitlTimeoutMs : Int} {w : World} {input : ActivationInput} {r : ActivationResult}

/-- A result carries the events and the intents of the context it was built from. -/
theorem finishActivation_events {status : ActivationStatus} {outputs : List Bytes}
    {continuation : Option Continuation}
    (h : finishActivation py schema w ctx status outputs continuation = .ok r) :
    r.traces = ctx.traces ∧ r.intents = ctx.intents ∧ r.status = status := by
  unfold finishActivation at h
  split at h
  · cases h
  · cases h
    exact ⟨rfl, rfl, rfl⟩

variable (py) in
/-- The driver records a suspension. -/
theorem ActivationContext.Recorded.suspended (h : ctx.Recorded t start rest) (deadlineMs : Int)
    (adapter : String) (pendingIntentIds : List String) :
    ∃ rest', (ctx.stageTrace py (ctx.trace.suspended py ctx.stepIndex deadlineMs adapter
      pendingIntentIds)).Recorded t start rest' := by
  refine h.stage rfl rfl rfl rfl rfl ?_ (by
    simp [ActivationTrace.stamp, ActivationTrace.suspended, ActivationTrace.event])
  rw [h.trace]
  exact ⟨rfl, rfl, rfl⟩

/-- The driver closes the record with the end event. -/
theorem ActivationContext.Recorded.close {isResume : Bool} {stepIndex : ℕ} {outputs : List Bytes}
    {status : ActivationStatus} {continuation : Option Continuation}
    (h : ctx.Recorded t start rest) (hkey : t.entityKey = input.entityKey)
    (hseq : t.seq = input.seq)
    (hscope : start.entityKey = input.entityKey ∧ start.seq = input.seq)
    (hstart : start.eventType = .activationStart)
    (hkind : start.attribute? "beam_agents.activation.kind" =
      some (if isResume then "resume" else "start")) (hclock : start.startMs = input.nowMs)
    (hr : finishActivation py schema w
      (ctx.stageTrace py (ctx.trace.activationEnd py status.text stepIndex)) status outputs
      continuation = .ok r) :
    ∃ last, r.Record input isResume start rest last := by
  obtain ⟨htraces, hintents, hstatus⟩ := finishActivation_events hr
  have hall : r.traces = start :: (rest ++
      [ctx.trace.stamp py (ctx.trace.activationEnd py status.text stepIndex)]) := by
    rw [htraces]
    show ctx.traces ++ [_] = _
    rw [h.traces, List.cons_append]
  refine ⟨_, hall, ?_, hstart, hkind, hclock, fun e he => (h.inner e he).eventType, rfl, ?_, ?_⟩
  · intro e he
    rw [hall, List.mem_cons, List.mem_append, List.mem_singleton] at he
    rcases he with rfl | he | rfl
    · exact hscope
    · exact ⟨(h.inner e he).entityKey.trans hkey, (h.inner e he).seq.trans hseq⟩
    · rw [h.trace]
      exact ⟨hkey, hseq⟩
  · rw [hstatus]
    exact attribute?_activationEnd py ctx.trace _ _
  · have hone : tracedIntents [start] = [] := tracedIntents_singleton (by rw [hstart]; decide)
    have hend : tracedIntents
        [ctx.trace.stamp py (ctx.trace.activationEnd py status.text stepIndex)] = [] :=
      tracedIntents_singleton (by
        simp [ActivationTrace.stamp, ActivationTrace.activationEnd, ActivationTrace.event])
    rw [hall, ← List.singleton_append, tracedIntents_append, tracedIntents_append, hone, hend,
      List.nil_append, List.append_nil, h.intents, hintents]
    rfl

/-- **The record of a replayable activation.** -/
theorem runActivation_record
    (h : ReplayableActivation py cfg agent summarizer hitlTimeoutMs w.answers input)
    (hrun : runActivation py schema cfg agent summarizer hitlTimeoutMs w input = .ok r) :
    ∃ start rest last, r.Record input
      (input.resumeResult.isSome || input.resumeApproval.isSome) start rest last := by
  obtain ⟨ctx, outcome, ctxEnd, hnew, houtcome, hsummarized, hfold⟩ := runActivation_eq_ok hrun
  have hquiet := h.summarizer ctx hnew
  have hagent := h.run ctx hnew
  obtain ⟨htrace, hkey, hseq, htraces, hintents, hbatch⟩ : ctx.trace = ActivationTrace.new py
        input.entityKey input.seq input.nowMs input.stepIndex
        (input.resumeResult.isSome || input.resumeApproval.isSome) ∧
      ctx.entityKey = input.entityKey ∧ ctx.seq = input.seq ∧ ctx.traces = [] ∧ ctx.intents = [] ∧
      ctx.isBatch = false := by
    have hsingle := h.single
    unfold ActivationContext.new at hnew
    split_ifs at hnew
    cases hnew
    refine ⟨rfl, rfl, rfl, rfl, rfl, ?_⟩
    show input.event.isRight = false
    cases hevent : input.event with
    | inl event => rfl
    | inr events => rw [hevent] at hsingle; cases hsingle
  have hstarted : startEvent py ctx input.batchTrigger = ctx.trace.activationStart py := by
    simp [startEvent, hbatch]
  rw [hstarted] at hquiet hagent houtcome hsummarized
  set start := ctx.trace.stamp py (ctx.trace.activationStart py) with hstart
  have hbegun : (ctx.stageTrace py (ctx.trace.activationStart py)).Recorded ctx.trace start [] := by
    refine ⟨?_, ?_, rfl, ?_, by simp, ?_⟩
    · rw [htrace]
      exact hkey
    · rw [htrace]
      exact hseq
    · show ctx.traces ++ [_] = _
      rw [htraces]
      rfl
    · show _ = ctx.intents.map replayedIntent
      rw [hintents]
      rfl
  obtain ⟨rest, hend⟩ := hagent.recorded hbegun
  obtain rfl : (agent.run py cfg w.answers 0
      (ctx.stageTrace py (ctx.trace.activationStart py))).ctx = ctxEnd := by
    exact congrArg Prod.fst ((runSummarizer_silent py hquiet).1.symm.trans hsummarized)
  have hkind : start.attribute? "beam_agents.activation.kind" = some (if
      (input.resumeResult.isSome || input.resumeApproval.isSome) then "resume" else "start") := by
    rw [hstart, attribute?_activationStart, ActivationTrace.kindText, htrace]
    rfl
  have hscope : start.entityKey = input.entityKey ∧ start.seq = input.seq ∧
      start.startMs = input.nowMs := by
    rw [hstart, htrace]
    exact ⟨rfl, rfl, rfl⟩
  have hclose (status : ActivationStatus) {ctx' : ActivationContext} {rest' : List TraceEvent}
      {stepIndex : ℕ} {outputs : List Bytes} {continuation : Option Continuation}
      (h : ctx'.Recorded ctx.trace start rest')
      (hr : finishActivation py schema w
        (ctx'.stageTrace py (ctx'.trace.activationEnd py status.text stepIndex)) status outputs
        continuation = .ok r) := h.close (by rw [htrace]; rfl) (by rw [htrace]; rfl)
          ⟨hscope.1, hscope.2.1⟩ rfl hkind hscope.2.2 hr
  cases outcome with
  | complete output =>
    obtain ⟨last, hrecord⟩ := hclose .completed hend hfold
    exact ⟨start, rest, last, hrecord⟩
  | suspend snapshot adapter timeoutMs =>
    obtain ⟨rest', hsuspended⟩ := hend.suspended py
      (suspensionDeadline (_ + timeoutMs.getD hitlTimeoutMs) _) adapter _
    obtain ⟨last, hrecord⟩ := hclose .suspended hsuspended hfold
    exact ⟨start, rest', last, hrecord⟩
  | other repr => cases hfold

end Activation

end BeamAgents
