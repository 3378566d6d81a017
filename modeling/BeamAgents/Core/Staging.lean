import BeamAgents.Core.Flush
import BeamAgents.Observability.Marks

/-!
# The trace events of one attempt

What an attempt stages on `.traces` when the agent leaves the trace events to the context: the
events stand for pairwise distinct occurrences of the attempt. The events of model calls and intents
are named by the steps the attempt took, those of inline tools by a counter that starts at zero with
the attempt, and the two ends of the attempt by the step it entered at.

## Main definitions

* `Prog.Orderly`: a program that stages no trace events of its own, and finishes the model calls
  that it began, each once.
* `ActivationContext.Staging`: the staged events and the occurrences that they stand for.
* `AgentDoFn.Occurrences`: the occurrences of an attempt that came to a result.

## Main results

* `Prog.run_staging`: what the events of a run of an orderly program stand for.
* `AgentDoFn.activate_occurrences`: what the events of a result stand for.
-/

namespace BeamAgents

/-! ### Orderly programs -/

/-- An operation of an orderly program: no event is staged by hand, and a model call is left when it
has been entered. -/
def CtxOp.Allowed (entered : List ModelCall) : CtxOp → Prop
  | .stageTrace _ => False
  | .modelLeave call _ _ => call ∈ entered
  | _ => True

/-- The model calls that a program is in after an operation. -/
def CtxOp.enteredAfter (entered : List ModelCall) :
    (op : CtxOp) → Except PyExn op.Ans → List ModelCall
  | .modelEnter _, .ok (.miss call) => call :: entered
  | .modelLeave call _ _, _ => entered.erase call
  | _, _ => entered

/-- A program that leaves the trace events to the context: it stages none of its own, and of the
model calls it finishes only those that it is in, as `call_model` does. -/
def Prog.Orderly {ρ : Type} : Prog ρ → List ModelCall → Prop
  | .ret _, _ | .raise _, _ => True
  | .read k, entered => ∀ ctx, (k ctx).Orderly entered
  | .perform op k, entered =>
    op.Allowed entered ∧ ∀ answer, (k answer).Orderly (op.enteredAfter entered answer)
  | .await _ k, entered => ∀ answer, (k answer).Orderly entered

section Orderly

variable {ρ : Type} {entered : List ModelCall}

/-- A program that calls the model is orderly when what follows is. -/
theorem Prog.Orderly.callModel {request : LlmRequest} {k : Except PyExn Bytes → Prog ρ}
    (h : ∀ answer, ∀ entered', entered ⊆ entered' → (k answer).Orderly entered') :
    (callModel request k).Orderly entered := by
  refine ⟨trivial, fun entry => ?_⟩
  rcases entry with e | response | call
  · exact h _ _ (List.Subset.refl _)
  · exact h _ _ (List.Subset.refl _)
  · intro answer
    dsimp only
    cases answer.value with
    | error e => exact h _ _ (List.subset_cons_self _ _)
    | ok response =>
      refine ⟨List.mem_cons_self, fun left => ?_⟩
      have herase : CtxOp.enteredAfter
          (CtxOp.enteredAfter entered (.modelEnter request) (.ok (.miss call)))
          (.modelLeave call response answer.elapsedNs) left = entered := List.erase_cons_head ..
      rw [herase]
      exact h _ _ (List.Subset.refl _)

/-- A program that runs a tool is orderly when what follows is. -/
theorem Prog.Orderly.runTool {toolName argsJson : String} {k : Except PyExn Bytes → Prog ρ}
    (h : ∀ answer, (k answer).Orderly entered) : (runTool toolName argsJson k).Orderly entered := by
  refine ⟨trivial, fun entry => ?_⟩
  rcases entry with e | ⟨⟩
  · exact h _
  · intro answer
    dsimp only
    cases answer.value with
    | error e => exact h _
    | ok value => exact ⟨trivial, fun _ => h _⟩

end Orderly

/-! ### What the staged events stand for -/

namespace ActivationContext

/-- An occurrence that an attempt has had so far. -/
def Within (ctx : ActivationContext) : Mark → Prop
  | .start entry => entry = ctx.startStepIndex
  | .llm step | .intent step => ctx.startStepIndex ≤ step ∧ step < ctx.stepIndex
  | .tool index => index < ctx.toolIndex
  | .finish _ | .suspended _ | .error | .timer => False

/-- The context is that of the attempt with this input. -/
structure Scoped (input : ActivationInput) (ctx : ActivationContext) : Prop where
  entityKey : ctx.entityKey = input.entityKey
  seq : ctx.seq = input.seq
  startStepIndex : ctx.startStepIndex = input.stepIndex

/-- The trace surface is that of the attempt. -/
structure TracesOwn (py : PyLib) (ctx : ActivationContext) : Prop where
  entityKey : ctx.trace.entityKey = ctx.entityKey
  seq : ctx.trace.seq = ctx.seq
  spanId : ctx.trace.spanId = spanIdFor py ctx.entityKey ctx.seq roleActivation ctx.startStepIndex

/-- The staged events stand for pairwise distinct occurrences of the attempt, the first of them its
start; the model calls that the program is in have had no event yet. -/
structure Staging (py : PyLib) (input : ActivationInput) (ctx : ActivationContext)
    (entered : List ModelCall) (marks : List Mark) : Prop where
  scope : ctx.Scoped input
  own : ctx.TracesOwn py
  begun : ctx.startStepIndex ≤ ctx.stepIndex
  events : List.Forall₂ (Marked py ctx.entityKey) (marks.map (ctx.seq, ·)) ctx.traces
  nodup : marks.Nodup
  started : .start ctx.startStepIndex ∈ marks
  within : ∀ m ∈ marks, ctx.Within m
  enteredNodup : (entered.map ModelCall.step).Nodup
  enteredWithin : ∀ c ∈ entered, ctx.Within (.llm c.step) ∧ .llm c.step ∉ marks

/-- A later context of the same attempt, with the events staged in between. -/
structure Later (ctx ctx' : ActivationContext) (new : List TraceEvent) : Prop where
  entityKey : ctx'.entityKey = ctx.entityKey
  seq : ctx'.seq = ctx.seq
  trace : ctx'.trace = ctx.trace
  startStepIndex : ctx'.startStepIndex = ctx.startStepIndex
  stepIndex : ctx.stepIndex ≤ ctx'.stepIndex
  toolIndex : ctx.toolIndex ≤ ctx'.toolIndex
  traces : ctx'.traces = ctx.traces ++ new

variable {py : PyLib} {input : ActivationInput} {ctx ctx' ctx'' : ActivationContext}
  {entered : List ModelCall} {marks : List Mark} {new new' : List TraceEvent}

theorem Later.quiet (hkey : ctx'.entityKey = ctx.entityKey) (hseq : ctx'.seq = ctx.seq)
    (htrace : ctx'.trace = ctx.trace) (hstart : ctx'.startStepIndex = ctx.startStepIndex)
    (hstep : ctx.stepIndex ≤ ctx'.stepIndex) (htool : ctx.toolIndex ≤ ctx'.toolIndex)
    (htraces : ctx'.traces = ctx.traces) : ctx.Later ctx' [] :=
  ⟨hkey, hseq, htrace, hstart, hstep, htool, by rw [htraces, List.append_nil]⟩

theorem Later.trans (h : ctx.Later ctx' new) (h' : ctx'.Later ctx'' new') :
    ctx.Later ctx'' (new ++ new') :=
  ⟨h'.entityKey.trans h.entityKey, h'.seq.trans h.seq, h'.trace.trans h.trace,
    h'.startStepIndex.trans h.startStepIndex, h.stepIndex.trans h'.stepIndex,
    h.toolIndex.trans h'.toolIndex, by rw [h'.traces, h.traces, List.append_assoc]⟩

theorem Later.scoped (h : ctx.Later ctx' new) (hscope : ctx.Scoped input) : ctx'.Scoped input :=
  ⟨h.entityKey.trans hscope.entityKey, h.seq.trans hscope.seq,
    h.startStepIndex.trans hscope.startStepIndex⟩

theorem Later.own (h : ctx.Later ctx' new) (hown : ctx.TracesOwn py) : ctx'.TracesOwn py := by
  refine ⟨?_, ?_, ?_⟩
  · rw [h.trace, h.entityKey, hown.entityKey]
  · rw [h.trace, h.seq, hown.seq]
  · rw [h.trace, h.entityKey, h.seq, h.startStepIndex, hown.spanId]

/-- What an attempt has had, it has had later on. -/
theorem Later.within (h : ctx.Later ctx' new) {m : Mark} (hm : ctx.Within m) : ctx'.Within m := by
  have hstep := h.stepIndex
  have htool := h.toolIndex
  cases m <;> simp only [Within, h.startStepIndex] at hm ⊢ <;> omega

/-- A context that has staged nothing more. -/
theorem Staging.quiet (h : ctx.Staging py input entered marks) (hl : ctx.Later ctx' []) :
    ctx'.Staging py input entered marks := by
  refine ⟨hl.scoped h.scope, hl.own h.own, ?_, ?_, h.nodup, ?_,
    fun m hm => hl.within (h.within m hm), h.enteredNodup,
    fun c hc => ⟨hl.within (h.enteredWithin c hc).1, (h.enteredWithin c hc).2⟩⟩
  · rw [hl.startStepIndex]
    exact h.begun.trans hl.stepIndex
  · rw [hl.entityKey, hl.seq, hl.traces, List.append_nil]
    exact h.events
  · rw [hl.startStepIndex]
    exact h.started

/-- A context that has staged the event of a new occurrence, one that no open model call stands
for. -/
theorem Staging.stage (h : ctx.Staging py input entered marks) {event : TraceEvent} {m : Mark}
    (hl : ctx.Later ctx' [event]) (hm : Marked py ctx.entityKey (ctx.seq, m) event)
    (hfresh : m ∉ marks) (hwithin : ctx'.Within m) (hopen : ∀ c ∈ entered, m ≠ .llm c.step) :
    ctx'.Staging py input entered (marks ++ [m]) := by
  refine ⟨hl.scoped h.scope, hl.own h.own, ?_, ?_, ?_, ?_, ?_, h.enteredNodup, fun c hc => ?_⟩
  · rw [hl.startStepIndex]
    exact h.begun.trans hl.stepIndex
  · rw [hl.entityKey, hl.seq, hl.traces, List.map_append]
    exact List.rel_append h.events (.cons hm .nil)
  · rw [List.nodup_append]
    refine ⟨h.nodup, List.nodup_singleton m, fun a ha b hb hab => hfresh ?_⟩
    rwa [hab, List.mem_singleton.mp hb] at ha
  · rw [hl.startStepIndex]
    exact List.mem_append_left _ h.started
  · intro m' hm'
    rcases List.mem_append.mp hm' with hm' | hm'
    · exact hl.within (h.within m' hm')
    · rw [List.mem_singleton.mp hm']
      exact hwithin
  · obtain ⟨hin, hnot⟩ := h.enteredWithin c hc
    refine ⟨hl.within hin, fun hm' => ?_⟩
    rcases List.mem_append.mp hm' with hm' | hm'
    · exact hnot hm'
    · exact hopen c hc (List.mem_singleton.mp hm').symm

/-- Some of the open model calls are given up. -/
theorem Staging.sublist (h : ctx.Staging py input entered marks) {entered' : List ModelCall}
    (hsub : entered'.Sublist entered) : ctx.Staging py input entered' marks :=
  { h with
    enteredNodup := h.enteredNodup.sublist (hsub.map _)
    enteredWithin := fun c hc => h.enteredWithin c (hsub.subset hc) }

/-- A model call is entered at the step that the cursor was at. -/
theorem Staging.enter (h : ctx.Staging py input entered marks) (hl : ctx.Later ctx' [])
    (hstep : ctx'.stepIndex = ctx.stepIndex + 1) {call : ModelCall}
    (hcall : call.step = ctx.stepIndex) :
    ctx'.Staging py input (call :: entered) marks := by
  have hnew : ¬ ctx.Within (.llm call.step) := by
    simp only [Within, hcall]
    omega
  have hwithin : ctx'.Within (.llm call.step) := by
    have := h.begun
    simp only [Within, hl.startStepIndex, hstep, hcall]
    omega
  refine { h.quiet hl with enteredNodup := ?_, enteredWithin := ?_ }
  · rw [List.map_cons, List.nodup_cons]
    refine ⟨fun hmem => hnew ?_, h.enteredNodup⟩
    obtain ⟨c, hc, heq⟩ := List.mem_map.mp hmem
    rw [← heq]
    exact (h.enteredWithin c hc).1
  · intro c hc
    rcases List.mem_cons.mp hc with rfl | hc
    · exact ⟨hwithin, fun hm => hnew (h.within _ hm)⟩
    · exact (h.quiet hl).enteredWithin c hc

/-! ### What each operation stages -/

/-- An event that the trace surface of the attempt stamps stands for its step, or for the attempt
when it is one of its ends. -/
theorem TracesOwn.marked (hown : ctx.TracesOwn py) {event : TraceEvent} {m : Mark}
    (hblank : event.traceId = [] ∧ event.spanId = []) (hseq : event.seq = ctx.seq)
    (htype : event.eventType = m.eventType) (hrole : roleForEventType event.eventType = m.role)
    (hindex : m.index =
      if m.role = roleActivation then ctx.startStepIndex else event.stepIndex) :
    Marked py ctx.entityKey (ctx.seq, m) (ctx.trace.stamp py event) := by
  rw [← hown.entityKey, ← hown.seq]
  refine marked_stamp ?_ hblank (hseq.trans hown.seq.symm) htype hrole hindex
  rw [hown.entityKey, hown.seq]
  exact hown.spanId

theorem charge_later (usage : Option TokenUsage) : ctx.Later (ctx.charge usage).1 [] := by
  unfold charge
  split <;> exact .quiet rfl rfl rfl rfl le_rfl le_rfl rfl

/-- The tail of `call_model` stages the event of its step, unless the decoder raises. -/
theorem finishModel_later (cfg : ContextConfig) (hown : ctx.TracesOwn py) (step : ℕ)
    (cacheHit : Bool) (modelId : String) (response : Bytes) :
    ∃ new, ctx.Later (ctx.finishModel py cfg step cacheHit modelId response).1 new ∧
      (new = [] ∨ ∃ event, new = [event] ∧ Marked py ctx.entityKey (ctx.seq, .llm step) event) := by
  unfold finishModel
  split
  · exact ⟨[], .quiet rfl rfl rfl rfl le_rfl le_rfl rfl, .inl rfl⟩
  · rename_i usage _
    have hstaged : ctx.Later (ctx.stageLlmTrace py step cacheHit modelId usage) _ :=
      ⟨rfl, rfl, rfl, rfl, le_rfl, le_rfl, rfl⟩
    refine ⟨_, hstaged.trans (charge_later _), .inr ⟨_, List.append_nil _, ?_⟩⟩
    exact hown.marked ⟨rfl, rfl⟩ rfl rfl rfl rfl

/-- The tail of `call_model`, at a step that has had no event. -/
theorem Staging.finishModel (h : ctx.Staging py input entered marks) (cfg : ContextConfig)
    (step : ℕ)
    (cacheHit : Bool) (modelId : String) (response : Bytes) (hwithin : ctx.Within (.llm step))
    (hfresh : .llm step ∉ marks) (hopen : ∀ c ∈ entered, c.step ≠ step) :
    ∃ marks', (ctx.finishModel py cfg step cacheHit modelId response).1.Staging py input entered
      marks' := by
  obtain ⟨new, hl, rfl | ⟨event, rfl, hm⟩⟩ :=
    finishModel_later cfg h.own step cacheHit modelId response
  · exact ⟨marks, h.quiet hl⟩
  · refine ⟨_, h.stage hl hm hfresh (hl.within hwithin) fun c hc heq => hopen c hc ?_⟩
    exact (Mark.llm.inj heq).symm

theorem Staging.stageIntent (h : ctx.Staging py input entered marks) (cfg : ContextConfig)
    (toolName argsJson : String) (kind : IntentKind) (ttlMs : Option Int) :
    ∃ marks', (ctx.stageIntent py cfg toolName argsJson kind ttlMs).2.Staging py input entered
      marks' := by
  have hnew : ¬ ctx.Within (.intent ctx.stepIndex) := by simp [Within]
  refine ⟨_, h.stage (m := .intent ctx.stepIndex)
    ⟨rfl, rfl, rfl, rfl, Nat.le_succ _, le_rfl, rfl⟩ ?_
    (fun hm => hnew (h.within _ hm)) ⟨h.begun, Nat.lt_succ_self _⟩ (by simp)⟩
  exact h.own.marked ⟨rfl, rfl⟩ h.own.seq rfl rfl rfl

theorem Staging.toolLeave (h : ctx.Staging py input entered marks) (toolName : String)
    (elapsedNs : Int) :
    (ctx.toolLeave py toolName elapsedNs).Staging py input entered
      (marks ++ [.tool ctx.toolIndex]) := by
  have hnew : ¬ ctx.Within (.tool ctx.toolIndex) := by simp [Within]
  refine h.stage ⟨rfl, rfl, rfl, rfl, le_rfl, Nat.le_succ _, rfl⟩ ⟨h.own.seq, ?_, ?_, rfl⟩
    (fun hm => hnew (h.within _ hm)) (Nat.lt_succ_self ctx.toolIndex) (by simp)
  · simp only [ActivationTrace.toolCall, ActivationTrace.event, ActivationTrace.stamp,
      ActivationTrace.traceId, h.own.entityKey, h.own.seq, if_true]
  · simp only [ActivationTrace.toolCall, h.own.entityKey, h.own.seq]
    rfl

theorem Staging.modelEnter (h : ctx.Staging py input entered marks) (cfg : ContextConfig)
    (request : LlmRequest) :
    ∃ marks', (ctx.modelEnter py cfg request).1.Staging py input
      (CtxOp.enteredAfter entered (.modelEnter request) (ctx.modelEnter py cfg request).2)
        marks' := by
  have hadvance : ctx.Later ctx.advanceStep.2 [] :=
    .quiet rfl rfl rfl rfl (Nat.le_succ _) le_rfl rfl
  unfold ActivationContext.modelEnter
  split
  · exact ⟨marks, h⟩
  · dsimp only
    split
    · exact ⟨marks, h.quiet hadvance⟩
    · rename_i cacheKey hkey
      have hlookup : ctx.Later
          { ctx.advanceStep.2 with replayCache := (ctx.replayCache.get cacheKey).1 } [] :=
        hadvance.trans (.quiet rfl rfl rfl rfl le_rfl le_rfl rfl)
      split
      · exact ⟨marks, h.enter hlookup rfl rfl⟩
      · rename_i entry hentry
        -- A hit is finished at once, at the step that the cursor was at.
        have hnew : ¬ ctx.Within (.llm ctx.stepIndex) := by simp [Within]
        have hopen (c : ModelCall) (hc : c ∈ entered) : c.step ≠ ctx.stepIndex := fun heq =>
          hnew (heq ▸ (h.enteredWithin c hc).1)
        obtain ⟨marks', hfinish⟩ := (h.quiet hlookup).finishModel cfg ctx.stepIndex true
          request.modelId entry.response ⟨h.begun, Nat.lt_succ_self _⟩
          (fun hm => hnew (h.within _ hm)) hopen
        refine ⟨marks', ?_⟩
        split
        · rename_i c e heq
          exact (congrArg Prod.fst heq) ▸ hfinish
        · rename_i c heq
          exact (congrArg Prod.fst heq) ▸ hfinish

theorem Staging.modelLeave (h : ctx.Staging py input entered marks) (cfg : ContextConfig)
    {call : ModelCall} (hcall : call ∈ entered) (response : Bytes) (elapsedNs : Int) :
    ∃ marks', (ctx.modelLeave py cfg call response elapsedNs).1.Staging py input
      (entered.erase call)
      marks' := by
  obtain ⟨hwithin, hfresh⟩ := h.enteredWithin call hcall
  have hput : ctx.Later { ctx with
      replayCache := ctx.replayCache.put py call.cacheKey response
      tally := { ctx.tally with
        llmCalls := ctx.tally.llmCalls + 1
        llmMs := ctx.tally.llmMs ++ [elapsedNs / nsPerMs] } } [] :=
    .quiet rfl rfl rfl rfl le_rfl le_rfl rfl
  have hopen (c : ModelCall) (hc : c ∈ entered.erase call) : c.step ≠ call.step := by
    have hperm : (entered.map ModelCall.step).Perm
        (call.step :: (entered.erase call).map ModelCall.step) :=
      (List.perm_cons_erase hcall).map ModelCall.step
    have hnodup := (hperm.nodup_iff.mp h.enteredNodup)
    exact fun heq => (List.nodup_cons.mp hnodup).1 (heq ▸ List.mem_map_of_mem hc)
  obtain ⟨marks', hfinish⟩ :=
    ((h.sublist (List.erase_sublist ..)).quiet hput).finishModel cfg call.step
    false call.modelId response (hput.within hwithin) hfresh hopen
  refine ⟨marks', ?_⟩
  unfold ActivationContext.modelLeave
  dsimp only
  split
  · rename_i c e heq
    exact (congrArg Prod.fst heq) ▸ hfinish
  · rename_i c heq
    exact (congrArg Prod.fst heq) ▸ hfinish

/-- Whatever an operation of an orderly program answers, the staged events stand for pairwise
distinct occurrences. -/
theorem Staging.perform (h : ctx.Staging py input entered marks) (cfg : ContextConfig) {op : CtxOp}
    (hop : op.Allowed entered) :
    ∃ marks', (perform py cfg op ctx).1.Staging py input
      (op.enteredAfter entered (perform py cfg op ctx).2) marks' := by
  cases op with
  | act toolName argsJson ttlMs => exact h.stageIntent cfg _ _ _ _
  | requestApproval argsJson channel ttlMs => exact h.stageIntent cfg _ _ _ _
  | modelEnter request => exact h.modelEnter cfg request
  | modelLeave call response elapsedNs => exact h.modelLeave cfg hop response elapsedNs
  | toolLeave toolName elapsedNs => exact ⟨_, h.toolLeave toolName elapsedNs⟩
  | stageTrace event => exact hop.elim
  | longtermSave key value =>
    refine ⟨marks, h.quiet ?_⟩
    simp only [ActivationContext.perform, ActivationContext.longtermSave]
    split_ifs <;> exact .quiet rfl rfl rfl rfl le_rfl le_rfl rfl
  | _ => exact ⟨marks, h.quiet (.quiet rfl rfl rfl rfl le_rfl le_rfl rfl)⟩

end ActivationContext

/-- **Orderly programs stage each occurrence once.** Whatever an orderly program does and whatever
the world answers, the staged events stand for pairwise distinct occurrences of the attempt. -/
theorem Prog.run_staging {py : PyLib} (cfg : ContextConfig) {ρ : Type} (answers : Answers)
    (p : Prog ρ) (awaits : ℕ) {input : ActivationInput} {ctx : ActivationContext}
      {entered : List ModelCall}
    {marks : List Mark} (hp : p.Orderly entered) (h : ctx.Staging py input entered marks) :
    ∃ marks', (p.run py cfg answers awaits ctx).ctx.Staging py input [] marks' := by
  induction p generalizing awaits ctx entered marks with
  | ret r => exact ⟨marks, h.sublist (List.nil_sublist _)⟩
  | raise e => exact ⟨marks, h.sublist (List.nil_sublist _)⟩
  | read k ih => exact ih ctx awaits (hp ctx) h
  | perform op k ih =>
    obtain ⟨hallowed, hrest⟩ := hp
    obtain ⟨marks', h'⟩ := h.perform cfg hallowed
    exact ih _ awaits (hrest _) h'
  | await a k ih => exact ih (answers awaits a) (awaits + 1) (hp _) h

/-! ### What the events of a result stand for -/

section Result

variable {py : PyLib} {cfg : ContextConfig} {input : ActivationInput} {ctx : ActivationContext}

variable (py) in
/-- The start of an attempt, with its size when it is a batch, is stamped. -/
theorem startEvent_eq (ctx : ActivationContext) (batchTrigger : String) :
    ∃ attributes, startEvent py ctx batchTrigger = ctx.trace.stamp py {
      entityKey := ctx.trace.entityKey, seq := ctx.trace.seq, stepIndex := 0,
      eventType := .activationStart, attributes := attributes, startMs := ctx.trace.nowMs,
      endMs := ctx.trace.nowMs } := by
  unfold startEvent
  dsimp only
  split_ifs <;> exact ⟨_, rfl⟩

/-- An attempt begins at the step it enters at, with nothing staged. -/
structure Begun (py : PyLib) (input : ActivationInput) (ctx : ActivationContext) : Prop where
  scope : ctx.Scoped input
  own : ctx.TracesOwn py
  stepIndex : ctx.stepIndex = input.stepIndex
  traces : ctx.traces = []

theorem new_begun (hnew : ActivationContext.new py cfg input = .ok ctx) : Begun py input ctx := by
  unfold ActivationContext.new at hnew
  split_ifs at hnew
  cases hnew
  exact ⟨⟨rfl, rfl, rfl⟩, ⟨rfl, rfl, rfl⟩, rfl, rfl⟩

/-- The first event of an attempt is that of its start. -/
theorem Begun.staging (h : Begun py input ctx) (batchTrigger : String) :
    (ctx.stageTrace py (startEvent py ctx batchTrigger)).Staging py input []
      [.start input.stepIndex] := by
  obtain ⟨attributes, hevent⟩ := startEvent_eq py ctx batchTrigger
  have hstart := h.scope.startStepIndex
  have hmarked : Marked py ctx.entityKey (ctx.seq, .start input.stepIndex)
      (ctx.trace.stamp py (startEvent py ctx batchTrigger)) := by
    rw [hevent, ActivationTrace.stamp_stamp]
    exact h.own.marked ⟨rfl, rfl⟩ h.own.seq rfl rfl hstart.symm
  refine ⟨⟨h.scope.entityKey, h.scope.seq, hstart⟩, ⟨h.own.entityKey, h.own.seq, h.own.spanId⟩, ?_,
    ?_, List.nodup_singleton _, ?_, ?_, List.nodup_nil, by simp⟩
  · exact (hstart.trans h.stepIndex.symm).le
  · simp only [ActivationContext.stageTrace, h.traces, List.nil_append]
    exact .cons hmarked .nil
  · exact List.mem_singleton.mpr (congrArg Mark.start hstart)
  · intro m hm
    rw [List.mem_singleton.mp hm]
    exact hstart.symm

/-- An occurrence of an attempt that entered at `entry`, left its cursor at `cursor`, and ran
`tools` tools inline. -/
def Mark.Of (entry cursor tools : ℕ) (suspends : Bool) : Mark → Prop
  | .start n | .finish n => n = entry
  | .llm step | .intent step => entry ≤ step ∧ step < cursor
  | .tool index => index < tools
  | .suspended step => step = cursor ∧ suspends = true
  | .error | .timer => False

/-- What the events of a result stand for: pairwise distinct occurrences of the attempt, its start
among them. -/
structure Occurrences (py : PyLib) (input : ActivationInput) (result : ActivationResult)
    (ctx : ActivationContext) (marks : List Mark) : Prop where
  begun : input.stepIndex ≤ ctx.stepIndex
  continuation : ∀ cont ∈ result.continuation, cont.stepIndex = ctx.stepIndex
  events : List.Forall₂ (Marked py input.entityKey) (marks.map (input.seq, ·)) result.traces
  nodup : marks.Nodup
  started : .start input.stepIndex ∈ marks
  within : ∀ m ∈ marks,
    m.Of input.stepIndex ctx.stepIndex ctx.toolIndex result.continuation.isSome

theorem finishActivation_traces {schema : StateSchema} {w : World} {status : ActivationStatus}
    {outputs : List Bytes} {continuation : Option Continuation} {result : ActivationResult}
    (h : finishActivation py schema w ctx status outputs continuation = .ok result) :
    result.traces = ctx.traces ∧ result.continuation = continuation := by
  unfold finishActivation at h
  split at h
  · cases h
  · cases h
    exact ⟨rfl, rfl⟩

/-- What is staged by the commit tail, followed by the final events. -/
private theorem Occurrences.of_staging {marks : List Mark} (final : List Mark)
    {result : ActivationResult} (h : ctx.Staging py input [] marks) {events : List TraceEvent}
    (htraces : result.traces = ctx.traces ++ events)
    (hcont : ∀ cont ∈ result.continuation, cont.stepIndex = ctx.stepIndex)
    (hfinal : List.Forall₂ (Marked py ctx.entityKey) (final.map (ctx.seq, ·)) events)
    (hnodup : final.Nodup) (hfresh : ∀ m ∈ final, ¬ ctx.Within m)
    (hof : ∀ m ∈ final,
      m.Of input.stepIndex ctx.stepIndex ctx.toolIndex result.continuation.isSome) :
    Occurrences py input result ctx (marks ++ final) := by
  obtain ⟨⟨hkey, hseq, hstart⟩, hown, hbegun, hevents, hmarks, hstarted, hwithin, -, -⟩ := h
  refine ⟨hstart ▸ hbegun, hcont, ?_, ?_, ?_, ?_⟩
  · rw [htraces, List.map_append, ← hkey, ← hseq]
    exact List.rel_append hevents hfinal
  · rw [List.nodup_append]
    exact ⟨hmarks, hnodup, fun a ha b hb hab => hfresh b hb (hab ▸ hwithin a ha)⟩
  · exact List.mem_append_left _ (hstart ▸ hstarted)
  · intro m hm
    rcases List.mem_append.mp hm with hm | hm
    · have := hwithin m hm
      cases m <;> simp_all [ActivationContext.Within, Mark.Of]
    · exact hof m hm

/-- Folding an outcome stages the end of the attempt, and its suspension before that. -/
theorem foldOutcome_occurrences {schema : StateSchema} {defaultHitlTimeoutMs : Int} {w : World}
    {outcome : Outcome} {result : ActivationResult} {marks : List Mark}
    (h : ctx.Staging py input [] marks)
    (hfold : foldOutcome py schema defaultHitlTimeoutMs w ctx outcome = .ok result) :
    ∃ marks, Occurrences py input result ctx marks := by
  have hstart := h.scope.startStepIndex
  have hend (status : String) : Marked py ctx.entityKey (ctx.seq, .finish input.stepIndex)
      (ctx.trace.activationEnd py status ctx.stepIndex) :=
    h.own.marked ⟨rfl, rfl⟩ h.own.seq rfl rfl hstart.symm
  cases outcome with
  | other repr => cases hfold
  | complete output =>
    obtain ⟨htraces, hcont⟩ := finishActivation_traces hfold
    refine ⟨_, .of_staging [.finish input.stepIndex] h htraces (by simp [hcont])
      (.cons ?_ .nil) (List.nodup_singleton _) (by simp [ActivationContext.Within])
      (by simp [Mark.Of])⟩
    rw [ActivationTrace.activationEnd, ActivationTrace.event, ActivationTrace.stamp_stamp]
    exact hend "completed"
  | suspend snapshot adapter timeoutMs =>
    obtain ⟨htraces, hcont⟩ := finishActivation_traces hfold
    simp only [ActivationContext.stageTrace, List.append_assoc] at htraces
    refine ⟨_, .of_staging [.suspended ctx.stepIndex, .finish input.stepIndex] h htraces ?_
      (.cons ?_ (.cons ?_ .nil)) (by simp) (by simp [ActivationContext.Within])
      (by simp [Mark.Of, hcont])⟩
    · rw [hcont]
      intro cont hmem
      cases hmem
      rfl
    · rw [ActivationTrace.suspended, ActivationTrace.event, ActivationTrace.stamp_stamp]
      exact h.own.marked ⟨rfl, rfl⟩ h.own.seq rfl rfl rfl
    · rw [ActivationTrace.activationEnd, ActivationTrace.event, ActivationTrace.stamp_stamp]
      exact hend "suspended"

end Result

namespace AgentDoFn

variable {d : AgentDoFn} {py : PyLib} {w : World} {input : ActivationInput}

/-- The agent and the summarizer leave the trace events to the context. -/
structure Orderly (d : AgentDoFn) : Prop where
  agent : d.agent.Orderly []
  summarizer : ∀ summarizer ∈ d.summarizer, summarizer.compact.Orderly []

theorem runSummarizer_staging (h : d.Orderly) (cfg : ContextConfig) (answers : Answers)
    {e : ProgEnd Outcome} {marks : List Mark} (hs : e.ctx.Staging py input [] marks) :
    ∃ marks', (runSummarizer py cfg d.summarizer answers e).1.Staging py input [] marks' := by
  unfold runSummarizer
  split
  · exact ⟨marks, hs⟩
  · rename_i summarizer hsome
    split_ifs
    · exact Prog.run_staging cfg answers _ e.awaits (h.summarizer summarizer hsome) hs
    · exact ⟨marks, hs⟩

/-- **The events of a result stand for pairwise distinct occurrences**, of the attempt that came to
it. -/
theorem activate_occurrences (h : d.Orderly) {result : ActivationResult}
    (hresult : d.activate py w input = .ok result) :
    ∃ ctx marks, d.commitTail py w input = some ctx ∧ Occurrences py input result ctx marks := by
  obtain ⟨-, ctx, outcome, htail, hfold⟩ := activate_fold hresult
  obtain ⟨begun, hnew, hctx⟩ := commitTail_eq htail
  have hbegun := (new_begun hnew).staging input.batchTrigger
  obtain ⟨_, hagent⟩ := Prog.run_staging d.contextConfig w.answers d.agent 0 h.agent hbegun
  obtain ⟨_, hsummary⟩ := runSummarizer_staging h d.contextConfig w.answers hagent
  rw [hctx] at hsummary
  obtain ⟨marks, hmarks⟩ := foldOutcome_occurrences hsummary hfold
  exact ⟨ctx, marks, htail, hmarks⟩

end AgentDoFn

end BeamAgents
