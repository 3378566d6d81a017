import BeamAgents.Core.DoFn

/-!
# What a call of the transform can do

One inversion for all four entry points. A call that does not raise performs, after the effects of
buffering an event if it buffered one, one of: quiet effects only (it failed, was refused or had
nothing to do), the commit of a valid result, an escalation, the end of a suspension by `Deny` or
`Drop`, or a wipe. Facts about runs of the transform follow from the shapes, with no entry point
unfolded again.

## Main definitions

* `KeyState.core`: the part of the state that only a commit, a timeout or a wipe may touch.
* `Effect.quiet`, `Quiet`: effects that leave the core and the outputs proper alone.
* `AgentDoFn.Buffered`, `AgentDoFn.Did`: what a call did, each course told apart.
* `AgentDoFn.Shape`: the shape of what it did, all quiet courses taken together.

## Main results

* `AgentDoFn.call_did`, `AgentDoFn.call_shape`: the inversion.
* `AgentDoFn.applyAll_commit`: the state that a commit leaves.
-/

namespace BeamAgents

/-! ### Applying effects -/

/-- The elements that the effects emit, in order. -/
def outputsOf (effects : List Effect) : List Output :=
  effects.filterMap fun
    | .emit o => some o
    | _ => none

/-- The records that the effects emit on `.errors`, in order. -/
def errorsOf (effects : List Effect) : List ActivationError :=
  (outputsOf effects).filterMap fun
    | .errors error => some error
    | _ => none

section Outputs

variable {es fs : List Effect}

@[simp] theorem outputsOf_nil : outputsOf [] = [] := rfl

@[simp] theorem outputsOf_append : outputsOf (es ++ fs) = outputsOf es ++ outputsOf fs :=
  List.filterMap_append

@[simp] theorem outputsOf_emit (o : Output) : outputsOf (.emit o :: es) = o :: outputsOf es := rfl

@[simp] theorem outputsOf_observe (distribution : Distribution) (value : Int) :
    outputsOf (.observe distribution value :: es) = outputsOf es := rfl

@[simp] theorem outputsOf_incr (counter : Counter) (n : ℕ) :
    outputsOf (.incr counter n :: es) = outputsOf es := rfl

/-- A dead letter emits its record. -/
@[simp] theorem outputsOf_deadLetter (key : Bytes) (reason detail : String) (t : Int) :
    outputsOf (deadLetter key reason detail t) = [.errors ⟨key, reason, detail, t⟩] := rfl

/-- Effects that emit nothing. -/
theorem outputsOf_eq_nil (h : ∀ e ∈ es, ∀ o, e ≠ .emit o) : outputsOf es = [] := by
  refine List.filterMap_eq_nil_iff.mpr fun e he => ?_
  cases e with
  | emit o => exact absurd rfl (h _ he o)
  | _ => rfl

theorem outputsOf_map_emit {α : Type} (l : List α) (f : α → Output) :
    outputsOf (l.map fun a => .emit (f a)) = l.map f := by
  rw [outputsOf, List.filterMap_map, ← List.filterMap_eq_map]
  rfl

@[simp] theorem errorsOf_nil : errorsOf [] = [] := rfl

@[simp] theorem errorsOf_append : errorsOf (es ++ fs) = errorsOf es ++ errorsOf fs := by
  rw [errorsOf, outputsOf_append, List.filterMap_append]
  rfl

@[simp] theorem errorsOf_deadLetter (key : Bytes) (reason detail : String) (t : Int) :
    errorsOf (deadLetter key reason detail t) = [⟨key, reason, detail, t⟩] := rfl

/-- Effects that emit nothing emit no record. -/
theorem errorsOf_of_outputsOf (h : outputsOf es = []) : errorsOf es = [] := by
  rw [errorsOf, h, List.filterMap_nil]

end Outputs

/-- What is done before the rest of a call stays done when the rest does not raise. -/
theorem Exit.after_eq_ok {es effects : List Effect} {x : Exit}
    (h : Exit.after es x = ⟨effects, none⟩) : ∃ fs, x = ⟨fs, none⟩ ∧ effects = es ++ fs := by
  obtain ⟨fs, raised⟩ := x
  simp only [after, Exit.mk.injEq] at h
  exact ⟨fs, by rw [h.2], h.1.symm⟩

/-- The cells, the pending bag, the counter and the HITL timer. -/
structure KeyCore where
  memory : Option MemoryBlob
  continuation : Option Continuation
  llmCache : Option LlmCacheBlob
  pending : List ToolIntent
  seq : ℕ
  hitlTimer : Option Int
  deriving DecidableEq, Repr

namespace KeyState

variable (s : KeyState)

/-- The core of a state. -/
def core : KeyCore where
  memory := s.memory
  continuation := s.continuation
  llmCache := s.llmCache
  pending := s.pending
  seq := s.seq
  hitlTimer := s.hitlTimer

@[simp] theorem applyAll_nil : s.applyAll [] = s := rfl

@[simp] theorem applyAll_cons (e : Effect) (es : List Effect) :
    s.applyAll (e :: es) = (s.apply e).applyAll es := rfl

theorem applyAll_append (es fs : List Effect) :
    s.applyAll (es ++ fs) = (s.applyAll es).applyAll fs :=
  List.foldl_append

theorem applyAll_addPending (intents : List ToolIntent) :
    s.applyAll (intents.map .addPending) = { s with pending := s.pending ++ intents } := by
  induction intents generalizing s with
  | nil => simp
  | cons i intents ih => simp [ih, apply]

end KeyState

/-- An effect that touches neither the core of the state nor the TTL mark, puts nothing on the
main output or on `.intents`, and does not count an activation. -/
def Effect.quiet : Effect → Bool
  | .clearBatch | .setFlush _ | .clearFlush | .observe .. => true
  | .incr counter _ => counter ≠ .activations
  | .emit (.errors _) | .emit (.traces _) | .emit (.snapshots _) => true
  | _ => false

/-- Quiet effects only. -/
def Quiet (es : List Effect) : Prop := ∀ e ∈ es, e.quiet = true

section Quiet

variable {es fs : List Effect} {e : Effect} {s : KeyState}

@[simp] theorem Quiet.nil : Quiet [] := by simp [Quiet]

@[simp] theorem quiet_cons : Quiet (e :: es) ↔ e.quiet = true ∧ Quiet es := by simp [Quiet]

@[simp] theorem quiet_append : Quiet (es ++ fs) ↔ Quiet es ∧ Quiet fs := by
  simp [Quiet, or_imp, forall_and]

theorem Quiet.flatMap {α : Type} {l : List α} {f : α → List Effect} (h : ∀ a ∈ l, Quiet (f a)) :
    Quiet (l.flatMap f) := by
  intro e he
  obtain ⟨a, ha, he⟩ := List.mem_flatMap.mp he
  exact h a ha e he

theorem core_apply_of_quiet (h : e.quiet = true) :
    (s.apply e).core = s.core ∧ (s.apply e).ttlTimer = s.ttlTimer := by
  cases e with
  | clearBatch | setFlush _ | clearFlush | emit _ | incr _ _ | observe _ _ => exact ⟨rfl, rfl⟩
  | _ => exact absurd h (by simp [Effect.quiet])

/-- Quiet effects leave the core and the TTL mark as they were. -/
theorem Quiet.applyAll (h : Quiet es) :
    (s.applyAll es).core = s.core ∧ (s.applyAll es).ttlTimer = s.ttlTimer := by
  induction es generalizing s with
  | nil => exact ⟨rfl, rfl⟩
  | cons e es ih =>
    obtain ⟨he, hes⟩ := quiet_cons.mp h
    obtain ⟨hcore, httl⟩ := core_apply_of_quiet (s := s) he
    obtain ⟨hcore', httl'⟩ := ih (s := s.apply e) hes
    exact ⟨hcore'.trans hcore, httl'.trans httl⟩

end Quiet

/-! ### The quiet parts of the entry points -/

section QuietParts

variable (py : PyLib) (d : AgentDoFn) (key : Bytes)

theorem quiet_deadLetter (reason detail : String) (t : Int) :
    Quiet (deadLetter key reason detail t) := by
  unfold deadLetter
  split_ifs <;> simp [Effect.quiet]

@[simp] theorem quiet_errorTrace (seq : ℕ) (now : Int) (reason errorType : String)
    (role : Option String) (failure : Option FailureContext) :
    (errorTrace py key seq now reason errorType role failure).quiet = true := rfl

theorem quiet_activationFailure (seq : ℕ) (now : Int) (failure : ActivationFailure) :
    Quiet (activationFailure py key seq now failure) := by
  cases failure with
  | timeout => simp [activationFailure, quiet_deadLetter]
  | failed context cause => simp [activationFailure, failedActivation, quiet_deadLetter]
  | raised e => simp [activationFailure, quiet_deadLetter]

theorem quiet_failedFlush (now : Int) (envelopes : List AgentEnvelope) (reason detail : String) :
    Quiet (AgentDoFn.failedFlush key now envelopes reason detail) := by
  refine quiet_append.mpr ⟨Quiet.flatMap fun _ _ => quiet_deadLetter _ _ _ _, ?_⟩
  simp [Effect.quiet]

theorem quiet_flushFailure (seq : ℕ) (now : Int) (envelopes : List AgentEnvelope)
    (batchDetail : String) (failure : ActivationFailure) :
    Quiet (AgentDoFn.flushFailure py key seq now envelopes batchDetail failure) := by
  cases failure <;> simp [AgentDoFn.flushFailure, quiet_failedFlush]

theorem quiet_refusedResume (now : Int) (intentId : String) (cont : Option Continuation)
    (detail : AdmissionDetail) (s : KeyState) :
    Quiet (AgentDoFn.refusedResume py key now intentId cont detail s) := by
  simp [AgentDoFn.refusedResume, quiet_deadLetter]

theorem quiet_rearmFlush (s : KeyState) (w : World) : Quiet (d.rearmFlush s w) := by
  unfold AgentDoFn.rearmFlush
  split_ifs <;> simp [Effect.quiet]

theorem quiet_wipedSuspension (fired : Int) (cont : Option Continuation) :
    Quiet (AgentDoFn.wipedSuspension py key fired cont) := by
  cases cont <;> simp [AgentDoFn.wipedSuspension, quiet_deadLetter]

theorem quiet_wipedBatch (fired : Int) (s : KeyState) : Quiet (d.wipedBatch key fired s) := by
  unfold AgentDoFn.wipedBatch
  split_ifs
  · exact .nil
  · exact Quiet.flatMap fun _ _ => quiet_deadLetter _ _ _ _

end QuietParts

/-! ### Metrics and emits -/

/-- An update of a metric other than the count of activations. -/
def Effect.metric : Effect → Bool
  | .incr counter _ => counter ≠ .activations
  | .observe .. => true
  | _ => false

/-- Metric updates only. -/
def Metrics (es : List Effect) : Prop := ∀ e ∈ es, e.metric = true

section Metrics

variable {es fs : List Effect} {e : Effect}

@[simp] theorem Metrics.nil : Metrics [] := by simp [Metrics]

@[simp] theorem metrics_cons : Metrics (e :: es) ↔ e.metric = true ∧ Metrics es := by
  simp [Metrics]

@[simp] theorem metrics_append : Metrics (es ++ fs) ↔ Metrics es ∧ Metrics fs := by
  simp [Metrics, or_imp, forall_and]

theorem Metrics.quiet (h : Metrics es) : Quiet es := by
  intro e he
  have hm := h e he
  cases e <;> simp_all [Effect.metric, Effect.quiet]

/-- Metric updates emit nothing. -/
theorem Metrics.outputs (h : Metrics es) : outputsOf es = [] :=
  outputsOf_eq_nil fun e he o heq => by
    have hm := h e he
    rw [heq] at hm
    cases hm

theorem metrics_incrBy {counter : Counter} (h : counter ≠ .activations) (n : ℕ) :
    Metrics (AgentDoFn.incrBy counter n) := by
  unfold AgentDoFn.incrBy
  split_ifs <;> simp [Effect.metric, h]

theorem metrics_recordFlush (caller : CommitOf) : Metrics (AgentDoFn.recordFlush caller) := by
  cases caller with
  | flush size trigger =>
    simp only [AgentDoFn.recordFlush]
    split_ifs <;> simp [Effect.metric]
  | _ => exact .nil

theorem metrics_recordTally (tally : ActivationTally) (ms : Int) :
    Metrics (AgentDoFn.recordTally tally ms) := by
  have hllm : Metrics (tally.llmMs.map (Effect.observe .llmMs)) := by
    simp [Metrics, Effect.metric]
  cases h : tally.usageObserved <;> simp [AgentDoFn.recordTally, h, hllm, Effect.metric]

/-- A commit counts one activation; its other records are updates of other metrics. -/
theorem recordCommit_eq (result : ActivationResult) (ms : Int) (caller : CommitOf) :
    ∃ rest, AgentDoFn.recordCommit result ms caller = .incr .activations :: rest ∧
      Metrics rest := by
  refine ⟨_, rfl, ?_⟩
  have hsuspended :
      Metrics (if result.status = .suspended then [.incr .suspensions] else []) := by
    split_ifs <;> simp [Effect.metric]
  simp [hsuspended, metrics_recordFlush, metrics_recordTally, metrics_incrBy, Effect.metric]

end Metrics

/-- An effect that leaves the state of the key as it is. -/
def Effect.stateless : Effect → Bool
  | .emit _ | .incr .. | .observe .. => true
  | _ => false

theorem KeyState.applyAll_stateless {es : List Effect} (h : ∀ e ∈ es, e.stateless = true)
    (s : KeyState) : s.applyAll es = s := by
  induction es with
  | nil => rfl
  | cons e es ih =>
    have he : s.apply e = s := by
      have := h e List.mem_cons_self
      cases e <;> first | rfl | exact absurd this (by simp [Effect.stateless])
    rw [applyAll_cons, he]
    exact ih fun e' he' => h e' (List.mem_cons_of_mem e he')

/-! ### The state that a commit leaves -/

/-- A timeout route that ends the suspension. -/
def Route.ends : Route → Bool
  | .escalate .. => false
  | .deny _ | .drop _ => true

namespace AgentDoFn

variable (d : AgentDoFn)

/-- The buffer after a commit. -/
def batchAfter (batch : List AgentEnvelope) : CommitOf → List AgentEnvelope
  | .flush .. => []
  | .start | .resume => batch

/-- The TTL mark that a commit sets. -/
def commitTtl (result : ActivationResult) (nowMs : Int) : Int :=
  match result.status, result.hitlDeadlineMs with
  | .suspended, some deadlineMs => max nowMs deadlineMs + d.ttlMs
  | _, _ => nowMs + d.ttlMs

/-- The HITL mark after a commit. -/
def commitHitl (result : ActivationResult) : Option Int :=
  match result.status with
  | .suspended => result.hitlDeadlineMs
  | .completed => none

/-- The flush mark once `_rearm_flush` has looked at the buffer. -/
def rearmed (s : KeyState) (w : World) : Option Int :=
  if d.batch.isSome ∧ s.batch ≠ [] then some w.wallNowMs else s.flushTimer

/-- The flush mark after a commit that found the state `s`. -/
def commitFlush (s : KeyState) (w : World) (result : ActivationResult) : CommitOf → Option Int
  | .flush .. => none
  | .resume => if result.continuation.isNone then d.rearmed s w else s.flushTimer
  | .start => s.flushTimer

theorem applyAll_rearmFlush (s s₀ : KeyState) (w : World) (hflush : s.flushTimer = s₀.flushTimer) :
    s.applyAll (d.rearmFlush s₀ w) = { s with flushTimer := d.rearmed s₀ w } := by
  simp only [rearmFlush, rearmed, ← hflush]
  cases d.batch <;> cases s₀.batch <;> simp [KeyState.apply]

theorem applyAll_commitCells (s : KeyState) (result : ActivationResult) (caller : CommitOf) :
    s.applyAll (commitCells result caller) =
      { s with
        memory := some result.memoryBlob
        llmCache := some result.cacheBlob
        continuation := result.continuation
        pending := result.intents
        batch := batchAfter s.batch caller
        seq := s.seq + 1 } := by
  simp only [commitCells, KeyState.applyAll_append, KeyState.applyAll_cons, KeyState.applyAll_nil,
    KeyState.applyAll_addPending]
  cases result.continuation <;> cases caller <;> rfl

theorem applyAll_commitTimers (s : KeyState) (result : ActivationResult) (nowMs : Int) :
    s.applyAll (d.commitTimers result nowMs) =
      { s with
        ttlTimer := some (d.commitTtl result nowMs)
        hitlTimer := commitHitl result } := by
  unfold commitTimers commitTtl commitHitl
  cases result.status <;> cases result.hitlDeadlineMs <;> rfl

theorem applyAll_commitFlushTimer (s s₀ : KeyState) (w : World) (result : ActivationResult)
    (caller : CommitOf) (hflush : s.flushTimer = s₀.flushTimer) :
    s.applyAll (d.commitFlushTimer s₀ w result caller) =
      { s with flushTimer := d.commitFlush s₀ w result caller } := by
  cases caller with
  | start => simp [commitFlushTimer, commitFlush, ← hflush]
  | flush size trigger => simp [commitFlushTimer, commitFlush, KeyState.apply]
  | resume =>
    simp only [commitFlushTimer, commitFlush]
    split_ifs
    · exact applyAll_rearmFlush d s s₀ w hflush
    · simp [← hflush]

theorem applyAll_recordCommit (s : KeyState) (result : ActivationResult) (ms : Int)
    (caller : CommitOf) : s.applyAll (recordCommit result ms caller) = s := by
  obtain ⟨rest, heq, hrest⟩ := recordCommit_eq result ms caller
  rw [heq]
  refine KeyState.applyAll_stateless (List.forall_mem_cons.mpr ⟨rfl, fun e he => ?_⟩) s
  have hm := hrest e he
  cases e <;> simp_all [Effect.metric, Effect.stateless]

theorem applyAll_commitOutputs (s : KeyState) (result : ActivationResult) :
    s.applyAll (commitOutputs result) = s := by
  refine KeyState.applyAll_stateless (fun e he => ?_) s
  simp only [commitOutputs, List.append_assoc, List.mem_append, List.mem_map] at he
  rcases he with ⟨_, -, rfl⟩ | ⟨_, -, rfl⟩ | ⟨_, -, rfl⟩ <;> rfl

/-- What a commit emits: the outputs, the intents and the traces of its result. -/
theorem outputsOf_commit (s : KeyState) (w : World) (result : ActivationResult) (nowMs : Int)
    (caller : CommitOf) :
    outputsOf (sampleActivation w :: d.commit s w result nowMs caller) =
      result.outputs.map .main ++ result.intents.map .intents ++ result.traces.map .traces := by
  have hcells : outputsOf (commitCells result caller) = [] := by
    refine outputsOf_eq_nil fun e he o heq => ?_
    subst heq
    cases hcont : result.continuation <;> cases caller <;> simp [commitCells, hcont] at he
  have htimers : outputsOf (d.commitTimers result nowMs) = [] := by
    unfold commitTimers
    split <;> rfl
  have hflush : outputsOf (d.commitFlushTimer s w result caller) = [] := by
    unfold commitFlushTimer rearmFlush
    cases caller with
    | start | flush size trigger => rfl
    | resume => split_ifs <;> rfl
  obtain ⟨rest, hrecord, hrest⟩ := recordCommit_eq result (activationMs w) caller
  simp only [sampleActivation, outputsOf_observe, commit, outputsOf_append, hcells, htimers, hflush,
    hrecord, outputsOf_incr, hrest.outputs, commitOutputs, outputsOf_map_emit, List.nil_append]

/-- A commit emits no record. -/
theorem errorsOf_commit (s : KeyState) (w : World) (result : ActivationResult) (nowMs : Int)
    (caller : CommitOf) :
    errorsOf (sampleActivation w :: d.commit s w result nowMs caller) = [] := by
  rw [errorsOf, outputsOf_commit]
  simp

theorem applyAll_sampleActivation (s : KeyState) (w : World) (es : List Effect) :
    s.applyAll (sampleActivation w :: es) = s.applyAll es := rfl

/-- **The state that a commit leaves**: every cell and bag of the result, the counter advanced by
one, and the three timers. -/
theorem applyAll_commit (s : KeyState) (w : World) (result : ActivationResult) (nowMs : Int)
    (caller : CommitOf) :
    s.applyAll (d.commit s w result nowMs caller) =
      { memory := some result.memoryBlob
        continuation := result.continuation
        llmCache := some result.cacheBlob
        pending := result.intents
        seq := s.seq + 1
        batch := batchAfter s.batch caller
        ttlTimer := some (d.commitTtl result nowMs)
        hitlTimer := commitHitl result
        flushTimer := d.commitFlush s w result caller } := by
  simp only [commit, KeyState.applyAll_append, applyAll_commitCells, applyAll_commitTimers,
    applyAll_recordCommit, applyAll_commitOutputs]
  exact applyAll_commitFlushTimer d _ s w result caller rfl

/-! ### The shapes of calls -/

/-- The state that buffering an event leaves. -/
theorem applyAll_bufferEffects (envelope : AgentEnvelope) (settings : BatchSettings)
    (s : KeyState) (w : World) :
    s.applyAll (d.bufferEffects envelope settings s w) =
      { s with
        batch := s.batch ++ [envelope]
        ttlTimer := some (envelope.eventTimeMs + d.ttlMs)
        flushTimer :=
          if s.batch = [] then some (w.wallNowMs + settings.maxWaitMs) else s.flushTimer } := by
  cases h : s.batch <;> simp [bufferEffects, h, KeyState.apply]

/-- The state that the end of a suspension leaves. -/
theorem applyAll_endSuspension (py : PyLib) (key : Bytes) (s : KeyState) (cont : Continuation)
    (fired : Int) (route : Route) (detail : String) (w : World) :
    s.applyAll (d.endSuspension py key cont fired route detail s w) =
      { s with
        continuation := none
        pending := []
        hitlTimer := none
        flushTimer := d.rearmed s w } := by
  have hrecord (s : KeyState) : s.applyAll (timeoutRecord key fired route detail) = s := by
    cases route <;> rfl
  simp only [endSuspension, KeyState.applyAll_append, hrecord, errorTrace]
  exact applyAll_rearmFlush d _ s w rfl

/-- The state that an escalation leaves. -/
theorem applyAll_escalate (py : PyLib) (key : Bytes) (s : KeyState) (cont : Continuation)
    (fired : Int) (toolName argsJson : String) (timeoutMs : Int) :
    s.applyAll (d.escalate py key cont fired toolName argsJson timeoutMs) =
      let intent := escalationIntent py key cont fired toolName argsJson timeoutMs
      { s with
        continuation := some (escalated cont intent)
        pending := s.pending ++ [intent]
        hitlTimer := some (fired + timeoutMs)
        ttlTimer := some (fired + timeoutMs + d.ttlMs) } := rfl

/-- The state that a wipe leaves: under batching the buffer and its mark go too. -/
theorem applyAll_wipe (s : KeyState) :
    s.applyAll d.wipe =
      { s with
        memory := none
        continuation := none
        llmCache := none
        pending := []
        seq := 0
        batch := if d.batch.isSome then [] else s.batch
        flushTimer := if d.batch.isSome then none else s.flushTimer } := by
  cases h : d.batch <;> simp [wipe, h, KeyState.apply]

end AgentDoFn

/-! ### The shapes of calls -/

/-- The element is an event: an `external_event`, or an envelope without a payload. -/
def AgentEnvelope.isEvent (e : AgentEnvelope) : Bool :=
  match e.payload with
  | .externalEvent _ | .unset => true
  | .toolResult _ | .approval _ | .exportRequest _ => false

/-- The intent that the element answers, when it is a tool result or an approval. -/
def AgentEnvelope.answers (e : AgentEnvelope) : Option String :=
  match e.payload with
  | .toolResult result => some result.intentId
  | .approval approval => some approval.intentId
  | .externalEvent _ | .unset | .exportRequest _ => none

/-- The intent id that a call answers. -/
def KeyCall.answers : KeyCall → Option String
  | .process envelope _ => envelope.answers
  | .onTtl .. | .onFlush _ | .onHitl .. => none

/-- The tool result that a resume is handed. -/
def AgentEnvelope.answerResult (e : AgentEnvelope) : Option ToolResult :=
  match e.payload with
  | .toolResult result => some result
  | _ => none

/-- The approval that a resume is handed. -/
def AgentEnvelope.answerApproval (e : AgentEnvelope) : Option Approval :=
  match e.payload with
  | .approval approval => some approval
  | _ => none

/-- No element both is an event and answers an intent. -/
theorem AgentEnvelope.not_isEvent {e : AgentEnvelope} {intentId : String}
    (h : e.answers = some intentId) : e.isEvent = false := by
  cases hp : e.payload <;> simp_all [answers, isEvent]

/-- An admitted resume: the intent is pending, and neither the deadline of the continuation nor the
expiry of the intent has passed. -/
theorem admissionFailure_eq_none {cont : Continuation} {pending : List ToolIntent}
    {intentId : String} {now : Int} :
    admissionFailure (some cont) pending intentId now = none ↔
      intentId ∈ cont.pendingIntentIds ∧ 0 < cont.deadlineMs ∧ now < cont.deadlineMs ∧
        ∀ i ∈ pending, i.intentId = intentId → intentExpired i now = false := by
  by_cases hid : intentId ∈ cont.pendingIntentIds
  · by_cases hdeadline : cont.deadlineMs ≤ 0 ∨ cont.deadlineMs ≤ now
    · simp only [admissionFailure, hid, not_true, if_false, hdeadline, if_true, reduceCtorEq,
        true_and, false_iff]
      omega
    · have hpos : 0 < cont.deadlineMs ∧ now < cont.deadlineMs := by omega
      simp [admissionFailure, hid, hdeadline, hpos]
  · simp [admissionFailure, hid]

namespace AgentDoFn

variable (d : AgentDoFn) (py : PyLib) (key : Bytes) (s : KeyState)

/-- What `_buffer` did before anything else in the call: nothing, or it buffered the event. -/
inductive Buffered : KeyCall → List Effect → Prop
  | no {c} : Buffered c []
  | yes {envelope settings w} (hbatch : d.batch = some settings) (hevent : envelope.isEvent)
      (hroom : bufferIsFull s.batch.length settings.maxBufferedEvents = false) :
      Buffered (.process envelope w) (d.bufferEffects envelope settings s w)

/-- The activation that a call ran: on whose behalf, and with which input. -/
inductive Activates : KeyCall → World → CommitOf → ActivationInput → Prop
  | start {envelope w memoryBlob cacheBlob} (hbatch : d.batch = none) (hevent : envelope.isEvent)
      (hmemory : d.schema.migrateMemory s.memory = .ok memoryBlob)
      (hcache : d.schema.migrateCache s.llmCache = .ok cacheBlob) :
      Activates (.process envelope w) w .start
        (startInput key envelope.eventTimeMs envelope.externalEvent s memoryBlob cacheBlob)
  | flush {c w first rest trigger memoryBlob cacheBlob} (hbatch : d.batch.isSome)
      (hcont : d.schema.migrateContinuation s.continuation = .ok none)
      (hmemory : d.schema.migrateMemory s.memory = .ok memoryBlob)
      (hcache : d.schema.migrateCache s.llmCache = .ok cacheBlob)
      (hbuffer : s.batch = first :: rest)
      (hcall : c = .onFlush w ∨ ∃ envelope, c = .process envelope w ∧ envelope.isEvent) :
      Activates c w (.flush (first :: rest).length trigger)
        (flushInput key first rest trigger s memoryBlob cacheBlob)
  | resume {envelope w cont intentId memoryBlob cacheBlob}
      (hanswers : envelope.answers = some intentId)
      (hcont : d.schema.migrateContinuation s.continuation = .ok (some cont))
      (hadmission : admissionFailure (some cont) s.pending intentId envelope.eventTimeMs = none)
      (hmemory : d.schema.migrateMemory s.memory = .ok memoryBlob)
      (hcache : d.schema.migrateCache s.llmCache = .ok cacheBlob) :
      Activates (.process envelope w) w .resume
        (resumeInput key envelope.eventTimeMs cont envelope.answerResult envelope.answerApproval
          memoryBlob cacheBlob)

theorem Activates.entityKey {d : AgentDoFn} {key : Bytes} {s : KeyState} {c : KeyCall} {w : World}
    {caller : CommitOf} {input : ActivationInput} (h : d.Activates key s c w caller input) :
    input.entityKey = key := by
  cases h <;> rfl

/-- A result that an activation of the transform came to is valid. -/
theorem activate_valid {d : AgentDoFn} {py : PyLib} {w : World} {input : ActivationInput}
    {result : ActivationResult} (h : d.activate py w input = .ok result) :
    ∃ cursor, result.Valid py d.schema input cursor := by
  unfold activate bridgeRun at h
  split_ifs at h
  exact runActivation_valid h

/-- What a call did that neither committed nor ended anything: nothing, or it exported the state, or
its activation failed, its answer was refused, or its event was shed. -/
inductive Uncommitted : KeyCall → List Effect → Prop
  | nothing {c} : Uncommitted c []
  | exported {envelope w snapshot} : Uncommitted (.process envelope w) [.emit (.snapshots snapshot)]
  | failed {envelope w seq now failure} :
      Uncommitted (.process envelope w)
        (sampleActivation w :: activationFailure py key seq now failure)
  | flushFailed {c w seq now envelopes batchDetail failure} :
      Uncommitted c
        (sampleActivation w :: flushFailure py key seq now envelopes batchDetail failure)
  | refused {envelope w now intentId cont detail} :
      Uncommitted (.process envelope w) (refusedResume py key now intentId cont detail s)
  | shed {envelope w detail now} :
      Uncommitted (.process envelope w) (deadLetter key reasonBatchOverflow detail now)

/-- What a call did in the state `s`, after any buffering, each of its courses told apart. -/
inductive Did : KeyCall → List Effect → Prop
  | uncommitted {c es} (h : Uncommitted py key s c es) : Did c es
  | commit {c w caller input result es} (h : d.Activates key s c w caller input)
      (hresult : d.activate py w input = .ok result)
      (hes : es = sampleActivation w :: d.commit s w result input.nowMs caller) : Did c es
  | escalate {micros w cont toolName argsJson timeoutMs detail}
      (hcont : d.schema.migrateContinuation s.continuation = .ok (some cont))
      (hdue : cont.deadlineMs ≤ firedAtMs micros)
      (hroute : d.routeTimeout key cont (firedAtMs micros) =
        (.escalate toolName argsJson timeoutMs, detail)) :
      Did (.onHitl micros w)
        (d.escalate py key cont (firedAtMs micros) toolName argsJson timeoutMs)
  | ended {micros w cont route detail}
      (hcont : d.schema.migrateContinuation s.continuation = .ok (some cont))
      (hdue : cont.deadlineMs ≤ firedAtMs micros)
      (hroute : d.routeTimeout key cont (firedAtMs micros) = (route, detail))
      (hends : route.ends) :
      Did (.onHitl micros w) (d.endSuspension py key cont (firedAtMs micros) route detail s w)
  | wiped {micros w cont}
      (hcont : d.schema.migrateContinuation s.continuation = .ok cont) :
      Did (.onTtl micros w)
        (wipedSuspension py key (firedAtMs micros) cont ++
          (d.wipedBatch key (firedAtMs micros) s ++ d.wipe))

/-- What a call did in the state `s`, after any buffering. -/
inductive Shape : KeyCall → List Effect → Prop
  | quiet {c es} (h : Quiet es) : Shape c es
  | commit {c w caller input result es} (h : d.Activates key s c w caller input)
      (hresult : d.activate py w input = .ok result)
      (hes : es = sampleActivation w :: d.commit s w result input.nowMs caller) : Shape c es
  | escalate {micros w cont toolName argsJson timeoutMs detail}
      (hcont : d.schema.migrateContinuation s.continuation = .ok (some cont))
      (hdue : cont.deadlineMs ≤ firedAtMs micros)
      (hroute : d.routeTimeout key cont (firedAtMs micros) =
        (.escalate toolName argsJson timeoutMs, detail)) :
      Shape (.onHitl micros w)
        (d.escalate py key cont (firedAtMs micros) toolName argsJson timeoutMs)
  | ended {micros w cont route detail}
      (hcont : d.schema.migrateContinuation s.continuation = .ok (some cont))
      (hdue : cont.deadlineMs ≤ firedAtMs micros)
      (hroute : d.routeTimeout key cont (firedAtMs micros) = (route, detail))
      (hends : route.ends) :
      Shape (.onHitl micros w) (d.endSuspension py key cont (firedAtMs micros) route detail s w)
  | wiped {micros w cont}
      (hcont : d.schema.migrateContinuation s.continuation = .ok cont) :
      Shape (.onTtl micros w)
        (wipedSuspension py key (firedAtMs micros) cont ++
          (d.wipedBatch key (firedAtMs micros) s ++ d.wipe))

section Courses

variable {d py key s} {c : KeyCall} {w : World} {effects : List Effect}

theorem start_did {envelope : AgentEnvelope} (hbatch : d.batch = none)
    (hevent : envelope.isEvent)
    (h : d.start py key envelope.eventTimeMs envelope.externalEvent s w = ⟨effects, none⟩) :
    d.Did py key s (.process envelope w) effects := by
  unfold start at h
  split at h
  · cases h
  rename_i memoryBlob hmemory
  split at h
  · cases h
  rename_i cacheBlob hcache
  split at h
  · cases h
    exact .uncommitted .failed
  · rename_i result hresult
    cases h
    exact .commit (.start hbatch hevent hmemory hcache) hresult rfl

theorem flush_did {first : AgentEnvelope} {rest : List AgentEnvelope} {trigger : String}
    (hbatch : d.batch.isSome) (hcont : d.schema.migrateContinuation s.continuation = .ok none)
    (hbuffer : s.batch = first :: rest)
    (hcall : c = .onFlush w ∨ ∃ envelope, c = .process envelope w ∧ envelope.isEvent)
    (h : d.flush py key first rest trigger s w = ⟨effects, none⟩) :
    d.Did py key s c effects := by
  unfold flush at h
  dsimp only at h
  split at h
  · cases h
  rename_i memoryBlob hmemory
  split at h
  · cases h
  rename_i cacheBlob hcache
  split at h
  · cases h
    exact .uncommitted .flushFailed
  · rename_i result hresult
    cases h
    exact .commit (.flush hbatch hcont hmemory hcache hbuffer hcall) hresult rfl

theorem resume_did {envelope : AgentEnvelope} {intentId : String}
    (hanswers : envelope.answers = some intentId)
    (h : d.resume py key envelope.eventTimeMs intentId envelope.answerResult
      envelope.answerApproval s w = ⟨effects, none⟩) :
    d.Did py key s (.process envelope w) effects := by
  unfold resume at h
  split at h
  · cases h
  · cases h
    exact .uncommitted .refused
  rename_i cont hcont
  split at h
  · cases h
    exact .uncommitted .refused
  rename_i hadmission
  unfold resumeAdmitted at h
  split at h
  · cases h
  rename_i memoryBlob hmemory
  split at h
  · cases h
  rename_i cacheBlob hcache
  split at h
  · cases h
    exact .uncommitted .failed
  · rename_i result hresult
    cases h
    exact .commit (.resume hanswers hcont hadmission hmemory hcache) hresult rfl

theorem buffer_did {settings : BatchSettings} {envelope : AgentEnvelope}
    (hbatch : d.batch = some settings) (hevent : envelope.isEvent)
    (h : d.buffer py settings key envelope s w = ⟨effects, none⟩) :
    ∃ pre es, effects = pre ++ es ∧ d.Buffered s (.process envelope w) pre ∧
      d.Did py key (s.applyAll pre) (.process envelope w) es := by
  unfold buffer at h
  split_ifs at h with hfull
  · cases h
    exact ⟨[], _, rfl, .no, .uncommitted .shed⟩
  · have hroom := Bool.eq_false_iff.mpr hfull
    obtain ⟨es, hx, heffects⟩ := Exit.after_eq_ok h
    refine ⟨_, es, heffects, .yes hbatch hevent hroom, ?_⟩
    split at hx
    · cases hx
    rename_i cont hcont
    split_ifs at hx with hflush
    · -- A size trigger fires only while no continuation is live.
      have hnone : cont = none := by
        simpa [shouldFlushOnSize] using (Bool.and_eq_true_iff.mp hflush).2
      subst hnone
      split at hx
      · cases hx
        exact .uncommitted .nothing
      · rename_i first rest hbuffer
        refine flush_did (by simp [hbatch]) hcont ?_ (.inr ⟨envelope, rfl, hevent⟩) hx
        rw [applyAll_bufferEffects, ← hbuffer]
    · cases hx
      exact .uncommitted .nothing

theorem onFlush_did (h : d.onFlush py key s w = ⟨effects, none⟩) :
    d.Did py key s (.onFlush w) effects := by
  unfold onFlush at h
  split_ifs at h with hbatch
  · cases h
    exact .uncommitted .nothing
  split at h
  · cases h
  rename_i cont hcont
  split_ifs at h with hflush
  · cases h
    exact .uncommitted .nothing
  · have hnone : cont = none := by
      simp only [shouldFlushOnTimer, Bool.not_eq_true, Bool.not_eq_false',
        Bool.and_eq_true] at hflush
      simpa using hflush.2
    subst hnone
    split at h
    · cases h
      exact .uncommitted .nothing
    · rename_i first rest hbuffer
      have hsome : d.batch.isSome := Option.isSome_iff_ne_none.mpr (by simpa using hbatch)
      exact flush_did hsome hcont hbuffer (.inl rfl) h

theorem onTtl_did {micros : Int} (h : d.onTtl py key micros s w = ⟨effects, none⟩) :
    d.Did py key s (.onTtl micros w) effects := by
  unfold onTtl at h
  split at h
  · cases h
  rename_i cont hcont
  obtain ⟨es, hx, rfl⟩ := Exit.after_eq_ok h
  split at hx
  · cases hx
  · cases hx
    exact .wiped hcont

theorem onHitl_did {micros : Int} (h : d.onHitl py key micros s w = ⟨effects, none⟩) :
    d.Did py key s (.onHitl micros w) effects := by
  unfold onHitl at h
  split at h
  · cases h
  · cases h
    exact .uncommitted .nothing
  rename_i cont hcont
  split_ifs at h with hearly
  · cases h
    exact .uncommitted .nothing
  have hdue : cont.deadlineMs ≤ firedAtMs micros := Int.not_lt.mp hearly
  split at h
  · rename_i toolName argsJson timeoutMs detail hroute
    cases h
    exact .escalate hcont hdue hroute
  · rename_i route detail hnot hroute
    cases h
    refine .ended hcont hdue hroute ?_
    cases route with
    | escalate toolName argsJson timeoutMs => exact (hnot _ _ _ rfl).elim
    | deny output => rfl
    | drop reason => rfl

/-- A call that does not raise performs the effects of buffering its event, if it does that, and
then those of one course. -/
theorem call_did (h : d.call py key s c = ⟨effects, none⟩) :
    ∃ pre es, effects = pre ++ es ∧ d.Buffered s c pre ∧
      d.Did py key (s.applyAll pre) c es := by
  have plain : d.Did py key s c effects → ∃ pre es, effects = pre ++ es ∧ d.Buffered s c pre ∧
      d.Did py key (s.applyAll pre) c es := fun hs => ⟨[], effects, rfl, .no, hs⟩
  cases c with
  | onTtl micros w => exact plain (onTtl_did h)
  | onFlush w => exact plain (onFlush_did h)
  | onHitl micros w => exact plain (onHitl_did h)
  | process envelope w =>
    simp only [call, process] at h
    cases hp : envelope.payload with
    | exportRequest requestId =>
      simp only [hp] at h
      cases h
      exact plain (.uncommitted .exported)
    | toolResult result =>
      have hanswers : envelope.answers = some result.intentId := by
        simp [AgentEnvelope.answers, hp]
      refine plain (resume_did hanswers ?_)
      simpa only [hp, AgentEnvelope.answerResult, AgentEnvelope.answerApproval] using h
    | approval approval =>
      have hanswers : envelope.answers = some approval.intentId := by
        simp [AgentEnvelope.answers, hp]
      refine plain (resume_did hanswers ?_)
      simpa only [hp, AgentEnvelope.answerResult, AgentEnvelope.answerApproval] using h
    | externalEvent event =>
      have hevent : envelope.isEvent := by simp [AgentEnvelope.isEvent, hp]
      simp only [hp] at h
      split at h
      · rename_i settings hbatch
        exact buffer_did hbatch hevent h
      · rename_i hbatch
        exact plain (start_did hbatch hevent h)
    | unset =>
      have hevent : envelope.isEvent := by simp [AgentEnvelope.isEvent, hp]
      simp only [hp] at h
      split at h
      · rename_i settings hbatch
        exact buffer_did hbatch hevent h
      · rename_i hbatch
        exact plain (start_did hbatch hevent h)

end Courses

section Shapes

variable {d py key s} {c : KeyCall} {w : World} {effects : List Effect}

theorem Uncommitted.quiet (h : Uncommitted py key s c effects) : Quiet effects := by
  cases h with
  | nothing => exact .nil
  | exported => simp [Effect.quiet]
  | failed => exact quiet_cons.mpr ⟨rfl, quiet_activationFailure py key _ _ _⟩
  | flushFailed => exact quiet_cons.mpr ⟨rfl, quiet_flushFailure py key _ _ _ _ _⟩
  | refused => exact quiet_refusedResume py key _ _ _ _ _
  | shed => exact quiet_deadLetter key _ _ _

/-- The shape of a course. -/
theorem Did.shape (h : d.Did py key s c effects) : d.Shape py key s c effects := by
  cases h with
  | uncommitted h => exact .quiet h.quiet
  | commit h hresult hes => exact .commit h hresult hes
  | escalate hcont hdue hroute => exact .escalate hcont hdue hroute
  | ended hcont hdue hroute hends => exact .ended hcont hdue hroute hends
  | wiped hcont => exact .wiped hcont

theorem onFlush_shape (h : d.onFlush py key s w = ⟨effects, none⟩) :
    d.Shape py key s (.onFlush w) effects :=
  (onFlush_did h).shape

theorem onHitl_shape {micros : Int} (h : d.onHitl py key micros s w = ⟨effects, none⟩) :
    d.Shape py key s (.onHitl micros w) effects :=
  (onHitl_did h).shape

/-- **What a call can do.** A call that does not raise performs the effects of buffering its event,
if it does that, and then those of one of the five shapes. -/
theorem call_shape (h : d.call py key s c = ⟨effects, none⟩) :
    ∃ pre es, effects = pre ++ es ∧ d.Buffered s c pre ∧
      d.Shape py key (s.applyAll pre) c es := by
  obtain ⟨pre, es, heffects, hpre, hdid⟩ := call_did h
  exact ⟨pre, es, heffects, hpre, hdid.shape⟩

end Shapes

/-! ### The stored continuation is current -/

section Current

variable {d py key s} {s' : KeyState} {c : KeyCall} {es pre : List Effect}

/-- Buffering an event does not touch the core. -/
theorem Buffered.core {c : KeyCall} {pre : List Effect} (h : d.Buffered s c pre) :
    (s.applyAll pre).core = s.core := by
  cases h with
  | no => rfl
  | yes =>
    rw [applyAll_bufferEffects]
    rfl

/-- A stored continuation is of the current version. -/
def Current (d : AgentDoFn) (s : KeyState) : Prop :=
  ∀ cont ∈ s.continuation, cont.stateSchemaVersion = d.schema.current

theorem Current.empty : d.Current {} := by simp [Current]

theorem Current.of_core (h : d.Current s) (hcore : s'.core = s.core) : d.Current s' := by
  have hcont : s'.continuation = s.continuation := congrArg KeyCore.continuation hcore
  rwa [Current, hcont]

/-- A current continuation is read as it is stored. -/
theorem Current.stored (h : d.Current s) {cont : Continuation}
    (hread : d.schema.migrateContinuation s.continuation = .ok (some cont)) :
    s.continuation = some cont := by
  cases hs : s.continuation with
  | none => rw [hs] at hread; cases hread
  | some stored =>
    rw [hs, d.schema.migrateContinuation_current (h stored (by simp [hs]))] at hread
    cases hread
    rfl

/-- A stored continuation that is current is read as it is stored. -/
theorem Current.read (h : d.Current s) {cont : Continuation}
    (hstored : s.continuation = some cont) :
    d.schema.migrateContinuation s.continuation = .ok (some cont) := by
  rw [hstored]
  exact d.schema.migrateContinuation_current (h cont hstored)

theorem Current.shape (h : d.Current s) (hs : d.Shape py key s c es) :
    d.Current (s.applyAll es) := by
  cases hs with
  | quiet hq => exact h.of_core hq.applyAll.1
  | commit hact hresult hes =>
    obtain ⟨cursor, hv⟩ := activate_valid hresult
    rw [hes, applyAll_sampleActivation, applyAll_commit]
    exact hv.contVersion
  | @escalate micros w cont toolName argsJson timeoutMs detail hcont hdue hroute =>
    have hcurrent := h cont (h.stored hcont)
    rintro cont' hcont'
    cases hcont'
    exact hcurrent
  | ended hcont hdue hroute hends =>
    rw [applyAll_endSuspension]
    simp [Current]
  | wiped hcont =>
    rw [KeyState.applyAll_append, KeyState.applyAll_append, applyAll_wipe]
    simp [Current]

/-- Every call keeps the stored continuation current. -/
theorem Current.call (h : d.Current s) {effects : List Effect}
    (hcall : d.call py key s c = ⟨effects, none⟩) : d.Current (s.applyAll effects) := by
  obtain ⟨pre, es, rfl, hpre, hshape⟩ := call_shape hcall
  rw [KeyState.applyAll_append]
  exact (h.of_core hpre.core).shape hshape

end Current

/-! ### Calls that flush -/

section Flushes

variable {d py key s} {first : AgentEnvelope} {rest : List AgentEnvelope} {w : World}

/-- Under adaptive batching, an event goes to the buffer. -/
theorem event_call {settings : BatchSettings} {envelope : AgentEnvelope}
    (hbatch : d.batch = some settings) (hevent : envelope.isEvent) :
    d.call py key s (.process envelope w) = d.buffer py settings key envelope s w := by
  cases hp : envelope.payload <;> simp_all [call, process, AgentEnvelope.isEvent]

/-- An event that fills the buffer, with nothing suspended, is flushed with it. -/
theorem sizeFlush_call {settings : BatchSettings} {envelope : AgentEnvelope}
    (hbatch : d.batch = some settings) (hevent : envelope.isEvent)
    (hroom : bufferIsFull s.batch.length settings.maxBufferedEvents = false)
    (hcont : d.schema.migrateContinuation s.continuation = .ok none)
    (hbuffer : s.batch ++ [envelope] = first :: rest)
    (hsize : settings.maxBatchSize ≤ (first :: rest).length) :
    let pre := d.bufferEffects envelope settings s w
    d.call py key s (.process envelope w) =
      .after pre (d.flush py key first rest triggerSize (s.applyAll pre) w) := by
  intro pre
  have hcont' : (s.applyAll (d.bufferEffects envelope settings s w)).continuation =
      s.continuation :=
    congrArg KeyCore.continuation (Buffered.yes (w := w) hbatch hevent hroom).core
  have hlength : (first :: rest).length = s.batch.length + 1 := by simp [← hbuffer]
  rw [hlength] at hsize
  rw [event_call hbatch hevent]
  simp [buffer, hroom, hcont', hcont, hbuffer, shouldFlushOnSize, hlength, hsize, pre]

/-- The flush timer flushes a buffer that is not empty, with nothing suspended. -/
theorem timerFlush_call (hbatch : d.batch.isSome)
    (hcont : d.schema.migrateContinuation s.continuation = .ok none)
    (hbuffer : s.batch = first :: rest) :
    d.call py key s (.onFlush w) = d.flush py key first rest triggerTimer s w := by
  have hsome : d.batch ≠ none := Option.isSome_iff_ne_none.mp hbatch
  simp [call, onFlush, hsome, hcont, hbuffer, shouldFlushOnTimer]

end Flushes

/-- A call that does not raise is a step of the machine. -/
theorem call_step {d : AgentDoFn} {py : PyLib} {key : Bytes} {s : KeyState} {c : KeyCall}
    (h : (d.call py key s c).raised = none) :
    (d.machine py key).step s c (s.applyAll (d.call py key s c).effects)
      (d.call py key s c).effects :=
  ⟨by rw [← h], rfl⟩

/-- Calls performed one after the other, none of which raises, are a run of the machine, and of
the machine restricted to the calls that meet a condition when they do. -/
theorem exec_run {d : AgentDoFn} {py : PyLib} {key : Bytes} {C : KeyState → KeyCall → Prop}
    {s t : KeyState} {calls : List KeyCall} {effects : List Effect}
    (h : d.exec py key s calls = some (effects, t)) (hC : ∀ s, ∀ c ∈ calls, C s c) :
    ((d.machine py key).guarded C).Run s calls effects t := by
  induction calls generalizing s effects with
  | nil =>
    cases h
    exact .refl
  | cons c cs ih =>
    simp only [exec] at h
    split_ifs at h with hraised
    obtain ⟨⟨es, u⟩, hr, heq⟩ := Option.map_eq_some_iff.mp h
    cases heq
    have hcall := call_step (Option.not_isSome_iff_eq_none.mp hraised)
    have hfirst : ((d.machine py key).guarded C).Run s [c] (d.call py key s c).effects _ :=
      .single ⟨hC s c (by simp), hcall⟩
    exact hfirst.append (ih hr fun s c hc => hC s c (by simp [hc]))

end AgentDoFn

end BeamAgents
