import BeamAgents.Core.Attempts
import BeamAgents.Core.Batching

/-!
# The batched path of one event

One external event of a key without a live continuation, handled by `_start` without batching, and
buffered and flushed by `_flush` under adaptive batching: at once when one event fills the batch,
otherwise when the flush timer fires. Both run the same activation and commit the same. When the
activation fails, the batched path reports it under `activation_error` whatever the reason is, and
the event has re-armed the TTL mark when it was buffered.

## Main definitions

* `AgentDoFn.adaptive`, `AgentDoFn.batchedCalls`: the transform and its calls under batching.
* `Output.Alike`, `SameEffect`, `SameTtl`: what the two paths have in common.
* `AgentDoFn.KilledByBudget`.

## Main results

* `AgentDoFn.batchOfOne_iff`: the two paths have the same effect exactly when the activation is not
  killed by its budget.
-/

namespace BeamAgents

/-! ### What the two paths have in common -/

/-- What a flush of one event adds to the detail of a record. -/
def batchSuffix (trigger : String) : String := s!"batch_size={(1 : ℕ)},trigger={trigger}"

/-- An output of the per-event path, and the one of the batched path: they are the same up to the
batch attributes of an event and the batch suffix of a record. -/
inductive Output.Alike (trigger : String) : Output → Output → Prop
  | same (o : Output) : Alike trigger o o
  | start (e : TraceEvent) : Alike trigger (.traces e) (.traces (e.batched 1 trigger))
  | error (e : ActivationError) (sep : String) (hsep : sep = "" ∨ sep = " ") :
      Alike trigger (.errors e)
        (.errors { e with detail := e.detail ++ sep ++ batchSuffix trigger })

/-- Two records that are alike have the same reason. -/
theorem Output.Alike.reason {trigger : String} {e e' : ActivationError}
    (h : Output.Alike trigger (.errors e) (.errors e')) : e'.reason = e.reason := by
  cases h <;> rfl

/-- The two paths have the same effect: both raise, or both leave the same memory, cache,
continuation, pending intents, counter and HITL mark, and emit the same. -/
def SameEffect (trigger : String) : Option (List Effect × KeyState) →
    Option (List Effect × KeyState) → Prop :=
  Option.Rel fun x x' => x'.2.core = x.2.core ∧
    List.Forall₂ (Output.Alike trigger) (outputsOf x.1) (outputsOf x'.1)

/-- The record of an output on `.errors`. -/
private def errorOf : Output → Option ActivationError
  | .errors error => some error
  | _ => none

private theorem reasons_of_alike {trigger : String} {l l' : List Output}
    (h : List.Forall₂ (Output.Alike trigger) l l') :
    (l'.filterMap errorOf).map ActivationError.reason =
      (l.filterMap errorOf).map ActivationError.reason := by
  induction h with
  | nil => rfl
  | @cons o o' rest rest' halike _ ih =>
    cases halike with
    | same => cases o <;> simp [List.filterMap_cons, errorOf, ih]
    | start e => exact ih
    | error e sep hsep => exact congrArg (e.reason :: ·) ih

/-- Two paths with the same effect report under the same reasons. -/
theorem SameEffect.reasons {trigger : String} {x x' : Option (List Effect × KeyState)}
    (h : SameEffect trigger x x') :
    x'.map (fun x => (errorsOf x.1).map ActivationError.reason) =
      x.map fun x => (errorsOf x.1).map ActivationError.reason := by
  cases h with
  | none => rfl
  | some h => exact congrArg some (reasons_of_alike h.2)

/-- The two paths leave the same TTL mark. -/
def SameTtl : Option (List Effect × KeyState) → Option (List Effect × KeyState) → Prop :=
  Option.Rel fun x x' => x'.2.ttlTimer = x.2.ttlTimer

namespace AgentDoFn

variable (d : AgentDoFn) (py : PyLib) (key : Bytes)

/-- The transform with adaptive batching. -/
def adaptive (settings : BatchSettings) : AgentDoFn := { d with batch := some settings }

/-- The calls that buffer an event and flush it: when one event does not fill a batch, the flush
timer fires later. -/
def batchedCalls (settings : BatchSettings) (envelope : AgentEnvelope) (w₀ w : World) :
    List KeyCall :=
  if settings.maxBatchSize ≤ 1 then [.process envelope w]
  else [.process envelope w₀, .onFlush w]

/-- The trigger that flushes a buffer of one event. -/
def soleTrigger (settings : BatchSettings) : String :=
  if settings.maxBatchSize ≤ 1 then triggerSize else triggerTimer

/-- What the activation of the event comes to, unless a blob cannot be read. -/
def activationOf (envelope : AgentEnvelope) (s : KeyState) (w : World) :
    Option (Except ActivationFailure ActivationResult) :=
  (d.withBlobs s (startInput key envelope.eventTimeMs envelope.externalEvent s)).map
    (d.activate py w)

/-- The activation of the event fails with a tripped budget. -/
def KilledByBudget (envelope : AgentEnvelope) (s : KeyState) (w : World) : Prop :=
  ∃ context cause, d.activationOf py key envelope s w = some (.error (.failed context cause)) ∧
    cause.cls = .budgetExceeded

section Paths

variable {d py key} {settings : BatchSettings} {envelope : AgentEnvelope} {s : KeyState}
  {w₀ w : World}

/-- What the per-event path does with the activation. -/
def startEffects (d : AgentDoFn) (py : PyLib) (key : Bytes) (envelope : AgentEnvelope)
    (s : KeyState) (w : World) (a : Except ActivationFailure ActivationResult) : List Effect :=
  sampleActivation w ::
    match a with
    | .error failure => activationFailure py key s.seq envelope.eventTimeMs failure
    | .ok result => d.commit s w result envelope.eventTimeMs .start

/-- What the flush of the event does with the activation. -/
def flushEffects (d : AgentDoFn) (py : PyLib) (key : Bytes) (envelope : AgentEnvelope)
    (trigger : String) (s : KeyState) (w : World)
    (a : Except ActivationFailure ActivationResult) : List Effect :=
  sampleActivation w ::
    match a with
    | .error failure =>
      flushFailure py key s.seq envelope.eventTimeMs [envelope] (batchSuffix trigger) failure
    | .ok result =>
      d.commit s w (result.asBatch 1 trigger) envelope.eventTimeMs (.flush 1 trigger)

variable (py key envelope s w) in
theorem exec_single (hbatch : d.batch = none) (hevent : envelope.isEvent) :
    d.exec py key s [.process envelope w] = (d.activationOf py key envelope s w).map fun a =>
      (d.startEffects py key envelope s w a,
        s.applyAll (d.startEffects py key envelope s w a)) := by
  have hcall : d.call py key s (.process envelope w) =
      d.start py key envelope.eventTimeMs envelope.externalEvent s w := by
    cases hp : envelope.payload <;> simp_all [call, process, AgentEnvelope.isEvent]
  simp only [exec, hcall, activationOf, withBlobs, start]
  cases d.schema.migrateMemory s.memory with
  | error e => rfl
  | ok memoryBlob =>
    cases d.schema.migrateCache s.llmCache with
    | error e => rfl
    | ok cacheBlob =>
      simp only [Option.map_some, startEffects]
      cases d.activate py w _ <;> simp

/-- The flush of the event runs the activation of the event. -/
theorem activate_flushInput (hagent : d.agent.ReadsEvents)
    (hsummarizer : ∀ x ∈ d.summarizer, x.compact.ReadsEvents) (trigger : String)
    (memoryBlob : Option MemoryBlob) (cacheBlob : Option LlmCacheBlob) :
    (d.adaptive settings).activate py w
        (flushInput key envelope [] trigger s memoryBlob cacheBlob) =
      (d.activate py w (startInput key envelope.eventTimeMs envelope.externalEvent s memoryBlob
        cacheBlob)).map (ActivationResult.asBatch 1 trigger) := by
  have hrun := runActivation_asBatch py d.schema d.contextConfig trigger hagent
    d.summarizer hsummarizer d.policy.timeoutMs w
    (startInput key envelope.eventTimeMs envelope.externalEvent s memoryBlob cacheBlob) rfl rfl rfl
  unfold activate bridgeRun
  split_ifs
  · rfl
  · exact hrun

variable (py key settings envelope w) in
/-- The flush of the event, from a state with the same blobs and the same counter. -/
theorem flush_one (hagent : d.agent.ReadsEvents)
    (hsummarizer : ∀ x ∈ d.summarizer, x.compact.ReadsEvents) (trigger : String) {s' : KeyState}
    (hcore : s'.core = s.core) :
    (∃ e, d.activationOf py key envelope s w = none ∧
      (d.adaptive settings).flush py key envelope [] trigger s' w = .migration e) ∨
    ∃ a, d.activationOf py key envelope s w = some a ∧
      (d.adaptive settings).flush py key envelope [] trigger s' w =
        ⟨(d.adaptive settings).flushEffects py key envelope trigger s' w a, none⟩ := by
  have hmemory : s'.memory = s.memory := congrArg KeyCore.memory hcore
  have hcache : s'.llmCache = s.llmCache := congrArg KeyCore.llmCache hcore
  have hseq : s'.seq = s.seq := congrArg KeyCore.seq hcore
  have hschema : (d.adaptive settings).schema = d.schema := rfl
  simp only [activationOf, withBlobs, flush, hschema, hmemory, hcache]
  cases d.schema.migrateMemory s.memory with
  | error e => exact .inl ⟨e, rfl, rfl⟩
  | ok memoryBlob =>
    cases d.schema.migrateCache s.llmCache with
    | error e => exact .inl ⟨e, rfl, rfl⟩
    | ok cacheBlob =>
      refine .inr ⟨_, rfl, ?_⟩
      have hinput : startInput key envelope.eventTimeMs envelope.externalEvent s memoryBlob
          cacheBlob = startInput key envelope.eventTimeMs envelope.externalEvent s' memoryBlob
          cacheBlob := by simp only [startInput, hseq]
      dsimp only
      rw [activate_flushInput hagent hsummarizer trigger memoryBlob cacheBlob, hinput]
      cases d.activate py w _ <;> rfl

variable (d settings envelope) in
/-- Buffering the event into an empty buffer. -/
theorem buffering (hempty : s.batch = []) (w : World) :
    let pre := (d.adaptive settings).bufferEffects envelope settings s w
    outputsOf pre = [] ∧ (s.applyAll pre).core = s.core ∧ (s.applyAll pre).batch = [envelope] ∧
      (s.applyAll pre).ttlTimer = some (envelope.eventTimeMs + d.ttlMs) := by
  refine ⟨?_, ?_, ?_, ?_⟩
  · unfold bufferEffects
    split_ifs <;> rfl
  all_goals
    rw [applyAll_bufferEffects]
    simp [KeyState.core, hempty, adaptive]

/-- Buffering the event into an empty buffer flushes it at once when one event is a batch. -/
theorem buffer_one (hcont : s.continuation = none) (hempty : s.batch = []) (w : World) :
    let pre := (d.adaptive settings).bufferEffects envelope settings s w
    (d.adaptive settings).buffer py settings key envelope s w =
      if settings.maxBatchSize ≤ 1 then
        Exit.after pre ((d.adaptive settings).flush py key envelope [] triggerSize
          (s.applyAll pre) w)
      else ⟨pre, none⟩ := by
  intro pre
  have hroom : bufferIsFull ([] : List AgentEnvelope).length settings.maxBufferedEvents =
      false := by
    have hpos := settings.maxBatchSize_pos.trans_le settings.maxBatchSize_le
    simp only [bufferIsFull, List.length_nil, decide_eq_false_iff_not]
    omega
  have hnone : (s.applyAll
      ((d.adaptive settings).bufferEffects envelope settings s w)).continuation = none := by
    rw [applyAll_bufferEffects]
    exact hcont
  have hmigrate : (d.adaptive settings).schema.migrateContinuation none = .ok none := rfl
  have hsize : shouldFlushOnSize [envelope].length settings.maxBatchSize
      (none : Option Continuation).isSome = decide (settings.maxBatchSize ≤ 1) := by
    simp [shouldFlushOnSize]
  simp only [buffer, hroom, Bool.false_eq_true, if_false, hnone, hmigrate, hempty, List.nil_append,
    hsize, decide_eq_true_eq]
  split_ifs
  · rfl
  · simp [Exit.after, pre]

/-- The fire of the flush timer flushes the event that waits alone. -/
theorem onFlush_one (hcont : s.continuation = none) (hbatch : s.batch = [envelope]) :
    (d.adaptive settings).onFlush py key s w =
      (d.adaptive settings).flush py key envelope [] triggerTimer s w := by
  have hmigrate : (d.adaptive settings).schema.migrateContinuation none = .ok none := rfl
  have htimer : shouldFlushOnTimer [envelope].length (none : Option Continuation).isSome = true :=
    rfl
  simp only [onFlush, hcont, hmigrate, hbatch, htimer]
  rfl

variable (py key settings envelope w₀ w) in
/-- The buffered path: the event is buffered, and the flush does the rest. -/
theorem exec_batched (hcont : s.continuation = none) (hempty : s.batch = [])
    (hevent : envelope.isEvent) (hagent : d.agent.ReadsEvents)
    (hsummarizer : ∀ x ∈ d.summarizer, x.compact.ReadsEvents) :
    ∃ w', let pre := (d.adaptive settings).bufferEffects envelope settings s w'
      (d.adaptive settings).exec py key s (batchedCalls settings envelope w₀ w) =
        (d.activationOf py key envelope s w).map fun a =>
          let effects := pre ++ (d.adaptive settings).flushEffects py key envelope
            (soleTrigger settings) (s.applyAll pre) w a
          (effects, s.applyAll effects) := by
  have hcall (w : World) : (d.adaptive settings).call py key s (.process envelope w) =
      (d.adaptive settings).buffer py settings key envelope s w := by
    cases hp : envelope.payload <;> simp_all [call, process, AgentEnvelope.isEvent, adaptive]
  have hbuffering (w : World) := buffering d settings envelope hempty w
  unfold batchedCalls soleTrigger
  split_ifs with hsize
  · refine ⟨w, ?_⟩
    obtain ⟨-, hcore, -, -⟩ := hbuffering w
    simp only [exec, hcall, buffer_one hcont hempty, if_pos hsize]
    rcases flush_one py key settings envelope w hagent hsummarizer triggerSize hcore with
      ⟨e, hnone, hflush⟩ | ⟨a, hsome, hflush⟩
    · simp [hnone, hflush, Exit.after, Exit.migration]
    · simp [hsome, hflush, Exit.after]
  · refine ⟨w₀, ?_⟩
    obtain ⟨-, hcore, hbatch, -⟩ := hbuffering w₀
    have hcont' : (s.applyAll
        ((d.adaptive settings).bufferEffects envelope settings s w₀)).continuation = none :=
      (congrArg KeyCore.continuation hcore).trans hcont
    simp only [exec, hcall, buffer_one hcont hempty, if_neg hsize]
    simp only [call, onFlush_one hcont' hbatch]
    rcases flush_one py key settings envelope w hagent hsummarizer triggerTimer hcore with
      ⟨e, hnone, hflush⟩ | ⟨a, hsome, hflush⟩
    · simp [hnone, hflush, Exit.migration]
    · simp [hsome, hflush, KeyState.applyAll_append]

/-! ### The two paths compared -/

/-- The events of a result are the same in both, up to the attributes of the start event. -/
theorem alike_batchedTraces (trigger : String) (traces : List TraceEvent) :
    List.Forall₂ (Output.Alike trigger) (traces.map .traces)
      ((batchedTraces 1 trigger traces).map .traces) := by
  cases traces with
  | nil => exact .nil
  | cons start rest =>
    exact .cons (.start start) (List.forall₂_same.mpr fun o _ => .same o)

/-- A commit emits the same on both paths. -/
theorem alike_commit (trigger : String) {pre : List Effect} (hpre : outputsOf pre = [])
    {s' : KeyState} (result : ActivationResult) :
    List.Forall₂ (Output.Alike trigger)
      (outputsOf (d.startEffects py key envelope s w (.ok result)))
      (outputsOf (pre ++ (d.adaptive settings).flushEffects py key envelope trigger s' w
        (.ok result))) := by
  rw [outputsOf_append, hpre, List.nil_append, startEffects, flushEffects, outputsOf_commit,
    outputsOf_commit]
  exact List.rel_append (List.forall₂_same.mpr fun o _ => .same o)
    (alike_batchedTraces trigger result.traces)

/-- A failed start emits one record and one trace. -/
theorem outputsOf_startFailed (failure : ActivationFailure) :
    outputsOf (d.startEffects py key envelope s w (.error failure)) =
      [failure.report.record key envelope.eventTimeMs,
        failure.report.trace py key s.seq envelope.eventTimeMs] :=
  outputsOf_activationFailure py key s.seq envelope.eventTimeMs failure

/-- A failed flush of one event does so too. -/
theorem outputsOf_flushFailed (trigger : String) {pre : List Effect} (hpre : outputsOf pre = [])
    (failure : ActivationFailure) :
    outputsOf (pre ++ d.flushEffects py key envelope trigger s w (.error failure)) =
      flushReported py key s.seq envelope.eventTimeMs 1 trigger failure := by
  rw [outputsOf_append, hpre, List.nil_append]
  exact outputsOf_flushFailure py key s.seq envelope.eventTimeMs [envelope] trigger failure

/-- The two paths report a failure in the same way exactly when it is not a tripped budget. -/
theorem alike_failure_iff (trigger : String) (seq : ℕ) (nowMs : Int) (failure : ActivationFailure) :
    List.Forall₂ (Output.Alike trigger)
        [failure.report.record key nowMs, failure.report.trace py key seq nowMs]
        (flushReported py key seq nowMs 1 trigger failure) ↔
      ¬ ∃ context cause, failure = .failed context cause ∧ cause.cls = .budgetExceeded := by
  cases failure with
  | timeout =>
    refine iff_of_true (.cons ?_ (.cons (.same _) .nil)) (by simp)
    exact .error ⟨key, reasonTimeout, "", nowMs⟩ "" (.inl rfl)
  | raised e =>
    refine iff_of_true (.cons ?_ (.cons (.same _) .nil)) (by simp)
    exact .error ⟨key, reasonError, e.repr, nowMs⟩ " " (.inr rfl)
  | failed context cause =>
    by_cases hbudget : cause.cls = .budgetExceeded
    · refine iff_of_false (fun h => ?_) (not_not.mpr ⟨context, cause, rfl, hbudget⟩)
      obtain ⟨hrecord, -⟩ := List.forall₂_cons.mp h
      have hreason := hrecord.reason
      simp only [ActivationFailure.report, ActivationFailure.flushReport, if_pos hbudget] at hreason
      exact absurd hreason (by decide)
    · refine iff_of_true (.cons ?_ (.cons ?_ .nil)) ?_
      · simp only [FailureReport.record, ActivationFailure.report, ActivationFailure.flushReport,
          if_neg hbudget]
        exact .error ⟨key, reasonError, cause.repr ++ context.detailSuffix, nowMs⟩ " " (.inr rfl)
      · simp only [FailureReport.trace, ActivationFailure.report, ActivationFailure.flushReport,
          if_neg hbudget]
        exact .same _
      · rintro ⟨context', cause', heq, hcls⟩
        cases heq
        exact hbudget hcls

variable (d py key envelope s w) in
theorem applyAll_startEffects_failed (failure : ActivationFailure) :
    (s.applyAll (d.startEffects py key envelope s w (.error failure))).core = s.core ∧
      (s.applyAll (d.startEffects py key envelope s w (.error failure))).ttlTimer = s.ttlTimer :=
  Quiet.applyAll (quiet_cons.mpr ⟨rfl, quiet_activationFailure py key _ _ failure⟩)

variable (d py key envelope s w) in
theorem applyAll_flushEffects_failed (trigger : String) (failure : ActivationFailure) :
    (s.applyAll (d.flushEffects py key envelope trigger s w (.error failure))).core = s.core ∧
      (s.applyAll (d.flushEffects py key envelope trigger s w (.error failure))).ttlTimer =
        s.ttlTimer :=
  Quiet.applyAll (quiet_cons.mpr ⟨rfl, quiet_flushFailure py key _ _ _ _ failure⟩)

end Paths

/-- **A batch of one event is the per-event path, but for the budget.** For every agent that reads
its input only through `events`, every state of a key without a live continuation and with nothing
buffered, and every external event: handled on its own, and buffered and then flushed by either
trigger, the event has the same effect exactly when its activation is not killed by its budget. When
the activation fails, the per-event path emits one record and one error trace. The TTL mark is the
same too, unless the activation fails and the mark was not that of the event. -/
theorem batchOfOne_iff (settings : BatchSettings) (hbatch : d.batch = none)
    (hagent : d.agent.ReadsEvents) (hsummarizer : ∀ x ∈ d.summarizer, x.compact.ReadsEvents)
    {s : KeyState} (hcont : s.continuation = none) (hempty : s.batch = [])
    {envelope : AgentEnvelope} (hevent : envelope.isEvent) (w₀ w : World) :
    let single := d.exec py key s [.process envelope w]
    let batched := (d.adaptive settings).exec py key s (batchedCalls settings envelope w₀ w)
    (SameEffect (soleTrigger settings) single batched ↔ ¬ d.KilledByBudget py key envelope s w) ∧
      (SameTtl single batched ↔
        ∀ failure, d.activationOf py key envelope s w = some (.error failure) →
          s.ttlTimer = some (envelope.eventTimeMs + d.ttlMs)) ∧
      ∀ failure, d.activationOf py key envelope s w = some (.error failure) →
        single.map (fun x => outputsOf x.1) =
          some [failure.report.record key envelope.eventTimeMs,
            failure.report.trace py key s.seq envelope.eventTimeMs] := by
  intro single batched
  obtain ⟨w', hbatched⟩ :=
    exec_batched py key settings envelope w₀ w hcont hempty hevent hagent hsummarizer
  have hsingle := exec_single py key envelope s w hbatch hevent
  obtain ⟨hpre, hcore, -, httl⟩ := buffering d settings envelope hempty w'
  dsimp only at hbatched
  generalize (d.adaptive settings).bufferEffects envelope settings s w' = pre
    at hbatched hpre hcore httl
  have hseq : (s.applyAll pre).seq = s.seq := congrArg KeyCore.seq hcore
  simp only [single, batched, hsingle, hbatched]
  cases hact : d.activationOf py key envelope s w with
  | none => simp [SameEffect, SameTtl, KilledByBudget, hact]
  | some a =>
    simp only [Option.map_some, SameEffect, SameTtl, Option.rel_some_some, KeyState.applyAll_append,
      Option.some.injEq, KilledByBudget, hact]
    cases a with
    | error failure =>
      obtain ⟨hstart, hstart'⟩ := applyAll_startEffects_failed d py key envelope s w failure
      obtain ⟨hflush, hflush'⟩ := applyAll_flushEffects_failed (d.adaptive settings) py key envelope
        (s.applyAll pre) w (soleTrigger settings) failure
      rw [outputsOf_startFailed, outputsOf_flushFailed _ hpre, hseq,
        alike_failure_iff, hstart, hstart', hflush, hflush', hcore, httl]
      refine ⟨?_, ?_, ?_⟩
      · simp
      · simp [eq_comm]
      · rintro failure' heq
        cases heq
        rfl
    | ok result =>
      have hstart : s.applyAll (d.startEffects py key envelope s w (.ok result)) = _ :=
        (applyAll_sampleActivation s w _).trans (d.applyAll_commit s w result _ .start)
      have hflush : (s.applyAll pre).applyAll ((d.adaptive settings).flushEffects py key envelope
          (soleTrigger settings) (s.applyAll pre) w (.ok result)) = _ :=
        (applyAll_sampleActivation _ w _).trans ((d.adaptive settings).applyAll_commit _ w _ _ _)
      rw [hstart, hflush, hseq]
      refine ⟨iff_of_true ⟨rfl, ?_⟩ (by simp), iff_of_true rfl (by simp), by simp⟩
      exact alike_commit (soleTrigger settings) hpre result

/-- The request of the agent below. -/
def meteredRequest : LlmRequest := ⟨"m", .ok ("[]", "null", "{}")⟩

private theorem meteredBudget_pos : ∀ n ∈ some 5, 0 < n := by simp

/-- An agent that asks the model once, under a budget of five tokens that one response exceeds. -/
def meteredAgent : AgentDoFn where
  agent := callModel meteredRequest fun
    | .ok output => .ret (.complete output)
    | .error e => .raise e
  decode := some fun _ => .ok { totalTokens := 7 }
  maxTokensPerActivation := some 5
  decode_of_budget := fun _ => rfl
  budget_pos := meteredBudget_pos

/-- A provider that answers. -/
def answeringWorld : World where
  answers
    | _, .model _ | _, .tool .. | _, .other _ => ⟨.ok [1], 0⟩
    | _, .storeLoad _ => ⟨.ok none, 0⟩
    | _, .storeSearch .. => ⟨.ok [], 0⟩

theorem eagerWait_pos : 0 < 1000 := by decide

theorem eagerBatch_le : 1 ≤ 8 := by decide

/-- Batching under which one event fills a batch. -/
def eagerSettings : BatchSettings := ⟨1, 1000, 8, Nat.one_pos, eagerWait_pos, eagerBatch_le⟩

theorem meteredAgent_readsEvents : meteredAgent.agent.ReadsEvents := by
  refine .perform _ _ fun entry => ?_
  rcases entry with e | ⟨response⟩ | call
  · exact .raise e
  · exact .ret _
  · refine .await _ _ fun answer => ?_
    rcases answer with ⟨e | response, elapsedNs⟩
    · exact .raise e
    · refine .perform _ _ fun answer => ?_
      cases answer with
      | error e => exact .raise e
      | ok output => exact .ret _

/-- The event of the runs below. -/
def meteredEvent : AgentEnvelope := { payload := .externalEvent [1], eventTimeMs := 1000 }

/-- The response trips the budget: the per-event path reports it under `budget_exceeded`, and the
flush of the same event under `activation_error`. -/
theorem budget_lost_in_batch :
    let single := meteredAgent.exec (.ofTable []) [107] {} [.process meteredEvent answeringWorld]
    let batched := (meteredAgent.adaptive eagerSettings).exec (.ofTable []) [107] {}
      (batchedCalls eagerSettings meteredEvent answeringWorld answeringWorld)
    meteredAgent.agent.ReadsEvents ∧
      (single.map fun x => (errorsOf x.1).map ActivationError.reason) =
        some ["budget_exceeded"] ∧
      (batched.map fun x => (errorsOf x.1).map ActivationError.reason) =
        some ["activation_error"] ∧
      ¬ SameEffect (soleTrigger eagerSettings) single batched := by
  intro single batched
  have hsingle : (single.map fun x => (errorsOf x.1).map ActivationError.reason) =
      some ["budget_exceeded"] := by decide +kernel
  have hbatched : (batched.map fun x => (errorsOf x.1).map ActivationError.reason) =
      some ["activation_error"] := by decide +kernel
  refine ⟨meteredAgent_readsEvents, hsingle, hbatched, fun h => ?_⟩
  have hreasons := h.reasons
  rw [hsingle, hbatched] at hreasons
  exact absurd hreasons (by decide)

/-- A provider that fails the same agent is reported in the same way by both paths. -/
theorem batchOfOne_provider_error :
    SameEffect (soleTrigger eagerSettings)
      (meteredAgent.exec (.ofTable []) [107] {} [.process meteredEvent quietWorld])
      ((meteredAgent.adaptive eagerSettings).exec (.ofTable []) [107] {}
        (batchedCalls eagerSettings meteredEvent quietWorld quietWorld)) := by
  refine (batchOfOne_iff meteredAgent (.ofTable []) [107] eagerSettings rfl
    meteredAgent_readsEvents (fun _ h => by cases h) rfl rfl rfl quietWorld quietWorld).1.mpr ?_
  rintro ⟨context, cause, hact, hcls⟩
  have hother : (meteredAgent.activationOf (.ofTable []) [107] meteredEvent {} quietWorld).map
      (fun | .error (.failed _ cause) => cause.cls | _ => .budgetExceeded) = some .other := by
    decide +kernel
  rw [hact] at hother
  exact absurd (hcls.symm.trans (Option.some.inj hother)) (by decide)

end AgentDoFn

end BeamAgents
