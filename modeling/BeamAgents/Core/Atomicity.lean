import BeamAgents.Core.Calls

/-!
# Failed and refused calls

A call whose activation fails, or whose element, timer or flush is refused, changes nothing but
what it consumes: the cells, the pending bag, the counter and the HITL timer are as they were, and
the call emits the records and traces of the failure and nothing else. Only a failed flush consumes
something, its buffer.

## Main definitions

* `ActivationFailure.report`: what a failed activation is reported as.
* `AgentDoFn.Declined`: the calls that fail or are refused, with what they emit.

## Main results

* `AgentDoFn.declined_unchanged`.
-/

namespace BeamAgents

/-! ### What a failure is reported as -/

/-- How a failed activation appears in its record and its trace. -/
structure FailureReport where
  reason : String
  detail : String := ""
  errorType : String := ""
  position : Option FailureContext := none
  deriving DecidableEq, Repr

/-- A start or a resume reports a timeout, a tripped budget, or another exception with the position
at which the agent raised it. -/
def ActivationFailure.report : ActivationFailure → FailureReport
  | .timeout => { reason := reasonTimeout }
  | .failed context cause => {
      reason := if cause.cls = .budgetExceeded then reasonBudgetExceeded else reasonError
      detail := cause.repr ++ context.detailSuffix
      errorType := cause.typeName
      position := some context }
  | .raised e => { reason := reasonError, detail := e.repr, errorType := e.typeName }

/-- A flush reports the batch too, and every exception under one reason. -/
def ActivationFailure.flushReport (batchDetail : String) : ActivationFailure → FailureReport
  | .timeout => { reason := reasonTimeout, detail := batchDetail }
  | .failed context cause => {
      reason := reasonError
      detail := cause.repr ++ context.detailSuffix ++ " " ++ batchDetail
      errorType := cause.typeName
      position := some context }
  | .raised e => {
      reason := reasonError
      detail := e.repr ++ " " ++ batchDetail
      errorType := e.typeName }

namespace FailureReport

variable (r : FailureReport)

/-- The dead-letter record of the failure. -/
def record (key : Bytes) (nowMs : Int) : Output := .errors ⟨key, r.reason, r.detail, nowMs⟩

/-- The `ERROR` trace of the failure. -/
def trace (py : PyLib) (key : Bytes) (seq : ℕ) (nowMs : Int) : Output :=
  .traces ((ActivationTrace.new py key seq nowMs).error py r.reason r.errorType none r.position)

end FailureReport

/-- What a failed flush emits: the record once for each event of its buffer, and the trace. -/
def flushReported (py : PyLib) (key : Bytes) (seq : ℕ) (nowMs : Int) (size : ℕ) (trigger : String)
    (failure : ActivationFailure) : List Output :=
  let report := failure.flushReport s!"batch_size={size},trigger={trigger}"
  List.replicate size (report.record key nowMs) ++ [report.trace py key seq nowMs]

/-- The trace of a refused resume, in the scope of the continuation when there is one. -/
def orphanTrace (py : PyLib) (key : Bytes) (seq : ℕ) (nowMs : Int) (detail : AdmissionDetail) :
    Output :=
  .traces ((ActivationTrace.new py key seq nowMs).error py reasonOrphaned detail.text)

/-- An element that is neither on the main output nor on `.intents`. -/
def Output.aside : Output → Bool
  | .errors _ | .traces _ | .snapshots _ => true
  | .main _ | .intents _ => false

theorem aside_flushReported {py : PyLib} {key : Bytes} {seq : ℕ} {nowMs : Int} {size : ℕ}
    {trigger : String} {failure : ActivationFailure} :
    ∀ o ∈ flushReported py key seq nowMs size trigger failure, o.aside := by
  intro o ho
  simp only [flushReported, List.mem_append, List.mem_replicate, List.mem_singleton] at ho
  rcases ho with ⟨-, rfl⟩ | rfl <;> rfl

theorem outputsOf_activationFailure (py : PyLib) (key : Bytes) (seq : ℕ) (nowMs : Int)
    (failure : ActivationFailure) :
    outputsOf (activationFailure py key seq nowMs failure) =
      [failure.report.record key nowMs, failure.report.trace py key seq nowMs] := by
  cases failure <;> rfl

namespace AgentDoFn

theorem outputsOf_failedFlush (key : Bytes) (nowMs : Int) (envelopes : List AgentEnvelope)
    (reason detail : String) :
    outputsOf (failedFlush key nowMs envelopes reason detail) =
      List.replicate envelopes.length (.errors ⟨key, reason, detail, nowMs⟩) := by
  induction envelopes with
  | nil => rfl
  | cons envelope envelopes ih =>
    exact congrArg (Output.errors ⟨key, reason, detail, nowMs⟩ :: ·) ih

/-- A failed flush emits one record for each envelope, and one trace. -/
theorem outputsOf_flushFailure (py : PyLib) (key : Bytes) (seq : ℕ) (nowMs : Int)
    (envelopes : List AgentEnvelope) (trigger : String) (failure : ActivationFailure) :
    outputsOf (flushFailure py key seq nowMs envelopes
        s!"batch_size={envelopes.length},trigger={trigger}" failure) =
      flushReported py key seq nowMs envelopes.length trigger failure := by
  cases failure with
  | timeout | failed context cause | raised e =>
    simp only [flushFailure, outputsOf_append, outputsOf_failedFlush]
    rfl

/-- A failed flush consumes its buffer. -/
theorem batch_flushFailure (py : PyLib) (key : Bytes) (seq : ℕ) (nowMs : Int)
    (envelopes : List AgentEnvelope) (batchDetail : String) (failure : ActivationFailure)
    (s : KeyState) :
    (s.applyAll (flushFailure py key seq nowMs envelopes batchDetail failure)).batch = [] := by
  cases failure <;> simp only [flushFailure, failedFlush, KeyState.applyAll_append] <;> rfl

/-! ### Calls that fail or are refused -/

variable (d : AgentDoFn) (py : PyLib) (key : Bytes) (s : KeyState)

/-- The calls that fail or are refused, what each emits, and the buffer that it leaves. -/
inductive Declined : KeyCall → List Output → List AgentEnvelope → Prop
  /-- The activation of a fresh event or of an admitted answer fails. -/
  | activation {envelope w caller input failure}
      (hact : d.Activates key s (.process envelope w) w caller input)
      (hcaller : caller = .start ∨ caller = .resume)
      (hfail : d.activate py w input = .error failure) :
      Declined (.process envelope w)
        [failure.report.record key input.nowMs, failure.report.trace py key input.seq input.nowMs]
        s.batch
  /-- The activation of a flush on size fails: the event is the last of the buffer it consumes. -/
  | sizeFlush {envelope settings w first rest memoryBlob cacheBlob failure}
      (hbatch : d.batch = some settings) (hevent : envelope.isEvent)
      (hroom : bufferIsFull s.batch.length settings.maxBufferedEvents = false)
      (hcont : d.schema.migrateContinuation s.continuation = .ok none)
      (hsize : settings.maxBatchSize ≤ s.batch.length + 1)
      (hbuffer : s.batch ++ [envelope] = first :: rest)
      (hmemory : d.schema.migrateMemory s.memory = .ok memoryBlob)
      (hcache : d.schema.migrateCache s.llmCache = .ok cacheBlob)
      (hfail : d.activate py w (flushInput key first rest triggerSize s memoryBlob cacheBlob) =
        .error failure) :
      Declined (.process envelope w)
        (flushReported py key s.seq (batchClock first rest) (s.batch.length + 1) triggerSize
          failure) []
  /-- The activation of a flush on the timer fails. -/
  | timerFlush {w first rest memoryBlob cacheBlob failure}
      (hbatch : d.batch.isSome)
      (hcont : d.schema.migrateContinuation s.continuation = .ok none)
      (hbuffer : s.batch = first :: rest)
      (hmemory : d.schema.migrateMemory s.memory = .ok memoryBlob)
      (hcache : d.schema.migrateCache s.llmCache = .ok cacheBlob)
      (hfail : d.activate py w (flushInput key first rest triggerTimer s memoryBlob cacheBlob) =
        .error failure) :
      Declined (.onFlush w)
        (flushReported py key s.seq (batchClock first rest) s.batch.length triggerTimer failure) []
  /-- An answer comes while nothing is suspended. -/
  | orphaned {envelope w intentId} (hanswers : envelope.answers = some intentId)
      (hcont : d.schema.migrateContinuation s.continuation = .ok none) :
      Declined (.process envelope w)
        [.errors ⟨key, reasonOrphaned, s!"{AdmissionDetail.noContinuation.text}:{intentId}",
            envelope.eventTimeMs⟩,
          orphanTrace py key s.seq envelope.eventTimeMs .noContinuation] s.batch
  /-- An answer to an intent that is not pending, or one that comes late. -/
  | refused {envelope w intentId cont detail} (hanswers : envelope.answers = some intentId)
      (hcont : d.schema.migrateContinuation s.continuation = .ok (some cont))
      (hrefused : admissionFailure (some cont) s.pending intentId envelope.eventTimeMs =
        some detail) :
      Declined (.process envelope w)
        [.errors ⟨key, reasonOrphaned, s!"{detail.text}:{intentId}", envelope.eventTimeMs⟩,
          orphanTrace py key cont.seq envelope.eventTimeMs detail] s.batch
  /-- The buffer is full, and the event is shed. -/
  | shed {envelope settings w} (hbatch : d.batch = some settings) (hevent : envelope.isEvent)
      (hfull : bufferIsFull s.batch.length settings.maxBufferedEvents = true) :
      Declined (.process envelope w)
        [.errors ⟨key, reasonBatchOverflow,
          s!"buffered={s.batch.length},cap={settings.maxBufferedEvents}",
          envelope.eventTimeMs⟩] s.batch
  /-- A flush fires without batching. -/
  | noBatching {w} (hbatch : d.batch = none) : Declined (.onFlush w) [] s.batch
  /-- A flush fires while there is nothing to flush, or a suspension is live. -/
  | flush {w cont} (hcont : d.schema.migrateContinuation s.continuation = .ok cont)
      (hdeclined : s.batch = [] ∨ cont.isSome) : Declined (.onFlush w) [] s.batch
  /-- A HITL timer fires while nothing is suspended, or before the deadline. -/
  | staleHitl {micros w cont} (hcont : d.schema.migrateContinuation s.continuation = .ok cont)
      (hstale : ∀ cont' ∈ cont, firedAtMs micros < cont'.deadlineMs) :
      Declined (.onHitl micros w) [] s.batch
  /-- A snapshot is requested. -/
  | exported {envelope w requestId} (hrequest : envelope.payload = .exportRequest requestId) :
      Declined (.process envelope w)
        [.snapshots (buildSnapshot d.schema.current key s envelope.eventTimeMs requestId)] s.batch

section Declined

variable {d py key s} {c : KeyCall} {outputs : List Output} {batch : List AgentEnvelope}

/-- Nothing that a failed or refused call emits goes to the main output or to `.intents`. -/
theorem Declined.aside (h : d.Declined py key s c outputs batch) : ∀ o ∈ outputs, o.aside := by
  cases h with
  | sizeFlush | timerFlush => exact aside_flushReported
  | _ => simp [FailureReport.record, FailureReport.trace, orphanTrace, Output.aside]

/-- What a call comes to that neither changes the core nor emits anything but `outputs`. -/
def Unchanged (s : KeyState) (x : Exit) (outputs : List Output) (batch : List AgentEnvelope) :
    Prop :=
  x.raised = none ∧ (s.applyAll x.effects).core = s.core ∧ (s.applyAll x.effects).batch = batch ∧
    outputsOf x.effects = outputs

/-- Effects without any on the state leave everything unchanged. -/
theorem Unchanged.of_stateless {es : List Effect} (h : ∀ e ∈ es, e.stateless = true) :
    Unchanged s ⟨es, none⟩ (outputsOf es) s.batch := by
  refine ⟨rfl, ?_, ?_, rfl⟩ <;> rw [KeyState.applyAll_stateless h]

theorem stateless_activationFailure (seq : ℕ) (nowMs : Int) (failure : ActivationFailure) :
    ∀ e ∈ activationFailure py key seq nowMs failure, e.stateless = true := by
  cases failure <;>
    simp [activationFailure, failedActivation, deadLetter, errorTrace, Effect.stateless]

/-- A failed flush of the buffer of `s`, with its core untouched since `s₀`. -/
theorem Unchanged.of_flush {s₀ : KeyState} {first : AgentEnvelope} {rest : List AgentEnvelope}
    {trigger : String} {w : World} {memoryBlob : Option MemoryBlob}
    {cacheBlob : Option LlmCacheBlob} {failure : ActivationFailure} {pre : List Effect}
    (hcore : (s₀.applyAll pre).core = s₀.core) (hpre : outputsOf pre = [])
    (hmemory : d.schema.migrateMemory s₀.memory = .ok memoryBlob)
    (hcache : d.schema.migrateCache s₀.llmCache = .ok cacheBlob)
    (hfail : d.activate py w (flushInput key first rest trigger s₀ memoryBlob cacheBlob) =
      .error failure) :
    Unchanged s₀ (.after pre (d.flush py key first rest trigger (s₀.applyAll pre) w))
      (flushReported py key s₀.seq (batchClock first rest) (first :: rest).length trigger failure)
      [] := by
  have hseq : (s₀.applyAll pre).seq = s₀.seq := congrArg KeyCore.seq hcore
  have hmem : (s₀.applyAll pre).memory = s₀.memory := congrArg KeyCore.memory hcore
  have hllm : (s₀.applyAll pre).llmCache = s₀.llmCache := congrArg KeyCore.llmCache hcore
  have hinput : flushInput key first rest trigger (s₀.applyAll pre) memoryBlob cacheBlob =
      flushInput key first rest trigger s₀ memoryBlob cacheBlob := by
    simp only [flushInput, hseq]
  simp only [flush, hmem, hllm, hmemory, hcache, hinput, hfail, hseq, Exit.after]
  refine ⟨rfl, ?_, ?_, ?_⟩
  · rw [KeyState.applyAll_append]
    exact (Quiet.applyAll (quiet_cons.mpr ⟨rfl, quiet_flushFailure _ _ _ _ _ _ _⟩)).1.trans hcore
  · rw [KeyState.applyAll_append, applyAll_sampleActivation]
    exact batch_flushFailure ..
  · rw [outputsOf_append, hpre, List.nil_append, sampleActivation, outputsOf_observe]
    exact outputsOf_flushFailure ..

/-- A fresh event or an admitted answer whose activation fails. -/
theorem call_of_failed {envelope : AgentEnvelope} {w : World} {caller : CommitOf}
    {input : ActivationInput} {failure : ActivationFailure}
    (hact : d.Activates key s (.process envelope w) w caller input)
    (hcaller : caller = .start ∨ caller = .resume)
    (hfail : d.activate py w input = .error failure) :
    d.call py key s (.process envelope w) =
      ⟨sampleActivation w :: activationFailure py key input.seq input.nowMs failure, none⟩ := by
  cases hact with
  | start hbatch hevent hmemory hcache =>
    have hstart : d.start py key envelope.eventTimeMs envelope.externalEvent s w =
        ⟨sampleActivation w :: activationFailure py key s.seq envelope.eventTimeMs failure,
          none⟩ := by
      simp only [start, hmemory, hcache, hfail]
    cases hp : envelope.payload <;> simp_all [call, process, AgentEnvelope.isEvent, startInput]
  | flush => simp at hcaller
  | @resume _ _ cont intentId memoryBlob cacheBlob hanswers hcont hadmission hmemory hcache =>
    have hresume : d.resume py key envelope.eventTimeMs intentId envelope.answerResult
        envelope.answerApproval s w =
        ⟨sampleActivation w :: activationFailure py key cont.seq envelope.eventTimeMs failure,
          none⟩ := by
      simp only [resume, hcont, hadmission, resumeAdmitted, hmemory, hcache, hfail]
    cases hp : envelope.payload <;>
      simp_all [call, process, AgentEnvelope.answers, AgentEnvelope.answerResult,
        AgentEnvelope.answerApproval, resumeInput]

/-- An answer that is not admitted. -/
theorem call_of_refused {envelope : AgentEnvelope} {w : World} {intentId : String}
    {cont : Option Continuation} {detail : AdmissionDetail}
    (hanswers : envelope.answers = some intentId)
    (hcont : d.schema.migrateContinuation s.continuation = .ok cont)
    (hrefused : admissionFailure cont s.pending intentId envelope.eventTimeMs = some detail) :
    d.call py key s (.process envelope w) =
      ⟨refusedResume py key envelope.eventTimeMs intentId cont detail s, none⟩ := by
  have hresume (result : Option ToolResult) (approval : Option Approval) :
      d.resume py key envelope.eventTimeMs intentId result approval s w =
        ⟨refusedResume py key envelope.eventTimeMs intentId cont detail s, none⟩ := by
    cases cont with
    | none =>
      cases hrefused
      simp only [resume, hcont]
    | some cont => simp only [resume, hcont, hrefused]
  cases hp : envelope.payload <;> simp_all [call, process, AgentEnvelope.answers]

/-- **A failed or refused call changes nothing.** In every state, a call whose activation fails or
whose element, flush or timer is refused does not raise, leaves the cells, the pending bag, the
counter and the HITL timer as they were, and emits the records and traces of that failure and
nothing else, none of it on the main output or on `.intents`. A failed flush empties its buffer,
with one record for each event; in the other cases the buffer is as it was. -/
theorem declined_unchanged (d : AgentDoFn) (py : PyLib) (key : Bytes) (s : KeyState) {c : KeyCall}
    {outputs : List Output} {batch : List AgentEnvelope}
    (h : d.Declined py key s c outputs batch) :
    Unchanged s (d.call py key s c) outputs batch ∧ ∀ o ∈ outputs, o.aside := by
  refine ⟨?_, h.aside⟩
  cases h with
  | activation hact hcaller hfail =>
    rw [call_of_failed hact hcaller hfail, ← outputsOf_activationFailure]
    exact .of_stateless (List.forall_mem_cons.mpr ⟨rfl, stateless_activationFailure _ _ _⟩)
  | @sizeFlush envelope settings w first rest _ _ _ hbatch hevent hroom hcont hsize hbuffer hmemory
      hcache hfail =>
    have hpre : d.Buffered s (.process envelope w) (d.bufferEffects envelope settings s w) :=
      .yes hbatch hevent hroom
    have hlength : (first :: rest).length = s.batch.length + 1 := by simp [← hbuffer]
    rw [← hlength] at hsize
    rw [sizeFlush_call hbatch hevent hroom hcont hbuffer hsize, ← hlength]
    refine .of_flush hpre.core ?_ hmemory hcache hfail
    simp only [bufferEffects]
    split_ifs <;> rfl
  | @timerFlush w first rest _ _ _ hbatch hcont hbuffer hmemory hcache hfail =>
    have hflush : d.call py key s (.onFlush w) =
        .after [] (d.flush py key first rest triggerTimer (s.applyAll []) w) :=
      timerFlush_call hbatch hcont hbuffer
    rw [hflush, hbuffer]
    exact .of_flush rfl rfl hmemory hcache hfail
  | orphaned hanswers hcont =>
    rw [call_of_refused hanswers hcont rfl]
    exact .of_stateless (by simp [refusedResume, deadLetter, errorTrace, Effect.stateless])
  | refused hanswers hcont hrefused =>
    rw [call_of_refused hanswers hcont hrefused]
    exact .of_stateless (by simp [refusedResume, deadLetter, errorTrace, Effect.stateless])
  | @shed envelope settings w hbatch hevent hfull =>
    rw [event_call hbatch hevent, buffer, if_pos hfull]
    exact .of_stateless (by simp [deadLetter, Effect.stateless])
  | @noBatching w hbatch =>
    have hcall : d.call py key s (.onFlush w) = ⟨[], none⟩ := by simp [call, onFlush, hbatch]
    rw [hcall]
    exact .of_stateless (by simp)
  | @flush w cont hcont hdeclined =>
    have hcall : d.call py key s (.onFlush w) = ⟨[], none⟩ := by
      have hnot : shouldFlushOnTimer s.batch.length cont.isSome = false := by
        obtain h | h := hdeclined <;> simp [shouldFlushOnTimer, h]
      simp [call, onFlush, hcont, hnot]
    rw [hcall]
    exact .of_stateless (by simp)
  | @staleHitl micros w cont hcont hstale =>
    have hcall : d.call py key s (.onHitl micros w) = ⟨[], none⟩ := by
      cases cont with
      | none => simp [call, onHitl, hcont]
      | some cont => simp [call, onHitl, hcont, hstale cont rfl]
    rw [hcall]
    exact .of_stateless (by simp)
  | @exported envelope w requestId hrequest =>
    have hcall : d.call py key s (.process envelope w) = ⟨[.emit (.snapshots (buildSnapshot
        d.schema.current key s envelope.eventTimeMs requestId))], none⟩ := by
      simp [call, process, hrequest]
    rw [hcall]
    exact .of_stateless (by simp [Effect.stateless])

/-- A pipeline that flushes two events at a time, with an agent that raises. -/
def raisingAgent : AgentDoFn where
  agent := .raise ⟨.other, "ValueError", "ValueError('boom')"⟩
  batch := some {
    maxBatchSize := 2, maxWaitMs := 1, maxBufferedEvents := 2
    maxBatchSize_pos := Nat.two_pos, maxWaitMs_pos := Nat.one_pos, maxBatchSize_le := le_rfl }

/-- A key with a committed activation and one buffered event. -/
def bufferedKey : KeyState where
  memory := some { stateSchemaVersion := 1 }
  llmCache := some { stateSchemaVersion := 1 }
  seq := 1
  batch := [⟨[107], 1000, .externalEvent [1]⟩]

/-- The flush of two events fails: two records, one trace, and no buffer. -/
theorem declined_unchanged_flush :
    Unchanged bufferedKey (raisingAgent.call (.ofTable []) [107] bufferedKey
        (.process ⟨[107], 2000, .externalEvent [2]⟩ quietWorld))
      (flushReported (.ofTable []) [107] 1 2000 2 triggerSize
        (.failed ⟨0, "ACTIVATION_START", 0, 0⟩ ⟨.other, "ValueError", "ValueError('boom')"⟩))
      [] := by
  have hmemory : raisingAgent.schema.migrateMemory bufferedKey.memory = .ok bufferedKey.memory :=
    by decide
  have hcache : raisingAgent.schema.migrateCache bufferedKey.llmCache = .ok bufferedKey.llmCache :=
    by decide
  exact (declined_unchanged raisingAgent (.ofTable []) [107] bufferedKey
    (.sizeFlush rfl rfl (by decide) (by decide) (by decide) rfl hmemory hcache (by decide))).1

end Declined

end AgentDoFn

end BeamAgents
