import BeamAgents.Core.Loop
import BeamAgents.Transition.Machine

/-!
# The stateful transform

`AgentDoFn` of `core/dofn.py`, for one key: its state cells, bags, timers, and the four entry
points `process`, `on_ttl`, `on_flush` and `on_hitl`. An entry point reads the state of its key and
performs effects (writes, timer operations, emitted elements, metric updates) in the order of the
source; a call ends with the effects it performed and what it raised, if anything. A call that
raises fails its bundle, which is rolled back with everything in it: only the other calls are steps
of the transform.

A timer holds at most one mark, in milliseconds. Which fires the runner delivers, and when, is left
open: the fire of any timer may be delivered at any time, with any timestamp.

## Main definitions

* `KeyState`, `Effect`, `Output`, `Exit`.
* `AgentDoFn` with `process`, `onTtl`, `onFlush`, `onHitl` and what they are made of.
* `AgentDoFn.machine`: the transform on one key as a machine.
-/

namespace BeamAgents

/-- Dead-letter record for the `.errors` output. -/
structure ActivationError where
  entityKey : Bytes
  reason : String
  detail : String := ""
  eventTimeMs : Int := 0
  deriving DecidableEq, Repr

/-- An element on the main output or on one of the tagged outputs. -/
inductive Output
  | main (output : Bytes)
  | intents (intent : ToolIntent)
  | traces (event : TraceEvent)
  | errors (error : ActivationError)
  | snapshots (snapshot : StateSnapshot)
  deriving DecidableEq, Repr

/-- The state of one key: three cells, two bags, the counter, and the marks of the timers. -/
structure KeyState where
  memory : Option MemoryBlob := none
  continuation : Option Continuation := none
  llmCache : Option LlmCacheBlob := none
  pending : List ToolIntent := []
  seq : ℕ := 0
  batch : List AgentEnvelope := []
  ttlTimer : Option Int := none
  hitlTimer : Option Int := none
  flushTimer : Option Int := none
  deriving DecidableEq, Repr

/-- What an entry point does to the world. -/
inductive Effect
  | writeMemory (blob : MemoryBlob)
  | clearMemory
  | writeLlmCache (blob : LlmCacheBlob)
  | clearLlmCache
  | writeContinuation (cont : Continuation)
  | clearContinuation
  | addPending (intent : ToolIntent)
  | clearPending
  | addSeq (n : ℕ)
  | clearSeq
  | addBatch (envelope : AgentEnvelope)
  | clearBatch
  | setTtl (ms : Int)
  | setHitl (ms : Int)
  | clearHitl
  | setFlush (ms : Int)
  | clearFlush
  | emit (output : Output)
  | incr (counter : Counter) (n : ℕ := 1)
  | observe (distribution : Distribution) (value : Int)
  deriving DecidableEq, Repr

/-- The effect on the state of the key. -/
def KeyState.apply (s : KeyState) : Effect → KeyState
  | .writeMemory blob => { s with memory := some blob }
  | .clearMemory => { s with memory := none }
  | .writeLlmCache blob => { s with llmCache := some blob }
  | .clearLlmCache => { s with llmCache := none }
  | .writeContinuation cont => { s with continuation := some cont }
  | .clearContinuation => { s with continuation := none }
  | .addPending intent => { s with pending := s.pending ++ [intent] }
  | .clearPending => { s with pending := [] }
  | .addSeq n => { s with seq := s.seq + n }
  | .clearSeq => { s with seq := 0 }
  | .addBatch envelope => { s with batch := s.batch ++ [envelope] }
  | .clearBatch => { s with batch := [] }
  | .setTtl ms => { s with ttlTimer := some ms }
  | .setHitl ms => { s with hitlTimer := some ms }
  | .clearHitl => { s with hitlTimer := none }
  | .setFlush ms => { s with flushTimer := some ms }
  | .clearFlush => { s with flushTimer := none }
  | .emit _ | .incr .. | .observe .. => s

/-- The effects of a call, in order. -/
def KeyState.applyAll (s : KeyState) (effects : List Effect) : KeyState :=
  effects.foldl KeyState.apply s

/-- What an entry point may raise: an unmigratable blob, or the `on_expire` hook's exception. -/
inductive CallError
  | migration (e : MigrationError)
  | hook (e : PyExn)
  deriving DecidableEq, Repr

/-- How a call ends. -/
structure Exit where
  effects : List Effect
  raised : Option CallError := none

namespace Exit

/-- Nothing done, and an unmigratable blob raised. -/
def migration (e : MigrationError) : Exit := ⟨[], some (.migration e)⟩

/-- Effects performed before the rest of the call. -/
def after (effects : List Effect) (x : Exit) : Exit := ⟨effects ++ x.effects, x.raised⟩

end Exit

/-- The transform and its configuration. -/
structure AgentDoFn where
  agent : Agent
  ttlMs : Int := 3600000
  policy : HitlPolicy := {}
  decode : Option (Bytes → Except PyExn TokenUsage) := none
  tools : String → Option Tool := fun _ => none
  longterm : Bool := false
  compactor : Option Compactor := none
  summarizer : Option Summarizer := none
  onExpire : Bool := false
  batch : Option BatchSettings := none
  maxTokensPerActivation : Option ℕ := none
  schema : StateSchema := .v1
  decode_of_budget : maxTokensPerActivation.isSome → decode.isSome := by
    first | exact unmetered_decode | decide
  budget_pos : ∀ n ∈ maxTokensPerActivation, 0 < n := by first | exact unmetered_pos | decide

/-! ### Reasons and details -/

/-- `REASON_TIMEOUT`. -/
def reasonTimeout : String := "activation_timeout"

/-- `REASON_ERROR`. -/
def reasonError : String := "activation_error"

/-- `REASON_ORPHANED`. -/
def reasonOrphaned : String := "orphaned_result"

/-- `REASON_TTL_WIPED_SUSPENSION`. -/
def reasonTtlWipedSuspension : String := "ttl_wiped_suspension"

/-- `REASON_TTL_WIPED_BATCH`. -/
def reasonTtlWipedBatch : String := "ttl_wiped_batch"

/-- `REASON_BATCH_OVERFLOW`. -/
def reasonBatchOverflow : String := "batch_buffer_overflow"

/-- `REASON_BUDGET_EXCEEDED`. -/
def reasonBudgetExceeded : String := "budget_exceeded"

/-- The details of a refused resume. -/
inductive AdmissionDetail
  | noContinuation
  | unknownIntent
  | deadlinePassed
  | intentExpired
  deriving DecidableEq, Repr

/-- `DETAIL_NO_CONTINUATION` and its siblings. -/
def AdmissionDetail.text : AdmissionDetail → String
  | .noContinuation => "no_continuation"
  | .unknownIntent => "unknown_intent"
  | .deadlinePassed => "deadline_passed"
  | .intentExpired => "intent_expired"

/-- `_admission_failure`: why a resume is refused, or `none` when it may resume the activation. -/
def admissionFailure (cont : Option Continuation) (pendingIntents : List ToolIntent)
    (intentId : String) (nowMs : Int) : Option AdmissionDetail :=
  match cont with
  | none => some .noContinuation
  | some cont =>
    if intentId ∉ cont.pendingIntentIds then some .unknownIntent
    else if cont.deadlineMs ≤ 0 ∨ cont.deadlineMs ≤ nowMs then some .deadlinePassed
    else if pendingIntents.any fun i => i.intentId = intentId && intentExpired i nowMs then
      some .intentExpired
    else none

/-! ### Error records -/

variable (py : PyLib)

/-- `_error_trace`. -/
def errorTrace (key : Bytes) (seq : ℕ) (nowMs : Int) (reason : String) (errorType : String := "")
    (role : Option String := none) (failure : Option FailureContext := none) : Effect :=
  .emit (.traces ((ActivationTrace.new py key seq nowMs).error py reason errorType role failure))

/-- `AgentDoFn._dead_letter`, yielded: every dead letter is counted where it is built. -/
def deadLetter (key : Bytes) (reason detail : String) (eventTimeMs : Int) : List Effect :=
  [.incr (if reason = reasonOrphaned then .orphanedResults else .agentErrors),
    .emit (.errors ⟨key, reason, detail, eventTimeMs⟩)]

/-- `AgentDoFn._failed_activation`. -/
def failedActivation (key : Bytes) (seq : ℕ) (nowMs : Int) (context : FailureContext)
    (cause : PyExn) : List Effect :=
  let reason := if cause.cls = .budgetExceeded then reasonBudgetExceeded else reasonError
  deadLetter key reason (cause.repr ++ context.detailSuffix) nowMs ++
    [errorTrace py key seq nowMs reason cause.typeName none (some context)]

/-- The `except` clauses that `_start` and `_resume` share. -/
def activationFailure (key : Bytes) (seq : ℕ) (nowMs : Int) : ActivationFailure → List Effect
  | .timeout =>
    deadLetter key reasonTimeout "" nowMs ++ [errorTrace py key seq nowMs reasonTimeout]
  | .failed context cause => failedActivation py key seq nowMs context cause
  | .raised e =>
    deadLetter key reasonError e.repr nowMs ++
      [errorTrace py key seq nowMs reasonError e.typeName]

/-- `build_snapshot`. -/
def buildSnapshot (current : ℕ) (key : Bytes) (s : KeyState) (snapshotAtMs : Int)
    (requestId : String) : StateSnapshot where
  stateSchemaVersion := current
  entityKey := key
  seq := s.seq
  snapshotAtMs := snapshotAtMs
  memory := s.memory
  llmCache := s.llmCache
  continuation := s.continuation
  pending := s.pending
  requestId := requestId

/-- Who commits: a fresh start, a resume (which is handed the buffer), or a flush. -/
inductive CommitOf
  | start
  | resume
  | flush (size : ℕ) (trigger : String)
  deriving DecidableEq, Repr

namespace AgentDoFn

variable (d : AgentDoFn)

/-- What the transform builds its contexts with. -/
def contextConfig : ContextConfig where
  compactor := d.compactor
  decode := d.decode
  tools := d.tools
  longterm := d.longterm
  intentTtlMs := d.policy.intentTtlMs
  approvalChannel := d.policy.approvalChannel
  maxTokensPerActivation := d.maxTokensPerActivation
  decode_of_budget := d.decode_of_budget
  budget_pos := d.budget_pos

/-! ### Committing an activation -/

/-- The duration of the bridge submission. -/
def activationMs (w : World) : Int := w.elapsedNs / ActivationContext.nsPerMs

/-- `AgentDoFn._activate`. Its one effect, the sample of `activation_ms`, is in a `finally`. -/
def activate (w : World) (input : ActivationInput) : Except ActivationFailure ActivationResult :=
  bridgeRun w (runActivation py d.schema d.contextConfig d.agent d.summarizer d.policy.timeoutMs w
    input)

/-- The sample of `activation_ms`. -/
def sampleActivation (w : World) : Effect := .observe .activationMs (activationMs w)

/-- `AgentDoFn._rearm_flush`: a deferred buffer is flushed promptly. -/
def rearmFlush (s : KeyState) (w : World) : List Effect :=
  if d.batch.isNone then []
  else if s.batch ≠ [] then [.setFlush w.wallNowMs]
  else []

/-- A counter moved by the size of something, when there is something. -/
def incrBy (counter : Counter) (n : ℕ) : List Effect := if n = 0 then [] else [.incr counter n]

/-- The counters and the sample of a committed flush. -/
def recordFlush : CommitOf → List Effect
  | .flush size trigger =>
    [.incr (if trigger = triggerSize then .batchFlushesSize else .batchFlushesTimer),
      .observe .batchSize size]
  | .start | .resume => []

/-- The samples taken from the tally of a committed activation. -/
def recordTally (tally : ActivationTally) (activationMs : Int) : List Effect :=
  let tokens : List Effect :=
    if tally.usageObserved then
      [.observe .tokens tally.totalTokens, .observe .promptTokens tally.promptTokens,
        .observe .completionTokens tally.completionTokens]
    else []
  let overheadMs := max 0 (activationMs - tally.llmMs.sum - tally.toolMs.sum)
  tokens ++ tally.llmMs.map (Effect.observe .llmMs) ++ [Effect.observe .overheadMs overheadMs]

/-- `AgentDoFn._record_commit`. -/
def recordCommit (result : ActivationResult) (activationMs : Int) (caller : CommitOf) :
    List Effect :=
  .incr .activations :: List.flatten [
    recordFlush caller,
    if result.status = .suspended then [.incr .suspensions] else [],
    incrBy .intentsEmitted result.intents.length,
    incrBy .longtermUpserts result.upserts.length,
    incrBy .llmCalls result.tally.llmCalls,
    incrBy .toolCalls result.tally.toolCalls,
    [.observe .memoryBytes result.memoryBlob.totalValueBytes],
    [.observe .iterations result.tally.iterations],
    recordTally result.tally activationMs]

/-- The state that a commit writes, before the timers: the cells, the bags and the counter. -/
def commitCells (result : ActivationResult) (caller : CommitOf) : List Effect :=
  let writeCont : Effect :=
    match result.continuation with
    | some cont => .writeContinuation cont
    | none => .clearContinuation
  let consumeBatch : List Effect :=
    match caller with
    | .flush .. => [.clearBatch]
    | .start | .resume => []
  [.writeMemory result.memoryBlob, .writeLlmCache result.cacheBlob, writeCont, .clearPending] ++
    result.intents.map Effect.addPending ++ consumeBatch ++ [Effect.addSeq 1]

/-- The timers that a commit arms. A suspending activation measures the TTL mark from its
deadline. -/
def commitTimers (result : ActivationResult) (nowMs : Int) : List Effect :=
  match result.status, result.hitlDeadlineMs with
  | .suspended, some deadlineMs => [.setHitl deadlineMs, .setTtl (max nowMs deadlineMs + d.ttlMs)]
  | _, _ => [.clearHitl, .setTtl (nowMs + d.ttlMs)]

/-- The flush timer after a commit: cleared with the consumed buffer, or re-armed by a resume that
completed. A start is not handed the buffer. -/
def commitFlushTimer (s : KeyState) (w : World) (result : ActivationResult) (caller : CommitOf) :
    List Effect :=
  match caller with
  | .flush .. => [.clearFlush]
  | .resume => if result.continuation.isNone then d.rearmFlush s w else []
  | .start => []

/-- The elements that a commit emits. -/
def commitOutputs (result : ActivationResult) : List Effect :=
  result.outputs.map (fun b => .emit (.main b)) ++
  result.intents.map (fun i => .emit (.intents i)) ++
  result.traces.map (fun t => .emit (.traces t))

/-- `AgentDoFn._commit`, in its fixed order. -/
def commit (s : KeyState) (w : World) (result : ActivationResult) (nowMs : Int)
    (caller : CommitOf) :
    List Effect :=
  commitCells result caller ++ d.commitTimers result nowMs ++
    d.commitFlushTimer s w result caller ++
    recordCommit result (activationMs w) caller ++ commitOutputs result

/-! ### Fresh activations -/

/-- What `_start` hands to the activation. -/
def startInput (key : Bytes) (nowMs : Int) (event : Bytes) (s : KeyState)
    (memoryBlob : Option MemoryBlob) (cacheBlob : Option LlmCacheBlob) : ActivationInput where
  entityKey := key
  seq := s.seq
  nowMs := nowMs
  memoryBlob := memoryBlob
  cacheBlob := cacheBlob
  event := .inl event

/-- `AgentDoFn._start`. -/
def start (key : Bytes) (nowMs : Int) (event : Bytes) (s : KeyState) (w : World) : Exit :=
  match d.schema.migrateMemory s.memory with
  | .error e => .migration e
  | .ok memoryBlob =>
    match d.schema.migrateCache s.llmCache with
    | .error e => .migration e
    | .ok cacheBlob =>
      match d.activate py w (startInput key nowMs event s memoryBlob cacheBlob) with
      | .error failure =>
        ⟨sampleActivation w :: activationFailure py key s.seq nowMs failure, none⟩
      | .ok result => ⟨sampleActivation w :: d.commit s w result nowMs .start, none⟩

/-! ### Adaptive batching -/

/-- `AgentDoFn._failed_flush`: one record for each envelope, and the buffer is consumed. -/
def failedFlush (key : Bytes) (nowMs : Int) (envelopes : List AgentEnvelope)
    (reason detail : String) : List Effect :=
  envelopes.flatMap (fun _ => deadLetter key reason detail nowMs) ++ [.clearBatch, .clearFlush]

/-- The `except` clauses of `_flush`. -/
def flushFailure (key : Bytes) (seq : ℕ) (nowMs : Int) (envelopes : List AgentEnvelope)
    (batchDetail : String) : ActivationFailure → List Effect
  | .timeout =>
    failedFlush key nowMs envelopes reasonTimeout batchDetail ++
      [errorTrace py key seq nowMs reasonTimeout]
  | .failed context cause =>
    failedFlush key nowMs envelopes reasonError
      (cause.repr ++ context.detailSuffix ++ " " ++ batchDetail) ++
      [errorTrace py key seq nowMs reasonError cause.typeName none (some context)]
  | .raised e =>
    failedFlush key nowMs envelopes reasonError (e.repr ++ " " ++ batchDetail) ++
      [errorTrace py key seq nowMs reasonError e.typeName]

/-- The batch clock: `max(envelope.event_time_ms for envelope in envelopes)`. -/
def batchClock (first : AgentEnvelope) (rest : List AgentEnvelope) : Int :=
  (rest.map AgentEnvelope.eventTimeMs).foldl max first.eventTimeMs

/-- What `_flush` hands to the activation: the whole buffer. -/
def flushInput (key : Bytes) (first : AgentEnvelope) (rest : List AgentEnvelope) (trigger : String)
    (s : KeyState) (memoryBlob : Option MemoryBlob) (cacheBlob : Option LlmCacheBlob) :
    ActivationInput where
  entityKey := key
  seq := s.seq
  nowMs := batchClock first rest
  memoryBlob := memoryBlob
  cacheBlob := cacheBlob
  event := .inr ((first :: rest).map AgentEnvelope.externalEvent)
  batchTrigger := trigger

/-- `AgentDoFn._flush`. Both of its callers hand it a buffer that is not empty. -/
def flush (key : Bytes) (first : AgentEnvelope) (rest : List AgentEnvelope) (trigger : String)
    (s : KeyState) (w : World) : Exit :=
  let envelopes := first :: rest
  let nowMs := batchClock first rest
  match d.schema.migrateMemory s.memory with
  | .error e => .migration e
  | .ok memoryBlob =>
    match d.schema.migrateCache s.llmCache with
    | .error e => .migration e
    | .ok cacheBlob =>
      let batchDetail := s!"batch_size={envelopes.length},trigger={trigger}"
      match d.activate py w (flushInput key first rest trigger s memoryBlob cacheBlob) with
      | .error failure =>
        ⟨sampleActivation w :: flushFailure py key s.seq nowMs envelopes batchDetail failure,
          none⟩
      | .ok result =>
        ⟨sampleActivation w :: d.commit s w result nowMs (.flush envelopes.length trigger), none⟩

/-- What `_buffer` does once the event is not shed: the bag append, the re-armed TTL mark, and the
flush mark on the first buffered event. -/
def bufferEffects (envelope : AgentEnvelope) (settings : BatchSettings) (s : KeyState)
    (w : World) : List Effect :=
  [.addBatch envelope, .incr .eventsBuffered, .setTtl (envelope.eventTimeMs + d.ttlMs)] ++
    if s.batch.length + 1 = 1 then [.setFlush (w.wallNowMs + settings.maxWaitMs)] else []

/-- `AgentDoFn._buffer`. -/
def buffer (settings : BatchSettings) (key : Bytes) (envelope : AgentEnvelope) (s : KeyState)
    (w : World) : Exit :=
  if bufferIsFull s.batch.length settings.maxBufferedEvents then
    ⟨deadLetter key reasonBatchOverflow
      s!"buffered={s.batch.length},cap={settings.maxBufferedEvents}" envelope.eventTimeMs, none⟩
  else
    let buffered := s.batch ++ [envelope]
    let buffering := d.bufferEffects envelope settings s w
    -- What follows reads the state with the event in the buffer.
    let s := s.applyAll buffering
    Exit.after buffering <|
      match d.schema.migrateContinuation s.continuation with
      | .error e => .migration e
      | .ok cont =>
        if shouldFlushOnSize buffered.length settings.maxBatchSize cont.isSome then
          match buffered with
          | [] => ⟨[], none⟩
          | first :: rest => d.flush py key first rest triggerSize s w
        else ⟨[], none⟩

/-- `AgentDoFn.on_flush`. -/
def onFlush (key : Bytes) (s : KeyState) (w : World) : Exit :=
  if d.batch.isNone then ⟨[], none⟩
  else
    match d.schema.migrateContinuation s.continuation with
    | .error e => .migration e
    | .ok cont =>
      if !shouldFlushOnTimer s.batch.length cont.isSome then ⟨[], none⟩
      else
        match s.batch with
        | [] => ⟨[], none⟩
        | first :: rest => d.flush py key first rest triggerTimer s w

/-! ### Resumes -/

/-- What `_resume` hands to the activation: the scope of the continuation. -/
def resumeInput (key : Bytes) (nowMs : Int) (cont : Continuation)
    (resumeResult : Option ToolResult) (approval : Option Approval)
    (memoryBlob : Option MemoryBlob) (cacheBlob : Option LlmCacheBlob) : ActivationInput where
  entityKey := key
  seq := cont.seq
  nowMs := nowMs
  memoryBlob := memoryBlob
  cacheBlob := cacheBlob
  resumeResult := resumeResult
  resumeApproval := approval
  snapshot := cont.snapshot
  stepIndex := cont.stepIndex

/-- The admitted part of `_resume`. -/
def resumeAdmitted (key : Bytes) (nowMs : Int) (cont : Continuation)
    (resumeResult : Option ToolResult) (approval : Option Approval) (s : KeyState) (w : World) :
    Exit :=
  match d.schema.migrateMemory s.memory with
  | .error e => .migration e
  | .ok memoryBlob =>
    match d.schema.migrateCache s.llmCache with
    | .error e => .migration e
    | .ok cacheBlob =>
      match d.activate py w
          (resumeInput key nowMs cont resumeResult approval memoryBlob cacheBlob) with
      | .error failure =>
        ⟨sampleActivation w :: activationFailure py key cont.seq nowMs failure, none⟩
      | .ok result => ⟨sampleActivation w :: d.commit s w result nowMs .resume, none⟩

/-- What a refused resume emits: the record, and a trace in the scope of the continuation when
there is one. -/
def refusedResume (key : Bytes) (nowMs : Int) (intentId : String) (cont : Option Continuation)
    (detail : AdmissionDetail) (s : KeyState) : List Effect :=
  deadLetter key reasonOrphaned s!"{detail.text}:{intentId}" nowMs ++
    [errorTrace py key ((cont.map Continuation.seq).getD s.seq) nowMs reasonOrphaned detail.text]

/-- `AgentDoFn._resume`. -/
def resume (key : Bytes) (nowMs : Int) (intentId : String) (resumeResult : Option ToolResult)
    (approval : Option Approval) (s : KeyState) (w : World) : Exit :=
  match d.schema.migrateContinuation s.continuation with
  | .error e => .migration e
  | .ok none => ⟨refusedResume py key nowMs intentId none .noContinuation s, none⟩
  | .ok (some cont) =>
    match admissionFailure (some cont) s.pending intentId nowMs with
    | some detail => ⟨refusedResume py key nowMs intentId (some cont) detail s, none⟩
    | none => d.resumeAdmitted py key nowMs cont resumeResult approval s w

/-! ### The entry point of elements -/

/-- `AgentDoFn.process`. -/
def process (key : Bytes) (envelope : AgentEnvelope) (s : KeyState) (w : World) : Exit :=
  match envelope.payload with
  | .exportRequest requestId =>
    ⟨[.emit (.snapshots (buildSnapshot d.schema.current key s envelope.eventTimeMs requestId))],
      none⟩
  | .toolResult result =>
    d.resume py key envelope.eventTimeMs result.intentId (some result) none s w
  | .approval approval =>
    d.resume py key envelope.eventTimeMs approval.intentId none (some approval) s w
  | .externalEvent _ | .unset =>
    match d.batch with
    | some settings => d.buffer py settings key envelope s w
    | none => d.start py key envelope.eventTimeMs envelope.externalEvent s w

/-! ### Working-memory expiry -/

/-- The `RuntimeError` of `_flush_expiring` without a store. -/
def noStoreForExpiry : PyExn where
  typeName := "RuntimeError"
  repr := "RuntimeError('AgentConfig.on_expire is set but no long-term store is available; " ++
    "set AgentConfig.longterm_memory to a store URI')"

/-- `AgentDoFn._flush_expiring`: what it raises. An empty memory is wiped with no store call. -/
def flushExpiring (s : KeyState) (w : World) : Option CallError :=
  match d.schema.migrateMemory s.memory with
  | .error e => some (.migration e)
  | .ok none => none
  | .ok (some blob) =>
    if blob.entries = [] then none
    else if !d.longterm then some (.hook noStoreForExpiry)
    else w.expireRaises.map .hook

/-- The record and the trace of a suspension that the wipe ends. -/
def wipedSuspension (key : Bytes) (firedAtMs : Int) (cont : Option Continuation) : List Effect :=
  match cont with
  | none => []
  | some cont =>
    deadLetter key reasonTtlWipedSuspension s!"seq={cont.seq},deadline_ms={cont.deadlineMs}"
      firedAtMs ++
      [errorTrace py key cont.seq firedAtMs reasonTtlWipedSuspension "" (some roleTimer)]

/-- The records of the buffered events that the wipe drops, one for each. -/
def wipedBatch (key : Bytes) (firedAtMs : Int) (s : KeyState) : List Effect :=
  if d.batch.isNone then []
  else (List.range s.batch.length).flatMap fun index =>
    deadLetter key reasonTtlWipedBatch s!"buffered={s.batch.length},index={index}" firedAtMs

/-- The wipe: every cell and bag. The HITL timer is not among the handles of `on_ttl`. -/
def wipe : List Effect :=
  let batchCells : List Effect := if d.batch.isNone then [] else [.clearBatch, .clearFlush]
  [.clearMemory, .clearContinuation, .clearLlmCache, .clearPending, .clearSeq] ++ batchCells

/-- `timestamp.micros // 1000`. -/
def firedAtMs (micros : Int) : Int := micros / 1000

/-- `AgentDoFn.on_ttl`. -/
def onTtl (key : Bytes) (micros : Int) (s : KeyState) (w : World) : Exit :=
  match d.schema.migrateContinuation s.continuation with
  | .error e => .migration e
  | .ok cont =>
    Exit.after (wipedSuspension py key (firedAtMs micros) cont) <|
      match if d.onExpire then d.flushExpiring s w else none with
      | some e => ⟨[], some e⟩
      | none => ⟨d.wipedBatch key (firedAtMs micros) s ++ d.wipe, none⟩

/-! ### HITL timeouts -/

/-- `AgentDoFn._route_timeout`: a policy that raises drops the suspension, and one that escalates
past the bound denies it. -/
def routeTimeout (key : Bytes) (cont : Continuation) (firedAtMs : Int) : Route × String :=
  let fallback : FallbackContext := {
    entityKey := key, seq := cont.seq, snapshot := cont.snapshot, kind := "timer",
    deadlineMs := cont.deadlineMs, firedAtMs := firedAtMs,
    pendingIntentIds := cont.pendingIntentIds }
  let detail := s!"seq={cont.seq}"
  match d.policy.onTimeout fallback with
  | .error e => (.drop reasonHitlTimeout, detail ++ " policy_error=" ++ e.repr)
  | .ok (.escalate toolName argsJson timeoutMs) =>
    if d.policy.maxEscalations ≤ cont.escalations then (.deny hitlTimeoutOutput, detail)
    else (.escalate toolName argsJson timeoutMs, detail)
  | .ok route => (route, detail)

/-- The trace under which an escalation is emitted. -/
def escalationTrace (key : Bytes) (cont : Continuation) (firedAtMs : Int) : ActivationTrace :=
  ActivationTrace.new py key cont.seq firedAtMs cont.stepIndex

/-- The approval intent of an escalation. -/
def escalationIntent (key : Bytes) (cont : Continuation) (firedAtMs : Int)
    (toolName argsJson : String) (timeoutMs : Int) : ToolIntent where
  intentId := intentIdFor py key cont.seq cont.stepIndex
  entityKey := key
  seq := cont.seq
  stepIndex := cont.stepIndex
  toolName := toolName
  argsJson := argsJson
  createdAtMs := firedAtMs
  expiresAtMs := firedAtMs + timeoutMs
  kind := .approval
  traceId := (escalationTrace py key cont firedAtMs).traceId py

/-- The continuation of an escalated suspension. -/
def escalated (cont : Continuation) (intent : ToolIntent) : Continuation :=
  { cont with
    stepIndex := cont.stepIndex + 1
    deadlineMs := intent.expiresAtMs
    escalations := cont.escalations + 1
    pendingIntentIds := cont.pendingIntentIds ++ [intent.intentId] }

/-- `AgentDoFn._escalate`. -/
def escalate (key : Bytes) (cont : Continuation) (firedAtMs : Int) (toolName argsJson : String)
    (timeoutMs : Int) : List Effect :=
  let deadlineMs := firedAtMs + timeoutMs
  let intent := escalationIntent py key cont firedAtMs toolName argsJson timeoutMs
  [.writeContinuation (escalated cont intent), .addPending intent, .setHitl deadlineMs,
    .setTtl (deadlineMs + d.ttlMs), .incr .intentsEmitted, .emit (.intents intent),
    .emit (.traces ((escalationTrace py key cont firedAtMs).intentEmitted py cont.stepIndex
      intent.intentId intent.toolName intent.kind.name deadlineMs))]

/-- What a `Deny` emits on the main output, or a `Drop` on `.errors`. -/
def timeoutRecord (key : Bytes) (firedAtMs : Int) (route : Route) (detail : String) : List Effect :=
  match route with
  | .deny output => [.emit (.main output)]
  | .drop reason => deadLetter key reason detail firedAtMs
  | .escalate .. => []

/-- The end of a suspension by `Deny` or `Drop`. -/
def endSuspension (key : Bytes) (cont : Continuation) (firedAtMs : Int) (route : Route)
    (detail : String) (s : KeyState) (w : World) : List Effect :=
  [.clearContinuation, .clearPending, .clearHitl] ++ d.rearmFlush s w ++
    timeoutRecord key firedAtMs route detail ++
    [errorTrace py key cont.seq firedAtMs reasonHitlTimeout "" (some roleTimer)]

/-- `AgentDoFn.on_hitl`. -/
def onHitl (key : Bytes) (micros : Int) (s : KeyState) (w : World) : Exit :=
  match d.schema.migrateContinuation s.continuation with
  | .error e => .migration e
  | .ok none => ⟨[], none⟩
  | .ok (some cont) =>
    if firedAtMs micros < cont.deadlineMs then ⟨[], none⟩
    else
      match d.routeTimeout key cont (firedAtMs micros) with
      | (.escalate toolName argsJson timeoutMs, _) =>
        ⟨d.escalate py key cont (firedAtMs micros) toolName argsJson timeoutMs, none⟩
      | (route, detail) =>
        ⟨d.endSuspension py key cont (firedAtMs micros) route detail s w, none⟩

end AgentDoFn

/-! ### The transform as a machine -/

/-- A call of one of the entry points, and what the world decides during it. -/
inductive KeyCall
  | process (envelope : AgentEnvelope) (w : World)
  | onTtl (micros : Int) (w : World)
  | onFlush (w : World)
  | onHitl (micros : Int) (w : World)

/-- Perform a call. -/
def AgentDoFn.call (d : AgentDoFn) (key : Bytes) (s : KeyState) : KeyCall → Exit
  | .process envelope w => d.process py key envelope s w
  | .onTtl micros w => d.onTtl py key micros s w
  | .onFlush w => d.onFlush py key s w
  | .onHitl micros w => d.onHitl py key micros s w

/-- The transform on one key: a call that does not raise takes effect as a whole. Its outputs are
its effects. -/
def AgentDoFn.machine (d : AgentDoFn) (key : Bytes) :
    Transition.Machine KeyState KeyCall Effect where
  step s c s' effects := d.call py key s c = ⟨effects, none⟩ ∧ s' = s.applyAll effects

/-- Perform calls one after the other, unless one of them raises: the effects in order, and the
state reached. -/
def AgentDoFn.exec (d : AgentDoFn) (key : Bytes) :
    KeyState → List KeyCall → Option (List Effect × KeyState)
  | s, [] => some ([], s)
  | s, c :: cs =>
    let exit := d.call py key s c
    if exit.raised.isSome then none
    else (d.exec key (s.applyAll exit.effects) cs).map fun r => (exit.effects ++ r.1, r.2)

end BeamAgents
