import BeamAgents.Core.Calls
import BeamAgents.Core.Retry

/-!
# Replaying an activation

`replay/bundle.py` and `replay/provider.py`: a snapshot of the state of a key, the trace events of
the key and the envelope that triggered an activation are assembled into a bundle, and the
activation of the bundle is run again, locally. The target attempt is selected among the attempts of
its `seq` by the kind of its start event, and the clock is read from its trace. The provider of the
second run can serve nothing: a request that reaches it is a miss of the replay cache.

The messages are taken as parsed; the framing of the trace stream is not modelled.

## Main definitions

* `ReplayError`, `loadSnapshot`.
* `selectAttempt`, `ReplayBundle`, `buildBundle`.
* `replayWorld`, `ReplayOutcome`, `runReplay`.

## Main results

* `selectAttempt_eq`: which attempt is selected in a stream that holds it.
-/

namespace BeamAgents

open Containers

/-- How a replay ends without an outcome: `ReplayUsageError`, `ReplayIrreproducibleError`, or an
exception that it does not catch. -/
inductive ReplayError
  | usage (message : String)
  | irreproducible (message : String)
  | raised (exn : PyExn)
  deriving DecidableEq, Repr

/-! ### Loading -/

/-- `_migrate`: the migration of the pipeline, with its errors by what an operator should do. -/
def replayMigrate {M : Type} : Except MigrationError (Option M) → Except ReplayError (Option M)
  | .ok blob => .ok blob
  | .error (.fromFuture typeName found current) =>
    .error (.usage (s!"{typeName} in the snapshot carries " ++
      s!"state_schema_version={found}, newer than this package's " ++
      s!"{current}; upgrade beam-agents to replay this snapshot"))
  | .error e =>
    .error (.irreproducible ("irreproducible: the snapshot's blobs cannot be migrated to the " ++
      s!"current schema — {e.message}"))

/-- `load_snapshot` on a parsed message: check its version and migrate its blobs. -/
def loadSnapshot (schema : StateSchema) (snapshot : StateSnapshot) :
    Except ReplayError StateSnapshot :=
  let version :=
    if snapshot.stateSchemaVersion = 0 then baselineVersion else snapshot.stateSchemaVersion
  if schema.current < version then
    .error (.usage (s!"snapshot state_schema_version={version} is newer than this package " ++
      s!"supports (state_schema_version={schema.current}); " ++
      "upgrade beam-agents to replay this snapshot"))
  else do
    let memory ← replayMigrate (schema.migrateMemory snapshot.memory)
    let llmCache ← replayMigrate (schema.migrateCache snapshot.llmCache)
    let continuation ← replayMigrate (schema.migrateContinuation snapshot.continuation)
    return { snapshot with
      stateSchemaVersion := schema.current
      memory := memory
      llmCache := llmCache
      continuation := continuation }

/-! ### Selecting the attempt -/

/-- `event.attributes.get(name)`. -/
def TraceEvent.attribute? (event : TraceEvent) (name : String) : Option String :=
  (Dict.ofList event.attributes).get? name

/-- One event of the loop of `_select_attempt`: a start event opens an attempt. -/
def addToAttempts (attempts : List (List TraceEvent)) (event : TraceEvent) :
    List (List TraceEvent) :=
  if event.eventType = .activationStart ∨ attempts = [] then attempts ++ [[event]]
  else attempts.dropLast ++ [attempts.getLast?.getD [] ++ [event]]

/-- The attempts of the events of one `seq`. -/
def splitAttempts (events : List TraceEvent) : List (List TraceEvent) :=
  events.foldl addToAttempts []

/-- The attempt begins with a start event of the kind. -/
def isAttemptOf (wanted : String) (attempt : List TraceEvent) : Bool :=
  match attempt with
  | [] => false
  | first :: _ =>
    first.eventType = .activationStart &&
      first.attribute? "beam_agents.activation.kind" = some wanted

/-- `_select_attempt`: the last attempt of the kind, or else the last attempt. -/
def selectAttempt (events : List TraceEvent) (isResume : Bool) : List TraceEvent :=
  let attempts := splitAttempts events
  let wanted := if isResume then "resume" else "start"
  match (attempts.filter (isAttemptOf wanted)).getLast? with
  | some attempt => attempt
  | none => attempts.getLast?.getD []

section Select

variable {attempts : List (List TraceEvent)} {start : TraceEvent}
  {rest before after : List TraceEvent}

/-- The events after a start event belong to its attempt, up to the next start event. -/
private theorem foldl_addToAttempts_rest (attempt : List TraceEvent)
    (h : ∀ e ∈ rest, e.eventType ≠ .activationStart) :
    rest.foldl addToAttempts (attempts ++ [attempt]) = attempts ++ [attempt ++ rest] := by
  induction rest generalizing attempt with
  | nil => rw [List.foldl_nil, List.append_nil]
  | cons e rest ih =>
    have hadd : addToAttempts (attempts ++ [attempt]) e = attempts ++ [attempt ++ [e]] := by
      simp [addToAttempts, h e List.mem_cons_self]
    rw [List.foldl_cons, hadd, ih _ fun e he => h e (List.mem_cons_of_mem _ he),
      List.append_assoc, List.singleton_append]

/-- Once an attempt is open, the attempts before it stay as they are. -/
private theorem foldl_addToAttempts_append (attempts : List (List TraceEvent))
    (events : List TraceEvent) {opened : List (List TraceEvent)} (h : opened ≠ []) :
    events.foldl addToAttempts (attempts ++ opened) =
      attempts ++ events.foldl addToAttempts opened := by
  induction events generalizing opened with
  | nil => rfl
  | cons e events ih =>
    have hadd : addToAttempts (attempts ++ opened) e = attempts ++ addToAttempts opened e := by
      unfold addToAttempts
      by_cases hstart : e.eventType = .activationStart
      · simp [hstart]
      · simp [hstart, h, List.getLast?_append_of_ne_nil attempts h,
          List.dropLast_append_of_ne_nil h]
    have hopen : addToAttempts opened e ≠ [] := by
      unfold addToAttempts
      split_ifs <;> simp
    rw [List.foldl_cons, List.foldl_cons, hadd, ih hopen]

/-- The attempts of a stream that holds one attempt in the middle. -/
theorem splitAttempts_append (hstart : start.eventType = .activationStart)
    (hrest : ∀ e ∈ rest, e.eventType ≠ .activationStart)
    (hafter : ∀ e ∈ after.head?, e.eventType = .activationStart) :
    splitAttempts (before ++ (start :: rest) ++ after) =
      splitAttempts before ++ [start :: rest] ++ splitAttempts after := by
  have hadd (attempts : List (List TraceEvent)) {e : TraceEvent}
      (he : e.eventType = .activationStart) : addToAttempts attempts e = attempts ++ [[e]] := by
    simp [addToAttempts, he]
  have hmiddle : (start :: rest).foldl addToAttempts (splitAttempts before) =
      splitAttempts before ++ [start :: rest] := by
    rw [List.foldl_cons, hadd _ hstart, foldl_addToAttempts_rest _ hrest]
    rfl
  rw [splitAttempts, List.foldl_append, List.foldl_append, ← splitAttempts, hmiddle]
  cases after with
  | nil => exact (List.append_nil _).symm
  | cons e after =>
    have he : e.eventType = .activationStart := hafter e rfl
    have hrest := foldl_addToAttempts_append (splitAttempts before ++ [start :: rest]) after
      (List.cons_ne_nil [e] [])
    rw [List.foldl_cons, hadd _ he, hrest]
    have hopened : splitAttempts (e :: after) = after.foldl addToAttempts [[e]] := by
      rw [splitAttempts, List.foldl_cons, hadd _ he, List.nil_append]
    rw [hopened]

/-- Every attempt begins with an event of the stream. -/
theorem head_mem_of_mem_splitAttempts {events attempt : List TraceEvent}
    (h : attempt ∈ splitAttempts events) : ∀ e ∈ attempt.head?, e ∈ events := by
  have hadd (seen : List TraceEvent) (attempts : List (List TraceEvent)) (event : TraceEvent)
      (hseen : ∀ a ∈ attempts, a ≠ [] ∧ ∀ e ∈ a.head?, e ∈ seen) :
      ∀ a ∈ addToAttempts attempts event, a ≠ [] ∧ ∀ e ∈ a.head?, e ∈ seen ++ [event] := by
    intro a ha
    unfold addToAttempts at ha
    split_ifs at ha with hopen
    · rcases List.mem_append.mp ha with hold | hnew
      · exact ⟨(hseen a hold).1, fun e he => List.mem_append_left _ ((hseen a hold).2 e he)⟩
      · obtain rfl := List.mem_singleton.mp hnew
        simp
    · rcases List.mem_append.mp ha with hold | hnew
      · have hmem := List.mem_of_mem_dropLast hold
        exact ⟨(hseen a hmem).1, fun e he => List.mem_append_left _ ((hseen a hmem).2 e he)⟩
      · obtain rfl := List.mem_singleton.mp hnew
        have hne : attempts ≠ [] := fun h => hopen (.inr h)
        have hlast := hseen _ (List.getLast_mem hne)
        rw [List.getLast?_eq_some_getLast hne, Option.getD_some]
        refine ⟨List.append_ne_nil_of_right_ne_nil _ (List.cons_ne_nil _ _), fun e he => ?_⟩
        rw [List.head?_append_of_ne_nil _ hlast.1] at he
        exact List.mem_append_left _ (hlast.2 e he)
  have hall (events seen : List TraceEvent) (attempts : List (List TraceEvent))
      (hseen : ∀ a ∈ attempts, a ≠ [] ∧ ∀ e ∈ a.head?, e ∈ seen) :
      ∀ a ∈ events.foldl addToAttempts attempts, a ≠ [] ∧ ∀ e ∈ a.head?, e ∈ seen ++ events := by
    induction events generalizing seen attempts with
    | nil => simpa using hseen
    | cons event events ih =>
      intro a ha
      have hnext := ih (seen ++ [event]) _ (hadd seen attempts event hseen) a ha
      rwa [List.append_assoc, List.singleton_append] at hnext
  exact (hall events [] [] (by simp) attempt h).2

/-- **The selected attempt.** In a stream that holds an attempt of the kind, followed by nothing or
by another start event, and by no start event of the same kind, that attempt is selected. -/
theorem selectAttempt_eq {isResume : Bool} (hstart : start.eventType = .activationStart)
    (hkind : start.attribute? "beam_agents.activation.kind" =
      some (if isResume then "resume" else "start"))
    (hrest : ∀ e ∈ rest, e.eventType ≠ .activationStart)
    (hafter : ∀ e ∈ after.head?, e.eventType = .activationStart)
    (hlast : ∀ e ∈ after, e.eventType = .activationStart →
      e.attribute? "beam_agents.activation.kind" ≠ some (if isResume then "resume" else "start")) :
    selectAttempt (before ++ (start :: rest) ++ after) isResume = start :: rest := by
  have hnone : (splitAttempts after).filter
      (isAttemptOf (if isResume then "resume" else "start")) = [] := by
    refine List.filter_eq_nil_iff.mpr fun attempt hattempt => ?_
    cases attempt with
    | nil => simp [isAttemptOf]
    | cons e attempt =>
      have hmem := head_mem_of_mem_splitAttempts hattempt e rfl
      simp only [isAttemptOf, Bool.and_eq_true, decide_eq_true_eq, not_and]
      exact hlast e hmem
  have hself : isAttemptOf (if isResume then "resume" else "start") (start :: rest) = true := by
    simp [isAttemptOf, hstart, hkind]
  unfold selectAttempt
  simp only [splitAttempts_append hstart hrest hafter, List.filter_append, hnone, List.append_nil,
    List.filter_cons_of_pos hself, List.filter_nil, List.getLast?_append, List.getLast?_singleton,
    Option.some_or]

end Select

/-- `_recover_now_ms`. -/
def recoverNowMs (attempt : List TraceEvent) : Int :=
  match attempt.find? fun event => event.eventType = .activationStart with
  | some event => event.startMs
  | none => (attempt.head?.map TraceEvent.startMs).getD 0

/-! ### The bundle -/

/-- Everything one local re-run needs. -/
structure ReplayBundle where
  snapshot : StateSnapshot
  envelope : AgentEnvelope
  entityKey : Bytes
  seq : ℕ
  nowMs : Int
  traced : List TraceEvent
  isResume : Bool
  stepIndex : ℕ := 0
  adapterSnapshot : Bytes := []

variable (py : PyLib)

/-- The step and the adapter snapshot that a resume goes on from. -/
def resumePosition (snapshot : StateSnapshot) (intentId : String) :
    Except ReplayError (ℕ × Bytes) :=
  match snapshot.continuation with
  | none =>
    .error (.usage ("the envelope is a resume payload but the snapshot holds no continuation; " ++
      "export while the key is suspended, or replay the activation that started it"))
  | some continuation =>
    if intentId ∉ continuation.pendingIntentIds then
      let pending := "[" ++ ", ".intercalate (continuation.pendingIntentIds.map py.reprStr) ++ "]"
      .error (.usage (s!"the envelope resumes intent {py.reprStr intentId}, which the " ++
        s!"snapshot's continuation does not pend (pending: {pending}" ++
        "); the pipeline would refuse this resume as an orphaned result"))
    else .ok (continuation.stepIndex, continuation.snapshot)

/-- The step and the adapter snapshot of a bundle: a start begins with nothing. -/
def bundlePosition (snapshot : StateSnapshot) (envelope : AgentEnvelope) :
    Except ReplayError (ℕ × Bytes) :=
  match envelope.answers with
  | none => .ok (0, [])
  | some intentId => resumePosition py snapshot intentId

/-- `build_bundle`. -/
def buildBundle (snapshot : StateSnapshot) (traces : List TraceEvent) (envelope : AgentEnvelope)
    (seq : Option ℕ) : Except ReplayError ReplayBundle :=
  let entityKey := snapshot.entityKey
  if envelope.entityKey ≠ entityKey then
    .error (.usage (s!"the event envelope belongs to entity_key {envelope.entityKey.hex} but " ++
      s!"the snapshot is of entity_key {entityKey.hex}; replay one key's activation " ++
      "with that key's own envelope"))
  else
    let own := traces.filter fun event => event.entityKey = entityKey
    if own = [] then
      .error (.usage
        s!"no traced events for entity_key {entityKey.hex} in the trace stream")
    else
      let targetSeq := seq.getD ((own.map TraceEvent.seq).foldl max 0)
      let attemptEvents := own.filter fun event => event.seq = targetSeq
      if attemptEvents = [] then
        .error (.usage s!"no traced events at seq={targetSeq} for entity_key {entityKey.hex}")
      else
        let isResume := envelope.answers.isSome
        let attempt := selectAttempt attemptEvents isResume
        (bundlePosition py snapshot envelope).map fun (stepIndex, adapterSnapshot) => {
          snapshot := snapshot
          envelope := envelope
          entityKey := entityKey
          seq := targetSeq
          nowMs := recoverNowMs attempt
          traced := attempt
          isResume := isResume
          stepIndex := stepIndex
          adapterSnapshot := adapterSnapshot }

/-! ### The cache-only provider -/

/-- `digest_only_digests`. -/
def digestOnlyDigests (blob : Option LlmCacheBlob) : Dict String Bytes :=
  Dict.ofList <| (((blob.map LlmCacheBlob.entries).getD []).filter LlmCacheEntry.digestOnly).map
    fun entry => (entry.cacheKey, entry.responseDigest)

/-- The message of a `ReplayCacheMissError`. -/
def replayCacheMissMessage (cacheKey modelId : String) (responseDigest : Bytes) : String :=
  if responseDigest ≠ [] then
    s!"cached entry for cache key {cacheKey} (model {py.reprStr modelId}) is " ++
      "digest-only: the response exceeded the 100 KiB blob cap and was " ++
      s!"dropped at insert, leaving only response_digest={responseDigest.hex}"
  else
    s!"no cached response for cache key {cacheKey} (model {py.reprStr modelId}); " ++
      "the request material differs from what was committed at this " ++
      "(entity_key, seq), or the entry was evicted (LRU 64 / 6h TTL)"

/-- `ReplayCacheMissError`. -/
def replayCacheMiss (cacheKey modelId : String) (responseDigest : Bytes) : PyExn where
  typeName := "ReplayCacheMissError"
  repr := py.exnRepr "ReplayCacheMissError"
    (replayCacheMissMessage py cacheKey modelId responseDigest)

/-- What `CacheOnlyLLMClient.complete` raises. -/
def cacheOnlyComplete (entityKey : Bytes) (seq : ℕ) (digests : Dict String Bytes)
    (request : LlmRequest) : PyExn :=
  match computeCacheKey py request entityKey seq with
  | .error e => e
  | .ok cacheKey => replayCacheMiss py cacheKey request.modelId ((digests.get? cacheKey).getD [])

/-! ### The second run -/

/-- What `run_replay` builds the context with: it hands over the decoder and the registry, and
leaves everything else at its default. -/
def replayConfig (decode : Option (Bytes → Except PyExn TokenUsage))
    (tools : String → Option Tool) : ContextConfig where
  decode := decode
  tools := tools
  decode_of_budget h := by cases h

/-- What `run_replay` hands to the activation. -/
def ReplayBundle.input (bundle : ReplayBundle) : ActivationInput where
  entityKey := bundle.entityKey
  seq := bundle.seq
  nowMs := bundle.nowMs
  memoryBlob := bundle.snapshot.memory
  cacheBlob := bundle.snapshot.llmCache
  event := .inl bundle.envelope.externalEvent
  resumeResult := bundle.envelope.answerResult
  resumeApproval := bundle.envelope.answerApproval
  snapshot := bundle.adapterSnapshot
  stepIndex := bundle.stepIndex

/-- The world of the second run: the provider serves nothing, everything else answers as it does
locally. -/
def replayWorld (bundle : ReplayBundle) (here : Answers) : World where
  answers
    | _, .model request =>
      ⟨.error (cacheOnlyComplete py bundle.entityKey bundle.seq
        (digestOnlyDigests bundle.snapshot.llmCache) request), 0⟩
    | awaits, .tool toolName argsJson => here awaits (.tool toolName argsJson)
    | awaits, .storeLoad key => here awaits (.storeLoad key)
    | awaits, .storeSearch keyPrefix limit => here awaits (.storeSearch keyPrefix limit)
    | awaits, .other what => here awaits (.other what)

/-- `ActivationResult.status`, as its text. -/
def ActivationStatus.text : ActivationStatus → String
  | .completed => "completed"
  | .suspended => "suspended"

/-- What the second run produced, on the surface the comparison looks at. -/
structure ReplayOutcome where
  status : String
  traces : List TraceEvent
  intents : List ToolIntent
  outputs : List Bytes
  memoryBlob : MemoryBlob
  providerCalls : ℕ := 0
  failure : Option FailureContext := none
  errorType : String := ""

/-- What the interpreter knows of an exception that the runtime does not look at: its `str`, and the
exceptions it was raised from. -/
structure ExnChain where
  message : PyExn → String
  causes : PyExn → List PyExn

/-- `_cache_miss_in`: the first cache miss in the chain of a failure. -/
def ExnChain.cacheMissIn (chain : ExnChain) (cause : PyExn) : Option PyExn :=
  (cause :: chain.causes cause).find? fun e => e.typeName = "ReplayCacheMissError"

/-- `run_replay`. -/
def runReplay (chain : ExnChain) (schema : StateSchema) (bundle : ReplayBundle) (agent : Agent)
    (decode : Option (Bytes → Except PyExn TokenUsage)) (tools : String → Option Tool)
    (here : Answers) : Except ReplayError ReplayOutcome :=
  let cfg := replayConfig decode tools
  let w := replayWorld py bundle here
  let providerCalls := (askedOf (activationLog py cfg agent none w.answers bundle.input)).length
  match runActivation py schema cfg agent none defaultHitlTimeoutMs w bundle.input with
  | .ok result =>
    .ok {
      status := result.status.text
      traces := result.traces
      intents := result.intents
      outputs := result.outputs
      memoryBlob := result.memoryBlob
      providerCalls := providerCalls }
  | .error (.failed context cause) =>
    match chain.cacheMissIn cause with
    | some miss =>
      .error (.irreproducible ("irreproducible: pre-activation state not captured or entry not " ++
        s!"committed — {chain.message miss}"))
    | none =>
      -- The event the transform would have emitted for the failure.
      let event := (ActivationTrace.new py bundle.entityKey bundle.seq bundle.nowMs).error py
        reasonError cause.typeName none (some context)
      .ok {
        status := "failed"
        traces := [event]
        intents := []
        outputs := []
        memoryBlob := {}
        providerCalls := providerCalls
        failure := some context
        errorType := cause.typeName }
  | .error (.raised exn) => .error (.raised exn)
  -- Only the bridge reports a timeout, and a replay does not go through it.
  | .error .timeout => .error (.raised ⟨.other, "ActivationTimeout", "ActivationTimeout()"⟩)

variable {py}

/-- What a replay makes of a result. -/
theorem runReplay_ok {chain : ExnChain} {schema : StateSchema} {bundle : ReplayBundle}
    {agent : Agent} {decode : Option (Bytes → Except PyExn TokenUsage)}
    {tools : String → Option Tool} {here : Answers} {result : ActivationResult}
    (h : runActivation py schema (replayConfig decode tools) agent none defaultHitlTimeoutMs
      (replayWorld py bundle here) bundle.input = .ok result) :
    runReplay py chain schema bundle agent decode tools here = .ok {
      status := result.status.text
      traces := result.traces
      intents := result.intents
      outputs := result.outputs
      memoryBlob := result.memoryBlob
      providerCalls := (askedOf (activationLog py (replayConfig decode tools) agent none
        (replayWorld py bundle here).answers bundle.input)).length } := by
  unfold runReplay
  dsimp only
  rw [h]

end BeamAgents
