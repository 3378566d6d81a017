import BeamAgents.Core.Atomicity
import BeamAgents.Core.Identity

/-!
# The activation that a call runs

Which activation an entry point hands to the bridge, if it gets that far, and with which input. The
way there is that of the entry point itself, with nothing performed; whether the activation then
comes to a result decides whether the call commits, or reports the failure. With the refusals, the
wipes and the timeouts, this is all that a call does.

## Main definitions

* `AgentDoFn.attempt`: the activation of a call.
* `AgentDoFn.failsAt`: the `seq` under which a call reports a failure or a refusal.
* `AgentDoFn.Ran`: what a call does.

## Main results

* `AgentDoFn.call_ran`: the inversion of a call, with the trace events it emits.
* `AgentDoFn.activationsOf_call`: a call commits exactly when its activation comes to a result.
* `AgentDoFn.attempt_scope`: the activation is one of the key.
-/

namespace BeamAgents

/-- The trace events that the effects emit, in order. -/
def tracesOf (effects : List Effect) : List TraceEvent :=
  (outputsOf effects).filterMap fun
    | .traces event => some event
    | _ => none

@[simp] theorem tracesOf_nil : tracesOf [] = [] := rfl

@[simp] theorem tracesOf_append (es fs : List Effect) :
    tracesOf (es ++ fs) = tracesOf es ++ tracesOf fs := by
  rw [tracesOf, outputsOf_append, List.filterMap_append]
  rfl

namespace AgentDoFn

variable (d : AgentDoFn) (py : PyLib) (key : Bytes)

/-- The activation handed to the bridge once the memory and the cache were read. -/
def withBlobs (s : KeyState) (input : Option MemoryBlob → Option LlmCacheBlob → ActivationInput) :
    Option ActivationInput :=
  match d.schema.migrateMemory s.memory, d.schema.migrateCache s.llmCache with
  | .ok memoryBlob, .ok cacheBlob => some (input memoryBlob cacheBlob)
  | _, _ => none

/-- The activation of `_flush`. -/
def flushAttempt (trigger : String) (s : KeyState) : Option ActivationInput :=
  match s.batch with
  | [] => none
  | first :: rest => d.withBlobs s (flushInput key first rest trigger s)

/-- The activation of `_resume`. -/
def resumeAttempt (nowMs : Int) (intentId : String) (resumeResult : Option ToolResult)
    (approval : Option Approval) (s : KeyState) : Option ActivationInput :=
  match d.schema.migrateContinuation s.continuation with
  | .error _ | .ok none => none
  | .ok (some cont) =>
    match admissionFailure (some cont) s.pending intentId nowMs with
    | some _ => none
    | none => d.withBlobs s (resumeInput key nowMs cont resumeResult approval)

/-- The activation of `_buffer`, when the event it buffers fills the batch. -/
def bufferAttempt (settings : BatchSettings) (envelope : AgentEnvelope) (s : KeyState)
    (w : World) : Option ActivationInput :=
  if bufferIsFull s.batch.length settings.maxBufferedEvents then none
  else
    let s := s.applyAll (d.bufferEffects envelope settings s w)
    match d.schema.migrateContinuation s.continuation with
    | .error _ => none
    | .ok cont =>
      if shouldFlushOnSize s.batch.length settings.maxBatchSize cont.isSome then
        d.flushAttempt key triggerSize s
      else none

/-- The activation that a call runs, and the world that decides it. -/
def attempt (s : KeyState) : KeyCall → Option (World × ActivationInput)
  | .process envelope w =>
    match envelope.payload with
    | .exportRequest _ => none
    | .toolResult result =>
      (d.resumeAttempt key envelope.eventTimeMs result.intentId (some result) none s).map (w, ·)
    | .approval approval =>
      (d.resumeAttempt key envelope.eventTimeMs approval.intentId none (some approval) s).map (w, ·)
    | .externalEvent _ | .unset =>
      match d.batch with
      | some settings => (d.bufferAttempt key settings envelope s w).map (w, ·)
      | none =>
        (d.withBlobs s (startInput key envelope.eventTimeMs envelope.externalEvent s)).map (w, ·)
  | .onFlush w =>
    if d.batch.isNone then none
    else
      match d.schema.migrateContinuation s.continuation with
      | .error _ => none
      | .ok cont =>
        if shouldFlushOnTimer s.batch.length cont.isSome then
          (d.flushAttempt key triggerTimer s).map (w, ·)
        else none
  | .onTtl .. | .onHitl .. => none

/-- Whether an activation is handed to the bridge and comes to a result. -/
def comesTo (w : World) (input : Option ActivationInput) : ℕ :=
  match input with
  | none => 0
  | some input =>
    match d.activate py w input with
    | .ok _ => 1
    | .error _ => 0

/-- Whether the activation of a call comes to a result. -/
def commitsTo (s : KeyState) (c : KeyCall) : ℕ :=
  match d.attempt key s c with
  | none => 0
  | some (w, input) => d.comesTo py w (some input)

/-- The `seq` under which a call reports that its activation failed, or that it refused an
answer. -/
def failsAt (s : KeyState) (c : KeyCall) : Option ℕ :=
  match d.attempt key s c with
  | some (w, input) =>
    match d.activate py w input with
    | .ok _ => none
    | .error _ => some input.seq
  | none =>
    match c.answers, d.schema.migrateContinuation s.continuation with
    | some _, .ok cont => some ((cont.map Continuation.seq).getD s.seq)
    | _, _ => none

/-! ### What a call does -/

/-- A failure or a refusal: one error event under `seq`, and the core as it was. -/
structure Reported (s : KeyState) (seq : ℕ) (effects : List Effect) : Prop where
  core : (s.applyAll effects).core = s.core
  activations : activationsOf effects = 0
  traces : ∃ now reason errorType position, tracesOf effects =
    [(ActivationTrace.new py key seq now).error py reason errorType none position]

/-- A commit of a result. -/
structure Committed (s : KeyState) (result : ActivationResult) (effects : List Effect) : Prop where
  seq : (s.applyAll effects).seq = s.seq + 1
  continuation : (s.applyAll effects).continuation = result.continuation
  activations : activationsOf effects = 1
  traces : tracesOf effects = result.traces

/-- Nothing is reported and nothing is committed. -/
structure Idle (s : KeyState) (effects : List Effect) : Prop where
  core : (s.applyAll effects).core = s.core
  activations : activationsOf effects = 0
  traces : tracesOf effects = []

/-- What becomes of an activation that is handed to the bridge. -/
def Concluded (s : KeyState) (w : World) (input : ActivationInput) (effects : List Effect) : Prop :=
  match d.activate py w input with
  | .error _ => Reported py key s input.seq effects
  | .ok result => Committed s result effects

/-- What a call does. -/
inductive Ran (s : KeyState) : KeyCall → List Effect → Prop
  | idle {c effects} (hattempt : d.attempt key s c = none) (h : Idle s effects) : Ran s c effects
  | refused {c effects seq} (hattempt : d.attempt key s c = none)
      (hfails : d.failsAt py key s c = some seq) (h : Reported py key s seq effects) :
        Ran s c effects
  | concluded {c effects w input} (hattempt : d.attempt key s c = some (w, input))
      (h : d.Concluded py key s w input effects) : Ran s c effects
  | escalated {micros w cont toolName argsJson timeoutMs}
      (hcont : d.schema.migrateContinuation s.continuation = .ok (some cont)) :
      Ran s (.onHitl micros w)
        (d.escalate py key cont (firedAtMs micros) toolName argsJson timeoutMs)
  | ended {micros w cont route detail}
      (hcont : d.schema.migrateContinuation s.continuation = .ok (some cont)) (hends : route.ends) :
      Ran s (.onHitl micros w) (d.endSuspension py key cont (firedAtMs micros) route detail s w)
  | wiped {micros w cont} (hcont : d.schema.migrateContinuation s.continuation = .ok cont) :
      Ran s (.onTtl micros w)
        (wipedSuspension py key (firedAtMs micros) cont ++
          (d.wipedBatch key (firedAtMs micros) s ++ d.wipe))

section Attempts

variable {d py key} {s s' : KeyState} {w : World} {effects pre es : List Effect}
  {input : ActivationInput} {result : ActivationResult}

/-- Quiet effects that emit one error event report it. -/
theorem Reported.of_quiet (hquiet : Quiet effects) {seq : ℕ}
    (htraces : ∃ now reason errorType position, tracesOf effects =
      [(ActivationTrace.new py key seq now).error py reason errorType none position]) :
    Reported py key s seq effects :=
  ⟨hquiet.applyAll.1, hquiet.activationsOf, htraces⟩

/-- Quiet effects that emit no event. -/
theorem Idle.of_quiet (hquiet : Quiet effects) (htraces : tracesOf effects = []) :
    Idle s effects :=
  ⟨hquiet.applyAll.1, hquiet.activationsOf, htraces⟩

theorem reported_failure (seq : ℕ) (now : Int) (failure : ActivationFailure) :
    Reported py key s seq (sampleActivation w :: activationFailure py key seq now failure) := by
  refine .of_quiet (quiet_cons.mpr ⟨rfl, quiet_activationFailure py key seq now failure⟩)
    ⟨now, failure.report.reason, failure.report.errorType, failure.report.position, ?_⟩
  rw [tracesOf, sampleActivation, outputsOf_observe, outputsOf_activationFailure]
  rfl

theorem reported_flushFailure (seq : ℕ) (now : Int) (envelopes : List AgentEnvelope)
    (trigger : String) (failure : ActivationFailure) :
    Reported py key s seq (sampleActivation w :: flushFailure py key seq now envelopes
      s!"batch_size={envelopes.length},trigger={trigger}" failure) := by
  let report := failure.flushReport s!"batch_size={envelopes.length},trigger={trigger}"
  refine .of_quiet (quiet_cons.mpr ⟨rfl, quiet_flushFailure py key seq now _ _ failure⟩)
    ⟨now, report.reason, report.errorType, report.position, ?_⟩
  have hrecords (report : FailureReport) : (List.replicate envelopes.length
      (report.record key now)).filterMap (fun | .traces event => some event | _ => none) =
        ([] : List TraceEvent) := by
    simp [FailureReport.record]
  rw [tracesOf, sampleActivation, outputsOf_observe, outputsOf_flushFailure, flushReported,
    List.filterMap_append, hrecords]
  rfl

theorem reported_refusal (now : Int) (intentId : String) (cont : Option Continuation)
    (detail : AdmissionDetail) :
    Reported py key s ((cont.map Continuation.seq).getD s.seq)
      (refusedResume py key now intentId cont detail s) :=
  .of_quiet (quiet_refusedResume py key now intentId cont detail s) ⟨now, _, _, _, rfl⟩

/-- A commit commits its result. -/
theorem committed_commit (nowMs : Int) (caller : CommitOf)
    (hresult : d.activate py w input = .ok result) :
    Committed s result (sampleActivation w :: d.commit s w result nowMs caller) := by
  refine ⟨?_, ?_, activationsOf_commit _ _ hresult, ?_⟩
  · rw [applyAll_sampleActivation, applyAll_commit]
  · rw [applyAll_sampleActivation, applyAll_commit]
  · rw [tracesOf, outputsOf_commit]
    simp

/-- An activation that fails is reported. -/
theorem Concluded.of_failed {failure : ActivationFailure}
    (hfailed : d.activate py w input = .error failure) (h : Reported py key s input.seq effects) :
    d.Concluded py key s w input effects := by
  rw [Concluded, hfailed]
  exact h

/-- A result is committed. -/
theorem Concluded.of_result (hresult : d.activate py w input = .ok result)
    (h : Committed s result effects) : d.Concluded py key s w input effects := by
  rw [Concluded, hresult]
  exact h

theorem Concluded.reported (h : d.Concluded py key s w input effects) {failure : ActivationFailure}
    (hfailed : d.activate py w input = .error failure) : Reported py key s input.seq effects := by
  rw [Concluded, hfailed] at h
  exact h

theorem Concluded.committed (h : d.Concluded py key s w input effects)
    (hresult : d.activate py w input = .ok result) : Committed s result effects := by
  rw [Concluded, hresult] at h
  exact h

/-- What precedes a conclusion, and leaves the core as it is, changes nothing about it. -/
theorem Concluded.after (hpre : Idle s pre) (h : d.Concluded py key (s.applyAll pre) w input es) :
    d.Concluded py key s w input (pre ++ es) := by
  have hseq : (s.applyAll pre).seq = s.seq := congrArg KeyCore.seq hpre.core
  cases hactivate : d.activate py w input with
  | error failure =>
    obtain ⟨hcore, hcount, now, reason, errorType, position, htraces⟩ := h.reported hactivate
    refine .of_failed hactivate ⟨?_, ?_, now, reason, errorType, position, ?_⟩
    · rw [KeyState.applyAll_append, hcore, hpre.core]
    · rw [activationsOf_append, hpre.activations, hcount]
    · rw [tracesOf_append, hpre.traces, List.nil_append, htraces]
  | ok result =>
    obtain ⟨hadvanced, hcont, hcount, htraces⟩ := h.committed hactivate
    refine .of_result hactivate ⟨?_, ?_, ?_, ?_⟩
    · rw [KeyState.applyAll_append, hadvanced, hseq]
    · rw [KeyState.applyAll_append, hcont]
    · rw [activationsOf_append, hpre.activations, hcount]
    · rw [tracesOf_append, hpre.traces, List.nil_append, htraces]

theorem start_concluded {now : Int} {event : Bytes}
    (h : d.start py key now event s w = ⟨effects, none⟩) :
    ∃ input, d.withBlobs s (startInput key now event s) = some input ∧
      d.Concluded py key s w input effects := by
  unfold start at h
  split at h
  · cases h
  rename_i memoryBlob hmemory
  split at h
  · cases h
  rename_i cacheBlob hcache
  refine ⟨startInput key now event s memoryBlob cacheBlob,
    by simp only [withBlobs, hmemory, hcache], ?_⟩
  split at h
  · rename_i failure hfailed
    cases h
    exact .of_failed hfailed (reported_failure _ _ _)
  · rename_i result hresult
    cases h
    exact .of_result hresult (committed_commit _ _ hresult)

theorem flush_concluded {first : AgentEnvelope} {rest : List AgentEnvelope} {trigger : String}
    (hbuffer : s.batch = first :: rest)
    (h : d.flush py key first rest trigger s w = ⟨effects, none⟩) :
    ∃ input, d.flushAttempt key trigger s = some input ∧ d.Concluded py key s w input effects := by
  unfold flush at h
  dsimp only at h
  split at h
  · cases h
  rename_i memoryBlob hmemory
  split at h
  · cases h
  rename_i cacheBlob hcache
  refine ⟨flushInput key first rest trigger s memoryBlob cacheBlob, ?_, ?_⟩
  · simp only [flushAttempt, hbuffer, withBlobs, hmemory, hcache]
  split at h
  · rename_i failure hfailed
    cases h
    exact .of_failed hfailed (reported_flushFailure _ _ (first :: rest) trigger failure)
  · rename_i result hresult
    cases h
    exact .of_result hresult (committed_commit _ _ hresult)

theorem resumeAdmitted_concluded {now : Int} {cont : Continuation}
    {resumeResult : Option ToolResult} {approval : Option Approval}
    (h : d.resumeAdmitted py key now cont resumeResult approval s w = ⟨effects, none⟩) :
    ∃ input, d.withBlobs s (resumeInput key now cont resumeResult approval) = some input ∧
      d.Concluded py key s w input effects := by
  unfold resumeAdmitted at h
  split at h
  · cases h
  rename_i memoryBlob hmemory
  split at h
  · cases h
  rename_i cacheBlob hcache
  refine ⟨resumeInput key now cont resumeResult approval memoryBlob cacheBlob,
    by simp only [withBlobs, hmemory, hcache], ?_⟩
  split at h
  · rename_i failure hfailed
    cases h
    exact .of_failed hfailed (reported_failure _ _ _)
  · rename_i result hresult
    cases h
    exact .of_result hresult (committed_commit _ _ hresult)

theorem resume_concluded {now : Int} {intentId : String} {resumeResult : Option ToolResult}
    {approval : Option Approval}
    (h : d.resume py key now intentId resumeResult approval s w = ⟨effects, none⟩) :
    (∃ cont, d.schema.migrateContinuation s.continuation = .ok cont ∧
      d.resumeAttempt key now intentId resumeResult approval s = none ∧
      Reported py key s ((cont.map Continuation.seq).getD s.seq) effects) ∨
    ∃ input, d.resumeAttempt key now intentId resumeResult approval s = some input ∧
      d.Concluded py key s w input effects := by
  unfold resume at h
  unfold resumeAttempt
  cases hcont : d.schema.migrateContinuation s.continuation with
  | error e =>
    rw [hcont] at h
    cases h
  | ok migrated =>
    rw [hcont] at h
    cases migrated with
    | none =>
      cases h
      exact .inl ⟨none, rfl, rfl, reported_refusal now intentId none _⟩
    | some cont =>
      dsimp only at h ⊢
      cases hadmitted : admissionFailure (some cont) s.pending intentId now with
      | some detail =>
        rw [hadmitted] at h
        cases h
        exact .inl ⟨some cont, rfl, rfl, reported_refusal now intentId (some cont) detail⟩
      | none =>
        rw [hadmitted] at h
        obtain ⟨input, hinput, hconcluded⟩ := resumeAdmitted_concluded h
        exact .inr ⟨input, hinput, hconcluded⟩

/-- Buffering an event emits nothing and counts nothing. -/
theorem idle_bufferEffects {settings : BatchSettings} {envelope : AgentEnvelope}
    (hbuffered : d.Buffered s (.process envelope w) (d.bufferEffects envelope settings s w)) :
    Idle s (d.bufferEffects envelope settings s w) := by
  refine ⟨hbuffered.core, activationsOf_of_issue hbuffered.issue, ?_⟩
  unfold bufferEffects
  split_ifs <;> rfl

theorem buffer_concluded {settings : BatchSettings} {envelope : AgentEnvelope}
    (hbatch : d.batch = some settings) (hevent : envelope.isEvent)
    (h : d.buffer py settings key envelope s w = ⟨effects, none⟩) :
    (d.bufferAttempt key settings envelope s w = none ∧ Idle s effects) ∨
    ∃ input, d.bufferAttempt key settings envelope s w = some input ∧
      d.Concluded py key s w input effects := by
  unfold buffer at h
  unfold bufferAttempt
  split_ifs at h ⊢ with hfull
  · cases h
    exact .inl ⟨rfl, .of_quiet (quiet_deadLetter key _ _ _) rfl⟩
  · obtain ⟨es, hx, rfl⟩ := Exit.after_eq_ok h
    have hidle := idle_bufferEffects
      (Buffered.yes hbatch hevent (Bool.eq_false_iff.mpr hfull) (s := s) (w := w))
    have hbuffer : (s.applyAll (d.bufferEffects envelope settings s w)).batch =
        s.batch ++ [envelope] := by rw [applyAll_bufferEffects]
    dsimp only
    rw [hbuffer]
    cases hcont : d.schema.migrateContinuation
        (s.applyAll (d.bufferEffects envelope settings s w)).continuation with
    | error e =>
      rw [hcont] at hx
      cases hx
    | ok cont =>
      rw [hcont] at hx
      dsimp only at hx ⊢
      split_ifs at hx ⊢ with hflush
      · split at hx
        · rename_i hnil
          simp at hnil
        · rename_i first rest hlist
          obtain ⟨input, hinput, hconcluded⟩ := flush_concluded (hbuffer.trans hlist) hx
          exact .inr ⟨input, hinput, hconcluded.after hidle⟩
      · cases hx
        rw [List.append_nil]
        exact .inl ⟨rfl, hidle⟩

theorem onFlush_ran (h : d.onFlush py key s w = ⟨effects, none⟩) :
    d.Ran py key s (.onFlush w) effects := by
  have idle : d.attempt key s (.onFlush w) = none → effects = [] →
      d.Ran py key s (.onFlush w) effects :=
    fun hattempt hnil => .idle hattempt (hnil ▸ .of_quiet .nil rfl)
  unfold onFlush at h
  split_ifs at h with hbatch
  · cases h
    exact idle (by simp only [attempt, hbatch, if_true]) rfl
  split at h
  · cases h
  rename_i cont hcont
  by_cases hflush : shouldFlushOnTimer s.batch.length cont.isSome = true
  · simp only [hflush, Bool.not_true, Bool.false_eq_true, if_false] at h
    split at h
    · rename_i hnil
      simp [shouldFlushOnTimer, hnil] at hflush
    · rename_i first rest hlist
      obtain ⟨input, hinput, hconcluded⟩ := flush_concluded hlist h
      refine .concluded ?_ hconcluded
      simp only [attempt, hbatch, hcont, hflush, hinput, Bool.false_eq_true, if_false, if_true,
        Option.map_some]
  · simp only [Bool.not_eq_true] at hflush
    simp only [hflush, Bool.not_false, if_true] at h
    cases h
    exact idle (by simp only [attempt, hcont, hflush, Bool.false_eq_true, if_false, ite_self]) rfl

theorem onTtl_ran {micros : Int} (h : d.onTtl py key micros s w = ⟨effects, none⟩) :
    d.Ran py key s (.onTtl micros w) effects := by
  unfold onTtl at h
  split at h
  · cases h
  rename_i cont hcont
  obtain ⟨es, hx, rfl⟩ := Exit.after_eq_ok h
  split at hx
  · cases hx
  · cases hx
    exact .wiped hcont

theorem onHitl_ran {micros : Int} (h : d.onHitl py key micros s w = ⟨effects, none⟩) :
    d.Ran py key s (.onHitl micros w) effects := by
  have idle : effects = [] → d.Ran py key s (.onHitl micros w) effects :=
    fun hnil => .idle rfl (hnil ▸ .of_quiet .nil rfl)
  unfold onHitl at h
  split at h
  · cases h
  · cases h
    exact idle rfl
  rename_i cont hcont
  split_ifs at h with hearly
  · cases h
    exact idle rfl
  split at h
  · cases h
    exact .escalated hcont
  · rename_i route detail hnot hroute
    cases h
    refine .ended hcont ?_
    cases route with
    | escalate toolName argsJson timeoutMs => exact (hnot _ _ _ rfl).elim
    | deny output => rfl
    | drop reason => rfl

/-- **What a call does.** A call that does not raise does nothing that is counted or traced, refuses
an answer, commits or reports the activation it hands to the bridge, escalates or ends a suspension,
or wipes the key. -/
theorem call_ran {c : KeyCall} (h : d.call py key s c = ⟨effects, none⟩) :
    d.Ran py key s c effects := by
  cases c with
  | onTtl micros w => exact onTtl_ran h
  | onHitl micros w => exact onHitl_ran h
  | onFlush w => exact onFlush_ran h
  | process envelope w =>
    -- An event starts an activation, or is buffered.
    have event (hevent : envelope.isEvent)
        (hattempt : d.attempt key s (.process envelope w) =
          match d.batch with
          | some settings => (d.bufferAttempt key settings envelope s w).map (w, ·)
          | none => (d.withBlobs s
              (startInput key envelope.eventTimeMs envelope.externalEvent s)).map (w, ·))
        (hcall : (match d.batch with
          | some settings => d.buffer py settings key envelope s w
          | none => d.start py key envelope.eventTimeMs envelope.externalEvent s w) =
            ⟨effects, none⟩) : d.Ran py key s (.process envelope w) effects := by
      split at hcall
      · rename_i settings hbatch
        simp only [hbatch] at hattempt
        rcases buffer_concluded hbatch hevent hcall with ⟨hnone, hidle⟩ | ⟨input, hinput, hdone⟩
        · exact .idle (by rw [hattempt, hnone]; rfl) hidle
        · exact .concluded (by rw [hattempt, hinput]; rfl) hdone
      · rename_i hbatch
        simp only [hbatch] at hattempt
        obtain ⟨input, hinput, hdone⟩ := start_concluded hcall
        exact .concluded (by rw [hattempt, hinput]; rfl) hdone
    -- An answer is refused, or resumes one.
    have answer {intentId : String} {resumeResult : Option ToolResult}
        {approval : Option Approval} (hanswers : envelope.answers = some intentId)
        (hattempt : d.attempt key s (.process envelope w) = (d.resumeAttempt key
          envelope.eventTimeMs intentId resumeResult approval s).map (w, ·))
        (hcall : d.resume py key envelope.eventTimeMs intentId resumeResult approval s w =
          ⟨effects, none⟩) : d.Ran py key s (.process envelope w) effects := by
      rcases resume_concluded hcall with ⟨cont, hcont, hnone, hreported⟩ | ⟨input, hinput, hdone⟩
      · have hnone' : d.attempt key s (.process envelope w) = none := by rw [hattempt, hnone]; rfl
        refine .refused hnone' ?_ hreported
        simp only [failsAt, hnone', KeyCall.answers, hanswers, hcont]
      · exact .concluded (by rw [hattempt, hinput]; rfl) hdone
    simp only [call, process] at h
    cases hp : envelope.payload with
    | exportRequest requestId =>
      simp only [hp] at h
      cases h
      exact .idle (by simp only [attempt, hp]) (.of_quiet (by simp [Effect.quiet]) rfl)
    | toolResult result =>
      simp only [hp] at h
      exact answer (by simp [AgentEnvelope.answers, hp]) (by simp only [attempt, hp]) h
    | approval approval =>
      simp only [hp] at h
      exact answer (by simp [AgentEnvelope.answers, hp]) (by simp only [attempt, hp]) h
    | externalEvent payload =>
      simp only [hp] at h
      exact event (by simp [AgentEnvelope.isEvent, hp]) (by simp only [attempt, hp]) h
    | unset =>
      simp only [hp] at h
      exact event (by simp [AgentEnvelope.isEvent, hp]) (by simp only [attempt, hp]) h

/-- An activation that fails is reported under its `seq`. -/
theorem failsAt_of_failed {c : KeyCall} {failure : ActivationFailure}
    (hattempt : d.attempt key s c = some (w, input))
    (hactivate : d.activate py w input = .error failure) :
    d.failsAt py key s c = some input.seq := by
  simp only [failsAt, hattempt, hactivate]

/-- **A call commits exactly when its activation comes to a result.** -/
theorem activationsOf_call {c : KeyCall} (h : d.call py key s c = ⟨effects, none⟩) :
    activationsOf effects = d.commitsTo py key s c := by
  unfold commitsTo
  cases call_ran h with
  | idle hattempt hidle => rw [hattempt, hidle.activations]
  | refused hattempt hfails hreported => rw [hattempt, hreported.activations]
  | @concluded _ _ w input hattempt hconcluded =>
    rw [hattempt]
    simp only [comesTo]
    cases hactivate : d.activate py w input with
    | error failure => exact (hconcluded.reported hactivate).activations
    | ok result => exact (hconcluded.committed hactivate).activations
  | escalated hcont => rfl
  | ended hcont hends => exact activationsOf_of_issue (issue_endSuspension _ _ _ _ _)
  | wiped hcont => exact activationsOf_of_issue (issue_wiped _ _)

/-! ### The scope of the activation -/

theorem withBlobs_eq {input : ActivationInput}
    {f : Option MemoryBlob → Option LlmCacheBlob → ActivationInput}
    (h : d.withBlobs s f = some input) :
    ∃ memoryBlob cacheBlob, input = f memoryBlob cacheBlob := by
  unfold withBlobs at h
  split at h
  · cases h
    exact ⟨_, _, rfl⟩
  · cases h

/-- Where an activation is: a fresh one begins at the counter, and an answer goes on with the stored
continuation that pends its intent. -/
inductive Scope (s : KeyState) (c : KeyCall) (input : ActivationInput) : Prop
  | fresh (hanswers : c.answers = none) (hseq : input.seq = s.seq) (hstep : input.stepIndex = 0)
  | resume {cont intentId} (hanswers : c.answers = some intentId)
      (hcont : d.schema.migrateContinuation s.continuation = .ok (some cont))
      (hpends : intentId ∈ cont.pendingIntentIds) (hseq : input.seq = cont.seq)
      (hstep : input.stepIndex = cont.stepIndex)

theorem withBlobs_fresh {c : KeyCall} {now : Int} {event : Bytes} (hanswers : c.answers = none)
    (h : d.withBlobs s (startInput key now event s) = some input) :
    input.entityKey = key ∧ d.Scope s c input := by
  obtain ⟨memoryBlob, cacheBlob, rfl⟩ := withBlobs_eq h
  exact ⟨rfl, .fresh hanswers rfl rfl⟩

theorem flushAttempt_scope {c : KeyCall} {trigger : String} (hanswers : c.answers = none)
    (h : d.flushAttempt key trigger s = some input) :
    input.entityKey = key ∧ d.Scope s c input := by
  unfold flushAttempt at h
  split at h
  · cases h
  · obtain ⟨memoryBlob, cacheBlob, rfl⟩ := withBlobs_eq h
    exact ⟨rfl, .fresh hanswers rfl rfl⟩

theorem resumeAttempt_scope {c : KeyCall} {now : Int} {intentId : String}
    {resumeResult : Option ToolResult} {approval : Option Approval}
    (hanswers : c.answers = some intentId)
    (h : d.resumeAttempt key now intentId resumeResult approval s = some input) :
    input.entityKey = key ∧ d.Scope s c input := by
  unfold resumeAttempt at h
  split at h
  · cases h
  · cases h
  rename_i cont hcont
  split at h
  · cases h
  · rename_i hadmitted
    obtain ⟨memoryBlob, cacheBlob, rfl⟩ := withBlobs_eq h
    exact ⟨rfl, .resume hanswers hcont (admissionFailure_eq_none.mp hadmitted).1 rfl rfl⟩

theorem bufferAttempt_scope {c : KeyCall} {settings : BatchSettings} {envelope : AgentEnvelope}
    (hanswers : c.answers = none) (h : d.bufferAttempt key settings envelope s w = some input) :
    input.entityKey = key ∧ d.Scope s c input := by
  unfold bufferAttempt at h
  split_ifs at h
  dsimp only at h
  split at h
  · cases h
  split_ifs at h
  obtain ⟨hkey, hscope⟩ := flushAttempt_scope hanswers h
  refine ⟨hkey, ?_⟩
  rw [applyAll_bufferEffects] at hscope
  cases hscope with
  | fresh hanswers hseq hstep => exact .fresh hanswers hseq hstep
  | resume hresume => exact absurd (hanswers.symm.trans hresume) (by simp)

/-- **The activation is one of the key**, and its scope is that of the counter, or that of the
stored continuation. -/
theorem attempt_scope {c : KeyCall} (h : d.attempt key s c = some (w, input)) :
    input.entityKey = key ∧ d.Scope s c input := by
  cases c with
  | onTtl micros w => cases h
  | onHitl micros w => cases h
  | onFlush w =>
    simp only [attempt] at h
    split_ifs at h
    split at h
    · cases h
    split_ifs at h
    obtain ⟨input', hinput, heq⟩ := Option.map_eq_some_iff.mp h
    cases heq
    exact flushAttempt_scope rfl hinput
  | process envelope w =>
    simp only [attempt] at h
    split at h
    · cases h
    · rename_i result hp
      obtain ⟨input', hinput, heq⟩ := Option.map_eq_some_iff.mp h
      cases heq
      exact resumeAttempt_scope (by simp [KeyCall.answers, AgentEnvelope.answers, hp]) hinput
    · rename_i approval hp
      obtain ⟨input', hinput, heq⟩ := Option.map_eq_some_iff.mp h
      cases heq
      exact resumeAttempt_scope (by simp [KeyCall.answers, AgentEnvelope.answers, hp]) hinput
    all_goals
      rename_i hp
      have hanswers : (KeyCall.process envelope w).answers = none := by
        simp [KeyCall.answers, AgentEnvelope.answers, hp]
      split at h
      · obtain ⟨input', hinput, heq⟩ := Option.map_eq_some_iff.mp h
        cases heq
        exact bufferAttempt_scope hanswers hinput
      · obtain ⟨input', hinput, heq⟩ := Option.map_eq_some_iff.mp h
        cases heq
        exact withBlobs_fresh hanswers hinput

end Attempts

end AgentDoFn

end BeamAgents
