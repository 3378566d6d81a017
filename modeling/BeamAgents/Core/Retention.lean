import BeamAgents.Core.Suspensions

/-!
# How long the state of a key is retained

The TTL timer holds one mark, and every element that commits an activation or is buffered sets it
anew: a commit measures it from the event time of its element (the latest of a batch), or from the
deadline of the suspension that it stores when this is later, an event that is only buffered from
its own event time, and an escalation from the new deadline. The mark that was armed before plays no
part. A late element therefore brings the wipe forward to its own time plus `ttl_ms`, newer state or
not.

## Main definitions

* `KeyCall.sinceWipe`: the event times of the elements that the state owes its retention to.
* `AgentDoFn.Retains`: the mark lies `ttl_ms` past all of these times.
* `AgentDoFn.Commits`, `AgentDoFn.Rearms`: what a call measures the mark from.
* `AgentDoFn.BringsForward`: the call measures the mark from too early a time.

## Main results

* `AgentDoFn.run_retains_iff`.
-/

namespace BeamAgents

open Transition

/-- The event times of the elements that committed an activation or were buffered since the last
wipe, updated by one call. -/
def KeyCall.sinceWipe (times : List Int) : KeyCall → List Effect → List Int
  | .onTtl .., _ => []
  | .process envelope _, effects =>
    if .addSeq 1 ∈ effects ∨ .addBatch envelope ∈ effects then times ++ [envelope.eventTimeMs]
    else times
  | .onFlush _, _ | .onHitl .., _ => times

namespace AgentDoFn

/-- The mark of the TTL timer is never earlier than one of the times plus `ttl_ms`. -/
def Retains (d : AgentDoFn) (s : KeyState) (times : List Int) : Prop :=
  ∀ t ∈ times, ∃ mark ∈ s.ttlTimer, t + d.ttlMs ≤ mark

instance (d : AgentDoFn) (s : KeyState) (times : List Int) : Decidable (d.Retains s times) :=
  inferInstanceAs (Decidable (∀ t ∈ times, ∃ mark ∈ s.ttlTimer, t + d.ttlMs ≤ mark))

/-- What a commit measures the TTL mark from. -/
def retainedFrom (result : ActivationResult) (nowMs : Int) : Int :=
  match result.status, result.hitlDeadlineMs with
  | .suspended, some deadlineMs => max nowMs deadlineMs
  | _, _ => nowMs

section

variable (d : AgentDoFn) (py : PyLib) (key : Bytes) (s : KeyState)

/-- The call commits an activation: an event or an answer that starts or resumes one, a fire of the
flush timer, or an event that fills the buffer. -/
inductive Commits : KeyCall → CommitOf → ActivationInput → ActivationResult → Prop
  | start {envelope w input result}
      (hact : d.Activates key s (.process envelope w) w .start input)
      (hresult : d.activate py w input = .ok result) :
      Commits (.process envelope w) .start input result
  | resume {envelope w input result}
      (hact : d.Activates key s (.process envelope w) w .resume input)
      (hresult : d.activate py w input = .ok result) :
      Commits (.process envelope w) .resume input result
  | timer {w first rest memoryBlob cacheBlob result} (hbatch : d.batch.isSome)
      (hcont : d.schema.migrateContinuation s.continuation = .ok none)
      (hmemory : d.schema.migrateMemory s.memory = .ok memoryBlob)
      (hcache : d.schema.migrateCache s.llmCache = .ok cacheBlob)
      (hbuffer : s.batch = first :: rest)
      (hresult : d.activate py w
        (flushInput key first rest triggerTimer s memoryBlob cacheBlob) = .ok result) :
      Commits (.onFlush w) (.flush (first :: rest).length triggerTimer)
        (flushInput key first rest triggerTimer s memoryBlob cacheBlob) result
  | size {envelope w settings first rest memoryBlob cacheBlob result}
      (hbatch : d.batch = some settings) (hevent : envelope.isEvent)
      (hroom : bufferIsFull s.batch.length settings.maxBufferedEvents = false)
      (hcont : d.schema.migrateContinuation s.continuation = .ok none)
      (hmemory : d.schema.migrateMemory s.memory = .ok memoryBlob)
      (hcache : d.schema.migrateCache s.llmCache = .ok cacheBlob)
      (hbuffer : s.batch ++ [envelope] = first :: rest)
      (hsize : settings.maxBatchSize ≤ (first :: rest).length)
      (hresult : d.activate py w
        (flushInput key first rest triggerSize s memoryBlob cacheBlob) = .ok result) :
      Commits (.process envelope w) (.flush (first :: rest).length triggerSize)
        (flushInput key first rest triggerSize s memoryBlob cacheBlob) result

/-- The call re-arms the TTL mark, measured from the given time: it commits, it buffers an event and
commits nothing, or it escalates a suspension. -/
inductive Rearms : KeyCall → Int → Prop
  | commit {c caller input result} (h : d.Commits py key s c caller input result) :
      Rearms c (retainedFrom result input.nowMs)
  | buffer {envelope w settings} (hbatch : d.batch = some settings) (hevent : envelope.isEvent)
      (hroom : bufferIsFull s.batch.length settings.maxBufferedEvents = false)
      (hnone : ∀ caller input result,
        ¬ d.Commits py key s (.process envelope w) caller input result) :
      Rearms (.process envelope w) envelope.eventTimeMs
  | escalate {micros w cont toolName argsJson timeoutMs detail}
      (hcont : d.schema.migrateContinuation s.continuation = .ok (some cont))
      (hdue : cont.deadlineMs ≤ firedAtMs micros)
      (hroute : d.routeTimeout key cont (firedAtMs micros) =
        (.escalate toolName argsJson timeoutMs, detail)) :
      Rearms (.onHitl micros w) (firedAtMs micros + timeoutMs)

/-- The call re-arms the TTL mark from a time before one of the times. -/
def BringsForward (times : List Int) (c : KeyCall) : Prop :=
  ∃ base, d.Rearms py key s c base ∧ ∃ t ∈ times, base < t

end

variable {d : AgentDoFn} {py : PyLib} {key : Bytes} {s s' : KeyState} {c : KeyCall}
  {os : List Effect} {times : List Int}

/-! ### What a call sets the mark to -/

theorem commitTtl_eq (d : AgentDoFn) (result : ActivationResult) (nowMs : Int) :
    d.commitTtl result nowMs = retainedFrom result nowMs + d.ttlMs := by
  unfold commitTtl retainedFrom
  cases result.status <;> cases result.hitlDeadlineMs <;> rfl

theorem le_retainedFrom (result : ActivationResult) (nowMs : Int) :
    nowMs ≤ retainedFrom result nowMs := by
  unfold retainedFrom
  split
  · exact le_max_left ..
  · exact le_rfl

/-- No event of a batch is later than its clock. -/
theorem le_batchClock {first : AgentEnvelope} {rest : List AgentEnvelope} {e : AgentEnvelope}
    (h : e ∈ first :: rest) : e.eventTimeMs ≤ batchClock first rest := by
  have hmax (times : List Int) (t : Int) : ∀ x ∈ t :: times, x ≤ times.foldl max t := by
    induction times generalizing t with
    | nil => simp
    | cons u times ih =>
      have hle : max t u ≤ times.foldl max (max t u) := ih _ _ List.mem_cons_self
      simp only [List.mem_cons, forall_eq_or_imp, List.foldl_cons]
      exact ⟨(le_max_left t u).trans hle, (le_max_right t u).trans hle,
        fun x hx => ih _ _ (List.mem_cons_of_mem _ hx)⟩
  exact hmax _ _ _ (List.mem_map_of_mem (f := AgentEnvelope.eventTimeMs) h)

/-- A flush whose activation comes to a result commits it. What was buffered just before has left
the core as it was. -/
theorem flush_commit {t : KeyState} {first : AgentEnvelope} {rest : List AgentEnvelope}
    {trigger : String} {w : World} {memoryBlob : Option MemoryBlob}
    {cacheBlob : Option LlmCacheBlob} {result : ActivationResult} (hcore : t.core = s.core)
    (hmemory : d.schema.migrateMemory s.memory = .ok memoryBlob)
    (hcache : d.schema.migrateCache s.llmCache = .ok cacheBlob)
    (hresult : d.activate py w (flushInput key first rest trigger s memoryBlob cacheBlob) =
      .ok result) :
    d.flush py key first rest trigger t w = ⟨sampleActivation w ::
      d.commit t w result (batchClock first rest) (.flush (first :: rest).length trigger),
      none⟩ := by
  have hmem : t.memory = s.memory := congrArg KeyCore.memory hcore
  have hllm : t.llmCache = s.llmCache := congrArg KeyCore.llmCache hcore
  have hinput : flushInput key first rest trigger t memoryBlob cacheBlob =
      flushInput key first rest trigger s memoryBlob cacheBlob := by
    have hseq : t.seq = s.seq := congrArg KeyCore.seq hcore
    simp only [flushInput, hseq]
  simp only [flush, hmem, hllm, hmemory, hcache, hinput, hresult]

/-- A flush that commits nothing is quiet. -/
theorem flush_quiet {t : KeyState} {first : AgentEnvelope} {rest : List AgentEnvelope}
    {trigger : String} {w : World} (hcore : t.core = s.core)
    (hnone : ∀ memoryBlob cacheBlob result, d.schema.migrateMemory s.memory = .ok memoryBlob →
      d.schema.migrateCache s.llmCache = .ok cacheBlob →
      d.activate py w (flushInput key first rest trigger s memoryBlob cacheBlob) ≠ .ok result)
    (h : d.flush py key first rest trigger t w = ⟨os, none⟩) : Quiet os := by
  have hmem : t.memory = s.memory := congrArg KeyCore.memory hcore
  have hllm : t.llmCache = s.llmCache := congrArg KeyCore.llmCache hcore
  cases hmemory : d.schema.migrateMemory s.memory with
  | error e => simp [flush, hmem, hmemory, Exit.migration] at h
  | ok memoryBlob =>
    cases hcache : d.schema.migrateCache s.llmCache with
    | error e => simp [flush, hmem, hmemory, hllm, hcache, Exit.migration] at h
    | ok cacheBlob =>
      have hinput : flushInput key first rest trigger t memoryBlob cacheBlob =
          flushInput key first rest trigger s memoryBlob cacheBlob := by
        have hseq : t.seq = s.seq := congrArg KeyCore.seq hcore
        simp only [flushInput, hseq]
      cases hresult : d.activate py w
          (flushInput key first rest trigger s memoryBlob cacheBlob) with
      | ok result => exact absurd hresult (hnone _ _ _ hmemory hcache)
      | error failure =>
        simp only [flush, hmem, hmemory, hllm, hcache, hinput, hresult] at h
        cases h
        exact quiet_cons.mpr ⟨rfl, quiet_flushFailure py key _ _ _ _ _⟩

/-- An event that is buffered by a call that commits nothing: the rest of the call is quiet. -/
theorem buffer_quiet {envelope : AgentEnvelope} {settings : BatchSettings} {w : World}
    (hbatch : d.batch = some settings) (hevent : envelope.isEvent)
    (hroom : bufferIsFull s.batch.length settings.maxBufferedEvents = false)
    (hnone : ∀ caller input result,
      ¬ d.Commits py key s (.process envelope w) caller input result)
    (h : d.call py key s (.process envelope w) = ⟨os, none⟩) :
    ∃ es, os = d.bufferEffects envelope settings s w ++ es ∧ Quiet es := by
  have hpre : d.Buffered s (.process envelope w) (d.bufferEffects envelope settings s w) :=
    .yes hbatch hevent hroom
  have hcont : (s.applyAll (d.bufferEffects envelope settings s w)).continuation =
      s.continuation := congrArg KeyCore.continuation hpre.core
  rw [event_call hbatch hevent] at h
  simp only [buffer, hroom, Bool.false_eq_true, if_false, hcont] at h
  obtain ⟨es, hx, rfl⟩ := Exit.after_eq_ok h
  refine ⟨es, rfl, ?_⟩
  split at hx
  · cases hx
  rename_i cont hread
  split_ifs at hx with hflush
  · obtain ⟨hsize, hlive⟩ := Bool.and_eq_true_iff.mp hflush
    obtain rfl : cont = none := by simpa using hlive
    split at hx
    · cases hx
      exact .nil
    · rename_i first rest hbuffer
      refine flush_quiet hpre.core (fun memoryBlob cacheBlob result hmemory hcache hresult => ?_) hx
      exact hnone _ _ _ (.size hbatch hevent hroom hread hmemory hcache hbuffer
        (hbuffer ▸ of_decide_eq_true hsize) hresult)
  · cases hx
    exact .nil

/-- A fire of the flush timer that commits nothing is quiet. -/
theorem onFlush_quiet {w : World}
    (hnone : ∀ caller input result, ¬ d.Commits py key s (.onFlush w) caller input result)
    (h : d.call py key s (.onFlush w) = ⟨os, none⟩) : Quiet os := by
  simp only [call, onFlush] at h
  split_ifs at h with hbatch
  · cases h
    exact .nil
  split at h
  · cases h
  rename_i cont hread
  split_ifs at h with hflush
  · cases h
    exact .nil
  have hlive : cont = none := by
    simp only [shouldFlushOnTimer, Bool.not_eq_true, Bool.not_eq_false', Bool.and_eq_true] at hflush
    simpa using hflush.2
  subst hlive
  split at h
  · cases h
    exact .nil
  · rename_i first rest hbuffer
    have hsome : d.batch.isSome := Option.isSome_iff_ne_none.mpr (by simpa using hbatch)
    refine flush_quiet rfl (fun memoryBlob cacheBlob result hmemory hcache hresult => ?_) h
    exact hnone _ _ _ (.timer hsome hread hmemory hcache hbuffer hresult)

/-- A call that commits, in full. -/
theorem Commits.call {caller : CommitOf} {input : ActivationInput} {result : ActivationResult}
    (h : d.Commits py key s c caller input result) :
    ∃ pre w, d.Buffered s c pre ∧ d.call py key s c =
      ⟨pre ++ sampleActivation w :: d.commit (s.applyAll pre) w result input.nowMs caller,
        none⟩ := by
  cases h with
  | start hact hresult => exact ⟨[], _, .no, start_call hact hresult⟩
  | resume hact hresult => exact ⟨[], _, .no, resume_call hact hresult⟩
  | @timer w _ _ _ _ _ hbatch hcont hmemory hcache hbuffer hresult =>
    refine ⟨[], w, .no, ?_⟩
    rw [timerFlush_call hbatch hcont hbuffer, flush_commit rfl hmemory hcache hresult]
    rfl
  | @size envelope w settings first rest _ _ _ hbatch hevent hroom hcont hmemory hcache hbuffer
      hsize hresult =>
    have hpre : d.Buffered s (.process envelope w) (d.bufferEffects envelope settings s w) :=
      .yes hbatch hevent hroom
    refine ⟨_, w, hpre, ?_⟩
    rw [sizeFlush_call hbatch hevent hroom hcont hbuffer hsize,
      flush_commit hpre.core hmemory hcache hresult]
    rfl

/-- The element of a call that re-arms the mark is not later than what it is measured from. -/
theorem Rearms.le {envelope : AgentEnvelope} {w : World} {base : Int}
    (h : d.Rearms py key s (.process envelope w) base) : envelope.eventTimeMs ≤ base := by
  cases h with
  | buffer => exact le_rfl
  | @commit _ _ input result hcommits =>
    refine le_trans ?_ (le_retainedFrom result input.nowMs)
    cases hcommits with
    | start hact => cases hact; exact le_rfl
    | resume hact => cases hact; exact le_rfl
    | size _ _ _ _ _ _ hbuffer =>
      exact le_batchClock (hbuffer ▸ List.mem_append_right _ (List.mem_singleton_self _))

/-- **What a call sets the mark to.** A call that re-arms the mark sets it to `ttl_ms` past the time
that it measures it from, whatever was armed before. -/
theorem Rearms.ttlTimer {base : Int} (h : d.Rearms py key s c base)
    (hstep : (d.machine py key).step s c s' os) : s'.ttlTimer = some (base + d.ttlMs) := by
  obtain ⟨hcall, rfl⟩ := hstep
  cases h with
  | @commit _ caller input result hcommits =>
    obtain ⟨pre, w, hpre, hcommit⟩ := hcommits.call
    rw [hcommit] at hcall
    cases hcall
    rw [KeyState.applyAll_append, applyAll_sampleActivation, applyAll_commit]
    exact congrArg some (commitTtl_eq d result input.nowMs)
  | @escalate micros w cont toolName argsJson timeoutMs detail hcont hdue hroute =>
    have hescalates : d.call py key s (.onHitl micros w) =
        ⟨d.escalate py key cont (firedAtMs micros) toolName argsJson timeoutMs, none⟩ := by
      simp only [call, onHitl, hcont, Int.not_lt.mpr hdue, if_false, hroute]
    rw [hescalates] at hcall
    cases hcall
    rfl
  | @buffer envelope w settings hbatch hevent hroom hnone =>
    obtain ⟨es, rfl, hquiet⟩ := buffer_quiet hbatch hevent hroom hnone hcall
    rw [KeyState.applyAll_append, hquiet.applyAll.2, applyAll_bufferEffects]

/-- Quiet effects account for no element. -/
theorem sinceWipe_of_quiet (h : Quiet os) (hwipe : ∀ micros w, c ≠ .onTtl micros w) :
    c.sinceWipe times os = times := by
  have hnot {e : Effect} (he : e.quiet = false) : e ∉ os := fun hmem =>
    Bool.false_ne_true (he.symm.trans (h e hmem))
  cases c with
  | onTtl micros w => exact absurd rfl (hwipe micros w)
  | onFlush w => rfl
  | onHitl micros w => rfl
  | process envelope w =>
    exact if_neg (not_or.mpr ⟨hnot (e := .addSeq 1) rfl, hnot (e := .addBatch envelope) rfl⟩)

/-- A call that re-arms the mark accounts for its element at most, and that is not later than what
the mark is measured from. -/
theorem Rearms.sinceWipe {base : Int} (h : d.Rearms py key s c base) (times : List Int)
    (os : List Effect) :
    c.sinceWipe times os = times ∨ ∃ t ≤ base, c.sinceWipe times os = times ++ [t] := by
  cases c with
  | onTtl micros w =>
    cases h with
    | commit hcommits => cases hcommits
  | onFlush w => exact .inl rfl
  | onHitl micros w => exact .inl rfl
  | process envelope w =>
    by_cases hmem : .addSeq 1 ∈ os ∨ .addBatch envelope ∈ os
    · exact .inr ⟨_, h.le, if_pos hmem⟩
    · exact .inl (if_neg hmem)

/-- A call that does not re-arm the mark is a wipe, which accounts for no element, or it leaves both
the mark and the elements that the state accounts for as they were. -/
theorem kept_of_not_rearms (times : List Int) (hnone : ∀ base, ¬ d.Rearms py key s c base)
    (hstep : (d.machine py key).step s c s' os) :
    c.sinceWipe times os = [] ∨ (s'.ttlTimer = s.ttlTimer ∧ c.sinceWipe times os = times) := by
  obtain ⟨hcall, rfl⟩ := hstep
  have hcommits : ∀ caller input result, ¬ d.Commits py key s c caller input result :=
    fun _ _ _ h => hnone _ (.commit h)
  have hkept (hquiet : Quiet os) (hwipe : ∀ micros w, c ≠ .onTtl micros w) :
      (s.applyAll os).ttlTimer = s.ttlTimer ∧ c.sinceWipe times os = times :=
    ⟨hquiet.applyAll.2, sinceWipe_of_quiet hquiet hwipe⟩
  cases c with
  | onTtl micros w => exact .inl rfl
  | onFlush w => exact .inr (hkept (onFlush_quiet hcommits hcall) (by simp))
  | onHitl micros w =>
    cases onHitl_shape hcall with
    | quiet hquiet => exact .inr (hkept hquiet (by simp))
    | commit hact => cases hact with
      | flush _ _ _ _ _ h => simp at h
    | escalate hcont hdue hroute => exact absurd (.escalate hcont hdue hroute) (hnone _)
    | ended =>
      rw [applyAll_endSuspension]
      exact .inr ⟨rfl, rfl⟩
  | process envelope w =>
    by_cases hbuffers : ∃ settings, d.batch = some settings ∧ envelope.isEvent
    · obtain ⟨settings, hbatch, hevent⟩ := hbuffers
      cases hroom : bufferIsFull s.batch.length settings.maxBufferedEvents with
      | false => exact absurd (.buffer hbatch hevent hroom hcommits) (hnone _)
      | true =>
        rw [event_call hbatch hevent, buffer, if_pos hroom] at hcall
        cases hcall
        exact .inr (hkept (quiet_deadLetter key _ _ _) (by simp))
    · obtain ⟨pre, es, rfl, hpre, hshape⟩ := call_shape hcall
      cases hpre with
      | yes hbatch hevent hroom => exact absurd ⟨_, hbatch, hevent⟩ hbuffers
      | no =>
        rw [KeyState.applyAll_nil] at hshape
        cases hshape with
        | quiet hquiet => exact .inr (hkept hquiet (by simp))
        | commit hact hresult hes =>
          cases hact with
          | start hbatch hevent hmemory hcache =>
            exact absurd (.start (.start hbatch hevent hmemory hcache) hresult) (hcommits _ _ _)
          | resume hanswers hcont hadmission hmemory hcache =>
            exact absurd (.resume (.resume hanswers hcont hadmission hmemory hcache) hresult)
              (hcommits _ _ _)
          | flush hbatch _ _ _ _ h =>
            obtain ⟨settings, hsettings⟩ := Option.isSome_iff_exists.mp hbatch
            obtain h | ⟨_, h, hevent⟩ := h
            · cases h
            · cases h
              exact absurd ⟨settings, hsettings, hevent⟩ hbuffers

/-! ### Every run -/

theorem Retains.of_mark {base : Int} (hmark : s.ttlTimer = some (base + d.ttlMs)) :
    d.Retains s times ↔ ∀ t ∈ times, t ≤ base := by
  refine forall₂_congr fun t _ => ?_
  simp [hmark]

/-- A call keeps the state that is retained retained exactly when it does not measure the mark from
a time before one of the elements that the state accounts for. -/
theorem step_retains_iff (h : d.Retains s times) (hstep : (d.machine py key).step s c s' os) :
    d.Retains s' (c.sinceWipe times os) ↔ ¬ d.BringsForward py key s times c := by
  by_cases hrearms : ∃ base, d.Rearms py key s c base
  · obtain ⟨base, hrearms⟩ := hrearms
    have hmark := hrearms.ttlTimer hstep
    -- Whatever the call is said to measure the mark from, it is the mark that it set.
    have hforward : d.BringsForward py key s times c ↔ ∃ t ∈ times, base < t := by
      refine ⟨fun ⟨base', hrearms', hlate⟩ => ?_, fun hlate => ⟨base, hrearms, hlate⟩⟩
      have hsame : base' = base := by
        simpa using (hrearms'.ttlTimer hstep).symm.trans hmark
      exact hsame ▸ hlate
    rw [Retains.of_mark hmark, hforward]
    simp only [not_exists, not_and, Int.not_lt]
    obtain htimes | ⟨t, hle, htimes⟩ := hrearms.sinceWipe times os
    · rw [htimes]
    · rw [htimes, List.forall_mem_append]
      simp [hle]
  · refine iff_of_true ?_ fun ⟨base, h, _⟩ => hrearms ⟨base, h⟩
    obtain htimes | ⟨hmark, htimes⟩ :=
      kept_of_not_rearms times (fun base h => hrearms ⟨base, h⟩) hstep
    · simp [Retains, htimes]
    · rwa [htimes, Retains, hmark]

/-- **The retention of state is monotone, unless a late element re-arms the mark.** The runs of one
key in which the TTL mark stays `ttl_ms` past the event time of every element that committed an
activation or was buffered since the last wipe are the runs in which no call measures the mark from
a time before one of these event times. -/
theorem run_retains_iff (d : AgentDoFn) (py : PyLib) (key : Bytes) {calls : List KeyCall}
    {effects : List Effect} {x : KeyState × List Int} :
    (((d.machine py key).tracked KeyCall.sinceWipe).guarded fun x c =>
        ¬ d.BringsForward py key x.1 x.2 c).Run ({}, []) calls effects x ↔
      (((d.machine py key).tracked KeyCall.sinceWipe).restrict fun _ _ y _ =>
        d.Retains y.1 y.2).Run ({}, []) calls effects x := by
  refine Machine.Run.guarded_iff_restrict (I := fun x => d.Retains x.1 x.2) (by simp [Retains])
    (fun _ hretains _ => hretains) ?_
  rintro x c y os hretains ⟨hstep, hy⟩
  rw [hy]
  exact (step_retains_iff hretains hstep).symm

/-- A pipeline whose agent completes every activation at once. -/
def promptAgent : AgentDoFn where
  agent := .ret .complete

/-- An event that is two hours late has the state of the newer event wiped: the mark moves to a time
before that event. -/
theorem late_event_wipes :
    let M := (promptAgent.machine (.ofTable []) [107]).tracked KeyCall.sinceWipe
    ∃ x y z effects effects', M.Reachable ({}, []) x ∧ x.2 = [7200000] ∧
      x.1.ttlTimer = some 10800000 ∧ M.step x (eventAt 1000 2) y effects ∧
      ¬ promptAgent.Retains y.1 y.2 ∧ y.1.ttlTimer = some 3601000 ∧
      M.step y (.onTtl 3601000000 quietWorld) z effects' ∧ z.1.memory = none := by
  intro M
  refine ⟨(_, _), (_, _), (_, _), _, _, (Machine.Reachable.refl _).tail (a := eventAt 7200000 1)
    ⟨call_step ?_, rfl⟩, ?_, ?_, ⟨call_step ?_, rfl⟩, ?_, ?_, ⟨call_step ?_, rfl⟩, ?_⟩
  all_goals decide

end AgentDoFn

end BeamAgents
