import BeamAgents.Replay.Record

/-!
# Replays reproduce

The command of `replay/__main__.py`: load the snapshot, build the bundle, run the activation again
and compare. A committed activation on which no setting acted that a replay does not rebuild is
reproduced without a difference, from the memory and the continuation it began with, a replay cache
that serves the responses it used, and the events of its key, as long as its attempt is followed by
nothing or by the start event of another kind of attempt.

## Main definitions

* `replay`.

## Main results

* `replay_reproduces`.
-/

namespace BeamAgents

open Containers

variable (py : PyLib) (chain : ExnChain) (schema : StateSchema) (agent : Agent)
  (decode : Option (Bytes → Except PyExn TokenUsage)) (tools : String → Option Tool)

/-- The differences that the command reports. -/
def replay (here : Answers) (snapshot : StateSnapshot) (traces : List TraceEvent)
    (envelope : AgentEnvelope) (seq : Option ℕ) : Except ReplayError (List Difference) := do
  let loaded ← loadSnapshot schema snapshot
  let bundle ← buildBundle py loaded traces envelope seq
  let outcome ← runReplay py chain schema bundle agent decode tools here
  return compare py bundle outcome

variable {py} {chain} {schema} {agent} {decode} {tools}

/-! ### Loading -/

theorem replayMigrate_eq_ok {M : Type} {migrated : Except MigrationError (Option M)}
    {blob : Option M} (h : replayMigrate migrated = .ok blob) : migrated = .ok blob := by
  match migrated, h with
  | .ok _, h => cases h; rfl
  | .error (.fromFuture ..), h => cases h
  | .error (.missing ..), h => cases h
  | .error (.step ..), h => cases h

/-- A loaded snapshot holds the migrated blobs. -/
theorem loadSnapshot_eq_ok {snapshot loaded : StateSnapshot}
    (h : loadSnapshot schema snapshot = .ok loaded) :
    loaded.entityKey = snapshot.entityKey ∧
      schema.migrateMemory snapshot.memory = .ok loaded.memory ∧
      schema.migrateCache snapshot.llmCache = .ok loaded.llmCache ∧
      schema.migrateContinuation snapshot.continuation = .ok loaded.continuation := by
  unfold loadSnapshot at h
  generalize (if snapshot.stateSchemaVersion = 0 then baselineVersion
    else snapshot.stateSchemaVersion) = version at h
  dsimp only at h
  split_ifs at h
  cases hmemory : replayMigrate (schema.migrateMemory snapshot.memory) with
  | error e => rw [hmemory] at h; cases h
  | ok memory =>
    cases hcache : replayMigrate (schema.migrateCache snapshot.llmCache) with
    | error e => rw [hmemory, hcache] at h; cases h
    | ok llmCache =>
      cases hcont : replayMigrate (schema.migrateContinuation snapshot.continuation) with
      | error e => rw [hmemory, hcache, hcont] at h; cases h
      | ok continuation =>
        rw [hmemory, hcache, hcont] at h
        cases h
        exact ⟨rfl, replayMigrate_eq_ok hmemory, replayMigrate_eq_ok hcache,
          replayMigrate_eq_ok hcont⟩

/-! ### The record that is read back -/

section Record

variable {input : ActivationInput} {isResume : Bool} {start last : TraceEvent}
  {rest before after : List TraceEvent} {r : ActivationResult}

theorem EventType.inner_ne {t : EventType} (h : t.inner = true) :
    t ≠ .activationStart ∧ t ≠ .activationEnd ∧ t ≠ .error := by
  cases t <;> simp_all [EventType.inner]

/-- The status that the record ends with. -/
theorem ActivationResult.Record.tracedStatus (h : r.Record input isResume start rest last) :
    tracedStatus r.traces = r.status.text := by
  have herror : (r.traces.any fun event => event.eventType = .error) = false := by
    rw [h.traces, List.any_eq_false]
    intro e he
    rw [List.mem_cons, List.mem_append, List.mem_singleton] at he
    rcases he with rfl | he | rfl
    · simp [h.start_type]
    · simpa using (EventType.inner_ne (h.inner e he)).2.2
    · simp [h.last_type]
  have hend : r.traces.find? (fun event => event.eventType = .activationEnd) = some last := by
    have hrest : rest.find? (fun event => event.eventType = .activationEnd) = none :=
      List.find?_eq_none.mpr fun e he => by simpa using (EventType.inner_ne (h.inner e he)).2.1
    rw [h.traces, List.find?_cons_of_neg (by simp [h.start_type]), List.find?_append, hrest,
      Option.none_or, List.find?_cons_of_pos (by simp [h.last_type])]
  rw [BeamAgents.tracedStatus, herror, hend]
  simp [h.status]

/-- The record is selected out of a stream in which it is followed by nothing or by another
attempt. -/
theorem ActivationResult.Record.selectAttempt (h : r.Record input isResume start rest last)
    (hafter : ∀ e ∈ after.head?, e.eventType = .activationStart)
    (hlast : ∀ e ∈ after, e.eventType = .activationStart →
      e.attribute? "beam_agents.activation.kind" ≠ some (if isResume then "resume" else "start")) :
    selectAttempt (before ++ r.traces ++ after) isResume = r.traces := by
  rw [h.traces]
  refine selectAttempt_eq h.start_type h.kind (fun e he => ?_) hafter hlast
  rcases List.mem_append.mp he with he | he
  · exact (EventType.inner_ne (h.inner e he)).1
  · rw [List.mem_singleton.mp he, h.last_type]
    decide

/-- The clock of the record. -/
theorem ActivationResult.Record.recoverNowMs (h : r.Record input isResume start rest last) :
    recoverNowMs r.traces = input.nowMs := by
  rw [BeamAgents.recoverNowMs, h.traces, List.find?_cons_of_pos (by simp [h.start_type])]
  exact h.clock

end Record

/-! ### The bundle -/

/-- The largest of a list of numbers, one of which no other exceeds. -/
theorem foldl_max_eq {l : List ℕ} {n : ℕ} (hmem : n ∈ l) (hle : ∀ m ∈ l, m ≤ n) :
    l.foldl max 0 = n := by
  have hbound (l : List ℕ) (a : ℕ) : a ≤ l.foldl max a ∧ ∀ m ∈ l, m ≤ l.foldl max a := by
    induction l generalizing a with
    | nil => simp
    | cons m l ih =>
      obtain ⟨hacc, hl⟩ := ih (max a m)
      rw [List.foldl_cons]
      refine ⟨(le_max_left a m).trans hacc, fun m' hm' => ?_⟩
      rcases List.mem_cons.mp hm' with rfl | hm'
      · exact (le_max_right a m').trans hacc
      · exact hl m' hm'
  have hbelow (l : List ℕ) (a : ℕ) (ha : a ≤ n) (hl : ∀ m ∈ l, m ≤ n) : l.foldl max a ≤ n := by
    induction l generalizing a with
    | nil => exact ha
    | cons m l ih =>
      exact ih (max a m) (max_le ha (hl m List.mem_cons_self))
        fun m' hm' => hl m' (List.mem_cons_of_mem _ hm')
  exact le_antisymm (hbelow l 0 (Nat.zero_le n) hle) ((hbound l 0).2 n hmem)

section Bundle

variable {d : AgentDoFn} {key : Bytes} {s : KeyState} {envelope : AgentEnvelope} {w : World}
  {caller : CommitOf} {input : ActivationInput} {snapshot : StateSnapshot}

variable (py) in
/-- What an activation of a single element was handed: all of it but the cache is rebuilt from the
snapshot and the envelope. -/
theorem AgentDoFn.Activates.rebuilt
    (h : d.Activates key s (.process envelope w) w caller input) (hsingle : input.event.isLeft)
    (hmemory : d.schema.migrateMemory s.memory = .ok snapshot.memory)
    (hcont : d.schema.migrateContinuation s.continuation = .ok snapshot.continuation) :
    envelope.answers.isSome = (input.resumeResult.isSome || input.resumeApproval.isSome) ∧
      bundlePosition py snapshot envelope = .ok (input.stepIndex, input.snapshot) ∧
      ({ entityKey := key, seq := input.seq, nowMs := input.nowMs
         memoryBlob := snapshot.memory, cacheBlob := snapshot.llmCache
         event := .inl envelope.externalEvent, resumeResult := envelope.answerResult
         resumeApproval := envelope.answerApproval, snapshot := input.snapshot
         stepIndex := input.stepIndex : ActivationInput } =
        { input with cacheBlob := snapshot.llmCache }) := by
  cases h with
  | start hbatch hevent hm hc =>
    obtain rfl := Except.ok.inj (hm.symm.trans hmemory)
    obtain ⟨entityKey, eventTimeMs, payload⟩ := envelope
    cases payload with
    | unset | externalEvent event => exact ⟨rfl, rfl, rfl⟩
    | toolResult result | approval approval | exportRequest requestId =>
      simp [AgentEnvelope.isEvent] at hevent
  | flush => cases hsingle
  | resume hanswers hcontinuation hadmission hm hc =>
    obtain rfl := Except.ok.inj (hm.symm.trans hmemory)
    have hstored := Except.ok.inj (hcontinuation.symm.trans hcont)
    have hpending := (admissionFailure_eq_none.mp hadmission).1
    rename_i cont intentId cacheBlob
    have hposition : resumePosition py snapshot intentId = .ok (cont.stepIndex, cont.snapshot) := by
      rw [resumePosition, ← hstored]
      exact if_neg (not_not.mpr hpending)
    have hbundle : bundlePosition py snapshot envelope = .ok (cont.stepIndex, cont.snapshot) := by
      rw [bundlePosition, hanswers]
      exact hposition
    refine ⟨?_, hbundle, ?_⟩
    · obtain ⟨entityKey, eventTimeMs, payload⟩ := envelope
      cases payload <;> simp_all [AgentEnvelope.answers, AgentEnvelope.answerResult,
        AgentEnvelope.answerApproval, AgentDoFn.resumeInput]
    · obtain ⟨entityKey, eventTimeMs, payload⟩ := envelope
      cases payload <;> simp_all [AgentEnvelope.answers, AgentEnvelope.externalEvent,
        AgentDoFn.resumeInput]

/-- The bundle of a recorded activation. -/
theorem buildBundle_recorded {r : ActivationResult} {isResume : Bool} {start last : TraceEvent}
    {rest before after traces : List TraceEvent} {seq : Option ℕ} {position : ℕ × Bytes}
    (hrecord : r.Record input isResume start rest last)
    (henvelope : envelope.entityKey = input.entityKey)
    (hentity : snapshot.entityKey = input.entityKey)
    (hresume : envelope.answers.isSome = isResume)
    (hposition : bundlePosition py snapshot envelope = .ok position)
    (hhistory : (traces.filter fun e => e.entityKey = input.entityKey).filter
      (fun e => e.seq = input.seq) = before ++ r.traces ++ after)
    (hafter : ∀ e ∈ after.head?, e.eventType = .activationStart)
    (hlast : ∀ e ∈ after, e.eventType = .activationStart →
      e.attribute? "beam_agents.activation.kind" ≠ some (if isResume then "resume" else "start"))
    (hseq : seq = some input.seq ∨
      seq = none ∧ ∀ e ∈ traces, e.entityKey = input.entityKey → e.seq ≤ input.seq) :
    buildBundle py snapshot traces envelope seq = .ok {
      snapshot := snapshot
      envelope := envelope
      entityKey := input.entityKey
      seq := input.seq
      nowMs := input.nowMs
      traced := r.traces
      isResume := isResume
      stepIndex := position.1
      adapterSnapshot := position.2 } := by
  have hstart : start ∈ before ++ r.traces ++ after := by
    rw [hrecord.traces]
    simp
  have hown : start ∈ traces.filter fun e => e.entityKey = input.entityKey :=
    (List.mem_filter.mp (hhistory ▸ hstart)).1
  have htarget : seq.getD (((traces.filter fun e => e.entityKey = input.entityKey).map
      TraceEvent.seq).foldl max 0) = input.seq := by
    obtain rfl | ⟨rfl, hmax⟩ := hseq
    · rfl
    · have hscope := (hrecord.scope start (by rw [hrecord.traces]; exact List.mem_cons_self)).2
      refine foldl_max_eq (List.mem_map.mpr ⟨start, hown, hscope⟩) fun n hn => ?_
      obtain ⟨e, he, rfl⟩ := List.mem_map.mp hn
      obtain ⟨htraced, hkey⟩ := List.mem_filter.mp he
      exact hmax e htraced (of_decide_eq_true hkey)
  unfold buildBundle
  simp only [hentity, henvelope, ne_eq, not_true, if_false, htarget, hhistory, hresume,
    hrecord.selectAttempt hafter hlast, hrecord.recoverNowMs, List.ne_nil_of_mem hown,
    List.ne_nil_of_mem hstart, hposition]
  rfl

end Bundle

/-! ### The comparison -/

section Reproduces

variable {d : AgentDoFn} {key : Bytes} {s : KeyState} {envelope : AgentEnvelope} {w : World}
  {caller : CommitOf} {input : ActivationInput} {r : ActivationResult} {raw loaded : StateSnapshot}
  {before after traces : List TraceEvent} {seq : Option ℕ} {here : Answers}
  {tool : String → String → Except PyExn Bytes}

theorem replayWorld_tools (bundle : ReplayBundle) (h : ToolsReply here tool) :
    ToolsReply (replayWorld py bundle here).answers tool :=
  fun awaits toolName argsJson => h awaits toolName argsJson

variable (chain) in
/-- **A replay reproduces the activation.** The activation of an element was committed; its agent
issues its calls one after another and reads nothing that belongs to the driver, its tools are
deterministic, no provider call of it raised, and no setting acted on it that a replay does not
rebuild. Replayed from the memory and the continuation it began with, a cache that serves the
responses it used, and the events of its key in which its own are followed by nothing or by an
attempt of the other kind, it comes out without a difference. -/
theorem replay_reproduces (hactivates : d.Activates key s (.process envelope w) w caller input)
    (hkeyed : envelope.entityKey = key) (hresult : d.activate py w input = .ok r)
    (hagent : d.agent.Sequential)
    (hreplayable : ReplayableActivation py d.contextConfig d.agent d.summarizer d.policy.timeoutMs
      w.answers input)
    (htools : ToolsReply w.answers tool) (hhere : ToolsReply here tool)
    (hreplied : ∀ e, .error e ∉
      askedOf (activationLog py d.contextConfig d.agent d.summarizer w.answers input))
    (hloaded : loadSnapshot d.schema raw = .ok loaded) (hentity : raw.entityKey = key)
    (hmemory : raw.memory = s.memory) (hcont : raw.continuation = s.continuation)
    (hserves : (ReplayCache.ofBlob loaded.llmCache input.nowMs).Serves input.nowMs
      (usedOf (activationLog py d.contextConfig d.agent d.summarizer w.answers input)))
    (hhistory : (traces.filter fun e => e.entityKey = key).filter (fun e => e.seq = input.seq) =
      before ++ r.traces ++ after)
    (hafter : ∀ e ∈ after.head?, e.eventType = .activationStart)
    (hlast : ∀ e ∈ after, e.eventType = .activationStart →
      e.attribute? "beam_agents.activation.kind" ≠
        some (if envelope.answers.isSome then "resume" else "start"))
    (hseq : seq = some input.seq ∨
      seq = none ∧ ∀ e ∈ traces, e.entityKey = key → e.seq ≤ input.seq) :
    replay py chain d.schema d.agent d.decode d.tools here raw traces envelope seq = .ok [] := by
  obtain ⟨hloadedKey, hloadedMemory, -, hloadedCont⟩ := loadSnapshot_eq_ok hloaded
  rw [hmemory] at hloadedMemory
  rw [hcont] at hloadedCont
  have hinputKey : input.entityKey = key := hactivates.entityKey
  have hrun : runActivation py d.schema d.contextConfig d.agent d.summarizer d.policy.timeoutMs w
      input = .ok r := by
    unfold AgentDoFn.activate bridgeRun at hresult
    split_ifs at hresult
    exact hresult
  obtain ⟨start, rest, last, hrecord⟩ := runActivation_record hreplayable hrun
  obtain ⟨hresume, hposition, hinput⟩ :=
    hactivates.rebuilt py hreplayable.single hloadedMemory hloadedCont
  rw [hresume] at hlast
  -- The bundle hands the activation the input it began with, but for the cache.
  have hbundle := buildBundle_recorded hrecord (hkeyed.trans hinputKey.symm)
    ((hloadedKey.trans hentity).trans hinputKey.symm) hresume hposition
    (by rw [hinputKey]; exact hhistory) hafter hlast (by rw [hinputKey]; exact hseq)
  set bundle : ReplayBundle := {
    snapshot := loaded
    envelope := envelope
    entityKey := input.entityKey
    seq := input.seq
    nowMs := input.nowMs
    traced := r.traces
    isResume := input.resumeResult.isSome || input.resumeApproval.isSome
    stepIndex := input.stepIndex
    adapterSnapshot := input.snapshot } with hbundleDef
  have hbundleInput : bundle.input = { input with cacheBlob := loaded.llmCache } := by
    rw [← hinput, ← hinputKey]
    rfl
  -- The second run, first under the settings of the replay, then from the cache.
  obtain ⟨hsettings, hlog⟩ := runActivation_replayable hreplayable hrun
  rw [← hlog] at hreplied hserves
  obtain ⟨r', hr', ⟨hrepeats, htraces⟩, -, -⟩ := runActivation_served (replayWorld py bundle here)
    normalizeEvent_ignoresServing hagent (by simp) rfl htools (replayWorld_tools bundle hhere)
    hsettings hreplied hserves
  rw [← hbundleInput] at hr'
  have hstatus : r'.status = r.status := hrepeats.status
  have hintents : r'.intents = r.intents := hrepeats.intents
  have hreplayed : runReplay py chain d.schema bundle d.agent d.decode d.tools here = .ok _ :=
    runReplay_ok hr'
  unfold replay
  rw [hloaded]
  show (buildBundle py loaded traces envelope seq).bind _ = _
  rw [hbundle]
  show (runReplay py chain d.schema bundle d.agent d.decode d.tools here).bind _ = _
  rw [hreplayed]
  refine congrArg Except.ok (compare_eq_nil ?_ htraces ?_)
  · show tracedStatus r.traces = r'.status.text
    rw [hstatus, hrecord.tracedStatus]
  · show tracedIntents r.traces = r'.intents.map replayedIntent
    rw [hintents, hrecord.intents]

end Reproduces

/-! ### Runs on one input -/

/-- The command for an activation of the key `[107]` that was committed: the snapshot of the state
it began with, with the cache that it left, and its own events followed by others. -/
def replayOf (d : AgentDoFn) (s : KeyState) (envelope : AgentEnvelope) (w : World)
    (input : ActivationInput) (after : List TraceEvent) : Option (List Difference) :=
  match d.activate retryPy w input with
  | .error _ => none
  | .ok r =>
    (replay retryPy ⟨PyExn.repr, fun _ => []⟩ d.schema d.agent d.decode d.tools w.answers
      { buildSnapshot d.schema.current [107] s 0 "" with llmCache := some r.cacheBlob }
      (r.traces ++ after) envelope none).toOption

/-- An event of the key. -/
def replayEnvelope : AgentEnvelope where
  entityKey := [107]
  eventTimeMs := 1000
  payload := .externalEvent [1]

/-- What its activation is handed. -/
def replayInput : ActivationInput := AgentDoFn.startInput [107] 1000 [1] {} none none

/-- A transform with a registered tool and the default settings. -/
def askingDoFn : AgentDoFn where
  agent := askingAgent
  tools _ := some ⟨false⟩

theorem askingAgent_stagesNoTrace : askingAgent.StagesNoTrace := by
  have htail : Prog.StagesNoTrace (runTool "clock" "{}" fun _ =>
      .perform (.act "mail" "{}") fun _ => .ret Outcome.suspend) := by
    have hact : Prog.StagesNoTrace (.perform (.act "mail" "{}") fun _ => .ret (Outcome.suspend)) :=
      ⟨nofun, fun _ => trivial⟩
    refine ⟨nofun, fun answer => ?_⟩
    match answer with
    | .error e => exact hact
    | .ok () =>
      intro reply
      cases hreply : reply.value with
      | error e => simpa [hreply] using hact
      | ok value => simp [hreply, Prog.StagesNoTrace]
  refine ⟨nofun, fun answer => ?_⟩
  match answer with
  | .error e => exact htail
  | .ok (.hit response) => exact htail
  | .ok (.miss call) =>
    intro reply
    cases hreply : reply.value with
    | error e => simpa [hreply] using htail
    | ok value => simpa [hreply, Prog.StagesNoTrace] using htail

/-- The activation of an agent that asks the model, runs a tool, stages an intent and suspends is
reproduced. -/
theorem replay_reproduces_asking : ∃ r,
    askingDoFn.activate retryPy (replyingWorld fun _ => .ok [1]) replayInput = .ok r ∧
    replay retryPy ⟨PyExn.repr, fun _ => []⟩ .v1 askingAgent none (fun _ => some ⟨false⟩)
      (replyingWorld failsOnce).answers
      { buildSnapshot 1 [107] {} 0 "" with llmCache := some r.cacheBlob } r.traces replayEnvelope
      none = .ok [] := by
  have hok : (askingDoFn.activate retryPy (replyingWorld fun _ => .ok [1])
      replayInput).toOption.map (fun r => (r.cacheBlob.stateSchemaVersion,
        decide (∀ e ∈ r.traces, e.entityKey = [107] ∧ e.seq = 0))) = some (1, true) := by
    decide +kernel
  cases hrun : askingDoFn.activate retryPy (replyingWorld fun _ => .ok [1]) replayInput with
  | error failure =>
    rw [hrun] at hok
    cases hok
  | ok r =>
    rw [hrun] at hok
    obtain ⟨hversion, hscope⟩ := Prod.mk.inj (Option.some.inj hok)
    have hscope := of_decide_eq_true hscope
    have hreplied : askedOf (activationLog retryPy askingDoFn.contextConfig askingAgent none
        (replyingWorld fun _ => .ok [1]).answers replayInput) = [.ok [1]] := by decide +kernel
    have hrun' : runActivation retryPy .v1 askingDoFn.contextConfig askingAgent none
        defaultHitlTimeoutMs (replyingWorld fun _ => .ok [1]) replayInput = .ok r := hrun
    have hloaded : loadSnapshot .v1
        { buildSnapshot 1 [107] {} 0 "" with llmCache := some r.cacheBlob } =
          .ok { buildSnapshot 1 [107] {} 0 "" with llmCache := some r.cacheBlob } := by
      have hcache : StateSchema.v1.migrateCache (some r.cacheBlob) = .ok (some r.cacheBlob) :=
        migrateStored_current _ (by simp [effectiveVersion, Versioned.version, hversion,
          StateSchema.v1])
      simp [loadSnapshot, buildSnapshot, StateSchema.v1, replayMigrate] at hcache ⊢
      rw [hcache]
      rfl
    have hactivates : askingDoFn.Activates [107] {}
        (.process replayEnvelope (replyingWorld fun _ => .ok [1])) (replyingWorld fun _ => .ok [1])
        .start replayInput := .start rfl rfl rfl rfl
    have hhistory : (r.traces.filter fun e => e.entityKey = [107]).filter
        (fun e => e.seq = replayInput.seq) = [] ++ r.traces ++ [] := by
      rw [List.nil_append, List.append_nil, List.filter_filter, List.filter_eq_self]
      intro e he
      obtain ⟨hkey, hzero⟩ := hscope e he
      simp [replayInput, AgentDoFn.startInput, hkey, hzero]
    have hserves := runActivation_cacheBlob_serves askingAgent_sequential (by simp) rfl
      (by simp [replayInput, AgentDoFn.startInput]) hrun' (by simp [hreplied])
      ⟨by decide +kernel, by decide +kernel⟩
    exact ⟨r, rfl, replay_reproduces ⟨PyExn.repr, fun _ => []⟩ hactivates rfl hrun
      askingAgent_sequential
      (replayableActivation_of_default rfl askingAgent_stagesNoTrace _ rfl)
      (replyingWorld_tools _) (replyingWorld_tools failsOnce)
      (fun e he => by
        have hmem : Except.error e ∈ askedOf (activationLog retryPy askingDoFn.contextConfig
          askingAgent none (replyingWorld fun _ => .ok [1]).answers replayInput) := he
        rw [hreplied] at hmem
        simp at hmem)
      hloaded rfl rfl rfl hserves hhistory (by simp) (by simp)
      (.inr ⟨rfl, fun e he _ => (hscope e he).2.le⟩)⟩

/-- An agent that stages an intent. -/
def mailAgent : Agent := .perform (.act "mail" "{}") fun _ => .ret .complete

/-- An agent that stages an intent when the model call is refused. -/
def cautiousAgent : Agent :=
  callModel retryRequest fun
    | .ok _ => .ret .complete
    | .error _ => .perform (.act "mail" "{}") fun _ => .ret .complete

/-- The activation of the element is committed, and its replay reports a difference. -/
def Diverges (d : AgentDoFn) (s : KeyState) (w : World) (caller : CommitOf)
    (input : ActivationInput) (after : List TraceEvent) : Prop :=
  d.Activates [107] s (.process replayEnvelope w) w caller input ∧
    ∃ differences, replayOf d s replayEnvelope w input after = some differences ∧ differences ≠ []

theorem Diverges.of_replayOf {d : AgentDoFn} {s : KeyState} {w : World} {caller : CommitOf}
    {input : ActivationInput} {after : List TraceEvent}
    (h : d.Activates [107] s (.process replayEnvelope w) w caller input)
    (hreplay : (replayOf d s replayEnvelope w input after).any (fun l => !l.isEmpty) = true) :
    Diverges d s w caller input after := by
  refine ⟨h, ?_⟩
  cases hd : replayOf d s replayEnvelope w input after with
  | none => rw [hd] at hreplay; cases hreplay
  | some differences =>
    rw [hd] at hreplay
    exact ⟨differences, rfl, fun hnil => by rw [hnil] at hreplay; cases hreplay⟩

/-- Activations that are not reproduced: the intent TTL, the approval channel, the suspension
timeout, a summarizer, a token budget or a batch acted on them, the agent asked again after a
provider error, or a resume at the same `seq` failed afterwards. -/
theorem settings_diverge :
    Diverges { agent := mailAgent, policy := { intentTtlMs := 5 } } {}
      (replyingWorld fun _ => .ok [1]) .start replayInput [] ∧
    Diverges { agent := .perform (.requestApproval "{}") fun _ => .ret .complete
               policy := { approvalChannel := "ops" } } {}
      (replyingWorld fun _ => .ok [1]) .start replayInput [] ∧
    Diverges { agent := .ret .suspend, policy := { timeoutMs := 5 } } {}
      (replyingWorld fun _ => .ok [1]) .start replayInput [] ∧
    Diverges { agent := .ret .complete
               summarizer := some ⟨0, callModel retryRequest fun _ => .ret ()⟩ } {}
      (replyingWorld fun _ => .ok [1]) .start replayInput [] ∧
    Diverges { agent := cautiousAgent, decode := some fun _ => .ok ⟨1, 1, 2⟩
               maxTokensPerActivation := some 1 } {}
      (replyingWorld fun _ => .ok [1]) .start replayInput [] ∧
    Diverges { agent := .ret .complete, batch := some ⟨1, 1, 1, by decide, by decide, by decide⟩ }
      { batch := [replayEnvelope] } (replyingWorld fun _ => .ok [1])
      (.flush [replayEnvelope].length triggerSize)
      (AgentDoFn.flushInput [107] replayEnvelope [] triggerSize { batch := [replayEnvelope] } none
        none) [] ∧
    Diverges { agent := persistentAgent } {} (replyingWorld failsOnce) .start replayInput [] ∧
    Diverges { agent := .ret .suspend } {} (replyingWorld fun _ => .ok [1]) .start replayInput
      [(ActivationTrace.new retryPy [107] 0 2000).error retryPy reasonOrphaned
        AdmissionDetail.unknownIntent.text] :=
  ⟨.of_replayOf (.start rfl rfl rfl rfl) (by decide +kernel),
    .of_replayOf (.start rfl rfl rfl rfl) (by decide +kernel),
    .of_replayOf (.start rfl rfl rfl rfl) (by decide +kernel),
    .of_replayOf (.start rfl rfl rfl rfl) (by decide +kernel),
    .of_replayOf (.start rfl rfl rfl rfl) (by decide +kernel),
    .of_replayOf (.flush rfl rfl rfl rfl rfl (.inr ⟨replayEnvelope, rfl, rfl⟩)) (by decide +kernel),
    .of_replayOf (.start rfl rfl rfl rfl) (by decide +kernel),
    .of_replayOf (.start rfl rfl rfl rfl) (by decide +kernel)⟩

end BeamAgents
