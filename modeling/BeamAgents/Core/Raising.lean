import BeamAgents.Core.Suspensions

/-!
# What a call has done when it raises

A call raises when a stored blob does not migrate, or when the `on_expire` hook does. The source
wants such a call to have done nothing: no element on any output, no write to a cell, a bag or a
timer. Two entry points act before their last step that may raise. `_buffer` appends the event and
sets the timers before it migrates the continuation, and before a size-triggered flush migrates the
other blobs; `on_ttl` emits the record of the wiped suspension before it runs the hook.

## Main definitions

* `Effect.visible`, `Exit.Clean`.
* `AgentDoFn.HookRaises`: the expiring memory cannot be demoted.
* `AgentDoFn.ActsFirst`: the calls that act and then raise.

## Main results

* `AgentDoFn.clean_iff`: in every state, these are exactly the calls that break the law.
-/

namespace BeamAgents

open Transition

/-- An element on an output, or a write to a cell, a bag or a timer: all but the metrics. -/
def Effect.visible : Effect → Bool
  | .incr .. | .observe .. => false
  | _ => true

namespace Exit

/-- If the call raises, it has emitted no element and written nothing before. -/
def Clean (x : Exit) : Prop := x.raised.isSome → ∀ e ∈ x.effects, e.visible = false

instance (x : Exit) : Decidable x.Clean :=
  inferInstanceAs (Decidable (x.raised.isSome → ∀ e ∈ x.effects, e.visible = false))

variable {x : Exit} {es : List Effect}

theorem clean_of_ok (h : x.raised = none) : x.Clean := by simp [Clean, h]

theorem clean_nil (raised : Option CallError) : Clean ⟨[], raised⟩ := by simp [Clean]

/-- After something visible, only a rest that does not raise is clean. -/
theorem clean_after (h : ∃ e ∈ es, e.visible = true) : (after es x).Clean ↔ x.raised = none := by
  constructor
  · intro hclean
    obtain ⟨e, he, hvisible⟩ := h
    by_contra hraised
    have hhidden := hclean (Option.isSome_iff_ne_none.mpr hraised) e (List.mem_append_left _ he)
    rw [hvisible] at hhidden
    cases hhidden
  · exact fun h => clean_of_ok h

end Exit

namespace AgentDoFn

variable (d : AgentDoFn) (py : PyLib) (key : Bytes) (s : KeyState)

/-- The memory or the replay cache does not migrate. -/
def Unreadable : Prop :=
  (∃ e, d.schema.migrateMemory s.memory = .error e) ∨
    ∃ e, d.schema.migrateCache s.llmCache = .error e

/-- The expiring memory cannot be demoted: it does not migrate, or it is not empty and there is no
store, or the hook raises. -/
inductive HookRaises (w : World) : Prop
  | unmigratable {e} (hmemory : d.schema.migrateMemory s.memory = .error e)
  | demotion {blob} (hmemory : d.schema.migrateMemory s.memory = .ok (some blob))
      (hentries : blob.entries ≠ []) (hraises : d.longterm = false ∨ w.expireRaises.isSome)

/-- The calls that act and then raise. -/
inductive ActsFirst : KeyCall → Prop
  /-- An event is buffered behind a continuation that does not migrate. -/
  | deferral {envelope settings w e} (hbatch : d.batch = some settings) (hevent : envelope.isEvent)
      (hroom : bufferIsFull s.batch.length settings.maxBufferedEvents = false)
      (hcont : d.schema.migrateContinuation s.continuation = .error e) :
      ActsFirst (.process envelope w)
  /-- An event fills a batch, whose flush cannot read the memory or the replay cache. -/
  | sizeFlush {envelope settings w} (hbatch : d.batch = some settings) (hevent : envelope.isEvent)
      (hroom : bufferIsFull s.batch.length settings.maxBufferedEvents = false)
      (hcont : d.schema.migrateContinuation s.continuation = .ok none)
      (hsize : settings.maxBatchSize ≤ s.batch.length + 1) (hblob : d.Unreadable s) :
      ActsFirst (.process envelope w)
  /-- The memory of a suspended key expires, and cannot be demoted. -/
  | expiry {micros w cont} (hcont : d.schema.migrateContinuation s.continuation = .ok (some cont))
      (honExpire : d.onExpire = true) (hraises : d.HookRaises s w) : ActsFirst (.onTtl micros w)

section Clean

variable {d py key s} {w : World}

theorem flushExpiring_isSome_iff : (d.flushExpiring s w).isSome ↔ d.HookRaises s w := by
  unfold flushExpiring
  cases hmemory : d.schema.migrateMemory s.memory with
  | error e => exact ⟨fun _ => .unmigratable hmemory, fun _ => rfl⟩
  | ok stored =>
    constructor
    · intro h
      cases stored with
      | none => simp at h
      | some blob =>
        dsimp only at h
        split_ifs at h with hentries hlongterm
        · cases h
        · exact .demotion hmemory hentries (.inl (by simpa using hlongterm))
        · exact .demotion hmemory hentries (.inr (by simpa using h))
    · intro h
      cases h with
      | unmigratable h => rw [hmemory] at h; cases h
      | demotion h hentries hraises =>
        rw [hmemory] at h
        cases h
        dsimp only
        rw [if_neg hentries]
        split_ifs with hlongterm
        · rfl
        · rcases hraises with hnone | hraises
          · simp [hnone] at hlongterm
          · simpa using hraises

/-! ### The activations -/

theorem start_clean (nowMs : Int) (event : Bytes) : (d.start py key nowMs event s w).Clean := by
  unfold start
  split
  · exact Exit.clean_nil _
  · split
    · exact Exit.clean_nil _
    · split <;> exact Exit.clean_of_ok rfl

theorem resume_clean (nowMs : Int) (intentId : String) (result : Option ToolResult)
    (approval : Option Approval) : (d.resume py key nowMs intentId result approval s w).Clean := by
  unfold resume
  split
  · exact Exit.clean_nil _
  · exact Exit.clean_of_ok rfl
  · split
    · exact Exit.clean_of_ok rfl
    · unfold resumeAdmitted
      split
      · exact Exit.clean_nil _
      · split
        · exact Exit.clean_nil _
        · split <;> exact Exit.clean_of_ok rfl

/-- A flush raises exactly when it cannot read its blobs, and then it has done nothing. -/
theorem flush_clean (first : AgentEnvelope) (rest : List AgentEnvelope) (trigger : String) :
    (d.flush py key first rest trigger s w).Clean ∧
      ((d.flush py key first rest trigger s w).raised = none ↔ ¬ d.Unreadable s) := by
  unfold flush Unreadable
  dsimp only
  cases hmemory : d.schema.migrateMemory s.memory with
  | error e => exact ⟨Exit.clean_nil _, by simp [Exit.migration]⟩
  | ok memoryBlob =>
    cases hcache : d.schema.migrateCache s.llmCache with
    | error e => exact ⟨Exit.clean_nil _, by simp [Exit.migration]⟩
    | ok cacheBlob =>
      dsimp only
      split <;> exact ⟨Exit.clean_of_ok rfl, by simp⟩

/-! ### The entry points -/

theorem onFlush_clean : (d.onFlush py key s w).Clean := by
  unfold onFlush
  split_ifs
  · exact Exit.clean_nil _
  · split
    · exact Exit.clean_nil _
    · split_ifs
      · exact Exit.clean_nil _
      · split
        · exact Exit.clean_nil _
        · exact (flush_clean _ _ _).1

theorem onHitl_clean (micros : Int) : (d.onHitl py key micros s w).Clean := by
  unfold onHitl
  split
  · exact Exit.clean_nil _
  · exact Exit.clean_nil _
  · split_ifs
    · exact Exit.clean_nil _
    · split <;> exact Exit.clean_of_ok rfl

theorem buffer_clean_iff {settings : BatchSettings} {envelope : AgentEnvelope}
    (hbatch : d.batch = some settings) (hevent : envelope.isEvent) :
    (d.buffer py settings key envelope s w).Clean ↔ ¬ d.ActsFirst s (.process envelope w) := by
  have hvisible : ∃ e ∈ d.bufferEffects envelope settings s w, e.visible = true :=
    ⟨.addBatch envelope, by simp [bufferEffects], rfl⟩
  unfold buffer
  cases hroom : bufferIsFull s.batch.length settings.maxBufferedEvents with
  | true =>
    refine iff_of_true (Exit.clean_of_ok rfl) ?_
    rintro (⟨hbatch', _, hroom', _⟩ | ⟨hbatch', _, hroom', _, _, _⟩) <;>
      · cases hbatch.symm.trans hbatch'
        rw [hroom] at hroom'
        cases hroom'
  | false =>
    -- Buffering leaves the cells alone, so what is read after it is what was stored before.
    have hcore := (Buffered.yes (w := w) hbatch hevent hroom).core
    have hcont := congrArg KeyCore.continuation hcore
    have hmemory := congrArg KeyCore.memory hcore
    have hcache := congrArg KeyCore.llmCache hcore
    simp only [KeyState.core] at hcont hmemory hcache
    rw [if_neg Bool.false_ne_true, Exit.clean_after hvisible, hcont]
    cases hstored : d.schema.migrateContinuation s.continuation with
    | error e =>
      exact iff_of_false (by simp [Exit.migration])
        (not_not_intro (.deferral hbatch hevent hroom hstored))
    | ok cont =>
      dsimp only
      split_ifs with hflush
      · simp only [shouldFlushOnSize, List.length_append, List.length_singleton,
          Bool.and_eq_true, decide_eq_true_eq, Bool.not_eq_true', Option.isSome_eq_false_iff,
          Option.isNone_iff_eq_none] at hflush
        obtain ⟨hsize, rfl⟩ := hflush
        split
        · rename_i hnil
          simp at hnil
        · rw [(flush_clean _ _ _).2, Unreadable, hmemory, hcache]
          constructor
          · rintro hread (⟨_, _, _, herror⟩ | ⟨_, _, _, _, _, hblob⟩)
            · rw [hstored] at herror; cases herror
            · exact hread hblob
          · exact fun hnot hblob => hnot (.sizeFlush hbatch hevent hroom hstored hsize hblob)
      · refine iff_of_true rfl ?_
        rintro (⟨_, _, _, herror⟩ | ⟨hbatch', _, _, hnone, hsize, _⟩)
        · rw [hstored] at herror; cases herror
        · cases hbatch.symm.trans hbatch'
          cases hstored.symm.trans hnone
          exact hflush (by simpa [shouldFlushOnSize] using hsize)

theorem onTtl_clean_iff (micros : Int) :
    (d.onTtl py key micros s w).Clean ↔ ¬ d.ActsFirst s (.onTtl micros w) := by
  unfold onTtl
  cases hstored : d.schema.migrateContinuation s.continuation with
  | error e =>
    refine iff_of_true (Exit.clean_nil _) ?_
    rintro (_ | _ | ⟨hcont, _, _⟩)
    rw [hstored] at hcont
    cases hcont
  | ok cont =>
    have hhook : (if d.onExpire then d.flushExpiring s w else none).isSome ↔
        d.onExpire = true ∧ d.HookRaises s w := by
      rw [← flushExpiring_isSome_iff]
      cases d.onExpire <;> simp
    dsimp only
    cases cont with
    | none =>
      -- Nothing is emitted before the hook.
      refine iff_of_true ?_ ?_
      · split
        · exact Exit.clean_nil _
        · exact Exit.clean_of_ok rfl
      · rintro (_ | _ | ⟨hcont, _, _⟩)
        rw [hstored] at hcont
        cases hcont
    | some cont =>
      rw [Exit.clean_after ⟨errorTrace py key cont.seq (firedAtMs micros)
        reasonTtlWipedSuspension "" (some roleTimer), by simp [wipedSuspension], rfl⟩]
      constructor
      · rintro hok (_ | _ | ⟨_, honExpire, hraises⟩)
        obtain ⟨e, he⟩ := Option.isSome_iff_exists.mp (hhook.mpr ⟨honExpire, hraises⟩)
        rw [he] at hok
        cases hok
      · intro hnot
        have hnone : (if d.onExpire then d.flushExpiring s w else none) = none := by
          rw [← Option.not_isSome_iff_eq_none, hhook]
          exact fun h => hnot (.expiry hstored h.1 h.2)
        rw [hnone]

end Clean

/-- **A call that raises has done nothing, unless it acts first.** In every state, whatever the
schema versions of its blobs, a call that raises has emitted no element and touched no cell, bag or
timer, exactly when it is none of these: an event that is buffered before an unmigratable
continuation, or before the unmigratable blobs of the flush it triggers; and the expiry of a
suspended key whose memory cannot be demoted. -/
theorem clean_iff (c : KeyCall) : (d.call py key s c).Clean ↔ ¬ d.ActsFirst s c := by
  cases c with
  | onTtl micros w => exact onTtl_clean_iff micros
  | onFlush w => exact iff_of_true onFlush_clean (by rintro (_ | _ | _))
  | onHitl micros w => exact iff_of_true (onHitl_clean micros) (by rintro (_ | _ | _))
  | process envelope w =>
    -- Only an event that is buffered acts before it may raise.
    have hother (h : envelope.isEvent = false ∨ d.batch = none) :
        ¬ d.ActsFirst s (.process envelope w) := by
      rintro (⟨hbatch, hevent, _, _⟩ | ⟨hbatch, hevent, _, _, _, _⟩) <;>
        · rcases h with h | h
          · rw [h] at hevent; cases hevent
          · rw [h] at hbatch; cases hbatch
    simp only [call, process]
    cases hp : envelope.payload with
    | exportRequest requestId =>
      exact iff_of_true (Exit.clean_of_ok rfl) (hother (.inl (by simp [AgentEnvelope.isEvent, hp])))
    | toolResult result =>
      exact iff_of_true (resume_clean _ _ _ _) (hother (.inl (by simp [AgentEnvelope.isEvent, hp])))
    | approval approval =>
      exact iff_of_true (resume_clean _ _ _ _) (hother (.inl (by simp [AgentEnvelope.isEvent, hp])))
    | externalEvent event =>
      have hevent : envelope.isEvent := by simp [AgentEnvelope.isEvent, hp]
      cases hbatch : d.batch with
      | none => exact iff_of_true (start_clean _ _) (hother (.inr hbatch))
      | some settings => exact buffer_clean_iff hbatch hevent
    | unset =>
      have hevent : envelope.isEvent := by simp [AgentEnvelope.isEvent, hp]
      cases hbatch : d.batch with
      | none => exact iff_of_true (start_clean _ _) (hother (.inr hbatch))
      | some settings => exact buffer_clean_iff hbatch hevent

/-- An agent that takes a note, asks a question and suspends; its memory is demoted on expiry. -/
def demotingAgent : AgentDoFn where
  agent := .perform (.memorySet "note" [1]) fun _ => .perform (.act "ask" "{}") fun _ =>
    .ret .suspend
  longterm := true
  onExpire := true

/-- A suspended key expires while the store is down: the record of the wiped suspension is emitted,
and then the call raises. And an event behind a continuation of a later version is appended and
arms the timers before the call raises. -/
theorem acts_before_raising :
    let down : World := { quietWorld with
      expireRaises := some ⟨.other, "ConnectionError", "ConnectionError()"⟩ }
    let future : KeyState := { continuation := some { stateSchemaVersion := 2 }, seq := 1 }
    (∃ s, (demotingAgent.machine (.ofTable identityTable) [107]).Reachable {} s ∧
      errorsOf (demotingAgent.call (.ofTable identityTable) [107] s
          (.onTtl 9000000000 down)).effects =
        [⟨[107], reasonTtlWipedSuspension, "seq=0,deadline_ms=3601000", 9000000⟩] ∧
      ¬ (demotingAgent.call (.ofTable identityTable) [107] s (.onTtl 9000000000 down)).Clean) ∧
    ¬ (hurriedAgent.call (.ofTable identityTable) [107] future (eventAt 1000 1)).Clean := by
  intro down future
  refine ⟨⟨_, (Machine.Reachable.refl _).tail (a := eventAt 1000 1) (call_step ?_), ?_, ?_⟩, ?_⟩
  all_goals decide

end AgentDoFn

end BeamAgents
