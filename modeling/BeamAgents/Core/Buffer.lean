import BeamAgents.Core.Suspensions

/-!
# What a call does to the buffer

Under adaptive batching, a second inversion of the four entry points, which tells the quiet calls
apart: an event is shed with a record, or buffered; a flush commits, fails with a record for each
event, or is declined; a wipe drops the buffer; a suspension that ends re-arms the flush timer; any
other call has nothing to do with the buffer.

## Main definitions

* `Effect.apart`: effects that leave the buffer, the flush mark and a live suspension alone.
* `AgentDoFn.Taken`, `AgentDoFn.BufferShape`: what a call did.

## Main results

* `AgentDoFn.call_bufferShape`: the inversion.
-/

namespace BeamAgents

/-- An effect on neither the buffer nor the flush mark, which neither ends a suspension nor counts
an activation. -/
def Effect.apart : Effect → Bool
  | .addBatch _ | .clearBatch | .setFlush _ | .clearFlush | .clearContinuation => false
  | .incr counter _ => counter ≠ .activations
  | _ => true

/-- Effects apart from the buffer only. -/
def Apart (es : List Effect) : Prop := ∀ e ∈ es, e.apart = true

section Apart

variable {es fs : List Effect} {e : Effect} {s : KeyState}

@[simp] theorem Apart.nil : Apart [] := by simp [Apart]

@[simp] theorem apart_cons : Apart (e :: es) ↔ e.apart = true ∧ Apart es := by simp [Apart]

@[simp] theorem apart_append : Apart (es ++ fs) ↔ Apart es ∧ Apart fs := by
  simp [Apart, or_imp, forall_and]

/-- Effects apart leave the buffer and the flush mark as they were. -/
theorem Apart.applyAll (h : Apart es) :
    (s.applyAll es).batch = s.batch ∧ (s.applyAll es).flushTimer = s.flushTimer := by
  induction es generalizing s with
  | nil => exact ⟨rfl, rfl⟩
  | cons e es ih =>
    obtain ⟨he, hes⟩ := apart_cons.mp h
    have hkept : (s.apply e).batch = s.batch ∧ (s.apply e).flushTimer = s.flushTimer := by
      cases e <;> first | exact ⟨rfl, rfl⟩ | cases he
    obtain ⟨hbatch, hflush⟩ := ih (s := s.apply e) hes
    exact ⟨hbatch.trans hkept.1, hflush.trans hkept.2⟩

/-- A continuation that is stored before is stored after. -/
theorem Apart.continuation (h : Apart es) (hnone : (s.applyAll es).continuation = none) :
    s.continuation = none := by
  induction es generalizing s with
  | nil => exact hnone
  | cons e es ih =>
    obtain ⟨he, hes⟩ := apart_cons.mp h
    have hkept : (s.apply e).continuation = none := ih hes hnone
    cases e <;> first | exact hkept | exact absurd he Bool.false_ne_true | cases hkept

/-- Effects apart count no activation. -/
theorem Apart.activationsOf (h : Apart es) : activationsOf es = 0 := by
  refine List.countP_eq_zero.mpr fun e he hcounted => ?_
  have happart := h e he
  cases e with
  | incr counter n =>
    have hcounter : counter ≠ .activations := by simpa [Effect.apart] using happart
    cases counter <;> first | exact hcounter rfl | cases hcounted
  | _ => cases hcounted

end Apart

section ApartParts

variable (py : PyLib) (key : Bytes)

theorem apart_deadLetter (reason detail : String) (t : Int) :
    Apart (deadLetter key reason detail t) := by
  unfold deadLetter
  split_ifs <;> simp [Effect.apart]

theorem apart_activationFailure (seq : ℕ) (now : Int) (failure : ActivationFailure) :
    Apart (activationFailure py key seq now failure) := by
  cases failure <;>
    simp [activationFailure, failedActivation, apart_deadLetter, errorTrace, Effect.apart]

theorem apart_refusedResume (now : Int) (intentId : String) (cont : Option Continuation)
    (detail : AdmissionDetail) (s : KeyState) :
    Apart (AgentDoFn.refusedResume py key now intentId cont detail s) := by
  simp [AgentDoFn.refusedResume, apart_deadLetter, errorTrace, Effect.apart]

end ApartParts

/-- The call hands over no event, flushes nothing and wipes nothing: an answer, an export request
or a fire of the HITL timer. -/
def KeyCall.aside : KeyCall → Bool
  | .process envelope _ => !envelope.isEvent
  | .onHitl .. => true
  | .onTtl .. | .onFlush _ => false

namespace AgentDoFn

variable (d : AgentDoFn) (py : PyLib) (key : Bytes) (s : KeyState)

/-- What comes before a flush: nothing when the timer fires, and otherwise the event that triggers
it is buffered. -/
inductive Taken : KeyCall → World → List Effect → Prop
  | timer {w} : Taken (.onFlush w) w []
  | event {envelope settings w} (hbatch : d.batch = some settings) (hevent : envelope.isEvent)
      (hroom : bufferIsFull s.batch.length settings.maxBufferedEvents = false) :
      Taken (.process envelope w) w (d.bufferEffects envelope settings s w)

/-- What a call did in the state `s`. -/
inductive BufferShape : KeyCall → List Effect → Prop
  /-- The buffer is full, and the event is shed. -/
  | shed {envelope settings w} (hbatch : d.batch = some settings) (hevent : envelope.isEvent)
      (hfull : bufferIsFull s.batch.length settings.maxBufferedEvents = true) :
      BufferShape (.process envelope w) (deadLetter key reasonBatchOverflow
        s!"buffered={s.batch.length},cap={settings.maxBufferedEvents}" envelope.eventTimeMs)
  /-- The event is only buffered. -/
  | deferred {envelope settings w} (hbatch : d.batch = some settings) (hevent : envelope.isEvent)
      (hroom : bufferIsFull s.batch.length settings.maxBufferedEvents = false) :
      BufferShape (.process envelope w) (d.bufferEffects envelope settings s w)
  /-- The timer finds nothing to flush, or a suspension. -/
  | declined {w} (hdeclined : s.batch = [] ∨
      ∃ cont, d.schema.migrateContinuation s.continuation = .ok (some cont)) :
      BufferShape (.onFlush w) []
  /-- A flush whose activation fails. -/
  | failed {c w pre first rest seq now batchDetail failure} (htaken : d.Taken s c w pre)
      (hbuffer : (s.applyAll pre).batch = first :: rest) :
      BufferShape c (pre ++ sampleActivation w ::
        flushFailure py key seq now (first :: rest) batchDetail failure)
  /-- A flush that commits. -/
  | flushed {c w pre size trigger input result es} (htaken : d.Taken s c w pre)
      (hact : d.Activates key (s.applyAll pre) c w (.flush size trigger) input)
      (hresult : d.activate py w input = .ok result)
      (hes : es = sampleActivation w ::
        d.commit (s.applyAll pre) w result input.nowMs (.flush size trigger)) :
      BufferShape c (pre ++ es)
  /-- A resume that commits. -/
  | resumed {envelope w input result es}
      (hact : d.Activates key s (.process envelope w) w .resume input)
      (hresult : d.activate py w input = .ok result)
      (hes : es = sampleActivation w :: d.commit s w result input.nowMs .resume) :
      BufferShape (.process envelope w) es
  /-- A suspension that the HITL timer ends. -/
  | ended {micros w cont route detail} :
      BufferShape (.onHitl micros w)
        (d.endSuspension py key cont (firedAtMs micros) route detail s w)
  | wiped {micros w cont} :
      BufferShape (.onTtl micros w) (wipedSuspension py key (firedAtMs micros) cont ++
        (d.wipedBatch key (firedAtMs micros) s ++ d.wipe))
  | apart {c es} (haside : c.aside = true) (h : Apart es) : BufferShape c es

section Shapes

variable {d py key s} {c : KeyCall} {w : World} {effects : List Effect}

theorem Taken.buffered {pre : List Effect} (h : d.Taken s c w pre) :
    d.Buffered s c pre := by
  cases h with
  | timer => exact .no
  | event hbatch hevent hroom => exact .yes hbatch hevent hroom

/-- A flush of the buffer that is left once the event is taken. -/
theorem flush_bufferShape {pre : List Effect} {first : AgentEnvelope} {rest : List AgentEnvelope}
    {trigger : String} (hbatch : d.batch.isSome) (htaken : d.Taken s c w pre)
    (hcont : d.schema.migrateContinuation (s.applyAll pre).continuation = .ok none)
    (hbuffer : (s.applyAll pre).batch = first :: rest)
    (h : d.flush py key first rest trigger (s.applyAll pre) w = ⟨effects, none⟩) :
    d.BufferShape py key s c (pre ++ effects) := by
  have hcall : c = .onFlush w ∨ ∃ envelope, c = .process envelope w ∧ envelope.isEvent := by
    cases htaken with
    | timer => exact .inl rfl
    | event hbatch hevent hroom => exact .inr ⟨_, rfl, hevent⟩
  unfold flush at h
  dsimp only at h
  split at h
  · cases h
  rename_i memoryBlob hmemory
  split at h
  · cases h
  rename_i cacheBlob hcache
  split at h
  · cases h
    exact .failed htaken hbuffer
  · rename_i result hresult
    cases h
    exact .flushed htaken (.flush hbatch hcont hmemory hcache hbuffer hcall) hresult rfl

theorem resume_bufferShape {envelope : AgentEnvelope} {intentId : String}
    (hanswers : envelope.answers = some intentId)
    (h : d.resume py key envelope.eventTimeMs intentId envelope.answerResult
      envelope.answerApproval s w = ⟨effects, none⟩) :
    d.BufferShape py key s (.process envelope w) effects := by
  have haside : (KeyCall.process envelope w).aside = true := by
    simp [KeyCall.aside, AgentEnvelope.not_isEvent hanswers]
  unfold resume at h
  split at h
  · cases h
  · cases h
    exact .apart haside (apart_refusedResume py key _ _ _ _ _)
  rename_i cont hcont
  split at h
  · cases h
    exact .apart haside (apart_refusedResume py key _ _ _ _ _)
  rename_i hadmission
  unfold resumeAdmitted at h
  split at h
  · cases h
  rename_i memoryBlob hmemory
  split at h
  · cases h
  rename_i cacheBlob hcache
  split at h
  · cases h
    exact .apart haside (apart_cons.mpr ⟨rfl, apart_activationFailure py key _ _ _⟩)
  · rename_i result hresult
    cases h
    exact .resumed (.resume hanswers hcont hadmission hmemory hcache) hresult rfl

theorem buffer_bufferShape {settings : BatchSettings} {envelope : AgentEnvelope}
    (hbatch : d.batch = some settings) (hevent : envelope.isEvent)
    (h : d.buffer py settings key envelope s w = ⟨effects, none⟩) :
    d.BufferShape py key s (.process envelope w) effects := by
  unfold buffer at h
  split_ifs at h with hfull
  · cases h
    exact .shed hbatch hevent hfull
  · have hroom := Bool.eq_false_iff.mpr hfull
    obtain ⟨es, hx, rfl⟩ := Exit.after_eq_ok h
    split at hx
    · cases hx
    rename_i cont hcont
    split_ifs at hx with hflush
    · -- A size trigger fires only while no continuation is live.
      have hnone : cont = none := by
        simpa [shouldFlushOnSize] using (Bool.and_eq_true_iff.mp hflush).2
      subst hnone
      split at hx
      · rename_i hnil
        simp at hnil
      · rename_i first rest hbuffer
        refine flush_bufferShape (by simp [hbatch]) (.event hbatch hevent hroom) hcont ?_ hx
        rw [applyAll_bufferEffects, ← hbuffer]
    · cases hx
      rw [List.append_nil]
      exact .deferred hbatch hevent hroom

theorem onFlush_bufferShape (hbatch : d.batch.isSome)
    (h : d.onFlush py key s w = ⟨effects, none⟩) :
    d.BufferShape py key s (.onFlush w) effects := by
  unfold onFlush at h
  rw [if_neg (by simpa [← Option.isSome_iff_ne_none] using hbatch)] at h
  split at h
  · cases h
  rename_i cont hcont
  split_ifs at h with hflush
  · cases h
    refine .declined ?_
    cases cont with
    | none => exact .inl (by simpa [shouldFlushOnTimer] using hflush)
    | some cont => exact .inr ⟨cont, hcont⟩
  · have hnone : cont = none := by
      simp only [shouldFlushOnTimer, Bool.not_eq_true, Bool.not_eq_false',
        Bool.and_eq_true] at hflush
      simpa using hflush.2
    subst hnone
    split at h
    · rename_i hnil
      cases h
      exact .declined (.inl hnil)
    · rename_i first rest hbuffer
      exact flush_bufferShape hbatch .timer hcont hbuffer h

/-- **What a call does to the buffer.** Under adaptive batching, a call that does not raise has one
of the shapes. -/
theorem call_bufferShape (hbatch : d.batch.isSome) (h : d.call py key s c = ⟨effects, none⟩) :
    d.BufferShape py key s c effects := by
  obtain ⟨settings, hsettings⟩ := Option.isSome_iff_exists.mp hbatch
  cases c with
  | onFlush w => exact onFlush_bufferShape hbatch h
  | onTtl micros w =>
    simp only [call, onTtl] at h
    split at h
    · cases h
    obtain ⟨es, hx, rfl⟩ := Exit.after_eq_ok h
    split at hx
    · cases hx
    · cases hx
      exact .wiped
  | onHitl micros w =>
    simp only [call, onHitl] at h
    split at h
    · cases h
    · cases h
      exact .apart rfl .nil
    · split_ifs at h
      · cases h
        exact .apart rfl .nil
      · split at h <;> cases h
        · exact .apart rfl (by simp [escalate, Effect.apart])
        · exact .ended
  | process envelope w =>
    simp only [call, process] at h
    cases hp : envelope.payload with
    | exportRequest requestId =>
      simp only [hp] at h
      cases h
      exact .apart (by simp [KeyCall.aside, AgentEnvelope.isEvent, hp]) (by simp [Effect.apart])
    | toolResult result =>
      have hanswers : envelope.answers = some result.intentId := by
        simp [AgentEnvelope.answers, hp]
      refine resume_bufferShape hanswers ?_
      simpa only [hp, AgentEnvelope.answerResult, AgentEnvelope.answerApproval] using h
    | approval approval =>
      have hanswers : envelope.answers = some approval.intentId := by
        simp [AgentEnvelope.answers, hp]
      refine resume_bufferShape hanswers ?_
      simpa only [hp, AgentEnvelope.answerResult, AgentEnvelope.answerApproval] using h
    | externalEvent event =>
      have hevent : envelope.isEvent := by simp [AgentEnvelope.isEvent, hp]
      simp only [hp, hsettings] at h
      exact buffer_bufferShape hsettings hevent h
    | unset =>
      have hevent : envelope.isEvent := by simp [AgentEnvelope.isEvent, hp]
      simp only [hp, hsettings] at h
      exact buffer_bufferShape hsettings hevent h

end Shapes

end AgentDoFn

end BeamAgents
