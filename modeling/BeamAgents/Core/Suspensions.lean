import BeamAgents.Core.Identity

/-!
# What becomes of a suspension

A committed suspension is a stored continuation with its pending intents. Three laws are stated
for every run of one key: that a suspension leaves the state only with a record of it, that the
working-memory mark lies past its deadline, and that it stays answerable while answers are
outstanding. Each holds of the runs whose steps all meet a condition, and only of those: the
condition names the calls on which the transform breaks the law.

## Main definitions

* `AgentDoFn.Accounted`: what may become of a suspension in one call.
* `AgentDoFn.CommitsFresh`: a fresh event that commits under `BatchPolicy.NONE`.
* `AgentDoFn.TtlCovers`: the mark of the TTL timer lies past the deadline.
* `AgentDoFn.StaysAnswerable`: a partial answer keeps the other intents pending.
* `AgentDoFn.ForgetsPending`: a partial answer after which the activation suspends again.

## Main results

* `AgentDoFn.run_accounted_iff`, `AgentDoFn.run_ttlCovers_iff`, `AgentDoFn.run_staysAnswerable_iff`.
-/

namespace BeamAgents

open Transition

namespace AgentDoFn

/-! ### The laws -/

/-- What may become of the suspension `cont`, stored in `s`, in one call: it is kept with its
pending intents, escalated, resumed by a committed activation that answers one of its intents,
ended by a HITL timeout that emits the `Deny` output or the dead letter of the `Drop`, or wiped
with the record of the wiped suspension. -/
inductive Accounted (d : AgentDoFn) (key : Bytes) (s : KeyState) (cont : Continuation) :
    KeyCall → KeyState → List Effect → Prop
  | kept {c s' os} (hcont : s'.continuation = some cont) (hpending : s'.pending = s.pending) :
      Accounted d key s cont c s' os
  | escalated {c s' os intent} (hcont : s'.continuation = some (AgentDoFn.escalated cont intent))
      (hpending : s'.pending = s.pending ++ [intent]) (hemit : intent ∈ intentsOf os) :
      Accounted d key s cont c s' os
  | resumed {envelope w intentId s' os} (hanswers : envelope.answers = some intentId)
      (hpending : intentId ∈ cont.pendingIntentIds) (hcommit : activationsOf os = 1) :
      Accounted d key s cont (.process envelope w) s' os
  | denied {micros w output detail s' os} (hdue : cont.deadlineMs ≤ firedAtMs micros)
      (hroute : d.routeTimeout key cont (firedAtMs micros) = (.deny output, detail))
      (hemit : .emit (.main output) ∈ os) : Accounted d key s cont (.onHitl micros w) s' os
  | dropped {micros w reason detail s' os} (hdue : cont.deadlineMs ≤ firedAtMs micros)
      (hroute : d.routeTimeout key cont (firedAtMs micros) = (.drop reason, detail))
      (hemit : .emit (.errors ⟨key, reason, detail, firedAtMs micros⟩) ∈ os) :
      Accounted d key s cont (.onHitl micros w) s' os
  | wiped {micros w s' os}
      (hemit : .emit (.errors ⟨key, reasonTtlWipedSuspension,
        s!"seq={cont.seq},deadline_ms={cont.deadlineMs}", firedAtMs micros⟩) ∈ os) :
      Accounted d key s cont (.onTtl micros w) s' os

/-- The call is a fresh event whose activation commits: the policy is `NONE`, the blobs migrate,
and the activation comes to a result. -/
def CommitsFresh (d : AgentDoFn) (py : PyLib) (key : Bytes) (s : KeyState) : KeyCall → Prop
  | .process envelope w => ∃ input result,
      d.Activates key s (.process envelope w) w .start input ∧ d.activate py w input = .ok result
  | _ => False

/-- The last-set mark of the TTL timer lies `ttl_ms` past the deadline of the suspension. -/
def TtlCovers (d : AgentDoFn) (s : KeyState) : Prop :=
  ∀ cont ∈ s.continuation, ∃ mark ∈ s.ttlTimer, cont.deadlineMs + d.ttlMs ≤ mark

instance (d : AgentDoFn) (s : KeyState) : Decidable (d.TtlCovers s) :=
  inferInstanceAs (Decidable (∀ cont ∈ s.continuation, ∃ mark ∈ s.ttlTimer,
    cont.deadlineMs + d.ttlMs ≤ mark))

/-- The call buffers an event, under `ADAPTIVE`, whose event time is before the deadline of a
stored continuation. -/
def BuffersEarly (d : AgentDoFn) (s : KeyState) : KeyCall → Prop
  | .process envelope _ => envelope.isEvent ∧ ∃ settings, d.batch = some settings ∧
      bufferIsFull s.batch.length settings.maxBufferedEvents = false ∧
      ∃ cont ∈ s.continuation, envelope.eventTimeMs < cont.deadlineMs
  | _ => False

/-- A committed resume that suspends again without staging an intent keeps the other pending
intents that have not expired: each is still in `PENDING` and pended by the new continuation. -/
def StaysAnswerable (s s' : KeyState) (os : List Effect) : KeyCall → Prop
  | .process envelope _ =>
    ∀ intentId ∈ envelope.answers, ∀ cont ∈ s.continuation, ∀ cont' ∈ s'.continuation,
      activationsOf os = 1 → intentsOf os = [] → ∀ i ∈ s.pending,
        i.intentId ∈ cont.pendingIntentIds → i.intentId ≠ intentId →
        intentExpired i envelope.eventTimeMs = false →
        i ∈ s'.pending ∧ i.intentId ∈ cont'.pendingIntentIds
  | _ => True

instance (s s' : KeyState) (os : List Effect) :
    (c : KeyCall) → Decidable (StaysAnswerable s s' os c)
  | .process envelope _ => inferInstanceAs (Decidable (∀ intentId ∈ envelope.answers,
      ∀ cont ∈ s.continuation, ∀ cont' ∈ s'.continuation, activationsOf os = 1 →
        intentsOf os = [] → ∀ i ∈ s.pending, i.intentId ∈ cont.pendingIntentIds →
          i.intentId ≠ intentId → intentExpired i envelope.eventTimeMs = false →
          i ∈ s'.pending ∧ i.intentId ∈ cont'.pendingIntentIds))
  | .onTtl .. | .onFlush _ | .onHitl .. => instDecidableTrue

/-- The call resumes an activation that suspends again without staging an intent, while another
pending intent has not expired. -/
def ForgetsPending (d : AgentDoFn) (py : PyLib) (key : Bytes) (s : KeyState) : KeyCall → Prop
  | .process envelope w => ∃ input result,
      d.Activates key s (.process envelope w) w .resume input ∧
      d.activate py w input = .ok result ∧ result.status = .suspended ∧ result.intents = [] ∧
      ∃ cont ∈ s.continuation, ∃ i ∈ s.pending, i.intentId ∈ cont.pendingIntentIds ∧
        envelope.answers ≠ some i.intentId ∧ intentExpired i envelope.eventTimeMs = false
  | _ => False

variable {d : AgentDoFn} {py : PyLib} {key : Bytes} {s s' : KeyState} {c : KeyCall}
  {os : List Effect}

/-! ### Stored continuations -/

/-- A stored continuation is current and older than the counter. -/
structure Sound (d : AgentDoFn) (s : KeyState) : Prop where
  current : d.Current s
  older : ∀ cont ∈ s.continuation, cont.seq < s.seq

theorem Sound.empty : d.Sound {} := ⟨.empty, by simp⟩

theorem Sound.of_core (h : d.Sound s) (hcore : s'.core = s.core) : d.Sound s' := by
  have hseq : s'.seq = s.seq := congrArg KeyCore.seq hcore
  have hcont : s'.continuation = s.continuation := congrArg KeyCore.continuation hcore
  exact ⟨h.current.of_core hcore, by rw [hseq, hcont]; exact h.older⟩

/-- An activation is given the current `SEQ`, or that of a suspension older than it. -/
theorem Sound.activates_seq (h : d.Sound s) {w : World} {caller : CommitOf}
    {input : ActivationInput} (hact : d.Activates key s c w caller input) : input.seq ≤ s.seq := by
  cases hact with
  | start => exact le_rfl
  | flush => exact le_rfl
  | resume hanswers hcont => exact (h.older _ (h.current.stored hcont)).le

theorem Sound.shape (h : d.Sound s) (hs : d.Shape py key s c os) : d.Sound (s.applyAll os) := by
  refine ⟨h.current.shape hs, ?_⟩
  cases hs with
  | quiet hq => exact (h.of_core hq.applyAll.1).older
  | commit hact hresult hes =>
    obtain ⟨cursor, hv⟩ := activate_valid hresult
    rw [hes, applyAll_sampleActivation, applyAll_commit]
    intro cont hcont
    rw [hv.contSeq cont hcont]
    exact Nat.lt_succ_of_le (h.activates_seq hact)
  | @escalate micros w cont toolName argsJson timeoutMs detail hcont hdue hroute =>
    have holder := h.older cont (h.current.stored hcont)
    rintro cont' hcont'
    cases hcont'
    exact holder
  | ended hcont hdue hroute hends =>
    rw [applyAll_endSuspension]
    simp
  | wiped hcont =>
    rw [KeyState.applyAll_append, KeyState.applyAll_append, applyAll_wipe]
    simp

theorem Sound.step (h : d.Sound s) (hs : (d.machine py key).step s c s' os) : d.Sound s' := by
  obtain ⟨hcall, rfl⟩ := hs
  obtain ⟨pre, es, rfl, hpre, hshape⟩ := call_shape hcall
  rw [KeyState.applyAll_append]
  exact (h.of_core hpre.core).shape hshape

/-- A fresh activation that comes to a result is committed. -/
theorem start_call {envelope : AgentEnvelope} {w : World} {input : ActivationInput}
    {result : ActivationResult} (hact : d.Activates key s (.process envelope w) w .start input)
    (hresult : d.activate py w input = .ok result) :
    d.call py key s (.process envelope w) =
      ⟨sampleActivation w :: d.commit s w result input.nowMs .start, none⟩ := by
  cases hact with
  | start hbatch hevent hmemory hcache =>
    have hstart : d.start py key envelope.eventTimeMs envelope.externalEvent s w =
        ⟨sampleActivation w :: d.commit s w result envelope.eventTimeMs .start, none⟩ := by
      simp only [start, hmemory, hcache, hresult]
    cases hp : envelope.payload <;> simp_all [call, process, AgentEnvelope.isEvent, startInput]

/-- An admitted resume that comes to a result is committed. -/
theorem resume_call {envelope : AgentEnvelope} {w : World} {input : ActivationInput}
    {result : ActivationResult} (hact : d.Activates key s (.process envelope w) w .resume input)
    (hresult : d.activate py w input = .ok result) :
    d.call py key s (.process envelope w) =
      ⟨sampleActivation w :: d.commit s w result input.nowMs .resume, none⟩ := by
  cases hact with
  | @resume _ _ cont intentId memoryBlob cacheBlob hanswers hcont hadmission hmemory hcache =>
    have hresume : d.resume py key envelope.eventTimeMs intentId envelope.answerResult
        envelope.answerApproval s w =
        ⟨sampleActivation w :: d.commit s w result envelope.eventTimeMs .resume, none⟩ := by
      simp only [resume, hcont, hadmission, resumeAdmitted, hmemory, hcache, hresult]
    cases hp : envelope.payload <;>
      simp_all [call, process, AgentEnvelope.answers, AgentEnvelope.answerResult,
        AgentEnvelope.answerApproval, resumeInput]

/-! ### No suspension is lost silently -/

theorem Accounted.of_core {cont : Continuation} (hcont : s.continuation = some cont)
    (hcore : s'.core = s.core) : Accounted d key s cont c s' os :=
  .kept ((congrArg KeyCore.continuation hcore).trans hcont) (congrArg KeyCore.pending hcore)

/-- Buffering an event first makes no difference to what became of the suspension. -/
theorem Accounted.of_buffered {cont : Continuation} {pre : List Effect}
    (hpre : d.Buffered s c pre) (h : Accounted d key (s.applyAll pre) cont c s' os) :
    Accounted d key s cont c s' (pre ++ os) := by
  have hpending : (s.applyAll pre).pending = s.pending := congrArg KeyCore.pending hpre.core
  have hactivations : activationsOf pre = 0 := activationsOf_of_issue hpre.issue
  cases h with
  | kept hcont hkept => exact .kept hcont (hkept.trans hpending)
  | escalated hcont hescalated hemit =>
    rw [hpending] at hescalated
    exact .escalated hcont hescalated (by simp [hemit])
  | resumed hanswers hid hcommit =>
    refine .resumed hanswers hid ?_
    rw [activationsOf, List.countP_append]
    exact (congrArg₂ (· + ·) hactivations hcommit).trans (Nat.zero_add 1)
  | denied hdue hroute hemit => exact .denied hdue hroute (List.mem_append_right _ hemit)
  | dropped hdue hroute hemit => exact .dropped hdue hroute (List.mem_append_right _ hemit)
  | wiped hemit => exact .wiped (List.mem_append_right _ hemit)

private theorem emit_mem_endSuspension {cont : Continuation} {fired : Int} {route : Route}
    {detail : String} {w : World} {e : Effect} (h : e ∈ timeoutRecord key fired route detail) :
    e ∈ d.endSuspension py key cont fired route detail s w := by
  simp only [endSuspension, List.mem_append]
  exact .inl (.inr h)

/-- A call of a shape accounts for the suspension, unless it commits a fresh event. -/
theorem Shape.accounted (hs : d.Sound s) {cont : Continuation} (hcont : s.continuation = some cont)
    (hfresh : ¬ d.CommitsFresh py key s c) (h : d.Shape py key s c os) :
    Accounted d key s cont c (s.applyAll os) os := by
  -- What the call reads as the continuation is `cont`.
  have hread {cont' : Continuation}
      (h : d.schema.migrateContinuation s.continuation = .ok (some cont')) : cont' = cont :=
    Option.some.inj ((hs.current.stored h).symm.trans hcont)
  cases h with
  | quiet hq => exact .of_core hcont hq.applyAll.1
  | commit hact hresult hes =>
    subst hes
    cases hact with
    | start hbatch hevent hmemory hcache =>
      exact absurd ⟨_, _, .start hbatch hevent hmemory hcache, hresult⟩ hfresh
    | flush hbatch hnone => rw [migrateStored_eq_ok_none hnone] at hcont; cases hcont
    | resume hanswers hstored hadmission hmemory hcache =>
      obtain rfl := hread hstored
      exact .resumed hanswers (admissionFailure_eq_none.mp hadmission).1
        (activationsOf_commit _ .resume hresult)
  | escalate hstored hdue hroute =>
    obtain rfl := hread hstored
    exact .escalated rfl rfl (List.mem_singleton_self _)
  | @ended micros w cont' route detail hstored hdue hroute hends =>
    obtain rfl := hread hstored
    cases route with
    | deny output => exact .denied hdue hroute (emit_mem_endSuspension (List.mem_singleton_self _))
    | drop reason =>
      exact .dropped hdue hroute (emit_mem_endSuspension (by simp [timeoutRecord, deadLetter]))
    | escalate toolName argsJson timeoutMs => cases hends
  | @wiped micros w stored hstored =>
    have hsome : d.schema.migrateContinuation s.continuation = .ok (some cont) := by
      rw [hcont]
      exact d.schema.migrateContinuation_current (hs.current cont hcont)
    obtain rfl : stored = some cont := Except.ok.inj (hstored.symm.trans hsome)
    exact .wiped (by simp [wipedSuspension, deadLetter])

/-- A call accounts for the suspension exactly when it does not commit a fresh event. -/
theorem step_accounted_iff (hs : d.Sound s) {cont : Continuation}
    (hcont : s.continuation = some cont) (hstep : (d.machine py key).step s c s' os) :
    Accounted d key s cont c s' os ↔ ¬ d.CommitsFresh py key s c := by
  obtain ⟨hcall, rfl⟩ := hstep
  constructor
  · intro hacc hfresh
    match c, hfresh with
    | .process envelope w, ⟨input, result, hact, hresult⟩ =>
      -- The fresh activation has committed under the current `SEQ`.
      rw [start_call hact hresult] at hcall
      cases hcall
      obtain ⟨cursor, hv⟩ := activate_valid hresult
      have hstate : (s.applyAll (sampleActivation w ::
          d.commit s w result input.nowMs .start)).continuation = result.continuation := by
        rw [applyAll_sampleActivation, applyAll_commit]
      have hseq : ∀ cont' ∈ result.continuation, cont'.seq ≠ cont.seq := by
        intro cont' hcont' heq
        have holder := hs.older cont hcont
        rw [← heq, hv.contSeq cont' hcont'] at holder
        cases hact with
        | start => exact absurd holder (lt_irrefl _)
      cases hacc with
      | kept hkept _ => exact hseq cont (hstate.symm.trans hkept) rfl
      | escalated hescalated _ _ => exact hseq _ (hstate.symm.trans hescalated) rfl
      | resumed hanswers _ _ =>
        cases hact with
        | start hbatch hevent =>
          rw [AgentEnvelope.not_isEvent hanswers] at hevent
          cases hevent
  · intro hfresh
    obtain ⟨pre, es, rfl, hpre, hshape⟩ := call_shape hcall
    have hcore := hpre.core
    rw [KeyState.applyAll_append]
    refine .of_buffered hpre (hshape.accounted (hs.of_core hcore)
      ((congrArg KeyCore.continuation hcore).trans hcont) ?_)
    -- An event is buffered under `ADAPTIVE` only.
    cases hpre with
    | no => exact hfresh
    | yes hbatch hevent hroom =>
      rintro ⟨input, result, hact, -⟩
      cases hact with
      | start hnone => rw [hbatch] at hnone; cases hnone

/-- **No suspension is lost silently, unless a fresh event commits over it.** The runs of one key
in which every call accounts for the suspension it finds are the runs in which no fresh event
commits under `BatchPolicy.NONE` while a continuation is stored. -/
theorem run_accounted_iff (d : AgentDoFn) (py : PyLib) (key : Bytes) {calls : List KeyCall}
    {effects : List Effect} {s : KeyState} :
    ((d.machine py key).guarded fun s c =>
        s.continuation.isSome → ¬ d.CommitsFresh py key s c).Run {} calls effects s ↔
      ((d.machine py key).restrict fun s c s' os =>
        ∀ cont ∈ s.continuation, Accounted d key s cont c s' os).Run {} calls effects s := by
  refine Machine.Run.guarded_iff_restrict (I := d.Sound) .empty (fun hs _ => hs.step) ?_
  intro s c s' os hs hstep
  cases hcont : s.continuation with
  | none => simp
  | some cont =>
    simp only [Option.isSome_some, true_imp_iff, Option.mem_def, Option.some.injEq, forall_eq']
    exact (step_accounted_iff hs hcont hstep).symm

/-- An event that leaves no continuation does not account for the suspension it found. -/
theorem not_accounted_of_event {envelope : AgentEnvelope} {w : World} {cont : Continuation}
    (hevent : envelope.isEvent) (hnone : s'.continuation = none) :
    ¬ Accounted d key s cont (.process envelope w) s' os := by
  intro h
  cases h with
  | kept hcont | escalated hcont => rw [hnone] at hcont; cases hcont
  | resumed hanswers => rw [AgentEnvelope.not_isEvent hanswers] at hevent; cases hevent

/-- An agent that asks a question and suspends on the event `[1]`, and completes on any other. -/
def chattyAgent : AgentDoFn where
  agent := .read fun ctx =>
    if ctx.event = .inl [1] then .perform (.act "ask" "{}") fun _ => .ret .suspend
    else .ret .complete

/-- The event `[event]` on the key `k`. -/
def eventAt (ms : Int) (event : UInt8) : KeyCall :=
  .process ⟨[107], ms, .externalEvent [event]⟩ quietWorld

/-- The tool result for the intent with this id, on the key `k`. -/
def answerAt (ms : Int) (intentId : String) : KeyCall :=
  .process ⟨[107], ms, .toolResult { intentId := intentId }⟩ quietWorld

/-- A second event clears the suspension of the first: no record, and no way back for the answer. -/
theorem fresh_event_loses :
    let M := chattyAgent.machine (.ofTable identityTable) [107]
    ∃ s cont t u effects effects', M.Reachable {} s ∧ s.continuation = some cont ∧
      M.step s (eventAt 2000 2) t effects ∧ t.continuation = none ∧ t.pending = [] ∧
      errorsOf effects = [] ∧
      ¬ Accounted chattyAgent [107] s cont (eventAt 2000 2) t effects ∧
      M.step t (answerAt 3000 "6509fb29-9e35-5f25-bf85-b7860d49a026") u effects' ∧
      errorsOf effects' = [⟨[107], reasonOrphaned,
        "no_continuation:6509fb29-9e35-5f25-bf85-b7860d49a026", 3000⟩] := by
  intro M
  refine ⟨_, _, _, _, _, _, (Machine.Reachable.refl _).tail (a := eventAt 1000 1) (call_step ?_),
    rfl, call_step ?_, ?_, ?_, ?_, not_accounted_of_event ?_ ?_, call_step ?_, ?_⟩
  all_goals decide

/-! ### The TTL mark of a suspension -/

theorem TtlCovers.empty : d.TtlCovers {} := by simp [TtlCovers]

theorem TtlCovers.of_core (h : d.TtlCovers s) (hcore : s'.core = s.core)
    (httl : s'.ttlTimer = s.ttlTimer) : d.TtlCovers s' := by
  have hcont : s'.continuation = s.continuation := congrArg KeyCore.continuation hcore
  rwa [TtlCovers, hcont, httl]

/-- Whatever the mark was, a commit and an escalation set it past the deadline they store, and the
end of a suspension and a wipe store none: only quiet calls rely on the mark they find. -/
theorem TtlCovers.shape (h : d.TtlCovers s ∨ ¬ Quiet os) (hs : d.Shape py key s c os) :
    d.TtlCovers (s.applyAll os) := by
  cases hs with
  | quiet hq =>
    have hcover := h.resolve_right (not_not_intro hq)
    exact hcover.of_core hq.applyAll.1 hq.applyAll.2
  | @commit _ w caller input result _ hact hresult hes =>
    obtain ⟨cursor, hv⟩ := activate_valid hresult
    rw [hes, applyAll_sampleActivation, applyAll_commit]
    intro cont hcont
    refine ⟨_, rfl, ?_⟩
    have hstatus : result.status = .suspended :=
      hv.status.mpr (Option.isSome_iff_exists.mpr ⟨cont, hcont⟩)
    have hdeadline : result.hitlDeadlineMs = some cont.deadlineMs := by
      have hsome : result.continuation = some cont := hcont
      rw [hv.hitlDeadline, hsome]
      rfl
    simp only [commitTtl, hstatus, hdeadline]
    omega
  | escalate hcont hdue hroute =>
    rintro cont' hcont'
    cases hcont'
    exact ⟨_, rfl, Int.le_refl _⟩
  | ended hcont hdue hroute hends =>
    rw [applyAll_endSuspension]
    simp [TtlCovers]
  | wiped hcont =>
    rw [KeyState.applyAll_append, KeyState.applyAll_append, applyAll_wipe]
    simp [TtlCovers]

/-- The mark that buffering an event sets covers the suspension exactly when the event is not
before its deadline. -/
theorem ttlCovers_buffered {envelope : AgentEnvelope} {settings : BatchSettings} {w : World} :
    d.TtlCovers (s.applyAll (d.bufferEffects envelope settings s w)) ↔
      ∀ cont ∈ s.continuation, cont.deadlineMs ≤ envelope.eventTimeMs := by
  rw [applyAll_bufferEffects]
  refine forall₂_congr fun cont _ => ?_
  simp

/-- While a continuation is stored, an event that is buffered is only buffered. -/
theorem buffer_deferred (h : d.Current s) {cont : Continuation}
    (hcont : s.continuation = some cont) {envelope : AgentEnvelope} {settings : BatchSettings}
    {w : World} (hbatch : d.batch = some settings) (hevent : envelope.isEvent)
    (hroom : bufferIsFull s.batch.length settings.maxBufferedEvents = false) :
    d.call py key s (.process envelope w) = ⟨d.bufferEffects envelope settings s w, none⟩ := by
  have hbuffer : d.buffer py settings key envelope s w =
      ⟨d.bufferEffects envelope settings s w, none⟩ := by
    have hcont' : (s.applyAll (d.bufferEffects envelope settings s w)).continuation =
        some cont := by rw [applyAll_bufferEffects]; exact hcont
    simp [buffer, hroom, hcont', d.schema.migrateContinuation_current (h cont hcont),
      shouldFlushOnSize, Exit.after]
  cases hp : envelope.payload <;> simp_all [call, process, AgentEnvelope.isEvent]

/-- From a covered state, a call leaves a covered state exactly when it does not buffer an event
before the deadline. -/
theorem step_ttlCovers_iff (hs : d.Sound s) (hcover : d.TtlCovers s)
    (hstep : (d.machine py key).step s c s' os) : d.TtlCovers s' ↔ ¬ d.BuffersEarly s c := by
  obtain ⟨hcall, rfl⟩ := hstep
  constructor
  · intro hcover' hearly
    match c, hearly with
    | .process envelope w, ⟨hevent, settings, hbatch, hroom, cont, hcont, hlt⟩ =>
      rw [buffer_deferred hs.current hcont hbatch hevent hroom] at hcall
      cases hcall
      exact absurd (ttlCovers_buffered.mp hcover' cont hcont) (Int.not_le.mpr hlt)
  · intro hearly
    obtain ⟨pre, es, rfl, hpre, hshape⟩ := call_shape hcall
    rw [KeyState.applyAll_append]
    refine TtlCovers.shape (.inl ?_) hshape
    cases hpre with
    | no => exact hcover
    | @yes envelope settings w hbatch hevent hroom =>
      refine ttlCovers_buffered.mpr fun cont hcont => Int.not_lt.mp fun hlt => hearly ?_
      exact ⟨hevent, settings, hbatch, hroom, cont, hcont, hlt⟩

/-- **The state TTL does not preempt a live suspension, unless an event is buffered before its
deadline.** The runs of one key in which the TTL mark covers the stored suspension after every
call are the runs in which no event is buffered that is earlier than the deadline of a stored
continuation. -/
theorem run_ttlCovers_iff (d : AgentDoFn) (py : PyLib) (key : Bytes) {calls : List KeyCall}
    {effects : List Effect} {s : KeyState} :
    ((d.machine py key).guarded fun s c => ¬ d.BuffersEarly s c).Run {} calls effects s ↔
      ((d.machine py key).restrict fun _ _ s' _ => d.TtlCovers s').Run {} calls effects s := by
  refine Machine.Run.guarded_iff_restrict (I := fun s => d.Sound s ∧ d.TtlCovers s)
    ⟨.empty, .empty⟩ (fun hs hcover hstep => ⟨hs.1.step hstep, hcover⟩) ?_
  intro s c s' os hs hstep
  exact (step_ttlCovers_iff hs.1 hs.2 hstep).symm

/-- A pipeline that flushes every event at once while nothing is suspended, and keeps its state for
10 ms. -/
def hurriedAgent : AgentDoFn where
  agent := .perform (.act "ask" "{}") fun _ => .ret .suspend
  ttlMs := 10
  batch := some {
    maxBatchSize := 1, maxWaitMs := 1, maxBufferedEvents := 2
    maxBatchSize_pos := Nat.one_pos, maxWaitMs_pos := Nat.one_pos, maxBatchSize_le := by decide }

/-- An event buffered behind a suspension moves the TTL mark before the deadline, and the timer
wipes the suspension while it is live. -/
theorem buffered_event_preempts :
    let M := hurriedAgent.machine (.ofTable identityTable) [107]
    ∃ s cont t u effects effects', M.Reachable {} s ∧ M.step s (eventAt 2000 2) t effects ∧
      ¬ hurriedAgent.TtlCovers t ∧ t.continuation = some cont ∧ cont.deadlineMs = 3601000 ∧
      t.ttlTimer = some 2010 ∧ M.step t (.onTtl 2010000 quietWorld) u effects' ∧
      u.continuation = none := by
  intro M
  refine ⟨_, _, _, _, _, _, (Machine.Reachable.refl _).tail (a := eventAt 1000 1) (call_step ?_),
    call_step ?_, ?_, rfl, ?_, ?_, call_step ?_, ?_⟩
  all_goals decide

/-! ### Partially answered suspensions -/

/-- A step keeps the outstanding intents answerable exactly when it does not resume an activation
that suspends again with nothing staged while one of them has not expired: the bag that the commit
writes holds the staged intents only. -/
theorem step_staysAnswerable_iff (hstep : (d.machine py key).step s c s' os) :
    StaysAnswerable s s' os c ↔ ¬ d.ForgetsPending py key s c := by
  obtain ⟨hcall, rfl⟩ := hstep
  constructor
  · intro hlaw hforgets
    match c, hforgets with
    | .process envelope w,
        ⟨input, result, hact, hresult, hstatus, hnone, cont, hcont, i, hi, hid, hother, hlive⟩ =>
      rw [resume_call hact hresult] at hcall
      cases hcall
      obtain ⟨cursor, hv⟩ := activate_valid hresult
      obtain ⟨cont', hcont'⟩ := Option.isSome_iff_exists.mp (hv.status.mp hstatus)
      have hcount := activationsOf_commit (s := s) input.nowMs .resume hresult
      have hintents := intentsOf_commit (d := d) (s := s) w result input.nowMs .resume
      cases hact with
      | resume hanswers =>
        have hkept := hlaw _ hanswers cont hcont cont'
          (by rw [applyAll_sampleActivation, applyAll_commit]; exact hcont') hcount
          (hintents.trans hnone) i hi hid (fun heq => hother (heq ▸ hanswers)) hlive
        rw [applyAll_sampleActivation, applyAll_commit, hnone] at hkept
        exact absurd hkept.1 List.not_mem_nil
  · intro hforgets
    cases c with
    | onTtl | onFlush | onHitl => trivial
    | process envelope w =>
      intro intentId hanswers cont hcont cont' hcont' hcount hintents i hi hid hother hlive
      have hevent : envelope.isEvent = false := AgentEnvelope.not_isEvent hanswers
      obtain ⟨pre, es, rfl, hpre, hshape⟩ := call_shape hcall
      cases hpre with
      | yes _ hevent' => rw [hevent] at hevent'; cases hevent'
      | no =>
        rw [KeyState.applyAll_nil] at hshape
        rw [List.nil_append] at hcount hintents hcont'
        cases hshape with
        | quiet hq => rw [hq.activationsOf] at hcount; cases hcount
        | commit hact hresult hes =>
          subst hes
          rw [intentsOf_commit] at hintents
          cases hact with
          | start _ hevent' => rw [hevent] at hevent'; cases hevent'
          | flush _ _ _ _ _ hcall' =>
            obtain h | ⟨_, h, hevent'⟩ := hcall'
            · cases h
            · cases h
              rw [hevent] at hevent'
              cases hevent'
          | resume hanswers' hcurrent hadmission hmemory hcache =>
            rw [applyAll_sampleActivation, applyAll_commit] at hcont'
            obtain ⟨cursor, hv⟩ := activate_valid hresult
            refine absurd ⟨_, _, .resume hanswers' hcurrent hadmission hmemory hcache, hresult, ?_,
              hintents, cont, hcont, i, hi, hid, ?_, hlive⟩ hforgets
            · exact hv.status.mpr (Option.isSome_iff_exists.mpr ⟨cont', hcont'⟩)
            · rw [Option.mem_def.mp hanswers]
              exact fun heq => hother (Option.some.inj heq).symm

/-- **A partially answered suspension stays answerable, unless it suspends again with nothing staged
while an answer is outstanding.** The runs of one key in which every partial answer keeps the other
pending intents answerable are the runs in which no resumed activation suspends again without
staging an intent while another pending intent has not expired. -/
theorem run_staysAnswerable_iff (d : AgentDoFn) (py : PyLib) (key : Bytes) {calls : List KeyCall}
    {effects : List Effect} {s : KeyState} :
    ((d.machine py key).guarded fun s c => ¬ d.ForgetsPending py key s c).Run {} calls effects s ↔
      ((d.machine py key).restrict fun s c s' os => StaysAnswerable s s' os c).Run {} calls
        effects s := by
  refine Machine.Run.guarded_iff_restrict (I := fun _ => True) trivial (fun _ _ _ => trivial) ?_
  intro s c s' os _ hstep
  exact (step_staysAnswerable_iff hstep).symm

/-- An agent that asks two questions and suspends, and suspends again when it is resumed. -/
def waitingAgent : AgentDoFn where
  agent := .read fun ctx =>
    if ctx.isResume then .ret .suspend
    else .perform (.act "ask" "{}") fun _ => .perform (.act "ask" "{}") fun _ => .ret .suspend

/-- The answer to the first question makes the second one unanswerable, long before it expires. -/
theorem partial_answer_orphans :
    let M := waitingAgent.machine (.ofTable identityTable) [107]
    ∃ s t u effects effects', M.Reachable {} s ∧
      M.step s (answerAt 2000 "6509fb29-9e35-5f25-bf85-b7860d49a026") t effects ∧
      ¬ StaysAnswerable s t effects (answerAt 2000 "6509fb29-9e35-5f25-bf85-b7860d49a026") ∧
      M.step t (answerAt 3000 "2e047468-1bb8-5717-8cb0-d8e98f15a767") u effects' ∧
      errorsOf effects' = [⟨[107], reasonOrphaned,
        "unknown_intent:2e047468-1bb8-5717-8cb0-d8e98f15a767", 3000⟩] := by
  intro M
  refine ⟨_, _, _, _, _, (Machine.Reachable.refl _).tail (a := eventAt 1000 1) (call_step ?_),
    call_step ?_, ?_, call_step ?_, ?_⟩
  all_goals decide

end AgentDoFn

end BeamAgents
