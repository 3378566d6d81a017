import BeamAgents.Core.Atomicity
import BeamAgents.Core.Buffer

/-!
# Every waiting state has its timer

A timer holds one mark. `set` replaces it, `clear` removes it, and its fire consumes it; the fire of
a mark that was replaced or cleared before may still come late, and consumes nothing. The runs here
are the runs of the transform with marks that fires consume. In every state that such a run reaches,
a stored continuation has the HITL timer armed at its deadline, and events that are buffered behind
no continuation have the flush timer armed.

## Main definitions

* `Delivery`, `AgentDoFn.timed`: the transform with timers whose fires consume their marks.
* `AgentDoFn.Covered`: a timer covers every waiting state.

## Main results

* `AgentDoFn.waiting_covered`: this holds in every reachable state.
-/

namespace BeamAgents

open Transition

namespace KeyState

variable (s : KeyState)

/-- The timer of the call is armed, and the fire does not carry a time before its mark. -/
def Due : KeyCall → Prop
  | .onTtl micros _ => ∃ mark ∈ s.ttlTimer, mark ≤ AgentDoFn.firedAtMs micros
  | .onHitl micros _ => ∃ mark ∈ s.hitlTimer, mark ≤ AgentDoFn.firedAtMs micros
  | .onFlush _ => s.flushTimer.isSome
  | .process .. => False

/-- The mark of the timer that fires is consumed. -/
def consume : KeyCall → KeyState
  | .onTtl .. => { s with ttlTimer := none }
  | .onHitl .. => { s with hitlTimer := none }
  | .onFlush _ => { s with flushTimer := none }
  | .process .. => s

end KeyState

/-- What the runner delivers: an element or a late fire, which consume no mark, or the fire of the
mark that is armed. -/
inductive Delivery
  | call (c : KeyCall)
  | fire (c : KeyCall)

namespace AgentDoFn

/-- The transform on one key, with timers whose fires consume their marks. -/
def timed (d : AgentDoFn) (py : PyLib) (key : Bytes) : Machine KeyState Delivery Effect where
  step s a s' os :=
    match a with
    | .call c => (d.machine py key).step s c s' os
    | .fire c => s.Due c ∧ (d.machine py key).step (s.consume c) c s' os

/-- A stored continuation has the HITL timer armed at exactly its deadline. -/
def HitlCovered (s : KeyState) : Prop :=
  ∀ cont ∈ s.continuation, s.hitlTimer = some cont.deadlineMs

/-- Events that are buffered behind no continuation have the flush timer armed. -/
def FlushCovered (s : KeyState) : Prop :=
  s.batch ≠ [] → s.continuation = none → s.flushTimer.isSome

/-- A timer covers every waiting state. -/
structure Covered (d : AgentDoFn) (s : KeyState) : Prop where
  hitl : HitlCovered s
  flush : d.batch.isSome → FlushCovered s

variable {d : AgentDoFn} {py : PyLib} {key : Bytes} {s s' : KeyState} {c : KeyCall}
  {os : List Effect}

/-! ### Suspensions -/

theorem HitlCovered.of_core (h : HitlCovered s) (hcore : s'.core = s.core) : HitlCovered s' := by
  have hcont : s'.continuation = s.continuation := congrArg KeyCore.continuation hcore
  have hhitl : s'.hitlTimer = s.hitlTimer := congrArg KeyCore.hitlTimer hcore
  rwa [HitlCovered, hcont, hhitl]

/-- Commits and escalations arm the timer at the deadline they store, whatever was armed before:
only quiet calls rely on the mark they find. -/
theorem HitlCovered.shape (h : HitlCovered s ∨ ¬ Quiet os) (hs : d.Shape py key s c os) :
    HitlCovered (s.applyAll os) := by
  cases hs with
  | quiet hq => exact (h.resolve_right (not_not_intro hq)).of_core hq.applyAll.1
  | @commit _ w caller input result _ hact hresult hes =>
    obtain ⟨cursor, hv⟩ := activate_valid hresult
    rw [hes, applyAll_sampleActivation, applyAll_commit]
    intro cont hcont
    have hsome : result.continuation = some cont := hcont
    have hstatus : result.status = .suspended := hv.status.mpr (by rw [hsome]; rfl)
    show commitHitl result = some cont.deadlineMs
    simp only [commitHitl, hstatus, hv.hitlDeadline, hsome, Option.map_some]
  | escalate hcont hdue hroute =>
    rintro cont' hcont'
    cases hcont'
    rfl
  | ended hcont hdue hroute hends =>
    rw [applyAll_endSuspension]
    simp [HitlCovered]
  | wiped hcont =>
    rw [KeyState.applyAll_append, KeyState.applyAll_append, applyAll_wipe]
    simp [HitlCovered]

/-- A fire of the HITL timer at or after the deadline escalates the suspension or ends it. -/
theorem onHitl_due {cont : Continuation} {micros : Int} {w : World}
    (hcont : d.schema.migrateContinuation s.continuation = .ok (some cont))
    (hdue : cont.deadlineMs ≤ firedAtMs micros)
    (h : d.call py key s (.onHitl micros w) = ⟨os, none⟩) : ¬ Quiet os := by
  intro hq
  simp only [call, onHitl, hcont, Int.not_lt.mpr hdue, if_false] at h
  split at h <;> cases h
  · exact Bool.false_ne_true (hq _ List.mem_cons_self)
  · exact Bool.false_ne_true (hq .clearContinuation (by simp [endSuspension]))

/-! ### Buffered events -/

/-- A fire of the flush timer leaves nothing to flush, or a suspension. Every other call keeps the
mark armed, or arms it when it ends a suspension. -/
theorem FlushCovered.shape (hbatch : d.batch.isSome) (hcurrent : d.Current s)
    (h : FlushCovered s ∨ ∃ w, c = .onFlush w) (hs : d.BufferShape py key s c os) :
    FlushCovered (s.applyAll os) := by
  have hempty {t : KeyState} (h : t.batch = []) : FlushCovered t := fun hne => absurd h hne
  have hrearmed {t : KeyState} {w : World} (hkept : t.batch = s.batch)
      (hflush : t.flushTimer = d.rearmed s w) : FlushCovered t := by
    intro hne _
    rw [hkept] at hne
    rw [hflush, rearmed, if_pos ⟨hbatch, hne⟩]
    rfl
  cases hs with
  | shed =>
    obtain ⟨hkept, hflush⟩ := (apart_deadLetter key reasonBatchOverflow _ _).applyAll (s := s)
    intro hne hcont
    rw [hflush]
    refine (h.resolve_right (by simp)) (hkept ▸ hne) ?_
    exact (apart_deadLetter key reasonBatchOverflow _ _).continuation hcont
  | deferred =>
    rw [applyAll_bufferEffects]
    intro _ hcont
    by_cases hnil : s.batch = []
    · simp [hnil]
    · simpa [hnil] using (h.resolve_right (by simp)) hnil hcont
  | declined hdeclined =>
    intro hne hnone
    rcases hdeclined with hnil | ⟨cont, hcont⟩
    · exact absurd hnil hne
    · rw [KeyState.applyAll_nil, hcurrent.stored hcont] at hnone
      cases hnone
  | failed =>
    rw [KeyState.applyAll_append, applyAll_sampleActivation]
    exact hempty (batch_flushFailure ..)
  | flushed htaken hact hresult hes =>
    rw [KeyState.applyAll_append, hes, applyAll_sampleActivation, applyAll_commit]
    exact hempty rfl
  | @resumed envelope w input result _ hact hresult hes =>
    rw [hes, applyAll_sampleActivation, applyAll_commit]
    cases hcont : result.continuation with
    | none =>
      exact hrearmed (w := w) rfl (by simp only [commitFlush, hcont, Option.isNone_none, if_true])
    | some cont => exact fun _ hnone => absurd hnone (Option.some_ne_none cont)
  | ended =>
    rw [applyAll_endSuspension]
    exact hrearmed rfl rfl
  | wiped =>
    rw [KeyState.applyAll_append, KeyState.applyAll_append, applyAll_wipe, if_pos hbatch]
    exact hempty rfl
  | apart haside happart =>
    obtain ⟨hkept, hflush⟩ := happart.applyAll (s := s)
    intro hne hcont
    rw [hflush]
    refine (h.resolve_right ?_) (hkept ▸ hne) (happart.continuation hcont)
    rintro ⟨w, rfl⟩
    cases haside

/-! ### Every reachable state -/

theorem Covered.empty : d.Covered {} := ⟨by simp [HitlCovered], fun _ h => absurd rfl h⟩

/-- A call that consumes no mark. -/
theorem Covered.call (h : d.Covered s) (hcurrent : d.Current s)
    (hstep : (d.machine py key).step s c s' os) : d.Covered s' := by
  obtain ⟨hcall, rfl⟩ := hstep
  constructor
  · obtain ⟨pre, es, rfl, hpre, hshape⟩ := call_shape hcall
    rw [KeyState.applyAll_append]
    exact .shape (.inl (h.hitl.of_core hpre.core)) hshape
  · intro hbatch
    exact .shape hbatch hcurrent (.inl (h.flush hbatch)) (call_bufferShape hbatch hcall)

/-- The fire of the mark that is armed. -/
theorem Covered.fire (h : d.Covered s) (hcurrent : d.Current s) (hdue : s.Due c)
    (hstep : (d.machine py key).step (s.consume c) c s' os) : d.Covered s' := by
  cases c with
  | process envelope w => exact hdue.elim
  | onTtl micros w =>
    exact .call (s := s.consume (.onTtl micros w)) ⟨h.hitl, h.flush⟩ hcurrent hstep
  | onFlush w =>
    obtain ⟨hcall, rfl⟩ := hstep
    have hshape := onFlush_shape hcall
    refine ⟨.shape (.inl h.hitl) hshape, fun hbatch => ?_⟩
    -- What the consumed mark covered is flushed now.
    exact .shape hbatch hcurrent (.inr ⟨w, rfl⟩) (onFlush_bufferShape hbatch hcall)
  | onHitl micros w =>
    have hcurrent' : d.Current (s.consume (.onHitl micros w)) := hcurrent
    obtain ⟨hcall, rfl⟩ := hstep
    constructor
    · refine .shape ?_ (onHitl_shape hcall)
      cases hcont : s.continuation with
      | none => exact .inl (by simp [HitlCovered, KeyState.consume, hcont])
      | some cont =>
        -- The mark was armed at the deadline, so the fire is not early.
        obtain ⟨mark, hmark, hfired⟩ := hdue
        obtain rfl : mark = cont.deadlineMs :=
          Option.some.inj (hmark.symm.trans (h.hitl cont hcont))
        have hread : d.schema.migrateContinuation s.continuation = .ok (some cont) := by
          rw [hcont]
          exact d.schema.migrateContinuation_current (hcurrent cont hcont)
        exact .inr (onHitl_due hread hfired hcall)
    · intro hbatch
      exact .shape hbatch hcurrent' (.inl (h.flush hbatch)) (call_bufferShape hbatch hcall)

/-- **No stranded work.** In every state that a run of one key reaches, with timers whose fires
consume their marks and with any late fires, a stored continuation has the HITL timer armed at
exactly its deadline, and under adaptive batching events that are buffered behind no continuation
have the flush timer armed. -/
theorem waiting_covered (d : AgentDoFn) (py : PyLib) (key : Bytes) {s : KeyState}
    (h : (d.timed py key).Reachable {} s) : d.Covered s := by
  refine (h.invariant (I := fun s => d.Current s ∧ d.Covered s) ⟨.empty, .empty⟩ ?_).2
  rintro t a u o ⟨hcurrent, hcovered⟩ hstep
  cases a with
  | call c =>
    obtain ⟨hcall, rfl⟩ := hstep
    exact ⟨hcurrent.call hcall, hcovered.call hcurrent ⟨hcall, rfl⟩⟩
  | fire c =>
    obtain ⟨hdue, hcall, rfl⟩ := hstep
    have hconsumed : d.Current (t.consume c) := by cases c <;> exact hcurrent
    exact ⟨hconsumed.call hcall, hcovered.fire hcurrent hdue ⟨hcall, rfl⟩⟩

theorem timed_call (d : AgentDoFn) (py : PyLib) (key : Bytes)
    (h : (d.call py key s c).raised = none) :
    (d.timed py key).step s (.call c) (s.applyAll (d.call py key s c).effects)
      (d.call py key s c).effects :=
  call_step h

theorem timed_fire (d : AgentDoFn) (py : PyLib) (key : Bytes) (hdue : s.Due c)
    (h : (d.call py key (s.consume c) c).raised = none) :
    (d.timed py key).step s (.fire c)
      ((s.consume c).applyAll (d.call py key (s.consume c) c).effects)
      (d.call py key (s.consume c) c).effects :=
  ⟨hdue, call_step h⟩

/-- A suspension whose mark fires is escalated, and the mark is armed at the new deadline. -/
theorem waiting_covered_escalated :
    ∃ s, (askingAgent.timed (.ofTable identityTable) [107]).Reachable {} s ∧
      s.continuation.map Continuation.deadlineMs = some 86402000 ∧ s.hitlTimer = some 86402000 ∧
      askingAgent.Covered s := by
  have hasked := (Machine.Reachable.refl {}).tail
    (timed_call askingAgent (.ofTable identityTable) [107] (c := eventAt 1000 1) (by decide))
  have hfired := hasked.tail (timed_fire askingAgent (.ofTable identityTable) [107]
    (c := .onHitl 2000000 quietWorld) ⟨2000, by decide, by decide⟩ (by decide))
  exact ⟨_, hfired, by decide, by decide, waiting_covered askingAgent _ _ hfired⟩

end AgentDoFn

end BeamAgents
