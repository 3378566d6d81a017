import BeamAgents.Adapters.Agents
import BeamAgents.Core.Admission
import BeamAgents.Core.Atomicity
import BeamAgents.Core.Suspensions
import Mathlib.Data.List.DropRight

/-!
# The agents of frameworks in the transform

What a suspension of such an agent goes through on its key. The snapshot of a stored continuation
has the calls that were put off, under intents that were minted for them. Once one of several calls
has been answered, the others are pending no longer, and an escalation mints an intent that the
snapshot does not know.

## Main definitions

* `AgentDoFn.hosting`: the transform with another agent.
* `AgentDoFn.Suspended`: what holds of a stored continuation.

## Main results

* `AgentDoFn.resumes_single`: a run of the framework is resumed for a single call only.
* `AgentDoFn.escalation_unanswerable`: the answer to an escalation comes to nothing.
-/

namespace BeamAgents

open Containers

namespace AgentDoFn

/-- The transform with another agent. -/
def hosting (d : AgentDoFn) (agent : Agent) : AgentDoFn := { d with agent := agent }

variable (py : PyLib) (key : Bytes)

/-- What holds of a stored continuation and the snapshot in it. -/
structure Suspended (cont : Continuation) (snapshot : DeferredSnapshot) : Prop where
  load : DeferredSnapshot.load cont.snapshot = some snapshot
  minted : ∀ intentId, (snapshot.pending.get? intentId).isSome →
    ∃ step < cont.stepIndex, intentId = intentIdFor py key cont.seq step
  /-- Nothing has been answered, or no intent that is pending is known. -/
  answerable : snapshot.results = .empty ∨
    ∀ intentId ∈ cont.pendingIntentIds, snapshot.pending.get? intentId = none
  /-- The intents of escalations are the last ones that are pending, and not known. -/
  escalations_le : cont.escalations ≤ cont.pendingIntentIds.length
  escalated : ∀ intentId ∈ cont.pendingIntentIds.rtake cont.escalations,
    snapshot.pending.get? intentId = none

/-- Every stored continuation is one of an agent of a framework. -/
def Sessions (s : KeyState) : Prop :=
  ∀ cont ∈ s.continuation, ∃ snapshot, Suspended py key cont snapshot

variable {py} {key} {σ α : Type} {A : Adapter σ α} {d : AgentDoFn} {s s' : KeyState} {c : KeyCall}
  {effects : List Effect}

theorem Sessions.of_core (h : Sessions py key s) (hcore : s'.core = s.core) :
    Sessions py key s' := by
  have hcont : s'.continuation = s.continuation := congrArg KeyCore.continuation hcore
  rwa [Sessions, hcont]

/-- An intent that is minted later is not known. -/
theorem Suspended.get?_eq_none {cont : Continuation} {snapshot : DeferredSnapshot}
    (h : Suspended py key cont snapshot)
    (hpy : Function.Injective fun name => (py.uuid5 intentNamespace name).text) {step : ℕ}
    (hstep : cont.stepIndex ≤ step) :
    snapshot.pending.get? (intentIdFor py key cont.seq step) = none := by
  by_contra hsome
  obtain ⟨step', hlt, hid⟩ := h.minted _ (Option.isSome_iff_ne_none.mpr hsome)
  have := (intentIdFor_injective hpy key hid).2
  omega

/-- An escalation keeps what holds of a continuation. -/
theorem Suspended.escalate {cont : Continuation} {snapshot : DeferredSnapshot}
    (h : Suspended py key cont snapshot)
    (hpy : Function.Injective fun name => (py.uuid5 intentNamespace name).text)
    {intent : ToolIntent} (hid : intent.intentId = intentIdFor py key cont.seq cont.stepIndex) :
    Suspended py key (AgentDoFn.escalated cont intent) snapshot := by
  have hnew : snapshot.pending.get? intent.intentId = none := by
    rw [hid]
    exact h.get?_eq_none hpy le_rfl
  refine ⟨h.load, fun intentId hsome => ?_,
    h.answerable.imp_right fun hnone intentId hmem => ?_, ?_, fun intentId hmem => ?_⟩
  · obtain ⟨step, hlt, hminted⟩ := h.minted intentId hsome
    exact ⟨step, hlt.trans (Nat.lt_succ_self _), hminted⟩
  · rcases List.mem_append.mp hmem with hmem | hmem
    · exact hnone intentId hmem
    · rw [List.mem_singleton.mp hmem, hnew]
  · simpa [AgentDoFn.escalated] using h.escalations_le
  · simp only [AgentDoFn.escalated, List.rtake_concat_succ, List.mem_append] at hmem
    rcases hmem with hmem | hmem
    · exact h.escalated intentId hmem
    · rw [List.mem_singleton.mp hmem, hnew]

/-- A context has the scope of its activation. -/
theorem new_scope {cfg : ContextConfig} {input : ActivationInput} {ctx : ActivationContext}
    (h : ActivationContext.new py cfg input = .ok ctx) :
    ctx.entityKey = input.entityKey ∧ ctx.seq = input.seq ∧ ctx.snapshot = input.snapshot ∧
      ctx.resumeResult = input.resumeResult ∧ ctx.resumeApproval = input.resumeApproval := by
  unfold ActivationContext.new at h
  split_ifs at h
  cases h
  exact ⟨rfl, rfl, rfl, rfl, rfl⟩

/-- The continuation of an activation: what its agent suspended with, in the scope of the
activation. -/
theorem activate_suspended {w : World} {input : ActivationInput} {result : ActivationResult}
    {cont : Continuation} (hagent : d.agent = A.agent py)
    (h : d.activate py w input = .ok result) (hcont : cont ∈ result.continuation) :
    cont.escalations = 0 ∧ ∃ snapshot, DeferredSnapshot.load cont.snapshot = some snapshot ∧
      ((snapshot.results = .empty ∧ ∀ intentId, (snapshot.pending.get? intentId).isSome →
        ∃ step < cont.stepIndex, intentId = intentIdFor py input.entityKey input.seq step) ∨
      ((input.resumeResult.isSome ∨ input.resumeApproval.isSome) ∧
        ∃ earlier, DeferredSnapshot.load input.snapshot = some earlier ∧
          snapshot.pending = earlier.pending)) := by
  unfold activate bridgeRun at h
  split_ifs at h
  obtain ⟨ctx, outcome, ctx', hnew, houtcome, hsummarized, hfold⟩ := runActivation_eq_ok h
  rw [hagent] at houtcome hsummarized
  cases outcome with
  | complete output =>
    rw [(finishActivation_ok hfold).2.2.2.1] at hcont
    cases hcont
  | other repr => cases hfold
  | suspend bytes adapter timeoutMs =>
    rw [(finishActivation_ok hfold).2.2.2.1] at hcont
    cases hcont
    obtain ⟨snapshot, hload, hcases⟩ := Adapter.agent_suspended houtcome
    obtain ⟨hkey, hseq, hsnapshot, hresult, happroval⟩ := new_scope hnew
    refine ⟨rfl, snapshot, hload,
      hcases.imp (fun ⟨hresults, hminted⟩ => ⟨hresults, fun id hsome => ?_⟩)
        fun ⟨hresume, earlier, hearlier, hpending⟩ =>
          ⟨?_, earlier, hsnapshot ▸ hearlier, hpending⟩⟩
    · obtain ⟨step, hlt, hid⟩ := hminted id hsome
      have hlater : ActivationContext.Extends py _ ctx' :=
        congrArg Prod.fst hsummarized ▸
          runSummarizer_extends d.contextConfig d.summarizer w.answers _
      exact ⟨step, hlt.trans_le hlater.stepIndex, hkey ▸ hseq ▸ hid⟩
    · rw [← hresult, ← happroval]
      exact Bool.or_eq_true_iff.mp hresume

/-- Every course of a call keeps what holds of the stored continuation. -/
theorem Sessions.shape (h : Sessions py key s) (hcurrent : d.Current s)
    (hagent : d.agent = A.agent py)
    (hpy : Function.Injective fun name => (py.uuid5 intentNamespace name).text)
    {es : List Effect} (hs : d.Shape py key s c es) : Sessions py key (s.applyAll es) := by
  cases hs with
  | quiet hq => exact h.of_core hq.applyAll.1
  | @commit c w caller input result es hact hresult hes =>
    obtain ⟨cursor, hv⟩ := activate_valid hresult
    rw [hes, applyAll_sampleActivation, applyAll_commit]
    intro cont hcont
    have hstep : cont.stepIndex = cursor := hv.contStep cont hcont
    have hseq : cont.seq = input.seq := hv.contSeq cont hcont
    have hkey : input.entityKey = key := hact.entityKey
    obtain ⟨hescalations, snapshot, hload, hcases⟩ := activate_suspended hagent hresult hcont
    -- What does not depend on how the agent suspended.
    have hsuspended (hminted : ∀ intentId, (snapshot.pending.get? intentId).isSome →
        ∃ step < cont.stepIndex, intentId = intentIdFor py key cont.seq step)
        (hanswerable : snapshot.results = .empty ∨
          ∀ intentId ∈ cont.pendingIntentIds, snapshot.pending.get? intentId = none) :
        ∃ snapshot, Suspended py key cont snapshot :=
      ⟨snapshot, hload, hminted, hanswerable, by omega, by simp [hescalations]⟩
    rcases hcases with ⟨hresults, hminted⟩ | ⟨hresume, earlier, hearlier, hpending⟩
    · rw [hkey, ← hseq] at hminted
      exact hsuspended hminted (.inl hresults)
    · cases hact with
      | start => simp [startInput] at hresume
      | flush => simp [flushInput] at hresume
      | @resume envelope w before intentId memoryBlob cacheBlob hanswers hstored =>
        obtain ⟨snapshot', hbefore⟩ := h before (hcurrent.stored hstored)
        obtain rfl : snapshot' = earlier := Option.some.inj (hbefore.load.symm.trans hearlier)
        have hseq : cont.seq = before.seq := hseq
        have hle : before.stepIndex ≤ cont.stepIndex := hstep ▸ hv.cursor_le
        refine hsuspended (fun id hsome => ?_) (.inr fun id hid => ?_)
        · rw [hpending] at hsome
          obtain ⟨step, hlt, hminted⟩ := hbefore.minted id hsome
          exact ⟨step, hlt.trans_le hle, by rw [hminted, hseq]⟩
        · rw [hv.contPending cont hcont] at hid
          obtain ⟨intent, hintent, rfl⟩ := List.mem_map.mp hid
          rw [hpending, hv.minted.intentId intent hintent]
          exact hbefore.get?_eq_none hpy (hv.minted.lower intent hintent)
  | @escalate micros w cont toolName argsJson timeoutMs detail hcont hdue hroute =>
    obtain ⟨snapshot, hsuspended⟩ := h cont (hcurrent.stored hcont)
    rw [applyAll_escalate]
    rintro cont' hcont'
    cases hcont'
    exact ⟨snapshot, hsuspended.escalate hpy rfl⟩
  | ended hcont hdue hroute hends =>
    rw [applyAll_endSuspension]
    rintro cont ⟨⟩
  | wiped hcont =>
    rw [KeyState.applyAll_append, KeyState.applyAll_append, applyAll_wipe]
    rintro cont ⟨⟩

/-- Every call keeps what holds of the stored continuation. -/
theorem Sessions.call (h : Sessions py key s) (hcurrent : d.Current s)
    (hagent : d.agent = A.agent py)
    (hpy : Function.Injective fun name => (py.uuid5 intentNamespace name).text)
    (hcall : d.call py key s c = ⟨effects, none⟩) : Sessions py key (s.applyAll effects) := by
  obtain ⟨pre, es, rfl, hpre, hshape⟩ := call_shape hcall
  rw [KeyState.applyAll_append]
  exact (h.of_core hpre.core).shape (hcurrent.of_core hpre.core) hagent hpy hshape

/-! ### What a run is resumed with -/

/-- An activation depends on how its agent runs in the context of the activation. -/
theorem runActivation_congr {schema : StateSchema} {cfg : ContextConfig} {agent agent' : Agent}
    {summarizer : Option Summarizer} {timeoutMs : Int} {w : World} {input : ActivationInput}
    (h : ∀ ctx, ActivationContext.new py cfg input = .ok ctx →
      agent'.run py cfg w.answers 0 (ctx.stageTrace py (startEvent py ctx input.batchTrigger)) =
        agent.run py cfg w.answers 0
          (ctx.stageTrace py (startEvent py ctx input.batchTrigger))) :
    runActivation py schema cfg agent' summarizer timeoutMs w input =
      runActivation py schema cfg agent summarizer timeoutMs w input := by
  unfold runActivation
  cases hnew : ActivationContext.new py cfg input with
  | error e => rfl
  | ok ctx => simp only [h ctx hnew]

section Hosting

variable {resume' : σ → α → Prog RunEnd}

/-- The frameworks go on alike from one call and its answer. -/
def AgreeOnSingle (A : Adapter σ α) (resume' : σ → α → Prog RunEnd) : Prop :=
  ∀ state entry record value, A.IsAnswer record → A.answers [(entry, record)] = .ok value →
    resume' state value = A.resume state value

/-- An activation does not tell them apart, unless it is a resume with an answer after another. -/
theorem activate_hosting (d : AgentDoFn) (py : PyLib) (hresume : AgreeOnSingle A resume')
    (w : World) (input : ActivationInput)
    (hinput : input.resumeResult.isSome ∨ input.resumeApproval.isSome →
      ∀ snapshot, DeferredSnapshot.load input.snapshot = some snapshot →
        snapshot.results = .empty ∨ ∀ p ∈ A.incoming input.resumeApproval input.resumeResult,
          snapshot.pending.get? p.1 = none) :
    (d.hosting (Adapter.agent py { A with resume := resume' })).activate py w input =
      (d.hosting (A.agent py)).activate py w input := by
  refine congrArg (bridgeRun w) (runActivation_congr fun ctx hnew => ?_)
  obtain ⟨-, -, hsnapshot, hresult, happroval⟩ := new_scope hnew
  have hbody (state : σ) : Adapter.body py { A with resume := resume' }
      (ctx.stageTrace py (startEvent py ctx input.batchTrigger)) state =
        A.body py (ctx.stageTrace py (startEvent py ctx input.batchTrigger)) state := by
    refine Adapter.body_congr hresume (fun hisResume snapshot hload => ?_) state
    have hincoming := hinput (by
      rw [← hresult, ← happroval]
      exact Bool.or_eq_true_iff.mp hisResume) snapshot (hsnapshot ▸ hload)
    rw [← hresult, ← happroval] at hincoming
    exact hincoming
  have hrun (cfg : ContextConfig) : (Adapter.agent py { A with resume := resume' }).run py cfg
      w.answers 0 (ctx.stageTrace py (startEvent py ctx input.batchTrigger)) =
        (A.agent py).run py cfg w.answers 0
          (ctx.stageTrace py (startEvent py ctx input.batchTrigger)) := by
    rw [Adapter.agent, Adapter.agent, Prog.run, Prog.run, funext hbody]
  exact hrun _

/-- A fresh activation does not tell them apart. -/
theorem flush_hosting (hresume : AgreeOnSingle A resume') (first : AgentEnvelope)
    (rest : List AgentEnvelope) (trigger : String) (s : KeyState) (w : World) :
    (d.hosting (Adapter.agent py { A with resume := resume' })).flush py key first rest trigger s
        w =
      (d.hosting (A.agent py)).flush py key first rest trigger s w := by
  have hactivate (memoryBlob : Option MemoryBlob) (cacheBlob : Option LlmCacheBlob) :=
    activate_hosting d py hresume w
      (flushInput key first rest trigger s memoryBlob cacheBlob) (by simp [flushInput])
  simp only [flush, hactivate]
  rfl

/-- A resume does not tell them apart: of several calls no second one is answered. -/
theorem resume_hosting (hresume : AgreeOnSingle A resume') (hs : Sessions py key s)
    (hcurrent : d.Current s) (now : Int) {intentId : String} {resumeResult : Option ToolResult}
    {approval : Option Approval} (hid : ∀ p ∈ A.incoming approval resumeResult, p.1 = intentId)
    (w : World) :
    (d.hosting (Adapter.agent py { A with resume := resume' })).resume py key now intentId
        resumeResult approval s w =
      (d.hosting (A.agent py)).resume py key now intentId resumeResult approval s w := by
  have hschema (agent : Agent) : (d.hosting agent).schema = d.schema := rfl
  simp only [resume, hschema]
  cases hread : d.schema.migrateContinuation s.continuation with
  | error e => rfl
  | ok stored =>
    cases stored with
    | none => rfl
    | some cont =>
      dsimp only
      cases hadmission : admissionFailure (some cont) s.pending intentId now with
      | some detail => rfl
      | none =>
        obtain ⟨snapshot, hsuspended⟩ := hs cont (hcurrent.stored hread)
        have hpending : intentId ∈ cont.pendingIntentIds :=
          (admissionFailure_eq_none.mp hadmission).1
        have hactivate (memoryBlob : Option MemoryBlob) (cacheBlob : Option LlmCacheBlob) :=
          activate_hosting d py hresume w
            (resumeInput key now cont resumeResult approval memoryBlob cacheBlob)
            (fun _ snapshot' hload => by
              obtain rfl := Option.some.inj (hsuspended.load.symm.trans hload)
              exact hsuspended.answerable.imp_right fun hnone p hp => hid p hp ▸ hnone _ hpending)
        simp only [resumeAdmitted, hactivate]
        rfl

/-- No call tells them apart. -/
theorem call_hosting (hresume : AgreeOnSingle A resume') (hs : Sessions py key s)
    (hcurrent : d.Current s) (c : KeyCall) :
    (d.hosting (Adapter.agent py { A with resume := resume' })).call py key s c =
      (d.hosting (A.agent py)).call py key s c := by
  cases c with
  | onTtl micros w => rfl
  | onHitl micros w => rfl
  | onFlush w =>
    simp only [call, onFlush, flush_hosting hresume]
    rfl
  | process envelope w =>
    have hevent : envelope.isEvent →
        (d.hosting (Adapter.agent py { A with resume := resume' })).process py key envelope s w =
          (d.hosting (A.agent py)).process py key envelope s w := by
      intro hevent
      have hactivate (memoryBlob : Option MemoryBlob) (cacheBlob : Option LlmCacheBlob) :=
        activate_hosting d py hresume w (startInput key envelope.eventTimeMs
          envelope.externalEvent s memoryBlob cacheBlob) (by simp [startInput])
      unfold process
      cases hp : envelope.payload with
      | exportRequest requestId => rfl
      | toolResult result => simp [AgentEnvelope.isEvent, hp] at hevent
      | approval approval => simp [AgentEnvelope.isEvent, hp] at hevent
      | externalEvent event =>
        simp only [start, buffer, flush_hosting hresume, hactivate]
        rfl
      | unset =>
        simp only [start, buffer, flush_hosting hresume, hactivate]
        rfl
    cases hp : envelope.payload with
    | exportRequest requestId => simp only [call, process, hp]; rfl
    | toolResult result =>
      simp only [call, process, hp]
      exact resume_hosting hresume hs hcurrent _ (by rintro p ⟨⟩; rfl) w
    | approval approval =>
      simp only [call, process, hp]
      exact resume_hosting hresume hs hcurrent _ (by rintro p ⟨⟩; rfl) w
    | externalEvent event => exact hevent (by simp [AgentEnvelope.isEvent, hp])
    | unset => exact hevent (by simp [AgentEnvelope.isEvent, hp])

/-- What a key does, it does as well where the framework goes on otherwise from several answers. -/
theorem run_hosting (hpy : Function.Injective fun name => (py.uuid5 intentNamespace name).text)
    (hresume : AgreeOnSingle A resume') {calls : List KeyCall} {t : KeyState}
    (h : ((d.hosting (A.agent py)).machine py key).Run {} calls effects t) :
    ((d.hosting (Adapter.agent py { A with resume := resume' })).machine py key).Run {} calls
      effects t := by
  have hempty : Sessions py key {} := by simp [Sessions]
  obtain ⟨_, hrun, rfl, -⟩ := h.lockstep
    (A := (d.hosting (Adapter.agent py { A with resume := resume' })).machine py key)
    (R := fun s x => s = x ∧ d.Current s ∧ Sessions py key s) ⟨rfl, Current.empty, hempty⟩ <| by
      rintro s c _ es _ ⟨rfl, hcurrent, hsessions⟩ ⟨hcall, rfl⟩
      have hhosted := hcall
      rw [← call_hosting hresume hsessions hcurrent] at hhosted
      have hcurrent' : (d.hosting (A.agent py)).Current s := hcurrent
      exact ⟨s.applyAll es, ⟨hhosted, rfl⟩, rfl, hcurrent'.call hcall,
        hsessions.call hcurrent' rfl hpy hcall⟩
  exact hrun

/-- **A run of the framework is resumed for a single call only.** Let two frameworks go on alike
from one call and its answer. Then a key goes through the same runs with the one and with the
other, however they go on from several answers: no suspension of several calls is ever resumed. -/
theorem resumes_single (hpy : Function.Injective fun name => (py.uuid5 intentNamespace name).text)
    (hresume : AgreeOnSingle A resume') {calls : List KeyCall} {t : KeyState} :
    ((d.hosting (Adapter.agent py { A with resume := resume' })).machine py key).Run {} calls
        effects t ↔
      ((d.hosting (A.agent py)).machine py key).Run {} calls effects t :=
  ⟨run_hosting (A := { A with resume := resume' }) hpy
    fun state entry record value hanswer hvalue =>
      (hresume state entry record value hanswer hvalue).symm, run_hosting hpy hresume⟩

end Hosting

/-- An agent whose runs put off two calls, and are done when they are resumed. -/
def deferringAgent : PydanticAIAgent Unit Unit where
  run _ _ results := .ret {
    messages := []
    usage := {}
    output := if results.isSome then .inl ()
      else .inr { calls := [⟨"charge", .object [], "c1"⟩, ⟨"mail", .object [], "c2"⟩] } }
  validateMessages _ := .ok []
  decodeEvent _ := .ok ""
  encodeOutput _ := .ok [1]
  foreign _ := ⟨.other, "ValueError", "ValueError()"⟩

/-- The agent as a framework drives it. -/
def deferring : Adapter (List Unit) DeferredToolResults :=
  deferringAgent.adapter (.ofTable identityTable)

/-- Its transform, whose timeouts escalate. -/
def deferringDoFn : AgentDoFn where
  agent := deferring.agent (.ofTable identityTable)
  policy := askingAgent.policy

/-- Both calls of the suspension are answered. -/
def deferringCalls : List KeyCall :=
  [eventAt 1000 1, answerAt 1100 "6509fb29-9e35-5f25-bf85-b7860d49a026",
    answerAt 1200 "2e047468-1bb8-5717-8cb0-d8e98f15a767"]

/-- A framework that would come to another output from two answers is not told apart, though both
are given: the second one is refused, and the suspension stays. -/
theorem resumes_single_deferring :
    let resume' : List Unit → DeferredToolResults → Prog RunEnd := fun history results =>
      if PydanticAIAgent.resultCount results = 1 then deferring.resume history results
      else .ret (.finished [2])
    ∃ effects t,
      ((deferringDoFn.hosting (Adapter.agent (.ofTable identityTable)
        { deferring with resume := resume' })).machine (.ofTable identityTable) [107]).Run {}
          deferringCalls effects t ∧
      errorsOf effects = [
        ⟨[107], reasonOrphaned, "unknown_intent:2e047468-1bb8-5717-8cb0-d8e98f15a767", 1200⟩] ∧
      t.continuation.map Continuation.pendingIntentIds = some [] := by
  intro resume'
  have hexec : ((deferringDoFn.exec (.ofTable identityTable) [107] {} deferringCalls).map fun r =>
      (errorsOf r.1, r.2.continuation.map Continuation.pendingIntentIds)) =
      some ([⟨[107], reasonOrphaned, "unknown_intent:2e047468-1bb8-5717-8cb0-d8e98f15a767", 1200⟩],
        some []) := by
    decide +kernel
  obtain ⟨⟨effects, t⟩, hr, heq⟩ := Option.map_eq_some_iff.mp hexec
  obtain ⟨herrors, hpending⟩ := Prod.mk.inj heq
  have hrun : ((deferringDoFn.hosting (deferring.agent (.ofTable identityTable))).machine
      (.ofTable identityTable) [107]).Run {} deferringCalls effects t :=
    (exec_run (C := fun _ _ => True) hr fun _ _ _ => trivial).of_guarded
  have hresume : AgreeOnSingle deferring resume' := by
    intro history entry record results hanswer hresults
    exact if_pos (PydanticAIAgent.resultCount_of_single _ hresults)
  exact ⟨effects, t, (resumes_single (PyLib.ofTable_injective _ _) hresume).mpr hrun, herrors,
    hpending⟩

/-! ### The answer to an escalation -/

/-- A resume over an intent that the suspension does not know does not come to a result. -/
theorem activate_unknown {w : World} {input : ActivationInput} {snapshot : DeferredSnapshot}
    (hagent : d.agent = A.agent py)
    (hresume : input.resumeResult.isSome ∨ input.resumeApproval.isSome)
    (hload : DeferredSnapshot.load input.snapshot = some snapshot)
    (hunknown : ∀ p ∈ A.incoming input.resumeApproval input.resumeResult,
      snapshot.pending.get? p.1 = none) : ∃ failure, d.activate py w input = .error failure := by
  cases hresult : d.activate py w input with
  | error failure => exact ⟨failure, rfl⟩
  | ok result =>
    unfold activate bridgeRun at hresult
    split_ifs at hresult
    obtain ⟨ctx, outcome, -, hnew, houtcome, -, -⟩ := runActivation_eq_ok hresult
    obtain ⟨-, -, hsnapshot, hresumeResult, happroval⟩ := new_scope hnew
    rw [hagent] at houtcome
    obtain ⟨state, -, hrun⟩ := Prog.run_bind_eq_ok houtcome
    have hraises (ctx' : ActivationContext) (hsame : ctx'.snapshot = ctx.snapshot ∧
        ctx'.resumeResult = ctx.resumeResult ∧ ctx'.resumeApproval = ctx.resumeApproval) :
        ∃ e, A.body py ctx' state = .raise e := by
      obtain ⟨hs, hr, ha⟩ := hsame
      have hload' : DeferredSnapshot.load ctx'.snapshot = some snapshot := by rwa [hs, hsnapshot]
      refine Adapter.body_unknown (Bool.or_eq_true_iff.mpr ?_) hload' ?_ state
      · rwa [hr, ha, hresumeResult, happroval]
      · rwa [hr, ha, hresumeResult, happroval]
    obtain ⟨e, hbody⟩ := hraises
      (ctx.stageTrace py (startEvent py ctx input.batchTrigger)) ⟨rfl, rfl, rfl⟩
    have hagree : (A.agent py).run py d.contextConfig w.answers 0
        (ctx.stageTrace py (startEvent py ctx input.batchTrigger)) =
          (A.prepare.bind (A.body py (ctx.stageTrace py
            (startEvent py ctx input.batchTrigger)))).run py d.contextConfig w.answers 0
              (ctx.stageTrace py (startEvent py ctx input.batchTrigger)) := rfl
    rw [hagree, hrun, hbody] at houtcome
    cases houtcome

/-- What is recorded of an answer is recorded under the intent that is answered. -/
theorem incoming_answers {envelope : AgentEnvelope} {intentId : String}
    (hanswers : envelope.answers = some intentId) :
    (envelope.answerResult.isSome ∨ envelope.answerApproval.isSome) ∧
      ∀ p ∈ A.incoming envelope.answerApproval envelope.answerResult, p.1 = intentId := by
  cases hp : envelope.payload with
  | toolResult result =>
    simp only [AgentEnvelope.answers, hp, Option.some.injEq] at hanswers
    simp [AgentEnvelope.answerResult, AgentEnvelope.answerApproval, hp, Adapter.incoming, hanswers]
  | approval approval =>
    simp only [AgentEnvelope.answers, hp, Option.some.injEq] at hanswers
    simp [AgentEnvelope.answerResult, AgentEnvelope.answerApproval, hp, Adapter.incoming, hanswers]
  | externalEvent event | unset | exportRequest requestId =>
    simp [AgentEnvelope.answers, hp] at hanswers

/-- The agent raises over the answer to an intent that its suspension does not know, unless the
answer is refused: the call leaves everything as it is, with one record and one trace. -/
theorem call_unknown {cont : Continuation} {snapshot : DeferredSnapshot} {envelope : AgentEnvelope}
    {w : World} {intentId : String} (hagent : d.agent = A.agent py) (hcurrent : d.Current s)
    (hcont : s.continuation = some cont)
    (hload : DeferredSnapshot.load cont.snapshot = some snapshot)
    (hunknown : snapshot.pending.get? intentId = none)
    (hanswers : envelope.answers = some intentId)
    (hcall : d.call py key s (.process envelope w) = ⟨effects, none⟩) :
    s.applyAll effects = s ∧
      ∃ error trace, outputsOf effects = [.errors error, .traces trace] := by
  have hread := hcurrent.read hcont
  obtain ⟨hsome, hincoming⟩ := incoming_answers (A := A) hanswers
  rw [call_answer hanswers, resume, hread] at hcall
  dsimp only at hcall
  split at hcall
  · cases hcall
    exact ⟨rfl, _, _, rfl⟩
  have hfails (memoryBlob : Option MemoryBlob) (cacheBlob : Option LlmCacheBlob) :
      ∃ failure, d.activate py w (resumeInput key envelope.eventTimeMs cont envelope.answerResult
        envelope.answerApproval memoryBlob cacheBlob) = .error failure :=
    activate_unknown hagent hsome hload fun p hp => hincoming p hp ▸ hunknown
  unfold resumeAdmitted at hcall
  split at hcall
  · cases hcall
  rename_i memoryBlob hmemory
  split at hcall
  · cases hcall
  rename_i cacheBlob hcache
  obtain ⟨failure, hfailure⟩ := hfails memoryBlob cacheBlob
  rw [hfailure] at hcall
  cases hcall
  have hstateless : ∀ e ∈ sampleActivation w ::
      activationFailure py key cont.seq envelope.eventTimeMs failure, e.stateless = true :=
    List.forall_mem_cons.mpr ⟨rfl, stateless_activationFailure _ _ _⟩
  exact ⟨KeyState.applyAll_stateless hstateless s, _, _, outputsOf_activationFailure ..⟩

/-- **The answer to an escalation comes to nothing.** In every run of a key, an answer to one of the
intents that the escalations of its suspension minted, which are the last ones that are pending,
leaves everything as it is, with a record and a trace: the snapshot that the agent suspended with
does not know these intents, and the agent raises over an answer that it cannot place. -/
theorem escalation_unanswerable
    (hpy : Function.Injective fun name => (py.uuid5 intentNamespace name).text)
    (hagent : d.agent = A.agent py) {calls : List KeyCall} {es : List Effect}
    (hrun : (d.machine py key).Run {} calls effects s) {cont : Continuation}
    (hcont : s.continuation = some cont) {envelope : AgentEnvelope} {w : World} {intentId : String}
    (hid : intentId ∈ cont.pendingIntentIds.rtake cont.escalations)
    (hanswers : envelope.answers = some intentId)
    (hcall : d.call py key s (.process envelope w) = ⟨es, none⟩) :
    s.applyAll es = s ∧ ∃ error trace, outputsOf es = [.errors error, .traces trace] := by
  have hempty : Sessions py key {} := by simp [Sessions]
  obtain ⟨hcurrent, hsessions⟩ := hrun.stateInvariant
    (I := fun s => d.Current s ∧ Sessions py key s) ⟨Current.empty, hempty⟩ <| by
      rintro t c _ os ⟨hcurrent, hsessions⟩ ⟨hstep, rfl⟩
      exact ⟨hcurrent.call hstep, hsessions.call hcurrent hagent hpy hstep⟩
  obtain ⟨snapshot, hsuspended⟩ := hsessions cont hcont
  exact call_unknown hagent hcurrent hcont hsuspended.load (hsuspended.escalated intentId hid)
    hanswers hcall

/-- The suspension of two calls is escalated, and the escalation is answered. -/
theorem escalation_unanswerable_deferring :
    let M := deferringDoFn.machine (.ofTable identityTable) [107]
    ∃ effects s es, M.Run {} [eventAt 1000 1, .onHitl 2000000 quietWorld] effects s ∧
      (intentsOf effects).map (·.intentId) = ["6509fb29-9e35-5f25-bf85-b7860d49a026",
        "2e047468-1bb8-5717-8cb0-d8e98f15a767", "cf8bf923-306f-5146-82a8-520e5a27f716"] ∧
      M.step s (answerAt 2500 "cf8bf923-306f-5146-82a8-520e5a27f716") s es ∧
      ∃ error trace, outputsOf es = [.errors error, .traces trace] := by
  intro M
  have hexec : ((deferringDoFn.exec (.ofTable identityTable) [107] {}
      [eventAt 1000 1, .onHitl 2000000 quietWorld]).map fun r =>
      ((intentsOf r.1).map (·.intentId),
        r.2.continuation.map fun cont => cont.pendingIntentIds.rtake cont.escalations,
        (deferringDoFn.call (.ofTable identityTable) [107] r.2
          (answerAt 2500 "cf8bf923-306f-5146-82a8-520e5a27f716")).raised)) =
      some (["6509fb29-9e35-5f25-bf85-b7860d49a026", "2e047468-1bb8-5717-8cb0-d8e98f15a767",
        "cf8bf923-306f-5146-82a8-520e5a27f716"], some ["cf8bf923-306f-5146-82a8-520e5a27f716"],
        none) := by
    decide +kernel
  obtain ⟨⟨effects, s⟩, hr, heq⟩ := Option.map_eq_some_iff.mp hexec
  obtain ⟨hids, heq⟩ := Prod.mk.inj heq
  obtain ⟨hescalated, hraised⟩ := Prod.mk.inj heq
  obtain ⟨cont, hcont, hlast⟩ := Option.map_eq_some_iff.mp hescalated
  have hrun : M.Run {} [eventAt 1000 1, .onHitl 2000000 quietWorld] effects s :=
    (exec_run (C := fun _ _ => True) hr fun _ _ _ => trivial).of_guarded
  have hstep := call_step hraised
  obtain ⟨hsame, houtputs⟩ := escalation_unanswerable (A := deferring) (PyLib.ofTable_injective _ _)
    rfl hrun hcont (by rw [hlast]; exact List.mem_singleton_self _) rfl hstep.1
  rw [hsame] at hstep
  exact ⟨effects, s, _, hrun, hids, hstep, houtputs⟩

end AgentDoFn

end BeamAgents
