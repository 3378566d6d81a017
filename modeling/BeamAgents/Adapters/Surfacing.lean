import BeamAgents.Adapters.Sessions
import BeamAgents.Containers.Recency

/-!
# The calls of an ADK run in the order of its stream

ADK chooses the ids of function calls, and runs the long-running tools of one turn next to each
other, so that two runs with the same responses of the model may record their calls under other ids
and in another order. The agent stages the calls in the order in which the stream surfaced them, so
that the intents of the two runs are the same.

## Main definitions

* `AdkRun.Relabelled`: the same run under other ids, recorded in another order.
* `SameStaging`: contexts that stage alike.

## Main results

* `AdkAgent.pendingOrder_relabelled`: the calls are staged in the same order.
* `AgentDoFn.relabelled_intents`: activations over relabelled runs stage the same intents.
-/

namespace BeamAgents

open Containers

variable {f : String → String}

/-- A call under another id. -/
def AdkPendingCall.rename (f : String → String) (call : AdkPendingCall) : AdkPendingCall :=
  { call with functionCallId := f call.functionCallId }

/-- An event whose calls have other ids. -/
def AdkEvent.rename (f : String → String) (event : AdkEvent) : AdkEvent :=
  { event with
    functionCalls := event.functionCalls.map (Option.map f)
    longRunningToolIds := event.longRunningToolIds.map f }

namespace AdkRun

/-- The ids of the recorded calls. -/
def recordedIds (run : AdkRun) : List String := run.recorded.map AdkPendingCall.functionCallId

/-- The same run under other ids, with its calls recorded in another order. Among the calls that
the stream does not surface, the ids stand in the same order. -/
structure Relabelled (f : String → String) (run run' : AdkRun) : Prop where
  injective : Function.Injective f
  events : run'.events = run.events.map (AdkEvent.rename f)
  recorded : run'.recorded.Perm (run.recorded.map (AdkPendingCall.rename f))
  distinct : run.recordedIds.Nodup
  monotone : MonotoneOn f {id | id ∈ run.recordedIds ∧ id ∉ run.orderedIds}

variable {run run' : AdkRun}

theorem Relabelled.orderedIds (h : run.Relabelled f run') :
    run'.orderedIds = run.orderedIds.map f := by
  have hids (event : AdkEvent) : (event.rename f).pendingIds = event.pendingIds.map f := by
    rw [AdkEvent.pendingIds, AdkEvent.pendingIds, List.map_filterMap, AdkEvent.rename,
      List.filterMap_map]
    refine List.filterMap_congr fun id _ => ?_
    cases id with
    | none => rfl
    | some id =>
      by_cases hid : id ∈ event.longRunningToolIds <;>
        simp [Option.filter, h.injective.eq_iff, hid]
  rw [AdkRun.orderedIds, h.events, List.flatMap_map, AdkRun.orderedIds, List.map_flatMap]
  exact List.flatMap_congr fun event _ => hids event

theorem items_calls (h : run.recordedIds.Nodup) :
    run.calls.items = run.recorded.map fun call => (call.functionCallId, call) := by
  refine Dict.items_ofList ?_
  rw [List.map_map]
  exact h

theorem keys_calls (h : run.recordedIds.Nodup) : run.calls.keys = run.recordedIds := by
  rw [Dict.keys, items_calls h, List.map_map]
  rfl

theorem Relabelled.recordedIds (h : run.Relabelled f run') :
    run'.recordedIds.Perm (run.recordedIds.map f) := by
  refine (h.recorded.map _).trans (.of_eq ?_)
  rw [AdkRun.recordedIds, List.map_map, List.map_map]
  rfl

theorem Relabelled.distinct' (h : run.Relabelled f run') : run'.recordedIds.Nodup :=
  h.recordedIds.nodup_iff.mpr (h.distinct.map h.injective)

/-- A call is found under its other id. -/
theorem Relabelled.get?_calls (h : run.Relabelled f run') (id : String) :
    run'.calls.get? (f id) = (run.calls.get? id).map (AdkPendingCall.rename f) := by
  refine Option.ext fun call' => ?_
  rw [Dict.get?_eq_some_iff, items_calls h.distinct', Option.map_eq_some_iff]
  simp only [Dict.get?_eq_some_iff, items_calls h.distinct, List.mem_map, Prod.mk.injEq]
  constructor
  · rintro ⟨_, hmem, hid, rfl⟩
    obtain ⟨call, hcall, rfl⟩ := List.mem_map.mp (h.recorded.mem_iff.mp hmem)
    exact ⟨call, ⟨call, hcall, h.injective hid, rfl⟩, rfl⟩
  · rintro ⟨call, ⟨_, hcall, rfl, rfl⟩, rfl⟩
    exact ⟨_, h.recorded.mem_iff.mpr (List.mem_map_of_mem hcall), rfl, rfl⟩

end AdkRun

namespace AdkAgent

/-! ### The order of staging -/

section Order

variable {calls calls' : Dict String AdkPendingCall}

/-- What is surfaced is what was before, and the ids of the stream that have a call. -/
theorem mem_surfacedIds {seen ids : List String} {id : String} :
    id ∈ surfacedIds calls seen ids ↔ id ∈ seen ∨ id ∈ ids ∧ (calls.get? id).isSome := by
  induction ids generalizing seen with
  | nil => simp [surfacedIds]
  | cons first ids ih =>
    rw [surfacedIds]
    split_ifs with hfirst
    · rw [ih, List.mem_append, List.mem_singleton, List.mem_cons]
      constructor
      · rintro ((hmem | rfl) | ⟨hmem, hsome⟩)
        · exact .inl hmem
        · exact .inr ⟨.inl rfl, hfirst.1⟩
        · exact .inr ⟨.inr hmem, hsome⟩
      · rintro (hmem | ⟨rfl | hmem, hsome⟩)
        · exact .inl (.inl hmem)
        · exact .inl (.inr rfl)
        · exact .inr ⟨hmem, hsome⟩
    · rw [ih, List.mem_cons]
      constructor
      · rintro (hmem | ⟨hmem, hsome⟩)
        · exact .inl hmem
        · exact .inr ⟨.inr hmem, hsome⟩
      · rintro (hmem | ⟨rfl | hmem, hsome⟩)
        · exact .inl hmem
        · exact .inl (by_contra fun hnew => hfirst ⟨hsome, hnew⟩)
        · exact .inr ⟨hmem, hsome⟩

/-- The surfaced ids under other ids. -/
theorem surfacedIds_map (hf : Function.Injective f)
    (hget : ∀ id, (calls'.get? (f id)).isSome = (calls.get? id).isSome) (seen ids : List String) :
    surfacedIds calls' (seen.map f) (ids.map f) = (surfacedIds calls seen ids).map f := by
  induction ids generalizing seen with
  | nil => rfl
  | cons id ids ih =>
    have hseen : f id ∈ seen.map f ↔ id ∈ seen := List.mem_map_of_injective hf
    have hsnoc : seen.map f ++ [f id] = (seen ++ [id]).map f := by simp
    rw [List.map_cons, surfacedIds, surfacedIds]
    simp only [hget, hseen]
    split_ifs
    · rw [hsnoc, ih]
    · exact ih seen

end Order

variable {run run' : AdkRun}

/-- The ids of the calls that are left over, by id: they stand in the same order. -/
theorem leftover_relabelled (h : run.Relabelled f run') :
    (run'.calls.keys.insertionSort (· ≤ ·)).filter
        (· ∉ (surfacedIds run.calls [] run.orderedIds).map f) =
      ((run.calls.keys.insertionSort (· ≤ ·)).filter
        (· ∉ surfacedIds run.calls [] run.orderedIds)).map f := by
  have hfilter : (run.calls.keys.map f).filter
        (· ∉ (surfacedIds run.calls [] run.orderedIds).map f) =
      (run.calls.keys.filter (· ∉ surfacedIds run.calls [] run.orderedIds)).map f := by
    rw [List.filter_map]
    simp only [Function.comp_def, List.mem_map_of_injective h.injective]
  have hkeys : run'.calls.keys.Perm (run.calls.keys.map f) := by
    rw [AdkRun.keys_calls h.distinct', AdkRun.keys_calls h.distinct]
    exact h.recordedIds
  have hperm : ((run'.calls.keys.insertionSort (· ≤ ·)).filter
        (· ∉ (surfacedIds run.calls [] run.orderedIds).map f)).Perm
      (((run.calls.keys.insertionSort (· ≤ ·)).filter
        (· ∉ surfacedIds run.calls [] run.orderedIds)).map f) := by
    refine (((List.perm_insertionSort _ _).trans hkeys).filter _).trans ?_
    rw [hfilter]
    exact ((List.perm_insertionSort _ _).symm.filter _).map _
  -- Both lists are sorted, so they are the same.
  refine hperm.eq_of_pairwise' (r := (· ≤ ·)) ((List.pairwise_insertionSort _ _).filter _) ?_
  refine List.pairwise_map.mpr (List.Pairwise.imp_of_mem ?_
    ((List.pairwise_insertionSort (· ≤ ·) run.calls.keys).filter _))
  have hleft {id : String} (hmem : id ∈ (run.calls.keys.insertionSort (· ≤ ·)).filter
      (· ∉ surfacedIds run.calls [] run.orderedIds)) :
      id ∈ run.recordedIds ∧ id ∉ run.orderedIds := by
    obtain ⟨hkey, hnew⟩ := List.mem_filter.mp hmem
    rw [List.mem_insertionSort] at hkey
    have hsome : (run.calls.get? id).isSome := by
      rw [Option.isSome_iff_ne_none]
      exact fun hnone => (Dict.get?_eq_none_iff _).mp hnone hkey
    refine ⟨AdkRun.keys_calls h.distinct ▸ hkey, fun hordered => ?_⟩
    exact of_decide_eq_true hnew (mem_surfacedIds.mpr (.inr ⟨hordered, hsome⟩))
  exact fun _ _ hid hid' hle => h.monotone (hleft hid) (hleft hid') hle

/-- The ids of the calls stand in the same order. -/
theorem pendingIds_relabelled (h : run.Relabelled f run') :
    pendingIds run'.calls run'.orderedIds = (pendingIds run.calls run.orderedIds).map f := by
  have hget (id : String) : (run'.calls.get? (f id)).isSome = (run.calls.get? id).isSome := by
    rw [h.get?_calls, Option.isSome_map]
  have hsurfaced : surfacedIds run'.calls [] run'.orderedIds =
      (surfacedIds run.calls [] run.orderedIds).map f := by
    rw [h.orderedIds]
    exact surfacedIds_map h.injective hget [] run.orderedIds
  rw [pendingIds, pendingIds, hsurfaced, List.map_append, leftover_relabelled h]

/-- **The calls are staged in the same order**, whatever their ids and the order in which they were
recorded. -/
theorem pendingOrder_relabelled (h : run.Relabelled f run') :
    pendingOrder run'.calls run'.orderedIds =
      (pendingOrder run.calls run.orderedIds).map (AdkPendingCall.rename f) := by
  rw [pendingOrder, pendingIds_relabelled h, List.filterMap_map, pendingOrder, List.map_filterMap]
  exact List.filterMap_congr fun id _ => h.get?_calls id

end AdkAgent

/-! ### Contexts that stage alike -/

/-- Contexts that have staged the same and stage alike: they may differ in what is in memory. -/
structure SameStaging (ctx ctx' : ActivationContext) : Prop where
  entityKey : ctx'.entityKey = ctx.entityKey
  seq : ctx'.seq = ctx.seq
  nowMs : ctx'.nowMs = ctx.nowMs
  trace : ctx'.trace = ctx.trace
  stepIndex : ctx'.stepIndex = ctx.stepIndex
  intents : ctx'.intents = ctx.intents
  traces : ctx'.traces = ctx.traces

section Staging

variable {py : PyLib} {cfg : ContextConfig} {answers : Answers} {ctx ctx' : ActivationContext}

theorem SameStaging.refl (ctx : ActivationContext) : SameStaging ctx ctx :=
  ⟨rfl, rfl, rfl, rfl, rfl, rfl, rfl⟩

/-- An intent is the same in both. -/
theorem SameStaging.stageIntent (h : SameStaging ctx ctx') (toolName argsJson : String)
    (kind : IntentKind) (ttlMs : Option Int) :
    (ctx'.stageIntent py cfg toolName argsJson kind ttlMs).1 =
        (ctx.stageIntent py cfg toolName argsJson kind ttlMs).1 ∧
      SameStaging (ctx.stageIntent py cfg toolName argsJson kind ttlMs).2
        (ctx'.stageIntent py cfg toolName argsJson kind ttlMs).2 := by
  obtain ⟨hkey, hseq, hnow, htrace, hstep, hintents, htraces⟩ := h
  simp only [ActivationContext.stageIntent, ActivationContext.advanceStep, hkey, hseq, hnow,
    htrace, hstep, hintents, htraces]
  exact ⟨trivial, ⟨rfl, rfl, rfl, rfl, rfl, rfl, rfl⟩⟩

/-- Calls that differ in their entries only. -/
def SameCalls (calls calls' : List DeferredCall) : Prop :=
  calls.map (fun call => (call.kind, call.toolName, call.argsJson)) =
    calls'.map fun call => (call.kind, call.toolName, call.argsJson)

/-- Calls that differ in their entries are staged alike. -/
theorem SameStaging.stageAndSuspend {calls calls' : List DeferredCall}
    (hcalls : SameCalls calls calls') (suspendWith suspendWith' : DeferredSnapshot → Outcome)
    (pending pending' : SortedMap String JsonRecord) (awaits awaits' : ℕ)
    (h : SameStaging ctx ctx') :
    SameStaging ((stageAndSuspend suspendWith calls pending).run py cfg answers awaits ctx).ctx
      ((stageAndSuspend suspendWith' calls' pending').run py cfg answers awaits' ctx').ctx := by
  induction calls generalizing calls' pending pending' ctx ctx' with
  | nil =>
    cases calls' with
    | nil => exact h
    | cons call' calls' => cases hcalls
  | cons call calls ih =>
    cases calls' with
    | nil => cases hcalls
    | cons call' calls' =>
      obtain ⟨hcall, hcalls⟩ := List.cons.inj hcalls
      obtain ⟨hkind, hrest⟩ := Prod.mk.inj hcall
      obtain ⟨hname, hargs⟩ := Prod.mk.inj hrest
      rw [BeamAgents.stageAndSuspend, BeamAgents.stageAndSuspend, ← hkind, ← hname, ← hargs]
      cases call.kind with
      | tool => exact ih hcalls _ _ (h.stageIntent call.toolName call.argsJson .tool none).2
      | approval =>
        exact ih hcalls _ _ (h.stageIntent cfg.approvalChannel call.argsJson .approval none).2

end Staging

/-! ### Relabelled runs stage alike -/

namespace AdkAgent

variable {κ σ : Type} {self : AdkAgent κ σ} {run' : κ ⊕ List FunctionResponse → Prog AdkRun}
  {py : PyLib} {cfg : ContextConfig} {answers : Answers} {awaits : ℕ} {ctx : ActivationContext}

/-- The framework runs alike: where both runs end, they end in contexts that stage alike, and the
one run is the other under other ids. -/
def RunsAlike (py : PyLib) (self : AdkAgent κ σ)
    (run' : κ ⊕ List FunctionResponse → Prog AdkRun) : Prop :=
  ∀ content cfg answers awaits ctx run₁ run₂,
    ((self.run content).run py cfg answers awaits ctx).outcome = .ok run₁ →
    ((run' content).run py cfg answers awaits ctx).outcome = .ok run₂ →
    SameStaging ((self.run content).run py cfg answers awaits ctx).ctx
      ((run' content).run py cfg answers awaits ctx).ctx ∧ ∃ f, run₁.Relabelled f run₂

/-- The calls of a relabelled run differ in their entries only. -/
theorem sameCalls_relabelled {run run' : AdkRun} (h : run.Relabelled f run') :
    SameCalls ((pendingOrder run.calls run.orderedIds).map deferredCall)
      ((pendingOrder run'.calls run'.orderedIds).map deferredCall) := by
  rw [SameCalls, pendingOrder_relabelled h, List.map_map, List.map_map, List.map_map]
  rfl

/-- A run that ends in a suspension left calls pending, and they were staged. -/
theorem run_suspended {p : Prog AdkRun} {bytes : Bytes} {adapter : String} {timeoutMs : Option Int}
    (h : (((p.bind self.conclude).bind (self.adapter py).finish).run py cfg answers awaits
      ctx).outcome = .ok (.suspend bytes adapter timeoutMs)) :
    adapter = "adk" ∧ timeoutMs = self.hitlTimeoutMs ∧
      ∃ run, (p.run py cfg answers awaits ctx).outcome = .ok run ∧
      ((p.bind self.conclude).bind (self.adapter py).finish).run py cfg answers awaits ctx =
        (stageAndSuspend (self.adapter py).suspendWith
          ((pendingOrder run.calls run.orderedIds).map deferredCall) .empty).run py cfg answers
            (p.run py cfg answers awaits ctx).awaits (p.run py cfg answers awaits ctx).ctx := by
  obtain ⟨runEnd, hend, hfinish⟩ := Prog.run_bind_eq_ok h
  obtain ⟨run, hrun, hconclude⟩ := Prog.run_bind_eq_ok hend
  rw [hfinish] at h ⊢
  rw [hconclude] at h hend ⊢
  rw [conclude] at h hend ⊢
  split_ifs at h hend ⊢ with hcalls
  · cases hend
    obtain ⟨pending, houtcome, -⟩ := Adapter.run_stageAndSuspend py cfg answers
      (self.adapter py).suspendWith ((pendingOrder run.calls run.orderedIds).map deferredCall)
      .empty (p.run py cfg answers awaits ctx).awaits (p.run py cfg answers awaits ctx).ctx
    have hend := houtcome.symm.trans h
    cases hend
    exact ⟨rfl, rfl, run, hrun, rfl⟩
  · -- Without a call the run is finished, and no suspension comes of it.
    obtain ⟨session, -, hsession⟩ := Prog.run_bind_eq_ok hend
    rw [hsession] at h hend
    cases hencode : self.encodeOutput run.finalText session with
    | error e =>
      rw [hencode] at hend
      cases hend
    | ok output =>
      rw [hencode] at hend
      cases hend
      cases h

/-- Runs that are alike and end in suspensions stage alike. -/
theorem suspended_alike (hruns : self.RunsAlike py run') {content : κ ⊕ List FunctionResponse}
    {bytes bytes' : Bytes} {adapter adapter' : String} {timeoutMs timeoutMs' : Option Int}
    (h : ((((self.run content).bind self.conclude).bind (self.adapter py).finish).run py cfg answers
      awaits ctx).outcome = .ok (.suspend bytes adapter timeoutMs))
    (h' : ((((run' content).bind (conclude { self with run := run' })).bind
      (AdkAgent.adapter py { self with run := run' }).finish).run py cfg answers awaits
        ctx).outcome = .ok (.suspend bytes' adapter' timeoutMs')) :
    (adapter' = adapter ∧ timeoutMs' = timeoutMs) ∧ SameStaging
      ((((self.run content).bind self.conclude).bind (self.adapter py).finish).run py cfg answers
        awaits ctx).ctx
      ((((run' content).bind (conclude { self with run := run' })).bind
        (AdkAgent.adapter py { self with run := run' }).finish).run py cfg answers awaits
          ctx).ctx := by
  obtain ⟨hadapter, htimeout, run₁, hrun₁, heq₁⟩ := run_suspended h
  obtain ⟨hadapter', htimeout', run₂, hrun₂, heq₂⟩ := run_suspended h'
  obtain ⟨hsame, f, hf⟩ := hruns content cfg answers awaits ctx run₁ run₂ hrun₁ hrun₂
  rw [heq₁, heq₂]
  exact ⟨⟨hadapter'.trans hadapter.symm, htimeout'.trans htimeout.symm⟩,
    hsame.stageAndSuspend (sameCalls_relabelled hf) ..⟩

/-- An agent raises, suspends again, or takes a run to its end, whatever its runs come to. -/
theorem body_run (self : AdkAgent κ σ) (py : PyLib) (ctx : ActivationContext) :
    (∃ e, ∀ run, (AdkAgent.adapter py { self with run := run }).body py ctx () = .raise e) ∨
      (∃ outcome, ∀ run,
        (AdkAgent.adapter py { self with run := run }).body py ctx () = .ret outcome) ∨
      ∃ content, ∀ run, (AdkAgent.adapter py { self with run := run }).body py ctx () =
        ((run content).bind (conclude { self with run := run })).bind
          (AdkAgent.adapter py { self with run := run }).finish := by
  by_cases hresume : ctx.isResume
  · cases hload : DeferredSnapshot.load ctx.snapshot with
    | none =>
      refine .inl ⟨self.foreign ctx.snapshot, fun run => ?_⟩
      rw [Adapter.body, if_pos hresume, hload]
      rfl
    | some earlier =>
      cases hrecord : (self.adapter py).recordIncoming py ctx earlier with
      | error e =>
        refine .inl ⟨e, fun run => ?_⟩
        have hrecord' : (AdkAgent.adapter py { self with run := run }).recordIncoming py ctx
            earlier = .error e := hrecord
        simp only [Adapter.body, if_pos hresume, hload, hrecord']
      | ok snapshot =>
        have hrecord' (run : κ ⊕ List FunctionResponse → Prog AdkRun) :
            (AdkAgent.adapter py { self with run := run }).recordIncoming py ctx earlier =
              .ok snapshot := hrecord
        by_cases hunanswered : snapshot.unanswered = []
        · cases hanswers : functionResponses py snapshot.answered with
          | error e =>
            refine .inl ⟨e, fun run => ?_⟩
            have hanswers' : (AdkAgent.adapter py { self with run := run }).answers
                snapshot.answered = .error e := hanswers
            simp only [Adapter.body, if_pos hresume, hload, hrecord', hunanswered, ne_eq,
              not_true_eq_false, if_false, hanswers']
          | ok responses =>
            refine .inr (.inr ⟨.inr responses, fun run => ?_⟩)
            have hanswers' : (AdkAgent.adapter py { self with run := run }).answers
                snapshot.answered = .ok responses := hanswers
            simp only [Adapter.body, if_pos hresume, hload, hrecord', hunanswered, ne_eq,
              not_true_eq_false, if_false, hanswers']
            rfl
        · refine .inr (.inl ⟨(self.adapter py).suspendWith snapshot, fun run => ?_⟩)
          simp only [Adapter.body, if_pos hresume, hload, hrecord', ne_eq, hunanswered,
            not_false_eq_true, if_true]
          rfl
  · cases hevent : ctx.singleEvent py with
    | error e =>
      refine .inl ⟨e, fun run => ?_⟩
      rw [Adapter.body, if_neg hresume, hevent]
    | ok event =>
      cases hdecode : self.decodeEvent event with
      | error e =>
        refine .inl ⟨e, fun run => ?_⟩
        simp only [Adapter.body, if_neg hresume, hevent, adapter, hdecode]
        rfl
      | ok content =>
        refine .inr (.inr ⟨.inl content, fun run => ?_⟩)
        simp only [Adapter.body, if_neg hresume, hevent, adapter, hdecode]
        rfl

/-- Agents over runs that are alike stage alike where both suspend. -/
theorem agent_alike (hruns : self.RunsAlike py run') {bytes bytes' : Bytes}
    {adapter adapter' : String} {timeoutMs timeoutMs' : Option Int}
    (h : (((self.adapter py).agent py).run py cfg answers awaits ctx).outcome =
      .ok (.suspend bytes adapter timeoutMs))
    (h' : (((AdkAgent.adapter py { self with run := run' }).agent py).run py cfg answers awaits
      ctx).outcome = .ok (.suspend bytes' adapter' timeoutMs')) :
    (adapter' = adapter ∧ timeoutMs' = timeoutMs) ∧
    SameStaging (((self.adapter py).agent py).run py cfg answers awaits ctx).ctx
      (((AdkAgent.adapter py { self with run := run' }).agent py).run py cfg answers awaits
        ctx).ctx := by
  have hagent (other : AdkAgent κ σ) :
      ((other.adapter py).agent py).run py cfg answers awaits ctx =
        ((other.adapter py).body py ctx ()).run py cfg answers awaits ctx := rfl
  rw [hagent] at h h' ⊢
  rw [hagent]
  rcases self.body_run py ctx with ⟨e, hbody⟩ | ⟨outcome, hbody⟩ | ⟨content, hbody⟩
  · rw [hbody self.run] at h
    cases h
  · rw [hbody self.run] at h ⊢
    rw [hbody run'] at h' ⊢
    cases h
    cases h'
    exact ⟨⟨rfl, rfl⟩, .refl ctx⟩
  · rw [hbody self.run] at h ⊢
    rw [hbody run'] at h' ⊢
    exact suspended_alike hruns h h'

end AdkAgent

namespace AgentDoFn

variable {κ σ : Type} {self : AdkAgent κ σ} {run' : κ ⊕ List FunctionResponse → Prog AdkRun}
  {py : PyLib} {d : AgentDoFn} {w : World} {input : ActivationInput}
  {result result' : ActivationResult}

/-- A continuation without its snapshot. -/
def unsnapshot (cont : Continuation) : Continuation := { cont with snapshot := [] }

/-- An activation that suspends folds what its agent suspended with. -/
theorem activate_suspends {agent : Agent} (hsummarizer : d.summarizer = none)
    (h : (d.hosting agent).activate py w input = .ok result)
    (hstatus : result.status = .suspended) :
    ∃ ctx bytes adapter timeoutMs, ActivationContext.new py d.contextConfig input = .ok ctx ∧
      (agent.run py d.contextConfig w.answers 0
        (ctx.stageTrace py (startEvent py ctx input.batchTrigger))).outcome =
          .ok (.suspend bytes adapter timeoutMs) ∧
      foldOutcome py d.schema d.policy.timeoutMs w (agent.run py d.contextConfig w.answers 0
        (ctx.stageTrace py (startEvent py ctx input.batchTrigger))).ctx
          (.suspend bytes adapter timeoutMs) = .ok result := by
  unfold activate bridgeRun at h
  split_ifs at h
  obtain ⟨ctx, outcome, ctx', hnew, houtcome, hsummarized, hfold⟩ := runActivation_eq_ok h
  have hsame : (agent.run py d.contextConfig w.answers 0
      (ctx.stageTrace py (startEvent py ctx input.batchTrigger))).ctx = ctx' := by
    have hnone : (d.hosting agent).summarizer = none := hsummarizer
    rw [hnone] at hsummarized
    exact congrArg Prod.fst hsummarized
  cases outcome with
  | complete output =>
    rw [(finishActivation_ok hfold).2.2.1] at hstatus
    cases hstatus
  | other repr => cases hfold
  | suspend bytes adapter timeoutMs =>
    exact ⟨ctx, bytes, adapter, timeoutMs, hnew, houtcome, hsame ▸ hfold⟩

/-- Contexts that stage alike fold alike, but for what is in memory and in the snapshots. -/
theorem foldOutcome_alike {ctx ctx' : ActivationContext} (h : SameStaging ctx ctx')
    {schema : StateSchema} {defaultMs : Int} {bytes bytes' : Bytes} {adapter : String}
    {timeoutMs : Option Int}
    (hresult : foldOutcome py schema defaultMs w ctx (.suspend bytes adapter timeoutMs) =
      .ok result)
    (hresult' : foldOutcome py schema defaultMs w ctx' (.suspend bytes' adapter timeoutMs) =
      .ok result') :
    result'.intents = result.intents ∧ result'.traces = result.traces ∧
      result'.continuation.map unsnapshot = result.continuation.map unsnapshot := by
  obtain ⟨hkey, hseq, hnow, htrace, hstep, hintents, htraces⟩ := h
  simp only [foldOutcome, finishActivation, ActivationContext.buildContinuation,
    ActivationContext.stageTrace, hseq, hnow, htrace, hstep, hintents, htraces] at hresult hresult'
  split at hresult
  · cases hresult
  split at hresult'
  · cases hresult'
  cases hresult
  cases hresult'
  exact ⟨rfl, rfl, rfl⟩

/-- **The intents of an ADK agent do not depend on the ids that the framework chooses**, nor on the
order in which it ran the tools of one turn. Let two frameworks run alike, but for the ids of
function calls and the order in which the tools recorded them. Where an activation suspends with
the one and with the other, it stages the same intents and the same traces, and its continuations
differ in their snapshots only. -/
theorem relabelled_intents (hsummarizer : d.summarizer = none) (hruns : self.RunsAlike py run')
    (h : (d.hosting ((self.adapter py).agent py)).activate py w input = .ok result)
    (hstatus : result.status = .suspended)
    (h' : (d.hosting ((AdkAgent.adapter py { self with run := run' }).agent py)).activate py w
      input = .ok result')
    (hstatus' : result'.status = .suspended) :
    result'.intents = result.intents ∧ result'.traces = result.traces ∧
      result'.continuation.map unsnapshot = result.continuation.map unsnapshot := by
  obtain ⟨ctx, bytes, adapter, timeoutMs, hnew, houtcome, hfold⟩ :=
    activate_suspends hsummarizer h hstatus
  obtain ⟨ctx', bytes', adapter', timeoutMs', hnew', houtcome', hfold'⟩ :=
    activate_suspends hsummarizer h' hstatus'
  obtain rfl : ctx = ctx' := Except.ok.inj (hnew.symm.trans hnew')
  obtain ⟨⟨rfl, rfl⟩, hsame⟩ := AdkAgent.agent_alike hruns houtcome houtcome'
  exact foldOutcome_alike hsame hfold hfold'

/-- An agent whose runs ask for a charge and a mail in one turn. -/
def chargingAgent : AdkAgent Unit Unit where
  run _ := .ret {
    events := [{ functionCalls := [some "a", some "b"], longRunningToolIds := ["a", "b"] }]
    recorded := [⟨.tool, "charge", .object [], "a"⟩, ⟨.tool, "mail", .object [], "b"⟩] }
  getSession := .ret ()
  decodeEvent _ := .ok ()
  encodeOutput _ _ := .ok []
  foreign _ := ⟨.other, "ValueError", "ValueError()"⟩

/-- The same runs under other ids, with the mail recorded first. -/
def chargingAgain (_ : Unit ⊕ List FunctionResponse) : Prog AdkRun := .ret {
  events := [{ functionCalls := [some "a2", some "b2"], longRunningToolIds := ["a2", "b2"] }]
  recorded := [⟨.tool, "mail", .object [], "b2"⟩, ⟨.tool, "charge", .object [], "a2"⟩] }

theorem chargingAgain_alike : chargingAgent.RunsAlike (.ofTable identityTable) chargingAgain := by
  rintro content cfg answers awaits ctx run₁ run₂ ⟨⟩ ⟨⟩
  refine ⟨.refl ctx, (· ++ "2"), ?_, rfl, List.Perm.swap .., by decide, ?_⟩
  · exact fun s t hst => (String.append_left_inj "2").mp hst
  · rintro id ⟨hid, hleft⟩
    exact absurd hid hleft

/-- What has a result came to it. -/
theorem toOption_eq_some {ε α : Type} {x : Except ε α} {a : α} (h : x.toOption = some a) :
    x = .ok a := by
  cases x with
  | error e => cases h
  | ok b =>
    cases h
    rfl

/-- Both stage the charge before the mail, and their snapshots differ. -/
theorem relabelled_intents_charging :
    let py := PyLib.ofTable identityTable
    let activate (agent : AdkAgent Unit Unit) :=
      (deferringDoFn.hosting ((agent.adapter py).agent py)).activate py quietWorld
        (startInput [107] 1000 [1] {} none none)
    ∃ result result', activate chargingAgent = .ok result ∧
      activate { chargingAgent with run := chargingAgain } = .ok result' ∧
      result.intents.map (·.toolName) = ["charge", "mail"] ∧ result'.intents = result.intents ∧
      result'.continuation ≠ result.continuation := by
  intro py activate
  have hactivated : (activate chargingAgent).toOption.map (fun r => (r.status,
      r.intents.map (·.toolName))) = some (.suspended, ["charge", "mail"]) := by
    decide +kernel
  have hagain : (activate { chargingAgent with run := chargingAgain }).toOption.map (·.status) =
      some .suspended := by
    decide +kernel
  have hdiffer : (activate { chargingAgent with run := chargingAgain }).toOption.map
      (·.continuation) ≠ (activate chargingAgent).toOption.map (·.continuation) := by
    decide +kernel
  obtain ⟨result, hresult, hparts⟩ := Option.map_eq_some_iff.mp hactivated
  obtain ⟨result', hresult', hstatus'⟩ := Option.map_eq_some_iff.mp hagain
  obtain ⟨hstatus, hnames⟩ := Prod.mk.inj hparts
  rw [hresult, hresult'] at hdiffer
  have hok : activate chargingAgent = .ok result := toOption_eq_some hresult
  have hok' : activate { chargingAgent with run := chargingAgain } = .ok result' :=
    toOption_eq_some hresult'
  obtain ⟨hintents, -, -⟩ := relabelled_intents rfl chargingAgain_alike hok hstatus hok' hstatus'
  exact ⟨result, result', hok, hok', hnames, hintents, fun hsame => hdiffer (congrArg some hsame)⟩

end AgentDoFn

end BeamAgents
