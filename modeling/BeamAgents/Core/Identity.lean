import BeamAgents.Core.Calls
import BeamAgents.Transition.Minting

/-!
# Intent identity

Between two wipes the transform is a minter: its counter is `SEQ`, its open session is the stored
continuation with the step index it resumes from, a fresh activation or a flush starts a session, a
resume resumes it, an escalation extends it, and a `Deny` or a `Drop` closes it. What runs of a
minter are known to do then holds of the transform.

## Main definitions

* `intentsOf`, `activationsOf`: the intents emitted and the activations counted.
* `AgentDoFn.Mints`: the relation between a key and its minter.

## Main results

* `AgentDoFn.minting`: the simulation.
* `AgentDoFn.intent_identity`: emitted intents are pairwise distinct, with the invariant behind it.
-/

namespace BeamAgents

open Transition

/-- The intents among the effects, in the order they are emitted. -/
def intentsOf (effects : List Effect) : List ToolIntent :=
  effects.filterMap fun
    | .emit (.intents i) => some i
    | _ => none

/-- The activations that the effects count as committed. -/
def activationsOf (effects : List Effect) : ℕ :=
  effects.countP fun
    | .incr .activations _ => true
    | _ => false

/-- A call of `on_ttl`. -/
def KeyCall.isTtl : KeyCall → Bool
  | .onTtl .. => true
  | _ => false

/-- What an effect is to the minter. -/
def Effect.issue : Effect → Option (Minter.Issue ℕ)
  | .incr .activations _ => some .commit
  | .emit (.intents i) => some (.stamp i.seq i.stepIndex)
  | _ => none

theorem stamps_issue (effects : List Effect) :
    Minter.stamps (effects.filterMap Effect.issue) =
      (intentsOf effects).map fun i => (i.seq, i.stepIndex) := by
  rw [Minter.stamps, intentsOf, List.filterMap_filterMap, List.map_filterMap]
  refine List.filterMap_congr fun e _ => ?_
  rcases e with _ | _ | _ | _ | _ | _ | _ | _ | _ | _ | _ | _ | _ | _ | _ | _ | _ | o | ⟨c, n⟩ | _
  case emit => cases o <;> rfl
  case incr => cases c <;> rfl
  all_goals rfl

theorem commits_issue (effects : List Effect) :
    Minter.commits (effects.filterMap Effect.issue) = activationsOf effects := by
  rw [Minter.commits, activationsOf, List.countP_filterMap]
  refine List.countP_congr fun e _ => ?_
  rcases e with _ | _ | _ | _ | _ | _ | _ | _ | _ | _ | _ | _ | _ | _ | _ | _ | _ | o | ⟨c, n⟩ | _
  case emit => cases o <;> simp [Effect.issue]
  case incr => cases c <;> simp [Effect.issue]
  all_goals simp [Effect.issue]

theorem Effect.issue_of_quiet {e : Effect} (h : e.quiet = true) : e.issue = none := by
  rcases e with _ | _ | _ | _ | _ | _ | _ | _ | _ | _ | _ | _ | _ | _ | _ | _ | _ | o | ⟨c, n⟩ | _
  case emit => cases o <;> simp_all [Effect.quiet, Effect.issue]
  case incr => cases c <;> simp_all [Effect.quiet, Effect.issue]
  all_goals rfl

theorem Quiet.issue {es : List Effect} (h : Quiet es) : es.filterMap Effect.issue = [] :=
  List.filterMap_eq_nil_iff.mpr fun e he => Effect.issue_of_quiet (h e he)

theorem activationsOf_append (es fs : List Effect) :
    activationsOf (es ++ fs) = activationsOf es + activationsOf fs :=
  List.countP_append

@[simp] theorem intentsOf_append (es fs : List Effect) :
    intentsOf (es ++ fs) = intentsOf es ++ intentsOf fs :=
  List.filterMap_append

/-- Effects that are nothing to the minter emit no intent. -/
theorem intentsOf_of_issue {es : List Effect} (h : es.filterMap Effect.issue = []) :
    intentsOf es = [] := by
  have hstamps := stamps_issue es
  rw [h] at hstamps
  exact List.map_eq_nil_iff.mp hstamps.symm

theorem Quiet.intentsOf {es : List Effect} (h : Quiet es) : intentsOf es = [] :=
  intentsOf_of_issue h.issue

/-- Effects that are nothing to the minter count no activation. -/
theorem activationsOf_of_issue {es : List Effect} (h : es.filterMap Effect.issue = []) :
    activationsOf es = 0 := by
  rw [← commits_issue, h]
  rfl

theorem Quiet.activationsOf {es : List Effect} (h : Quiet es) : activationsOf es = 0 :=
  activationsOf_of_issue h.issue

namespace AgentDoFn

variable {d : AgentDoFn} {py : PyLib} {key : Bytes} {s s' : KeyState}

theorem Buffered.issue {c : KeyCall} {pre : List Effect} (h : d.Buffered s c pre) :
    pre.filterMap Effect.issue = [] := by
  cases h with
  | no => rfl
  | yes =>
    simp only [bufferEffects]
    split_ifs <;> rfl

/-- The writes and the timers of a commit issue nothing. -/
theorem issue_commitState (w : World) (result : ActivationResult) (nowMs : Int)
    (caller : CommitOf) :
    (commitCells result caller ++ d.commitTimers result nowMs ++
      d.commitFlushTimer s w result caller).filterMap Effect.issue = [] := by
  have hcells : (commitCells result caller).filterMap Effect.issue = [] := by
    rw [List.filterMap_eq_nil_iff]
    intro e he
    simp only [commitCells, List.mem_append, List.mem_map, List.mem_cons, List.not_mem_nil,
      or_false] at he
    rcases he with (((rfl | rfl | rfl | rfl) | ⟨i, -, rfl⟩) | he) | rfl
    all_goals try rfl
    · cases result.continuation <;> rfl
    · cases caller <;> simp_all [Effect.issue]
  have htimers : (d.commitTimers result nowMs).filterMap Effect.issue = [] := by
    unfold commitTimers
    split <;> rfl
  have hflush : Quiet (d.commitFlushTimer s w result caller) := by
    cases caller with
    | resume =>
      simp only [commitFlushTimer]
      split_ifs
      · exact quiet_rearmFlush d s w
      · exact .nil
    | _ => simp [commitFlushTimer, Effect.quiet]
  rw [List.filterMap_append, List.filterMap_append, hcells, htimers, hflush.issue]
  rfl

/-- A commit emits the intents of its result. -/
theorem intentsOf_commit (w : World) (result : ActivationResult) (nowMs : Int)
    (caller : CommitOf) :
    intentsOf (sampleActivation w :: d.commit s w result nowMs caller) = result.intents := by
  obtain ⟨rest, hrecord, hrest⟩ := recordCommit_eq result (activationMs w) caller
  have hmain : intentsOf (result.outputs.map fun b => .emit (.main b)) = [] := by
    simp [intentsOf]
  have htraces : intentsOf (result.traces.map fun t => .emit (.traces t)) = [] := by
    simp [intentsOf]
  have hintents : intentsOf (result.intents.map fun i => .emit (.intents i)) = result.intents := by
    simp [intentsOf]
  have hhead : intentsOf (sampleActivation w :: (commitCells result caller ++
      d.commitTimers result nowMs ++ d.commitFlushTimer s w result caller)) = [] :=
    intentsOf_of_issue (issue_commitState w result nowMs caller)
  have hmetrics : intentsOf (.incr .activations :: rest) = [] := hrest.quiet.intentsOf
  rw [commit, ← List.cons_append, ← List.cons_append, intentsOf_append, intentsOf_append, hhead,
    hrecord, hmetrics, commitOutputs, intentsOf_append, intentsOf_append, hmain, hintents, htraces,
    List.nil_append, List.nil_append, List.nil_append, List.append_nil]

/-- A commit issues the steps of its intents, after the mark of the commit. -/
theorem issue_commit (w : World) (result : ActivationResult) (nowMs : Int) (caller : CommitOf)
    {q : ℕ} (hseq : ∀ i ∈ result.intents, i.seq = q) :
    (sampleActivation w :: d.commit s w result nowMs caller).filterMap Effect.issue =
      Minter.issued q (result.intents.map ToolIntent.stepIndex) := by
  obtain ⟨rest, hrecord, hrest⟩ := recordCommit_eq result (activationMs w) caller
  have houtputs : (commitOutputs result).filterMap Effect.issue =
      result.intents.map fun i => .stamp q i.stepIndex := by
    simp only [commitOutputs, List.filterMap_append, List.filterMap_map]
    have hmain : result.outputs.filterMap (Effect.issue ∘ fun b => .emit (.main b)) = [] :=
      List.filterMap_eq_nil_iff.mpr fun _ _ => rfl
    have htraces : result.traces.filterMap (Effect.issue ∘ fun t => .emit (.traces t)) = [] :=
      List.filterMap_eq_nil_iff.mpr fun _ _ => rfl
    rw [hmain, htraces, List.nil_append, List.append_nil, ← List.filterMap_eq_map]
    refine List.filterMap_congr fun i hi => ?_
    simp [Effect.issue, hseq i hi]
  have hmark : (Effect.incr .activations :: rest).filterMap Effect.issue = [.commit] := by
    have hcommit : (Effect.incr .activations).issue = some .commit := rfl
    rw [List.filterMap_cons_some hcommit, hrest.quiet.issue]
  rw [commit, List.filterMap_cons_none rfl, List.filterMap_append, List.filterMap_append,
    issue_commitState, hrecord, hmark, houtputs, Minter.issued, List.map_map]
  rfl

/-- A commit counts one activation. -/
theorem activationsOf_commit {w : World} {input : ActivationInput} {result : ActivationResult}
    (nowMs : Int) (caller : CommitOf) (hresult : d.activate py w input = .ok result) :
    activationsOf (sampleActivation w :: d.commit s w result nowMs caller) = 1 := by
  obtain ⟨cursor, hv⟩ := activate_valid hresult
  rw [← commits_issue, issue_commit w result nowMs caller hv.minted.seq,
    Minter.commits_issued]

/-- The end of a suspension issues nothing. -/
theorem issue_endSuspension (cont : Continuation) (fired : Int) (route : Route) (detail : String)
    (w : World) :
    (d.endSuspension py key cont fired route detail s w).filterMap Effect.issue = [] := by
  have hrecord : (timeoutRecord key fired route detail).filterMap Effect.issue = [] := by
    cases route with
    | deny output => rfl
    | drop reason => exact (quiet_deadLetter key reason detail fired).issue
    | escalate => rfl
  simp only [endSuspension, List.filterMap_append, (quiet_rearmFlush d s w).issue, hrecord]
  rfl

/-- A wipe issues nothing. -/
theorem issue_wiped (fired : Int) (cont : Option Continuation) :
    (wipedSuspension py key fired cont ++
      (d.wipedBatch key fired s ++ d.wipe)).filterMap Effect.issue = [] := by
  have hwipe : d.wipe.filterMap Effect.issue = [] := by
    unfold wipe
    split_ifs <;> rfl
  rw [List.filterMap_append, List.filterMap_append, hwipe,
    (quiet_wipedSuspension py key fired cont).issue, (quiet_wipedBatch d key fired s).issue]
  rfl

/-- The minter that a key is: the counter is `SEQ`, and the open session is that of the stored
continuation, which is of the current version. -/
structure Mints (d : AgentDoFn) (s : KeyState) (m : Minter ℕ) : Prop where
  counter : m.counter = s.seq
  opened : m.opened = s.continuation.map fun c => (c.seq, c.stepIndex)
  current : d.Current s

theorem Mints.of_core {m : Minter ℕ} (h : d.Mints s m) (hcore : s'.core = s.core) :
    d.Mints s' m := by
  have hseq : s'.seq = s.seq := congrArg KeyCore.seq hcore
  have hcont : s'.continuation = s.continuation := congrArg KeyCore.continuation hcore
  exact ⟨h.counter.trans hseq.symm, by rw [hcont, h.opened], h.current.of_core hcore⟩

/-- What a commit leaves open: the session it was given, at the cursor of its result. -/
private theorem mints_commit {m : Minter ℕ} (h : d.Mints s m) {w : World} {caller : CommitOf}
    {input : ActivationInput} {result : ActivationResult} {cursor : ℕ}
    (hv : result.Valid py d.schema input cursor) :
    d.Mints (s.applyAll (sampleActivation w :: d.commit s w result input.nowMs caller))
      ⟨m.counter + 1, (result.continuation.map Continuation.stepIndex).map fun k =>
        (input.seq, k)⟩ := by
  rw [applyAll_sampleActivation, applyAll_commit]
  refine ⟨by rw [h.counter], ?_, hv.contVersion⟩
  cases hc : result.continuation with
  | none => rfl
  | some c =>
    have := hv.contSeq c (by simp [hc])
    simp [this]

/-- One call of a shape, on the minter. -/
theorem Mints.shape {m : Minter ℕ} (h : d.Mints s m) {c : KeyCall} {es : List Effect}
    (hs : d.Shape py key s c es) (httl : c.isTtl = false) :
    ∃ acts m', (Minter.machine ℕ).Run m acts (es.filterMap Effect.issue) m' ∧
      d.Mints (s.applyAll es) m' := by
  cases hs with
  | quiet hq =>
    rw [hq.issue]
    exact ⟨[], m, .refl, h.of_core hq.applyAll.1⟩
  | @commit _ w caller input result _ hact hresult hes =>
    subst hes
    obtain ⟨cursor, hv⟩ := activate_valid hresult
    have hcursor : ∀ k ∈ result.continuation.map Continuation.stepIndex, input.stepIndex ≤ k ∧
        ∀ n ∈ result.intents.map ToolIntent.stepIndex, n < k := by
      intro k hk
      obtain ⟨cont, hcont, rfl⟩ := Option.map_eq_some_iff.mp hk
      rw [hv.contStep cont hcont]
      refine ⟨hv.cursor_le, fun n hn => ?_⟩
      obtain ⟨i, hi, rfl⟩ := List.mem_map.mp hn
      exact hv.minted.upper i hi
    rw [issue_commit w result input.nowMs caller hv.minted.seq]
    -- A start and a flush open the session of the counter, a resume goes on with the open one.
    have hstart (hseq : input.seq = s.seq) : ∃ act, Minter.Step m act
        ⟨m.counter + 1, (result.continuation.map Continuation.stepIndex).map fun k =>
          (input.seq, k)⟩ (Minter.issued input.seq (result.intents.map ToolIntent.stepIndex)) := by
      rw [hseq, ← h.counter]
      exact ⟨_, .start hv.minted.increasing fun k hk => (hcursor k hk).2⟩
    obtain ⟨act, hstep⟩ : ∃ act, Minter.Step m act
        ⟨m.counter + 1, (result.continuation.map Continuation.stepIndex).map fun k =>
          (input.seq, k)⟩ (Minter.issued input.seq (result.intents.map ToolIntent.stepIndex)) := by
      cases hact with
      | start hbatch hevent hmemory hcache => exact hstart rfl
      | flush hbatch hcont hmemory hcache hbuffer hcall => exact hstart rfl
      | @resume envelope _ cont intentId memoryBlob cacheBlob hanswers hcont hadmission hmemory
          hcache =>
        have hopened : m.opened = some (cont.seq, cont.stepIndex) := by
          rw [h.opened, h.current.stored hcont]
          rfl
        refine ⟨_, .resume hopened hv.minted.increasing (fun n hn => ?_) hcursor⟩
        obtain ⟨i, hi, rfl⟩ := List.mem_map.mp hn
        exact hv.minted.lower i hi
    exact ⟨_, _, .single hstep, mints_commit h hv⟩
  | @escalate micros w cont toolName argsJson timeoutMs detail hcont hdue hroute =>
    have hstored := h.current.stored hcont
    have hopened : m.opened = some (cont.seq, cont.stepIndex) := by rw [h.opened, hstored]; rfl
    refine ⟨_, _, .single (.extend hopened (Nat.lt_succ_self _)), h.counter, rfl, fun c hc => ?_⟩
    cases hc
    exact h.current cont hstored
  | @ended micros w cont route detail hcont hdue hroute hends =>
    refine ⟨_, ⟨m.counter, none⟩, .single (a := .close) ?_, ?_⟩
    · rw [issue_endSuspension]
      exact .close
    · rw [applyAll_endSuspension]
      exact ⟨h.counter, rfl, by simp [Current]⟩
  | wiped hcont => exact absurd httl (by simp [KeyCall.isTtl])

/-- The transform without wipes. -/
def unwiped (d : AgentDoFn) (py : PyLib) (key : Bytes) : Machine KeyState KeyCall Effect :=
  (d.machine py key).guarded fun _ c => c.isTtl = false

/-- **The transform mints.** Without wipes, the transform is simulated by its minter. -/
theorem minting (d : AgentDoFn) (py : PyLib) (key : Bytes) :
    Machine.Simulation (d.unwiped py key) (Minter.machine ℕ) d.Mints Effect.issue where
  step := by
    rintro s m c s' effects hm ⟨httl, hcall, rfl⟩
    obtain ⟨pre, es, rfl, hpre, hshape⟩ := call_shape hcall
    have hm' : d.Mints (s.applyAll pre) m := hm.of_core hpre.core
    rw [List.filterMap_append, hpre.issue, List.nil_append, KeyState.applyAll_append]
    exact hm'.shape hshape httl

/-- The intents of a call are those of the result it committed, or the one it escalated to. -/
theorem Shape.intents {c : KeyCall} {es : List Effect} (h : d.Shape py key s c es) :
    ∀ i ∈ intentsOf es, i.entityKey = key ∧ i.intentId = intentIdFor py key i.seq i.stepIndex := by
  cases h with
  | quiet hq => simp [hq.intentsOf]
  | @commit _ w caller input result _ hact hresult hes =>
    subst hes
    obtain ⟨cursor, hv⟩ := activate_valid hresult
    rw [intentsOf_commit]
    intro i hi
    rw [hv.minted.seq i hi, hv.minted.entityKey i hi, hv.minted.intentId i hi, hact.entityKey]
    exact ⟨rfl, rfl⟩
  | escalate hcont hdue hroute =>
    intro i hi
    obtain rfl := List.mem_singleton.mp hi
    exact ⟨rfl, rfl⟩
  | ended hcont hdue hroute hends => simp [intentsOf_of_issue (issue_endSuspension _ _ _ _ _)]
  | wiped hcont => simp [intentsOf_of_issue (issue_wiped _ _)]

/-- Every intent of a call is named by its key, its `seq` and its step. -/
theorem call_intents {c : KeyCall} {effects : List Effect}
    (hcall : d.call py key s c = ⟨effects, none⟩) :
    ∀ i ∈ intentsOf effects, i.entityKey = key ∧
      i.intentId = intentIdFor py key i.seq i.stepIndex := by
  obtain ⟨pre, es, rfl, hpre, hshape⟩ := call_shape hcall
  rw [intentsOf_append, intentsOf_of_issue hpre.issue, List.nil_append]
  exact hshape.intents

theorem run_intents {s₀ : KeyState} {calls : List KeyCall} {effects : List Effect}
    (h : (d.machine py key).Run s₀ calls effects s) :
    ∀ i ∈ intentsOf effects, i.entityKey = key ∧
      i.intentId = intentIdFor py key i.seq i.stepIndex := by
  induction h with
  | refl => simp [intentsOf]
  | tail _ hs ih =>
    intro i hi
    rw [intentsOf_append, List.mem_append] at hi
    exact hi.elim (ih i) (call_intents hs.1 i)

/-- **Intent identity within one state generation.** Along every run of one key without a wipe,
from a state with `SEQ = 0` and no continuation: `SEQ` is the number of committed activations and
exceeds the `seq` of every intent emitted so far; a stored continuation resumes past every step
emitted under its `seq`; the emitted intents carry pairwise distinct `(seq, step_index)`, and, with
an injective `uuid5`, pairwise distinct intent ids. -/
theorem intent_identity (d : AgentDoFn) (py : PyLib) (key : Bytes) {s₀ s : KeyState}
    {calls : List KeyCall} {effects : List Effect} (hseq : s₀.seq = 0)
    (hcont : s₀.continuation = none) (h : (d.unwiped py key).Run s₀ calls effects s) :
    s.seq = activationsOf effects ∧
    (∀ i ∈ intentsOf effects, i.seq < s.seq) ∧
    (∀ c ∈ s.continuation, ∀ i ∈ intentsOf effects, i.seq = c.seq → i.stepIndex < c.stepIndex) ∧
    (intentsOf effects).Pairwise (fun i j => (i.seq, i.stepIndex) ≠ (j.seq, j.stepIndex)) ∧
    (Function.Injective (fun name => (py.uuid5 intentNamespace name).text) →
      (intentsOf effects).Pairwise fun i j => i.intentId ≠ j.intentId) := by
  have h₀ : d.Mints s₀ ⟨0, none⟩ := ⟨hseq.symm, by rw [hcont]; rfl, by simp [Current, hcont]⟩
  obtain ⟨acts, m, hrun, hm⟩ := (minting d py key).run h₀ h
  obtain ⟨hcount, hcovers, hdistinct⟩ := Minter.run_spec hrun
  rw [commits_issue, hm.counter, Nat.zero_add] at hcount
  rw [stamps_issue] at hcovers hdistinct
  have hpairs : (intentsOf effects).Pairwise fun i j =>
      (i.seq, i.stepIndex) ≠ (j.seq, j.stepIndex) := List.pairwise_map.mp hdistinct
  refine ⟨hcount, fun i hi => ?_, fun c hc i hi hic => ?_, hpairs, fun hpy => ?_⟩
  · rw [← hm.counter]
    exact hcovers.counter _ (List.mem_map_of_mem hi)
  · have hopened : m.opened = some (c.seq, c.stepIndex) := by
      rw [hm.opened, Option.mem_def.mp hc]
      rfl
    exact hcovers.cursor _ _ hopened _ (List.mem_map_of_mem hi) hic
  · -- Equal ids name equal steps, since both intents are of this key.
    have hnamed := run_intents h.of_guarded
    refine hpairs.imp_of_mem fun {i j} hi hj hij hid => hij ?_
    rw [(hnamed i hi).2, (hnamed j hj).2] at hid
    obtain ⟨hq, hn⟩ := intentIdFor_injective hpy key hid
    rw [hq, hn]

/-! ### A run with every kind of emission -/

/-- The `uuid5` values behind the run below. -/
def identityTable : List (String × String) :=
  [("6b|0|0", "6509fb29-9e35-5f25-bf85-b7860d49a026"),
    ("6b|0|1", "2e047468-1bb8-5717-8cb0-d8e98f15a767"),
    ("6b|0|2", "cf8bf923-306f-5146-82a8-520e5a27f716"),
    ("6b|2|0", "8b8c3310-1f6c-5530-b608-51790b092a81")]

/-- An agent that asks and suspends, and acts once more when it is resumed. Its timeouts escalate
once. -/
def askingAgent : AgentDoFn where
  agent := .read fun ctx => .perform (.act "ask" "{}") fun _ =>
    .ret (if ctx.isResume then .complete else .suspend)
  policy :=
    { timeoutMs := 1000, maxEscalations := 1, onTimeout := fun _ => .ok (.escalate "pager") }

/-- An event, an escalation, the answer to the first intent, and another event. -/
def identityCalls : List KeyCall :=
  [.process ⟨[107], 1000, .externalEvent [1]⟩ quietWorld,
    .onHitl 2000000 quietWorld,
    .process ⟨[107], 2500, .toolResult { intentId := "6509fb29-9e35-5f25-bf85-b7860d49a026" }⟩
      quietWorld,
    .process ⟨[107], 5000, .externalEvent [2]⟩ quietWorld]

/-- The run emits four intents in three activations and one escalation, all of them distinct. -/
theorem intent_identity_run : ∃ effects s,
    (askingAgent.unwiped (.ofTable identityTable) [107]).Run {} identityCalls effects s ∧
    (intentsOf effects).map (fun i => (i.seq, i.stepIndex)) = [(0, 0), (0, 1), (0, 2), (2, 0)] ∧
    s.seq = activationsOf effects ∧ activationsOf effects = 3 ∧
    (intentsOf effects).Pairwise fun i j => i.intentId ≠ j.intentId := by
  have hexec : ((askingAgent.exec (.ofTable identityTable) [107] {} identityCalls).map fun r =>
      ((intentsOf r.1).map (fun i => (i.seq, i.stepIndex)), activationsOf r.1)) =
      some ([(0, 0), (0, 1), (0, 2), (2, 0)], 3) := by decide
  obtain ⟨⟨effects, s⟩, hr, heq⟩ := Option.map_eq_some_iff.mp hexec
  obtain ⟨hsteps, hcount⟩ := Prod.mk.injEq .. ▸ heq
  have hunwiped : ∀ c ∈ identityCalls, c.isTtl = false := by decide
  have hrun : (askingAgent.unwiped (.ofTable identityTable) [107]).Run {} identityCalls effects s :=
    exec_run hr fun _ => hunwiped
  obtain ⟨hseq, -, -, -, hids⟩ := intent_identity _ _ _ rfl rfl hrun
  exact ⟨effects, s, hrun, hsteps, hseq, hcount, hids (PyLib.ofTable_injective _ _)⟩

end AgentDoFn

end BeamAgents
