import BeamAgents.Core.Admission
import BeamAgents.Core.Conservation
import BeamAgents.Core.Identity
import BeamAgents.Core.Sharding
import BeamAgents.Memory.Convergence

/-!
# The transform behind sharded keys

A stage runs the transform on every key of its own. When its events come through `ShardKeys`, each
shard is such a key. What a shard emits then tells the shard and the logical key, no two shards mint
the same intent, and an answer that comes in under the logical key, where no event is ever seen,
resumes nothing.

## Main definitions

* `AgentDoFn.Stage`: a run of the transform on every key.

## Main results

* `AgentDoFn.Stage.shards_apart`.
-/

namespace BeamAgents

open Transition

/-- The text that names a step determines its key. -/
theorem intentName_key {key key' : Bytes} {seq seq' step step' : ℕ}
    (h : intentName key seq step = intentName key' seq' step') : key = key' := by
  have hdigit : ∀ n < 16, hexDigit n ≠ '|' := by decide
  have hbar (key : Bytes) : '|' ∉ key.hex.toList := by
    rw [Bytes.hex, String.toList_ofList, List.mem_flatMap]
    rintro ⟨x, -, hx⟩
    have hlt := x.toNat_lt
    rw [List.mem_cons, List.mem_singleton] at hx
    rcases hx with hx | hx
    · exact hdigit _ (by omega) hx.symm
    · exact hdigit _ (by omega) hx.symm
  have hl := congrArg String.toList h
  simp only [intentName, String.toList_append, List.append_assoc] at hl
  exact hex_inj (String.toList_injective (split_at_first (hbar key) (hbar key') hl).1)

namespace AgentDoFn

variable {d : AgentDoFn} {py : PyLib} {key : Bytes} {s : KeyState}

/-- Nothing is suspended and nothing is buffered. -/
structure Resting (s : KeyState) : Prop where
  continuation : s.continuation = none
  batch : s.batch = []

/-- The records of answers that come in while nothing is suspended. -/
def orphans (key : Bytes) (calls : List KeyCall) : List ActivationError :=
  calls.filterMap fun c => c.answers.map fun intentId =>
    ⟨key, reasonOrphaned, s!"{AdmissionDetail.noContinuation.text}:{intentId}", c.timeMs⟩

/-- On a resting key a call that brings no event dead-letters the answer it brings, and does nothing
else. -/
theorem Resting.call (h : Resting s) {c : KeyCall} (hevent : c.event = none) {effects : List Effect}
    (hcall : d.call py key s c = ⟨effects, none⟩) :
    Resting (s.applyAll effects) ∧ intentsOf effects = [] ∧ activationsOf effects = 0 ∧
      errorsOf effects = orphans key [c] := by
  have hcont : d.schema.migrateContinuation s.continuation = .ok none := by
    rw [h.continuation]
    rfl
  -- A call with quiet effects only that leaves the buffer.
  have hquiet (hq : Quiet effects) (hbatch : (s.applyAll effects).batch = s.batch)
      (herrors : errorsOf effects = orphans key [c]) :
      Resting (s.applyAll effects) ∧ intentsOf effects = [] ∧ activationsOf effects = 0 ∧
        errorsOf effects = orphans key [c] := by
    have hcore := congrArg KeyCore.continuation (hq.applyAll (s := s)).1
    exact ⟨⟨hcore.trans h.continuation, hbatch.trans h.batch⟩, hq.intentsOf, hq.activationsOf,
      herrors⟩
  have hrefused (now : Int) (intentId : String) (resumeResult : Option ToolResult)
      (approval : Option Approval) (w : World) :
      d.resume py key now intentId resumeResult approval s w =
        ⟨refusedResume py key now intentId none .noContinuation s, none⟩ := by
    rw [resume, hcont]
  cases c with
  | process envelope w =>
    simp only [AgentDoFn.call, process] at hcall
    cases hp : envelope.payload with
    | exportRequest requestId =>
      simp only [hp] at hcall
      cases hcall
      exact hquiet (by simp [Effect.quiet]) rfl
        (by simp [orphans, KeyCall.answers, AgentEnvelope.answers, hp, errorsOf])
    | toolResult result =>
      simp only [hp, hrefused] at hcall
      cases hcall
      exact hquiet (quiet_refusedResume py key _ _ _ _ _) rfl
        (by simp [orphans, KeyCall.answers, AgentEnvelope.answers, hp, KeyCall.timeMs,
          refusedResume, errorTrace, errorsOf])
    | approval approval =>
      simp only [hp, hrefused] at hcall
      cases hcall
      exact hquiet (quiet_refusedResume py key _ _ _ _ _) rfl
        (by simp [orphans, KeyCall.answers, AgentEnvelope.answers, hp, KeyCall.timeMs,
          refusedResume, errorTrace, errorsOf])
    | externalEvent event => simp [KeyCall.event, AgentEnvelope.isEvent, hp] at hevent
    | unset => simp [KeyCall.event, AgentEnvelope.isEvent, hp] at hevent
  | onTtl micros w =>
    simp only [AgentDoFn.call, onTtl, hcont] at hcall
    obtain ⟨es, hx, rfl⟩ := Exit.after_eq_ok hcall
    split at hx
    · cases hx
    cases hx
    have hnone : d.wipedBatch key (firedAtMs micros) s = [] := by
      simp [wipedBatch, h.batch]
    rw [hnone, List.nil_append, applyAll_wipe]
    refine ⟨⟨rfl, by simp [h.batch]⟩, ?_⟩
    unfold wipe
    split_ifs <;> exact ⟨rfl, rfl, rfl⟩
  | onFlush w =>
    have hnothing : d.call py key s (.onFlush w) = ⟨[], none⟩ := by
      simp [AgentDoFn.call, onFlush, hcont, h.batch, shouldFlushOnTimer]
    rw [hnothing] at hcall
    cases hcall
    exact hquiet .nil rfl rfl
  | onHitl micros w =>
    simp only [AgentDoFn.call, onHitl, hcont] at hcall
    cases hcall
    exact hquiet .nil rfl rfl

/-- A key that no event is seen under emits one record for each answer, and nothing else. -/
theorem Resting.run (h : Resting s) {calls : List KeyCall} {effects : List Effect} {t : KeyState}
    (hrun : (d.machine py key).Run s calls effects t) (hevent : ∀ c ∈ calls, c.event = none) :
    Resting t ∧ intentsOf effects = [] ∧ activationsOf effects = 0 ∧
      errorsOf effects = orphans key calls := by
  induction hrun with
  | refl => exact ⟨h, rfl, rfl, rfl⟩
  | tail _ hs ih =>
    obtain ⟨hcall, rfl⟩ := hs
    obtain ⟨hidle, hintents, hcount, herrors⟩ :=
      ih fun c hc => hevent c (List.mem_append_left _ hc)
    obtain ⟨hidle', hintents', hcount', herrors'⟩ := hidle.call
      (hevent _ (List.mem_append_right _ List.mem_cons_self)) hcall
    refine ⟨hidle', ?_, ?_, ?_⟩
    · rw [intentsOf_append, hintents, hintents', List.append_nil]
    · rw [activationsOf_append, hcount, hcount']
    · rw [errorsOf_append, herrors, herrors', orphans, orphans, orphans, List.filterMap_append]

/-- A stage: on every key, a run of the transform from the empty state. -/
structure Stage (d : AgentDoFn) (py : PyLib) where
  calls : Bytes → List KeyCall
  effects : Bytes → List Effect
  state : Bytes → KeyState
  run : ∀ key, (d.machine py key).Run {} (calls key) (effects key) (state key)

/-- **Shards keep apart.** Let all events of a stage come through `ShardKeys`, and `uuid5` be
injective in the name. What a shard emits carries its physical key, from which the logical key is
read back. No two keys emit intents of one id, and so whoever answers an intent under its key
answers the shard that issued it. A key that is not that of a shard, such as a logical key, commits
nothing: each answer that comes in under it is dead-lettered once as orphaned. -/
theorem Stage.shards_apart (stage : d.Stage py)
    (hpy : Function.Injective fun name => (py.uuid5 intentNamespace name).text)
    (hevents : ∀ key, ∀ c ∈ stage.calls key, c.event.isSome →
      ∃ logical index, key = physicalKey logical index) :
    (∀ key index, ∀ intent ∈ intentsOf (stage.effects (physicalKey key index)),
      intent.entityKey = physicalKey key index ∧ unshardKey py intent.entityKey = .ok key) ∧
    (∀ key key', ∀ intent ∈ intentsOf (stage.effects key),
      ∀ intent' ∈ intentsOf (stage.effects key'), intent.intentId = intent'.intentId →
        key = key' ∧ intent.seq = intent'.seq ∧ intent.stepIndex = intent'.stepIndex) ∧
    ∀ key, (∀ logical, unshardKey py key ≠ .ok logical) →
      intentsOf (stage.effects key) = [] ∧ activationsOf (stage.effects key) = 0 ∧
        errorsOf (stage.effects key) = orphans key (stage.calls key) := by
  refine ⟨fun key index intent hintent => ?_,
    fun key key' intent hintent intent' hintent' hid => ?_, fun key hkey => ?_⟩
  · have hentity := (run_intents (stage.run _) intent hintent).1
    exact ⟨hentity, hentity ▸ unshardKey_physicalKey key index⟩
  · have hname := (run_intents (stage.run key) intent hintent).2
    have hname' := (run_intents (stage.run key') intent' hintent').2
    rw [hname, hname'] at hid
    obtain rfl := intentName_key (hpy hid)
    exact ⟨rfl, intentIdFor_injective hpy key hid⟩
  · have hnone : ∀ c ∈ stage.calls key, c.event = none := by
      intro c hc
      by_contra hsome
      obtain ⟨logical, index, rfl⟩ := hevents key c hc (Option.isSome_iff_ne_none.mpr hsome)
      exact hkey logical (unshardKey_physicalKey logical index)
    obtain ⟨-, hresult⟩ := Resting.run ⟨rfl, rfl⟩ (stage.run key) hnone
    exact hresult

/-- The `uuid5` value of the first intent of the shard `k#0`. -/
def shardTable : List (String × String) :=
  [("6b2330|0|0", "f9c3ef4f-d7f3-5d6c-9626-23db897fe047")]

/-- An event on the shard `k#0`, and the answer to its intent under the logical key `k`. -/
def shardedCalls (key : Bytes) : List KeyCall :=
  if key = [107, 35, 48] then [.process ⟨key, 1000, .externalEvent [1]⟩ quietWorld]
  else if key = [107] then
    [.process ⟨key, 2000, .approval { intentId := "f9c3ef4f-d7f3-5d6c-9626-23db897fe047" }⟩
      quietWorld]
  else []

/-- The shard mints its intent, and the logical key dead-letters the answer. -/
theorem shards_apart_answer : ∃ stage : askingAgent.Stage (.ofTable shardTable),
    stage.calls = shardedCalls ∧
    (∀ intent ∈ intentsOf (stage.effects (physicalKey [107] 0)),
      unshardKey (.ofTable shardTable) intent.entityKey = .ok [107]) ∧
    (intentsOf (stage.effects (physicalKey [107] 0))).map (·.intentId) =
      ["f9c3ef4f-d7f3-5d6c-9626-23db897fe047"] ∧
    errorsOf (stage.effects [107]) = [⟨[107], reasonOrphaned,
      "no_continuation:f9c3ef4f-d7f3-5d6c-9626-23db897fe047", 2000⟩] := by
  have hexec (key : Bytes) : (askingAgent.exec (.ofTable shardTable) key {}
      (shardedCalls key)).isSome := by
    unfold shardedCalls
    split_ifs with hshard hlogical
    · subst hshard
      decide
    · subst hlogical
      decide
    · rfl
  let reached (key : Bytes) := (askingAgent.exec (.ofTable shardTable) key {}
    (shardedCalls key)).get (hexec key)
  let stage : askingAgent.Stage (.ofTable shardTable) := {
    calls := shardedCalls
    effects := fun key => (reached key).1
    state := fun key => (reached key).2
    run := fun key => (exec_run (C := fun _ _ => True) (Option.some_get (hexec key)).symm
      fun _ _ _ => trivial).of_guarded }
  have hevents : ∀ key, ∀ c ∈ stage.calls key, c.event.isSome →
      ∃ logical index, key = physicalKey logical index := by
    intro key c hc hevent
    have hc' : c ∈ shardedCalls key := hc
    unfold shardedCalls at hc'
    split_ifs at hc' with hshard hlogical
    · exact ⟨[107], 0, hshard⟩
    · rw [List.mem_singleton.mp hc'] at hevent
      cases hevent
    · cases hc'
  obtain ⟨hshard, -, hlogical⟩ := stage.shards_apart (PyLib.ofTable_injective _ _) hevents
  refine ⟨stage, rfl, fun intent hintent => (hshard _ _ intent hintent).2, ?_, ?_⟩
  · have hminted : (intentsOf (reached [107, 35, 48]).1).map (·.intentId) =
        ["f9c3ef4f-d7f3-5d6c-9626-23db897fe047"] := rfl
    exact hminted
  · have hrefused : unshardKey (.ofTable shardTable) [107] =
        .error (notSharded (.ofTable shardTable) [107]) := rfl
    rw [(hlogical [107] fun logical h => by rw [hrefused] at h; cases h).2.2]
    rfl

end AgentDoFn

end BeamAgents
