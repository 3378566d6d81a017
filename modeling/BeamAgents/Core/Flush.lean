import BeamAgents.Core.DoFn
import BeamAgents.Memory.Store

/-!
# The flush of the long-term saves

`_flush_longterm` of `core/loop.py` seen from the store it writes to. The saves go one by one, and
nothing takes back those that have reached the store when a later one raises, or when the bridge
gives the activation up and the flush goes on for as long as the cancellation is drained. The
activation is then reported and its event is dead-lettered, so that no other attempt stages the same
rows again.

## Main definitions

* `AgentDoFn.commitTail`: the context with which an activation reaches the flush.
* `flushSaves`: the saves that a flush begins, each with what becomes of its write.
* `AgentDoFn.flushed`: the store once the activation is reported, and the writes still under way.
* `FlushesNothing`: the activation leaves no trace in the store.
* `AgentDoFn.Undisturbed`: no save that is begun reaches the store to any effect.

## Main results

* `AgentDoFn.commitTail_activate`: an activation that comes to a result has flushed all it staged.
* `AgentDoFn.failed_flushesNothing_iff`.
-/

namespace BeamAgents

open Containers

/-! ### What an activation stages -/

/-- The staged saves belong to the activation: each under its own key, in its scope. -/
def ActivationContext.StagesOwn (ctx : ActivationContext) : Prop :=
  ∀ p ∈ ctx.longterm.items,
    p.2.key = p.1 ∧ p.1 ≠ "" ∧ p.2.entityKey = ctx.entityKey ∧ p.2.seq = ctx.seq

namespace ActivationContext

variable {py : PyLib} {cfg : ContextConfig} {ctx ctx' : ActivationContext}

theorem StagesOwn.of_longterm (h : ctx.StagesOwn) (hext : ctx.Extends py ctx')
    (hlongterm : ctx'.longterm = ctx.longterm) : ctx'.StagesOwn := by
  intro p hp
  rw [hlongterm] at hp
  rw [hext.entityKey, hext.seq]
  exact h p hp

@[simp] theorem longterm_charge (usage : Option TokenUsage) :
    (ctx.charge usage).1.longterm = ctx.longterm := by
  unfold charge
  split <;> rfl

@[simp] theorem longterm_finishModel (step : ℕ) (cacheHit : Bool) (modelId : String)
    (response : Bytes) :
    (ctx.finishModel py cfg step cacheHit modelId response).1.longterm = ctx.longterm := by
  unfold finishModel
  split
  · rfl
  · exact longterm_charge _

theorem longterm_modelEnter (request : LlmRequest) :
    (ctx.modelEnter py cfg request).1.longterm = ctx.longterm := by
  unfold modelEnter
  split
  · rfl
  · dsimp only
    split
    · rfl
    · split
      · rfl
      · rename_i entry _
        split <;> rename_i heq <;> exact (congrArg (fun r => r.1.longterm) heq).symm.trans
          (longterm_finishModel _ _ _ _)

theorem longterm_modelLeave (call : ModelCall) (response : Bytes) (elapsedNs : Int) :
    (ctx.modelLeave py cfg call response elapsedNs).1.longterm = ctx.longterm := by
  unfold modelLeave
  dsimp only
  split <;> rename_i heq <;> exact (congrArg (fun r => r.1.longterm) heq).symm.trans
    (longterm_finishModel _ _ _ _)

/-- A save is staged under its key, with the scope of the activation. -/
theorem StagesOwn.longtermSave (h : ctx.StagesOwn) (key : String) (value : Bytes) :
    (ctx.longtermSave cfg key value).1.StagesOwn := by
  unfold ActivationContext.longtermSave
  split_ifs with hstore hkey
  · exact h
  · exact h
  · intro p hp
    rcases Dict.mem_set _ hp with rfl | hp
    · exact ⟨rfl, hkey, rfl, rfl⟩
    · exact h p hp

theorem StagesOwn.perform (h : ctx.StagesOwn) (op : CtxOp) :
    (perform py cfg op ctx).1.StagesOwn := by
  have hext : ctx.Extends py (ActivationContext.perform py cfg op ctx).1 := perform_extends op ctx
  cases op with
  | longtermSave key value => exact h.longtermSave key value
  | modelEnter request => exact h.of_longterm hext (longterm_modelEnter request)
  | modelLeave call response elapsedNs =>
    exact h.of_longterm hext (longterm_modelLeave call response elapsedNs)
  | _ => exact h.of_longterm hext rfl

/-- The rows that the staged saves are written to differ. -/
theorem StagesOwn.nodup (h : ctx.StagesOwn) :
    ((ctx.stagedUpserts.map MemoryRecord.write).map Write.key).Nodup := by
  have hkeys : (ctx.stagedUpserts.map MemoryRecord.write).map Write.key =
      (ctx.longterm.items.map Prod.fst).map fun k => (ctx.entityKey, k) := by
    simp only [stagedUpserts, Dict.values, List.map_map]
    refine List.map_congr_left fun p hp => ?_
    obtain ⟨hkey, -, hentity, -⟩ := h p hp
    simp only [Function.comp_apply, MemoryRecord.write, hkey, hentity]
  rw [hkeys]
  exact ctx.longterm.nodup.map fun a b hab => (Prod.mk.inj hab).2

/-- Each staged save has a key, and the scope of the activation. -/
theorem StagesOwn.upserts (h : ctx.StagesOwn) :
    ∀ r ∈ ctx.stagedUpserts, r.key ≠ "" ∧ r.entityKey = ctx.entityKey ∧ r.seq = ctx.seq := by
  intro r hr
  obtain ⟨p, hp, rfl⟩ := List.mem_map.mp hr
  obtain ⟨hkey, hne, hentity, hseq⟩ := h p hp
  exact ⟨hkey ▸ hne, hentity, hseq⟩

end ActivationContext

/-- Whatever a program does, what it stages belongs to the activation. -/
theorem Prog.run_stagesOwn (py : PyLib) (cfg : ContextConfig) {ρ : Type} (answers : Answers)
    (p : Prog ρ) (awaits : ℕ) {ctx : ActivationContext} (h : ctx.StagesOwn) :
    (p.run py cfg answers awaits ctx).ctx.StagesOwn := by
  induction p generalizing awaits ctx with
  | ret r => exact h
  | raise e => exact h
  | read k ih => exact ih ctx awaits h
  | perform op k ih => exact ih _ awaits (h.perform op)
  | await a k ih => exact ih (answers awaits a) (awaits + 1) h

theorem runSummarizer_stagesOwn (py : PyLib) (cfg : ContextConfig)
    (summarizer : Option Summarizer) (answers : Answers) {e : ProgEnd Outcome}
    (h : e.ctx.StagesOwn) :
    (runSummarizer py cfg summarizer answers e).1.StagesOwn := by
  unfold runSummarizer
  split
  · exact h
  · split_ifs
    · exact Prog.run_stagesOwn py cfg answers _ e.awaits h
    · exact h

/-! ### The saves of a flush -/

/-- When the write of the `k`-th save reaches the store: a save that returned has reached it, though
possibly after the bridge gave the activation up. -/
def World.landing (w : World) (k : ℕ) : Landing :=
  match w.saveRaises k with
  | some _ => w.saveLands k
  | none => if w.timedOut && w.saveLands k = .underWay then .underWay else .landed

/-- The saves that `_flush_longterm` begins: the first that raises is the last. -/
def flushSaves (w : World) : (k : ℕ) → List MemoryRecord → List (Landing × MemoryRecord)
  | _, [] => []
  | k, record :: records =>
    (w.landing k, record) ::
      match w.saveRaises k with
      | none => flushSaves w (k + 1) records
      | some _ => []

/-- The records whose writes came to `landing`. -/
def recordsOf (landing : Landing) (saves : List (Landing × MemoryRecord)) : List MemoryRecord :=
  (saves.filter fun save => save.1 = landing).map Prod.snd

section Saves

variable {w : World} {k : ℕ} {records : List MemoryRecord} {landing : Landing}
  {record : MemoryRecord}

theorem mem_recordsOf {saves : List (Landing × MemoryRecord)} :
    record ∈ recordsOf landing saves ↔ (landing, record) ∈ saves := by
  simp [recordsOf]

/-- A save is begun when every save before it returned. -/
theorem mem_flushSaves :
    (landing, record) ∈ flushSaves w k records ↔
      ∃ i, records[i]? = some record ∧ w.landing (k + i) = landing ∧
        ∀ j < i, w.saveRaises (k + j) = none := by
  induction records generalizing k with
  | nil => simp [flushSaves]
  | cons r records ih =>
    have hhead : (landing, record) = (w.landing k, r) ↔
        (r :: records)[0]? = some record ∧ w.landing (k + 0) = landing ∧
          ∀ j < 0, w.saveRaises (k + j) = none := by
      simp [and_comm, eq_comm]
    rw [flushSaves, List.mem_cons, hhead]
    constructor
    · rintro (h | h)
      · exact ⟨0, h⟩
      · cases hraises : w.saveRaises k with
        | some e => simp [hraises] at h
        | none =>
          simp only [hraises] at h
          obtain ⟨i, hi, hlanding, hbefore⟩ := ih.mp h
          refine ⟨i + 1, by simpa using hi, by rw [← hlanding]; congr 1; omega, ?_⟩
          intro j hj
          rcases Nat.eq_zero_or_pos j with rfl | hpos
          · exact hraises
          · have hshift : k + j = k + 1 + (j - 1) := by omega
            rw [hshift]
            exact hbefore (j - 1) (by omega)
    · rintro ⟨i, hi, hlanding, hbefore⟩
      rcases Nat.eq_zero_or_pos i with rfl | hpos
      · exact .inl ⟨hi, hlanding, hbefore⟩
      · obtain ⟨i, rfl⟩ : ∃ m, i = m + 1 := ⟨i - 1, by omega⟩
        refine .inr ?_
        have hraises : w.saveRaises k = none := hbefore 0 (by omega)
        simp only [hraises]
        refine ih.mpr ⟨i, by simpa using hi, by rw [← hlanding]; congr 1; omega, ?_⟩
        intro j hj
        have hshift : k + 1 + j = k + (j + 1) := by omega
        rw [hshift]
        exact hbefore (j + 1) (by omega)

/-- The records that a flush begins to save are among the staged ones, each at most once. -/
theorem recordsOf_flushSaves_sublist :
    (recordsOf landing (flushSaves w k records)).Sublist records := by
  induction records generalizing k with
  | nil => exact .slnil
  | cons r records ih =>
    have hrest : (recordsOf landing
        (match w.saveRaises k with
        | none => flushSaves w (k + 1) records
        | some _ => [])).Sublist records := by
      cases w.saveRaises k with
      | none => exact ih
      | some e => exact List.nil_sublist _
    rw [flushSaves]
    by_cases h : w.landing k = landing
    · simpa [recordsOf, h] using hrest
    · simpa [recordsOf, h] using hrest.cons r

/-- A flush that raises nothing, and is waited for, has saved everything. -/
theorem flushSaves_of_flushLongterm {py : PyLib}
    (h : flushLongterm py w.saveRaises k records = none) (htime : w.timedOut = false) :
    recordsOf .landed (flushSaves w k records) = records ∧
      recordsOf .underWay (flushSaves w k records) = [] := by
  induction records generalizing k with
  | nil => exact ⟨rfl, rfl⟩
  | cons r records ih =>
    cases hraises : w.saveRaises k with
    | some e => simp [flushLongterm, hraises] at h
    | none =>
      simp only [flushLongterm, hraises] at h
      obtain ⟨hlanded, hunder⟩ := ih h
      have hlanding : w.landing k = .landed := by simp [World.landing, hraises, htime]
      rw [flushSaves, hlanding]
      simp only [hraises]
      exact ⟨congrArg (r :: ·) hlanded, hunder⟩

end Saves

/-! ### The flush of an activation -/

namespace AgentDoFn

variable (d : AgentDoFn) (py : PyLib) (w : World) (input : ActivationInput)

/-- The context with which `run_activation` reaches the flush: when the agent returned an outcome
and the summarizer did not raise. The final events are not staged yet. -/
def commitTail : Option ActivationContext :=
  match ActivationContext.new py d.contextConfig input with
  | .error _ => none
  | .ok ctx =>
    let ctx := ctx.stageTrace py (startEvent py ctx input.batchTrigger)
    let agentEnd := d.agent.run py d.contextConfig w.answers 0 ctx
    match agentEnd.outcome with
    | .error _ | .ok (.other _) => none
    | .ok _ =>
      match runSummarizer py d.contextConfig d.summarizer w.answers agentEnd with
      | (_, .error _) => none
      | (ctx, .ok ()) => some ctx

/-- The upserts that the flush is handed, and the saves it begins. -/
def staged : List MemoryRecord :=
  ((d.commitTail py w input).map ActivationContext.stagedUpserts).getD []

/-- The store once the activation is reported, and the writes that are still under way then. -/
structure AfterFlush where
  store : InMemoryMemoryStore
  underWay : List MemoryRecord

/-- What an activation does to the long-term store. -/
def flushed (store : InMemoryMemoryStore) : AfterFlush :=
  let saves := flushSaves w 0 (d.staged py w input)
  { store := store.savedAll (recordsOf .landed saves)
    underWay := recordsOf .underWay saves }

variable {d py w input}

/-- An activation begins with nothing staged. -/
theorem new_stagesOwn {cfg : ContextConfig} {ctx : ActivationContext}
    (h : ActivationContext.new py cfg input = .ok ctx) :
    ctx.StagesOwn ∧ ctx.entityKey = input.entityKey ∧ ctx.seq = input.seq := by
  unfold ActivationContext.new at h
  split_ifs at h
  cases h
  exact ⟨by simp [ActivationContext.StagesOwn, Dict.empty], rfl, rfl⟩

/-- The context at the commit tail is the one that the activation began with, after the agent and
the summarizer. -/
theorem commitTail_eq {ctx : ActivationContext} (h : d.commitTail py w input = some ctx) :
    ∃ begun, ActivationContext.new py d.contextConfig input = .ok begun ∧
      (runSummarizer py d.contextConfig d.summarizer w.answers
        (d.agent.run py d.contextConfig w.answers 0
          (begun.stageTrace py (startEvent py begun input.batchTrigger)))).1 = ctx := by
  unfold commitTail at h
  split at h
  · cases h
  rename_i begun hnew
  dsimp only at h
  split at h
  · cases h
  · cases h
  split at h
  · cases h
  rename_i ctx' hsummarized
  cases h
  exact ⟨begun, hnew, congrArg Prod.fst hsummarized⟩

/-- The saves staged by the commit tail belong to the activation. -/
theorem commitTail_stagesOwn {ctx : ActivationContext} (h : d.commitTail py w input = some ctx) :
    ctx.StagesOwn ∧ ctx.entityKey = input.entityKey ∧ ctx.seq = input.seq := by
  obtain ⟨ctx₀, hnew, rfl⟩ := commitTail_eq h
  have hbegun : (ctx₀.stageTrace py (startEvent py ctx₀ input.batchTrigger)).StagesOwn :=
    (new_stagesOwn hnew).1
  have hscope : (ctx₀.stageTrace py (startEvent py ctx₀ input.batchTrigger)).entityKey =
        input.entityKey ∧
      (ctx₀.stageTrace py (startEvent py ctx₀ input.batchTrigger)).seq = input.seq :=
    (new_stagesOwn hnew).2
  generalize ctx₀.stageTrace py (startEvent py ctx₀ input.batchTrigger) = begun at hbegun hscope ⊢
  have hagent := Prog.run_stagesOwn py d.contextConfig w.answers d.agent 0 hbegun
  have hsummary := runSummarizer_stagesOwn py d.contextConfig d.summarizer w.answers hagent
  have hext : begun.Extends py (runSummarizer py d.contextConfig d.summarizer w.answers
      (d.agent.run py d.contextConfig w.answers 0 begun)).1 :=
    (Prog.run_extends d.contextConfig w.answers d.agent 0 begun).trans
      (runSummarizer_extends d.contextConfig d.summarizer w.answers _)
  exact ⟨hsummary, hext.entityKey.trans hscope.1, hext.seq.trans hscope.2⟩

theorem finishActivation_upserts {schema : StateSchema} {ctx : ActivationContext}
    {status : ActivationStatus} {outputs : List Bytes} {continuation : Option Continuation}
    {result : ActivationResult}
    (h : finishActivation py schema w ctx status outputs continuation = .ok result) :
    result.upserts = ctx.stagedUpserts ∧
      flushLongterm py w.saveRaises 0 ctx.stagedUpserts = none := by
  unfold finishActivation at h
  split at h
  · cases h
  · rename_i hnone
    cases h
    exact ⟨rfl, hnone⟩

/-- A result is the outcome of the agent, folded over the context at the commit tail. -/
theorem activate_fold {result : ActivationResult} (h : d.activate py w input = .ok result) :
    w.timedOut = false ∧ ∃ ctx outcome, d.commitTail py w input = some ctx ∧
      foldOutcome py d.schema d.policy.timeoutMs w ctx outcome = .ok result := by
  unfold activate bridgeRun at h
  split_ifs at h with htime
  obtain ⟨ctx₀, outcome, ctx, hnew, houtcome, hsummarized, hfold⟩ := runActivation_eq_ok h
  refine ⟨by simpa using htime, ctx, outcome, ?_, hfold⟩
  simp only [commitTail, hnew, houtcome]
  cases outcome with
  | other repr => cases hfold
  | complete output => simp only [hsummarized]
  | suspend snapshot adapter timeoutMs => simp only [hsummarized]

/-- **A result has flushed what it carries.** An activation that comes to a result was waited for,
reached the flush, and saved all it had staged. -/
theorem commitTail_activate {result : ActivationResult} (h : d.activate py w input = .ok result) :
    ∃ ctx, d.commitTail py w input = some ctx ∧ result.upserts = ctx.stagedUpserts ∧
      flushLongterm py w.saveRaises 0 ctx.stagedUpserts = none ∧ w.timedOut = false := by
  obtain ⟨htime, ctx, outcome, htail, hfold⟩ := activate_fold h
  -- Folding the outcome stages the final events, and flushes what was staged before them.
  have hflush : result.upserts = ctx.stagedUpserts ∧
      flushLongterm py w.saveRaises 0 ctx.stagedUpserts = none := by
    cases outcome with
    | other repr => cases hfold
    | complete output =>
      obtain ⟨hupserts, hnone⟩ := finishActivation_upserts hfold
      exact ⟨hupserts, hnone⟩
    | suspend snapshot adapter timeoutMs =>
      obtain ⟨hupserts, hnone⟩ := finishActivation_upserts hfold
      exact ⟨hupserts, hnone⟩
  exact ⟨ctx, htail, hflush.1, hflush.2, htime⟩

/-! ### An activation that fails -/

/-- The activation leaves no trace in the store: the rows are those it found, and a write that is
still under way, should it reach the store, does not apply. -/
structure FlushesNothing (store : InMemoryMemoryStore) (x : AfterFlush) : Prop where
  rows : x.store.table = store.table
  refused : ∀ record ∈ x.underWay, ∀ store' applied,
    x.store.save record = .ok (store', applied) → applied = false

/-- Every save that the flush gets to, the saves before it having returned, is without effect: if it
reaches the store in time, its row carries a higher `seq` or is its own already, and if it reaches
the store later, its row carries a higher `seq`. -/
def Undisturbed (d : AgentDoFn) (py : PyLib) (w : World) (input : ActivationInput)
    (store : InMemoryMemoryStore) : Prop :=
  ∀ i record, (d.staged py w input)[i]? = some record → (∀ j < i, w.saveRaises j = none) →
    (w.landing i = .landed → ¬ store.table.Admits record.write ∨
      store.table record.write.key = some (record.write.version, record.write.value)) ∧
    (w.landing i = .underWay → ¬ store.table.Admits record.write)

variable (d py w input) in
/-- What an activation stages has keys, and is written to different rows. -/
theorem staged_own : (∀ r ∈ d.staged py w input,
      r.key ≠ "" ∧ r.entityKey = input.entityKey ∧ r.seq = input.seq) ∧
    (((d.staged py w input).map MemoryRecord.write).map Write.key).Nodup := by
  unfold staged
  cases h : d.commitTail py w input with
  | none => simp
  | some ctx =>
    obtain ⟨hown, hentity, hseq⟩ := commitTail_stagesOwn h
    refine ⟨fun r hr => ?_, hown.nodup⟩
    obtain ⟨hkey, hentity', hseq'⟩ := hown.upserts r hr
    exact ⟨hkey, hentity'.trans hentity, hseq'.trans hseq⟩

/-- An activation leaves no trace in the store exactly when none of the saves it got to gets
through. -/
theorem flushesNothing_iff {store : InMemoryMemoryStore} :
    FlushesNothing store (d.flushed py w input store) ↔ d.Undisturbed py w input store := by
  obtain ⟨hown, hnodup⟩ := staged_own d py w input
  have hkey (landing : Landing) (r : MemoryRecord)
      (hr : r ∈ recordsOf landing (flushSaves w 0 (d.staged py w input))) : r.key ≠ "" :=
    (hown r (recordsOf_flushSaves_sublist.subset hr)).1
  have htable : (d.flushed py w input store).store.table = store.table.putAll
      ((recordsOf .landed (flushSaves w 0 (d.staged py w input))).map MemoryRecord.write) :=
    InMemoryMemoryStore.table_savedAll (hkey .landed)
  have hrows : (d.flushed py w input store).store.table = store.table ↔
      ∀ r, (.landed, r) ∈ flushSaves w 0 (d.staged py w input) →
        store.table.put r.write = store.table := by
    have hsublist : ((recordsOf .landed (flushSaves w 0 (d.staged py w input))).map
        MemoryRecord.write).map Write.key |>.Nodup :=
      hnodup.sublist ((recordsOf_flushSaves_sublist.map _).map _)
    rw [htable, Rows.putAll_eq_self_iff hsublist]
    simp only [List.forall_mem_map, mem_recordsOf]
  have hrefused (hsame : (d.flushed py w input store).store.table = store.table) :
      (∀ record ∈ (d.flushed py w input store).underWay, ∀ store' applied,
          (d.flushed py w input store).store.save record = .ok (store', applied) →
            applied = false) ↔
        ∀ r, (.underWay, r) ∈ flushSaves w 0 (d.staged py w input) →
          ¬ store.table.Admits r.write := by
    have hmem (r : MemoryRecord) : r ∈ (d.flushed py w input store).underWay ↔
        (.underWay, r) ∈ flushSaves w 0 (d.staged py w input) := mem_recordsOf
    simp only [hmem]
    refine forall₂_congr fun r hr => ?_
    rw [InMemoryMemoryStore.save_eq (hkey .underWay r (mem_recordsOf.mpr hr)), hsame]
    simp
  have hcondition : d.Undisturbed py w input store ↔
      (∀ r, (.landed, r) ∈ flushSaves w 0 (d.staged py w input) →
        store.table.put r.write = store.table) ∧
      ∀ r, (.underWay, r) ∈ flushSaves w 0 (d.staged py w input) →
        ¬ store.table.Admits r.write := by
    simp only [mem_flushSaves, Rows.put_eq_self_iff, Nat.zero_add]
    constructor
    · intro h
      refine ⟨?_, ?_⟩
      · rintro r ⟨i, hi, hlanding, hbefore⟩
        exact (h i r hi hbefore).1 hlanding
      · rintro r ⟨i, hi, hlanding, hbefore⟩
        exact (h i r hi hbefore).2 hlanding
    · rintro ⟨hlanded, hunder⟩ i r hi hbefore
      exact ⟨fun hlanding => hlanded r ⟨i, hi, hlanding, hbefore⟩,
        fun hlanding => hunder r ⟨i, hi, hlanding, hbefore⟩⟩
  rw [hcondition, ← hrows]
  constructor
  · intro h
    exact ⟨h.rows, (hrefused h.rows).mp h.refused⟩
  · rintro ⟨hsame, hnone⟩
    exact ⟨hsame, (hrefused hsame).mpr hnone⟩

/-- **A failed activation flushes nothing exactly when none of its saves gets through.** Whatever
the agent does and whatever the world decides, an activation that is reported as failed or timed out
leaves the store as it was, with nothing to come, exactly when each save that its flush got to is
lost, refused by the guard of its row, or finds the row it would write. -/
theorem failed_flushesNothing_iff (d : AgentDoFn) (py : PyLib) (w : World)
    (input : ActivationInput) (store : InMemoryMemoryStore) :
    (∀ failure, d.activate py w input = .error failure →
      FlushesNothing store (d.flushed py w input store)) ↔
      ∀ failure, d.activate py w input = .error failure → d.Undisturbed py w input store :=
  forall₂_congr fun _ _ => flushesNothing_iff

/-- An agent that takes two notes for the long term. -/
def notingAgent : AgentDoFn where
  agent := .perform (.longtermSave "a" [1]) fun _ => .perform (.longtermSave "b" [2]) fun _ =>
    .ret .complete
  longterm := true

/-- The second of two saves fails, and the row of the first one stays. -/
theorem partial_flush_stays :
    let w : World := { quietWorld with
      saveRaises := fun k => if k = 1 then some ⟨.other, "ConnectionError", "ConnectionError()"⟩
        else none }
    let input : ActivationInput := {
      entityKey := [107], seq := 0, nowMs := 1000, memoryBlob := none, cacheBlob := none,
      event := .inl [1] }
    (∃ context, notingAgent.activate (.ofTable []) w input =
      .error (.failed context (longtermFlushFailed (.ofTable []) "b"))) ∧
    (notingAgent.flushed (.ofTable []) w input {}).store.load [107] "a" =
      .ok (some ⟨[107], "a", [1], 0, 1000⟩) ∧
    ¬ ∀ failure, notingAgent.activate (.ofTable []) w input = .error failure →
      FlushesNothing {} (notingAgent.flushed (.ofTable []) w input {}) := by
  intro w input
  have hfails : ∃ context, notingAgent.activate (.ofTable []) w input =
      .error (.failed context (longtermFlushFailed (.ofTable []) "b")) := ⟨_, rfl⟩
  have hrow : (notingAgent.flushed (.ofTable []) w input {}).store.load [107] "a" =
      .ok (some ⟨[107], "a", [1], 0, 1000⟩) := rfl
  refine ⟨hfails, hrow, fun h => ?_⟩
  obtain ⟨context, hfails⟩ := hfails
  have hsame := (h _ hfails).rows
  rw [InMemoryMemoryStore.load_eq _ _ (by decide), InMemoryMemoryStore.recordAt, hsame] at hrow
  cases hrow

end AgentDoFn

end BeamAgents
