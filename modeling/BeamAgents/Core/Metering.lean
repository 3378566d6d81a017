import BeamAgents.Core.Suspensions

/-!
# The counters agree with what a run did

The counters of `observability/metrics.py` are bumped in many places of `core/dofn.py`, apart from
the elements and the writes that they count: a commit counts its activation, its intents, its
suspension and its flush in `_record_commit`, an escalation counts the one intent that it mints, and
a dead letter is counted where it is built. In every run of one key they add up to what the run did.

## Main definitions

* `counterSum`, `sampled`: what the effects add to a counter, and the samples of a distribution.
* `seqIncrements`, `suspensionCommitted`, `flushCommitted`: what a call committed.
* `Metered`: the counters agree with what the calls did.

## Main results

* `AgentDoFn.run_metered`.
-/

namespace BeamAgents

open Transition

/-! ### What the counters count -/

/-- What the effects add to the counter. -/
def counterSum (counter : Counter) (effects : List Effect) : ℕ :=
  (effects.map fun
    | .incr c n => if c = counter then n else 0
    | _ => 0).sum

/-- The samples of the distribution. -/
def sampled (distribution : Distribution) (effects : List Effect) : ℕ :=
  effects.countP fun
    | .observe d _ => d = distribution
    | _ => false

/-- The effect increments `SEQ`. -/
def Effect.isSeqIncrement : Effect → Bool
  | .addSeq _ => true
  | _ => false

/-- The effect stores a continuation. -/
def Effect.storesContinuation : Effect → Bool
  | .writeContinuation _ => true
  | _ => false

/-- The effect consumes the buffer. -/
def Effect.consumesBuffer : Effect → Bool
  | .clearBatch => true
  | _ => false

/-- The increments of `SEQ`: a commit performs one. -/
def seqIncrements (effects : List Effect) : ℕ := effects.countP Effect.isSeqIncrement

/-- The call committed an activation that stored a continuation. -/
def suspensionCommitted (effects : List Effect) : Bool :=
  effects.any Effect.isSeqIncrement && effects.any Effect.storesContinuation

/-- The call committed a flush: with the commit it consumed the buffer. -/
def flushCommitted (effects : List Effect) : Bool :=
  effects.any Effect.isSeqIncrement && effects.any Effect.consumesBuffer

/-- The counters agree with what the calls did, each given by its effects. -/
structure Metered (log : List (List Effect)) : Prop where
  activations : counterSum .activations log.flatten = seqIncrements log.flatten
  intents : counterSum .intentsEmitted log.flatten = (intentsOf log.flatten).length
  errors : counterSum .agentErrors log.flatten + counterSum .orphanedResults log.flatten =
    (errorsOf log.flatten).length
  suspensions : counterSum .suspensions log.flatten = log.countP suspensionCommitted
  flushes : counterSum .batchFlushesSize log.flatten + counterSum .batchFlushesTimer log.flatten =
    log.countP flushCommitted
  samples : sampled .batchSize log.flatten = log.countP flushCommitted

section Sums

variable {es fs : List Effect} {log log' : List (List Effect)}

@[simp] theorem counterSum_append (counter : Counter) :
    counterSum counter (es ++ fs) = counterSum counter es + counterSum counter fs := by
  simp [counterSum]

@[simp] theorem sampled_append (distribution : Distribution) :
    sampled distribution (es ++ fs) = sampled distribution es + sampled distribution fs :=
  List.countP_append

@[simp] theorem seqIncrements_append :
    seqIncrements (es ++ fs) = seqIncrements es + seqIncrements fs :=
  List.countP_append

theorem Metered.nil : Metered [] := ⟨rfl, rfl, rfl, rfl, rfl, rfl⟩

/-- Calls that follow one another. -/
theorem Metered.append (h : Metered log) (h' : Metered log') : Metered (log ++ log') := by
  constructor
  · simp only [List.flatten_append, counterSum_append, seqIncrements_append, h.activations,
      h'.activations]
  · simp only [List.flatten_append, counterSum_append, intentsOf_append, List.length_append,
      h.intents, h'.intents]
  · simp only [List.flatten_append, counterSum_append, errorsOf_append, List.length_append,
      ← h.errors, ← h'.errors]
    omega
  · simp only [List.flatten_append, counterSum_append, List.countP_append, h.suspensions,
      h'.suspensions]
  · simp only [List.flatten_append, counterSum_append, List.countP_append, ← h.flushes,
      ← h'.flushes]
    omega
  · simp only [List.flatten_append, sampled_append, List.countP_append, h.samples, h'.samples]

end Sums

/-! ### Effects that no counter here is about -/

/-- An effect that none of the counters here counts and that is none of what they count. -/
def Effect.silent : Effect → Bool
  | .incr counter _ =>
    counter = .llmCalls ∨ counter = .toolCalls ∨ counter = .longtermUpserts ∨
      counter = .eventsBuffered
  | .observe distribution _ => distribution ≠ .batchSize
  | .emit (.intents _) | .emit (.errors _) => false
  | .addSeq _ | .writeContinuation _ | .clearBatch => false
  | _ => true

/-- What is left of the effects without the silent ones. -/
def audible (es : List Effect) : List Effect := es.filter fun e => !e.silent

section Silent

variable {es fs : List Effect}

@[simp] theorem audible_nil : audible [] = [] := rfl

@[simp] theorem audible_append : audible (es ++ fs) = audible es ++ audible fs :=
  List.filter_append ..

theorem audible_cons (e : Effect) :
    audible (e :: es) = if e.silent then audible es else e :: audible es := by
  cases he : e.silent <;> simp [audible, he]

theorem audible_of_silent (h : ∀ e ∈ es, e.silent = true) : audible es = [] := by
  refine List.filter_eq_nil_iff.mpr fun e he => ?_
  simp [h e he]

theorem audible_of_loud (h : ∀ e ∈ es, e.silent = false) : audible es = es :=
  List.filter_eq_self.mpr fun e he => by simp [h e he]

theorem counterSum_audible {counter : Counter} (h : ∀ n, (Effect.incr counter n).silent = false) :
    counterSum counter (audible es) = counterSum counter es := by
  induction es with
  | nil => rfl
  | cons e es ih =>
    rw [← List.singleton_append, audible_append, counterSum_append, counterSum_append, ih]
    cases he : e.silent with
    | false => simp [audible, he]
    | true =>
      have hzero : counterSum counter [e] = 0 := by
        cases e with
        | incr c n =>
          have hne : c ≠ counter := by
            rintro rfl
            exact Bool.false_ne_true ((h n).symm.trans he)
          simp [counterSum, hne]
        | _ => rfl
      rw [hzero]
      simp [audible, he, counterSum]

theorem countP_audible {p : Effect → Bool} (h : ∀ e, p e = true → e.silent = false) :
    (audible es).countP p = es.countP p := by
  rw [audible, List.countP_filter]
  refine List.countP_congr fun e _ => ?_
  simp only [Bool.and_eq_true, Bool.not_eq_true', and_iff_left_iff_imp]
  exact h e

theorem any_audible {p : Effect → Bool} (h : ∀ e, p e = true → e.silent = false) :
    (audible es).any p = es.any p := by
  rw [audible, List.any_filter]
  congr 1
  funext e
  cases hp : p e with
  | false => simp
  | true => simp [h e hp]

theorem filterMap_audible {α : Type} {f : Effect → Option α}
    (h : ∀ e, (f e).isSome → e.silent = false) : (audible es).filterMap f = es.filterMap f := by
  rw [audible, List.filterMap_filter]
  refine List.filterMap_congr fun e _ => ?_
  cases he : e.silent with
  | false => rfl
  | true =>
    cases hf : f e with
    | none => rfl
    | some a => exact absurd (h e (by simp [hf])) (by simp [he])

theorem Effect.silent_of_isSeqIncrement {e : Effect} (h : e.isSeqIncrement = true) :
    e.silent = false := by
  cases e <;> first | rfl | cases h

theorem seqIncrements_audible : seqIncrements (audible es) = seqIncrements es :=
  countP_audible fun _ => Effect.silent_of_isSeqIncrement

/-- The counters and what they count are the same without the silent effects. -/
theorem Metered.of_audible (h : Metered [audible es]) : Metered [es] := by
  have hseq : ∀ e : Effect, e.isSeqIncrement = true → e.silent = false :=
    fun _ => Effect.silent_of_isSeqIncrement
  have hstores (e : Effect) (he : e.storesContinuation = true) : e.silent = false := by
    cases e <;> first | rfl | cases he
  have hconsumes (e : Effect) (he : e.consumesBuffer = true) : e.silent = false := by
    cases e <;> first | rfl | cases he
  have hintents : intentsOf (audible es) = intentsOf es := filterMap_audible fun e he => by
    rcases e with _ | _ | _ | _ | _ | _ | _ | _ | _ | _ | _ | _ | _ | _ | _ | _ | _ | o | _ | _
    case emit => cases o <;> first | rfl | cases he
    all_goals cases he
  have herrors : errorsOf (audible es) = errorsOf es := by
    rw [errorsOf, errorsOf, outputsOf, outputsOf, List.filterMap_filterMap,
      List.filterMap_filterMap]
    refine filterMap_audible fun e he => ?_
    rcases e with _ | _ | _ | _ | _ | _ | _ | _ | _ | _ | _ | _ | _ | _ | _ | _ | _ | o | _ | _
    case emit => cases o <;> first | rfl | cases he
    all_goals cases he
  have hcounted (counter : Counter) (hcounter : counter ≠ .llmCalls ∧ counter ≠ .toolCalls ∧
      counter ≠ .longtermUpserts ∧ counter ≠ .eventsBuffered) :
      counterSum counter (audible es) = counterSum counter es :=
    counterSum_audible fun n => by simp [Effect.silent, hcounter]
  have hsampled : sampled .batchSize (audible es) = sampled .batchSize es :=
    countP_audible fun e he => by
      cases e with
      | observe distribution value => simp [Effect.silent, of_decide_eq_true he]
      | _ => cases he
  have hsuspension : suspensionCommitted (audible es) = suspensionCommitted es := by
    rw [suspensionCommitted, any_audible hseq, any_audible hstores, suspensionCommitted]
  have hflush : flushCommitted (audible es) = flushCommitted es := by
    rw [flushCommitted, any_audible hseq, any_audible hconsumes, flushCommitted]
  obtain ⟨h₁, h₂, h₃, h₄, h₅, h₆⟩ := h
  simp only [List.flatten_singleton, List.countP_singleton, hcounted, seqIncrements_audible,
    hintents, herrors, hsampled, hsuspension, hflush, ne_eq, reduceCtorEq, not_false_eq_true,
    and_self] at h₁ h₂ h₃ h₄ h₅ h₆
  constructor <;> simpa only [List.flatten_singleton, List.countP_singleton]

end Silent

/-! ### Effects that commit nothing -/

/-- The effects are metered, and none of them commits. -/
structure Balanced (es : List Effect) : Prop where
  metered : Metered [es]
  uncommitted : seqIncrements es = 0

section Balanced

variable {es fs : List Effect}

theorem any_isSeqIncrement (h : seqIncrements es = 0) : es.any Effect.isSeqIncrement = false := by
  simpa [seqIncrements] using h

/-- Balanced effects after the others of a call, which commit what all of them do. -/
theorem Metered.join (h : Metered [es]) (h' : Balanced fs)
    (hsuspension : suspensionCommitted (es ++ fs) = suspensionCommitted es)
    (hflush : flushCommitted (es ++ fs) = flushCommitted es) : Metered [es ++ fs] := by
  have hboth : Metered [es, fs] := h.append h'.metered
  have hflatten : [es ++ fs].flatten = [es, fs].flatten := by simp
  have hnone : fs.any Effect.isSeqIncrement = false := any_isSeqIncrement h'.uncommitted
  have hsuspensions :
      [es ++ fs].countP suspensionCommitted = [es, fs].countP suspensionCommitted := by
    have hfs : suspensionCommitted fs = false := by rw [suspensionCommitted, hnone, Bool.false_and]
    rw [List.countP_cons, List.countP_cons, List.countP_cons, hsuspension, hfs]
    simp
  have hflushes : [es ++ fs].countP flushCommitted = [es, fs].countP flushCommitted := by
    have hfs : flushCommitted fs = false := by rw [flushCommitted, hnone, Bool.false_and]
    rw [List.countP_cons, List.countP_cons, List.countP_cons, hflush, hfs]
    simp
  exact ⟨hflatten ▸ hboth.activations, hflatten ▸ hboth.intents, hflatten ▸ hboth.errors,
    hflatten ▸ hsuspensions ▸ hboth.suspensions, hflatten ▸ hflushes ▸ hboth.flushes,
    hflatten ▸ hflushes ▸ hboth.samples⟩

theorem Balanced.of_silent (h : ∀ e ∈ es, e.silent = true) : Balanced es := by
  have hnone : audible es = [] := audible_of_silent h
  refine ⟨.of_audible ?_, ?_⟩
  · rw [hnone]
    exact ⟨rfl, rfl, rfl, rfl, rfl, rfl⟩
  · rw [← seqIncrements_audible, hnone]
    rfl

theorem Balanced.append (h : Balanced es) (h' : Balanced fs) : Balanced (es ++ fs) := by
  have hes := any_isSeqIncrement h.uncommitted
  have hfs := any_isSeqIncrement h'.uncommitted
  refine ⟨h.metered.join h' ?_ ?_, ?_⟩
  · simp [suspensionCommitted, hes, hfs]
  · simp [flushCommitted, hes, hfs]
  · rw [seqIncrements_append, h.uncommitted, h'.uncommitted]

theorem Balanced.flatMap {α : Type} {l : List α} {f : α → List Effect}
    (h : ∀ a ∈ l, Balanced (f a)) : Balanced (l.flatMap f) := by
  induction l with
  | nil => exact .of_silent (by simp)
  | cons a l ih =>
    rw [List.flatMap_cons]
    exact (h a List.mem_cons_self).append (ih fun b hb => h b (List.mem_cons_of_mem a hb))

theorem balanced_deadLetter (key : Bytes) (reason detail : String) (t : Int) :
    Balanced (deadLetter key reason detail t) := by
  unfold deadLetter
  split_ifs <;> exact ⟨⟨rfl, rfl, rfl, rfl, rfl, rfl⟩, rfl⟩

end Balanced

/-! ### Commits -/

namespace AgentDoFn

variable {d : AgentDoFn} {py : PyLib} {key : Bytes} {s s' : KeyState} {c : KeyCall}
  {os : List Effect}

/-- The metrics of a commit that are audible. -/
theorem audible_recordCommit (result : ActivationResult) (ms : Int) (caller : CommitOf) :
    audible (recordCommit result ms caller) =
      .incr .activations :: (recordFlush caller ++
        ((if result.status = .suspended then [.incr .suspensions] else []) ++
          incrBy .intentsEmitted result.intents.length)) := by
  have hby {counter : Counter} (h : ∀ n, (Effect.incr counter n).silent = true) (n : ℕ) :
      audible (incrBy counter n) = [] := by
    unfold incrBy
    split_ifs <;> simp [audible_cons, h]
  have hflush : audible (recordFlush caller) = recordFlush caller := by
    refine audible_of_loud ?_
    cases caller with
    | flush size trigger =>
      simp only [recordFlush]
      split_ifs <;> simp [Effect.silent]
    | start | resume => simp [recordFlush]
  have hsuspended : audible (if result.status = .suspended then [.incr .suspensions] else []) =
      if result.status = .suspended then [.incr .suspensions] else [] := by
    split_ifs <;> rfl
  have hintents : audible (incrBy .intentsEmitted result.intents.length) =
      incrBy .intentsEmitted result.intents.length := by
    unfold incrBy
    split_ifs <;> rfl
  have htally : audible (recordTally result.tally ms) = [] := by
    have hllm : audible (result.tally.llmMs.map (Effect.observe .llmMs)) = [] :=
      audible_of_silent (by simp [Effect.silent])
    cases husage : result.tally.usageObserved <;>
      simp [recordTally, husage, hllm, audible_cons, Effect.silent]
  simp [recordCommit, audible_cons, Effect.silent, hby, hflush, hsuspended, hintents, htally]

/-- The elements of a commit that are audible: its intents. -/
theorem audible_commitOutputs (result : ActivationResult) :
    audible (commitOutputs result) = result.intents.map fun i => .emit (.intents i) := by
  have hmain : audible (result.outputs.map fun b => .emit (.main b)) = [] :=
    audible_of_silent (by simp [Effect.silent])
  have htraces : audible (result.traces.map fun t => .emit (.traces t)) = [] :=
    audible_of_silent (by simp [Effect.silent])
  have hintents : audible (result.intents.map fun i => .emit (.intents i)) =
      result.intents.map fun i => .emit (.intents i) :=
    audible_of_loud (by simp [Effect.silent])
  simp only [commitOutputs, audible_append, hmain, htraces, hintents, List.nil_append,
    List.append_nil]

/-- The writes of a commit that are audible. -/
theorem audible_commitCells (result : ActivationResult) (caller : CommitOf) :
    audible (commitCells result caller) =
      (result.continuation.map Effect.writeContinuation).toList ++
        (match caller with
          | .flush .. => [.clearBatch]
          | .start | .resume => []) ++ [.addSeq 1] := by
  have hpending : audible (result.intents.map Effect.addPending) = [] :=
    audible_of_silent (by simp [Effect.silent])
  cases hcont : result.continuation <;> cases caller <;>
    simp [commitCells, hcont, hpending, audible_cons, Effect.silent]

theorem audible_commit (w : World) (result : ActivationResult) (nowMs : Int) (caller : CommitOf) :
    audible (sampleActivation w :: d.commit s w result nowMs caller) =
      audible (commitCells result caller) ++
        audible (recordCommit result (activationMs w) caller) ++
        audible (commitOutputs result) := by
  have htimers : audible (d.commitTimers result nowMs) = [] := by
    unfold commitTimers
    split <;> rfl
  have hflush : audible (d.commitFlushTimer s w result caller) = [] := by
    unfold commitFlushTimer rearmFlush
    cases caller with
    | start | flush => rfl
    | resume => split_ifs <;> rfl
  have hsample : audible [sampleActivation w] = [] := rfl
  rw [commit, ← List.singleton_append]
  simp only [audible_append, htimers, hflush, hsample, List.nil_append, List.append_nil]

/-- The intents of a commit, with their counter. -/
def countedIntents (intents : List ToolIntent) : List Effect :=
  incrBy .intentsEmitted intents.length ++ intents.map fun i => .emit (.intents i)

theorem any_countedIntents {p : Effect → Bool} (hincr : ∀ counter n, p (.incr counter n) = false)
    (hemit : ∀ i, p (.emit (.intents i)) = false) (intents : List ToolIntent) :
    (countedIntents intents).any p = false := by
  have hby : (incrBy .intentsEmitted intents.length).any p = false := by
    unfold incrBy
    split_ifs <;> simp [hincr]
  rw [countedIntents, List.any_append, hby]
  simp [hemit]

/-- The counter is moved by the number of the intents. -/
theorem balanced_countedIntents (intents : List ToolIntent) :
    Balanced (countedIntents intents) := by
  have hcounted (counter : Counter) : counterSum counter (countedIntents intents) =
      if .intentsEmitted = counter then intents.length else 0 := by
    have hemits : counterSum counter (intents.map fun i => .emit (.intents i)) = 0 := by
      simp [counterSum, Function.comp_def]
    rw [countedIntents, counterSum_append, hemits, incrBy]
    split_ifs <;> simp_all [counterSum]
  have hnone {p : Effect → Bool} (h : (countedIntents intents).any p = false) :
      (countedIntents intents).countP p = 0 := by
    simpa using h
  have hany : (countedIntents intents).any Effect.isSeqIncrement = false :=
    any_countedIntents (fun _ _ => rfl) (fun _ => rfl) intents
  have hseq : seqIncrements (countedIntents intents) = 0 := hnone hany
  have hsampled : sampled .batchSize (countedIntents intents) = 0 :=
    hnone (any_countedIntents (fun _ _ => rfl) (fun _ => rfl) intents)
  have hintents : intentsOf (countedIntents intents) = intents := by
    have hincr : intentsOf (incrBy .intentsEmitted intents.length) = [] := by
      unfold incrBy
      split_ifs <;> rfl
    rw [countedIntents, intentsOf_append, hincr]
    simp [intentsOf]
  have herrors : errorsOf (countedIntents intents) = [] := by
    have hincr : errorsOf (incrBy .intentsEmitted intents.length) = [] := by
      unfold incrBy
      split_ifs <;> rfl
    rw [countedIntents, errorsOf_append, hincr, errorsOf, outputsOf_map_emit]
    simp
  refine ⟨⟨?_, ?_, ?_, ?_, ?_, ?_⟩, hseq⟩
  all_goals simp [hcounted, hsampled, hseq, hintents, herrors, suspensionCommitted, flushCommitted,
    hany]

/-- What a commit counts and what of it is counted, apart from its intents. -/
def commitRecord (result : ActivationResult) (caller : CommitOf) : List Effect :=
  (result.continuation.map Effect.writeContinuation).toList ++
    (match caller with
      | .flush .. => [.clearBatch]
      | .start | .resume => []) ++ .addSeq 1 :: .incr .activations ::
    (recordFlush caller ++ if result.status = .suspended then [.incr .suspensions] else [])

theorem metered_commitRecord {result : ActivationResult} (caller : CommitOf)
    (h : result.status = .suspended ↔ result.continuation.isSome) :
    Metered [commitRecord result caller] ∧ seqIncrements (commitRecord result caller) = 1 := by
  cases hcont : result.continuation with
  | none =>
    have hstatus : result.status ≠ .suspended := by simp [h, hcont]
    cases caller with
    | start | resume =>
      simp only [commitRecord, hcont, hstatus, if_false]
      exact ⟨⟨rfl, rfl, rfl, rfl, rfl, rfl⟩, rfl⟩
    | flush size trigger =>
      simp only [commitRecord, hcont, hstatus, if_false, recordFlush]
      split_ifs <;> exact ⟨⟨rfl, rfl, rfl, rfl, rfl, rfl⟩, rfl⟩
  | some cont =>
    have hstatus : result.status = .suspended := by simp [h, hcont]
    cases caller with
    | start | resume =>
      simp only [commitRecord, hcont, hstatus, if_true]
      exact ⟨⟨rfl, rfl, rfl, rfl, rfl, rfl⟩, rfl⟩
    | flush size trigger =>
      simp only [commitRecord, hcont, hstatus, if_true, recordFlush]
      split_ifs <;> exact ⟨⟨rfl, rfl, rfl, rfl, rfl, rfl⟩, rfl⟩

/-- A committed activation is metered, after whatever silent effects. -/
theorem metered_commit {w : World} {input : ActivationInput} {result : ActivationResult}
    {pre : List Effect} (nowMs : Int) (caller : CommitOf) (hpre : audible pre = [])
    (hresult : d.activate py w input = .ok result) :
    Metered [pre ++ sampleActivation w :: d.commit s w result nowMs caller] ∧
      seqIncrements (pre ++ sampleActivation w :: d.commit s w result nowMs caller) = 1 := by
  obtain ⟨cursor, hv⟩ := activate_valid hresult
  have haudible : audible (pre ++ sampleActivation w :: d.commit s w result nowMs caller) =
      commitRecord result caller ++ countedIntents result.intents := by
    rw [audible_append, hpre, List.nil_append, audible_commit, audible_commitCells,
      audible_recordCommit, audible_commitOutputs]
    simp only [commitRecord, countedIntents, List.append_assoc, List.cons_append, List.nil_append]
  obtain ⟨hrecord, hone⟩ := metered_commitRecord caller hv.status
  have hbalanced := balanced_countedIntents result.intents
  constructor
  · have hstores : (countedIntents result.intents).any Effect.storesContinuation = false :=
      any_countedIntents (fun _ _ => rfl) (fun _ => rfl) _
    have hconsumes : (countedIntents result.intents).any Effect.consumesBuffer = false :=
      any_countedIntents (fun _ _ => rfl) (fun _ => rfl) _
    have hseq := any_isSeqIncrement hbalanced.uncommitted
    refine .of_audible (haudible ▸ hrecord.join hbalanced ?_ ?_)
    · rw [suspensionCommitted, List.any_append, List.any_append, hseq, hstores, Bool.or_false,
        Bool.or_false, suspensionCommitted]
    · rw [flushCommitted, List.any_append, List.any_append, hseq, hconsumes, Bool.or_false,
        Bool.or_false, flushCommitted]
  · rw [← seqIncrements_audible, haudible, seqIncrements_append, hone, hbalanced.uncommitted]

/-! ### Calls -/

/-- Buffering an event is silent. -/
theorem Buffered.silent {pre : List Effect} (h : d.Buffered s c pre) :
    ∀ e ∈ pre, e.silent = true := by
  cases h with
  | no => simp
  | yes =>
    simp only [bufferEffects]
    split_ifs <;> simp [Effect.silent]

section Balanced

variable (py) (key)

theorem balanced_errorTrace (seq : ℕ) (now : Int) (reason errorType : String)
    (role : Option String) (failure : Option FailureContext) :
    Balanced [errorTrace py key seq now reason errorType role failure] :=
  .of_silent (by simp [errorTrace, Effect.silent])

theorem balanced_activationFailure (seq : ℕ) (now : Int) (failure : ActivationFailure) :
    Balanced (activationFailure py key seq now failure) := by
  cases failure with
  | timeout => exact (balanced_deadLetter ..).append (balanced_errorTrace ..)
  | failed context cause => exact (balanced_deadLetter ..).append (balanced_errorTrace ..)
  | raised e => exact (balanced_deadLetter ..).append (balanced_errorTrace ..)

theorem balanced_flushFailure (seq : ℕ) (now : Int) (envelopes : List AgentEnvelope)
    (batchDetail : String) (failure : ActivationFailure) :
    Balanced (flushFailure py key seq now envelopes batchDetail failure) := by
  have hfailed (reason detail : String) : Balanced (failedFlush key now envelopes reason detail) :=
    (Balanced.flatMap fun _ _ => balanced_deadLetter ..).append
      ⟨⟨rfl, rfl, rfl, rfl, rfl, rfl⟩, rfl⟩
  cases failure with
  | timeout => exact (hfailed ..).append (balanced_errorTrace ..)
  | failed context cause => exact (hfailed ..).append (balanced_errorTrace ..)
  | raised e => exact (hfailed ..).append (balanced_errorTrace ..)

theorem balanced_uncommitted (h : Uncommitted py key s c os) : Balanced os := by
  have hsample (w : World) : Balanced [sampleActivation w] :=
    .of_silent (by simp [sampleActivation, Effect.silent])
  cases h with
  | nothing => exact .of_silent (by simp)
  | exported => exact .of_silent (by simp [Effect.silent])
  | failed => exact (hsample _).append (balanced_activationFailure ..)
  | flushFailed => exact (hsample _).append (balanced_flushFailure ..)
  | refused => exact (balanced_deadLetter ..).append (balanced_errorTrace ..)
  | shed => exact balanced_deadLetter ..

theorem balanced_endSuspension (cont : Continuation) (fired : Int) (route : Route)
    (detail : String) (w : World) :
    Balanced (d.endSuspension py key cont fired route detail s w) := by
  have hrearm : Balanced (d.rearmFlush s w) := by
    refine .of_silent ?_
    unfold rearmFlush
    split_ifs <;> simp [Effect.silent]
  have hrecord : Balanced (timeoutRecord key fired route detail) := by
    cases route with
    | escalate => exact .of_silent (by simp [timeoutRecord])
    | deny output => exact .of_silent (by simp [timeoutRecord, Effect.silent])
    | drop reason => exact balanced_deadLetter ..
  have hclear : Balanced [.clearContinuation, .clearPending, .clearHitl] :=
    .of_silent (by simp [Effect.silent])
  exact ((hclear.append hrearm).append hrecord).append (balanced_errorTrace ..)

theorem balanced_wiped (fired : Int) (cont : Option Continuation) :
    Balanced (wipedSuspension py key fired cont ++ (d.wipedBatch key fired s ++ d.wipe)) := by
  have hsuspension : Balanced (wipedSuspension py key fired cont) := by
    cases cont with
    | none => exact .of_silent (by simp [wipedSuspension])
    | some cont => exact (balanced_deadLetter ..).append (balanced_errorTrace ..)
  have hbatch : Balanced (d.wipedBatch key fired s) := by
    unfold wipedBatch
    split_ifs
    · exact .of_silent (by simp)
    · exact .flatMap fun _ _ => balanced_deadLetter ..
  have hwipe : Balanced d.wipe := by
    unfold wipe
    split_ifs <;> exact ⟨⟨rfl, rfl, rfl, rfl, rfl, rfl⟩, rfl⟩
  exact hsuspension.append (hbatch.append hwipe)

end Balanced

/-- What a call did is metered and commits at most once. -/
theorem Did.metered {pre : List Effect} (hpre : d.Buffered s c pre)
    (h : d.Did py key (s.applyAll pre) c os) :
    Metered [pre ++ os] ∧ seqIncrements (pre ++ os) ≤ 1 := by
  have hbuffered : Balanced pre := .of_silent hpre.silent
  have hbalanced (h : Balanced os) : Metered [pre ++ os] ∧ seqIncrements (pre ++ os) ≤ 1 := by
    have hall := hbuffered.append h
    exact ⟨hall.metered, hall.uncommitted.le.trans (Nat.zero_le 1)⟩
  cases h with
  | uncommitted h => exact hbalanced (balanced_uncommitted py key h)
  | commit hact hresult hes =>
    subst hes
    obtain ⟨hmetered, hone⟩ := metered_commit (s := s.applyAll pre) _ _
      (audible_of_silent hpre.silent) hresult
    exact ⟨hmetered, hone.le⟩
  | escalate => exact hbalanced ⟨⟨rfl, rfl, rfl, rfl, rfl, rfl⟩, rfl⟩
  | ended => exact hbalanced (balanced_endSuspension py key _ _ _ _ _)
  | wiped => exact hbalanced (balanced_wiped py key _ _)

/-! ### Runs -/

/-- **The counters agree with what was emitted.** Over every run of one key, with the effects of its
calls kept in a log: each call increments `SEQ` at most once; the activations counted are the
increments of `SEQ`; the intents counted are the elements emitted on `.intents`; the agent errors
and the orphaned results counted are, together, the elements emitted on `.errors`; the suspensions
counted are the calls that committed an activation with a continuation to store; and the flushes
counted on size and on the timer are, together, the calls that committed a flush, as many as the
samples of `batch_size`. -/
theorem run_metered (d : AgentDoFn) (py : PyLib) (key : Bytes) {calls : List KeyCall}
    {effects : List Effect} {s : KeyState} {log : List (List Effect)}
    (h : ((d.machine py key).tracked fun log _ os => log ++ [os]).Run ({}, []) calls effects
      (s, log)) :
    effects = log.flatten ∧ log.length = calls.length ∧ (∀ os ∈ log, seqIncrements os ≤ 1) ∧
      Metered log := by
  refine h.invariant (I := fun calls effects x => effects = x.2.flatten ∧
    x.2.length = calls.length ∧ (∀ os ∈ x.2, seqIncrements os ≤ 1) ∧ Metered x.2)
    ⟨rfl, rfl, by simp, .nil⟩ ?_
  rintro calls effects x c y os - ⟨heffects, hlength, honce, hmetered⟩ ⟨⟨hcall, -⟩, hlog⟩
  obtain ⟨pre, es, rfl, hpre, hdid⟩ := call_did hcall
  obtain ⟨hcalled, hone⟩ := hdid.metered hpre
  rw [hlog]
  refine ⟨by simp [heffects], by simp [hlength], ?_, hmetered.append hcalled⟩
  intro os hos
  rcases List.mem_append.mp hos with hos | hos
  · exact honce os hos
  · exact List.mem_singleton.mp hos ▸ hone

/-- Of four events one is flushed and suspends, two are buffered behind it and one is shed; a wipe
drops the suspension and the buffer. -/
def meteredCalls : List KeyCall :=
  [eventAt 1000 1, eventAt 2000 2, eventAt 3000 3, eventAt 4000 4, .onTtl 9000000 quietWorld]

/-- The run counts one activation, one suspension, one flush and four errors. -/
theorem run_metered_wiped : ∃ effects s log,
    ((hurriedAgent.machine (.ofTable identityTable) [107]).tracked fun log _ os => log ++ [os]).Run
      ({}, []) meteredCalls effects (s, log) ∧ Metered log ∧
    log.countP suspensionCommitted = 1 ∧ log.countP flushCommitted = 1 ∧
    seqIncrements log.flatten = 1 ∧ (errorsOf log.flatten).length = 4 := by
  have hdecided : ((hurriedAgent.exec (.ofTable identityTable) [107] {} meteredCalls).map fun r =>
      (counterSum .suspensions r.1, sampled .batchSize r.1, counterSum .activations r.1,
        counterSum .agentErrors r.1 + counterSum .orphanedResults r.1)) = some (1, 1, 1, 4) := by
    decide
  obtain ⟨⟨effects, s⟩, hexec, hcounts⟩ := Option.map_eq_some_iff.mp hdecided
  have hrun : (hurriedAgent.machine (.ofTable identityTable) [107]).Run {} meteredCalls effects s :=
    (exec_run (C := fun _ _ => True) hexec fun _ _ _ => trivial).of_guarded
  obtain ⟨log, hlog⟩ := hrun.tracked (f := fun log _ os => log ++ [os]) (n := [])
  obtain ⟨heffects, -, -, hmetered⟩ := run_metered hurriedAgent (.ofTable identityTable) [107] hlog
  simp only [heffects, Prod.mk.injEq] at hcounts
  obtain ⟨hsuspensions, hsamples, hactivations, herrors⟩ := hcounts
  exact ⟨effects, s, log, hlog, hmetered, hmetered.suspensions ▸ hsuspensions,
    hmetered.samples ▸ hsamples, hmetered.activations ▸ hactivations, hmetered.errors ▸ herrors⟩

end AgentDoFn

end BeamAgents
