import BeamAgents.Core.ModelCalls
import Mathlib.Tactic.SplitIfs

/-!
# The trial of a half-open breaker

A breaker whose cooldown has passed lets a call through and is half open until that call is
recorded. It does not count the calls that it lets through while it is half open, and a call records
nothing when it ends by an exception other than `ProviderError`: with the first two calls can be on
trial at a time, and with the second a breaker stays half open with no call on trial.

## Main definitions

* `ModelWorker.Trial`, `ModelWorker.OneProbe`: the calls on trial, and that the half-open breaker
  has exactly one.
* `ModelWorker.KeepsOne`: the steps that keep it so.
* `ModelWorker.FailsFast`: calls that come to an open breaker do not get to the provider.

## Main results

* `ModelWorker.run_oneProbe_iff`.
* `ModelWorker.second_trial`: two calls on trial, and a breaker half open for nobody.
-/

namespace BeamAgents

open Transition

namespace CircuitBreaker

variable {b : CircuitBreaker} {nowMs : Int}

/-- A call that comes now is let through on trial. -/
def Probing (b : CircuitBreaker) (nowMs : Int) : Prop :=
  b.state = .halfOpen ∨ b.state = .opened ∧ ∃ t ∈ b.openedAtMs, b.cooldownMs ≤ nowMs - t

/-- The breaker is open, and the cooldown has not passed. -/
def CoolingDown (b : CircuitBreaker) (nowMs : Int) : Prop :=
  b.state = .opened ∧ ∃ t ∈ b.openedAtMs, nowMs - t < b.cooldownMs

/-- An open breaker knows since when. -/
def Dated (b : CircuitBreaker) : Prop := b.state = .opened → b.openedAtMs ≠ none

theorem CoolingDown.not_probing (h : b.CoolingDown nowMs) : ¬ b.Probing nowMs := by
  obtain ⟨hstate, t, hat, hcold⟩ := h
  rintro (hhalf | ⟨-, t', hat', hwarm⟩)
  · rw [hstate] at hhalf
    cases hhalf
  · rw [Option.mem_def, Option.mem_def.mp hat] at hat'
    cases hat'
    exact Int.not_lt.mpr hwarm hcold

theorem beforeCall_coolingDown (h : b.CoolingDown nowMs) : b.beforeCall nowMs = .circuitOpen := by
  obtain ⟨hstate, t, hat, hcold⟩ := h
  rw [Option.mem_def] at hat
  simp only [beforeCall, if_pos hstate, hat, if_pos hcold]

theorem beforeCall_probing (h : b.Probing nowMs) :
    b.beforeCall nowMs = .admitted { b with state := .halfOpen } := by
  rcases h with hstate | ⟨hstate, t, hat, hwarm⟩
  · have hclosed : b.state ≠ .opened := by
      rw [hstate]
      decide
    rw [beforeCall, if_neg hclosed]
    simp [← hstate]
  · rw [Option.mem_def] at hat
    simp only [beforeCall, if_pos hstate, hat, if_neg (Int.not_lt.mpr hwarm)]

/-- A breaker that is neither lets every call through. -/
theorem beforeCall_closed (hdated : b.Dated) (hcold : ¬ b.CoolingDown nowMs)
    (hprobing : ¬ b.Probing nowMs) : b.beforeCall nowMs = .admitted b ∧ b.state = .closed := by
  have hopened : b.state ≠ .opened := by
    intro hstate
    obtain ⟨t, hat⟩ := Option.ne_none_iff_exists'.mp (hdated hstate)
    rcases Int.lt_or_le (nowMs - t) b.cooldownMs with hlt | hge
    · exact hcold ⟨hstate, t, hat, hlt⟩
    · exact hprobing (.inr ⟨hstate, t, hat, hge⟩)
  refine ⟨if_neg hopened, ?_⟩
  cases hstate : b.state with
  | closed => rfl
  | opened => exact absurd hstate hopened
  | halfOpen => exact absurd (.inl hstate) hprobing

theorem recordFailure_state (b : CircuitBreaker) (nowMs : Int) :
    (b.recordFailure nowMs).state ≠ .halfOpen := by
  unfold recordFailure
  dsimp only
  split_ifs with hhalf hthreshold
  · nofun
  · nofun
  · exact hhalf

theorem recordFailure_dated (hdated : b.Dated) : (b.recordFailure nowMs).Dated := by
  unfold recordFailure
  dsimp only
  split_ifs with hhalf hthreshold
  · exact fun _ => nofun
  · exact fun _ => nofun
  · exact hdated

end CircuitBreaker

/-! ### Calls on trial -/

/-- The call was let through by a half-open breaker. -/
def PendingCall.trial : PendingCall → Bool
  | .model .. => false
  | .facade _ call _ => call.trial

namespace ModelWorker

variable (py : PyLib) (facades : ℕ → LlmFacade)

/-- A call in flight is on trial. -/
def Trial (s : ModelWorker) (id : ℕ) : Prop := ∃ call ∈ s.calls id, call.trial = true

/-- **The half-open breaker admits one probe**: at most one call is on trial, and when the breaker
is half open one is. -/
structure OneProbe (s : ModelWorker) : Prop where
  once : ∀ i j, s.Trial i → s.Trial j → i = j
  undecided : s.breaker.state = .halfOpen → ∃ i, s.Trial i

/-- A `complete` comes to the breaker: the budget lets it pass, and the cache does not have it. -/
def ReachesBreaker (s : ModelWorker) (a : ℕ) (args : CompleteArgs) : Prop :=
  (s.contexts a).budget.bind TokenBudget.check = none ∧ ∃ cacheKey,
    computeCacheKey py args.effectiveRequest args.entityKey args.seq = .ok cacheKey ∧
      (s.contexts a).replayCache.served cacheKey = none

/-- While the breaker is open and its cooldown has not passed, a call that comes to it raises, and
the provider is not called. -/
def FailsFast (s : ModelWorker) (act : ModelAct) (es : List CallEvent) : Prop :=
  ∀ a args, act = .complete a args → ReachesBreaker py s a args →
    s.breaker.CoolingDown (s.contexts a).nowMs →
      es = [.raised s.next a (circuitOpenError py s.breaker.endpoint)]

/-- The steps that keep the trial one: no call is put on trial beside another, and none that is on
trial ends by an exception other than `ProviderError` while the breaker waits for it. -/
def KeepsOne (s : ModelWorker) : ModelAct → Prop
  | .complete a args => ReachesBreaker py s a args → s.breaker.Probing (s.contexts a).nowMs →
      if (facades a).maxAttempts = 0 then ∃ i, s.Trial i else ∀ i, ¬ s.Trial i
  | .respond id (.raised _) _ | .wake id (some _) => s.Trial id → s.breaker.state ≠ .halfOpen
  | _ => True

/-- What a step does to the breaker and the calls on trial. -/
inductive BreakerMove (s : ModelWorker) : ModelAct → ModelWorker → Prop
  /-- Nothing that matters. -/
  | keeps {act s'} (hkept : KeepsOne py facades s act) (hstate : s'.breaker.state = s.breaker.state)
      (htrials : ∀ i, s'.Trial i ↔ s.Trial i) : BreakerMove s act s'
  /-- A call is put on trial. -/
  | begins {a args s'} (hreaches : ReachesBreaker py s a args)
      (hprobing : s.breaker.Probing (s.contexts a).nowMs) (hattempts : (facades a).maxAttempts ≠ 0)
      (hstate : s'.breaker.state = .halfOpen) (htrials : ∀ i, s'.Trial i ↔ s.Trial i ∨ i = s.next) :
      BreakerMove s (.complete a args) s'
  /-- A call that is put on trial has no attempt, and raises at once. -/
  | barren {a args s'} (hreaches : ReachesBreaker py s a args)
      (hprobing : s.breaker.Probing (s.contexts a).nowMs) (hattempts : (facades a).maxAttempts = 0)
      (hstate : s'.breaker.state = .halfOpen) (htrials : ∀ i, s'.Trial i ↔ s.Trial i) :
      BreakerMove s (.complete a args) s'
  /-- A call ends and is recorded. -/
  | decided {act id s'} (hkept : KeepsOne py facades s act)
      (hstate : s'.breaker.state ≠ .halfOpen) (htrials : ∀ i, s'.Trial i ↔ s.Trial i ∧ i ≠ id) :
      BreakerMove s act s'
  /-- A call ends by another exception. -/
  | abandoned {act id s'}
      (hkept : KeepsOne py facades s act ↔ (s.Trial id → s.breaker.state ≠ .halfOpen))
      (hstate : s'.breaker.state = s.breaker.state)
      (htrials : ∀ i, s'.Trial i ↔ s.Trial i ∧ i ≠ id) : BreakerMove s act s'

variable {py facades} {s s' : ModelWorker} {act : ModelAct} {es : List CallEvent} {a id : ℕ}

theorem trial_none (h : s.calls id = none) : ¬ s.Trial id := by
  rintro ⟨call, hcall, -⟩
  rw [h] at hcall
  cases hcall

/-- The calls on trial after a call has changed. -/
theorem trial_withCall {call : Option PendingCall} {i : ℕ} :
    (s.withCall id call).Trial i ↔ s.Trial i ∧ i ≠ id ∨ i = id ∧ ∃ x ∈ call, x.trial = true := by
  unfold Trial withCall
  by_cases hi : i = id
  · subst hi
    simp
  · simp [hi]

/-- A call that was not on trial begins. -/
theorem Numbered.trial_fresh (h : s.Numbered) (call : PendingCall) {i : ℕ} :
    (s.withCall s.next (some call)).Trial i ↔ s.Trial i ∨ i = s.next ∧ call.trial = true := by
  have hfree : ¬ s.Trial s.next := trial_none (h s.next (Nat.le_refl _))
  rw [trial_withCall]
  constructor
  · rintro (⟨htrial, -⟩ | ⟨rfl, x, hx, htrial⟩)
    · exact .inl htrial
    · cases hx
      exact .inr ⟨rfl, htrial⟩
  · rintro (htrial | ⟨rfl, htrial⟩)
    · exact .inl ⟨htrial, fun hi => hfree (hi ▸ htrial)⟩
    · exact .inr ⟨rfl, call, rfl, htrial⟩

theorem trial_ended {i : ℕ} : (s.withCall id none).Trial i ↔ s.Trial i ∧ i ≠ id := by
  rw [trial_withCall]
  simp

/-- A call that goes on stays on trial, or stays off it. -/
theorem trial_changed {call call' : PendingCall} (hcall : s.calls id = some call)
    (htrial : call'.trial = call.trial) {i : ℕ} :
    (s.withCall id (some call')).Trial i ↔ s.Trial i := by
  have hid : s.Trial id ↔ call.trial = true := by
    simp [Trial, hcall]
  rw [trial_withCall]
  by_cases hi : i = id
  · subst hi
    simp [hid, htrial]
  · simp [hi]

theorem callModel_breakerMove (h : s.Numbered) {request : LlmRequest} :
    BreakerMove py facades s (.callModel a request) (callModel py facades s a request).1 := by
  refine .keeps trivial ?_ fun i => ?_
  · unfold callModel
    dsimp only
    split <;> rfl
  · unfold callModel
    dsimp only
    split
    · exact (h.trial_fresh _).trans (by simp [PendingCall.trial])
    · exact Iff.rfl
    · exact Iff.rfl

/-- A call that the breaker lets through. -/
theorem complete_admitted (h : s.Numbered) (hdated : s.breaker.Dated) {args : CompleteArgs}
    {ctx : ActivationContext}
    {cacheKey : String} (hreaches : ReachesBreaker py s a args)
    (hcold : ¬ s.breaker.CoolingDown (s.contexts a).nowMs)
    (henter : (facades a).completeEnter py s.breaker (s.contexts a) args =
      match s.breaker.beforeCall (s.contexts a).nowMs with
      | .circuitOpen => (s.breaker, ctx, .raised (circuitOpenError py s.breaker.endpoint))
      | .assertionFailed =>
        (s.breaker, ctx, .raised { typeName := "AssertionError", repr := "AssertionError()" })
      | .admitted breaker =>
        if (facades a).maxAttempts = 0 then
          (breaker, ctx, .raised {
            typeName := "AssertionError"
            repr := "AssertionError('unreachable: retry loop always returns')" })
        else (breaker, ctx, .calling { args, cacheKey, trial := breaker.state = .halfOpen })) :
    BreakerMove py facades s (.complete a args) (complete py facades s a args).1 := by
  unfold complete
  by_cases hprobing : s.breaker.Probing (s.contexts a).nowMs
  · rw [CircuitBreaker.beforeCall_probing hprobing] at henter
    by_cases hattempts : (facades a).maxAttempts = 0
    · rw [henter]
      dsimp only
      rw [if_pos hattempts]
      exact .barren hreaches hprobing hattempts rfl fun i => Iff.rfl
    · rw [henter]
      dsimp only
      rw [if_neg hattempts]
      exact .begins hreaches hprobing hattempts rfl fun i =>
        (h.trial_fresh _).trans (by simp [PendingCall.trial])
  · obtain ⟨hadmitted, hclosed⟩ := CircuitBreaker.beforeCall_closed hdated hcold hprobing
    rw [hadmitted] at henter
    have hkept : KeepsOne py facades s (.complete a args) := fun _ hr => absurd hr hprobing
    rw [henter]
    dsimp only
    split_ifs with hattempts
    · exact .keeps hkept rfl fun i => Iff.rfl
    · exact .keeps hkept rfl fun i =>
        (h.trial_fresh _).trans (by simp [PendingCall.trial, hclosed])

/-- Every case of how a `complete` enters. -/
theorem complete_breakerMove (h : s.Numbered) (hdated : s.breaker.Dated) {args : CompleteArgs} :
    BreakerMove py facades s (.complete a args) (complete py facades s a args).1 ∧
      FailsFast py s (.complete a args) (complete py facades s a args).2 := by
  -- What does not come to the breaker leaves it alone.
  have hspared {ctx : ActivationContext} {entry : CompleteEntry}
      (hreaches : ¬ ReachesBreaker py s a args)
      (henter : (facades a).completeEnter py s.breaker (s.contexts a) args =
        (s.breaker, ctx, entry)) (hentry : ∀ call, entry ≠ .calling call) :
      BreakerMove py facades s (.complete a args) (complete py facades s a args).1 ∧
        FailsFast py s (.complete a args) (complete py facades s a args).2 := by
    refine ⟨.keeps (fun hr => absurd hr hreaches) ?_ fun i => ?_, ?_⟩
    · unfold complete
      rw [henter]
      cases entry <;> rfl
    · unfold complete
      rw [henter]
      cases entry with
      | calling call => exact absurd rfl (hentry call)
      | raised | served => exact Iff.rfl
    · intro a' args' heq hr
      cases heq
      exact absurd hr hreaches
  cases hbudget : (s.contexts a).budget.bind TokenBudget.check with
  | some e =>
    refine hspared (fun hr => ?_) (LlmFacade.completeEnter_refused hbudget) nofun
    rw [hr.1] at hbudget
    cases hbudget
  | none =>
    cases hkey : computeCacheKey py args.effectiveRequest args.entityKey args.seq with
    | error e =>
      refine hspared (fun hr => ?_) (LlmFacade.completeEnter_unkeyed hbudget hkey) nofun
      obtain ⟨-, cacheKey, hok, -⟩ := hr
      rw [hkey] at hok
      cases hok
    | ok cacheKey =>
      cases hserved : (s.contexts a).replayCache.served cacheKey with
      | some stored =>
        refine hspared (fun hr => ?_) (LlmFacade.completeEnter_hit hbudget hkey hserved) nofun
        obtain ⟨-, cacheKey', hok, hnone⟩ := hr
        cases hkey.symm.trans hok
        rw [hserved] at hnone
        cases hnone
      | none =>
        have hreaches : ReachesBreaker py s a args := ⟨hbudget, cacheKey, hkey, hserved⟩
        obtain ⟨ctx, -, henter⟩ :=
          LlmFacade.completeEnter_miss hbudget hkey hserved (facades a) s.breaker
        by_cases hcold : s.breaker.CoolingDown (s.contexts a).nowMs
        · rw [CircuitBreaker.beforeCall_coolingDown hcold] at henter
          unfold complete
          rw [henter]
          refine ⟨.keeps (fun _ hprobing => absurd hprobing hcold.not_probing) rfl fun i => Iff.rfl,
            fun a' args' heq _ _ => ?_⟩
          cases heq
          rfl
        · refine ⟨?_, fun a' args' heq _ hcold' => ?_⟩
          · exact complete_admitted h hdated hreaches hcold henter
          · cases heq
            exact absurd hcold' hcold

theorem respond_breakerMove {outcome : ProviderEnd} {elapsedNs : Int}
    (h : respond py facades s id outcome elapsedNs = some (s', es)) :
    BreakerMove py facades s (.respond id outcome elapsedNs) s' := by
  unfold respond at h
  split at h
  · rename_i a call hcall
    -- A call of the other surface is never on trial.
    have hfree : ¬ s.Trial id := by
      rintro ⟨x, hx, htrial⟩
      cases hcall.symm.trans hx
      cases htrial
    have hsame (i : ℕ) : (s.withCall id none).Trial i ↔ s.Trial i :=
      trial_ended.trans (and_iff_left_of_imp fun htrial hi => hfree (hi ▸ htrial))
    cases outcome with
    | ok response =>
      cases h
      exact .keeps trivial rfl hsame
    | providerError e =>
      cases h
      exact .keeps trivial rfl hsame
    | raised e =>
      cases h
      exact .keeps (fun htrial => absurd htrial hfree) rfl hsame
  · rename_i a call hcall
    cases outcome with
    | ok response =>
      cases h
      exact .decided trivial nofun fun i => trial_ended
    | providerError e =>
      dsimp only at h
      split_ifs at h with hlast
      · cases h
        have hstate : (LlmFacade.completeFailed py s.breaker (s.contexts a) call e).1.state ≠
            .halfOpen := CircuitBreaker.recordFailure_state _ _
        exact .decided trivial hstate fun i => trial_ended
      · cases h
        exact .keeps trivial rfl fun i => trial_changed hcall (by rfl)
    | raised e =>
      cases h
      exact .abandoned Iff.rfl rfl fun i => trial_ended
  · cases h

theorem wake_breakerMove {exn : Option PyExn} (h : s.wake id exn = some (s', es)) :
    BreakerMove py facades s (.wake id exn) s' := by
  unfold wake at h
  split at h
  · rename_i a call hcall
    cases exn with
    | none =>
      cases h
      exact .keeps trivial rfl fun i => trial_changed hcall (by rfl)
    | some e =>
      cases h
      exact .abandoned Iff.rfl rfl fun i => trial_ended
  · cases h

/-- **What a step does to the breaker**, and that an open breaker fails fast. -/
theorem perform_breakerMove (h : s.Numbered) (hdated : s.breaker.Dated)
    (hstep : perform py facades s act = some (s', es)) :
    BreakerMove py facades s act s' ∧ FailsFast py s act es := by
  cases act with
  | callModel a request =>
    have heq : (callModel py facades s a request).1 = s' :=
      congrArg Prod.fst (Option.some.inj hstep)
    exact ⟨heq ▸ callModel_breakerMove h, fun _ _ heq => nomatch heq⟩
  | complete a args =>
    have heq : complete py facades s a args = (s', es) := Option.some.inj hstep
    have hmove : BreakerMove py facades s (.complete a args) (complete py facades s a args).1 ∧
        FailsFast py s (.complete a args) (complete py facades s a args).2 :=
      complete_breakerMove h hdated
    rw [heq] at hmove
    exact hmove
  | respond id outcome elapsedNs => exact ⟨respond_breakerMove hstep, fun _ _ heq => nomatch heq⟩
  | wake id exn => exact ⟨wake_breakerMove hstep, fun _ _ heq => nomatch heq⟩

/-- A step keeps the trial one exactly when it meets the condition. -/
theorem BreakerMove.oneProbe_iff (hs : s.Numbered) (h : s.OneProbe)
    (hmove : BreakerMove py facades s act s') : KeepsOne py facades s act ↔ s'.OneProbe := by
  cases hmove with
  | keeps hkept hstate htrials =>
    refine iff_of_true hkept ⟨fun i j hi hj => ?_, fun hhalf => ?_⟩
    · exact h.once i j ((htrials i).mp hi) ((htrials j).mp hj)
    · obtain ⟨i, hi⟩ := h.undecided (hstate ▸ hhalf)
      exact ⟨i, (htrials i).mpr hi⟩
  | @begins a args _ hreaches hprobing hattempts hstate htrials =>
    have hkeeps : KeepsOne py facades s (.complete a args) ↔ ∀ i, ¬ s.Trial i := by
      simp only [KeepsOne, if_neg hattempts]
      exact ⟨fun hc => hc hreaches hprobing, fun hc _ _ => hc⟩
    rw [hkeeps]
    constructor
    · intro hnone
      have honly {i : ℕ} (hi : s'.Trial i) : i = s.next :=
        ((htrials i).mp hi).resolve_left (hnone i)
      exact ⟨fun i j hi hj => (honly hi).trans (honly hj).symm,
        fun _ => ⟨s.next, (htrials _).mpr (.inr rfl)⟩⟩
    · intro hone i hi
      have hnext : i = s.next :=
        hone.once i s.next ((htrials i).mpr (.inl hi)) ((htrials _).mpr (.inr rfl))
      exact trial_none (hs i (Nat.le_of_eq hnext.symm)) hi
  | @barren a args _ hreaches hprobing hattempts hstate htrials =>
    have hkeeps : KeepsOne py facades s (.complete a args) ↔ ∃ i, s.Trial i := by
      simp only [KeepsOne, if_pos hattempts]
      exact ⟨fun hc => hc hreaches hprobing, fun hc _ _ => hc⟩
    rw [hkeeps]
    constructor
    · rintro ⟨i, hi⟩
      exact ⟨fun i j hi hj => h.once i j ((htrials i).mp hi) ((htrials j).mp hj),
        fun _ => ⟨i, (htrials i).mpr hi⟩⟩
    · intro hone
      obtain ⟨i, hi⟩ := hone.undecided hstate
      exact ⟨i, (htrials i).mp hi⟩
  | decided hkept hstate htrials =>
    refine iff_of_true hkept ⟨fun i j hi hj => ?_, fun hhalf => absurd hhalf hstate⟩
    exact h.once i j ((htrials i).mp hi).1 ((htrials j).mp hj).1
  | @abandoned _ id _ hkept hstate htrials =>
    rw [hkept]
    constructor
    · intro hlive
      refine ⟨fun i j hi hj => h.once i j ((htrials i).mp hi).1 ((htrials j).mp hj).1,
        fun hhalf => ?_⟩
      obtain ⟨i, hi⟩ := h.undecided (hstate ▸ hhalf)
      exact ⟨i, (htrials i).mpr ⟨hi, fun hid => hlive (hid ▸ hi) (hstate ▸ hhalf)⟩⟩
    · intro hone htrial hhalf
      obtain ⟨i, hi⟩ := hone.undecided (hstate.trans hhalf)
      obtain ⟨hold, hne⟩ := (htrials i).mp hi
      exact hne (h.once i id hold htrial)

/-! ### Runs -/

/-- A call that enters leaves the breaker as it is, or as its admission does. -/
theorem completeEnter_breaker (facade : LlmFacade) (breaker : CircuitBreaker)
    (ctx : ActivationContext) (args : CompleteArgs) :
    (facade.completeEnter py breaker ctx args).1 = breaker ∨
      breaker.beforeCall ctx.nowMs =
        .admitted (facade.completeEnter py breaker ctx args).1 := by
  cases hbudget : ctx.budget.bind TokenBudget.check with
  | some e => exact .inl (by rw [LlmFacade.completeEnter_refused hbudget])
  | none =>
    cases hkey : computeCacheKey py args.effectiveRequest args.entityKey args.seq with
    | error e => exact .inl (by rw [LlmFacade.completeEnter_unkeyed hbudget hkey])
    | ok cacheKey =>
      cases hserved : ctx.replayCache.served cacheKey with
      | some stored => exact .inl (by rw [LlmFacade.completeEnter_hit hbudget hkey hserved])
      | none =>
        obtain ⟨ctx', -, henter⟩ :=
          LlmFacade.completeEnter_miss hbudget hkey hserved facade breaker
        rw [henter]
        cases breaker.beforeCall ctx.nowMs with
        | circuitOpen | assertionFailed => exact .inl rfl
        | admitted b =>
          dsimp only
          split_ifs <;> exact .inr rfl

theorem beforeCall_dated {b b' : CircuitBreaker} {nowMs : Int} (hdated : b.Dated)
    (h : b.beforeCall nowMs = .admitted b') : b'.Dated := by
  unfold CircuitBreaker.beforeCall at h
  split_ifs at h
  · split at h
    · cases h
    · split_ifs at h
      cases h
      nofun
  · cases h
    exact hdated

/-- An open breaker knows since when, whatever happens. -/
theorem perform_dated (hdated : s.breaker.Dated)
    (hstep : perform py facades s act = some (s', es)) : s'.breaker.Dated := by
  cases act with
  | callModel a request =>
    have heq : (callModel py facades s a request).1 = s' :=
      congrArg Prod.fst (Option.some.inj hstep)
    rw [← heq]
    unfold callModel
    dsimp only
    split <;> exact hdated
  | complete a args =>
    have heq : (complete py facades s a args).1 = s' := congrArg Prod.fst (Option.some.inj hstep)
    have hentered : ((facades a).completeEnter py s.breaker (s.contexts a) args).1.Dated := by
      rcases completeEnter_breaker (facades a) s.breaker (s.contexts a) args with hsame | hadmitted
      · rw [hsame]
        exact hdated
      · exact beforeCall_dated hdated hadmitted
    rw [← heq]
    unfold complete
    dsimp only
    split <;> exact hentered
  | respond id outcome elapsedNs =>
    have hrespond : respond py facades s id outcome elapsedNs = some (s', es) := hstep
    unfold respond at hrespond
    split at hrespond
    · cases outcome <;> cases hrespond <;> exact hdated
    · cases outcome with
      | ok response =>
        cases hrespond
        nofun
      | providerError e =>
        dsimp only at hrespond
        split_ifs at hrespond <;> cases hrespond
        · exact CircuitBreaker.recordFailure_dated hdated
        · exact hdated
      | raised e =>
        cases hrespond
        exact hdated
    · cases hrespond
  | wake id exn =>
    have hwake : s.wake id exn = some (s', es) := hstep
    unfold wake at hwake
    split at hwake
    · cases exn <;> cases hwake <;> exact hdated
    · cases hwake

/-- A worker without calls, whose breaker has seen none. -/
structure Idle (s : ModelWorker) : Prop where
  calls : ∀ i, s.calls i = none
  closed : s.breaker.state = .closed

theorem Idle.dated (h : s.Idle) : s.breaker.Dated := by
  intro hopened
  rw [h.closed] at hopened
  cases hopened

theorem Idle.oneProbe (h : s.Idle) : s.OneProbe :=
  ⟨fun i _ hi => absurd hi (trial_none (h.calls i)),
    fun hhalf => (by rw [h.closed] at hhalf; cases hhalf)⟩

/-- **The half-open breaker admits one probe exactly when trials are not joined or abandoned.** For
any calls on any number of activations of a worker, in any interleaving, with any clocks: the runs
all of whose steps leave at most one call on trial, and one when the breaker is half open, and in
which a call that comes to an open breaker before its cooldown has passed raises without reaching
the provider, are the runs in which no call that the breaker would put on trial comes while one is
in flight, or has no attempt when none is, and none that is on trial ends by an exception other than
`ProviderError`, or is cancelled, before the breaker has left its half-open state. -/
theorem run_oneProbe_iff (py : PyLib) (facades : ℕ → LlmFacade) {s s' : ModelWorker} (hs : s.Idle)
    {acts : List ModelAct} {es : List CallEvent} :
    ((machine py facades).guarded (KeepsOne py facades)).Run s acts es s' ↔
      ((machine py facades).restrict fun s act s' es => FailsFast py s act es ∧ s'.OneProbe).Run s
        acts es s' := by
  refine Machine.Run.guarded_iff_restrict
    (I := fun s => s.Numbered ∧ s.breaker.Dated ∧ s.OneProbe)
    ⟨fun i _ => hs.calls i, hs.dated, hs.oneProbe⟩ ?_ ?_
  · intro t act u es hI hP hstep
    exact ⟨hI.1.step hstep, perform_dated hI.2.1 hstep, hP.2⟩
  · intro t act u es hI hstep
    obtain ⟨hmove, hfast⟩ := perform_breakerMove hI.1 hI.2.1 hstep
    rw [hmove.oneProbe_iff hI.1 hI.2.2]
    exact ⟨fun hone => ⟨hfast, hone⟩, fun hP => hP.2⟩

/-- A call may be put on trial when no call is in flight. -/
theorem keepsOne_of_none {args : CompleteArgs} (hattempts : (facades a).maxAttempts ≠ 0)
    (hnone : ∀ i, s.calls i = none) : KeepsOne py facades s (.complete a args) := by
  intro _ _
  rw [if_neg hattempts]
  exact fun i => trial_none (hnone i)

/-- A facade with one attempt. -/
def probedFacade : LlmFacade where
  cfg := { decode := some fun _ => .ok {} }
  decode _ := .ok { usage := {}, text := "" }
  maxAttempts := 1
  decode_eq := rfl

/-- An activation that began at this time. -/
def probedContext (nowMs : Int) : ActivationContext :=
  (ActivationContext.new (.ofTable []) probedFacade.cfg
    { entityKey := [107], seq := 1, nowMs := nowMs, memoryBlob := none,
      cacheBlob := none }).toOption.get rfl

/-- One activation at time `0`, and others when the cooldown has passed. -/
def probedWorker : ModelWorker where
  breaker := { endpoint := "anthropic", threshold := 1, cooldownMs := 10 }
  contexts a := probedContext (if a = 0 then 0 else 10)

/-- The arguments of the calls. -/
def probedArgs : CompleteArgs where
  request := { modelId := "m", canonical := .ok ("[]", "null", "null") }
  entityKey := [107]
  seq := 1
  stepIndex := 0

/-- The error of the provider, which opens the breaker, and the next call. -/
def openedCalls : List ModelAct :=
  [.complete 0 probedArgs, .respond 0 (.providerError { typeName := "ProviderError", repr := "" }),
    .complete 1 probedArgs]

theorem probedWorker_idle : probedWorker.Idle := ⟨fun _ => rfl, rfl⟩

/-- The breaker opens, and closes again after the trial. -/
theorem probedWorker_recovers : ∃ es s,
    ((machine (.ofTable []) fun _ => probedFacade).restrict fun s act s' es =>
        FailsFast (.ofTable []) s act es ∧ s'.OneProbe).Run probedWorker
      (openedCalls ++ [.respond 1 (.ok [1])]) es s ∧ s.breaker.state = .closed := by
  let M : Machine ModelWorker ModelAct CallEvent :=
    (machine (.ofTable []) fun _ => probedFacade).guarded
      (KeepsOne (.ofTable []) fun _ => probedFacade)
  have hclosed : KeepsOne (.ofTable []) (fun _ => probedFacade) probedWorker
      (.complete 0 probedArgs) := by
    rintro - (hhalf | ⟨hopened, -⟩)
    · cases hhalf
    · cases hopened
  have hcalled : M.Run probedWorker [.complete 0 probedArgs] _ _ := .single ⟨hclosed, rfl⟩
  have hopened : M.Run probedWorker [.complete 0 probedArgs, .respond 0 (.providerError
      { typeName := "ProviderError", repr := "" })] _ _ := hcalled.tail ⟨trivial, rfl⟩
  have htrial : M.Run probedWorker openedCalls _ _ :=
    hopened.tail ⟨keepsOne_of_none Nat.one_ne_zero fun | 0 => rfl | _ + 1 => rfl, rfl⟩
  have hrun : M.Run probedWorker (openedCalls ++ [.respond 1 (.ok [1])]) _ _ :=
    htrial.tail ⟨trivial, rfl⟩
  exact ⟨_, _, (run_oneProbe_iff (.ofTable []) _ probedWorker_idle).mp hrun, rfl⟩

/-- A second call is put on trial beside the first one; and a call on trial that is cancelled leaves
the breaker half open for nobody. -/
theorem second_trial :
    (∃ es s, (machine (.ofTable []) fun _ => probedFacade).Run probedWorker
        (openedCalls ++ [.complete 2 probedArgs]) es s ∧ ¬ s.OneProbe ∧
        .reached 1 ∈ es ∧ .reached 2 ∈ es) ∧
      ∃ es s, (machine (.ofTable []) fun _ => probedFacade).Run probedWorker
        (openedCalls ++ [.respond 1 (.raised { cls := .cancelled, typeName := "CancelledError",
                                               repr := "CancelledError()" })]) es s ∧
        s.breaker.state = .halfOpen ∧ ∀ i, ¬ s.Trial i := by
  constructor
  · refine ⟨_, _, .of_exec (fun _ _ => id) rfl, fun hone => ?_, ?_, ?_⟩
    · exact absurd (hone.once 1 2 ⟨_, rfl, rfl⟩ ⟨_, rfl, rfl⟩) (by decide)
    · exact .tail _ (.tail _ (.head _))
    · exact .tail _ (.tail _ (.tail _ (.head _)))
  · refine ⟨_, _, .of_exec (fun _ _ => id) rfl, rfl, fun i => trial_none ?_⟩
    match i with
    | 0 => rfl
    | 1 => rfl
    | i + 2 => rfl

end ModelWorker

end BeamAgents
