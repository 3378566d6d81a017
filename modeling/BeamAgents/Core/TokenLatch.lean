import BeamAgents.Core.ModelCalls
import Mathlib.Tactic.SplitIfs

/-!
# The token budget is a latch

The calls of an activation share its budget, whatever surface they are made on. A call checks the
budget when it enters, and is charged when its response has been decoded, with no await between the
two and the decision whether to return it. So the order in which responses are decoded decides: the
budget is charged with each of them up to the one that crosses the limit, and from then on no call
of the activation returns a response, one in flight as little as one that the cache could serve.

## Main definitions

* `chargedTotals`: the totals that a meter counts.
* `ModelWorker.Latched`.

## Main results

* `ModelWorker.run_latched`.
-/

namespace BeamAgents

open Transition

/-! ### The meter -/

/-- The totals up to the one that crosses the limit, or all. -/
def chargedTotals (limit : Int) : Int → List Int → List Int
  | _, [] => []
  | consumed, t :: ts =>
    if limit < consumed + t then [t] else t :: chargedTotals limit (consumed + t) ts

/-- The budget after a list of charges. -/
def TokenBudget.chargeAll (b : TokenBudget) (totals : List Int) : TokenBudget :=
  totals.foldl (fun b t => (b.charge t).1) b

namespace TokenBudget

variable {b : TokenBudget} {totals : List Int} {t : Int}

@[simp] theorem chargeAll_append (b : TokenBudget) (ts us : List Int) :
    b.chargeAll (ts ++ us) = (b.chargeAll ts).chargeAll us := List.foldl_append

/-- A budget that has tripped is charged no more. -/
theorem charge_exhausted (h : b.exhausted = true) : (b.charge t).1 = b := by
  simp only [charge, check, if_pos h]

theorem charge_crossing (h : b.exhausted = false) (hlt : b.limit < b.consumed + t) :
    (b.charge t).1 = { b with consumed := b.consumed + t, exhausted := true } := by
  simp [charge, check, h, hlt]

theorem charge_within (h : b.exhausted = false) (hle : ¬ b.limit < b.consumed + t) :
    (b.charge t).1 = { b with consumed := b.consumed + t } := by
  simp [charge, check, h, hle]

/-- A charge that does not raise leaves the budget as it was, or with more consumed, untripped. -/
theorem charge_ok (h : (b.charge t).2 = none) : (b.charge t).1.exhausted = false := by
  cases hexhausted : b.exhausted with
  | true => simp [charge, check, hexhausted] at h
  | false =>
    by_cases hlt : b.limit < b.consumed + t
    · simp [charge, check, hexhausted, hlt] at h
    · rw [charge_within hexhausted hlt]
      exact hexhausted

theorem chargeAll_exhausted (h : b.exhausted = true) : b.chargeAll totals = b := by
  induction totals with
  | nil => rfl
  | cons t ts ih =>
    rw [chargeAll, List.foldl_cons, charge_exhausted h]
    exact ih

/-- **What a meter counts.** -/
theorem chargeAll_spec (totals : List Int) (h : b.exhausted = false) (hle : b.consumed ≤ b.limit) :
    (b.chargeAll totals).consumed = b.consumed + (chargedTotals b.limit b.consumed totals).sum ∧
      ((b.chargeAll totals).exhausted = true ↔ b.limit < (b.chargeAll totals).consumed) ∧
      ((b.chargeAll totals).exhausted = true → ∃ pre t,
        chargedTotals b.limit b.consumed totals = pre ++ [t] ∧ b.consumed + pre.sum ≤ b.limit) := by
  induction totals generalizing b with
  | nil =>
    refine ⟨by simp [chargeAll, chargedTotals], ?_, by simp [chargeAll, h]⟩
    simp only [chargeAll, List.foldl_nil, h, Bool.false_eq_true, false_iff, Int.not_lt]
    exact hle
  | cons t ts ih =>
    by_cases hlt : b.limit < b.consumed + t
    · have hcharged : b.chargeAll (t :: ts) =
          { b with consumed := b.consumed + t, exhausted := true } := by
        rw [chargeAll, List.foldl_cons, charge_crossing h hlt]
        exact chargeAll_exhausted rfl
      rw [hcharged, chargedTotals, if_pos hlt]
      exact ⟨by simp, by simpa using hlt, fun _ => ⟨[], t, rfl, by simpa using hle⟩⟩
    · have hcharged : b.chargeAll (t :: ts) =
          TokenBudget.chargeAll { b with consumed := b.consumed + t } ts := by
        rw [chargeAll, List.foldl_cons, charge_within h hlt]
        rfl
      obtain ⟨hconsumed, hexhausted, hcrossing⟩ :=
        ih (b := { b with consumed := b.consumed + t }) h (Int.not_lt.mp hlt)
      rw [hcharged, chargedTotals, if_neg hlt]
      refine ⟨?_, hexhausted, fun htripped => ?_⟩
      · rw [hconsumed, List.sum_cons, Int.add_assoc]
      · obtain ⟨pre, u, heq, hsum⟩ := hcrossing htripped
        refine ⟨t :: pre, u, by rw [heq]; rfl, ?_⟩
        rw [List.sum_cons, ← Int.add_assoc]
        exact hsum

end TokenBudget

/-! ### One response -/

/-- The budget after a response has been decoded. -/
def LlmFacade.chargedBudget (facade : LlmFacade) (budget : Option TokenBudget) (response : Bytes) :
    Option TokenBudget :=
  match facade.decode response with
  | .ok decoded => budget.map fun b => (b.charge decoded.usage.totalTokens).1
  | .error _ => budget

/-- An answer that comes out of the tail of a call: it is the response, which was decoded, and the
budget has not tripped. -/
def LlmFacade.Answers (facade : LlmFacade) (budget : Option TokenBudget) (response : Bytes)
    (answer : Except PyExn Bytes) : Prop :=
  ∀ r, answer = .ok r → r = response ∧ (∃ decoded, facade.decode response = .ok decoded) ∧
    ∀ b ∈ facade.chargedBudget budget response, b.exhausted = false

/-- The charge of a usage. -/
theorem ActivationContext.charge_cases (ctx : ActivationContext) (usage : TokenUsage) :
    (ctx.charge (some usage)).1.budget = ctx.budget.map (fun b => (b.charge usage.totalTokens).1) ∧
      ((ctx.charge (some usage)).2 = none → ∀ b ∈ (ctx.charge (some usage)).1.budget,
        b.exhausted = false) := by
  unfold ActivationContext.charge
  cases hbudget : ctx.budget with
  | none => exact ⟨hbudget, fun _ b hb => (by cases hbudget.symm.trans hb)⟩
  | some budget =>
    refine ⟨rfl, fun hnone b hb => ?_⟩
    cases hb
    exact TokenBudget.charge_ok hnone

/-- The contexts of a facade's activations decode as it does. -/
theorem LlmFacade.decodedUsage_eq (facade : LlmFacade) (response : Bytes) :
    ActivationContext.decodedUsage facade.cfg response =
      (facade.decode response).map fun decoded => some decoded.usage := by
  rw [ActivationContext.decodedUsage, facade.decode_eq]
  dsimp only
  cases facade.decode response <;> rfl

variable {py : PyLib} {facades : ℕ → LlmFacade}

/-- The tail of `call_model`. -/
theorem settled_charged (py : PyLib) (facade : LlmFacade) (ctx : ActivationContext) (step : ℕ)
    (cacheHit : Bool) (modelId : String) (response : Bytes) :
    (ctx.settled py facade.cfg step cacheHit modelId response).1.budget =
        facade.chargedBudget ctx.budget response ∧
      facade.Answers ctx.budget response
        (ctx.settled py facade.cfg step cacheHit modelId response).2 := by
  unfold ActivationContext.settled ActivationContext.finishModel LlmFacade.Answers
    LlmFacade.chargedBudget
  rw [facade.decodedUsage_eq]
  cases facade.decode response with
  | error e => exact ⟨rfl, fun r hr => (by cases hr)⟩
  | ok decoded =>
    obtain ⟨hbudget, hok⟩ := ActivationContext.charge_cases
      (ctx.stageLlmTrace py step cacheHit modelId (some decoded.usage)) decoded.usage
    dsimp only [Except.map]
    cases hcharge : (ctx.stageLlmTrace py step cacheHit modelId (some decoded.usage)).charge
        (some decoded.usage) with
    | mk ctx' raised =>
      rw [hcharge] at hbudget hok
      cases raised with
      | some e => exact ⟨hbudget, fun r hr => (by cases hr)⟩
      | none =>
        refine ⟨hbudget, fun r hr => ?_⟩
        cases hr
        exact ⟨rfl, ⟨decoded, rfl⟩, fun b hb => hok rfl b (hbudget.symm ▸ hb)⟩

/-- The tail of `complete`. -/
theorem finish_charged (py : PyLib) (facade : LlmFacade) (breaker : CircuitBreaker)
    (ctx : ActivationContext)
    (args : CompleteArgs) (cacheHit : Bool) (attempts : ℕ) (response : Bytes) :
    (facade.finish py breaker ctx args cacheHit attempts response).1.budget =
        facade.chargedBudget ctx.budget response ∧
      facade.Answers ctx.budget response
        (responseOf (facade.finish py breaker ctx args cacheHit attempts response).2) := by
  unfold LlmFacade.finish LlmFacade.Answers LlmFacade.chargedBudget
  cases facade.decode response with
  | error e => exact ⟨rfl, fun r hr => (by cases hr)⟩
  | ok decoded =>
    dsimp only
    have hctx : (if cacheHit then ctx else ctx.accumulateUsage decoded.usage).budget =
        ctx.budget := by
      split_ifs <;> rfl
    generalize (if cacheHit then ctx else ctx.accumulateUsage decoded.usage) = ctx₁ at hctx ⊢
    obtain ⟨hbudget, hok⟩ := ctx₁.charge_cases decoded.usage
    rw [hctx] at hbudget
    cases hcharge : ctx₁.charge (some decoded.usage) with
    | mk ctx' raised =>
      rw [hcharge] at hbudget hok
      cases raised with
      | some e => exact ⟨hbudget, fun r hr => (by cases hr)⟩
      | none =>
        dsimp only
        split
        · exact ⟨hbudget, fun r hr => (by cases hr)⟩
        · exact ⟨hbudget, fun r hr => (by cases hr)⟩
        · refine ⟨hbudget, fun r hr => ?_⟩
          cases hr
          exact ⟨rfl, ⟨decoded, rfl⟩, fun b hb => hok rfl b (hbudget.symm ▸ hb)⟩
        · refine ⟨hbudget, fun r hr => ?_⟩
          cases hr
          exact ⟨rfl, ⟨decoded, rfl⟩, fun b hb => hok rfl b (hbudget.symm ▸ hb)⟩

/-! ### Steps -/

/-- The event says nothing about a response. -/
def CallEvent.quiet : CallEvent → Bool
  | .reached _ | .raised .. => true
  | .decoded .. | .returned .. => false

namespace ModelWorker

/-- No number is given twice, and a call that has ended stays so. -/
structure Follows (s s' : ModelWorker) : Prop where
  next : s.next ≤ s'.next
  ended : ∀ i < s.next, s.calls i = none → s'.calls i = none

variable (facades) in
/-- **What a step does to the budgets**: nothing, or a call of one activation is charged for its
response, and ends. -/
inductive Charges (s : ModelWorker) : ModelWorker → List CallEvent → Prop
  | spares {s' es} (hfollows : s.Follows s') (hquiet : ∀ e ∈ es, e.quiet = true)
      (hbudget : ∀ a, (s'.contexts a).budget = (s.contexts a).budget) : Charges s s' es
  | charges {s' id a response answer} (hfollows : s.Follows s')
      (hnew : s.next ≤ id ∨ s.calls id ≠ none)
      (hlt : id < s'.next) (hended : s'.calls id = none)
      (hanswer : (facades a).Answers (s.contexts a).budget response answer)
      (hbudget : (s'.contexts a).budget =
        (facades a).chargedBudget (s.contexts a).budget response)
      (hothers : ∀ a' ≠ a, (s'.contexts a').budget = (s.contexts a').budget) :
      Charges s s' ((facades a).decodedEvents id a response ++ answerEvents id a answer)

variable {s s' : ModelWorker} {act : ModelAct} {es : List CallEvent} {a id : ℕ}

theorem contexts_self (s : ModelWorker) (a : ℕ) (ctx : ActivationContext) :
    (s.withContext a ctx).contexts a = ctx := Function.update_self ..

theorem contexts_of_ne (s : ModelWorker) {a a' : ℕ} (ctx : ActivationContext) (h : a' ≠ a) :
    (s.withContext a ctx).contexts a' = s.contexts a' := Function.update_of_ne h ..

/-- An activation whose budget has not changed. -/
theorem budget_withContext {ctx : ActivationContext} (h : ctx.budget = (s.contexts a).budget)
    (a' : ℕ) : ((s.withContext a ctx).contexts a').budget = (s.contexts a').budget := by
  by_cases ha : a' = a
  · rw [ha, contexts_self, h]
  · rw [contexts_of_ne s ctx ha]

/-- A call that ends as it enters. -/
theorem follows_next (s : ModelWorker) (a : ℕ) (ctx : ActivationContext)
    (breaker : CircuitBreaker) :
    s.Follows { s.withContext a ctx with breaker := breaker, next := s.next + 1 } :=
  ⟨Nat.le_succ _, fun _ _ h => h⟩

/-- A call that begins. -/
theorem follows_begun (s t : ModelWorker) (call : PendingCall) (hcalls : t.calls = s.calls)
    (hnext : t.next = s.next + 1) : s.Follows (t.withCall s.next (some call)) := by
  refine ⟨hnext ▸ Nat.le_succ _, fun i hi hnone => ?_⟩
  have hne : i ≠ s.next := Nat.ne_of_lt hi
  exact (Function.update_of_ne hne ..).trans (hcalls ▸ hnone)

/-- A call that goes on, or ends. -/
theorem follows_changed {t : ModelWorker} {call : PendingCall} {call' : Option PendingCall}
    (hcall : s.calls id = some call) (hcalls : t.calls = (s.withCall id call').calls)
    (hnext : t.next = s.next) : s.Follows t := by
  refine ⟨Nat.le_of_eq hnext.symm, fun i _ hnone => ?_⟩
  have hne : i ≠ id := fun hi => by
    rw [hi, hcall] at hnone
    cases hnone
  rw [hcalls]
  exact (Function.update_of_ne hne ..).trans hnone

theorem quiet_raised {e : PyExn} : ∀ event ∈ answerEvents id a (.error e), event.quiet = true := by
  intro event hmem
  cases List.mem_singleton.mp hmem
  rfl

/-- A `call_model` is made. -/
theorem callModel_charges (hs : s.Numbered) (request : LlmRequest) :
    Charges facades s (callModel py facades s a request).1
      (callModel py facades s a request).2 := by
  have hfree : s.calls s.next = none := hs _ (Nat.le_refl _)
  unfold callModel
  dsimp only
  cases hcheck : (s.contexts a).budget.bind TokenBudget.check with
  | some e =>
    rw [ActivationContext.modelEnter_refused hcheck, ActivationContext.lookupKey_refused hcheck]
    exact .spares (follows_next s a _ s.breaker) quiet_raised (budget_withContext rfl)
  | none =>
    cases hkey : computeCacheKey py request (s.contexts a).entityKey (s.contexts a).seq with
    | error e =>
      rw [ActivationContext.modelEnter_unkeyed hcheck hkey,
        ActivationContext.lookupKey_unkeyed hcheck hkey]
      exact .spares (follows_next s a _ s.breaker) quiet_raised (budget_withContext rfl)
    | ok cacheKey =>
      rw [ActivationContext.lookupKey_keyed hcheck hkey]
      cases hserved : (s.contexts a).replayCache.served cacheKey with
      | none =>
        rw [ActivationContext.modelEnter_miss hcheck hkey hserved]
        let t : ModelWorker :=
          { s.withContext a ((s.contexts a).looked cacheKey) with next := s.next + 1 }
        let call : ModelCall := ⟨(s.contexts a).stepIndex, cacheKey, request.modelId⟩
        have hfollows : s.Follows (t.withCall s.next (some (.model a call))) :=
          follows_begun s t _ rfl rfl
        exact .spares hfollows (by simp [CallEvent.quiet]) (budget_withContext rfl)
      | some stored =>
        obtain ⟨hbudget, hanswer⟩ := settled_charged py (facades a)
          ((s.contexts a).looked cacheKey) (s.contexts a).stepIndex true request.modelId
          stored.response
        rw [ActivationContext.modelEnter_hit hcheck hkey hserved, Option.bind_some, hserved]
        dsimp only
        generalize ((s.contexts a).looked cacheKey).settled py (facades a).cfg
          (s.contexts a).stepIndex true request.modelId stored.response = r at hbudget hanswer ⊢
        obtain ⟨ctx, answer⟩ := r
        have hcharges : Charges facades s { s.withContext a ctx with next := s.next + 1 }
            ((facades a).decodedEvents s.next a stored.response ++
              answerEvents s.next a answer) := by
          refine .charges (follows_next s a ctx s.breaker) (.inl (Nat.le_refl _))
            (Nat.lt_succ_self _) hfree hanswer ?_ fun a' ha => ?_
          · exact (congrArg _ (contexts_self s a ctx)).trans hbudget
          · exact congrArg _ (contexts_of_ne s ctx ha)
        cases answer with
        | error e => exact hcharges
        | ok response => exact hcharges

/-- A `complete` is made. -/
theorem complete_charges (hs : s.Numbered) (args : CompleteArgs) :
    Charges facades s (complete py facades s a args).1 (complete py facades s a args).2 := by
  have hfree : s.calls s.next = none := hs _ (Nat.le_refl _)
  unfold complete
  dsimp only
  cases hcheck : (s.contexts a).budget.bind TokenBudget.check with
  | some e =>
    rw [LlmFacade.completeEnter_refused hcheck]
    exact .spares (follows_next s a _ _) quiet_raised (budget_withContext rfl)
  | none =>
    cases hkey : computeCacheKey py args.effectiveRequest args.entityKey args.seq with
    | error e =>
      rw [LlmFacade.completeEnter_unkeyed hcheck hkey]
      exact .spares (follows_next s a _ _) quiet_raised (budget_withContext rfl)
    | ok cacheKey =>
      cases hserved : (s.contexts a).replayCache.served cacheKey with
      | none =>
        obtain ⟨ctx, hbudget, henter⟩ :=
          LlmFacade.completeEnter_miss hcheck hkey hserved (facades a) s.breaker
        rw [henter]
        cases s.breaker.beforeCall (s.contexts a).nowMs with
        | circuitOpen | assertionFailed =>
          exact .spares (follows_next s a _ _) quiet_raised (budget_withContext hbudget)
        | admitted breaker =>
          dsimp only
          split_ifs
          · exact .spares (follows_next s a _ _) quiet_raised (budget_withContext hbudget)
          · let t : ModelWorker :=
              { s.withContext a ctx with breaker := breaker, next := s.next + 1 }
            let call : FacadeCall := { args, cacheKey, trial := breaker.state = .halfOpen }
            have hfollows : s.Follows (t.withCall s.next (some (.facade a call false))) :=
              follows_begun s t _ rfl rfl
            exact .spares hfollows (by simp [CallEvent.quiet]) (budget_withContext hbudget)
      | some stored =>
        rw [LlmFacade.completeEnter_hit hcheck hkey hserved]
        obtain ⟨hbudget, hanswer⟩ := finish_charged py (facades a) s.breaker
          { s.contexts a with replayCache := ((s.contexts a).replayCache.get cacheKey).1 } args true
          0 stored.response
        dsimp only
        generalize LlmFacade.finish py (facades a) s.breaker _ args true 0 stored.response = r
          at hbudget hanswer ⊢
        refine .charges (follows_next s a r.1 s.breaker) (.inl (Nat.le_refl _))
          (Nat.lt_succ_self _) hfree hanswer ?_ fun a' ha => ?_
        · exact (congrArg _ (contexts_self s a r.1)).trans hbudget
        · exact congrArg _ (contexts_of_ne s r.1 ha)

/-- A call whose response has come is charged, and ends. -/
theorem ended_charges (hs : s.Numbered) {call : PendingCall} (hcall : s.calls id = some call)
    {ctx : ActivationContext} (breaker : CircuitBreaker) {response : Bytes}
    {answer : Except PyExn Bytes}
    (hbudget : ctx.budget = (facades a).chargedBudget (s.contexts a).budget response)
    (hanswer : (facades a).Answers (s.contexts a).budget response answer) :
    Charges facades s { (s.withContext a ctx).withCall id none with breaker := breaker }
      ((facades a).decodedEvents id a response ++ answerEvents id a answer) := by
  have hfollows : s.Follows { (s.withContext a ctx).withCall id none with breaker := breaker } :=
    follows_changed hcall rfl rfl
  refine .charges hfollows (.inr (by simp [hcall])) (hs.lt hcall) (Function.update_self ..) hanswer
    ?_ fun a' ha => ?_
  · exact (congrArg _ (contexts_self s a ctx)).trans hbudget
  · exact congrArg _ (contexts_of_ne s ctx ha)

/-- The provider answers a call. -/
theorem respond_charges (hs : s.Numbered) {outcome : ProviderEnd} {elapsedNs : Int}
    (h : respond py facades s id outcome elapsedNs = some (s', es)) : Charges facades s s' es := by
  unfold respond at h
  split at h
  · rename_i a call hcall
    cases outcome with
    | ok response =>
      dsimp only at h
      rw [ActivationContext.modelLeave_eq] at h
      cases h
      obtain ⟨hbudget, hanswer⟩ := settled_charged py (facades a)
        ((s.contexts a).stored py call.cacheKey response elapsedNs) call.step false call.modelId
        response
      exact ended_charges hs hcall s.breaker hbudget hanswer
    | providerError e | raised e =>
      cases h
      exact .spares (follows_changed hcall rfl rfl) quiet_raised fun _ => rfl
  · rename_i a call hcall
    cases outcome with
    | ok response =>
      cases h
      obtain ⟨hbudget, hanswer⟩ := finish_charged py (facades a) s.breaker.recordSuccess
        { s.contexts a with
          replayCache := (s.contexts a).replayCache.put py call.cacheKey response }
        call.args false call.attempt response
      exact ended_charges hs hcall _ hbudget hanswer
    | providerError e =>
      dsimp only at h
      split_ifs at h
      · cases h
        exact .spares (follows_changed hcall rfl rfl) quiet_raised (budget_withContext rfl)
      · cases h
        exact .spares (follows_changed hcall rfl rfl) (by simp) fun _ => rfl
    | raised e =>
      cases h
      exact .spares (follows_changed hcall rfl rfl) quiet_raised fun _ => rfl
  · cases h

theorem wake_charges {exn : Option PyExn} (h : s.wake id exn = some (s', es)) :
    Charges facades s s' es := by
  unfold wake at h
  split at h
  · rename_i a call hcall
    cases exn with
    | none =>
      cases h
      exact .spares (follows_changed hcall rfl rfl) (by simp [CallEvent.quiet]) fun _ => rfl
    | some e =>
      cases h
      exact .spares (follows_changed hcall rfl rfl) quiet_raised fun _ => rfl
  · cases h

theorem perform_charges (hs : s.Numbered) (h : perform py facades s act = some (s', es)) :
    Charges facades s s' es := by
  cases act with
  | callModel a request =>
    have heq : callModel py facades s a request = (s', es) := Option.some.inj h
    have hcharges : Charges facades s (callModel py facades s a request).1
        (callModel py facades s a request).2 := callModel_charges hs request
    rw [heq] at hcharges
    exact hcharges
  | complete a args =>
    have heq : complete py facades s a args = (s', es) := Option.some.inj h
    have hcharges : Charges facades s (complete py facades s a args).1
        (complete py facades s a args).2 := complete_charges hs args
    rw [heq] at hcharges
    exact hcharges
  | respond id outcome elapsedNs => exact respond_charges hs h
  | wake id exn => exact wake_charges h

/-! ### Runs -/

/-- The totals that were decoded for an activation, in order. -/
def totalsOf (a : ℕ) (es : List CallEvent) : List Int :=
  es.filterMap fun
    | .decoded _ a' totalTokens => if a' = a then some totalTokens else none
    | _ => none

/-- The calls whose response was decoded, in order. -/
def decodedIds (es : List CallEvent) : List ℕ :=
  es.filterMap fun
    | .decoded id _ _ => some id
    | _ => none

@[simp] theorem totalsOf_append (a : ℕ) (es fs : List CallEvent) :
    totalsOf a (es ++ fs) = totalsOf a es ++ totalsOf a fs := List.filterMap_append

@[simp] theorem decodedIds_append (es fs : List CallEvent) :
    decodedIds (es ++ fs) = decodedIds es ++ decodedIds fs := List.filterMap_append

theorem totalsOf_quiet (hquiet : ∀ e ∈ es, e.quiet = true) : totalsOf a es = [] := by
  refine List.filterMap_eq_nil_iff.mpr fun e he => ?_
  have he := hquiet e he
  cases e <;> first | rfl | cases he

theorem decodedIds_quiet (hquiet : ∀ e ∈ es, e.quiet = true) : decodedIds es = [] := by
  refine List.filterMap_eq_nil_iff.mpr fun e he => ?_
  have he := hquiet e he
  cases e <;> first | rfl | cases he

@[simp] theorem totalsOf_answer (answer : Except PyExn Bytes) (a' : ℕ) :
    totalsOf a' (answerEvents id a answer) = [] := by
  cases answer <;> rfl

@[simp] theorem decodedIds_answer (answer : Except PyExn Bytes) :
    decodedIds (answerEvents id a answer) = [] := by
  cases answer <;> rfl

variable (facades) in
/-- **The budget of an activation is a latch**, after the events of a run: it has been charged with
the totals that were decoded up to the one that crossed the limit, every call once, those that the
cache answered like the others; it has tripped exactly when they cross the limit, by the last of
them; and a call has returned a response only while it had not, and when the response was decoded
for it. -/
structure Latched (limit : ℕ) (a : ℕ) (es : List CallEvent) (budget : TokenBudget) : Prop where
  consumed : budget.consumed = (chargedTotals limit 0 (totalsOf a es)).sum
  exhausted : budget.exhausted = true ↔ limit < budget.consumed
  crossing : budget.exhausted = true → ∃ pre t,
    chargedTotals limit 0 (totalsOf a es) = pre ++ [t] ∧ budget.consumed ≤ limit + t
  once : (decodedIds es).Nodup
  silent : ∀ pre id response post, es = pre ++ .returned id a response :: post →
    (chargedTotals limit 0 (totalsOf a pre)).sum ≤ limit
  paid : ∀ id response, .returned id a response ∈ es → ∃ decoded,
    (facades a).decode response = .ok decoded ∧ .decoded id a decoded.usage.totalTokens ∈ es

variable (facades) in
/-- What a run keeps: the budgets are those that the decoded responses leave, and every response
that was returned was decoded before, by a call that has ended, and did not trip the budget. -/
structure Tracks (s₀ : ModelWorker) (es : List CallEvent) (s : ModelWorker) : Prop where
  numbered : s.Numbered
  budget : ∀ a, (s.contexts a).budget =
    (s₀.contexts a).budget.map fun b => b.chargeAll (totalsOf a es)
  ended : ∀ id ∈ decodedIds es, id < s.next ∧ s.calls id = none
  once : (decodedIds es).Nodup
  silent : ∀ pre id a response post, es = pre ++ .returned id a response :: post →
    ∀ b ∈ (s₀.contexts a).budget, (b.chargeAll (totalsOf a pre)).exhausted = false
  paid : ∀ id a response, .returned id a response ∈ es → ∃ decoded,
    (facades a).decode response = .ok decoded ∧ .decoded id a decoded.usage.totalTokens ∈ es

theorem Tracks.start (hs : s.Numbered) : Tracks facades s [] s := by
  refine ⟨hs, fun a => ?_, by simp [decodedIds], List.nodup_nil, by simp, by simp⟩
  cases (s.contexts a).budget <;> rfl

/-- Where an event of a longer history stands. -/
theorem split_append {es fs pre post : List CallEvent} {e : CallEvent}
    (h : es ++ fs = pre ++ e :: post) :
    (∃ post', es = pre ++ e :: post') ∨ ∃ pre', pre = es ++ pre' ∧ fs = pre' ++ e :: post := by
  rcases List.append_eq_append_iff.mp h with ⟨pre', hpre, hfs⟩ | ⟨post', hes, hpost⟩
  · exact .inr ⟨pre', hpre, hfs⟩
  · cases post' with
    | nil => exact .inr ⟨[], by simpa using hes.symm, by simpa using hpost.symm⟩
    | cons e' post' =>
      rw [List.cons_append, List.cons.injEq] at hpost
      obtain ⟨rfl, rfl⟩ := hpost
      exact .inl ⟨post', hes⟩

/-- The charge of a response is that of the total that is decoded. -/
theorem chargedBudget_eq (facade : LlmFacade) (budget : Option TokenBudget) (id a : ℕ)
    (response : Bytes) : facade.chargedBudget budget response =
      budget.map fun b => b.chargeAll (totalsOf a (facade.decodedEvents id a response)) := by
  unfold LlmFacade.chargedBudget LlmFacade.decodedEvents
  cases facade.decode response with
  | error e => cases budget <;> rfl
  | ok decoded => simp [totalsOf, TokenBudget.chargeAll]

theorem totalsOf_decoded_of_ne (facade : LlmFacade) {a a' : ℕ} (h : a' ≠ a) (id : ℕ)
    (response : Bytes) : totalsOf a' (facade.decodedEvents id a response) = [] := by
  unfold LlmFacade.decodedEvents
  cases facade.decode response with
  | error e => rfl
  | ok decoded => simp [totalsOf, h.symm]

theorem decodedIds_decoded (facade : LlmFacade) (id a : ℕ) (response : Bytes) :
    ∀ i ∈ decodedIds (facade.decodedEvents id a response), i = id := by
  unfold LlmFacade.decodedEvents
  cases facade.decode response <;> simp [decodedIds]

theorem decodedIds_nodup (facade : LlmFacade) (id a : ℕ) (response : Bytes) :
    (decodedIds (facade.decodedEvents id a response)).Nodup := by
  unfold LlmFacade.decodedEvents
  cases facade.decode response <;> simp [decodedIds]

/-- A response that a call returns is its own, and was decoded right before. -/
theorem returned_split {facade : LlmFacade} {budget : Option TokenBudget} {response r : Bytes}
    {answer : Except PyExn Bytes} (hanswer : facade.Answers budget response answer) {a' i : ℕ}
    {pre post : List CallEvent}
    (h : facade.decodedEvents id a response ++ answerEvents id a answer =
      pre ++ .returned i a' r :: post) :
    i = id ∧ a' = a ∧ answer = .ok r ∧ pre = facade.decodedEvents id a response := by
  cases answer with
  | error e =>
    have hmem :
        .returned i a' r ∈ facade.decodedEvents id a response ++ answerEvents id a (.error e) :=
      h ▸ List.mem_append_right _ List.mem_cons_self
    unfold LlmFacade.decodedEvents answerEvents at hmem
    cases hdecode : facade.decode response <;> simp [hdecode] at hmem
  | ok r' =>
    obtain ⟨-, ⟨decoded, hdecode⟩, -⟩ := hanswer r' rfl
    simp only [LlmFacade.decodedEvents, hdecode, answerEvents, List.cons_append,
      List.nil_append] at h ⊢
    match pre with
    | [] => simp at h
    | [e] =>
      simp only [List.cons_append, List.nil_append, List.cons.injEq] at h
      obtain ⟨rfl, hreturned, -⟩ := h
      cases hreturned
      exact ⟨rfl, rfl, rfl, rfl⟩
    | e :: e' :: pre => simp at h

/-- A step keeps track. -/
theorem Tracks.step {s₀ : ModelWorker} {fs : List CallEvent} (h : Tracks facades s₀ es s)
    (hstep : perform py facades s act = some (s', fs)) : Tracks facades s₀ (es ++ fs) s' := by
  have hnumbered : s'.Numbered := h.numbered.step hstep
  cases perform_charges h.numbered hstep with
  | spares hfollows hquiet hbudget =>
    have hloud {i a : ℕ} {r : Bytes} : .returned i a r ∉ fs := fun hmem => by
      cases hquiet _ hmem
    refine ⟨hnumbered, fun a => ?_, ?_, ?_, fun pre i a r post heq => ?_, fun i a r hmem => ?_⟩
    · rw [hbudget, h.budget, totalsOf_append, totalsOf_quiet hquiet, List.append_nil]
    · rw [decodedIds_append, decodedIds_quiet hquiet, List.append_nil]
      intro i hi
      obtain ⟨hlt, hnone⟩ := h.ended i hi
      exact ⟨Nat.lt_of_lt_of_le hlt hfollows.next, hfollows.ended i hlt hnone⟩
    · rw [decodedIds_append, decodedIds_quiet hquiet, List.append_nil]
      exact h.once
    · rcases split_append heq with ⟨post', hes⟩ | ⟨pre', -, hfs⟩
      · exact h.silent pre i a r post' hes
      · exact absurd (hfs ▸ List.mem_append_right _ List.mem_cons_self) hloud
    · obtain ⟨decoded, hdecode, hdecoded⟩ :=
        h.paid i a r ((List.mem_append.mp hmem).resolve_right hloud)
      exact ⟨decoded, hdecode, List.mem_append_left _ hdecoded⟩
  | @charges id a response answer hfollows hnew hlt hended hanswer hbudget hothers =>
    have hown : (s'.contexts a).budget = (s₀.contexts a).budget.map fun b =>
        b.chargeAll (totalsOf a (es ++ (facades a).decodedEvents id a response)) := by
      rw [hbudget, h.budget, chargedBudget_eq (facades a) _ id a response, Option.map_map]
      congr 1
      funext b
      rw [Function.comp_apply, totalsOf_append, TokenBudget.chargeAll_append]
    refine ⟨hnumbered, fun a' => ?_, fun i hi => ?_, ?_, fun pre i a' r post heq b hb => ?_,
      fun i a' r hmem => ?_⟩
    · by_cases ha : a' = a
      · rw [ha, hown]
        simp
      · rw [hothers a' ha, h.budget, totalsOf_append, totalsOf_append,
          totalsOf_decoded_of_ne (facades a) ha, totalsOf_answer, List.append_nil, List.append_nil]
    · rw [decodedIds_append, decodedIds_append, decodedIds_answer, List.append_nil] at hi
      rcases List.mem_append.mp hi with hi | hi
      · obtain ⟨hlt', hnone⟩ := h.ended i hi
        exact ⟨Nat.lt_of_lt_of_le hlt' hfollows.next, hfollows.ended i hlt' hnone⟩
      · cases decodedIds_decoded _ _ _ _ i hi
        exact ⟨hlt, hended⟩
    · rw [decodedIds_append, decodedIds_append, decodedIds_answer, List.append_nil]
      refine List.nodup_append.mpr ⟨h.once, decodedIds_nodup .., fun i hi j hj hij => ?_⟩
      cases decodedIds_decoded _ _ _ _ j hj
      obtain ⟨hlt', hnone⟩ := h.ended i hi
      subst hij
      rcases hnew with hle | hcall
      · exact Nat.not_le.mpr hlt' hle
      · exact hcall hnone
    · rcases split_append heq with ⟨post', hes⟩ | ⟨pre', rfl, hfs⟩
      · exact h.silent pre i a' r post' hes b hb
      · obtain ⟨rfl, rfl, hok, rfl⟩ := returned_split hanswer hfs
        obtain ⟨-, -, hlive⟩ := hanswer r hok
        rw [← hbudget, hown] at hlive
        exact hlive _ (Option.mem_map_of_mem _ hb)
    · rcases List.mem_append.mp hmem with hmem | hmem
      · obtain ⟨decoded, hdecode, hdecoded⟩ := h.paid i a' r hmem
        exact ⟨decoded, hdecode, List.mem_append_left _ hdecoded⟩
      · obtain ⟨pre, post, hfs⟩ := List.mem_iff_append.mp hmem
        obtain ⟨rfl, rfl, hok, -⟩ := returned_split hanswer hfs
        obtain ⟨rfl, ⟨decoded, hdecode⟩, -⟩ := hanswer r hok
        refine ⟨decoded, hdecode, ?_⟩
        simp [LlmFacade.decodedEvents, hdecode]

theorem run_tracks {s₀ : ModelWorker} {acts : List ModelAct} (hs : s₀.Numbered)
    (h : (machine py facades).Run s₀ acts es s) : Tracks facades s₀ es s :=
  h.invariant (I := fun _ es s => Tracks facades s₀ es s) (.start hs)
    fun _ hI hstep => hI.step hstep

/-- **The token budget is a latch on both surfaces.** In every run of the calls of a worker, made on
either surface, in any interleaving, answered by the cache or by the provider, with or without an
output schema: an activation that began with a limit has a budget that is a latch. -/
theorem run_latched (py : PyLib) (facades : ℕ → LlmFacade) {s₀ s : ModelWorker}
    {acts : List ModelAct} {es : List CallEvent} (hs : s₀.Numbered)
    (h : (machine py facades).Run s₀ acts es s) {a limit : ℕ}
    (hbudget : (s₀.contexts a).budget = some { limit := limit }) :
    ∃ budget, (s.contexts a).budget = some budget ∧ Latched facades limit a es budget := by
  have htracks : Tracks facades s₀ es s := run_tracks hs h
  let fresh : TokenBudget := { limit := limit }
  have hspec (totals : List Int) := fresh.chargeAll_spec totals rfl (Int.natCast_nonneg limit)
  simp only [fresh, Int.zero_add] at hspec
  refine ⟨fresh.chargeAll (totalsOf a es), ?_, ?_⟩
  · rw [htracks.budget, hbudget]
    rfl
  · obtain ⟨hconsumed, hexhausted, hcrossing⟩ := hspec (totalsOf a es)
    refine ⟨hconsumed, hexhausted, fun htripped => ?_, htracks.once,
      fun pre id response post heq => ?_, fun id response hmem => htracks.paid id a response hmem⟩
    · obtain ⟨pre, t, heq, hsum⟩ := hcrossing htripped
      refine ⟨pre, t, heq, ?_⟩
      rw [hconsumed, heq, List.sum_append]
      simp only [List.sum_cons, List.sum_nil, Int.add_zero]
      omega
    · have hlive := htracks.silent pre id a response post heq fresh hbudget
      obtain ⟨hspent, htrips, -⟩ := hspec (totalsOf a pre)
      rw [← hspent]
      refine Int.not_lt.mp fun hlt => ?_
      rw [htrips.mpr hlt] at hlive
      cases hlive

/-- A facade whose responses take four tokens, with a budget of five. -/
def limitedFacade : LlmFacade where
  cfg := { decode := some fun _ => .ok { totalTokens := 4 }, maxTokensPerActivation := some 5 }
  decode _ := .ok { usage := { totalTokens := 4 }, text := "" }
  maxAttempts := 1
  decode_eq := rfl

/-- A worker with one activation in its way. -/
def limitedWorker : ModelWorker where
  breaker := { endpoint := "anthropic", threshold := 1, cooldownMs := 10 }
  contexts _ := (ActivationContext.new (.ofTable []) limitedFacade.cfg
    { entityKey := [107], seq := 1, nowMs := 0, memoryBlob := none,
      cacheBlob := none }).toOption.get rfl

/-- A request. -/
def limitedRequest : LlmRequest := { modelId := "m", canonical := .ok ("[]", "null", "null") }

/-- Its arguments on the facade. -/
def limitedArgs : CompleteArgs where
  request := limitedRequest
  entityKey := [107]
  seq := 1
  stepIndex := 0

/-- Two calls are in flight at the same time, on the two surfaces. The response of the first one is
returned, and that of the second one trips the budget. -/
theorem limitedWorker_trips : ∃ es s budget,
    (machine (.ofTable []) fun _ => limitedFacade).Run limitedWorker
      [.complete 0 limitedArgs, .callModel 0 limitedRequest, .respond 0 (.ok [1]),
        .respond 1 (.ok [2]), .complete 0 limitedArgs] es s ∧
    Latched (fun _ => limitedFacade) 5 0 es budget ∧ budget.exhausted = true ∧
    budget.consumed = 8 ∧ .returned 0 0 [1] ∈ es ∧ .decoded 1 0 4 ∈ es := by
  have hrun : (machine (.ofTable []) fun _ => limitedFacade).Run limitedWorker
      [.complete 0 limitedArgs, .callModel 0 limitedRequest, .respond 0 (.ok [1]),
        .respond 1 (.ok [2]), .complete 0 limitedArgs] _ _ := .of_exec (fun _ _ => id) rfl
  obtain ⟨budget, hbudget, hlatched⟩ := run_latched (.ofTable []) (fun _ => limitedFacade)
    (a := 0) (fun _ _ => rfl) hrun rfl
  have hvalue : budget = { limit := 5, consumed := 8, exhausted := true } :=
    Option.some.inj (hbudget.symm.trans rfl)
  refine ⟨_, _, budget, hrun, hlatched, by rw [hvalue], by rw [hvalue], ?_, ?_⟩
  · exact .tail _ (.tail _ (.tail _ (.head _)))
  · exact .tail _ (.tail _ (.tail _ (.tail _ (.head _))))

end ModelWorker

end BeamAgents
