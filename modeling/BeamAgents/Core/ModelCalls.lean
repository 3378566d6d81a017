import BeamAgents.Core.Sequential
import BeamAgents.Transition.Machine

/-!
# Concurrent model calls

The two surfaces of a model call: `LlmFacade.complete` of `model/facade.py`, which consults the
replay cache, then the circuit breaker of the endpoint, and retries, and
`ActivationContext.call_model`, which goes to the provider by itself. The tasks of a worker make any
number of calls at a time. A call holds the event loop between two of its awaits, which are the call
of the provider and the sleep before a retry. The breaker is shared by all activations of the
worker, and the cache and the budget by the calls of one activation.

## Main definitions

* `CircuitBreaker` with `beforeCall`, `recordSuccess` and `recordFailure`.
* `LlmFacade` with `completeEnter`, `completeLeave`, `completeFailed` and `finish`.
* `ModelWorker`, `ModelAct`, `CallEvent`, `ModelWorker.machine`.
-/

namespace BeamAgents

open Containers Transition

/-! ### The breaker -/

/-- `CircuitState`. -/
inductive CircuitState
  | closed
  | opened
  | halfOpen
  deriving DecidableEq, Repr

/-- The values of the enumeration. -/
def CircuitState.value : CircuitState → String
  | .closed => "closed"
  | .opened => "open"
  | .halfOpen => "half_open"

/-- The breaker of an endpoint. -/
structure CircuitBreaker where
  endpoint : String
  threshold : Int
  cooldownMs : Int
  state : CircuitState := .closed
  consecutiveFailures : ℕ := 0
  openedAtMs : Option Int := none
  deriving DecidableEq, Repr

/-- What becomes of a call that comes to the breaker. -/
inductive BreakerEntry
  | admitted (breaker : CircuitBreaker)
  | circuitOpen
  /-- The assertion that an open breaker knows since when. -/
  | assertionFailed
  deriving DecidableEq, Repr

namespace CircuitBreaker

variable (b : CircuitBreaker)

/-- `CircuitBreaker.before_call`. -/
def beforeCall (nowMs : Int) : BreakerEntry :=
  if b.state = .opened then
    match b.openedAtMs with
    | none => .assertionFailed
    | some openedAtMs =>
      if nowMs - openedAtMs < b.cooldownMs then .circuitOpen
      else .admitted { b with state := .halfOpen }
  else .admitted b

/-- `CircuitBreaker.record_success`. -/
def recordSuccess : CircuitBreaker :=
  { b with state := .closed, consecutiveFailures := 0, openedAtMs := none }

/-- `CircuitBreaker.record_failure`. -/
def recordFailure (nowMs : Int) : CircuitBreaker :=
  if b.state = .halfOpen then { b with state := .opened, openedAtMs := some nowMs }
  else
    let b := { b with consecutiveFailures := b.consecutiveFailures + 1 }
    if b.threshold ≤ b.consecutiveFailures then
      { b with state := .opened, openedAtMs := some nowMs }
    else b

end CircuitBreaker

/-- `CircuitOpenError`. -/
def circuitOpenError (py : PyLib) (endpoint : String) : PyExn where
  typeName := "CircuitOpenError"
  repr := py.exnRepr "CircuitOpenError" s!"circuit open for endpoint {py.reprStr endpoint}"

/-! ### The facade -/

/-- `DecodedResponse`. -/
structure DecodedResponse where
  usage : TokenUsage
  text : String

/-- What `model_validate_json` does: it is content, raises a `ValidationError` or a `ValueError`, or
raises something else. -/
inductive SchemaEnd
  | valid
  | invalid (exn : PyExn) (text : String)
  | raises (exn : PyExn)

/-- An output schema: what `_fold_output_schema` makes of the canonical texts of a request, and the
validation of a response's text. -/
structure OutputSchema where
  fold : Except PyExn (String × String × String) → Except PyExn (String × String × String)
  validate : String → SchemaEnd

/-- The arguments of `LlmFacade.complete`. -/
structure CompleteArgs where
  request : LlmRequest
  entityKey : Bytes
  seq : ℕ
  stepIndex : ℕ
  outputSchema : Option OutputSchema := none

/-- `_fold_output_schema`. -/
def CompleteArgs.effectiveRequest (args : CompleteArgs) : LlmRequest :=
  match args.outputSchema with
  | none => args.request
  | some schema => { args.request with canonical := schema.fold args.request.canonical }

/-- `FacadeResult`; of the parsed model, whether there is one. -/
structure FacadeResult where
  response : Bytes
  parsed : Bool
  usage : TokenUsage
  cacheHit : Bool
  attempts : ℕ

/-- `OutputSchemaError`. -/
def outputSchemaError (py : PyLib) (text : String) : PyExn where
  typeName := "OutputSchemaError"
  repr := py.exnRepr "OutputSchemaError" text

/-- The locals that a `complete` keeps across its awaits. -/
structure FacadeCall where
  args : CompleteArgs
  cacheKey : String
  attempt : ℕ := 1
  /-- The breaker was half open when it let the call through. -/
  trial : Bool := false

/-- How a `complete` enters: it raises, the cache has its response, or it goes to the provider. -/
inductive CompleteEntry
  | raised (e : PyExn)
  | served (response : Bytes) (result : Except PyExn FacadeResult)
  | calling (call : FacadeCall)

/-- What a facade is built with, beside the cache, the budget and the sink of its activation. The
contexts of its activations decode with the same decoder. -/
structure LlmFacade where
  cfg : ContextConfig
  decode : Bytes → Except PyExn DecodedResponse
  /-- `RetryPolicy.max_attempts`. -/
  maxAttempts : ℕ
  decode_eq : cfg.decode = some fun response => (decode response).map (·.usage)

namespace LlmFacade

variable (py : PyLib) (facade : LlmFacade)

/-- `LlmFacade._stage_trace`. -/
def stageTrace (breaker : CircuitBreaker) (ctx : ActivationContext) (args : CompleteArgs)
    (cacheHit : Bool) (attempts : ℕ) (usage : Option TokenUsage) (error : Option PyExn) :
    ActivationContext :=
  ctx.stageTrace py {
    entityKey := args.entityKey
    seq := args.seq
    stepIndex := args.stepIndex
    eventType := .llmCall
    attributes := [("gen_ai.operation.name", "chat"),
      ("gen_ai.request.model", args.effectiveRequest.modelId),
      ("beam_agents.cache_hit", boolText cacheHit), ("beam_agents.attempts", toString attempts),
      ("beam_agents.circuit_state", breaker.state.value)] ++
      usageAttributes usage (!cacheHit && usage.isSome) ++
      (error.map fun e => ("error.type", e.typeName)).toList
    startMs := ctx.nowMs
    endMs := ctx.nowMs }

/-- `LlmFacade._finish`. -/
def finish (breaker : CircuitBreaker) (ctx : ActivationContext) (args : CompleteArgs)
    (cacheHit : Bool) (attempts : ℕ) (response : Bytes) :
    ActivationContext × Except PyExn FacadeResult :=
  match facade.decode response with
  | .error e => (ctx, .error e)
  | .ok decoded =>
    let usage := decoded.usage
    let ctx := if cacheHit then ctx else ctx.accumulateUsage usage
    match ctx.charge (some usage) with
    | (ctx, some e) =>
      (stageTrace py breaker ctx args cacheHit attempts (some usage) (some e), .error e)
    | (ctx, none) =>
      let validated : Option SchemaEnd := args.outputSchema.map (·.validate decoded.text)
      match validated with
      | some (.invalid exn text) =>
        (stageTrace py breaker ctx args cacheHit attempts (some usage) (some exn),
          .error (outputSchemaError py text))
      | some (.raises exn) => (ctx, .error exn)
      | some .valid | none =>
        (stageTrace py breaker ctx args cacheHit attempts (some usage) none,
          .ok ⟨response, validated.isSome, usage, cacheHit, attempts⟩)

/-- `LlmFacade.complete` up to its first await. -/
def completeEnter (breaker : CircuitBreaker) (ctx : ActivationContext) (args : CompleteArgs) :
    CircuitBreaker × ActivationContext × CompleteEntry :=
  match ctx.budget.bind TokenBudget.check with
  | some e => (breaker, ctx, .raised e)
  | none =>
    match computeCacheKey py args.effectiveRequest args.entityKey args.seq with
    | .error e => (breaker, ctx, .raised e)
    | .ok cacheKey =>
      let (cache, cached) := ctx.replayCache.get cacheKey
      let ctx := { ctx with replayCache := cache }
      match cached.filter fun entry => !entry.digestOnly with
      | some entry =>
        let (ctx, result) := facade.finish py breaker ctx args true 0 entry.response
        (breaker, ctx, .served entry.response result)
      | none =>
        match breaker.beforeCall ctx.nowMs with
        | .circuitOpen =>
          let e := circuitOpenError py breaker.endpoint
          (breaker, stageTrace py breaker ctx args false 0 none (some e), .raised e)
        | .assertionFailed =>
          (breaker, ctx, .raised { typeName := "AssertionError", repr := "AssertionError()" })
        | .admitted breaker =>
          -- Without an attempt the retry loop falls through to its assertion.
          if facade.maxAttempts = 0 then
            (breaker, ctx, .raised {
              typeName := "AssertionError"
              repr := "AssertionError('unreachable: retry loop always returns')" })
          else
            (breaker, ctx, .calling { args, cacheKey, trial := breaker.state = .halfOpen })

/-- `LlmFacade.complete` after the provider answered. -/
def completeLeave (breaker : CircuitBreaker) (ctx : ActivationContext) (call : FacadeCall)
    (response : Bytes) : CircuitBreaker × ActivationContext × Except PyExn FacadeResult :=
  let breaker := breaker.recordSuccess
  let ctx := { ctx with replayCache := ctx.replayCache.put py call.cacheKey response }
  (breaker, facade.finish py breaker ctx call.args false call.attempt response)

/-- `LlmFacade.complete` after the last attempt failed. -/
def completeFailed (breaker : CircuitBreaker) (ctx : ActivationContext) (call : FacadeCall)
    (e : PyExn) : CircuitBreaker × ActivationContext :=
  let breaker := breaker.recordFailure ctx.nowMs
  (breaker, stageTrace py breaker ctx call.args false call.attempt none (some e))

end LlmFacade

/-! ### The calls of a worker -/

/-- A call at one of its awaits, in the activation that made it: of the provider, or, on the facade,
of the sleep before a retry. -/
inductive PendingCall
  | model (a : ℕ) (call : ModelCall)
  | facade (a : ℕ) (call : FacadeCall) (asleep : Bool)

/-- The breaker, the activations and the calls in flight. Calls are numbered as they are made. -/
structure ModelWorker where
  breaker : CircuitBreaker
  contexts : ℕ → ActivationContext
  calls : ℕ → Option PendingCall := fun _ => none
  next : ℕ := 0

/-- How a call of the provider ends: with a response, with a `ProviderError`, or with another
exception, the cancellation among them. -/
inductive ProviderEnd
  | ok (response : Bytes)
  | providerError (e : PyExn)
  | raised (e : PyExn)

/-- A step of a worker: a call is made, the provider answers one, or one wakes up before a retry. -/
inductive ModelAct
  | callModel (a : ℕ) (request : LlmRequest)
  | complete (a : ℕ) (args : CompleteArgs)
  | respond (id : ℕ) (outcome : ProviderEnd) (elapsedNs : Int := 0)
  | wake (id : ℕ) (exn : Option PyExn := none)

/-- What can be seen of a step: the provider is called, a response is decoded, and how a call ends.
-/
inductive CallEvent
  | reached (id : ℕ)
  | decoded (id a : ℕ) (totalTokens : Int)
  | returned (id a : ℕ) (response : Bytes)
  | raised (id a : ℕ) (e : PyExn)

/-- A response is decoded, if it can be. -/
def LlmFacade.decodedEvents (facade : LlmFacade) (id a : ℕ) (response : Bytes) : List CallEvent :=
  match facade.decode response with
  | .ok decoded => [.decoded id a decoded.usage.totalTokens]
  | .error _ => []

/-- How a call ends. -/
def answerEvents (id a : ℕ) : Except PyExn Bytes → List CallEvent
  | .ok response => [.returned id a response]
  | .error e => [.raised id a e]

/-- The response that a facade's result carries. -/
def responseOf (result : Except PyExn FacadeResult) : Except PyExn Bytes := result.map (·.response)

namespace ModelWorker

variable (py : PyLib) (facades : ℕ → LlmFacade) (s : ModelWorker)

/-- The worker with the context of one activation changed. -/
def withContext (a : ℕ) (ctx : ActivationContext) : ModelWorker :=
  { s with contexts := Function.update s.contexts a ctx }

/-- The worker with one call changed. -/
def withCall (id : ℕ) (call : Option PendingCall) : ModelWorker :=
  { s with calls := Function.update s.calls id call }

/-- A `call_model` is made. -/
def callModel (a : ℕ) (request : LlmRequest) : ModelWorker × List CallEvent :=
  let ctx := s.contexts a
  let used := match (ctx.lookupKey py request).bind ctx.replayCache.served with
    | some stored => (facades a).decodedEvents s.next a stored.response
    | none => []
  let (ctx, entry) := ctx.modelEnter py (facades a).cfg request
  let s' := { s.withContext a ctx with next := s.next + 1 }
  match entry with
  | .ok (.miss call) => (s'.withCall s.next (some (.model a call)), [.reached s.next])
  | .ok (.hit response) => (s', used ++ answerEvents s.next a (.ok response))
  | .error e => (s', used ++ answerEvents s.next a (.error e))

/-- A `complete` is made. -/
def complete (a : ℕ) (args : CompleteArgs) : ModelWorker × List CallEvent :=
  let (breaker, ctx, entry) := (facades a).completeEnter py s.breaker (s.contexts a) args
  let s' := { s.withContext a ctx with breaker := breaker, next := s.next + 1 }
  match entry with
  | .raised e => (s', answerEvents s.next a (.error e))
  | .served response result =>
    (s', (facades a).decodedEvents s.next a response ++ answerEvents s.next a (responseOf result))
  | .calling call => (s'.withCall s.next (some (.facade a call false)), [.reached s.next])

/-- The provider answers a call. -/
def respond (id : ℕ) (outcome : ProviderEnd) (elapsedNs : Int) :
    Option (ModelWorker × List CallEvent) :=
  match s.calls id with
  | some (.model a call) =>
    match outcome with
    | .ok response =>
      let (ctx, answer) := (s.contexts a).modelLeave py (facades a).cfg call response elapsedNs
      some ((s.withContext a ctx).withCall id none,
        (facades a).decodedEvents id a response ++ answerEvents id a answer)
    | .providerError e | .raised e => some (s.withCall id none, answerEvents id a (.error e))
  | some (.facade a call false) =>
    match outcome with
    | .ok response =>
      let (breaker, ctx, result) :=
        (facades a).completeLeave py s.breaker (s.contexts a) call response
      some ({ (s.withContext a ctx).withCall id none with breaker := breaker },
        (facades a).decodedEvents id a response ++ answerEvents id a (responseOf result))
    | .providerError e =>
      if call.attempt = (facades a).maxAttempts then
        let (breaker, ctx) := LlmFacade.completeFailed py s.breaker (s.contexts a) call e
        some ({ (s.withContext a ctx).withCall id none with breaker := breaker },
          answerEvents id a (.error e))
      else some (s.withCall id (some (.facade a call true)), [])
    | .raised e => some (s.withCall id none, answerEvents id a (.error e))
  | _ => none

/-- A call wakes up before a retry. -/
def wake (id : ℕ) (exn : Option PyExn) : Option (ModelWorker × List CallEvent) :=
  match s.calls id with
  | some (.facade a call true) =>
    match exn with
    | none =>
      some (s.withCall id (some (.facade a { call with attempt := call.attempt + 1 } false)),
        [.reached id])
    | some e => some (s.withCall id none, answerEvents id a (.error e))
  | _ => none

/-- One step of a worker. -/
def perform : ModelAct → Option (ModelWorker × List CallEvent)
  | .callModel a request => some (callModel py facades s a request)
  | .complete a args => some (complete py facades s a args)
  | .respond id outcome elapsedNs => respond py facades s id outcome elapsedNs
  | .wake id exn => s.wake id exn

/-- The model calls of a worker as a machine. -/
def machine : Machine ModelWorker ModelAct CallEvent where
  step s act s' es := perform py facades s act = some (s', es)

end ModelWorker

/-! ### How a `complete` enters -/

namespace LlmFacade

variable {py : PyLib} {facade : LlmFacade} {breaker : CircuitBreaker} {ctx : ActivationContext}
  {args : CompleteArgs} {cacheKey : String}

/-- A call that the budget refuses. -/
theorem completeEnter_refused {e : PyExn} (hbudget : ctx.budget.bind TokenBudget.check = some e) :
    facade.completeEnter py breaker ctx args = (breaker, ctx, .raised e) := by
  rw [completeEnter, hbudget]

variable (hbudget : ctx.budget.bind TokenBudget.check = none)

include hbudget

/-- A call whose request has no canonical text. -/
theorem completeEnter_unkeyed {e : PyExn}
    (hkey : computeCacheKey py args.effectiveRequest args.entityKey args.seq = .error e) :
    facade.completeEnter py breaker ctx args = (breaker, ctx, .raised e) := by
  rw [completeEnter, hbudget]
  dsimp only
  rw [hkey]

variable (hkey : computeCacheKey py args.effectiveRequest args.entityKey args.seq = .ok cacheKey)

include hkey

/-- A call that the cache answers. -/
theorem completeEnter_hit {stored : StoredResponse}
    (hserved : ctx.replayCache.served cacheKey = some stored) :
    facade.completeEnter py breaker ctx args =
      let ctx := { ctx with replayCache := (ctx.replayCache.get cacheKey).1 }
      let r := facade.finish py breaker ctx args true 0 stored.response
      (breaker, r.1, .served stored.response r.2) := by
  have hget := ctx.replayCache.get_served cacheKey
  rw [hserved, Option.map_some, Option.map_eq_some_iff] at hget
  obtain ⟨entry, hentry, hresponse⟩ := hget
  rw [completeEnter, hbudget]
  dsimp only
  rw [hkey]
  dsimp only
  rw [hentry]
  dsimp only
  rw [hresponse]

variable (hserved : ctx.replayCache.served cacheKey = none)

include hserved

/-- A call that comes to the breaker. -/
theorem completeEnter_miss (facade : LlmFacade) (breaker : CircuitBreaker) :
    ∃ ctx', ctx'.budget = ctx.budget ∧
    facade.completeEnter py breaker ctx args =
      match breaker.beforeCall ctx.nowMs with
      | .circuitOpen => (breaker, ctx', .raised (circuitOpenError py breaker.endpoint))
      | .assertionFailed =>
        (breaker, ctx', .raised { typeName := "AssertionError", repr := "AssertionError()" })
      | .admitted breaker =>
        if facade.maxAttempts = 0 then
          (breaker, ctx', .raised {
            typeName := "AssertionError"
            repr := "AssertionError('unreachable: retry loop always returns')" })
        else (breaker, ctx', .calling { args, cacheKey, trial := breaker.state = .halfOpen }) := by
  have hget := ctx.replayCache.get_served cacheKey
  rw [hserved, Option.map_none, Option.map_eq_none_iff] at hget
  rw [completeEnter, hbudget]
  dsimp only
  rw [hkey]
  dsimp only
  rw [hget]
  dsimp only
  cases breaker.beforeCall ctx.nowMs with
  | circuitOpen =>
    refine ⟨_, ?_, rfl⟩
    rfl
  | assertionFailed =>
    refine ⟨_, ?_, rfl⟩
    rfl
  | admitted breaker =>
    dsimp only
    split_ifs
    · refine ⟨_, ?_, rfl⟩
      rfl
    · refine ⟨_, ?_, rfl⟩
      rfl

end LlmFacade

/-! ### The numbers of the calls -/

namespace ModelWorker

/-- The numbers to come are free. -/
def Numbered (s : ModelWorker) : Prop := ∀ i, s.next ≤ i → s.calls i = none

variable {py : PyLib} {facades : ℕ → LlmFacade} {s s' : ModelWorker} {act : ModelAct}
  {es : List CallEvent} {a id : ℕ}

theorem Numbered.lt (h : s.Numbered) {call : PendingCall} (hcall : s.calls id = some call) :
    id < s.next := by
  refine Nat.lt_of_not_le fun hle => ?_
  rw [h id hle] at hcall
  cases hcall

/-- The numbers to come are free after a call has changed, or begun. -/
theorem Numbered.withCall (h : s.Numbered) (hid : id < s'.next) (hle : s.next ≤ s'.next)
    {call : Option PendingCall} (hcalls : s'.calls = (s.withCall id call).calls) :
    s'.Numbered := by
  intro i hi
  have hne : i ≠ id := Nat.ne_of_gt (Nat.lt_of_lt_of_le hid hi)
  rw [hcalls]
  exact (Function.update_of_ne hne ..).trans (h i (Nat.le_trans hle hi))

/-- A step keeps the numbers to come free. -/
theorem Numbered.step (h : s.Numbered) (hstep : perform py facades s act = some (s', es)) :
    s'.Numbered := by
  have hends {t : ModelWorker} (hnext : t.next = s.next + 1) (hcalls : t.calls = s.calls) :
      t.Numbered := fun i hi => hcalls ▸ h i (by omega)
  have hbegins {t : ModelWorker} (hnext : t.next = s.next + 1) {call : PendingCall}
      (hcalls : t.calls = (s.withCall s.next (some call)).calls) : t.Numbered :=
    h.withCall (by omega) (by omega) hcalls
  have hchanges {id : ℕ} {call : PendingCall} (hcall : s.calls id = some call)
    {c : Option PendingCall}
      {t : ModelWorker} (hnext : t.next = s.next) (hcalls : t.calls = (s.withCall id c).calls) :
      t.Numbered := h.withCall (hnext ▸ h.lt hcall) (Nat.le_of_eq hnext.symm) hcalls
  cases act with
  | callModel a request =>
    have heq : (callModel py facades s a request).1 = s' :=
      congrArg Prod.fst (Option.some.inj hstep)
    rw [← heq]
    unfold callModel
    dsimp only
    split
    · exact hbegins rfl rfl
    · exact hends rfl rfl
    · exact hends rfl rfl
  | complete a args =>
    have heq : (complete py facades s a args).1 = s' := congrArg Prod.fst (Option.some.inj hstep)
    rw [← heq]
    unfold complete
    dsimp only
    split
    · exact hends rfl rfl
    · exact hends rfl rfl
    · exact hbegins rfl rfl
  | respond id outcome elapsedNs =>
    have hrespond : respond py facades s id outcome elapsedNs = some (s', es) := hstep
    unfold respond at hrespond
    split at hrespond
    · rename_i a call hcall
      cases outcome <;> cases hrespond <;> exact hchanges hcall rfl rfl
    · rename_i a call hcall
      cases outcome with
      | ok response =>
        cases hrespond
        exact hchanges hcall rfl rfl
      | providerError e =>
        dsimp only at hrespond
        split_ifs at hrespond <;> cases hrespond <;> exact hchanges hcall rfl rfl
      | raised e =>
        cases hrespond
        exact hchanges hcall rfl rfl
    · cases hrespond
  | wake id exn =>
    have hwake : s.wake id exn = some (s', es) := hstep
    unfold wake at hwake
    split at hwake
    · rename_i a call hcall
      cases exn <;> cases hwake <;> exact hchanges hcall rfl rfl
    · cases hwake

end ModelWorker

end BeamAgents
