import BeamAgents.Core.Loop
import BeamAgents.Model.ReplayRetention

/-!
# Sequential programs

An agent that issues its context calls one after another: between two calls of `call_model` or
`run_tool` it performs operations that answer at once, and what it does next is a function of the
answers. It reads what the context offers, but not what belongs to the driver: the replay cache, the
staged trace events and the tally of the attempt.

A sequential program meets `call_model` only as a whole, so one model call is a single step from the
context before it to the context after it.

## Main definitions

* `ActivationContext.view`: what a sequential program may read of its context.
* `Prog.Sequential`.
* `ModelEvent`, `Prog.log`: what a run shows of its model calls.
* `CallEnd`, `ActivationContext.callEnd`: one model call as a step.

## Main results

* `callModel_step`: a program that calls the model takes that step, and goes on with its answer.
* `Prog.Sequential.run_retains`: the cache retains the responses of a run that fit it together.
-/

namespace BeamAgents

open Containers

/-! ### The programs -/

/-- A context without what belongs to the driver: the replay cache, the staged trace events and the
tally. -/
def ActivationContext.view (ctx : ActivationContext) : ActivationContext :=
  { ctx with
    replayCache := ReplayCache.ofBlob none ctx.nowMs
    traces := []
    tally := {} }

/-- An operation that is no part of an awaiting method. -/
def CtxOp.Plain : CtxOp → Prop
  | .modelEnter _ | .modelLeave .. | .toolEnter _ | .toolLeave .. => False
  | _ => True

/-- A program that issues its context calls one after another and is a function of their answers.
The long-term tier is there to be called, also when no store is configured. -/
inductive Prog.Sequential {ρ : Type} : Prog ρ → Prop
  | ret (r : ρ) : Sequential (.ret r)
  | raise (e : PyExn) : Sequential (.raise e)
  | read (k : ActivationContext → Prog ρ) (hview : ∀ ctx, k ctx = k ctx.view)
      (hk : ∀ ctx, Sequential (k ctx)) : Sequential (.read k)
  | perform (op : CtxOp) (k : Except PyExn op.Ans → Prog ρ) (hop : op.Plain)
      (hk : ∀ answer, Sequential (k answer)) : Sequential (.perform op k)
  | callModel (request : LlmRequest) (k : Except PyExn Bytes → Prog ρ)
      (hk : ∀ answer, Sequential (k answer)) : Sequential (callModel request k)
  | runTool (toolName argsJson : String) (k : Except PyExn Bytes → Prog ρ)
      (hk : ∀ answer, Sequential (k answer)) : Sequential (runTool toolName argsJson k)
  | longtermLoad (key : String) (k : Except PyExn (Option MemoryRecord) → Prog ρ)
      (hk : ∀ answer, Sequential (k answer)) : Sequential (longtermLoad key k)
  | longtermSearch (keyPrefix : String) (limit : ℕ)
      (k : Except PyExn (List MemoryRecord) → Prog ρ) (hk : ∀ answer, Sequential (k answer)) :
      Sequential (longtermSearch keyPrefix limit k)

/-! ### What a run shows of its model calls -/

/-- What a run shows of its model calls: a stored response that a call used, a request that reached
the provider and the reply to it, and what a call answered. -/
inductive ModelEvent
  | used (s : StoredResponse)
  | asked (reply : Except PyExn Bytes)
  | answered (answer : Except PyExn Bytes)

section Events

variable (events : List ModelEvent)

/-- The stored responses that calls used, in order. -/
def usedOf : List StoredResponse :=
  events.filterMap fun
    | .used s => some s
    | _ => none

/-- The replies of the provider, in order. -/
def askedOf : List (Except PyExn Bytes) :=
  events.filterMap fun
    | .asked reply => some reply
    | _ => none

/-- What the model calls answered, in order. -/
def answeredOf : List (Except PyExn Bytes) :=
  events.filterMap fun
    | .answered answer => some answer
    | _ => none

variable {events} {events' : List ModelEvent}

@[simp] theorem usedOf_append : usedOf (events ++ events') = usedOf events ++ usedOf events' :=
  List.filterMap_append

@[simp] theorem askedOf_append : askedOf (events ++ events') = askedOf events ++ askedOf events' :=
  List.filterMap_append

@[simp] theorem answeredOf_append :
    answeredOf (events ++ events') = answeredOf events ++ answeredOf events' :=
  List.filterMap_append

end Events

variable (py : PyLib) (cfg : ContextConfig)

namespace ActivationContext

variable (ctx : ActivationContext)

/-- The key that a model call looks up, when it comes to that. -/
def lookupKey (request : LlmRequest) : Option String :=
  match ctx.budget.bind TokenBudget.check, computeCacheKey py request ctx.entityKey ctx.seq with
  | none, .ok cacheKey => some cacheKey
  | _, _ => none

/-- What an operation shows of the model calls. -/
def modelEvents : CtxOp → ActivationContext → List ModelEvent
  | .modelEnter request, ctx =>
    ((ctx.lookupKey py request).bind ctx.replayCache.served).toList.map .used ++
      match (ctx.modelEnter py cfg request).2 with
      | .error e => [.answered (.error e)]
      | .ok (.hit response) => [.answered (.ok response)]
      | .ok (.miss _) => []
  | .modelLeave call response elapsedNs, ctx =>
    [.used (ctx.replayCache.answered py call.cacheKey response),
      .answered (ctx.modelLeave py cfg call response elapsedNs).2]
  | _, _ => []

end ActivationContext

/-- What an await shows of the model calls. -/
def Await.modelEvents : (a : Await) → Answer a.Ans → List ModelEvent
  | .model _, reply =>
    .asked reply.value ::
      match reply.value with
      | .error e => [.answered (.error e)]
      | .ok _ => []
  | _, _ => []

/-- What a run of a program shows of its model calls. -/
def Prog.log {ρ : Type} (answers : Answers) : Prog ρ → ℕ → ActivationContext → List ModelEvent
  | .ret _, _, _ | .raise _, _, _ => []
  | .read k, awaits, ctx => (k ctx).log answers awaits ctx
  | .perform op k, awaits, ctx =>
    let r := ActivationContext.perform py cfg op ctx
    ActivationContext.modelEvents py cfg op ctx ++ (k r.2).log answers awaits r.1
  | .await a k, awaits, ctx =>
    a.modelEvents (answers awaits a) ++ (k (answers awaits a)).log answers (awaits + 1) ctx

/-! ### One model call -/

/-- Where a model call ended: the context it leaves, whether it waited, what it answered and what it
shows. -/
structure CallEnd where
  ctx : ActivationContext
  awaits : ℕ
  answer : Except PyExn Bytes
  events : List ModelEvent

namespace ActivationContext

variable (ctx : ActivationContext)

/-- The context after the lookup: the cursor has advanced and the cache has been consulted. -/
def looked (cacheKey : String) : ActivationContext :=
  { ctx with
    stepIndex := ctx.stepIndex + 1
    replayCache := (ctx.replayCache.get cacheKey).1 }

/-- The context after the provider's response is stored and counted. -/
def stored (cacheKey : String) (response : Bytes) (elapsedNs : Int) : ActivationContext :=
  { ctx with
    replayCache := ctx.replayCache.put py cacheKey response
    tally := { ctx.tally with
      llmCalls := ctx.tally.llmCalls + 1
      llmMs := ctx.tally.llmMs ++ [elapsedNs / nsPerMs] } }

/-- What a call answers once a response is there: decoding it or the budget may still raise. -/
def settled (step : ℕ) (cacheHit : Bool) (modelId : String) (response : Bytes) :
    ActivationContext × Except PyExn Bytes :=
  match ctx.finishModel py cfg step cacheHit modelId response with
  | (ctx, some e) => (ctx, .error e)
  | (ctx, none) => (ctx, .ok response)

/-- One `call_model`, with the reply that the provider gives if it is asked. -/
def callEnd (request : LlmRequest) (reply : Answer Bytes) : CallEnd :=
  match ctx.budget.bind TokenBudget.check with
  | some e => ⟨ctx, 0, .error e, [.answered (.error e)]⟩
  | none =>
    match computeCacheKey py request ctx.entityKey ctx.seq with
    | .error e => ⟨ctx.advanceStep.2, 0, .error e, [.answered (.error e)]⟩
    | .ok cacheKey =>
      match ctx.replayCache.served cacheKey with
      | some s =>
        let r := (ctx.looked cacheKey).settled py cfg ctx.stepIndex true request.modelId s.response
        ⟨r.1, 0, r.2, [.used s, .answered r.2]⟩
      | none =>
        match reply.value with
        | .error e =>
          ⟨ctx.looked cacheKey, 1, .error e, [.asked (.error e), .answered (.error e)]⟩
        | .ok response =>
          let r :=
            ((ctx.looked cacheKey).stored py cacheKey response reply.elapsedNs).settled py cfg
            ctx.stepIndex false request.modelId response
          ⟨r.1, 1, r.2, [.asked (.ok response),
            .used ((ctx.looked cacheKey).replayCache.answered py cacheKey response),
            .answered r.2]⟩

variable {py} {cfg} {ctx} {request : LlmRequest} {reply : Answer Bytes} {cacheKey : String}

section Entering

variable (reply) {e : PyExn} (hbudget : ctx.budget.bind TokenBudget.check = some e)

include hbudget

/-- A call that the budget refuses. -/
theorem modelEnter_refused : ctx.modelEnter py cfg request = (ctx, .error e) := by
  rw [modelEnter, hbudget]

theorem callEnd_refused :
    ctx.callEnd py cfg request reply = ⟨ctx, 0, .error e, [.answered (.error e)]⟩ := by
  rw [callEnd, hbudget]

theorem lookupKey_refused : ctx.lookupKey py request = none := by
  rw [lookupKey, hbudget]

end Entering

section Entered

variable (hbudget : ctx.budget.bind TokenBudget.check = none)

include hbudget

section Unkeyed

variable (reply) {e : PyExn} (hkey : computeCacheKey py request ctx.entityKey ctx.seq = .error e)

include hkey

/-- A call whose request has no canonical text. -/
theorem modelEnter_unkeyed : ctx.modelEnter py cfg request = (ctx.advanceStep.2, .error e) := by
  rw [modelEnter, hbudget]
  dsimp only [advanceStep]
  rw [hkey]

theorem callEnd_unkeyed : ctx.callEnd py cfg request reply =
    ⟨ctx.advanceStep.2, 0, .error e, [.answered (.error e)]⟩ := by
  rw [callEnd, hbudget]
  dsimp only
  rw [hkey]

theorem lookupKey_unkeyed : ctx.lookupKey py request = none := by
  rw [lookupKey, hbudget, hkey]

end Unkeyed

variable (hkey : computeCacheKey py request ctx.entityKey ctx.seq = .ok cacheKey)

include hkey

theorem lookupKey_keyed : ctx.lookupKey py request = some cacheKey := by
  rw [lookupKey, hbudget, hkey]

/-- A call that the cache answers. -/
theorem modelEnter_hit {s : StoredResponse} (hserved : ctx.replayCache.served cacheKey = some s) :
    ctx.modelEnter py cfg request =
      (((ctx.looked cacheKey).settled py cfg ctx.stepIndex true request.modelId s.response).1,
        ((ctx.looked cacheKey).settled py cfg ctx.stepIndex true request.modelId
          s.response).2.map .hit) := by
  have hget := ctx.replayCache.get_served cacheKey
  rw [hserved, Option.map_some, Option.map_eq_some_iff] at hget
  obtain ⟨entry, hentry, hresponse⟩ := hget
  rw [modelEnter, hbudget]
  dsimp only [advanceStep]
  rw [hkey]
  dsimp only
  rw [hentry]
  dsimp only
  rw [hresponse]
  unfold settled looked
  generalize finishModel py cfg _ ctx.stepIndex true request.modelId s.response = r
  obtain ⟨ctx', _ | e⟩ := r <;> rfl

theorem callEnd_hit (reply) {s : StoredResponse}
    (hserved : ctx.replayCache.served cacheKey = some s) :
    ctx.callEnd py cfg request reply =
      let r := (ctx.looked cacheKey).settled py cfg ctx.stepIndex true request.modelId s.response
      ⟨r.1, 0, r.2, [.used s, .answered r.2]⟩ := by
  rw [callEnd, hbudget]
  dsimp only
  rw [hkey]
  dsimp only
  rw [hserved]

variable (hserved : ctx.replayCache.served cacheKey = none)

include hserved

/-- A call that the cache does not answer. -/
theorem modelEnter_miss : ctx.modelEnter py cfg request =
    (ctx.looked cacheKey, .ok (.miss ⟨ctx.stepIndex, cacheKey, request.modelId⟩)) := by
  have hget := ctx.replayCache.get_served cacheKey
  rw [hserved, Option.map_none, Option.map_eq_none_iff] at hget
  rw [modelEnter, hbudget]
  dsimp only [advanceStep]
  rw [hkey]
  dsimp only
  rw [hget]
  rfl

theorem callEnd_raised {e : PyExn} (hreply : reply.value = .error e) :
    ctx.callEnd py cfg request reply =
      ⟨ctx.looked cacheKey, 1, .error e, [.asked (.error e), .answered (.error e)]⟩ := by
  rw [callEnd, hbudget]
  dsimp only
  rw [hkey]
  dsimp only
  rw [hserved]
  dsimp only
  rw [hreply]

theorem callEnd_replied {response : Bytes} (hreply : reply.value = .ok response) :
    ctx.callEnd py cfg request reply =
      let r := ((ctx.looked cacheKey).stored py cacheKey response reply.elapsedNs).settled py cfg
        ctx.stepIndex false request.modelId response
      ⟨r.1, 1, r.2, [.asked (.ok response),
        .used ((ctx.looked cacheKey).replayCache.answered py cacheKey response),
        .answered r.2]⟩ := by
  rw [callEnd, hbudget]
  dsimp only
  rw [hkey]
  dsimp only
  rw [hserved]
  dsimp only
  rw [hreply]

end Entered

/-- Leaving a model call. -/
theorem modelLeave_eq (call : ModelCall) (response : Bytes) (elapsedNs : Int) :
    ctx.modelLeave py cfg call response elapsedNs =
      (ctx.stored py call.cacheKey response elapsedNs).settled py cfg call.step false call.modelId
        response := by
  cases hr : (ctx.stored py call.cacheKey response elapsedNs).finishModel py cfg call.step false
      call.modelId response with
  | mk ctx' outcome =>
    unfold stored at hr
    cases outcome with
    | none => simp only [modelLeave, settled, stored, hr]
    | some e => simp only [modelLeave, settled, stored, hr]

end ActivationContext

section CallModel

variable {py} {cfg} {ρ : Type} {request : LlmRequest} {k : Except PyExn Bytes → Prog ρ}
  {answers : Answers} {awaits : ℕ} {ctx : ActivationContext}

/-- How a program goes on when its call is answered without waiting. -/
private theorem callModel_entered {ctx' : ActivationContext} (answer : Except PyExn Bytes)
    (h : ctx.modelEnter py cfg request = (ctx', answer.map .hit)) :
    (callModel request k).run py cfg answers awaits ctx =
        (k answer).run py cfg answers awaits ctx' ∧
      (callModel request k).log py cfg answers awaits ctx =
        ((ctx.lookupKey py request).bind ctx.replayCache.served).toList.map .used ++
          .answered answer :: (k answer).log py cfg answers awaits ctx' := by
  unfold callModel
  rw [Prog.run, Prog.log]
  dsimp only [ActivationContext.perform, ActivationContext.modelEvents]
  rw [h]
  cases answer with
  | error e => exact ⟨rfl, by simp [Except.map]⟩
  | ok response => exact ⟨rfl, by simp [Except.map]⟩

/-- How a program goes on when its call waits for the provider. -/
private theorem callModel_waited {ctx' : ActivationContext} {call : ModelCall}
    (h : ctx.modelEnter py cfg request = (ctx', .ok (.miss call))) :
    (callModel request k).run py cfg answers awaits ctx =
        (match (answers awaits (.model request)).value with
        | .error e => (k (.error e)).run py cfg answers (awaits + 1) ctx'
        | .ok response =>
          let r := ctx'.modelLeave py cfg call response (answers awaits (.model request)).elapsedNs
          (k r.2).run py cfg answers (awaits + 1) r.1) ∧
      (callModel request k).log py cfg answers awaits ctx =
        ((ctx.lookupKey py request).bind ctx.replayCache.served).toList.map .used ++
          match (answers awaits (.model request)).value with
          | .error e => .asked (.error e) :: .answered (.error e) ::
            (k (.error e)).log py cfg answers (awaits + 1) ctx'
          | .ok response =>
            let r := ctx'.modelLeave py cfg call response
              (answers awaits (.model request)).elapsedNs
            .asked (.ok response) :: .used (ctx'.replayCache.answered py call.cacheKey response) ::
              .answered r.2 :: (k r.2).log py cfg answers (awaits + 1) r.1 := by
  unfold callModel
  rw [Prog.run, Prog.log]
  dsimp only [ActivationContext.perform, ActivationContext.modelEvents]
  rw [h]
  dsimp only [Prog.run, Prog.log, Await.modelEvents]
  rw [List.append_nil]
  cases (answers awaits (.model request)).value with
  | error e => exact ⟨rfl, rfl⟩
  | ok response => exact ⟨rfl, rfl⟩

variable (py cfg) in
/-- **A model call is one step.** -/
theorem callModel_step (request : LlmRequest) (k : Except PyExn Bytes → Prog ρ) (answers : Answers)
    (awaits : ℕ) (ctx : ActivationContext) :
    let c := ctx.callEnd py cfg request (answers awaits (.model request))
    (callModel request k).run py cfg answers awaits ctx =
        (k c.answer).run py cfg answers (awaits + c.awaits) c.ctx ∧
      (callModel request k).log py cfg answers awaits ctx =
        c.events ++ (k c.answer).log py cfg answers (awaits + c.awaits) c.ctx := by
  intro c
  cases hbudget : ctx.budget.bind TokenBudget.check with
  | some e =>
    have hc : c = _ := ActivationContext.callEnd_refused _ hbudget
    obtain ⟨hrun, hlog⟩ := callModel_entered (.error e)
      (ActivationContext.modelEnter_refused hbudget)
    rw [hrun, hlog, ActivationContext.lookupKey_refused hbudget, hc]
    exact ⟨rfl, rfl⟩
  | none =>
    cases hkey : computeCacheKey py request ctx.entityKey ctx.seq with
    | error e =>
      have hc : c = _ := ActivationContext.callEnd_unkeyed _ hbudget hkey
      obtain ⟨hrun, hlog⟩ := callModel_entered (.error e)
        (ActivationContext.modelEnter_unkeyed hbudget hkey)
      rw [hrun, hlog, ActivationContext.lookupKey_unkeyed hbudget hkey, hc]
      exact ⟨rfl, rfl⟩
    | ok cacheKey =>
      cases hserved : ctx.replayCache.served cacheKey with
      | some s =>
        have hc : c = _ := ActivationContext.callEnd_hit hbudget hkey _ hserved
        obtain ⟨hrun, hlog⟩ := callModel_entered _
          (ActivationContext.modelEnter_hit hbudget hkey hserved)
        rw [hrun, hlog, ActivationContext.lookupKey_keyed hbudget hkey, hc, Option.bind_some,
          hserved]
        exact ⟨rfl, rfl⟩
      | none =>
        obtain ⟨hrun, hlog⟩ := callModel_waited
          (ActivationContext.modelEnter_miss hbudget hkey hserved)
        rw [hrun, hlog, ActivationContext.lookupKey_keyed hbudget hkey, Option.bind_some, hserved]
        cases hreply : (answers awaits (.model request)).value with
        | error e =>
          have hc : c = _ := ActivationContext.callEnd_raised hbudget hkey hserved hreply
          rw [hc]
          exact ⟨rfl, rfl⟩
        | ok response =>
          have hc : c = _ := ActivationContext.callEnd_replied hbudget hkey hserved hreply
          rw [hc]
          exact ⟨rfl, rfl⟩

end CallModel

/-! ### The other awaiting methods -/

/-- One `run_tool`, with the reply that the tool gives if it is run: the context it leaves, whether
it waited, and what it answered. -/
def ActivationContext.toolEnd (ctx : ActivationContext) (toolName : String) (reply : Answer Bytes) :
    ActivationContext × ℕ × Except PyExn Bytes :=
  match ActivationContext.toolEnter py cfg toolName, reply.value with
  | .error e, _ => (ctx, 0, .error e)
  | .ok (), .error e => (ctx, 1, .error e)
  | .ok (), .ok value => (ctx.toolLeave py toolName reply.elapsedNs, 1, .ok value)

section Awaiting

variable {cfg} {ρ : Type} (answers : Answers) (awaits : ℕ) (ctx : ActivationContext)

/-- A tool run is one step. -/
theorem runTool_step (cfg) (toolName argsJson : String) (k : Except PyExn Bytes → Prog ρ) :
    let t := ctx.toolEnd py cfg toolName (answers awaits (.tool toolName argsJson))
    (runTool toolName argsJson k).run py cfg answers awaits ctx =
        (k t.2.2).run py cfg answers (awaits + t.2.1) t.1 ∧
      (runTool toolName argsJson k).log py cfg answers awaits ctx =
        (k t.2.2).log py cfg answers (awaits + t.2.1) t.1 := by
  intro t
  have ht : t = ctx.toolEnd py cfg toolName (answers awaits (.tool toolName argsJson)) := rfl
  rw [ActivationContext.toolEnd] at ht
  unfold runTool
  rw [Prog.run, Prog.log]
  dsimp only [ActivationContext.perform, ActivationContext.modelEvents]
  cases hentered : ActivationContext.toolEnter py cfg toolName with
  | error e =>
    rw [hentered] at ht
    rw [ht]
    exact ⟨rfl, rfl⟩
  | ok entered =>
    dsimp only [Prog.run, Prog.log, Await.modelEvents]
    rw [hentered] at ht
    cases hreply : (answers awaits (.tool toolName argsJson)).value with
    | error e =>
      rw [hreply] at ht
      rw [ht]
      exact ⟨rfl, rfl⟩
    | ok value =>
      rw [hreply] at ht
      rw [ht]
      exact ⟨rfl, rfl⟩

/-- Without a store the long-term tier refuses a load. -/
theorem longtermLoad_step (hstore : cfg.longterm = false) (key : String)
    (k : Except PyExn (Option MemoryRecord) → Prog ρ) :
    (longtermLoad key k).run py cfg answers awaits ctx =
        (k (.error noLongtermStore)).run py cfg answers awaits ctx ∧
      (longtermLoad key k).log py cfg answers awaits ctx =
        (k (.error noLongtermStore)).log py cfg answers awaits ctx := by
  unfold longtermLoad
  rw [Prog.run, Prog.log]
  dsimp only [ActivationContext.perform, ActivationContext.modelEvents]
  rw [hstore]
  exact ⟨rfl, rfl⟩

/-- Without a store the long-term tier refuses a search. -/
theorem longtermSearch_step (hstore : cfg.longterm = false) (keyPrefix : String) (limit : ℕ)
    (k : Except PyExn (List MemoryRecord) → Prog ρ) :
    (longtermSearch keyPrefix limit k).run py cfg answers awaits ctx =
        (k (.error noLongtermStore)).run py cfg answers awaits ctx ∧
      (longtermSearch keyPrefix limit k).log py cfg answers awaits ctx =
        (k (.error noLongtermStore)).log py cfg answers awaits ctx := by
  unfold longtermSearch
  rw [Prog.run, Prog.log]
  dsimp only [ActivationContext.perform, ActivationContext.modelEvents]
  rw [hstore]
  exact ⟨rfl, rfl⟩

end Awaiting

/-! ### What the cache retains of a run -/

namespace ActivationContext

variable {py} {cfg} {ctx : ActivationContext}

theorem modelEvents_plain {op : CtxOp} (hop : op.Plain) : modelEvents py cfg op ctx = [] := by
  cases op with
  | modelEnter | modelLeave => exact hop.elim
  | _ => rfl

theorem settled_replayCache (step : ℕ) (cacheHit : Bool) (modelId : String) (response : Bytes) :
    (ctx.settled py cfg step cacheHit modelId response).1.replayCache = ctx.replayCache := by
  have hcharge (ctx : ActivationContext) (usage : Option TokenUsage) :
      (ctx.charge usage).1.replayCache = ctx.replayCache := by
    unfold charge
    split <;> rfl
  have hfinish : (ctx.finishModel py cfg step cacheHit modelId response).1.replayCache =
      ctx.replayCache := by
    unfold finishModel
    split
    · rfl
    · exact hcharge _ _
  unfold settled
  generalize finishModel py cfg ctx step cacheHit modelId response = r at hfinish
  obtain ⟨ctx', _ | e⟩ := r <;> exact hfinish

/-- A plain operation leaves the replay cache alone. -/
theorem perform_replayCache {op : CtxOp} (hop : op.Plain) :
    (perform py cfg op ctx).1.replayCache = ctx.replayCache := by
  cases op with
  | modelEnter | modelLeave | toolEnter | toolLeave => exact hop.elim
  | longtermSave key value =>
    simp only [perform, longtermSave]
    split_ifs <;> rfl
  | _ => rfl

theorem toolEnd_replayCache (toolName : String) (reply : Answer Bytes) :
    (ctx.toolEnd py cfg toolName reply).1.replayCache = ctx.replayCache := by
  unfold toolEnd
  split <;> rfl

variable {now : Int} {stored : List StoredResponse}

/-- A call after which the responses used so far fit the cache leaves a cache that retains them. -/
theorem callEnd_retains (request : LlmRequest) (reply : Answer Bytes)
    (h : ctx.replayCache.Retains now stored)
    (hreplied : ∀ e, .error e ∉ askedOf (ctx.callEnd py cfg request reply).events)
    (hfits : Fits (stored ++ usedOf (ctx.callEnd py cfg request reply).events)) :
    (ctx.callEnd py cfg request reply).ctx.replayCache.Retains now
      (stored ++ usedOf (ctx.callEnd py cfg request reply).events) := by
  cases hbudget : ctx.budget.bind TokenBudget.check with
  | some e =>
    rw [callEnd_refused reply hbudget]
    simpa [usedOf] using h
  | none =>
    cases hkey : computeCacheKey py request ctx.entityKey ctx.seq with
    | error e =>
      rw [callEnd_unkeyed reply hbudget hkey]
      simpa [usedOf, advanceStep] using h
    | ok cacheKey =>
      cases hserved : ctx.replayCache.served cacheKey with
      | some s =>
        rw [callEnd_hit hbudget hkey reply hserved]
        dsimp only
        rw [settled_replayCache]
        exact h.hit hserved
      | none =>
        cases hreply : reply.value with
        | error e =>
          rw [callEnd_raised hbudget hkey hserved hreply] at hreplied
          exact absurd (List.mem_singleton_self _) (hreplied e)
        | ok response =>
          rw [callEnd_replied hbudget hkey hserved hreply] at hfits ⊢
          dsimp only
          rw [settled_replayCache]
          exact h.put hserved py response hfits

end ActivationContext

/-- **The cache retains what a run used.** When no provider call of the run raised and the responses
that its calls used fit the cache together, the cache it leaves retains all of them. -/
theorem Prog.Sequential.run_retains {py : PyLib} {cfg : ContextConfig} {ρ : Type} {p : Prog ρ}
    (hp : p.Sequential) (hstore : cfg.longterm = false) {answers : Answers} {awaits : ℕ}
    {ctx : ActivationContext} {now : Int} {stored : List StoredResponse}
    (h : ctx.replayCache.Retains now stored)
    (hreplied : ∀ e, .error e ∉ askedOf (p.log py cfg answers awaits ctx))
    (hfits : Fits (stored ++ usedOf (p.log py cfg answers awaits ctx))) :
    (p.run py cfg answers awaits ctx).ctx.replayCache.Retains now
      (stored ++ usedOf (p.log py cfg answers awaits ctx)) := by
  induction hp generalizing awaits ctx stored with
  | ret r => simpa [Prog.run, Prog.log, usedOf] using h
  | raise e => simpa [Prog.run, Prog.log, usedOf] using h
  | read k _ _ ih => exact ih ctx h hreplied hfits
  | perform op k hop _ ih =>
    rw [Prog.log, ActivationContext.modelEvents_plain hop, List.nil_append] at hreplied hfits ⊢
    rw [← ActivationContext.perform_replayCache hop] at h
    exact ih _ h hreplied hfits
  | callModel request k _ ih =>
    obtain ⟨hrun, hlog⟩ := callModel_step py cfg request k answers awaits ctx
    rw [hlog, askedOf_append] at hreplied
    rw [hlog, usedOf_append, ← List.append_assoc] at hfits
    rw [hlog, hrun, usedOf_append, ← List.append_assoc]
    have hcall := ActivationContext.callEnd_retains request _ h
      (fun e he => hreplied e (List.mem_append_left _ he))
      (hfits.mono (List.subset_append_left _ _))
    exact ih _ hcall (fun e he => hreplied e (List.mem_append_right _ he)) hfits
  | runTool toolName argsJson k _ ih =>
    obtain ⟨hrun, hlog⟩ := runTool_step py answers awaits ctx cfg toolName argsJson k
    rw [hlog] at hreplied hfits ⊢
    rw [hrun]
    rw [← ActivationContext.toolEnd_replayCache toolName] at h
    exact ih _ h hreplied hfits
  | longtermLoad key k _ ih =>
    obtain ⟨hrun, hlog⟩ := longtermLoad_step py answers awaits ctx hstore key k
    rw [hlog] at hreplied hfits ⊢
    rw [hrun]
    exact ih _ h hreplied hfits
  | longtermSearch keyPrefix limit k _ ih =>
    obtain ⟨hrun, hlog⟩ := longtermSearch_step py answers awaits ctx hstore keyPrefix limit k
    rw [hlog] at hreplied hfits ⊢
    rw [hrun]
    exact ih _ h hreplied hfits

end BeamAgents
