import BeamAgents.Containers.Dict
import BeamAgents.Effector.Service

/-!
# The tasks of the effector

The event loop of `effector/service.py` with every await as a point at which other tasks run: the
workers of the partitions with the `process` that they are in, other calls of `process`, the
revocations, the shutdowns and the closings. Any number of them are under way at once, for any
partitions. What a collaborator answers to an awaited call is left open, the dedup store among them,
and so is when it answers; each await may also be left with an exception, or with a cancellation
that somebody has requested.

From one await to the next a task has the loop for itself. A coroutine that is awaited runs at once
and in the task, so that only the calls of collaborators, the sleeps, the tool and the waits for
other tasks are awaits at which the others run; in particular a claim that is granted is registered,
and marked as executing where it will be, before anybody else runs.

A claim is an object that the registry and the task share. It is its place in the list of all that
were made.

## Main definitions

* `ProcessAwait`, `LoopTask`, `LoopState`, `LoopAct`, `LoopEvent`.
* `EffectorLoop` with `received`, `granted`, `resume`, `releaseClaims`, `perform` and `machine`.
-/

namespace BeamAgents

open Transition Containers

/-- An await of `process`. A claim is named where the task has one. -/
inductive ProcessAwait
  /-- The dead-letter sink, or the sleep before it is called again. -/
  | deadLettering (reason : VerificationResult)
  /-- The result sink, with the refusal of an expired intent. -/
  | refusing (refusal : ToolResult)
  /-- `DedupStore.claim`. -/
  | claiming
  /-- The sleep before the next claim. -/
  | backingOff
  /-- The tool. -/
  | running (claim : ℕ) (nowMs : Int)
  /-- `DedupStore.complete` with a result. -/
  | completing (claim : ℕ) (result : ToolResult)
  /-- The approval sink. -/
  | notifying (claim : ℕ)
  /-- `DedupStore.complete` for a routed approval. -/
  | routing (claim : ℕ)
  /-- The result sink. -/
  | publishing (claim : Option ℕ) (result : ToolResult)
  /-- `IntentSource.commit`. -/
  | committing (claim : Option ℕ)
  deriving DecidableEq, Repr

/-- How an await is answered. -/
inductive AwaitAnswer
  | done
  /-- The sink failed and is called again. -/
  | again
  | claimed (outcome : ClaimOutcome)
  | stored (owned : Bool)
  | toolEnded (toolEnd : ToolEnd)
  | raised
  deriving DecidableEq, Repr

/-- How a task ended. -/
inductive TaskEnd
  | returned
  | cancelled
  | failed
  deriving DecidableEq, Repr

/-- A task of the event loop, at an await. -/
inductive LoopTask (δ : Type)
  /-- `_worker`, waiting for its queue or for a permit. -/
  | receiving (partition : String)
  /-- `process`, in a worker or not. -/
  | processing (d : δ) (await : ProcessAwait) (worker : Bool)
  /-- `_on_revoked`, waiting for the worker. -/
  | joining (partition : String) (worker : ℕ)
  /-- `_drain` or `_abort`, waiting for the workers. -/
  | gathering (workers : List ℕ)
  /-- `_release_claim`, waiting for the store, with the partitions that are still to be released. -/
  | releasing (claim : ℕ) (rest : List String)
  | ended (how : TaskEnd)
  deriving DecidableEq, Repr

/-- The claims that were made, `_claims`, `_workers` and the tasks. -/
structure LoopState (δ : Type) where
  made : List ActiveClaim := []
  claims : Dict String ℕ := .empty
  workers : Dict String ℕ := .empty
  tasks : List (LoopTask δ) := []

/-- A step of a task, or the start of one. -/
inductive LoopAct (δ : Type)
  /-- `_ensure_worker`. -/
  | ensureWorker (partition : String)
  /-- A worker takes a delivery from its queue. -/
  | deliver (t : ℕ) (d : δ) (now : Int)
  /-- A worker takes the stop sentinel. -/
  | finish (t : ℕ)
  /-- `process`, called by itself. -/
  | process (d : δ) (now : Int)
  /-- An await of `process` is answered. -/
  | resume (t : ℕ) (now : Int) (answer : AwaitAnswer)
  /-- A cancellation is delivered. -/
  | cancel (t : ℕ)
  /-- `_on_revoked` is called. -/
  | revoke (partition : String)
  /-- `_drain` or `_abort` is called. -/
  | stop
  /-- `aclose` is called. -/
  | close
  /-- The tasks that a task waits for have ended. -/
  | joined (t : ℕ)
  /-- A release of the store is answered. -/
  | released (t : ℕ) (raises : Bool)

/-- A call of a collaborator, and a claim that is granted. -/
inductive LoopEvent (δ : Type)
  | deadLettered (d : δ) (reason : VerificationResult)
  | claimCalled (d : δ)
  | granted (claim : ℕ) (d : δ) (token : ℕ)
  /-- The tool is about to be invoked. -/
  | invoked (claim : ℕ) (d : δ)
  | completeCalled (claim : ℕ) (d : δ) (result : Option ToolResult)
  | published (d : δ) (result : ToolResult)
  /-- The approval sink is called. -/
  | notified (claim : ℕ) (d : δ)
  | committed (d : δ)
  /-- `DedupStore.release` is called. -/
  | released (claim : ℕ) (intentId : String) (token : ℕ)
  deriving DecidableEq, Repr

namespace LoopState

variable {δ : Type} (s : LoopState δ)

/-- A task goes on to its next await. -/
def setTask (t : ℕ) (task : LoopTask δ) : LoopState δ := { s with tasks := s.tasks.set t task }

/-- A new task. -/
def spawn (task : LoopTask δ) : LoopState δ := { s with tasks := s.tasks ++ [task] }

/-- `_release_claim`, up to the call of the store: the registered claim is dropped, and is to be
released unless it is executing. -/
def releaseClaim (partition : String) : LoopState δ × Option (ℕ × ActiveClaim) :=
  match s.claims.get? partition with
  | none => (s, none)
  | some claim =>
    let s := { s with claims := s.claims.erase partition }
    match s.made[claim]? with
    | none => (s, none)
    | some active => if active.executing then (s, none) else (s, some (claim, active))

/-- `_release_claim` for one partition after the other, up to the first call of the store. -/
def releaseClaims : LoopState δ → List String →
    LoopState δ × LoopTask δ × List (LoopEvent δ)
  | s, [] => (s, .ended .returned, [])
  | s, partition :: rest =>
    match s.releaseClaim partition with
    | (s, none) => releaseClaims s rest
    | (s, some (claim, active)) =>
      (s, .releasing claim rest, [.released claim active.intentId active.token])

/-- Whether a task has ended. -/
def hasEnded (t : ℕ) : Bool :=
  match s.tasks[t]? with
  | some (.ended _) => true
  | _ => false

end LoopState

/-- The effector, with what it looks at in a delivery. -/
structure EffectorLoop (δ : Type) where
  svc : EffectorService
  intent : δ → ToolIntent
  partition : δ → String
  /-- `verify_intent` of the delivered message, under the configured keyring. -/
  verify : δ → VerificationResult

/-- Where a step of `process` leads to. -/
inductive ProcessEnd
  | await (next : ProcessAwait)
  /-- `process` returns, and drops its claim from the registry. -/
  | returned (claim : Option ℕ)
  | raised

namespace EffectorLoop

variable {δ : Type} (T : EffectorLoop δ) (py : PyLib)

/-- `_verified`: why a delivery is refused, or `none` when it may proceed. -/
def verified (d : δ) : Option VerificationResult :=
  if T.svc.verifyIntents = .off then none
  else
    match T.verify d with
    | .ok => none
    | .unsigned => if T.svc.verifyIntents = .permissive then none else some .unsigned
    | reason => some reason

/-- `process` up to its first await. -/
def received (d : δ) (now : Int) : ProcessAwait × List (LoopEvent δ) :=
  match T.verified d with
  | some reason =>
    if T.svc.deadLetterSink then (.deadLettering reason, [.deadLettered d reason])
    else (.committing none, [.committed d])
  | none =>
    match refuseExpired (T.intent d) now with
    | some refusal => (.refusing refusal, [.published d refusal])
    | none => (.claiming, [.claimCalled d])

/-- `process` from a granted claim to the next await: the claim is registered, and marked as
executing when the approval sink is called or the tool is invoked. -/
def granted (s : LoopState δ) (d : δ) (token : ℕ) (now : Int) :
    LoopState δ × ProcessEnd × List (LoopEvent δ) :=
  let claim := s.made.length
  let register (executing : Bool) : LoopState δ :=
    { s with
      made := s.made ++ [⟨(T.intent d).intentId, token, executing⟩]
      claims := s.claims.set (T.partition d) claim }
  if (T.intent d).kind = .approval then
    (register true, .await (.notifying claim), [.granted claim d token, .notified claim d])
  else
    match T.svc.runner.admission py (T.intent d) now with
    | .invoke =>
      (register true, .await (.running claim now), [.granted claim d token, .invoked claim d])
    | .answered result =>
      (register false, .await (.completing claim result),
        [.granted claim d token, .completeCalled claim d (some result)])
    | .escapes => (register false, .raised, [.granted claim d token])

/-- `process` from the answer to one await up to the next. -/
def answered (s : LoopState δ) (d : δ) (now : Int) :
    ProcessAwait → AwaitAnswer → Option (LoopState δ × ProcessEnd × List (LoopEvent δ))
  | .deadLettering _, .done => some (s, .await (.committing none), [.committed d])
  | .deadLettering reason, .again =>
    some (s, .await (.deadLettering reason), [.deadLettered d reason])
  | .refusing _, .done => some (s, .await (.committing none), [.committed d])
  | .refusing refusal, .again => some (s, .await (.refusing refusal), [.published d refusal])
  | .claiming, .claimed (.claimed token) => some (T.granted py s d token now)
  | .claiming, .claimed .inFlight => some (s, .await .backingOff, [])
  | .claiming, .claimed (.done none) => some (s, .await (.committing none), [.committed d])
  | .claiming, .claimed (.done (some result)) =>
    some (s, .await (.publishing none result), [.published d result])
  | .backingOff, .done => some (s, .await .claiming, [.claimCalled d])
  | .running claim nowMs, .toolEnded toolEnd =>
    match T.svc.runner.invocationResult py (T.intent d) nowMs toolEnd with
    | some result =>
      some (s, .await (.completing claim result), [.completeCalled claim d (some result)])
    | none => some (s, .raised, [])
  | .completing claim result, .stored owned =>
    if owned then some (s, .await (.publishing (some claim) result), [.published d result])
    else some (s, .returned (some claim), [])
  | .notifying claim, .done => some (s, .await (.routing claim), [.completeCalled claim d none])
  | .notifying claim, .again => some (s, .await (.notifying claim), [.notified claim d])
  | .routing claim, .stored owned =>
    if owned then some (s, .await (.committing (some claim)), [.committed d])
    else some (s, .returned (some claim), [])
  | .publishing claim _, .done => some (s, .await (.committing claim), [.committed d])
  | .publishing claim result, .again =>
    some (s, .await (.publishing claim result), [.published d result])
  | .committing claim, .done => some (s, .returned claim, [])
  | _, .raised => some (s, .raised, [])
  | _, _ => none

/-- The registry when `process` returns: its claim is dropped if it is still the registered one. -/
def dropped (s : LoopState δ) (d : δ) (claim : Option ℕ) : LoopState δ :=
  if claim ≠ none ∧ s.claims.get? (T.partition d) = claim then
    { s with claims := s.claims.erase (T.partition d) }
  else s

/-- The task after a step of `process`. -/
def settle (s : LoopState δ) (t : ℕ) (d : δ) (worker : Bool) : ProcessEnd → LoopState δ
  | .await next => s.setTask t (.processing d next worker)
  | .returned claim =>
    (T.dropped s d claim).setTask t
      (if worker then .receiving (T.partition d) else .ended .returned)
  | .raised => s.setTask t (.ended .failed)

/-- A cancellation at the await of a task. `_on_revoked` suppresses it while it waits for the
worker. -/
def cancelled (s : LoopState δ) (t : ℕ) : LoopTask δ → Option (LoopState δ × List (LoopEvent δ))
  | .ended _ => none
  | .joining partition _ =>
    let (s, task, events) := s.releaseClaims [partition]
    some (s.setTask t task, events)
  | _ => some (s.setTask t (.ended .cancelled), [])

/-- The tasks that a task waits for have ended. -/
def joined (s : LoopState δ) (t : ℕ) : LoopTask δ → Option (LoopState δ × List (LoopEvent δ))
  | .joining partition worker =>
    match s.tasks[worker]? with
    | some (.ended .failed) => some (s.setTask t (.ended .failed), [])
    | some (.ended _) =>
      let (s, task, events) := s.releaseClaims [partition]
      some (s.setTask t task, events)
    | _ => none
  | .gathering workers =>
    if workers.all s.hasEnded then some (s.setTask t (.ended .returned), []) else none
  | _ => none

/-- One step of the event loop. -/
def perform (s : LoopState δ) : LoopAct δ → Option (LoopState δ × List (LoopEvent δ))
  | .ensureWorker partition =>
    match s.workers.get? partition with
    | some _ => some (s, [])
    | none =>
      some ({ s.spawn (.receiving partition) with
        workers := s.workers.set partition s.tasks.length }, [])
  | .deliver t d now =>
    match s.tasks[t]? with
    | some (.receiving partition) =>
      if T.partition d = partition then
        some (s.setTask t (.processing d (T.received d now).1 true), (T.received d now).2)
      else none
    | _ => none
  | .finish t =>
    match s.tasks[t]? with
    | some (.receiving _) => some (s.setTask t (.ended .returned), [])
    | _ => none
  | .process d now =>
    some (s.spawn (.processing d (T.received d now).1 false), (T.received d now).2)
  | .resume t now answer =>
    match s.tasks[t]? with
    | some (.processing d await worker) =>
      (T.answered py s d now await answer).map fun r =>
        (T.settle r.1 t d worker r.2.1, r.2.2)
    | _ => none
  | .cancel t => (s.tasks[t]?).bind (cancelled s t)
  | .revoke partition =>
    match s.workers.get? partition with
    | some worker =>
      some ({ s.spawn (.joining partition worker) with workers := s.workers.erase partition }, [])
    | none =>
      let (s, task, events) := s.releaseClaims [partition]
      some (s.spawn task, events)
  | .stop =>
    some ({ s.spawn (.gathering s.workers.values) with workers := .empty }, [])
  | .close =>
    let (s, task, events) := s.releaseClaims s.claims.keys
    some (s.spawn task, events)
  | .joined t => (s.tasks[t]?).bind (joined s t)
  | .released t raises =>
    match s.tasks[t]? with
    | some (.releasing _ rest) =>
      if raises then some (s.setTask t (.ended .failed), [])
      else
        let (s, task, events) := s.releaseClaims rest
        some (s.setTask t task, events)
    | _ => none

/-- The event loop as a machine. -/
def machine : Machine (LoopState δ) (LoopAct δ) (LoopEvent δ) where
  step s a s' es := T.perform py s a = some (s', es)

end EffectorLoop

end BeamAgents
