import BeamAgents.Effector.Dedup
import BeamAgents.Effector.Runner
import BeamAgents.Transition.Machine

/-!
# The effector loop

`EffectorService.process` of `effector/service.py`, run by any number of workers over one
`InMemoryDedupStore`. A worker is the task of one partition in one assignment: it takes one delivery
at a time through the phases of `process`, and it may stop in any of them (cancelled, revoked,
crashed, or failed with an exception).

The workers share one event loop. A worker that is parked at an await which suspends lets the others
run; from one such await to the next it holds the loop, and nobody else takes a step. The methods of
the store complete without suspending, so a worker holds the loop from its lookup of a claim until
it has handed the call to its tool. The clock may advance at any time. A call of a sink that is not
acknowledged may have reached the transport or not; it is made again.

## Main definitions

* `Delivered`, `Phase`, `EffectorState`, `Work`, `EffectorAct`, `EffectorEvent`.
* `EffectorService` with `work`, `releaseClaim`, `perform` and `machine`.
-/

namespace BeamAgents

open Transition Lease

/-- One intent as delivered; the handle is its offset in the partition. -/
structure Delivered where
  intent : ToolIntent
  partition : String
  handle : ℕ
  deriving DecidableEq, Repr

/-- The id under which a delivery is claimed. -/
abbrev Delivered.intentId (d : Delivered) : String := d.intent.intentId

/-- `VerificationResult`. -/
inductive VerificationResult
  | ok
  | unsigned
  | badSignature
  | unknownSigningKey
  deriving DecidableEq, Repr

/-- `VerificationMode`. -/
inductive VerificationMode
  | off
  | permissive
  | require
  deriving DecidableEq, Repr

/-- `_ActiveClaim`: a claim currently held by a partition's worker. -/
structure ActiveClaim where
  intentId : String
  token : ℕ
  executing : Bool := false
  deriving DecidableEq, Repr

/-- Where a worker is in `process`. -/
inductive Phase
  /-- Waiting for the next delivery. -/
  | idle
  /-- Publishing a dead letter. -/
  | deadLettering (d : Delivered) (reason : VerificationResult)
  /-- Before the expiry check. -/
  | checking (d : Delivered)
  /-- Publishing the refusal of an expired intent. -/
  | refusing (d : Delivered) (refusal : ToolResult)
  /-- Before a claim. -/
  | claiming (d : Delivered)
  /-- Backing off from a live lease of another worker. -/
  | waiting (d : Delivered)
  /-- The claim is granted and registered. -/
  | claimed (d : Delivered) (token : ℕ)
  /-- The callable is invoked. -/
  | running (d : Delivered) (token : ℕ) (nowMs : Int)
  /-- Before the completion with a result. -/
  | completing (d : Delivered) (token : ℕ) (result : ToolResult)
  /-- Publishing a stored result. -/
  | publishing (d : Delivered) (result : ToolResult)
  /-- Publishing an approval request. -/
  | notifying (d : Delivered) (token : ℕ)
  /-- Before the completion of a routed approval. -/
  | routed (d : Delivered) (token : ℕ)
  /-- Committing the delivery. -/
  | committing (d : Delivered)
  /-- Ended: cancelled, or failed. -/
  | stopped
  deriving DecidableEq, Repr

/-- Whether the worker is parked at an await that suspends. -/
def Phase.parked : Phase → Bool
  | .checking _ | .claiming _ | .claimed .. | .completing .. | .routed .. => false
  | _ => true

/-- The workers, the store and the clock. -/
structure EffectorState where
  now : Int := 0
  records : InMemoryDedupStore := fun _ => none
  nextToken : ℕ := 0
  phases : ℕ → Phase := fun _ => .idle
  /-- `EffectorService._claims`, by worker. -/
  claims : ℕ → Option ActiveClaim := fun _ => none
  /-- The worker that holds the event loop. -/
  turn : Option ℕ := none

/-- A step of a worker. The sinks may leave a call unacknowledged. -/
inductive Work
  | deliver (d : Delivered)
  | deadLetter (acked : Bool := true)
  | check
  | refuse (acked : Bool := true)
  | claim
  | begin
  | finish (toolEnd : ToolEnd)
  | complete
  | publish (acked : Bool := true)
  | notify (acked : Bool := true)
  | route
  | commit
  | stop
  deriving DecidableEq, Repr

/-- A step of the effector: the clock, a worker, or `_release_claim` for a worker's partition. -/
inductive EffectorAct
  | tick (ms : ℕ)
  | work (w : ℕ) (a : Work)
  | release (w : ℕ)
  deriving DecidableEq, Repr

/-- What can be seen of a step. -/
inductive EffectorEvent
  | delivered (w : ℕ) (d : Delivered)
  /-- The dead-letter sink is called, and does or does not acknowledge. -/
  | deadLettered (w : ℕ) (d : Delivered) (reason : VerificationResult) (acked : Bool)
  /-- A change of the store. -/
  | store (mark : DedupMark)
  /-- A claim found the terminal record of its intent. -/
  | deduped (w : ℕ) (d : Delivered) (result : Option ToolResult)
  /-- The tool of the intent is invoked. -/
  | invoked (w : ℕ) (d : Delivered) (token : ℕ)
  /-- A completion found the claim lost. -/
  | lost (w : ℕ) (d : Delivered)
  /-- The result sink is called, and does or does not acknowledge. -/
  | published (w : ℕ) (d : Delivered) (result : ToolResult) (now : Int) (acked : Bool)
  /-- The approval sink is called, and does or does not acknowledge. -/
  | notified (w : ℕ) (d : Delivered) (acked : Bool)
  | committed (w : ℕ) (d : Delivered)
  | stopped (w : ℕ)
  deriving DecidableEq, Repr

namespace EffectorState

variable (s : EffectorState)

/-- Worker `w` goes to a phase, and keeps the event loop until it parks. -/
def moveTo (w : ℕ) (phase : Phase) : EffectorState :=
  { s with
    phases := Function.update s.phases w phase
    turn := if phase.parked then none else some w }

/-- The claim registered for worker `w`. -/
def register (w : ℕ) (claim : Option ActiveClaim) : EffectorState :=
  { s with claims := Function.update s.claims w claim }

end EffectorState

theorem defaultMaxConcurrentPartitions_pos : 0 < 8 := by decide

/-- The configuration and the collaborators of the effector. -/
structure EffectorService where
  leaseMs : ℕ
  resultTtlMs : ℕ
  runner : EffectorToolRunner
  maxConcurrentPartitions : ℕ := 8
  verifyIntents : VerificationMode := .off
  /-- `verify_intent` under the configured keyring. -/
  verifyIntent : ToolIntent → VerificationResult := fun _ => .ok
  /-- Whether a dead-letter sink is configured. -/
  deadLetterSink : Bool := false
  resultTtl_pos : 0 < resultTtlMs := by decide
  toolTimeout_lt : runner.toolTimeoutMs < leaseMs := by decide
  maxConcurrentPartitions_pos : 0 < maxConcurrentPartitions := by
    first | exact defaultMaxConcurrentPartitions_pos | decide

namespace EffectorService

variable (svc : EffectorService) (py : PyLib)

/-- `_verified`: why a delivery is refused, or `none` when it may proceed. -/
def verified (d : Delivered) : Option VerificationResult :=
  if svc.verifyIntents = .off then none
  else
    match svc.verifyIntent d.intent with
    | .ok => none
    | .unsigned => if svc.verifyIntents = .permissive then none else some .unsigned
    | reason => some reason

/-- The phase in which `process` parks or decides after phase 0. Without a dead-letter sink a
refused delivery is logged and committed. -/
def received (d : Delivered) : Phase :=
  match svc.verified d with
  | some reason => if svc.deadLetterSink then .deadLettering d reason else .committing d
  | none => .checking d

/-- The phase after a claim's outcome. -/
def afterClaim (d : Delivered) : ClaimOutcome → Phase
  | .claimed token => .claimed d token
  | .inFlight => .waiting d
  | .done (some result) => .publishing d result
  | .done none => .committing d

/-- Phase 2 of `process`: one claim, with what it makes the worker do next. -/
def claimStep (s : EffectorState) (w : ℕ) (d : Delivered) : EffectorState × List EffectorEvent :=
  let (records, outcome) :=
    InMemoryDedupStore.claim s.records s.now d.intentId svc.leaseMs s.nextToken
  let marks := InMemoryDedupStore.claimMarks s.records s.now d.intentId svc.leaseMs s.nextToken
  let s' := { s.moveTo w (afterClaim d outcome) with records := records }
  match outcome with
  | .claimed token =>
    ({ s'.register w (some { intentId := d.intentId, token := token }) with
        nextToken := s.nextToken + 1 }, marks.map .store)
  | .inFlight => (s', marks.map .store)
  | .done result => (s', marks.map .store ++ [.deduped w d result])

/-- From a granted claim to the invocation of the tool, to a result without one, or to the approval
channel. -/
def beginStep (s : EffectorState) (w : ℕ) (d : Delivered) (token : ℕ) :
    EffectorState × List EffectorEvent :=
  let executing : Option ActiveClaim :=
    some { intentId := d.intentId, token := token, executing := true }
  if d.intent.kind = .approval then ((s.moveTo w (.notifying d token)).register w executing, [])
  else
    match svc.runner.admission py d.intent s.now with
    | .invoke =>
      ((s.moveTo w (.running d token s.now)).register w executing, [.invoked w d token])
    | .answered result => (s.moveTo w (.completing d token result), [])
    | .escapes => (s.moveTo w .stopped, [.stopped w])

/-- From the end of the invocation to the completion, or out of `process` with an exception. -/
def finishStep (s : EffectorState) (w : ℕ) (d : Delivered) (token : ℕ) (nowMs : Int)
    (toolEnd : ToolEnd) : EffectorState × List EffectorEvent :=
  match svc.runner.invocationResult py d.intent nowMs toolEnd with
  | some result => (s.moveTo w (.completing d token result), [])
  | none => (s.moveTo w .stopped, [.stopped w])

/-- Phase 3: the completion with a result, or without one for a routed approval. -/
def completeStep (s : EffectorState) (w : ℕ) (d : Delivered) (token : ℕ)
    (result : Option ToolResult) (next : Phase) : EffectorState × List EffectorEvent :=
  let (records, stored) :=
    InMemoryDedupStore.complete s.records s.now d.intentId token result svc.resultTtlMs
  let marks :=
    InMemoryDedupStore.completeMarks s.records s.now d.intentId token result svc.resultTtlMs
  if stored then ({ s.moveTo w next with records := records }, marks.map .store)
  else
    ({ (s.moveTo w .idle).register w none with records := records },
      marks.map .store ++ [.lost w d])

/-- One step of worker `w`: a phase of `process`. -/
def work (s : EffectorState) (w : ℕ) (a : Work) : Option (EffectorState × List EffectorEvent) :=
  match s.phases w, a with
  | .idle, .deliver d => some (s.moveTo w (svc.received d), [.delivered w d])
  | .deadLettering d reason, .deadLetter acked =>
    some (s.moveTo w (if acked then .committing d else .deadLettering d reason),
      [.deadLettered w d reason acked])
  | .checking d, .check =>
    match refuseExpired d.intent s.now with
    | some refusal => some (s.moveTo w (.refusing d refusal), [])
    | none => some (s.moveTo w (.claiming d), [])
  | .refusing d refusal, .refuse acked =>
    some (s.moveTo w (if acked then .committing d else .refusing d refusal),
      [.published w d refusal s.now acked])
  | .claiming d, .claim => some (svc.claimStep s w d)
  | .waiting d, .claim => some (svc.claimStep s w d)
  | .claimed d token, .begin => some (svc.beginStep py s w d token)
  | .running d token nowMs, .finish toolEnd =>
    if svc.runner.mayEnd d.intent toolEnd then some (svc.finishStep py s w d token nowMs toolEnd)
    else none
  | .completing d token result, .complete =>
    some (svc.completeStep s w d token (some result) (.publishing d result))
  | .publishing d result, .publish acked =>
    some (s.moveTo w (if acked then .committing d else .publishing d result),
      [.published w d result s.now acked])
  | .notifying d token, .notify acked =>
    some (s.moveTo w (if acked then .routed d token else .notifying d token), [.notified w d acked])
  | .routed d token, .route => some (svc.completeStep s w d token none (.committing d))
  | .committing d, .commit => some ((s.moveTo w .idle).register w none, [.committed w d])
  | _, .stop => some (s.moveTo w .stopped, [.stopped w])
  | _, _ => none

/-- `_release_claim`: the registered claim is dropped, and released unless its tool may have run. -/
def releaseClaim (s : EffectorState) (w : ℕ) : EffectorState × List EffectorEvent :=
  match s.claims w with
  | none => (s, [])
  | some claim =>
    let s := s.register w none
    if claim.executing then (s, [])
    else
      let (records, _) := InMemoryDedupStore.release s.records s.now claim.intentId claim.token
      ({ s with records := records },
        (InMemoryDedupStore.releaseMarks s.records s.now claim.intentId claim.token).map .store)

/-- One step of the effector. -/
def perform (s : EffectorState) : EffectorAct → Option (EffectorState × List EffectorEvent)
  | .tick ms => some ({ s with now := s.now + ms }, [])
  | .work w a => if s.turn = none ∨ s.turn = some w then svc.work py s w a else none
  | .release w => if s.turn = none then some (releaseClaim s w) else none

/-- The effector as a machine. -/
def machine : Machine EffectorState EffectorAct EffectorEvent where
  step s a s' es := svc.perform py s a = some (s', es)

end EffectorService

end BeamAgents
