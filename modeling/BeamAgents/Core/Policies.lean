import BeamAgents.Protos

/-!
# Human-in-the-loop and batching policies

The pure decisions of `hitl.py` and `core/batching.py`: the expiry guard shared by the effector and
the resume admission, the routes of a HITL timeout, and the three predicates by which adaptive
batching buffers and flushes.

## Main definitions

* `intentExpired`, `refuseExpired`: the expiry guard.
* `Route`, `FallbackContext`, `HitlPolicy`: timeout routing. The bounds that
  `HitlPolicy.validate` enforces at construction are fields.
* `BatchSettings`, `bufferIsFull`, `shouldFlushOnSize`, `shouldFlushOnTimer`.
-/

namespace BeamAgents

/-! ### The expiry guard -/

/-- True when `intent` may no longer be executed at `nowMs`. The boundary is inclusive and a
non-positive expiry reads as expired. -/
def intentExpired (intent : ToolIntent) (nowMs : Int) : Bool :=
  intent.expiresAtMs ≤ 0 || intent.expiresAtMs ≤ nowMs

/-- The refusal `ToolResult` for an expired intent, else `none`. -/
def refuseExpired (intent : ToolIntent) (nowMs : Int) : Option ToolResult :=
  if !intentExpired intent nowMs then none
  else some {
    intentId := intent.intentId
    entityKey := intent.entityKey
    seq := intent.seq
    status := .expired
    errorMessage := s!"intent expired at {intent.expiresAtMs}"
    completedAtMs := nowMs }

/-- Expiry only moves one way: an intent expired at some time is expired at every later one. -/
theorem intentExpired_mono {intent : ToolIntent} {now now' : Int} (h : now ≤ now')
    (he : intentExpired intent now) : intentExpired intent now' := by
  simp only [intentExpired, Bool.or_eq_true, decide_eq_true_eq] at he ⊢
  omega

theorem refuseExpired_eq_none_iff {intent : ToolIntent} {now : Int} :
    refuseExpired intent now = none ↔ intentExpired intent now = false := by
  cases h : intentExpired intent now <;> simp [refuseExpired, h]

/-- A refusal answers the intent it refuses, with status `EXPIRED`. -/
theorem refuseExpired_eq_some {intent : ToolIntent} {now : Int} {r : ToolResult}
    (h : refuseExpired intent now = some r) :
    intentExpired intent now = true ∧ r.intentId = intent.intentId ∧ r.status = .expired := by
  cases he : intentExpired intent now with
  | false => simp [refuseExpired, he] at h
  | true =>
    simp only [refuseExpired, he, Bool.not_true, Bool.false_eq_true, ↓reduceIte,
      Option.some.injEq] at h
    exact ⟨rfl, by rw [← h], by rw [← h]⟩

/-! ### Timeout routes -/

/-- `DEFAULT_HITL_TIMEOUT_MS`. -/
def defaultHitlTimeoutMs : Int := 86400000

/-- `DEFAULT_INTENT_TTL_MS`. -/
def defaultIntentTtlMs : Int := 3600000

/-- `DEFAULT_APPROVAL_CHANNEL`. -/
def defaultApprovalChannel : String := "approval"

/-- `HITL_TIMEOUT_OUTPUT`, the bytes of `__hitl_timeout__`. -/
def hitlTimeoutOutput : Bytes :=
  [95, 95, 104, 105, 116, 108, 95, 116, 105, 109, 101, 111, 117, 116, 95, 95]

/-- `REASON_HITL_TIMEOUT`. -/
def reasonHitlTimeout : String := "hitl_timeout"

/-- What a HITL timeout does: `Deny`, `Drop` or `Escalate`. -/
inductive Route
  | deny (output : Bytes := hitlTimeoutOutput)
  | drop (reason : String := reasonHitlTimeout)
  | escalate (toolName : String) (argsJson : String := "{}")
      (timeoutMs : Int := defaultHitlTimeoutMs)
  deriving DecidableEq, Repr

/-- What the HITL policy is handed when a suspension times out. -/
structure FallbackContext where
  entityKey : Bytes := []
  seq : ℕ := 0
  snapshot : Bytes := []
  kind : String := "timer"
  deadlineMs : Int := 0
  firedAtMs : Int := 0
  pendingIntentIds : List String := []
  deriving DecidableEq, Repr

/-- `deny`: the default timeout route. -/
def deny (_fallback : FallbackContext) : Except PyExn Route := .ok (.deny hitlTimeoutOutput)

theorem defaultHitlTimeout_pos : 0 < defaultHitlTimeoutMs := by decide

theorem defaultIntentTtl_pos : 0 < defaultIntentTtlMs := by decide

theorem defaultApprovalChannel_ne : defaultApprovalChannel ≠ "" := by decide

/-- Configuration for suspensions, approvals and timeouts. `onTimeout` is user code and may
raise. -/
structure HitlPolicy where
  timeoutMs : Int := defaultHitlTimeoutMs
  intentTtlMs : Int := defaultIntentTtlMs
  approvalChannel : String := defaultApprovalChannel
  maxEscalations : ℕ := 0
  onTimeout : FallbackContext → Except PyExn Route := deny
  timeout_pos : 0 < timeoutMs := by first | exact defaultHitlTimeout_pos | decide
  intentTtl_pos : 0 < intentTtlMs := by first | exact defaultIntentTtl_pos | decide
  approvalChannel_ne : approvalChannel ≠ "" := by
    first | exact defaultApprovalChannel_ne | decide

/-! ### Adaptive batching -/

/-- The resolved batching bounds of an `ADAPTIVE` pipeline. `resolve_batch_settings` is the only
constructor in the source, and what it checks is carried here. -/
structure BatchSettings where
  maxBatchSize : ℕ
  maxWaitMs : ℕ
  maxBufferedEvents : ℕ
  maxBatchSize_pos : 0 < maxBatchSize
  maxWaitMs_pos : 0 < maxWaitMs
  maxBatchSize_le : maxBatchSize ≤ maxBufferedEvents

/-- `TRIGGER_SIZE`. -/
def triggerSize : String := "size"

/-- `TRIGGER_TIMER`. -/
def triggerTimer : String := "timer"

/-- Whether appending brought the buffer to its inline flush threshold. A live continuation
suppresses the trigger. -/
def shouldFlushOnSize (buffered maxBatchSize : ℕ) (continuationLive : Bool) : Bool :=
  maxBatchSize ≤ buffered && !continuationLive

/-- Whether a `FLUSH_TIMER` delivery should run a flush. -/
def shouldFlushOnTimer (buffered : ℕ) (continuationLive : Bool) : Bool :=
  0 < buffered && !continuationLive

/-- Whether the buffer has reached its hard cap and must shed the next event. -/
def bufferIsFull (buffered maxBufferedEvents : ℕ) : Bool :=
  maxBufferedEvents ≤ buffered

end BeamAgents
