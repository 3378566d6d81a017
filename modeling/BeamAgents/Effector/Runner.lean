import BeamAgents.Core.Policies

/-!
# Executing side-effecting tools

`effector/runner.py`: the mapping of every way in which an intent can be executed to a `ToolResult`.
`_execute_intent` is cut at the invocation of the callable: `admission` is what comes before it, and
`invocationResult` what comes after it. What `json.loads`, the argument models and the callables do
is left open.

## Main definitions

* `EffectorTool`, `Loads`, `Validation`, `ToolEnd`.
* `EffectorToolRunner` with `admission`, `mayEnd`, `invocationResult` and `Reports`.

## Main results

* `EffectorToolRunner.admission_answered`, `EffectorToolRunner.invocationResult_spec`: a result
  answers its intent, and never with `EXPIRED`.
* `EffectorToolRunner.Reports.quiet`: where the execution reports a result, nothing escapes.
-/

namespace BeamAgents

/-- An exception as a result reports it: the name of its type, and `str` of it. -/
structure ToolExn where
  typeName : String
  text : String
  deriving DecidableEq, Repr

/-- What `json.loads` makes of `args_json`: a JSON object, another value with the name of its type,
a `JSONDecodeError`, or an exception that nothing catches. -/
inductive Loads
  | object
  | other (typeName : String)
  | decodeError (text : String)
  | raises
  deriving DecidableEq, Repr

/-- What `model_validate` makes of the arguments: they are valid, a `ValidationError`, another
exception, or one whose text no result takes. -/
inductive Validation
  | valid
  | invalid (text : String)
  | raises (exn : ToolExn)
  | escapes
  deriving DecidableEq, Repr

/-- How an invoked callable ends: with a value and its encoding, with a value that `json.dumps` does
not take, with an exception of the caller's own refusals (`ReadOnlyToolError`,
`ToolArgumentError`), with another exception, or with the timeout. `_execute_intent` lets through an
exception of `json.dumps` that is no `TypeError` or `ValueError` (the `RecursionError` of a value
nested too deep), a cancellation that the callable raises, and the error over a text that no result
takes. -/
inductive ToolEnd
  | returned (payload : Bytes)
  | unencodable (exn : ToolExn)
  | refused (text : String)
  | raised (exn : ToolExn)
  | timedOut
  | escapes
  deriving DecidableEq, Repr

/-- A registered tool, as far as the effector looks at it. -/
structure EffectorTool where
  sideEffect : Bool
  /-- The validation of the object that an `args_json` decodes to. -/
  validate : String → Validation
  /-- How the callable may end for an intent, before the timeout. -/
  ends : ToolIntent → ToolEnd → Bool := fun _ _ => true

/-- How `_execute_intent` gets to the invocation of the callable, or ends without it. -/
inductive Admission
  | invoke
  | answered (result : ToolResult)
  | escapes
  deriving DecidableEq, Repr

/-- The runner with its registry. -/
structure EffectorToolRunner where
  toolTimeoutMs : ℕ
  registry : String → Option EffectorTool := fun _ => none
  loads : String → Loads := fun _ => .object

/-- `_result`. -/
def intentResult (intent : ToolIntent) (status : ResultStatus) (nowMs : Int)
    (payload : Bytes := []) (errorMessage : String := "") : ToolResult where
  intentId := intent.intentId
  entityKey := intent.entityKey
  seq := intent.seq
  status := status
  payload := payload
  errorMessage := errorMessage
  completedAtMs := nowMs

namespace EffectorToolRunner

variable (runner : EffectorToolRunner) (py : PyLib)

/-- `str` of a `ToolArgumentError`. -/
def argumentError (name reason : String) : String :=
  s!"invalid arguments for tool {py.reprStr name}: {reason}"

/-- `str` of a `ReadOnlyToolError`. -/
def readOnlyError (name : String) : String :=
  s!"tool {py.reprStr name} is read-only (side_effect=False) and must run inline in the " ++
    "pipeline, not in the effector"

/-- `_execute_intent` and `EffectorToolRunner.run` up to `on_invoke`. -/
def admission (intent : ToolIntent) (nowMs : Int) : Admission :=
  let rejected (message : String) : Admission :=
    .answered (intentResult intent .rejected nowMs [] message)
  match runner.registry intent.toolName with
  | none => rejected s!"no tool registered under name {py.reprStr intent.toolName}"
  | some tool =>
    match runner.loads intent.argsJson with
    | .raises => .escapes
    | .decodeError text => rejected text
    | .other typeName =>
      rejected (argumentError py intent.toolName
        s!"args_json must decode to a JSON object, got {typeName}")
    | .object =>
      if !tool.sideEffect then rejected (readOnlyError py intent.toolName)
      else
        match tool.validate intent.argsJson with
        | .valid => .invoke
        | .invalid text => rejected (argumentError py intent.toolName text)
        | .raises exn =>
          .answered (intentResult intent .error nowMs [] s!"{exn.typeName}: {exn.text}")
        | .escapes => .escapes

/-- Whether the call for an intent may end so. The wait for it may always time out. -/
def mayEnd (intent : ToolIntent) : ToolEnd → Bool
  | .timedOut => true
  | toolEnd => (runner.registry intent.toolName).any fun tool => tool.ends intent toolEnd

/-- `_execute_intent` after the callable was invoked, and `_encode_result`; `none` where it
raises. -/
def invocationResult (intent : ToolIntent) (nowMs : Int) : ToolEnd → Option ToolResult
  | .returned payload => some (intentResult intent .ok nowMs payload)
  | .unencodable exn =>
    some (intentResult intent .error nowMs []
      (s!"tool {py.reprStr intent.toolName} succeeded but its return value could not be " ++
        s!"encoded: {exn.typeName}: {exn.text}"))
  | .refused text => some (intentResult intent .rejected nowMs [] text)
  | .raised exn => some (intentResult intent .error nowMs [] s!"{exn.typeName}: {exn.text}")
  | .timedOut =>
    some (intentResult intent .error nowMs []
      (s!"tool {py.reprStr intent.toolName} timed out after " ++
        s!"{runner.toolTimeoutMs}ms; its effect is unknown"))
  | .escapes => none

/-- The execution of an intent reports a result: nothing escapes from `json.loads`, and, where the
execution gets that far, from the validation of the arguments and from the call of the tool. -/
def Reports (intent : ToolIntent) : Prop :=
  ∀ tool, runner.registry intent.toolName = some tool →
    match runner.loads intent.argsJson with
    | .raises => False
    | .object =>
      tool.sideEffect = true →
        match tool.validate intent.argsJson with
        | .escapes => False
        | .valid => tool.ends intent .escapes = false
        | _ => True
    | _ => True

variable {runner py} {intent : ToolIntent} {nowMs : Int}

/-- A result without an invocation answers its intent, with `REJECTED` or `ERROR`. -/
theorem admission_answered {result : ToolResult}
    (h : runner.admission py intent nowMs = .answered result) :
    result.intentId = intent.intentId ∧ (result.status = .rejected ∨ result.status = .error) := by
  unfold admission at h
  split at h
  · cases h
    exact ⟨rfl, .inl rfl⟩
  · split at h
    · cases h
    · cases h
      exact ⟨rfl, .inl rfl⟩
    · cases h
      exact ⟨rfl, .inl rfl⟩
    · split_ifs at h
      · cases h
        exact ⟨rfl, .inl rfl⟩
      · split at h
        · cases h
        · cases h
          exact ⟨rfl, .inl rfl⟩
        · cases h
          exact ⟨rfl, .inr rfl⟩
        · cases h

/-- The result of an invocation answers its intent, with `OK`, `ERROR` or `REJECTED`. -/
theorem invocationResult_spec {toolEnd : ToolEnd} {result : ToolResult}
    (h : runner.invocationResult py intent nowMs toolEnd = some result) :
    result.intentId = intent.intentId ∧ result.status ≠ .expired := by
  cases toolEnd with
  | escapes => cases h
  | returned | unencodable | refused | raised | timedOut =>
    cases h
    exact ⟨rfl, by simp [intentResult]⟩

/-- An invocation leaves no result exactly when its end escapes. -/
theorem invocationResult_eq_none {toolEnd : ToolEnd} :
    runner.invocationResult py intent nowMs toolEnd = none ↔ toolEnd = .escapes := by
  cases toolEnd <;> simp [invocationResult]

/-- Where the execution reports a result, nothing escapes before the invocation or after it. -/
theorem Reports.quiet (h : runner.Reports intent) :
    runner.admission py intent nowMs ≠ .escapes ∧
      (runner.admission py intent nowMs = .invoke → runner.mayEnd intent .escapes = false) := by
  cases hregistry : runner.registry intent.toolName with
  | none => simp [admission, mayEnd, hregistry]
  | some tool =>
    have hreports := h tool hregistry
    cases hloads : runner.loads intent.argsJson with
    | raises =>
      rw [hloads] at hreports
      exact hreports.elim
    | other | decodeError => simp [admission, hregistry, hloads]
    | object =>
      rw [hloads] at hreports
      cases hside : tool.sideEffect with
      | false => simp [admission, hregistry, hloads, hside]
      | true =>
        have hvalidated := hreports hside
        cases hvalidate : tool.validate intent.argsJson with
        | escapes =>
          rw [hvalidate] at hvalidated
          exact hvalidated.elim
        | valid =>
          rw [hvalidate] at hvalidated
          simp [admission, mayEnd, hregistry, hloads, hside, hvalidate, hvalidated]
        | invalid | raises => simp [admission, hregistry, hloads, hside, hvalidate]

end EffectorToolRunner

end BeamAgents
