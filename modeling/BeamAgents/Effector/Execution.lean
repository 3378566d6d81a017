import BeamAgents.Effector.Runner
import BeamAgents.Observability.Traces
import Mathlib.Data.List.Count
import Mathlib.Tactic.SplitIfs

/-!
# The execution of one intent

`_execute_intent` of `effector/runner.py` with everything that it calls: the lookup of the tool, the
decoding of the arguments, their validation, the call under the timeout, and the encoding of what it
returned, each of which may raise. The exceptions that one layer raises reach the `except` clauses
of another: a refusal that the callable itself raises is taken for one of the runner's, and what is
raised between the last refusal and the call is reported as if the callable had run.

## Main definitions

* `Raised`: an exception as the `except` clauses tell it apart.
* `CallableTool`, `Executor`, `Executor.executeIntent`.
* `Execution.Honest`: one result or the cancellation, at most one invocation, and `REJECTED` exactly
  when there was none.
* `Executor.behaves`: what the layers may raise.

## Main results

* `Executor.executeIntent_honest_iff`.
* `Executor.executeIntent_coarse`: the runner that the service is modelled over answers as the
  execution does.
-/

namespace BeamAgents

/-! ### Exceptions -/

/-- What `str` makes of an exception: a text, one with lone surrogates, which no result takes, or an
exception of its own. -/
inductive ExnText
  | text (s : String)
  | surrogates
  | raises
  deriving DecidableEq, Repr

/-- A result takes the text. -/
def ExnText.encodes : ExnText → Bool
  | .text _ => true
  | .surrogates | .raises => false

/-- An exception, or the cancellation, with the classes that the `except` clauses ask for; it may be
of several. -/
structure Raised where
  typeName : String
  text : ExnText
  /-- `ReadOnlyToolError` or `ToolArgumentError`. -/
  refusal : Bool := false
  /-- `TimeoutError`. -/
  timeout : Bool := false
  /-- `asyncio.CancelledError`. -/
  cancelled : Bool := false
  /-- `TypeError` or `ValueError`. -/
  unencodable : Bool := false
  deriving DecidableEq, Repr

/-- How `model_validate` fails: with a `ValidationError`, with one whose text has lone surrogates,
or with an exception of a validator. -/
inductive ValidationFailure
  | invalid (text : String)
  | unencodable
  | raised (exn : Raised)
  deriving DecidableEq, Repr

/-- What `json.loads` makes of `args_json`. An exception that is no `JSONDecodeError` is that of a
text nested too deep, or of a number with too many digits. -/
inductive LoadsEnd (Json : Type)
  | object (arguments : Json)
  | other (typeName : String)
  | decodeError (text : String)
  | raises

/-- How the wait for the callable ends: before the callable was invoked, or after it. -/
inductive Awaited (Value : Type)
  | notStarted (exn : Raised)
  | started (outcome : Except Raised Value)

/-! ### The execution -/

/-- `IntentInfo`. -/
structure IntentInfo where
  intentId : String
  entityKey : Bytes
  seq : ℕ
  stepIndex : ℕ
  attempt : ℕ
  deriving DecidableEq, Repr

/-- A registered `Tool`, with its argument model and its callable. -/
structure CallableTool (Json Model Kwargs Value : Type) where
  sideEffect : Bool
  acceptsIntent : Bool := false
  validate : Json → Except ValidationFailure Model
  modelDump : Model → Except Raised Kwargs
  /-- `_invoke`. A callable on a thread may be given up before the thread gets to it. -/
  call : Kwargs → Option IntentInfo → Awaited Value

/-- The runner, its registry, and the JSON library. -/
structure Executor (Json Model Kwargs Value : Type) where
  toolTimeoutMs : Int
  registry : String → Option (CallableTool Json Model Kwargs Value)
  loads : String → LoadsEnd Json
  dumps : Value → Except Raised Bytes

/-- What an observer of the execution sees: the callback, and the invocation of the callable. -/
inductive ExecEvent
  | onInvoke
  | invoke
  deriving DecidableEq, Repr

/-- How `_execute_intent` ends. -/
inductive ExecEnd
  | result (r : ToolResult)
  | cancelled
  | escaped
  deriving DecidableEq, Repr

/-- An execution: its events in order, and how it ends. -/
structure Execution where
  events : List ExecEvent
  outcome : ExecEnd
  deriving DecidableEq, Repr

/-- A result with the text of an exception in its message, if it takes it. -/
def reportedResult (intent : ToolIntent) (status : ResultStatus) (nowMs : Int)
    (message : String → String) : ExnText → ExecEnd
  | .text s => .result (intentResult intent status nowMs [] (message s))
  | .surrogates | .raises => .escaped

/-- The `TimeoutError` of `asyncio.wait_for`. -/
def timeoutError : Raised := { typeName := "TimeoutError", text := .text "", timeout := true }

/-- `asyncio.wait_for`: without time to wait, the call is given up before its first step. -/
def waitFor {Value : Type} (timeoutMs : Int) (awaited : Awaited Value) : Awaited Value :=
  if timeoutMs ≤ 0 then .notStarted timeoutError else awaited

namespace Executor

variable {Json Model Kwargs Value : Type} (x : Executor Json Model Kwargs Value) (py : PyLib)

/-- The refusals of the runner. -/
def refused (typeName text : String) : Raised :=
  { typeName := typeName, text := .text text, refusal := true }

/-- The `ToolArgumentError` over a text with lone surrogates. -/
def refusedUnencodable : Raised :=
  { typeName := "ToolArgumentError", text := .surrogates, refusal := true }

/-- `EffectorToolRunner.run`. -/
def run (name : String) (tool : CallableTool Json Model Kwargs Value) (arguments : Json)
    (info : Option IntentInfo) : List ExecEvent × Except Raised Value :=
  if !tool.sideEffect then
    ([], .error (refused "ReadOnlyToolError" (EffectorToolRunner.readOnlyError py name)))
  else
    match tool.validate arguments with
    | .error (.invalid text) =>
      ([], .error (refused "ToolArgumentError" (EffectorToolRunner.argumentError py name text)))
    | .error .unencodable => ([], .error refusedUnencodable)
    | .error (.raised exn) => ([], .error exn)
    | .ok validated =>
      match tool.modelDump validated with
      | .error exn => ([.onInvoke], .error exn)
      | .ok kwargs =>
        match waitFor x.toolTimeoutMs (tool.call kwargs info) with
        | .notStarted exn => ([.onInvoke], .error exn)
        | .started outcome => ([.onInvoke, .invoke], outcome)

/-- The `except` clauses around the run, in order. -/
def handle (intent : ToolIntent) (nowMs : Int) (exn : Raised) : ExecEnd :=
  if exn.refusal then reportedResult intent .rejected nowMs id exn.text
  else if exn.timeout then
    .result (intentResult intent .error nowMs []
      (s!"tool {py.reprStr intent.toolName} timed out after " ++
        s!"{x.toolTimeoutMs}ms; its effect is unknown"))
  else if exn.cancelled then .cancelled
  else reportedResult intent .error nowMs (fun text => s!"{exn.typeName}: {text}") exn.text

/-- `_encode_result`. -/
def encodeResult (intent : ToolIntent) (value : Value) (nowMs : Int) : ExecEnd :=
  match x.dumps value with
  | .ok payload => .result (intentResult intent .ok nowMs payload)
  | .error exn =>
    if exn.unencodable then
      reportedResult intent .error nowMs (fun text =>
        s!"tool {py.reprStr intent.toolName} succeeded but its return value could not be " ++
          s!"encoded: {exn.typeName}: {text}") exn.text
    else if exn.cancelled then .cancelled
    else .escaped

/-- The identity that a tool which asks for it is handed. -/
def intentInfo (tool : CallableTool Json Model Kwargs Value) (intent : ToolIntent) :
    Option IntentInfo :=
  if tool.acceptsIntent then
    some ⟨intent.intentId, intent.entityKey, intent.seq, intent.stepIndex, intent.attempt⟩
  else none

/-- `_execute_intent`. -/
def executeIntent (intent : ToolIntent) (nowMs : Int) : Execution :=
  let rejected (message : String) : Execution :=
    ⟨[], .result (intentResult intent .rejected nowMs [] message)⟩
  match x.registry intent.toolName with
  | none => rejected s!"no tool registered under name {py.reprStr intent.toolName}"
  | some tool =>
    match x.loads intent.argsJson with
    | .raises => ⟨[], .escaped⟩
    | .decodeError text => rejected text
    | .other typeName =>
      rejected (EffectorToolRunner.argumentError py intent.toolName
        s!"args_json must decode to a JSON object, got {typeName}")
    | .object arguments =>
      match x.run py intent.toolName tool arguments (intentInfo tool intent) with
      | (events, .error exn) => ⟨events, x.handle py intent nowMs exn⟩
      | (events, .ok value) => ⟨events, x.encodeResult py intent value nowMs⟩

end Executor

/-! ### Honest executions -/

/-- The execution ends with one result or with the cancellation, the callable is invoked at most
once, and the status is `REJECTED` exactly when it was not. -/
structure Execution.Honest (e : Execution) : Prop where
  total : e.outcome ≠ .escaped
  once : e.events.count .invoke ≤ 1
  status : ∀ r, e.outcome = .result r → (r.status = .rejected ↔ .invoke ∉ e.events)

/-- Raised before the callable is invoked: a refusal with a text that a result takes, or the
cancellation. -/
def Raised.refuses (exn : Raised) : Bool :=
  if exn.refusal then exn.text.encodes else !exn.timeout && exn.cancelled

/-- Raised by the callable: no refusal; and the timeout, the cancellation, or an exception with a
text that a result takes. -/
def Raised.fails (exn : Raised) : Bool :=
  !exn.refusal && (exn.timeout || exn.cancelled || exn.text.encodes)

/-- Raised by the encoding of a value: a `TypeError` or a `ValueError` with a text that a result
takes. -/
def Raised.unencoded (exn : Raised) : Bool :=
  if exn.unencodable then exn.text.encodes else exn.cancelled

/-- What the layers of a tool may raise. -/
def CallableTool.behaves {Json Model Kwargs Value : Type}
    (tool : CallableTool Json Model Kwargs Value) (timeoutMs : Int)
    (dumps : Value → Except Raised Bytes) (arguments : Json) (info : Option IntentInfo) : Bool :=
  match tool.validate arguments with
  | .error (.invalid _) => true
  | .error .unencodable => false
  | .error (.raised exn) => exn.refuses
  | .ok validated =>
    match tool.modelDump validated with
    | .error exn => exn.refuses
    | .ok kwargs =>
      match waitFor timeoutMs (tool.call kwargs info) with
      | .notStarted exn => exn.refuses
      | .started (.error exn) => exn.fails
      | .started (.ok value) =>
        match dumps value with
        | .ok _ => true
        | .error exn => exn.unencoded

namespace Executor

variable {Json Model Kwargs Value : Type} {x : Executor Json Model Kwargs Value} {py : PyLib}
  {intent : ToolIntent} {nowMs : Int} {exn : Raised} {events : List ExecEvent} {outcome : ExecEnd}

/-- What the layers may raise on an intent. -/
def behaves (x : Executor Json Model Kwargs Value) (intent : ToolIntent) : Bool :=
  match x.registry intent.toolName with
  | none => true
  | some tool =>
    match x.loads intent.argsJson with
    | .raises => false
    | .decodeError _ | .other _ => true
    | .object arguments =>
      !tool.sideEffect ||
        tool.behaves x.toolTimeoutMs x.dumps arguments (intentInfo tool intent)

/-- An outcome with a status that `P` admits, if it is a result. -/
def Ends (P : ResultStatus → Prop) (outcome : ExecEnd) : Prop :=
  outcome ≠ .escaped ∧ ∀ r, outcome = .result r → P r.status

theorem ends_result {P : ResultStatus → Prop} {r : ToolResult} :
    Ends P (.result r) ↔ P r.status := by
  simp [Ends]

theorem ends_cancelled {P : ResultStatus → Prop} : Ends P .cancelled := by simp [Ends]

theorem not_ends_escaped {P : ResultStatus → Prop} : ¬ Ends P .escaped := by simp [Ends]

theorem ends_reported {P : ResultStatus → Prop} {status : ResultStatus} {message : String → String}
    {text : ExnText} (h : P status) :
    Ends P (reportedResult intent status nowMs message text) ↔ text.encodes = true := by
  cases text with
  | text s => exact iff_of_true (ends_result.mpr h) rfl
  | surrogates | raises => exact iff_of_false not_ends_escaped Bool.false_ne_true

theorem not_ends_reported {P : ResultStatus → Prop} {status : ResultStatus}
    {message : String → String} {text : ExnText} (h : ¬ P status) :
    ¬ Ends P (reportedResult intent status nowMs message text) := by
  cases text with
  | text s => exact fun hends => h (ends_result.mp hends)
  | surrogates | raises => exact not_ends_escaped

/-- Without an invocation, an execution is honest when it rejects or is cancelled. -/
theorem honest_before (hevents : .invoke ∉ events) :
    (⟨events, outcome⟩ : Execution).Honest ↔ Ends (· = .rejected) outcome := by
  constructor
  · rintro ⟨htotal, -, hstatus⟩
    exact ⟨htotal, fun r hr => (hstatus r hr).mpr hevents⟩
  · rintro ⟨htotal, hstatus⟩
    refine ⟨htotal, ?_, fun r hr => iff_of_true (hstatus r hr) hevents⟩
    rw [List.count_eq_zero_of_not_mem hevents]
    exact Nat.zero_le 1

/-- After an invocation, an execution is honest when it does anything but reject. -/
theorem honest_after :
    (⟨[.onInvoke, .invoke], outcome⟩ : Execution).Honest ↔ Ends (· ≠ .rejected) outcome := by
  have hinvoked : ExecEvent.invoke ∈ [ExecEvent.onInvoke, ExecEvent.invoke] := by decide
  constructor
  · rintro ⟨htotal, -, hstatus⟩
    exact ⟨htotal, fun r hr hrejected => (hstatus r hr).mp hrejected hinvoked⟩
  · rintro ⟨htotal, hstatus⟩
    exact ⟨htotal, le_of_eq rfl, fun r hr =>
      iff_of_false (hstatus r hr) fun hnot => hnot hinvoked⟩

/-- What is raised before the invocation is rejected exactly when it refuses. -/
theorem handle_before :
    Ends (· = .rejected) (x.handle py intent nowMs exn) ↔ exn.refuses = true := by
  unfold handle Raised.refuses
  split_ifs with hrefusal htimeout hcancelled
  · exact ends_reported rfl
  · simp [ends_result, intentResult, htimeout]
  · simp [ends_cancelled, htimeout, hcancelled]
  · refine iff_of_false (not_ends_reported (by decide)) ?_
    simp [hcancelled]

/-- What the callable raises is reported, and not as a rejection, exactly when it fails. -/
theorem handle_after :
    Ends (· ≠ .rejected) (x.handle py intent nowMs exn) ↔ exn.fails = true := by
  unfold handle Raised.fails
  split_ifs with hrefusal htimeout hcancelled
  · exact iff_of_false (not_ends_reported (by simp)) (by simp [hrefusal])
  · simp [ends_result, intentResult, hrefusal, htimeout]
  · simp [ends_cancelled, hrefusal, hcancelled]
  · rw [ends_reported (by decide)]
    simp [hrefusal, htimeout, hcancelled]

/-- A value is reported, or that it could not be encoded. -/
theorem encodeResult_ends (value : Value) :
    Ends (· ≠ .rejected) (x.encodeResult py intent value nowMs) ↔
      (match x.dumps value with
        | .ok _ => true
        | .error exn => exn.unencoded) = true := by
  unfold encodeResult
  split
  · simp [ends_result, intentResult]
  · unfold Raised.unencoded
    split_ifs with hunencodable hcancelled
    · exact ends_reported (by decide)
    · simp [ends_cancelled, hcancelled]
    · exact iff_of_false not_ends_escaped (by simp [hcancelled])

/-- A run is honest when the layers of its tool behave. -/
theorem run_honest_iff {tool : CallableTool Json Model Kwargs Value} {arguments : Json} :
    (match x.run py intent.toolName tool arguments (intentInfo tool intent) with
      | (events, .error exn) => (⟨events, x.handle py intent nowMs exn⟩ : Execution)
      | (events, .ok value) => ⟨events, x.encodeResult py intent value nowMs⟩).Honest ↔
      (!tool.sideEffect ||
        tool.behaves x.toolTimeoutMs x.dumps arguments (intentInfo tool intent)) = true := by
  have hnone : ExecEvent.invoke ∉ ([] : List ExecEvent) := List.not_mem_nil
  have hcalled : ExecEvent.invoke ∉ [ExecEvent.onInvoke] := by decide
  unfold run CallableTool.behaves
  cases tool.sideEffect with
  | false =>
    refine iff_of_true ((honest_before hnone).mpr ?_) rfl
    exact handle_before.mpr rfl
  | true =>
    simp only [Bool.not_true, Bool.false_eq_true, if_false, Bool.false_or]
    cases tool.validate arguments with
    | error failure =>
      cases failure with
      | invalid text => exact iff_of_true ((honest_before hnone).mpr (handle_before.mpr rfl)) rfl
      | unencodable => exact (honest_before hnone).trans handle_before
      | raised exn => exact (honest_before hnone).trans handle_before
    | ok validated =>
      dsimp only
      cases tool.modelDump validated with
      | error exn => exact (honest_before hcalled).trans handle_before
      | ok kwargs =>
        dsimp only
        cases waitFor x.toolTimeoutMs (tool.call kwargs (intentInfo tool intent)) with
        | notStarted exn => exact (honest_before hcalled).trans handle_before
        | started outcome =>
          cases outcome with
          | error exn => exact honest_after.trans handle_after
          | ok value => exact honest_after.trans (encodeResult_ends value)

/-- **Executions are honest exactly when the layers behave.** For every intent, registry, tool and
timeout, and whatever the layers do: the execution comes to one result, or to the cancellation,
invokes the callable at most once, and reports `REJECTED` exactly when it did not, if and only if
the decoding raises nothing but `JSONDecodeError`, what is raised before the callable is invoked is
a refusal or the cancellation, what the callable raises is no refusal, what the encoding of the
value raises is a `TypeError` or a `ValueError`, and the text of what is reported has no lone
surrogates. -/
theorem executeIntent_honest_iff (x : Executor Json Model Kwargs Value) (py : PyLib)
    (intent : ToolIntent) (nowMs : Int) :
    (x.executeIntent py intent nowMs).Honest ↔ x.behaves intent = true := by
  have hnone : ExecEvent.invoke ∉ ([] : List ExecEvent) := List.not_mem_nil
  have hrejected (message : String) : (⟨[], .result
      (intentResult intent .rejected nowMs [] message)⟩ : Execution).Honest :=
    (honest_before hnone).mpr (ends_result.mpr rfl)
  unfold executeIntent behaves
  cases x.registry intent.toolName with
  | none => exact iff_of_true (hrejected _) rfl
  | some tool =>
    dsimp only
    cases x.loads intent.argsJson with
    | raises =>
      exact iff_of_false (fun h => not_ends_escaped ((honest_before hnone).mp h)) Bool.false_ne_true
    | decodeError text => exact iff_of_true (hrejected _) rfl
    | other typeName => exact iff_of_true (hrejected _) rfl
    | object arguments => exact run_honest_iff

end Executor

/-! ### The runner that the service is modelled over -/

/-- What a result shows of an exception, if it takes its text. -/
def Raised.shown (exn : Raised) : Option ToolExn :=
  match exn.text with
  | .text s => some ⟨exn.typeName, s⟩
  | .surrogates | .raises => none

theorem Raised.typeName_shown {exn : Raised} {shown : ToolExn} (h : exn.shown = some shown) :
    shown.typeName = exn.typeName := by
  unfold Raised.shown at h
  split at h <;> cases h
  rfl

namespace Executor

variable {Json Model Kwargs Value : Type} (x : Executor Json Model Kwargs Value)

/-- How an invocation ends that raises, as the `except` clauses tell it. -/
def raisedEnd (exn : Raised) : ToolEnd :=
  if exn.timeout && !exn.refusal then .timedOut
  else if exn.cancelled && !exn.refusal then .escapes
  else
    match exn.shown with
    | none => .escapes
    | some shown => if exn.refusal then .refused shown.text else .raised shown

/-- How an invocation ends. -/
def toolEnd : Except Raised Value → ToolEnd
  | .error exn => raisedEnd exn
  | .ok value =>
    match x.dumps value with
    | .ok payload => .returned payload
    | .error exn =>
      match exn.shown with
      | none => .escapes
      | some shown => if exn.unencodable then .unencodable shown else .escapes

/-- The tool with its layers up to the validation, and with the end of its call. -/
def coarseTool (py : PyLib) (tool : CallableTool Json Model Kwargs Value) : EffectorTool where
  sideEffect := tool.sideEffect
  validate argsJson :=
    match x.loads argsJson with
    | .object arguments =>
      match tool.validate arguments with
      | .ok _ => .valid
      | .error (.invalid text) => .invalid text
      | .error .unencodable => .escapes
      | .error (.raised exn) => (exn.shown.map Validation.raises).getD .escapes
    | .other _ | .decodeError _ | .raises => .valid
  ends intent toolEnd :=
    match x.loads intent.argsJson with
    | .object arguments =>
      toolEnd = x.toolEnd (x.run py intent.toolName tool arguments (intentInfo tool intent)).2
    | .other _ | .decodeError _ | .raises => false

/-- The runner whose admission ends where the callback fires. -/
def coarse (py : PyLib) : EffectorToolRunner where
  toolTimeoutMs := x.toolTimeoutMs.toNat
  registry name := (x.registry name).map (x.coarseTool py)
  loads text :=
    match x.loads text with
    | .object _ => .object
    | .other typeName => .other typeName
    | .decodeError text => .decodeError text
    | .raises => .raises

variable {x} {py : PyLib} {intent : ToolIntent} {nowMs : Int} {exn : Raised}

/-- A result with the text of an exception is what is shown of it. -/
theorem reportedResult_iff {status : ResultStatus} {message : String → String} {r : ToolResult} :
    reportedResult intent status nowMs message exn.text = .result r ↔
      ∃ shown, exn.shown = some shown ∧
        intentResult intent status nowMs [] (message shown.text) = r := by
  unfold reportedResult Raised.shown
  cases exn.text <;> simp

/-- What is reported of an exception is the result of the end of the invocation. -/
theorem handle_coarse (htimeout : 0 ≤ x.toolTimeoutMs) {r : ToolResult} :
    x.handle py intent nowMs exn = .result r ↔
      (x.coarse py).invocationResult py intent nowMs (raisedEnd exn) = some r := by
  have hms : toString (x.coarse py).toolTimeoutMs = toString x.toolTimeoutMs := by
    obtain ⟨n, hn⟩ := Int.eq_ofNat_of_zero_le htimeout
    rw [coarse, hn]
    rfl
  unfold handle raisedEnd
  cases hrefusal : exn.refusal with
  | true =>
    simp only [if_true, Bool.not_true, Bool.and_false, Bool.false_eq_true, if_false]
    rw [reportedResult_iff]
    cases exn.shown <;> simp [EffectorToolRunner.invocationResult]
  | false =>
    simp only [Bool.false_eq_true, if_false, Bool.not_false, Bool.and_true]
    split_ifs
    · simp [EffectorToolRunner.invocationResult, hms]
    · simp [EffectorToolRunner.invocationResult]
    · rw [reportedResult_iff]
      cases hshown : exn.shown with
      | none => simp [EffectorToolRunner.invocationResult]
      | some shown =>
        simp [EffectorToolRunner.invocationResult, Raised.typeName_shown hshown]

theorem encodeResult_coarse {value : Value} {r : ToolResult} :
    x.encodeResult py intent value nowMs = .result r ↔
      (x.coarse py).invocationResult py intent nowMs (x.toolEnd (.ok value)) = some r := by
  cases hdumps : x.dumps value with
  | ok payload => simp [encodeResult, toolEnd, hdumps, EffectorToolRunner.invocationResult]
  | error exn =>
    simp only [encodeResult, toolEnd, hdumps]
    cases hunencodable : exn.unencodable with
    | true =>
      rw [if_pos rfl, reportedResult_iff]
      cases hshown : exn.shown with
      | none => simp [EffectorToolRunner.invocationResult]
      | some shown =>
        simp [EffectorToolRunner.invocationResult, Raised.typeName_shown hshown]
    | false =>
      simp only [Bool.false_eq_true, if_false]
      cases exn.shown <;> split_ifs <;> simp [EffectorToolRunner.invocationResult]

/-- **The runner that the service is modelled over answers as the execution does**, as long as
validators raise nothing but what the argument model turns into a `ValidationError`: what it answers
without an invocation is the outcome of the execution, and once the callback has fired the execution
has a result exactly when the end of the invocation has it. -/
theorem executeIntent_coarse (htimeout : 0 ≤ x.toolTimeoutMs)
    (hvalidate : ∀ tool ∈ x.registry intent.toolName, ∀ arguments exn,
      tool.validate arguments ≠ .error (.raised exn)) :
    match (x.coarse py).admission py intent nowMs with
    | .answered r => x.executeIntent py intent nowMs = ⟨[], .result r⟩
    | .escapes => x.executeIntent py intent nowMs = ⟨[], .escaped⟩
    | .invoke => .onInvoke ∈ (x.executeIntent py intent nowMs).events ∧
        ∃ toolEnd, (x.coarse py).mayEnd intent toolEnd = true ∧
          ∀ r, (x.executeIntent py intent nowMs).outcome = .result r ↔
            (x.coarse py).invocationResult py intent nowMs toolEnd = some r := by
  cases htool : x.registry intent.toolName with
  | none => simp only [EffectorToolRunner.admission, executeIntent, coarse, htool, Option.map_none]
  | some tool =>
    cases hloads : x.loads intent.argsJson with
    | raises | decodeError text | other typeName =>
      simp only [EffectorToolRunner.admission, executeIntent, coarse, htool, hloads,
        Option.map_some]
    | object arguments =>
      -- How the invocation ends, once the run has come to it.
      have hends {events : List ExecEvent} {outcome : Except Raised Value}
          (hrun : x.run py intent.toolName tool arguments (intentInfo tool intent) =
            (events, outcome)) (hevent : .onInvoke ∈ events) :
          .onInvoke ∈ (x.executeIntent py intent nowMs).events ∧
            ∃ toolEnd, (x.coarse py).mayEnd intent toolEnd = true ∧
              ∀ r, (x.executeIntent py intent nowMs).outcome = .result r ↔
                (x.coarse py).invocationResult py intent nowMs toolEnd = some r := by
        have hmay : (x.coarse py).mayEnd intent (x.toolEnd outcome) = true := by
          unfold EffectorToolRunner.mayEnd
          split
          · rfl
          · simp [coarse, htool, coarseTool, hloads, hrun]
        cases outcome with
        | error exn =>
          have hexec :
              x.executeIntent py intent nowMs = ⟨events, x.handle py intent nowMs exn⟩ := by
            simp only [executeIntent, htool, hloads, hrun]
          rw [hexec]
          exact ⟨hevent, _, hmay, fun r => handle_coarse htimeout⟩
        | ok value =>
          have hexec : x.executeIntent py intent nowMs =
              ⟨events, x.encodeResult py intent value nowMs⟩ := by
            simp only [executeIntent, htool, hloads, hrun]
          rw [hexec]
          exact ⟨hevent, _, hmay, fun r => encodeResult_coarse⟩
      cases hside : tool.sideEffect with
      | false =>
        have hadmission : (x.coarse py).admission py intent nowMs =
            .answered (intentResult intent .rejected nowMs []
              (EffectorToolRunner.readOnlyError py intent.toolName)) := by
          simp [EffectorToolRunner.admission, coarse, htool, hloads, coarseTool, hside]
        rw [hadmission]
        simp [executeIntent, htool, hloads, run, hside, handle, refused, reportedResult]
      | true =>
        cases hmodel : tool.validate arguments with
        | error failure =>
          cases failure with
          | invalid text =>
            have hadmission : (x.coarse py).admission py intent nowMs =
                .answered (intentResult intent .rejected nowMs []
                  (EffectorToolRunner.argumentError py intent.toolName text)) := by
              simp [EffectorToolRunner.admission, coarse, htool, hloads, coarseTool, hside, hmodel]
            rw [hadmission]
            simp [executeIntent, htool, hloads, run, hside, hmodel, handle, refused, reportedResult]
          | unencodable =>
            have hadmission : (x.coarse py).admission py intent nowMs = .escapes := by
              simp [EffectorToolRunner.admission, coarse, htool, hloads, coarseTool, hside, hmodel]
            rw [hadmission]
            simp [executeIntent, htool, hloads, run, hside, hmodel, handle, refusedUnencodable,
              reportedResult]
          | raised exn => exact absurd hmodel (hvalidate tool htool arguments exn)
        | ok validated =>
          have hadmission : (x.coarse py).admission py intent nowMs = .invoke := by
            simp [EffectorToolRunner.admission, coarse, htool, hloads, coarseTool, hside, hmodel]
          rw [hadmission]
          cases hdump : tool.modelDump validated with
          | error exn =>
            exact hends (by simp only [run, hside, hmodel, hdump]; rfl) (List.mem_singleton_self _)
          | ok kwargs =>
            cases hwait : waitFor x.toolTimeoutMs (tool.call kwargs (intentInfo tool intent)) with
            | notStarted exn =>
              exact hends (by simp only [run, hside, hmodel, hdump, hwait]; rfl)
                (List.mem_singleton_self _)
            | started outcome =>
              exact hends (by simp only [run, hside, hmodel, hdump, hwait]; rfl) List.mem_cons_self

end Executor

/-! ### A tool that raises a refusal -/

/-- A tool that performs its effect, and then raises the error that the runner raises for arguments
that do not validate. -/
def misleadingTool : CallableTool Unit Unit Unit Unit where
  sideEffect := true
  validate := .ok
  modelDump := .ok
  call _ _ := .started (.error (Executor.refused "ToolArgumentError"
    "invalid arguments for tool 'charge': amount"))

/-- The executor of that tool. -/
def misleadingExecutor : Executor Unit Unit Unit Unit where
  toolTimeoutMs := 1000
  registry name := if name = "charge" then some misleadingTool else none
  loads text := if text = "{}" then .object () else .decodeError "Expecting value"
  dumps _ := .ok []

/-- The intent is reported as rejected, although the callable ran. -/
theorem misleading_rejected : ¬ (misleadingExecutor.executeIntent (.ofTable [])
    { intentId := "i", toolName := "charge", argsJson := "{}" } 0).Honest := by
  intro h
  have hinvoked : ExecEvent.invoke ∈ [ExecEvent.onInvoke, ExecEvent.invoke] := by decide
  exact (h.status _ rfl).mp rfl hinvoked

end BeamAgents
