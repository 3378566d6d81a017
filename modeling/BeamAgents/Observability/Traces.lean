import BeamAgents.Core.Policies
import Mathlib.Data.List.Basic
import Mathlib.Logic.Function.Basic
import Mathlib.Logic.Equiv.Basic

/-!
# Deterministic identities and the activation's trace surface

`intent_id_for` of `core/agent.py` and `observability/traces.py`: intents, traces and spans are
named by `uuid5` of a text built from the key, the `seq` and an index, and one activation attempt
stamps its events with the trace of its `(key, seq)` and its own span.

## Main definitions

* `intentIdFor`, `traceIdFor`, `spanIdFor`.
* `ActivationTrace` and its builders.

## Main results

* `intentIdFor_injective`: with an injective `uuid5`, an intent id determines `seq` and step.
* `spanName_injective`: the text that names a span determines `seq`, role and index.
-/

namespace BeamAgents

variable (py : PyLib)

/-! ### Identifiers -/

/-- `_INTENT_NAMESPACE`. -/
def intentNamespace : String := "6f3e9d2a-1c47-5b8e-9a10-2d4f6b8c0e11"

/-- `_TRACE_NAMESPACE`. -/
def traceNamespace : String := "b1d7c4e2-93a6-5f08-8c31-7e5a9d0f2b46"

/-- The text that names an activation step: `f"{entity_key.hex()}|{seq}|{step_index}"`. -/
def intentName (entityKey : Bytes) (seq stepIndex : ℕ) : String :=
  entityKey.hex ++ "|" ++ toString seq ++ "|" ++ toString stepIndex

/-- `intent_id_for`: the deterministic `intent_id` of an activation step. -/
def intentIdFor (entityKey : Bytes) (seq stepIndex : ℕ) : String :=
  (py.uuid5 intentNamespace (intentName entityKey seq stepIndex)).text

/-- `trace_id_for`. -/
def traceIdFor (entityKey : Bytes) (seq : ℕ) : Bytes :=
  (py.uuid5 traceNamespace (entityKey.hex ++ "|" ++ toString seq)).bytes

/-- The text that names a span: `f"{entity_key.hex()}|{seq}|{role}|{index}"`. -/
def spanName (entityKey : Bytes) (seq : ℕ) (role : String) (index : ℕ) : String :=
  entityKey.hex ++ "|" ++ toString seq ++ "|" ++ role ++ "|" ++ toString index

/-- `span_id_for`. -/
def spanIdFor (entityKey : Bytes) (seq : ℕ) (role : String) (index : ℕ) : Bytes :=
  (py.uuid5 traceNamespace
    (entityKey.hex ++ "|" ++ toString seq ++ "|" ++ role ++ "|" ++ toString index)).bytes.take 8

/-- `ROLE_ACTIVATION`. -/
def roleActivation : String := "activation"

/-- `ROLE_TIMER`. -/
def roleTimer : String := "timer"

/-- `role_for_event_type`: the enum name, except that the activation's bracket shares its span. -/
def roleForEventType : EventType → String
  | .activationStart | .activationEnd => roleActivation
  | t => t.name

/-! ### Attributes -/

/-- `TokenUsage`. -/
structure TokenUsage where
  promptTokens : Int := 0
  completionTokens : Int := 0
  totalTokens : Int := 0
  deriving DecidableEq, Repr

/-- `_bool`. -/
def boolText (b : Bool) : String := if b then "true" else "false"

/-- `usage_attributes`: counts that are not known are left out. -/
def usageAttributes (usage : Option TokenUsage) (billed : Bool) : List (String × String) :=
  ("beam_agents.billed", boolText billed) ::
    match usage with
    | none => []
    | some u => [("gen_ai.usage.input_tokens", toString u.promptTokens),
        ("gen_ai.usage.output_tokens", toString u.completionTokens)]

/-- `FailureContext`: where a failed activation was when its agent raised. -/
structure FailureContext where
  stepIndex : ℕ
  lastEvent : String
  stagedIntents : ℕ
  llmCalls : ℕ
  deriving DecidableEq, Repr

/-- `FailureContext.trace_attributes`. -/
def FailureContext.traceAttributes (f : FailureContext) : List (String × String) :=
  [("beam_agents.failure.step", toString f.stepIndex),
    ("beam_agents.failure.last_event", f.lastEvent),
    ("beam_agents.failure.staged_intents", toString f.stagedIntents),
    ("beam_agents.failure.llm_calls", toString f.llmCalls)]

/-- `FailureContext.detail_suffix`. -/
def FailureContext.detailSuffix (f : FailureContext) : String :=
  s!" failed_at_step={f.stepIndex} after={f.lastEvent}"

/-! ### The trace of one attempt -/

/-- One activation attempt's trace surface. -/
structure ActivationTrace where
  entityKey : Bytes
  seq : ℕ
  nowMs : Int
  isResume : Bool
  spanId : Bytes
  parentSpanId : Bytes
  deriving DecidableEq, Repr

namespace ActivationTrace

/-- `ActivationTrace.__init__`. -/
def new (entityKey : Bytes) (seq : ℕ) (nowMs : Int) (entryStepIndex : ℕ := 0)
    (isResume : Bool := false) : ActivationTrace where
  entityKey := entityKey
  seq := seq
  nowMs := nowMs
  isResume := isResume
  spanId := spanIdFor py entityKey seq roleActivation entryStepIndex
  -- A resume hangs under the initial attempt; the initial attempt is the root.
  parentSpanId := if isResume then spanIdFor py entityKey seq roleActivation 0 else []

variable (t : ActivationTrace)

/-- `ActivationTrace.trace_id`. -/
def traceId : Bytes := traceIdFor py t.entityKey t.seq

/-- `ActivationTrace.stamp`: only the fields the producer left empty are filled. -/
def stamp (event : TraceEvent) (role : Option String := none) : TraceEvent :=
  let spanRole := role.getD (roleForEventType event.eventType)
  { event with
    traceId := if event.traceId = [] then t.traceId py else event.traceId
    spanId := if event.spanId = [] then
        (if spanRole = roleActivation then t.spanId
          else spanIdFor py t.entityKey t.seq spanRole event.stepIndex)
      else event.spanId
    parentSpanId := if event.parentSpanId = [] then
        (if spanRole = roleActivation then t.parentSpanId else t.spanId)
      else event.parentSpanId }

/-- `ActivationTrace._event`. -/
def event (eventType : EventType) (stepIndex : ℕ) (attributes : List (String × String))
    (role : Option String := none) : TraceEvent :=
  t.stamp py {
    entityKey := t.entityKey
    seq := t.seq
    stepIndex := stepIndex
    eventType := eventType
    attributes := attributes
    startMs := t.nowMs
    endMs := t.nowMs } role

/-- The `beam_agents.activation.kind` of the attempt. -/
def kindText : String := if t.isResume then "resume" else "start"

/-- `ActivationTrace.activation_start`. -/
def activationStart : TraceEvent :=
  t.event py .activationStart 0 [("beam_agents.activation.kind", t.kindText)]

/-- `ActivationTrace.activation_end`. -/
def activationEnd (status : String) (stepIndex : ℕ) : TraceEvent :=
  t.event py .activationEnd stepIndex [("beam_agents.activation.status", status),
    ("beam_agents.activation.kind", t.kindText)]

/-- `ActivationTrace.suspended`. -/
def suspended (stepIndex : ℕ) (deadlineMs : Int) (adapter : String)
    (pendingIntentIds : List String) : TraceEvent :=
  t.event py .suspended stepIndex [("beam_agents.deadline_ms", toString deadlineMs),
    ("beam_agents.adapter", adapter),
    ("beam_agents.pending_intent_ids", ",".intercalate pendingIntentIds)]

/-- `ActivationTrace.intent_emitted`. -/
def intentEmitted (stepIndex : ℕ) (intentId toolName intentKind : String) (expiresAtMs : Int) :
    TraceEvent :=
  t.event py .intentEmitted stepIndex [("beam_agents.intent_id", intentId),
    ("beam_agents.tool_name", toolName), ("beam_agents.intent_kind", intentKind),
    ("beam_agents.expires_at_ms", toString expiresAtMs)]

/-- `ActivationTrace.tool_call`: the span is named by the counter of inline tools. -/
def toolCall (stepIndex toolIndex : ℕ) (toolName : String) : TraceEvent :=
  { t.event py .toolCall stepIndex [("beam_agents.tool_name", toolName)] with
    spanId := spanIdFor py t.entityKey t.seq (roleForEventType .toolCall) toolIndex }

/-- `ActivationTrace.error`. -/
def error (reason : String) (errorType : String := "") (role : Option String := none)
    (failure : Option FailureContext := none) : TraceEvent :=
  t.event py .error 0
    (("beam_agents.reason", reason) ::
      ((if errorType = "" then [] else [("error.type", errorType)]) ++
        match failure with
        | none => []
        | some f => f.traceAttributes)) role

end ActivationTrace

/-! ### Intent ids determine their step -/

section IntentName

theorem toList_toString_nat (n : ℕ) : (toString n).toList = Nat.toDigits 10 n := by
  rw [Nat.toString_eq_ofList_toDigits, String.toList_ofList]

/-- The decimal text of a number contains digits only. -/
theorem notMem_toString_nat {c : Char} (hc : c.isDigit = false) (n : ℕ) :
    c ∉ (toString n).toList := by
  intro h
  rw [toList_toString_nat] at h
  have hdigit := Nat.isDigit_of_mem_toDigits (by decide) (by decide) h
  rw [hc] at hdigit
  cases hdigit

theorem toString_nat_injective : Function.Injective (toString : ℕ → String) := by
  intro n m h
  have hdigits : Nat.toDigits 10 n = Nat.toDigits 10 m := by
    rw [← toList_toString_nat, ← toList_toString_nat, h]
  rw [← Nat.ofDigitChars_ten_toDigits (n := n), hdigits, Nat.ofDigitChars_ten_toDigits]

/-- For one key, the text that names a step determines its `seq` and its index: the decimal
digits around the last separator are read back. -/
theorem intentName_injective (entityKey : Bytes) {seq seq' step step' : ℕ}
    (h : intentName entityKey seq step = intentName entityKey seq' step') :
    seq = seq' ∧ step = step' := by
  have hbar : "|".toList = ['|'] := rfl
  have hl := congrArg String.toList h
  simp only [intentName, String.toList_append, List.append_assoc, List.append_cancel_left_eq,
    hbar, List.cons_append, List.nil_append, List.cons.injEq,
    true_and] at hl
  obtain ⟨hseq, -, hstep⟩ := (List.append_cons_inj_of_notMem (notMem_toString_nat rfl seq)
    (notMem_toString_nat rfl step)).mp hl
  exact ⟨toString_nat_injective (String.toList_injective hseq),
    toString_nat_injective (String.toList_injective hstep)⟩

/-- The first separator splits a list in one way. -/
theorem split_at_first {α : Type} {a : α} {x x' z z' : List α} (hx : a ∉ x) (hx' : a ∉ x')
    (h : x ++ a :: z = x' ++ a :: z') : x = x' ∧ z = z' := by
  induction x generalizing x' with
  | nil =>
    cases x' with
    | nil => exact ⟨rfl, (List.cons.inj h).2⟩
    | cons c x' => exact absurd (List.cons.inj h).1 fun hc => hx' (hc ▸ List.mem_cons_self)
  | cons c x ih =>
    cases x' with
    | nil => exact absurd (List.cons.inj h).1 fun hc => hx (hc ▸ List.mem_cons_self)
    | cons c' x' =>
      obtain ⟨rfl, htail⟩ := List.cons.inj h
      obtain ⟨rfl, hz⟩ := ih (fun hm => hx (List.mem_cons_of_mem _ hm))
        (fun hm => hx' (List.mem_cons_of_mem _ hm)) htail
      exact ⟨rfl, hz⟩

/-- For one key, the text that names a span determines its `seq`, its role and its index, as long as
roles contain no separator. -/
theorem spanName_injective (entityKey : Bytes) {seq seq' index index' : ℕ} {role role' : String}
    (hrole : '|' ∉ role.toList) (hrole' : '|' ∉ role'.toList)
    (h : spanName entityKey seq role index = spanName entityKey seq' role' index') :
    seq = seq' ∧ role = role' ∧ index = index' := by
  have hbar : "|".toList = ['|'] := rfl
  have hl := congrArg String.toList h
  simp only [spanName, String.toList_append, List.append_assoc, List.append_cancel_left_eq,
    hbar, List.cons_append, List.nil_append, List.cons.injEq,
    true_and] at hl
  obtain ⟨hseq, hrest⟩ :=
    split_at_first (notMem_toString_nat rfl seq) (notMem_toString_nat rfl seq') hl
  obtain ⟨hrole, hindex⟩ := split_at_first hrole hrole' hrest
  exact ⟨toString_nat_injective (String.toList_injective hseq), String.toList_injective hrole,
    toString_nat_injective (String.toList_injective hindex)⟩

/-- With a `uuid5` that is injective in the name, an intent id determines its step. -/
theorem intentIdFor_injective {py : PyLib}
    (hpy : Function.Injective fun name => (py.uuid5 intentNamespace name).text)
    (entityKey : Bytes) {seq seq' step step' : ℕ}
    (h : intentIdFor py entityKey seq step = intentIdFor py entityKey seq' step') :
    seq = seq' ∧ step = step' :=
  intentName_injective entityKey (hpy h)

end IntentName

/-! ### Libraries given by a table -/

section Table

/-- The value of a hex digit; other characters count as zero. -/
def hexValue (c : Char) : ℕ :=
  if c.isDigit then c.toNat - 48 else if 'a' ≤ c ∧ c ≤ 'f' then c.toNat - 87 else 0

/-- The bytes that a list of hex digits spells. -/
def bytesOfHex : List Char → Bytes
  | hi :: lo :: rest => UInt8.ofNat (hexValue hi * 16 + hexValue lo) :: bytesOfHex rest
  | _ => []

/-- The permutation that swaps each name of a table with its text. -/
def tableSwap (table : List (String × String)) : String ≃ String :=
  table.foldr (fun p e => (Equiv.swap p.1 p.2).trans e) (Equiv.refl String)

/-- A library whose `uuid5` answers the names of a table with their texts, and whose strings need
no escapes. -/
def PyLib.ofTable (table : List (String × String)) : PyLib where
  uuid5 _ name :=
    let text := tableSwap table name
    ⟨text, bytesOfHex (text.toList.filter fun c => c ≠ '-')⟩
  sha256 _ := []
  reprStr s := "'" ++ s ++ "'"
  jsonStr s := "\"" ++ s ++ "\""

theorem PyLib.ofTable_injective (table : List (String × String)) (ns : String) :
    Function.Injective fun name => ((PyLib.ofTable table).uuid5 ns name).text :=
  (tableSwap table).injective

end Table

end BeamAgents
