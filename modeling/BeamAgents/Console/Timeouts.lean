import BeamAgents.Console.DeadLetters
import BeamAgents.Console.Converging
import BeamAgents.Console.FailuresOnce
import BeamAgents.Core.Conservation
import BeamAgents.Core.TraceIdentity
import BeamAgents.Protos.Intents
import BeamAgents.Wire.Json
import BeamAgents.Wire.Text

/-!
# Dead letters that name their activation

Three kinds of dead letters carry the `seq` of their activation in their detail: that of an intent
that could not be written, as JSON, and those of a suspension that times out or is wiped, as text.
The console reads it there, and joins the record by it with the trace event that a timer emits for
the same suspension.

The decimal value of a character outside of ASCII, which a pattern takes for a digit too, is a
parameter.

## Main definitions

* `intentDeadLetterToError`.
* `jsonSeq`, `scanSeq`, `detailReader`: how the `seq` is read.
* `TraceEvent.failure`: the failure that an event tells of, once it is stored.

## Main results

* `intentDeadLetter_stored`: the dead letter of an intent reaches the console with its `seq`.
* `timeouts_joined`: in every run the record of a suspension that a timer ends is joined with the
  event of that suspension exactly when it has its reason.
-/

namespace BeamAgents

open Wire Transition Containers

/-! ### Reading the `seq` -/

/-- The value of the member `seq` of a JSON object. A truth value is no integer. -/
def jsonSeq (detail : String) : Option Int :=
  match Json.readDocument detail.toList with
  | some (.object members) =>
    match members.lookup "seq" with
    | some (.int n) => some n
    | _ => none
  | _ => none

section Scan

variable (unicodeDecimal : Char → Option ℕ)

/-- The value of a character that is a digit. -/
def decimalValue (c : Char) : Option ℕ :=
  if c.isDigit then some (c.toNat - '0'.toNat)
  else if c.toNat < 128 then none
  else unicodeDecimal c

/-- The digits at the beginning of a text. -/
def leadingDecimals : List Char → List ℕ
  | [] => []
  | c :: rest =>
    match decimalValue unicodeDecimal c with
    | none => []
    | some d => d :: leadingDecimals rest

/-- The number that a text begins with, if it begins with a digit. -/
def leadingNumber (text : List Char) : Option ℕ :=
  match leadingDecimals unicodeDecimal text with
  | [] => none
  | digits => some (digits.foldl (fun n d => 10 * n + d) 0)

/-- `seq=(-?\d+)` where a text begins. -/
def matchSeq : List Char → Option Int
  | 's' :: 'e' :: 'q' :: '=' :: '-' :: rest =>
    (leadingNumber unicodeDecimal rest).map fun n => -(n : Int)
  | 's' :: 'e' :: 'q' :: '=' :: rest => (leadingNumber unicodeDecimal rest).map fun n => (n : Int)
  | _ => none

/-- `[\s,;]seq=(-?\d+)`, the first match. -/
def searchSeq : List Char → Option Int
  | [] => none
  | c :: rest =>
    if Text.isSpace c ∨ c = ',' ∨ c = ';' then
      (matchSeq unicodeDecimal rest).or (searchSeq rest)
    else searchSeq rest

/-- `_SEQ_IN_DETAIL`, the first match. -/
def scanSeq (detail : String) : Option Int :=
  (matchSeq unicodeDecimal detail.toList).or (searchSeq unicodeDecimal detail.toList)

/-- How the console reads details. -/
def detailReader : DetailReader := ⟨jsonSeq, scanSeq unicodeDecimal⟩

@[simp] theorem jsonSeq_detailReader : (detailReader unicodeDecimal).jsonSeq = jsonSeq := rfl

@[simp] theorem scanSeq_detailReader :
    (detailReader unicodeDecimal).scanSeq = scanSeq unicodeDecimal := rfl

variable {unicodeDecimal}

theorem leadingDecimals_append {digits rest : List Char} (hdigits : ∀ c ∈ digits, c.isDigit)
    (hrest : ∀ c ∈ rest.head?, decimalValue unicodeDecimal c = none) :
    leadingDecimals unicodeDecimal (digits ++ rest) =
      digits.map fun c => c.toNat - '0'.toNat := by
  induction digits with
  | nil =>
    cases rest with
    | nil => rfl
    | cons c rest => rw [List.nil_append, leadingDecimals, hrest c rfl]; rfl
  | cons c digits ih =>
    obtain ⟨hc, hdigits⟩ := List.forall_mem_cons.mp hdigits
    rw [List.cons_append, leadingDecimals, decimalValue, if_pos hc, ih hdigits, List.map_cons]

/-- A number is read from its digits. -/
theorem leadingNumber_toDigits (n : ℕ) {rest : List Char}
    (hrest : ∀ c ∈ rest.head?, decimalValue unicodeDecimal c = none) :
    leadingNumber unicodeDecimal (Nat.toDigits 10 n ++ rest) = some n := by
  have hdigits : ∀ c ∈ Nat.toDigits 10 n, c.isDigit := fun c hc =>
    Nat.isDigit_of_mem_toDigits (by decide) (by decide) hc
  obtain ⟨c, cs, hcons⟩ := List.exists_cons_of_ne_nil (Nat.toDigits_ne_nil (n := n) (b := 10))
  have hvalue : ((Nat.toDigits 10 n).map fun c => c.toNat - '0'.toNat).foldl
      (fun n d => 10 * n + d) 0 = n := by
    rw [List.foldl_map]
    exact Nat.ofDigitChars_ten_toDigits
  rw [leadingNumber, leadingDecimals_append hdigits hrest]
  rw [hcons, List.map_cons] at hvalue ⊢
  exact congrArg some hvalue

/-- A detail that begins with the `seq` is read as it. -/
theorem scanSeq_of_toList {detail : String} {n : ℕ} {rest : List Char}
    (h : detail.toList = 's' :: 'e' :: 'q' :: '=' :: (Nat.toDigits 10 n ++ rest))
    (hrest : ∀ c ∈ rest.head?, decimalValue unicodeDecimal c = none) :
    scanSeq unicodeDecimal detail = some (n : Int) := by
  have hnumber := leadingNumber_toDigits n hrest
  have hminus : (Nat.toDigits 10 n ++ rest).head? ≠ some '-' := by
    obtain ⟨c, cs, hcons⟩ := List.exists_cons_of_ne_nil (Nat.toDigits_ne_nil (n := n) (b := 10))
    have hdigit : c.isDigit :=
      Nat.isDigit_of_mem_toDigits (by decide) (by decide) (hcons ▸ List.mem_cons_self)
    rw [hcons, List.cons_append, List.head?_cons]
    intro heq
    rw [Option.some.inj heq] at hdigit
    exact absurd hdigit (by decide)
  rw [scanSeq, h, matchSeq.eq_def]
  split
  · next heq => exact absurd (congrArg (List.head? ∘ List.drop 4) heq) hminus
  · next heq =>
    obtain rfl : Nat.toDigits 10 n ++ rest = _ := congrArg (List.drop 4) heq
    rw [hnumber]
    rfl
  · next hne => exact absurd rfl (hne _)

end Scan

/-! ### Intents that could not be written -/

/-- What `intent_dead_letter_to_error` tells of an intent. -/
def intentDocument (intent : ToolIntentMessage) (reason : String) : Json.Value :=
  .object [("reason", .text reason), ("intent_id", .text intent.intentId),
    ("seq", .int intent.seq.toInt), ("tool_name", .text intent.toolName)]

/-- `intent_dead_letter_to_error`. -/
def intentDeadLetterToError (key : Bytes) (intent : ToolIntentMessage) (reason : String) :
    ActivationError where
  entityKey := key
  reason := reasonIntentDeadLetter
  detail := String.ofList (Json.dumpText {} (intentDocument intent reason))
  eventTimeMs := intent.createdAtMs.toInt

/-- **The `seq` of an intent** that could not be written is read off its record, whatever the texts
beside it. -/
theorem seq_intentDeadLetter (unicodeDecimal : Char → Option ℕ) (key : Bytes)
    (intent : ToolIntentMessage) (reason : String) (provenance : Provenance) :
    (errorRow (detailReader unicodeDecimal) (intentDeadLetterToError key intent reason)
      provenance).seq = some intent.seq.toInt := by
  have hvalid : (intentDocument intent reason).Valid := by
    refine ⟨?_, Json.validMembers_iff.mpr ?_⟩
    · simp
    · simp [Json.Value.Valid]
  have hread : Json.readDocument (intentDeadLetterToError key intent reason).detail.toList =
      some (intentDocument intent reason) := by
    rw [intentDeadLetterToError, String.toList_ofList]
    exact Json.readDocument_dumpText {} hvalid
  have hjson : jsonSeq (intentDeadLetterToError key intent reason).detail =
      some intent.seq.toInt := by
    rw [jsonSeq, hread]
    rfl
  have hrow (reader : DetailReader) (error : ActivationError)
      (h : error.reason = reasonIntentDeadLetter) :
      (errorRow reader error provenance).seq = reader.jsonSeq error.detail := if_pos h
  rw [hrow _ _ rfl, jsonSeq_detailReader, hjson]

/-- What `_error_row` takes of a record. -/
def ActivationErrorRecordMessage.toError (record : ActivationErrorRecordMessage) :
    ActivationError where
  entityKey := record.entityKey
  reason := record.reason
  detail := record.detail
  eventTimeMs := record.eventTimeMs.toInt

/-- **From the outbox to the console.** An intent that could not be written is published as a dead
letter, read off the bus, and stored with the entity, the time and the `seq` of the intent, whatever
its texts and those of the failure hold. -/
theorem intentDeadLetter_stored (unicodeDecimal : Char → Option ℕ) (key : Bytes)
    (intent : ToolIntentMessage) (reason : String) :
    ∃ sent, serializeErrorEnvelope (intentDeadLetterToError key intent reason) = some sent ∧
      sent.1 = key ∧ (sent.2.length ≤ Limits.standard.maxLength →
        ∃ record, decodeErrorPayload sent.2 = .ok [record] ∧ ∀ provenance,
          errorRow (detailReader unicodeDecimal) record.toError provenance =
            { entityKey := key.hex
              reason := reasonIntentDeadLetter
              detail := (intentDeadLetterToError key intent reason).detail
              eventTimeMs := intent.createdAtMs.toInt
              seq := some intent.seq.toInt
              provenance }) := by
  have htime : int64Of (intentDeadLetterToError key intent reason).eventTimeMs =
      some intent.createdAtMs := int64Of_toInt _
  have hrecord : (intentDeadLetterToError key intent reason).toRecord =
      some { entityKey := key, reason := reasonIntentDeadLetter,
             detail := (intentDeadLetterToError key intent reason).detail,
             eventTimeMs := intent.createdAtMs } := by
    rw [ActivationError.toRecord, htime]
    rfl
  obtain ⟨sent, hsent⟩ : ∃ sent,
      serializeErrorEnvelope (intentDeadLetterToError key intent reason) = some sent := by
    rw [serializeErrorEnvelope, hrecord, htime]
    exact ⟨_, rfl⟩
  refine ⟨sent, hsent, ?_, fun hfits => ?_⟩
  · rw [serializeErrorEnvelope, hrecord, htime] at hsent
    rw [← Option.some.inj hsent]
    rfl
  · obtain ⟨record, heq, hread⟩ := decodeErrorPayload_envelope hsent
      (show reasonIntentDeadLetter ≠ "" by decide) hfits
    rw [hrecord] at heq
    obtain rfl := Option.some.inj heq
    refine ⟨_, hread, fun provenance => ?_⟩
    have hrow (reader : DetailReader) (error : ActivationError) : errorRow reader error provenance =
        { entityKey := error.entityKey.hex
          reason := error.reason
          detail := error.detail
          eventTimeMs := error.eventTimeMs
          seq := (errorRow reader error provenance).seq
          provenance } := rfl
    have hsame : ActivationErrorRecordMessage.toError
        { entityKey := key, reason := reasonIntentDeadLetter,
          detail := (intentDeadLetterToError key intent reason).detail,
          eventTimeMs := intent.createdAtMs } = intentDeadLetterToError key intent reason := rfl
    rw [hsame, hrow, seq_intentDeadLetter]
    rfl

/-- An intent whose name needs escapes. -/
def quotedIntent : ToolIntentMessage := { intentId := "i", seq := 7, toolName := "say \"hi\"" }

/-- The `seq` of that intent reaches the console. -/
theorem intentDeadLetter_stored_quoted :
    ∃ sent record, serializeErrorEnvelope (intentDeadLetterToError [107] quotedIntent "no key") =
        some sent ∧ decodeErrorPayload sent.2 = .ok [record] ∧
      (errorRow (detailReader fun _ => none) record.toError .kafka).seq = some 7 := by
  obtain ⟨sent, hsent, -, hread⟩ :=
    intentDeadLetter_stored (fun _ => none) [107] quotedIntent "no key"
  have hshort : (serializeErrorEnvelope (intentDeadLetterToError [107] quotedIntent "no key")).all
      (fun sent => sent.2.length ≤ Limits.standard.maxLength) = true := by decide +kernel
  rw [hsent] at hshort
  obtain ⟨record, hrecord, hrow⟩ := hread (of_decide_eq_true hshort)
  exact ⟨sent, record, hsent, hrecord, congrArg ErrorRow.seq (hrow .kafka)⟩

/-! ### The failure that an event tells of -/

/-- The failure that an emitted event tells of, once it is stored. -/
def TraceEvent.failure (event : TraceEvent) : Option FailureKey :=
  if event.eventType = .error then
    ((SortedMap.ofList event.attributes).get? reasonAttribute).map fun reason =>
      ⟨event.entityKey.hex, event.seq, reason⟩
  else none

/-- The message of an event; none when a number is out of range. -/
def TraceEvent.toMessage (event : TraceEvent) : Option TraceEventMessage := do
  let seq ← int64Of event.seq
  let stepIndex ← uint32Of event.stepIndex
  let startMs ← int64Of event.startMs
  let endMs ← int64Of event.endMs
  return { traceId := event.traceId, spanId := event.spanId, parentSpanId := event.parentSpanId,
           entityKey := event.entityKey, seq, stepIndex, eventType := event.eventType.toInt32,
           attributes := .ofList event.attributes, startMs, endMs }

/-- What the console stores of an event that reaches it as it was emitted tells of its failure. -/
theorem failureKey_nativeColumns {event : TraceEvent} {m : TraceEventMessage}
    (h : event.toMessage = some m) : failureKey (m.storeKey, nativeColumns m) = event.failure := by
  simp only [TraceEvent.toMessage, Option.bind_eq_bind, Option.bind_eq_some_iff] at h
  obtain ⟨seq, hseq, stepIndex, -, startMs, -, endMs, -, h⟩ := h
  obtain rfl := Option.some.inj h
  have hseq' : seq.toInt = event.seq := by
    rw [int64Of] at hseq
    split_ifs at hseq with hrange
    rw [← Option.some.inj hseq, Int64.toInt_ofInt_of_le hrange.1 (by simpa using hrange.2)]
  have htype : eventTypeLabel event.eventType.toInt32 = EventType.error.name ↔
      event.eventType = .error := by
    rw [eventTypeLabel, eventTypeName_toInt32, Option.getD_some]
    refine ⟨fun hname => ?_, fun h => h ▸ rfl⟩
    have hnumber := eventTypeValue_name event.eventType
    rw [hname, eventTypeValue_name] at hnumber
    have hall : ∀ t : EventType, EventType.error.toInt32 = t.toInt32 → t = .error := by
      intro t
      cases t <;> decide
    exact hall _ (Option.some.inj hnumber)
  have hattributes : mergeAttributes .empty (.ofList event.attributes) =
      SortedMap.ofList event.attributes := mergeAttributes_empty _
  simp only [failureKey, TraceEvent.failure, TraceEventMessage.storeKey, EventRow.key,
    nativeColumns, mergeEvent, eventRow, htype, hseq', hattributes]

/-! ### Suspensions that a timer ends -/

namespace AgentDoFn

variable {d : AgentDoFn} {py : PyLib} {key : Bytes} {s s' : KeyState} {c : KeyCall}
  {es : List Effect} {error : ActivationError} {unicodeDecimal : Char → Option ℕ}

/-- The reasons whose records carry a `seq` as text. -/
def scalarReasons : List String := [reasonTtlWipedSuspension, reasonHitlTimeout]

/-- The policy drops no suspension under the reason of a wipe. -/
def OwnReasons (d : AgentDoFn) : Prop :=
  ∀ fallback, d.policy.onTimeout fallback ≠ .ok (.drop reasonTtlWipedSuspension)

/-- A record tells the `seq` of an error event of its entity, which has its reason unless the policy
borrowed that of a wipe. -/
def NamesOwn (d : AgentDoFn) (unicodeDecimal : Char → Option ℕ) (es : List Effect)
    (error : ActivationError) : Prop :=
  ∃ event ∈ tracesOf es, ∃ failure, event.failure = some failure ∧
    failure.entityKey = error.entityKey.hex ∧
    seqFromDetail (detailReader unicodeDecimal) error.reason error.detail = some failure.seq ∧
    (error.reason = reasonHitlTimeout ∨ d.OwnReasons → failure.reason = error.reason)

/-- The failure that the error event of a timer tells of. -/
theorem failure_timer (seq : ℕ) (now : Int) (reason : String) :
    ((ActivationTrace.new py key seq now).error py reason "" (some roleTimer)).failure =
      some ⟨key.hex, seq, reason⟩ := by
  have hreason : (SortedMap.ofList [("beam_agents.reason", reason)]).get? reasonAttribute =
      some reason := by
    change (SortedMap.empty.set reasonAttribute reason).get? reasonAttribute = some reason
    rw [SortedMap.get?_set, if_pos rfl]
  change Option.map _ ((SortedMap.ofList [("beam_agents.reason", reason)]).get? reasonAttribute) = _
  rw [hreason]
  rfl

theorem seqFromDetail_scalar (h : error.reason ∈ scalarReasons) {n : ℕ} {rest : List Char}
    (hdetail : error.detail.toList = 's' :: 'e' :: 'q' :: '=' :: (Nat.toDigits 10 n ++ rest))
    (hrest : ∀ c ∈ rest.head?, decimalValue unicodeDecimal c = none) :
    seqFromDetail (detailReader unicodeDecimal) error.reason error.detail = some (n : Int) := by
  have hne : error.reason ≠ reasonIntentDeadLetter := by
    intro heq
    rw [heq] at h
    exact absurd h (by decide)
  have h' : error.reason ∈ [reasonTtlWipedSuspension, reasonHitlTimeout] := h
  rw [seqFromDetail, if_neg hne, if_pos h', scanSeq_detailReader, scanSeq_of_toList hdetail hrest]

/-- What a failure or a refusal is recorded under is none of the reasons. -/
theorem Uncommitted.reasons {c : KeyCall} (h : Uncommitted py key s c es) :
    ∀ error ∈ errorsOf es, error.reason ∉ scalarReasons := by
  intro error herror
  cases h with
  | nothing | exported => cases herror
  | @failed envelope w seq now failure =>
    have herrors : errorsOf (sampleActivation w :: activationFailure py key seq now failure) =
        [⟨key, failure.report.reason, failure.report.detail, now⟩] := by
      rw [errorsOf, sampleActivation, outputsOf_observe, outputsOf_activationFailure]
      rfl
    rw [herrors, List.mem_singleton] at herror
    rw [herror]
    cases failure with
    | timeout => exact (by decide : reasonTimeout ∉ scalarReasons)
    | failed context cause =>
      change (if cause.cls = .budgetExceeded then reasonBudgetExceeded else reasonError) ∉ _
      split_ifs <;> decide
    | raised e => exact (by decide : reasonError ∉ scalarReasons)
  | @flushFailed c w seq now envelopes batchDetail failure =>
    have hreason : ∃ reason detail, reason ∉ scalarReasons ∧
        errorsOf (flushFailure py key seq now envelopes batchDetail failure) =
          List.replicate envelopes.length ⟨key, reason, detail, now⟩ := by
      cases failure with
      | timeout | failed context cause | raised e =>
        simp only [flushFailure, errorsOf_append, errorsOf_failedFlush]
        exact ⟨_, _, by decide, List.append_nil _⟩
    obtain ⟨reason, detail, hnot, herrors⟩ := hreason
    have hmem : error ∈ errorsOf (flushFailure py key seq now envelopes batchDetail failure) :=
      herror
    rw [herrors] at hmem
    rw [List.eq_of_mem_replicate hmem]
    exact hnot
  | @refused envelope w now intentId cont detail =>
    have herrors : errorsOf (refusedResume py key now intentId cont detail s) =
        [⟨key, reasonOrphaned, s!"{detail.text}:{intentId}", now⟩] := rfl
    rw [herrors, List.mem_singleton] at herror
    rw [herror]
    exact (by decide : reasonOrphaned ∉ scalarReasons)
  | shed =>
    rw [errorsOf_deadLetter, List.mem_singleton] at herror
    rw [herror]
    exact (by decide : reasonBatchOverflow ∉ scalarReasons)

theorem errorsOf_endSuspension (cont : Continuation) (fired : Int) (route : Route) (detail : String)
    (w : World) : errorsOf (d.endSuspension py key cont fired route detail s w) =
      errorsOf (timeoutRecord key fired route detail) := by
  have hflush : errorsOf (d.rearmFlush s w) = [] := by
    unfold rearmFlush
    split_ifs <;> rfl
  have htrace : errorsOf [errorTrace py key cont.seq fired reasonHitlTimeout "" (some roleTimer)] =
      [] := rfl
  simp only [endSuspension, errorsOf_append, hflush, htrace, List.append_nil]
  rfl

/-- The records of the buffered events that a wipe drops have a reason of their own. -/
theorem errorsOf_wipedBatch (fired : Int) (s : KeyState) :
    ∀ error ∈ errorsOf (d.wipedBatch key fired s), error.reason = reasonTtlWipedBatch := by
  intro error herror
  unfold wipedBatch at herror
  split_ifs at herror
  · cases herror
  · generalize List.range s.batch.length = indices at herror
    induction indices with
    | nil => cases herror
    | cons index indices ih =>
      rw [List.flatMap_cons, errorsOf_append, errorsOf_deadLetter, List.mem_append,
        List.mem_singleton] at herror
      rcases herror with rfl | hrest
      · rfl
      · exact ih hrest

/-- A suspension is dropped as the policy says, or since the policy raises. -/
theorem routeTimeout_drop {cont : Continuation} {fired : Int} {reason detail : String}
    (h : d.routeTimeout key cont fired = (.drop reason, detail)) :
    (reason = reasonHitlTimeout ∨ ∃ fallback, d.policy.onTimeout fallback = .ok (.drop reason)) ∧
      ∃ rest : String, detail = s!"seq={cont.seq}" ++ rest ∧
        ∀ c ∈ rest.toList.head?, decimalValue unicodeDecimal c = none := by
  simp only [routeTimeout] at h
  split at h
  · next e _ =>
    obtain ⟨hroute, rfl⟩ := Prod.mk.inj h
    refine ⟨.inl (Route.drop.inj hroute).symm, " policy_error=" ++ e.repr, ?_, ?_⟩
    · rw [String.append_assoc]
    · rw [String.toList_append]
      rintro c ⟨⟩
      rfl
  · split_ifs at h <;> cases h
  · next route _ hroute =>
    obtain ⟨rfl, rfl⟩ := Prod.mk.inj h
    exact ⟨.inr ⟨_, hroute⟩, "", (String.append_empty).symm, nofun⟩

/-- A detail that begins with the `seq` of a suspension. -/
theorem toList_seq_append (seq : ℕ) (rest : String) : (s!"seq={seq}" ++ rest).toList =
    's' :: 'e' :: 'q' :: '=' :: (Nat.toDigits 10 seq ++ rest.toList) := by
  have hseq : (s!"seq={seq}").toList = 's' :: 'e' :: 'q' :: '=' :: (toString seq).toList := by
    rw [String.toList_append]
    rfl
  rw [String.toList_append, hseq, toList_toString_nat]
  rfl

/-- **The records of a call** under these reasons. -/
theorem namesOwn_call (h : d.call py key s c = ⟨es, none⟩) (herror : error ∈ errorsOf es)
    (hreason : error.reason ∈ scalarReasons) : d.NamesOwn unicodeDecimal es error := by
  obtain ⟨pre, es, rfl, hpre, hdid⟩ := call_did h
  have hnone : errorsOf pre = [] := by
    cases hpre with
    | no => rfl
    | yes => exact errorsOf_of_outputsOf (outputsOf_bufferEffects _)
  rw [errorsOf_append, hnone, List.nil_append] at herror
  suffices hown : d.NamesOwn unicodeDecimal es error by
    obtain ⟨event, hevent, hrest⟩ := hown
    exact ⟨event, by rw [tracesOf_append]; exact List.mem_append_right _ hevent, hrest⟩
  cases hdid with
  | uncommitted h => exact absurd hreason (h.reasons error herror)
  | commit hact hresult hes =>
    rw [hes, errorsOf_commit] at herror
    cases herror
  | escalate => cases herror
  | @ended micros w cont route detail hcont hdue hroute hends =>
    rw [errorsOf_endSuspension] at herror
    cases route with
    | deny output => cases herror
    | escalate toolName argsJson timeoutMs => cases hends
    | drop reason =>
      rw [timeoutRecord, errorsOf_deadLetter, List.mem_singleton] at herror
      obtain ⟨hdropped, rest, hdetail, hrest⟩ := routeTimeout_drop hroute
      refine ⟨_, by rw [tracesOf_endSuspension]; exact List.mem_cons_self, _, failure_timer _ _ _,
        by rw [herror], ?_, ?_⟩
      · refine seqFromDetail_scalar hreason ?_ hrest
        rw [herror, hdetail, toList_seq_append]
      · rw [herror] at hreason ⊢
        rintro (hhitl | hown)
        · exact hhitl.symm
        · rcases hdropped with hhitl | ⟨fallback, hdrop⟩
          · exact hhitl.symm
          · obtain rfl | hhitl : reason = reasonTtlWipedSuspension ∨
                reason = reasonHitlTimeout := by
              simpa [scalarReasons] using hreason
            · exact absurd hdrop (hown fallback)
            · exact hhitl.symm
  | @wiped micros w cont hcont =>
    have hevents : tracesOf (wipedSuspension py key (firedAtMs micros) cont ++
        (d.wipedBatch key (firedAtMs micros) (s.applyAll pre) ++ d.wipe)) =
          cont.toList.map fun cont =>
            (ActivationTrace.new py key cont.seq (firedAtMs micros)).error py
              reasonTtlWipedSuspension "" (some roleTimer) := tracesOf_wiped cont _
    rw [errorsOf_append, errorsOf_append, List.mem_append, List.mem_append] at herror
    rcases herror with hsuspension | hbatch | hwipe
    · cases cont with
      | none => cases hsuspension
      | some cont =>
        have herrors : errorsOf (wipedSuspension py key (firedAtMs micros) (some cont)) =
            [⟨key, reasonTtlWipedSuspension, s!"seq={cont.seq},deadline_ms={cont.deadlineMs}",
              firedAtMs micros⟩] := rfl
        rw [herrors, List.mem_singleton] at hsuspension
        refine ⟨_, by rw [hevents]; exact List.mem_cons_self, _, failure_timer _ _ _,
          by rw [hsuspension], ?_, fun _ => by rw [hsuspension]⟩
        have hdetail : error.detail.toList =
            's' :: 'e' :: 'q' :: '=' :: (Nat.toDigits 10 cont.seq ++
              (",deadline_ms=" ++ toString cont.deadlineMs).toList) := by
          rw [hsuspension, ← toList_seq_append, ← String.append_assoc]
          rfl
        refine seqFromDetail_scalar hreason hdetail ?_
        rw [String.toList_append]
        rintro c ⟨⟩
        rfl
    · rw [errorsOf_wipedBatch _ _ error hbatch] at hreason
      exact absurd hreason (by decide)
    · have hnone : errorsOf d.wipe = [] := by
        unfold wipe
        split_ifs <;> rfl
      rw [hnone] at hwipe
      cases hwipe

/-- **Timeouts in the console.** In every run, each record of a timeout or of a wiped suspension
tells the `seq` of an error event of the same run for the same entity. Wherever the console knows of
that failure, whatever else it knows, the record is joined with it and with nothing else exactly
when it has its reason, as it always has unless the policy drops suspensions under the reason of a
wipe. -/
theorem timeouts_joined (unicodeDecimal : Char → Option ℕ) {s t : KeyState} {calls : List KeyCall}
    {os : List Effect} (h : (d.machine py key).Run s calls os t) (herror : error ∈ errorsOf os)
    (hreason : error.reason ∈ scalarReasons) :
    ∃ event ∈ tracesOf os, ∃ failure, failure.entityKey = error.entityKey.hex ∧
      (∀ m, event.toMessage = some m → failureKey (m.storeKey, nativeColumns m) = some failure) ∧
      (error.reason = reasonHitlTimeout ∨ d.OwnReasons → failure.reason = error.reason) ∧
      ∀ castInt provenance (events : SortedMap EventKey StoredEvent),
        (errorRow (detailReader unicodeDecimal) error provenance).seq = some failure.seq ∧
        (failure ∈ (traceErrors castInt events).map TraceError.key →
          ((∃ own, own.key = failure ∧ partners (traceErrors castInt events)
            (errorRow (detailReader unicodeDecimal) error provenance) = [some own]) ↔
              failure.reason = error.reason)) := by
  have hnames : d.NamesOwn unicodeDecimal os error := by
    refine h.invariant (I := fun _ os _ => error ∈ errorsOf os → d.NamesOwn unicodeDecimal os error)
      (fun hmem => by cases hmem) (fun {_ os _ _ _ o} _ ih hstep hmem => ?_) herror
    rw [errorsOf_append, List.mem_append] at hmem
    rcases hmem with hmem | hmem
    · obtain ⟨event, hevent, hrest⟩ := ih hmem
      exact ⟨event, by rw [tracesOf_append]; exact List.mem_append_left _ hevent, hrest⟩
    · obtain ⟨event, hevent, hrest⟩ := namesOwn_call hstep.1 hmem hreason
      exact ⟨event, by rw [tracesOf_append]; exact List.mem_append_right _ hevent, hrest⟩
  obtain ⟨event, hevent, failure, hfailure, hentity, hseq, hown⟩ := hnames
  refine ⟨event, hevent, failure, hentity,
    fun m hm => (failureKey_nativeColumns hm).trans hfailure, hown,
    fun castInt provenance events => ?_⟩
  have hnodup := nodup_traceErrors castInt events
  let recorded : RecordedFailure :=
    { record := errorRow (detailReader unicodeDecimal) error provenance
      seq := failure.seq
      carries := fun n hn => Option.some.inj (hn.symm.trans hseq) }
  refine ⟨hseq, fun hknown => ⟨fun ⟨own, hkey, hpartners⟩ => ?_, fun hsame => ?_⟩⟩
  · rw [partners_eq hnodup, List.singleton_inj, find?_key_eq_some_iff hnodup] at hpartners
    rw [← hkey]
    exact congrArg FailureKey.reason hpartners.2
  · have hrecorded : recorded.key = failure := FailureKey.ext hentity.symm rfl hsame.symm
    obtain ⟨own, hown, hkey⟩ := List.mem_map.mp hknown
    refine ⟨own, hkey, ?_⟩
    rw [partners_eq hnodup, List.singleton_inj, find?_key_eq_some_iff hnodup]
    refine ⟨hown, ?_⟩
    have hnumbered : recorded.record.seq ≠ none := fun hnone =>
      Option.some_ne_none _ (hseq.symm.trans hnone)
    rcases claim_of_some (traceErrors castInt events) hnumbered with ⟨-, hclaim⟩ | ⟨habsent, -⟩
    · exact (hkey.trans hrecorded.symm).trans hclaim.symm
    · exact absurd (hkey.trans hrecorded.symm) (habsent own hown)

/-- The agent that looks something up and asks, with a policy that drops what nobody answers. -/
def droppingAgent : AgentDoFn :=
  { lookingAgent with policy := { lookingAgent.policy with onTimeout := fun _ => .ok .drop } }

/-- The record of its first timeout. -/
def droppedRecord : ActivationError := ⟨[107], reasonHitlTimeout, "seq=0", 4000⟩

/-- Nobody answers, and the record of the timeout is joined with the event of it. -/
theorem timeouts_joined_drop : ∃ os t,
    (droppingAgent.machine (.ofTable spanTable) [107]).Run {}
      [firstEvent, .onHitl 4000000 toolWorld] os t ∧
    ∃ event ∈ tracesOf os, ∃ failure : FailureKey, failure.entityKey = "6b" ∧
      failure.reason = reasonHitlTimeout ∧
      ∀ castInt provenance (events : SortedMap EventKey StoredEvent),
        failure ∈ (traceErrors castInt events).map TraceError.key →
        ∃ own, own.key = failure ∧ partners (traceErrors castInt events)
          (errorRow (detailReader fun _ => none) droppedRecord provenance) = [some own] := by
  have hexec : ((droppingAgent.exec (.ofTable spanTable) [107] {}
      [firstEvent, .onHitl 4000000 toolWorld]).map fun r : List Effect × KeyState =>
        decide (droppedRecord ∈ errorsOf r.1)) = some true := by decide
  obtain ⟨⟨os, t⟩, hr, herror⟩ := Option.map_eq_some_iff.mp hexec
  have hrun := (exec_run (C := fun _ _ => True) hr fun _ _ _ => trivial).of_guarded
  obtain ⟨event, hevent, failure, hentity, -, hreason, hjoined⟩ :=
    timeouts_joined (fun _ => none) hrun (of_decide_eq_true herror) (by decide)
  have hsame := hreason (.inl rfl)
  have hkey : failure.entityKey = "6b" := by
    rw [hentity]
    decide
  exact ⟨os, t, hrun, event, hevent, failure, hkey, hsame,
    fun castInt provenance events hknown =>
      ((hjoined castInt provenance events).2 hknown).mpr hsame⟩

end AgentDoFn

end BeamAgents
