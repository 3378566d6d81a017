import BeamAgents.Protos.Traces

/-!
# Exporting trace events

`trace_event_to_row` of `observability/exporters.py`, which makes a row of the trace table out of an
event, and `_event_to_span` of `observability/otlp.py`, which makes a span of it. Both name the
event type; the row has the start of the event as an instant of the calendar besides, and the span
counts nanoseconds in 64 bits without a sign. A type without a name, an instant outside of the
calendar and a number that does not fit are errors.

An event may have any number as its type and any signed number of milliseconds as its times, so that
there are events that cannot be exported, and their conditions are those of the conversions.

## Main definitions

* `TraceRow`, `traceEventToRow`.
* `OtlpSpan`, `eventToSpan`.
* `Exports`: both conversions succeed, and what they produce is right.
* `Exportable`: the events for which they do.

## Main results

* `traceEventToRow_isSome_iff`, `eventToSpan_isSome_iff`: when each conversion succeeds.
* `exports_iff`: when both do.
* `newer_type_not_exported`: an event of a newer schema is not.
-/

namespace BeamAgents

open Containers

/-! ### Rows -/

/-- An entry of the repeated record `attributes`. -/
structure AttributeRow where
  key : Option String
  value : Option String
  deriving DecidableEq

/-- A row of the trace table; every column may be NULL. The instant of `event_time`, in milliseconds
since the epoch, stands for its RFC 3339 text. -/
structure TraceRow where
  traceId : Option String := none
  spanId : Option String := none
  parentSpanId : Option String := none
  entityKey : Option String := none
  seq : Option Int := none
  stepIndex : Option Int := none
  eventType : Option String := none
  startMs : Option Int := none
  endMs : Option Int := none
  eventTime : Option Int := none
  attributes : List AttributeRow := []
  deriving DecidableEq

/-- The first instant of the year 1 in milliseconds since the epoch. -/
def datetimeMinMs : Int := -62135596800000

/-- The last millisecond of the year 9999. -/
def datetimeMaxMs : Int := 253402300799999

/-- `_EPOCH + datetime.timedelta(milliseconds=ms)`; outside of the calendar it is an
`OverflowError`. -/
def datetimeOf (ms : Int) : Option Int :=
  if datetimeMinMs ≤ ms ∧ ms ≤ datetimeMaxMs then some ms else none

/-- `trace_event_to_row`; none when it raises. -/
def traceEventToRow (event : TraceEventMessage) : Option TraceRow := do
  let name ← eventTypeName event.eventType
  let eventTime ← datetimeOf event.startMs.toInt
  return {
    traceId := some event.traceId.hex
    spanId := some event.spanId.hex
    parentSpanId := some event.parentSpanId.hex
    entityKey := some event.entityKey.hex
    seq := some event.seq.toInt
    stepIndex := some event.stepIndex.toNat
    eventType := some name
    startMs := some event.startMs.toInt
    endMs := some event.endMs.toInt
    eventTime := some eventTime
    attributes := event.attributes.entries.map fun p => ⟨some p.1, some p.2⟩ }

/-! ### Spans -/

/-- `REASON`. -/
def reasonAttribute : String := "beam_agents.reason"

/-- A span as the exporter writes it. -/
structure OtlpSpan where
  traceId : Bytes
  spanId : Bytes
  parentSpanId : Bytes
  name : String
  /-- `SPAN_KIND_INTERNAL`. -/
  kind : ℕ := 1
  startTimeUnixNano : UInt64
  endTimeUnixNano : UInt64
  attributes : List (String × String)
  /-- `STATUS_CODE_UNSET`, or `STATUS_CODE_ERROR`. -/
  statusCode : ℕ := 0
  statusMessage : String := ""
  deriving DecidableEq

/-- `_event_to_span`; none when it raises, and no span for `ACTIVATION_START`. -/
def eventToSpan (event : TraceEventMessage) : Option (Option OtlpSpan) :=
  if event.eventType = EventType.activationStart.toInt32 then some none
  else do
    let name ← eventTypeName event.eventType
    let startTimeUnixNano ← fixed64Of (event.startMs.toInt * 1000000)
    let endTimeUnixNano ← fixed64Of (event.endMs.toInt * 1000000)
    let span : OtlpSpan := {
      traceId := event.traceId
      spanId := event.spanId
      parentSpanId := event.parentSpanId
      name := name.toLower
      startTimeUnixNano
      endTimeUnixNano
      attributes := event.attributes.entries }
    return some (if event.eventType = EventType.error.toInt32 then
      { span with
        statusCode := 2
        statusMessage := (event.attributes.get? reasonAttribute).getD "" }
      else span)

/-! ### What is exported -/

/-- The last millisecond whose nanoseconds 64 bits hold. -/
def nanosMaxMs : Int := 18446744073709

/-- The times of an event that a span takes. -/
def InNanos (ms : Int) : Prop := 0 ≤ ms ∧ ms ≤ nanosMaxMs

/-- The times of an event that a row takes. -/
def InCalendar (ms : Int) : Prop := datetimeMinMs ≤ ms ∧ ms ≤ datetimeMaxMs

/-- Neither conversion raises, the times of a span are those of the event, and the instant of a row
is in the calendar. -/
def Exports (event : TraceEventMessage) : Prop :=
  (∃ span, eventToSpan event = some span ∧ ∀ s ∈ span,
    (s.startTimeUnixNano.toNat : Int) = event.startMs.toInt * 1000000 ∧
      (s.endTimeUnixNano.toNat : Int) = event.endMs.toInt * 1000000) ∧
  ∃ row, traceEventToRow event = some row ∧ row.eventTime = some event.startMs.toInt ∧
    InCalendar event.startMs.toInt

/-- An event whose type has a name, whose start is in the calendar, and whose times a span can
count, if it has one. -/
structure Exportable (event : TraceEventMessage) : Prop where
  named : (eventTypeName event.eventType).isSome
  dated : InCalendar event.startMs.toInt
  counted : event.eventType ≠ EventType.activationStart.toInt32 →
    InNanos event.startMs.toInt ∧ InNanos event.endMs.toInt

variable {event : TraceEventMessage}

theorem datetimeOf_isSome_iff {ms : Int} : (datetimeOf ms).isSome ↔ InCalendar ms := by
  rw [datetimeOf, InCalendar]
  split_ifs with h <;> simp [h]

theorem datetimeOf_eq_some_iff {ms t : Int} : datetimeOf ms = some t ↔ InCalendar ms ∧ t = ms := by
  rw [datetimeOf, InCalendar]
  split_ifs with h <;> simp [h, eq_comm]

theorem fixed64Of_isSome_iff {ms : Int} : (fixed64Of (ms * 1000000)).isSome ↔ InNanos ms := by
  rw [fixed64Of, InNanos, nanosMaxMs]
  split_ifs with h
  · simp only [Option.isSome_some, true_iff]
    omega
  · simp only [Option.isSome_none, Bool.false_eq_true, false_iff]
    omega

/-- A row is made of an event whose type has a name and whose start is in the calendar. -/
theorem traceEventToRow_isSome_iff : (traceEventToRow event).isSome ↔
    (eventTypeName event.eventType).isSome ∧ InCalendar event.startMs.toInt := by
  rw [← datetimeOf_isSome_iff, traceEventToRow]
  cases eventTypeName event.eventType <;> cases datetimeOf event.startMs.toInt <;> simp

/-- The instant of a row is the start of its event. -/
theorem eventTime_of_row {row : TraceRow} (h : traceEventToRow event = some row) :
    row.eventTime = some event.startMs.toInt := by
  rw [traceEventToRow] at h
  obtain ⟨name, -, h⟩ := Option.bind_eq_some_iff.mp h
  obtain ⟨eventTime, htime, h⟩ := Option.bind_eq_some_iff.mp h
  obtain rfl := Option.some.inj h
  exact congrArg some (datetimeOf_eq_some_iff.mp htime).2

/-- A span is made of an event whose type has a name and whose times it can count. -/
theorem eventToSpan_isSome_iff : (eventToSpan event).isSome ↔
    event.eventType = EventType.activationStart.toInt32 ∨
      (eventTypeName event.eventType).isSome ∧ InNanos event.startMs.toInt ∧
        InNanos event.endMs.toInt := by
  rw [← fixed64Of_isSome_iff, ← fixed64Of_isSome_iff, eventToSpan]
  by_cases hstart : event.eventType = EventType.activationStart.toInt32
  · simp [hstart]
  · simp only [hstart, if_false, false_or]
    cases eventTypeName event.eventType <;> cases fixed64Of (event.startMs.toInt * 1000000) <;>
      cases fixed64Of (event.endMs.toInt * 1000000) <;> simp

/-- A span has the times of its event. -/
theorem times_of_span {span : Option OtlpSpan} (h : eventToSpan event = some span) : ∀ s ∈ span,
    (s.startTimeUnixNano.toNat : Int) = event.startMs.toInt * 1000000 ∧
      (s.endTimeUnixNano.toNat : Int) = event.endMs.toInt * 1000000 := by
  intro s hs
  rw [eventToSpan] at h
  by_cases hstart : event.eventType = EventType.activationStart.toInt32
  · rw [if_pos hstart] at h
    rw [← Option.some.inj h] at hs
    cases hs
  · rw [if_neg hstart] at h
    obtain ⟨name, -, h⟩ := Option.bind_eq_some_iff.mp h
    obtain ⟨start, hstarts, h⟩ := Option.bind_eq_some_iff.mp h
    obtain ⟨stop, hstops, h⟩ := Option.bind_eq_some_iff.mp h
    have hs' := Option.some.inj ((Option.some.inj h).trans hs)
    rw [fixed64Of_eq_some_iff] at hstarts hstops
    rw [← hs', hstarts, hstops]
    split_ifs <;> exact ⟨rfl, rfl⟩

/-- **What is exported.** An event is exported, to a span and to a row, exactly when its type has a
name, its start is in the calendar, and both of its times are nanoseconds of 64 bits unless it
starts an activation. -/
theorem exports_iff (event : TraceEventMessage) : Exports event ↔ Exportable event := by
  constructor
  · rintro ⟨⟨span, hspan, -⟩, row, hrow, -⟩
    have hspans := eventToSpan_isSome_iff.mp (Option.isSome_of_eq_some hspan)
    obtain ⟨hnamed, hdated⟩ := traceEventToRow_isSome_iff.mp (Option.isSome_of_eq_some hrow)
    exact ⟨hnamed, hdated, fun hne => (hspans.resolve_left hne).2⟩
  · rintro ⟨hnamed, hdated, hcounted⟩
    have hspans : (eventToSpan event).isSome := by
      rw [eventToSpan_isSome_iff]
      by_cases hstart : event.eventType = EventType.activationStart.toInt32
      · exact .inl hstart
      · exact .inr ⟨hnamed, hcounted hstart⟩
    obtain ⟨span, hspan⟩ := Option.isSome_iff_exists.mp hspans
    obtain ⟨row, hrow⟩ := Option.isSome_iff_exists.mp
      (traceEventToRow_isSome_iff.mpr ⟨hnamed, hdated⟩)
    exact ⟨⟨span, hspan, times_of_span hspan⟩, row, hrow, eventTime_of_row hrow, hdated⟩

/-- An event of a type that a newer schema declares is neither made a span nor a row. -/
theorem newer_type_not_exported : ¬ Exports { eventType := 8, startMs := 1000, endMs := 1000 } := by
  rintro ⟨⟨span, hspan, -⟩, -⟩
  have hnone : eventToSpan { eventType := 8, startMs := 1000, endMs := 1000 } = none := by decide
  rw [hnone] at hspan
  cases hspan

end BeamAgents
