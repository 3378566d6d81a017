import BeamAgents.Observability.Exporters

/-!
# Reading the rows of the trace table

`decode_bigquery_rows` of `console/_ingest.py`, over rows that somebody sends, and the row decoder
of `console/_sources/_bigquery.py`, over rows that a query returns. Both undo `trace_event_to_row`,
and were written apart: they differ in what they make of a NULL and of a text that is empty, and in
that the one raises at the first row that it cannot read and the other counts it. Neither reads
`event_time`. Of a row that the encoder wrote both read the event, without the fields that the
encoder's schema does not know.

## Main definitions

* `Bytes.fromHex`: `bytes.fromhex`.
* `Ingest.rowToEvent`, `decodeBigqueryRows`.
* `BigQueryTraceSource.rowToEvent`, `BigQueryTraceSource.decode`.

## Main results

* `Bytes.fromHex_hex`: bytes are read back from their digits.
* `Ingest.rowToEvent_row`, `BigQueryTraceSource.rowToEvent_row`: what is read of one row.
* `rows_lossless`: what both decoders read of the rows of events.
-/

namespace BeamAgents

open Containers

/-! ### Digits -/

/-- The value of a hexadecimal digit of either case. -/
def hexDigitValue (c : Char) : Option ℕ :=
  if '0' ≤ c ∧ c ≤ '9' then some (c.toNat - 48)
  else if 'a' ≤ c ∧ c ≤ 'f' then some (c.toNat - 87)
  else if 'A' ≤ c ∧ c ≤ 'F' then some (c.toNat - 55)
  else none

/-- The ASCII white space that `bytes.fromhex` skips. -/
def isHexSpace (c : Char) : Bool := c.toNat = 32 || (9 ≤ c.toNat && c.toNat ≤ 13)

/-- The bytes of pairs of digits, with white space between the pairs. -/
def fromHexChars : List Char → Option Bytes
  | [] => some []
  | [c] => if isHexSpace c then some [] else none
  | c :: d :: rest =>
    if isHexSpace c then fromHexChars (d :: rest)
    else do
      let high ← hexDigitValue c
      let low ← hexDigitValue d
      let bytes ← fromHexChars rest
      return UInt8.ofNat (16 * high + low) :: bytes

/-- `bytes.fromhex`; none is its `ValueError`. -/
def Bytes.fromHex (text : String) : Option Bytes := fromHexChars text.toList

theorem hexDigitValue_hexDigit {n : ℕ} (h : n < 16) : hexDigitValue (hexDigit n) = some n := by
  have hall : ∀ n : Fin 16, hexDigitValue (hexDigit n) = some n.val := by decide
  exact hall ⟨n, h⟩

theorem isHexSpace_hexDigit {n : ℕ} (h : n < 16) : isHexSpace (hexDigit n) = false := by
  have hall : ∀ n : Fin 16, isHexSpace (hexDigit n) = false := by decide
  exact hall ⟨n, h⟩

/-- **Bytes are read back from their digits.** -/
@[simp] theorem Bytes.fromHex_hex (b : Bytes) : fromHex b.hex = some b := by
  rw [fromHex, hex, String.toList_ofList]
  induction b with
  | nil => rfl
  | cons x b ih =>
    have hlt := x.toNat_lt
    have hhigh : x.toNat / 16 < 16 := by omega
    have hlow : x.toNat % 16 < 16 := by omega
    have hsplit : 16 * (x.toNat / 16) + x.toNat % 16 = x.toNat := Nat.div_add_mod ..
    rw [List.flatMap_cons, List.cons_append, List.cons_append, List.nil_append, fromHexChars,
      isHexSpace_hexDigit hhigh, hexDigitValue_hexDigit hhigh, hexDigitValue_hexDigit hlow, ih]
    change some (UInt8.ofNat (16 * (x.toNat / 16) + x.toNat % 16) :: b) = some (x :: b)
    rw [hsplit, UInt8.ofNat_toNat]

/-! ### NULLs -/

/-- `value or fallback` for a text: a NULL and the empty text count as absent. -/
def textOr (value : Option String) (fallback : String) : String :=
  match value with
  | none => fallback
  | some text => if text = "" then fallback else text

@[simp] theorem textOr_empty (text : String) : textOr (some text) "" = text := by
  rw [textOr]
  split_ifs with h
  · exact h.symm
  · rfl

/-! ### The decoder of the ingest module -/

/-- `_from_hex`. -/
def Ingest.fromHex (value : Option String) : Option Bytes := Bytes.fromHex (textOr value "")

/-- `_row_to_event`; none when it raises. -/
def Ingest.rowToEvent (row : TraceRow) : Option TraceEventMessage := do
  let eventType ← eventTypeValue (textOr row.eventType "EVENT_TYPE_UNSPECIFIED")
  let traceId ← fromHex row.traceId
  let spanId ← fromHex row.spanId
  let parentSpanId ← fromHex row.parentSpanId
  let entityKey ← fromHex row.entityKey
  let seq ← int64Of (row.seq.getD 0)
  let stepIndex ← uint32Of (row.stepIndex.getD 0)
  let startMs ← int64Of (row.startMs.getD 0)
  let endMs ← int64Of (row.endMs.getD 0)
  -- `str` of a NULL key is the text None.
  let attributes : Attributes := .ofList (row.attributes.map fun entry =>
    (entry.key.getD "None", textOr entry.value ""))
  return { traceId, spanId, parentSpanId, entityKey, seq, stepIndex, eventType, attributes, startMs,
           endMs }

/-- `decode_bigquery_rows`; none when it raises. -/
def decodeBigqueryRows (rows : List TraceRow) : Option (List TraceEventMessage) :=
  rows.mapM Ingest.rowToEvent

/-! ### The decoder of the BigQuery source -/

namespace BigQueryTraceSource

/-- An entry of the repeated record; a NULL key is a `TypeError`. -/
def attributeOf (entry : AttributeRow) : Option (String × String) :=
  entry.key.map fun key => (key, textOr entry.value "")

/-- `_row_to_event`; none when it raises. -/
def rowToEvent (row : TraceRow) : Option TraceEventMessage := do
  let traceId ← Bytes.fromHex (textOr row.traceId "")
  let spanId ← Bytes.fromHex (textOr row.spanId "")
  let parentSpanId ← Bytes.fromHex (textOr row.parentSpanId "")
  let entityKey ← Bytes.fromHex (textOr row.entityKey "")
  let seq ← int64Of (row.seq.getD 0)
  let stepIndex ← uint32Of (row.stepIndex.getD 0)
  -- The constructor takes a NULL as a field that is not set.
  let eventType ← match row.eventType with
    | none => some 0
    | some name => eventTypeValue name
  let startMs ← int64Of (row.startMs.getD 0)
  let endMs ← int64Of (row.endMs.getD 0)
  let attributes ← row.attributes.mapM attributeOf
  return { traceId, spanId, parentSpanId, entityKey, seq, stepIndex, eventType,
           attributes := .ofList attributes, startMs, endMs }

/-- `_decode`: the events, and the number of rows that could not be read. -/
def decode (rows : List TraceRow) : List TraceEventMessage × ℕ :=
  (rows.filterMap rowToEvent, rows.countP fun row => (rowToEvent row).isNone)

end BigQueryTraceSource

/-! ### What is read of a row -/

/-- An event without the fields that the schema does not know. -/
def TraceEventMessage.known (event : TraceEventMessage) : TraceEventMessage :=
  { event with unknown := .empty }

section Row

variable {event : TraceEventMessage} {row : TraceRow}

/-- A type that has a name is not read as absent. -/
theorem eventTypeValue_textOr {number : Int32} {name : String}
    (h : eventTypeName number = some name) :
    eventTypeValue (textOr (some name) "EVENT_TYPE_UNSPECIFIED") = some number := by
  have hvalue := eventTypeValue_of_name h
  have hname : name ≠ "" := by
    rintro rfl
    have hnone : eventTypeValue "" = none := by decide
    rw [hnone] at hvalue
    cases hvalue
  rw [textOr, if_neg hname, hvalue]

theorem Ingest.rowToEvent_row (h : traceEventToRow event = some row) :
    rowToEvent row = some event.known := by
  obtain ⟨name, hname, h⟩ := Option.bind_eq_some_iff.mp h
  obtain ⟨eventTime, -, h⟩ := Option.bind_eq_some_iff.mp h
  obtain rfl := Option.some.inj h
  have hattributes :
      (event.attributes.entries.map fun p => (⟨some p.1, some p.2⟩ : AttributeRow)).map
      (fun entry => (entry.key.getD "None", textOr entry.value "")) =
      event.attributes.entries := by
    rw [List.map_map]
    refine (List.map_congr_left fun p _ => ?_).trans (List.map_id _)
    simp
  simp [rowToEvent, fromHex, eventTypeValue_textOr hname, hattributes, TraceEventMessage.known]

theorem BigQueryTraceSource.rowToEvent_row (h : traceEventToRow event = some row) :
    rowToEvent row = some event.known := by
  obtain ⟨name, hname, h⟩ := Option.bind_eq_some_iff.mp h
  obtain ⟨eventTime, -, h⟩ := Option.bind_eq_some_iff.mp h
  obtain rfl := Option.some.inj h
  have hattributes : (event.attributes.entries.map
      fun p => (⟨some p.1, some p.2⟩ : AttributeRow)).mapM attributeOf =
      some event.attributes.entries := by
    generalize event.attributes.entries = entries
    induction entries with
    | nil => rfl
    | cons p entries ih => simp [attributeOf, ih]
  simp [rowToEvent, eventTypeValue_of_name hname, hattributes, TraceEventMessage.known]

end Row

/-- **Rows lose nothing.** Of the rows of events whose type has a name and whose start is in the
calendar, both decoders read the events, with every field that the schema knows. -/
theorem rows_lossless (events : List TraceEventMessage)
    (h : ∀ event ∈ events,
      (eventTypeName event.eventType).isSome ∧ InCalendar event.startMs.toInt) :
    ∃ rows, events.mapM traceEventToRow = some rows ∧
      decodeBigqueryRows rows = some (events.map TraceEventMessage.known) ∧
      BigQueryTraceSource.decode rows = (events.map TraceEventMessage.known, 0) := by
  induction events with
  | nil => exact ⟨[], rfl, rfl, rfl⟩
  | cons event events ih =>
    obtain ⟨hevent, hevents⟩ := List.forall_mem_cons.mp h
    obtain ⟨row, hrow⟩ := Option.isSome_iff_exists.mp (traceEventToRow_isSome_iff.mpr hevent)
    obtain ⟨rows, hrows, hingest, hsource⟩ := ih hevents
    have hone := Ingest.rowToEvent_row hrow
    have hother := BigQueryTraceSource.rowToEvent_row hrow
    rw [decodeBigqueryRows] at hingest
    rw [BigQueryTraceSource.decode, Prod.mk.injEq] at hsource
    refine ⟨row :: rows, by simp [hrow, hrows], ?_, ?_⟩
    · simp [decodeBigqueryRows, hone, hingest]
    · simp [BigQueryTraceSource.decode, hother, hsource]

/-- Two events, one of them with empty identifiers and an empty attribute, pass through rows. -/
theorem rows_lossless_two :
    let events : List TraceEventMessage := [
      { eventType := 2, startMs := 1700000000000, attributes := .ofList [("b", ""), ("", "x")] },
      { traceId := [0, 255], eventType := 7, startMs := -1, endMs := -1 }]
    ∃ rows, events.mapM traceEventToRow = some rows ∧ decodeBigqueryRows rows = some events := by
  intro events
  obtain ⟨rows, hrows, hread, -⟩ := rows_lossless events (by unfold InCalendar; decide)
  exact ⟨rows, hrows, hread⟩

end BeamAgents
