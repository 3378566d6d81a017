import BeamAgents.Console.ErrorStore
import BeamAgents.Console.Framing
import BeamAgents.Observability.BatchExport
import BeamAgents.Protos.Envelopes

/-!
# Dead letters on the wire

`core/error_records.py` and the decoders of error payloads of `console/_ingest.py`. On a message bus
a record is the external event of an envelope; the console's own sink sends it bare, or a stream of
them. The decoder is not told which: it tries an envelope, a bare record and a stream, in this
order, and takes the first of them that holds a record with a reason.

A bare record parses as an envelope whose external event is the detail of the record, so that it is
read as itself unless its detail is the bytes of another record.

## Main definitions

* `serializeErrorEnvelope`.
* `parseErrorRecord`, `decodeOneError`, `decodeBatch`, `decodeErrorPayload`.

## Main results

* `decodeErrorPayload_envelope`, `decodeErrorPayload_record`, `decodeErrorPayload_frames`: what is
  read of each of the three.
-/

namespace BeamAgents

open Wire Wire.Scalar

/-! ### The sinks -/

/-- `serialize_error_envelope`; none when the time of the record is out of range. -/
def serializeErrorEnvelope (error : ActivationError) : Option (Bytes × Bytes) := do
  let record ← error.toRecord
  let eventTimeMs ← int64Of error.eventTimeMs
  let envelope : AgentEnvelopeMessage :=
    { entityKey := error.entityKey, eventTimeMs, payload := .externalEvent record.serialize }
  return (error.entityKey, AgentEnvelopeMessage.codec.serialize envelope)

/-! ### The decoder -/

/-- `_parse_error_record`: a record without a reason is none. -/
def parseErrorRecord (payload : Bytes) : Option ActivationErrorRecordMessage :=
  (ActivationErrorRecordMessage.codec.parse payload).filter (·.reason ≠ "")

/-- `_decode_one_error`. -/
def decodeOneError (payload : Bytes) : Option ActivationErrorRecordMessage :=
  match (AgentEnvelopeMessage.codec.parse payload).map AgentEnvelopeMessage.payload with
  | some (.externalEvent event) => (parseErrorRecord event).or (parseErrorRecord payload)
  | _ => parseErrorRecord payload

/-- A `ValueError` of `_decode_batch`: the payload is neither a record nor a batch, or it ends
inside a record, with what was read before. -/
inductive BatchError (α : Type)
  | neither
  | truncated (recordsRead trailingBytes : ℕ) (records : List α)
  deriving DecidableEq

/-- `_decode_batch`. -/
def decodeBatch {α : Type} (decodeOne : Bytes → Option α) (payload : Bytes) :
    Except (BatchError α) (List α) :=
  if payload = [] then .ok []
  else
    match decodeOne payload with
    | some single => .ok [single]
    | none =>
      let bounds := frameBounds payload
      match bounds.mapM fun bound => decodeOne ((payload.take bound.2).drop bound.1) with
      | none | some [] => .error .neither
      | some records =>
        let consumed := framesEnd bounds
        if consumed ≠ payload.length then
          .error (.truncated records.length (payload.length - consumed) records)
        else .ok records

/-- `decode_error_payload`. -/
def decodeErrorPayload (payload : Bytes) :
    Except (BatchError ActivationErrorRecordMessage) (List ActivationErrorRecordMessage) :=
  decodeBatch decodeOneError payload

/-! ### One record -/

section Record

variable {record : ActivationErrorRecordMessage} {payload : Bytes}

theorem parseErrorRecord_serialize (hreason : record.reason ≠ "")
    (hfits : ActivationErrorRecordMessage.codec.Fits record) :
    parseErrorRecord record.serialize = some record := by
  rw [parseErrorRecord, ActivationErrorRecordMessage.serialize, MessageCodec.parse_serialize hfits,
    Option.filter_some, if_pos (decide_eq_true hreason)]

/-- Of an envelope the external event is tried. -/
theorem decodeOneError_of_parse {envelope : AgentEnvelopeMessage} {event : Bytes}
    (hparse : AgentEnvelopeMessage.codec.parse payload = some envelope)
    (hevent : envelope.payload = .externalEvent event) :
    decodeOneError payload = (parseErrorRecord event).or (parseErrorRecord payload) := by
  rw [decodeOneError, hparse, Option.map_some, hevent]

/-- A payload that holds one record. -/
theorem decodeErrorPayload_of_one (h : decodeOneError payload = some record) :
    decodeErrorPayload payload = .ok [record] := by
  have hne : payload ≠ [] := by
    rintro rfl
    have hnone : decodeOneError [] = none := rfl
    rw [hnone] at h
    cases h
  rw [decodeErrorPayload, decodeBatch, if_neg hne, h]

/-- The fields of a record that was not received. -/
theorem fields_record (hunknown : record.unknown = .empty) :
    ActivationErrorRecordMessage.schema.fields record =
      [bytes.one 1 record.entityKey, string.one 2 record.reason, string.one 3 record.detail,
        int64.one 4 record.eventTimeMs].flatMap Part.fields := by
  rw [Schema.fields]
  change _ ++ record.unknown.fields = _
  rw [hunknown]
  exact List.append_nil _

/-- The values of a record under a tag that it does not have. -/
theorem select_record (hunknown : record.unknown = .empty) {tag : ℕ × ℕ}
    (htag : tag ∉ ActivationErrorRecordMessage.tags) :
    select tag (ActivationErrorRecordMessage.schema.fields record) = [] := by
  rw [fields_record hunknown, select, List.map_eq_nil_iff, List.filter_eq_nil_iff]
  intro f hf heq
  obtain ⟨p, hp, hfp⟩ := List.mem_flatMap.mp hf
  have hparts : p ∈ ActivationErrorRecordMessage.schema.parts record := hp
  have htags : p.tag ∈ ActivationErrorRecordMessage.schema.tags := Schema.tag_mem hparts
  rw [← Part.tag_of_mem_fields hfp, of_decide_eq_true heq] at htags
  exact htag htags

/-- Of a bare record the reader of envelopes takes the detail for the member. -/
theorem readPayload_record (hunknown : record.unknown = .empty) :
    PayloadMessage.read (ActivationErrorRecordMessage.schema.fields record) =
      some (if record.detail = "" then .unset else .externalEvent (utf8 record.detail)) := by
  have hall {M : Type} (c : MessageCodec M) {number : ℕ}
      (htag : (number, 2) ∉ ActivationErrorRecordMessage.tags) :
      c.all number (ActivationErrorRecordMessage.schema.fields record) = some [] := by
    rw [MessageCodec.all, select_record hunknown htag]
    rfl
  have hheld : heldFields PayloadMessage.tags (ActivationErrorRecordMessage.schema.fields record) =
      if record.detail = "" then [] else [.of 3 (string.encode record.detail)] := by
    have hparts : [bytes.one 1 record.entityKey, string.one 2 record.reason,
        string.one 3 record.detail, int64.one 4 record.eventTimeMs].filter
          (·.tag ∈ PayloadMessage.tags) = [string.one 3 record.detail] := rfl
    rw [fields_record hunknown, heldFields_flatMap, hparts, List.flatMap_singleton, Part.fields]
    change lastRun (List.map (Field.of 3)
      (if record.detail = "" then [] else [string.encode record.detail])).reverse = _
    split_ifs
    · rfl
    · exact lastRun_singleton _
  rw [PayloadMessage.read, hall _ (by decide), hall _ (by decide), hall _ (by decide), hheld]
  split_ifs <;> rfl

/-- **A bare record as an envelope**: its detail is the external event. -/
theorem parse_envelope_record (hfits : ActivationErrorRecordMessage.codec.Fits record)
    (hunknown : record.unknown = .empty) :
    (AgentEnvelopeMessage.codec.parse record.serialize).map AgentEnvelopeMessage.payload =
      some (if record.detail = "" then .unset else .externalEvent (utf8 record.detail)) := by
  obtain ⟨vs, hvs, hfields⟩ := Schema.parseFields_serialize hfits
  have hkey : bytes.last 1 (ActivationErrorRecordMessage.schema.fields record) =
      some record.entityKey := last_eq (Schema.select_fields (List.mem_of_getElem? (i := 0) rfl))
  have htime : int64.last 2 (ActivationErrorRecordMessage.schema.fields record) = some 0 := by
    rw [Scalar.last, Scalar.all, select_record hunknown (by decide)]
    rfl
  have hread : AgentEnvelopeMessage.codec.parse record.serialize =
      AgentEnvelopeMessage.read (ActivationErrorRecordMessage.schema.fields record) (.of vs) := by
    have hfields' : vs.map Subtype.val = ActivationErrorRecordMessage.schema.fields record :=
      hfields
    rw [← hfields', MessageCodec.parse, ActivationErrorRecordMessage.serialize, hvs]
    rfl
  rw [hread, AgentEnvelopeMessage.read, hkey, htime, readPayload_record hunknown]
  rfl

/-- **What is read of a bare record**: the record that its detail is the bytes of, if there is one,
and otherwise itself. -/
theorem decodeOneError_record (hreason : record.reason ≠ "")
    (hfits : ActivationErrorRecordMessage.codec.Fits record) (hunknown : record.unknown = .empty) :
    decodeOneError record.serialize =
      some ((parseErrorRecord (utf8 record.detail)).getD record) := by
  have hself := parseErrorRecord_serialize hreason hfits
  rw [decodeOneError, parse_envelope_record hfits hunknown]
  split_ifs with hdetail
  · rw [hdetail]
    exact hself
  · change (parseErrorRecord (utf8 record.detail)).or (parseErrorRecord record.serialize) = _
    rw [hself]
    cases parseErrorRecord (utf8 record.detail) <;> rfl

/-- **What is read of an enveloped record**: the record. -/
theorem decodeErrorPayload_envelope {error : ActivationError} {sent : Bytes × Bytes}
    (h : serializeErrorEnvelope error = some sent) (hreason : error.reason ≠ "")
    (hfits : sent.2.length ≤ Limits.standard.maxLength) :
    ∃ record, error.toRecord = some record ∧ decodeErrorPayload sent.2 = .ok [record] := by
  obtain ⟨record, hrecord, h⟩ := Option.bind_eq_some_iff.mp h
  obtain ⟨eventTimeMs, -, h⟩ := Option.bind_eq_some_iff.mp h
  obtain rfl := Option.some.inj h
  let envelope : AgentEnvelopeMessage :=
    { entityKey := error.entityKey, eventTimeMs, payload := .externalEvent record.serialize }
  have hsent : record.reason ≠ "" := by
    obtain ⟨time, -, htime⟩ := Option.bind_eq_some_iff.mp hrecord
    obtain rfl := Option.some.inj htime
    exact hreason
  have hinner : ActivationErrorRecordMessage.codec.Fits record := by
    have hmem : Field.of 3 (bytes.encode record.serialize) ∈
        AgentEnvelopeMessage.schema.fields envelope :=
      List.mem_append_left _ (List.mem_flatMap.mpr
        ⟨bytes.present 3 (some record.serialize), List.mem_of_getElem? (i := 2) rfl,
          List.mem_cons_self⟩)
    have hlength : record.serialize.length ≤
        (Field.of 3 (bytes.encode record.serialize)).raw.length := by
      change _ ≤ (writeTag 3 2 ++ (writeVarint record.serialize.length ++ record.serialize)).length
      simp only [List.length_append]
      omega
    exact (hlength.trans (Schema.length_raw_le hmem)).trans hfits
  have hparse : AgentEnvelopeMessage.codec.parse (AgentEnvelopeMessage.codec.serialize envelope) =
      some envelope := MessageCodec.parse_serialize hfits
  have hone : decodeOneError (AgentEnvelopeMessage.codec.serialize envelope) = some record := by
    rw [decodeOneError_of_parse hparse rfl, parseErrorRecord_serialize hsent hinner]
    rfl
  exact ⟨record, hrecord, decodeErrorPayload_of_one hone⟩

end Record

/-! ### Streams of records -/

/-- A record that a sink writes: it has a reason, no fields of others, and is not too long. -/
structure ActivationErrorRecordMessage.Sent (record : ActivationErrorRecordMessage) : Prop where
  reason : record.reason ≠ ""
  fits : ActivationErrorRecordMessage.codec.Fits record
  unknown : record.unknown = .empty

/-- What a bare record is read as. -/
def ActivationErrorRecordMessage.readBare (record : ActivationErrorRecordMessage) :
    ActivationErrorRecordMessage :=
  (parseErrorRecord (utf8 record.detail)).getD record

section Streams

variable {records : List ActivationErrorRecordMessage} {tail : Bytes}

/-- Between the bounds of a stream are its items. -/
theorem map_frameBoundsFrom (h : Piece tail) (items : List Bytes) (before payload : Bytes)
    (hpayload : payload = before ++ (delimited items ++ tail)) :
    (frameBoundsFrom payload before.length).map
      (fun bound => (payload.take bound.2).drop bound.1) = items := by
  induction items generalizing before with
  | nil =>
    rw [hpayload, delimited_nil, List.nil_append, frameBoundsFrom_piece h]
    rfl
  | cons item items ih =>
    have hpos := length_delimit_pos item
    have hlength := length_delimit item
    have hnext : payload = (before ++ delimit item) ++ (delimited items ++ tail) := by
      rw [hpayload, delimited_cons, List.append_assoc, List.append_assoc]
    have hitem : payload = before ++ (delimit item ++ (delimited items ++ tail)) := by
      rw [hnext, List.append_assoc]
    rw [frameBoundsFrom, dif_pos (by rw [hitem]; simp only [List.length_append]; omega)]
    split
    · rename_i hread
      rw [hitem, readVarintAt_delimit] at hread
      cases hread
    · rename_i length bodyStart hread
      rw [hitem, readVarintAt_delimit] at hread
      obtain ⟨rfl, rfl⟩ := Prod.mk.inj (Option.some.inj hread)
      have hstop : before.length + (writeVarint item.length).length + item.length =
          (before ++ delimit item).length := by
        rw [List.length_append, hlength]
        omega
      have hrest := ih (before ++ delimit item) hnext
      have hbody : (payload.take (before ++ delimit item).length).drop
          (before.length + (writeVarint item.length).length) = item := by
        have hsplit : before ++ delimit item = (before ++ writeVarint item.length) ++ item := by
          rw [delimit, List.append_assoc]
        rw [hnext, List.take_left, hsplit, ← List.length_append, List.drop_left]
      dsimp only
      rw [hstop, if_neg (by rw [hnext]; simp only [List.length_append]; omega), List.map_cons,
        hrest, hbody]

theorem mapM_frameBounds {α : Type} (h : Piece tail) (items : List Bytes)
    (decodeOne : Bytes → Option α) :
    ((frameBounds (delimited items ++ tail)).mapM fun bound =>
      decodeOne (((delimited items ++ tail).take bound.2).drop bound.1)) =
        items.mapM decodeOne := by
  have hitems := map_frameBoundsFrom h items [] (delimited items ++ tail) rfl
  conv_rhs => rw [← hitems, List.mapM_map]
  rfl

/-- What is read of a stream, and of the beginning of one: one record, if the whole is read as one,
and otherwise what each of the complete items is read as. -/
theorem decodeBatch_frames {α : Type} {decodeOne : Bytes → Option α} {items : List Bytes}
    {values : List α} (hne : items ≠ []) (htail : Piece tail)
    (h : items.mapM decodeOne = some values) :
    decodeBatch decodeOne (delimited items ++ tail) =
      match decodeOne (delimited items ++ tail) with
      | some single => .ok [single]
      | none =>
        if tail = [] then .ok values
        else .error (.truncated values.length tail.length values) := by
  have hbounds := mapM_frameBounds htail items decodeOne
  have hend := framesEnd_append htail items
  rw [h] at hbounds
  obtain ⟨item, items, rfl⟩ := List.exists_cons_of_ne_nil hne
  have hpos := length_delimit_pos item
  have hnonempty : delimited (item :: items) ++ tail ≠ [] := by
    intro hnil
    have hlength := congrArg List.length hnil
    simp only [delimited_cons, List.length_append, List.length_nil] at hlength
    omega
  have hvalues : values ≠ [] := by
    rintro rfl
    rw [List.mapM_cons] at h
    obtain ⟨value, -, h⟩ := Option.bind_eq_some_iff.mp h
    obtain ⟨others, -, h⟩ := Option.bind_eq_some_iff.mp h
    cases h
  obtain ⟨value, values, rfl⟩ := List.exists_cons_of_ne_nil hvalues
  generalize delimited (item :: items) = stream at hbounds hend hnonempty ⊢
  rw [decodeBatch, if_neg hnonempty]
  cases decodeOne (stream ++ tail) with
  | some single => rfl
  | none =>
    simp only [hbounds, hend, List.length_append]
    by_cases htail' : tail = []
    · simp [htail']
    · simp [htail']

/-- What each of the records of a stream is read as. -/
theorem mapM_decodeOneError (h : ∀ record ∈ records, record.Sent) :
    (records.map ActivationErrorRecordMessage.serialize).mapM decodeOneError =
      some (records.map ActivationErrorRecordMessage.readBare) := by
  induction records with
  | nil => rfl
  | cons record records ih =>
    obtain ⟨hrecord, hrecords⟩ := List.forall_mem_cons.mp h
    rw [List.map_cons, List.mapM_cons, ih hrecords,
      decodeOneError_record hrecord.reason hrecord.fits hrecord.unknown]
    rfl

/-- **What is read of a stream**, and of the beginning of one: one record, if the whole happens to
be read as one, and otherwise what each of the complete records is read as. -/
theorem decodeErrorPayload_frames (h : ∀ record ∈ records, record.Sent) (hne : records ≠ [])
    (htail : Piece tail) :
    decodeErrorPayload (sinkFrame (records.map ActivationErrorRecordMessage.serialize) ++ tail) =
      match decodeOneError
          (sinkFrame (records.map ActivationErrorRecordMessage.serialize) ++ tail) with
      | some single => .ok [single]
      | none =>
        if tail = [] then .ok (records.map ActivationErrorRecordMessage.readBare)
        else .error (.truncated records.length tail.length
          (records.map ActivationErrorRecordMessage.readBare)) := by
  have hitems : records.map ActivationErrorRecordMessage.serialize ≠ [] := by simpa using hne
  rw [sinkFrame, framePayloads_eq, decodeErrorPayload,
    decodeBatch_frames hitems htail (mapM_decodeOneError h), List.length_map]
  cases decodeOneError (delimited (records.map ActivationErrorRecordMessage.serialize) ++ tail) <;>
    rfl

end Streams

/-- **Error payloads.** A dead letter on a message bus is read as itself, under its own entity. A
bare record is read as the record that its detail is the bytes of, if there is one, and otherwise as
itself. A stream is read as one record if the whole happens to be one; otherwise each of its records
is read as it would be alone, and a stream that ends inside a record is told from a whole one, with
what was read before. -/
theorem errorPayloads_read :
    (∀ error sent, serializeErrorEnvelope error = some sent → error.reason ≠ "" →
      sent.2.length ≤ Limits.standard.maxLength →
      sent.1 = error.entityKey ∧
        ∃ record, error.toRecord = some record ∧ decodeErrorPayload sent.2 = .ok [record]) ∧
    (∀ record : ActivationErrorRecordMessage, record.Sent →
      decodeErrorPayload record.serialize = .ok [record.readBare]) ∧
    ∀ (records : List ActivationErrorRecordMessage) (tail : Bytes),
      (∀ record ∈ records, record.Sent) → records ≠ [] → Piece tail →
      decodeErrorPayload
          (sinkFrame (records.map ActivationErrorRecordMessage.serialize) ++ tail) =
        match decodeOneError
            (sinkFrame (records.map ActivationErrorRecordMessage.serialize) ++ tail) with
        | some single => .ok [single]
        | none =>
          if tail = [] then .ok (records.map ActivationErrorRecordMessage.readBare)
          else .error (.truncated records.length tail.length
            (records.map ActivationErrorRecordMessage.readBare)) := by
  refine ⟨fun error sent h hreason hfits => ⟨?_, decodeErrorPayload_envelope h hreason hfits⟩,
    fun record hsent => decodeErrorPayload_of_one
      (decodeOneError_record hsent.reason hsent.fits hsent.unknown),
    fun records tail => decodeErrorPayload_frames⟩
  obtain ⟨record, -, h⟩ := Option.bind_eq_some_iff.mp h
  obtain ⟨eventTimeMs, -, h⟩ := Option.bind_eq_some_iff.mp h
  obtain rfl := Option.some.inj h
  rfl

/-- The record of a suspension that timed out. -/
def timedOutRecord : ActivationErrorRecordMessage :=
  { entityKey := [107], reason := "hitl_timeout", detail := "seq=3", eventTimeMs := 1000 }

theorem sent_timedOutRecord : timedOutRecord.Sent where
  reason := by decide
  fits := by
    change timedOutRecord.serialize.length ≤ Limits.standard.maxLength
    decide +kernel
  unknown := rfl

/-- The dead letter of a timeout over a bus, bare, and twice in a stream. -/
theorem errorPayloads_read_timeout :
    (∃ sent, serializeErrorEnvelope ⟨[107], "hitl_timeout", "seq=3", 1000⟩ = some sent ∧
      sent.1 = [107] ∧ decodeErrorPayload sent.2 = .ok [timedOutRecord]) ∧
    decodeErrorPayload timedOutRecord.serialize = .ok [timedOutRecord] ∧
    decodeErrorPayload (sinkFrame [timedOutRecord.serialize, timedOutRecord.serialize]) =
      .ok [timedOutRecord, timedOutRecord] := by
  have hbare : timedOutRecord.readBare = timedOutRecord := by decide +kernel
  have hstream : decodeOneError
      (sinkFrame [timedOutRecord.serialize, timedOutRecord.serialize] ++ []) = none := by
    decide +kernel
  refine ⟨?_, ?_, ?_⟩
  · obtain ⟨hkey, record, hrecord, hread⟩ := errorPayloads_read.1
      ⟨[107], "hitl_timeout", "seq=3", 1000⟩ _ rfl (by decide) (by decide +kernel)
    obtain rfl : timedOutRecord = record := Option.some.inj hrecord
    exact ⟨_, rfl, hkey, hread⟩
  · rw [errorPayloads_read.2.1 timedOutRecord sent_timedOutRecord, hbare]
  · have hread := errorPayloads_read.2.2 [timedOutRecord, timedOutRecord] []
      (by simp [sent_timedOutRecord]) (by decide) Piece.nil
    rw [List.map_cons, List.map_singleton, hstream] at hread
    simpa [hbare] using hread

end BeamAgents
