import BeamAgents.Console.DeadLetters
import BeamAgents.Protos.Snapshots
import BeamAgents.Wire.Shortest

/-!
# Payloads of the console's sink

What the decoders of `console/_ingest.py` make of the payloads that `console/_sink.py` writes. A
payload does not say whether it is one record or a stream of them: the decoders try one record
first, an error record by its reason and a snapshot by the bytes that it is written as again, and
read a stream when this fails. The length that a stream starts with may be the tag of a field, so
that a stream may pass for one record, with most of its bytes in fields that a record does not have.

A stream of one record never passes for that record itself, since what is written is the shortest
that is read.

## Main definitions

* `HoldsRecord`, `PassesForRecord`, `PassesForSnapshot`.
* `decodeOneSnapshot`, `decodeSnapshotPayload`.

## Main results

* `ActivationErrorRecordMessage.covers_of_parse`: what is read as a record covers what is written.
* `decodeOneError_delimit_ne`: a stream of one record does not pass for the record.
* `errorStream_iff`, `errorRecord_iff`, `errorEnvelope_read`, `snapshotStream_iff`, `snapshot_iff`:
  when each of the payloads is read as what was written.
* `payloads_inverted_iff`.
-/

namespace BeamAgents

open Wire Wire.Scalar

/-! ### What passes for one record -/

/-- The bytes of an error record that has a reason. -/
def HoldsRecord (payload : Bytes) : Prop :=
  ∃ record, ActivationErrorRecordMessage.codec.parse payload = some record ∧ record.reason ≠ ""

/-- The bytes of such a record, or of an envelope with such a record as its external event. -/
def PassesForRecord (payload : Bytes) : Prop :=
  HoldsRecord payload ∨ ∃ envelope event,
    AgentEnvelopeMessage.codec.parse payload = some envelope ∧
      envelope.payload = .externalEvent event ∧ HoldsRecord event

theorem parseErrorRecord_eq_none_iff {payload : Bytes} :
    parseErrorRecord payload = none ↔ ¬ HoldsRecord payload := by
  rw [parseErrorRecord, Option.filter_eq_none_iff]
  simp only [HoldsRecord, not_exists, not_and, decide_eq_true_eq]

theorem decodeOneError_eq_none_iff {payload : Bytes} :
    decodeOneError payload = none ↔ ¬ PassesForRecord payload := by
  rw [PassesForRecord, not_or, ← parseErrorRecord_eq_none_iff]
  cases hparse : AgentEnvelopeMessage.codec.parse payload with
  | none => simp [decodeOneError, hparse]
  | some envelope =>
    cases hpayload : envelope.payload with
    | externalEvent event =>
      rw [decodeOneError_of_parse hparse hpayload, Option.or_eq_none_iff,
        parseErrorRecord_eq_none_iff, parseErrorRecord_eq_none_iff]
      simp [hpayload, and_comm]
    | _ => simp [decodeOneError, hparse, hpayload]

/-! ### The shortest form of an error record -/

section Shortest

variable {record : ActivationErrorRecordMessage} {payload : Bytes}

/-- The fields of a record without unknown ones: each has a tag of the record, and the last one
under each tag counts. -/
theorem ActivationErrorRecordMessage.fields_of_parse
    (h : ActivationErrorRecordMessage.codec.parse payload = some record)
    (hunknown : record.unknown = .empty) :
    ∃ fs, lex .standard payload = some fs ∧
      (∀ f ∈ fs, f.tag ∈ ActivationErrorRecordMessage.tags) ∧
      bytes.last 1 fs = some record.entityKey ∧ string.last 2 fs = some record.reason ∧
      string.last 3 fs = some record.detail ∧ int64.last 4 fs = some record.eventTimeMs := by
  obtain ⟨vs, hvs, hread⟩ := Option.bind_eq_some_iff.mp h
  have hlex := map_parseFields payload
  rw [hvs, Option.map_some] at hlex
  obtain ⟨key, hkey, hread⟩ := Option.bind_eq_some_iff.mp hread
  obtain ⟨reason, hreason, hread⟩ := Option.bind_eq_some_iff.mp hread
  obtain ⟨detail, hdetail, hread⟩ := Option.bind_eq_some_iff.mp hread
  obtain ⟨time, htime, hread⟩ := Option.bind_eq_some_iff.mp hread
  obtain rfl := Option.some.inj hread
  refine ⟨vs.map Subtype.val, hlex.symm, fun f hf => ?_, hkey, hreason, hdetail, htime⟩
  have hnone : (UnknownFields.of vs : UnknownFields ActivationErrorRecordMessage.tags).fields =
      [] :=
    congrArg UnknownFields.fields hunknown
  rw [UnknownFields.fields_of] at hnone
  have hknown := List.filter_eq_nil_iff.mp hnone f hf
  simpa using hknown

/-- No field of a record is a group. -/
theorem ActivationErrorRecordMessage.value_ne_group {f : Field}
    (h : f.tag ∈ ActivationErrorRecordMessage.tags) :
    f.value ≠ .group := by
  intro hgroup
  have hmem : (f.number, 3) ∈ ActivationErrorRecordMessage.tags := by
    rwa [Field.tag, hgroup] at h
  simp [ActivationErrorRecordMessage.tags] at hmem

/-- **What is read as a record** covers the record as it is written. -/
theorem ActivationErrorRecordMessage.covers_of_parse
    (h : ActivationErrorRecordMessage.codec.parse payload = some record)
    (hunknown : record.unknown = .empty) : Covers payload record.serialize := by
  obtain ⟨fs, hlex, hknown, hkey, hreason, hdetail, htime⟩ :=
    ActivationErrorRecordMessage.fields_of_parse h hunknown
  have hread : ∀ f ∈ fs,
      readNumbered .standard f.raw = some ((f.number, .value f.value), []) := fun f hf =>
    readNumbered_of_lex hlex hf (ActivationErrorRecordMessage.value_ne_group (hknown f hf))
  have hnone : (ActivationErrorRecordMessage.schema.unknown record).fields = [] := by
    change record.unknown.fields = []
    rw [hunknown]
    rfl
  refine Schema.covers_serialize hlex hknown hnone fun p hp => ?_
  have hparts : p ∈ [bytes.one 1 record.entityKey, string.one 2 record.reason,
      string.one 3 record.detail, int64.one 4 record.eventTimeMs] := hp
  simp only [List.mem_cons, List.not_mem_nil, or_false] at hparts
  obtain rfl | rfl | rfl | rfl := hparts
  · exact covers_one exact_bytes hread hkey
  · exact covers_one exact_string hread hreason
  · exact covers_one exact_string hread hdetail
  · exact covers_one exact_int64 hread htime

/-- A record is longer than its detail. -/
theorem ActivationErrorRecordMessage.length_detail_lt (hreason : record.reason ≠ "") :
    (utf8 record.detail).length < record.serialize.length := by
  have hfield {number : ℕ} {text : String}
      (hp : string.one number text ∈ ActivationErrorRecordMessage.schema.parts record)
      (htext : text ≠ "") : (utf8 text).length < record.serialize.length := by
    have hvalues : (string.one number text).values = [string.encode text] := if_neg htext
    have hmem : Field.len number (utf8 text) ∈ ActivationErrorRecordMessage.schema.fields record :=
      List.mem_append_left _ (List.mem_flatMap.mpr
        ⟨_, hp, List.mem_map_of_mem (hvalues ▸ List.mem_cons_self)⟩)
    exact (length_lt_raw_len number (utf8 text)).trans_le (Schema.length_raw_le hmem)
  by_cases hdetail : record.detail = ""
  · have hlong := hfield (List.mem_of_getElem? (i := 1) rfl) hreason
    rw [hdetail]
    exact (Nat.zero_le _).trans_lt hlong
  · exact hfield (List.mem_of_getElem? (i := 2) rfl) hdetail

/-- A record whose detail is no record is read as itself. -/
theorem ActivationErrorRecordMessage.readBare_eq_iff (h : record.Sent) :
    record.readBare = record ↔ ¬ HoldsRecord (utf8 record.detail) := by
  rw [← parseErrorRecord_eq_none_iff, ActivationErrorRecordMessage.readBare]
  cases hparse : parseErrorRecord (utf8 record.detail) with
  | none => simp
  | some other =>
    have hne : other ≠ record := by
      rintro rfl
      obtain ⟨hread, -⟩ := Option.filter_eq_some_iff.mp hparse
      have hcovers := ActivationErrorRecordMessage.covers_of_parse hread h.unknown
      exact absurd hcovers.length_le
        (not_le.mpr (ActivationErrorRecordMessage.length_detail_lt h.reason))
    simp [hne]

/-- An external event that is read is the piece of a field. -/
theorem PayloadMessage.field_of_read {fs : List Field} {event : Bytes}
    (h : PayloadMessage.read fs = some (.externalEvent event)) :
    ∃ f ∈ fs, f.value = .len event := by
  obtain ⟨_, -, h⟩ := Option.bind_eq_some_iff.mp h
  obtain ⟨_, -, h⟩ := Option.bind_eq_some_iff.mp h
  obtain ⟨_, -, h⟩ := Option.bind_eq_some_iff.mp h
  obtain ⟨events, hevents, h⟩ := Option.bind_eq_some_iff.mp h
  obtain ⟨result, -, h⟩ := Option.bind_eq_some_iff.mp h
  obtain ⟨decision, -, h⟩ := Option.bind_eq_some_iff.mp h
  obtain ⟨request, -, h⟩ := Option.bind_eq_some_iff.mp h
  have hlast : events.getLast? = some event := by
    cases hlast : events.getLast? with
    | none =>
      rw [hlast] at h
      cases result <;> cases decision <;> cases request <;> cases h
    | some last =>
      rw [hlast] at h
      cases h
      rfl
  obtain ⟨f, hf, hvalue⟩ := exists_field_of_all hevents (List.mem_of_getLast? hlast)
  exact ⟨f, mem_of_mem_heldFields hf, (exact_bytes _ _ hvalue).symm⟩

/-- The event of an envelope is a piece among its fields. -/
theorem field_of_externalEvent {envelope : AgentEnvelopeMessage} {event : Bytes}
    (hparse : AgentEnvelopeMessage.codec.parse payload = some envelope)
    (hevent : envelope.payload = .externalEvent event) :
    ∃ fs, lex .standard payload = some fs ∧ ∃ f ∈ fs, f.value = .len event := by
  obtain ⟨vs, hvs, hread⟩ := Option.bind_eq_some_iff.mp hparse
  have hlex := map_parseFields payload
  rw [hvs, Option.map_some] at hlex
  refine ⟨vs.map Subtype.val, hlex.symm, ?_⟩
  obtain ⟨key, -, hread⟩ := Option.bind_eq_some_iff.mp hread
  obtain ⟨time, -, hread⟩ := Option.bind_eq_some_iff.mp hread
  obtain ⟨member, hmember, hread⟩ := Option.bind_eq_some_iff.mp hread
  obtain rfl := Option.some.inj hread
  obtain rfl : member = .externalEvent event := hevent
  exact PayloadMessage.field_of_read hmember

/-- The bytes of a record behind their length are not read as the record: the length would be the
tag of a field of it, which is below 128. -/
theorem parseErrorRecord_delimit_ne (h : record.Sent) :
    parseErrorRecord (delimit record.serialize) ≠ some record := by
  intro hread
  have hparse := (Option.filter_eq_some_iff.mp hread).1
  have hlength : record.serialize.length < 128 ^ 5 := lt_of_le_of_lt h.fits (by decide)
  obtain ⟨fs, hlex, hknown, -⟩ := ActivationErrorRecordMessage.fields_of_parse hparse h.unknown
  cases fs with
  | nil =>
    have hnil := (valid_of_lex hlex).2
    have hpos := length_delimit_pos record.serialize
    rw [← hnil] at hpos
    exact lt_irrefl 0 hpos
  | cons f fs =>
    have hf := hknown f List.mem_cons_self
    have htag :=
      tag_of_lex_writeVarint hlength hlex (ActivationErrorRecordMessage.value_ne_group hf)
    have hshort : 8 * f.number + f.value.wireType < 128 := by
      have hmem : (f.number, f.value.wireType) ∈ ActivationErrorRecordMessage.tags := hf
      simp only [ActivationErrorRecordMessage.tags, List.mem_cons, List.not_mem_nil, or_false,
        Prod.mk.injEq] at hmem
      omega
    exact not_covers_delimit (htag ▸ hshort)
      (ActivationErrorRecordMessage.covers_of_parse hparse h.unknown)

/-- **A stream of one record does not pass for the record**, nor does an event in it. -/
theorem decodeOneError_delimit_ne (h : record.Sent) :
    decodeOneError (delimit record.serialize) ≠ some record := by
  intro hread
  cases henvelope : AgentEnvelopeMessage.codec.parse (delimit record.serialize) with
  | none =>
    rw [decodeOneError, henvelope] at hread
    exact parseErrorRecord_delimit_ne h hread
  | some envelope =>
    cases hpayload : envelope.payload with
    | externalEvent event =>
      rw [decodeOneError_of_parse henvelope hpayload, Option.or_eq_some_iff] at hread
      rcases hread with hevent | ⟨-, hread⟩
      · -- the event is shorter than the record
        have hlength : record.serialize.length < 128 ^ 5 := lt_of_le_of_lt h.fits (by decide)
        obtain ⟨fs, hlex, f, hf, hvalue⟩ := field_of_externalEvent henvelope hpayload
        have hlt := length_lt_of_lex_writeVarint hlength hlex hf hvalue
        have hcovers := ActivationErrorRecordMessage.covers_of_parse
          (Option.filter_eq_some_iff.mp hevent).1 h.unknown
        exact absurd hcovers.length_le (not_le.mpr hlt)
      · exact parseErrorRecord_delimit_ne h hread
    | _ =>
      rw [decodeOneError, henvelope, Option.map_some, hpayload] at hread
      exact parseErrorRecord_delimit_ne h hread

end Shortest

/-! ### Payloads of error records -/

section Errors

variable {records : List ActivationErrorRecordMessage}

/-- No bytes pass for a record. -/
theorem not_passesForRecord_nil : ¬ PassesForRecord [] :=
  decodeOneError_eq_none_iff.mp rfl

/-- **A stream of error records** is read as its records unless it passes for one record, or the
detail of a record is the bytes of another. -/
theorem errorStream_iff (h : ∀ record ∈ records, record.Sent) :
    decodeErrorPayload (sinkFrame (records.map ActivationErrorRecordMessage.serialize)) =
        .ok records ↔
      ¬ PassesForRecord (sinkFrame (records.map ActivationErrorRecordMessage.serialize)) ∧
        ∀ record ∈ records, ¬ HoldsRecord (utf8 record.detail) := by
  rcases eq_or_ne records [] with rfl | hne
  · exact iff_of_true rfl ⟨not_passesForRecord_nil, by simp⟩
  have hread := decodeErrorPayload_frames h hne Piece.nil
  rw [List.append_nil] at hread
  rw [hread, ← decodeOneError_eq_none_iff]
  cases hone : decodeOneError (sinkFrame (records.map ActivationErrorRecordMessage.serialize)) with
  | some single =>
    refine iff_of_false (fun hsingle => ?_) (by simp)
    -- the stream would be one of the record that it is read as
    obtain rfl : [single] = records := Except.ok.inj hsingle
    have hsent := h single List.mem_cons_self
    rw [List.map_singleton, sinkFrame, framePayloads_eq, delimited_cons, delimited_nil,
      List.append_nil] at hone
    exact decodeOneError_delimit_ne hsent hone
  | none =>
    have hbare : records.map ActivationErrorRecordMessage.readBare = records ↔
        ∀ record ∈ records, ¬ HoldsRecord (utf8 record.detail) := by
      conv_lhs => rhs; rw [← List.map_id records]
      rw [List.map_inj_left]
      exact forall₂_congr fun record hrecord => ActivationErrorRecordMessage.readBare_eq_iff
        (h record hrecord)
    rw [← hbare]
    simp

/-- **A bare error record** is read as itself unless its detail is the bytes of another. -/
theorem errorRecord_iff {record : ActivationErrorRecordMessage} (h : record.Sent) :
    decodeErrorPayload record.serialize = .ok [record] ↔ ¬ HoldsRecord (utf8 record.detail) := by
  rw [decodeErrorPayload_of_one (decodeOneError_record h.reason h.fits h.unknown),
    ← ActivationErrorRecordMessage.readBare_eq_iff h]
  simp [ActivationErrorRecordMessage.readBare]

/-- **An envelope around an error record** is read as the record. -/
theorem errorEnvelope_read {record : ActivationErrorRecordMessage} {envelope : AgentEnvelopeMessage}
    (h : record.Sent) (hfits : AgentEnvelopeMessage.codec.Fits envelope)
    (hevent : envelope.payload = .externalEvent record.serialize) :
    decodeErrorPayload (AgentEnvelopeMessage.codec.serialize envelope) = .ok [record] := by
  refine decodeErrorPayload_of_one ?_
  rw [decodeOneError_of_parse (MessageCodec.parse_serialize hfits) hevent,
    parseErrorRecord_serialize h.reason h.fits]
  rfl

end Errors

/-! ### Payloads of snapshots -/

/-- `_decode_one_snapshot`. -/
def decodeOneSnapshot (payload : Bytes) : Option StateSnapshotMessage :=
  (StateSnapshotMessage.codec.parse payload).filter (·.serialize = payload)

/-- `decode_snapshot_payload`. -/
def decodeSnapshotPayload (payload : Bytes) :
    Except (BatchError StateSnapshotMessage) (List StateSnapshotMessage) :=
  decodeBatch decodeOneSnapshot payload

/-- The bytes that a snapshot is written as. -/
def PassesForSnapshot (payload : Bytes) : Prop :=
  ∃ snapshot, StateSnapshotMessage.codec.parse payload = some snapshot ∧
    snapshot.serialize = payload

section Snapshots

variable {snapshot : StateSnapshotMessage} {snapshots : List StateSnapshotMessage} {payload : Bytes}

theorem decodeOneSnapshot_eq_none_iff :
    decodeOneSnapshot payload = none ↔ ¬ PassesForSnapshot payload := by
  rw [decodeOneSnapshot, Option.filter_eq_none_iff]
  simp only [PassesForSnapshot, not_exists, not_and, decide_eq_true_eq]

theorem decodeOneSnapshot_serialize (h : StateSnapshotMessage.codec.Fits snapshot) :
    decodeOneSnapshot snapshot.serialize = some snapshot := by
  have hparse : StateSnapshotMessage.codec.parse snapshot.serialize = some snapshot :=
    MessageCodec.parse_serialize h
  rw [decodeOneSnapshot, hparse, Option.filter_some, if_pos (decide_eq_true rfl)]

theorem mapM_decodeOneSnapshot (h : ∀ s ∈ snapshots, StateSnapshotMessage.codec.Fits s) :
    (snapshots.map StateSnapshotMessage.serialize).mapM decodeOneSnapshot = some snapshots := by
  induction snapshots with
  | nil => rfl
  | cons snapshot snapshots ih =>
    obtain ⟨hfits, hall⟩ := List.forall_mem_cons.mp h
    rw [List.map_cons, List.mapM_cons, ih hall, decodeOneSnapshot_serialize hfits]
    rfl

/-- **A stream of snapshots** is read as its snapshots unless it is what a snapshot is written as.
-/
theorem snapshotStream_iff (h : ∀ s ∈ snapshots, StateSnapshotMessage.codec.Fits s) :
    decodeSnapshotPayload (sinkFrame (snapshots.map StateSnapshotMessage.serialize)) =
        .ok snapshots ↔
      snapshots = [] ∨
        ¬ PassesForSnapshot (sinkFrame (snapshots.map StateSnapshotMessage.serialize)) := by
  rcases eq_or_ne snapshots [] with rfl | hne
  · exact iff_of_true rfl (.inl rfl)
  have hitems : snapshots.map StateSnapshotMessage.serialize ≠ [] := by simpa using hne
  have hread := decodeBatch_frames hitems Piece.nil (mapM_decodeOneSnapshot h)
  rw [List.append_nil] at hread
  rw [sinkFrame, framePayloads_eq, decodeSnapshotPayload, hread, ← decodeOneSnapshot_eq_none_iff]
  cases hone : decodeOneSnapshot (delimited (snapshots.map StateSnapshotMessage.serialize)) with
  | some single =>
    refine iff_of_false (fun hsingle => ?_) (by simp [hne])
    -- the snapshot would be its own bytes behind their length
    obtain rfl : [single] = snapshots := Except.ok.inj hsingle
    obtain ⟨-, hself⟩ := Option.filter_eq_some_iff.mp hone
    have hlength := congrArg List.length (of_decide_eq_true hself)
    rw [List.map_singleton, delimited_cons, delimited_nil, List.append_nil, length_delimit]
      at hlength
    have hpos := List.length_pos_iff.mpr (writeVarint_ne_nil single.serialize.length)
    omega
  | none => simp

/-- **A bare snapshot** is read as itself unless there is nothing in it. -/
theorem snapshot_iff (h : StateSnapshotMessage.codec.Fits snapshot) :
    decodeSnapshotPayload snapshot.serialize = .ok [snapshot] ↔ snapshot ≠ {} := by
  rw [decodeSnapshotPayload, decodeBatch, decodeOneSnapshot_serialize h]
  by_cases hnil : snapshot.serialize = []
  · have hempty : snapshot = {} := by
      have hparse := MessageCodec.parse_serialize h
      have hnil' : StateSnapshotMessage.codec.serialize snapshot = [] := hnil
      rw [hnil'] at hparse
      exact (Option.some.inj hparse).symm
    rw [if_pos hnil]
    simp [hempty]
  · have hne : snapshot ≠ {} := by
      rintro rfl
      exact hnil rfl
    rw [if_neg hnil]
    simp [hne]

end Snapshots

/-! ### The decoders and the sink -/

/-- **The decoders invert the sink** exactly when a stream does not pass for one record, no detail
is the bytes of an error record, and a bare snapshot has something in it. An error record in an
envelope is always read back. -/
theorem payloads_inverted_iff (records : List ActivationErrorRecordMessage)
    (hrecords : ∀ record ∈ records, record.Sent) (record : ActivationErrorRecordMessage)
    (hrecord : record.Sent) (envelope : AgentEnvelopeMessage)
    (henvelope : AgentEnvelopeMessage.codec.Fits envelope) (snapshots : List StateSnapshotMessage)
    (hsnapshots : ∀ snapshot ∈ snapshots, StateSnapshotMessage.codec.Fits snapshot)
    (snapshot : StateSnapshotMessage) (hsnapshot : StateSnapshotMessage.codec.Fits snapshot) :
    (decodeErrorPayload (sinkFrame (records.map ActivationErrorRecordMessage.serialize)) =
        .ok records ↔
      ¬ PassesForRecord (sinkFrame (records.map ActivationErrorRecordMessage.serialize)) ∧
        ∀ record ∈ records, ¬ HoldsRecord (utf8 record.detail)) ∧
    (decodeErrorPayload record.serialize = .ok [record] ↔ ¬ HoldsRecord (utf8 record.detail)) ∧
    (envelope.payload = .externalEvent record.serialize →
      decodeErrorPayload (AgentEnvelopeMessage.codec.serialize envelope) = .ok [record]) ∧
    (decodeSnapshotPayload (sinkFrame (snapshots.map StateSnapshotMessage.serialize)) =
        .ok snapshots ↔
      snapshots = [] ∨
        ¬ PassesForSnapshot (sinkFrame (snapshots.map StateSnapshotMessage.serialize))) ∧
    (decodeSnapshotPayload snapshot.serialize = .ok [snapshot] ↔ snapshot ≠ {}) :=
  ⟨errorStream_iff hrecords, errorRecord_iff hrecord,
    fun hevent => errorEnvelope_read hrecord henvelope hevent,
    snapshotStream_iff hsnapshots, snapshot_iff hsnapshot⟩

/-- A snapshot of a key that waits for an answer. -/
def suspendedSnapshot : StateSnapshotMessage where
  stateSchemaVersion := 1
  entityKey := [107]
  seq := 4
  snapshotAtMs := 1000
  memory := some
    { stateSchemaVersion := 1, entries := [{ key := "a", value := [1], lastAccessMs := 900 }],
      totalValueBytes := 1 }
  llmCache := some { stateSchemaVersion := 1 }
  continuation := some
    { stateSchemaVersion := 1, seq := 3, pendingIntentIds := ["i-1"], adapter := "langgraph",
      snapshot := [2, 3], suspendedAtMs := 900, deadlineMs := 2000 }
  pending := [{ intentId := "i-1", entityKey := [107], seq := 3, toolName := "refund", kind := 2 }]
  requestId := "r-1"

theorem fits_suspendedSnapshot : StateSnapshotMessage.codec.Fits suspendedSnapshot := by
  change suspendedSnapshot.serialize.length ≤ Limits.standard.maxLength
  decide +kernel

/-- The dead letter of a timeout in an envelope. -/
def timedOutEnvelope : AgentEnvelopeMessage where
  entityKey := [107]
  eventTimeMs := 1000
  payload := .externalEvent timedOutRecord.serialize

theorem fits_timedOutEnvelope : AgentEnvelopeMessage.codec.Fits timedOutEnvelope := by
  change (AgentEnvelopeMessage.codec.serialize timedOutEnvelope).length ≤ Limits.standard.maxLength
  decide +kernel

/-- The dead letter of a timeout twice in a stream, bare and in an envelope; a snapshot twice in a
stream, and bare. -/
theorem payloads_inverted_iff_timeout :
    decodeErrorPayload (sinkFrame [timedOutRecord.serialize, timedOutRecord.serialize]) =
      .ok [timedOutRecord, timedOutRecord] ∧
    decodeErrorPayload timedOutRecord.serialize = .ok [timedOutRecord] ∧
    decodeErrorPayload (AgentEnvelopeMessage.codec.serialize timedOutEnvelope) =
      .ok [timedOutRecord] ∧
    decodeSnapshotPayload (sinkFrame [suspendedSnapshot.serialize, suspendedSnapshot.serialize]) =
      .ok [suspendedSnapshot, suspendedSnapshot] ∧
    decodeSnapshotPayload suspendedSnapshot.serialize = .ok [suspendedSnapshot] := by
  obtain ⟨hstream, hbare, henvelope, hsnapshots, hsnapshot⟩ := payloads_inverted_iff
    [timedOutRecord, timedOutRecord] (by simp [sent_timedOutRecord]) timedOutRecord
    sent_timedOutRecord timedOutEnvelope fits_timedOutEnvelope
    [suspendedSnapshot, suspendedSnapshot] (by simp [fits_suspendedSnapshot]) suspendedSnapshot
    fits_suspendedSnapshot
  have hdetail : ¬ HoldsRecord (utf8 timedOutRecord.detail) :=
    parseErrorRecord_eq_none_iff.mp (by decide +kernel)
  refine ⟨hstream.mpr ⟨?_, by simp [hdetail]⟩, hbare.mpr hdetail, henvelope rfl,
    hsnapshots.mpr (.inr ?_), hsnapshot.mpr (by decide)⟩
  · exact decodeOneError_eq_none_iff.mp (by decide +kernel)
  · exact decodeOneSnapshot_eq_none_iff.mp (by decide +kernel)

/-- The dead letter of a suspension that timed out, soon after the epoch. -/
def timeoutOf (key : UInt8) (detail : String) : ActivationErrorRecordMessage :=
  { entityKey := [key], reason := "hitl_timeout", detail, eventTimeMs := 96 }

/-- A snapshot with bytes in its key that look like those of a request id. -/
def keyedSnapshot : StateSnapshotMessage :=
  { stateSchemaVersion := 1, entityKey := utf8 "kkkkkJ\x07request" }

/-- Of two timeouts in one stream only the second is read, a record whose detail is the bytes of
another is read as the other, and a stream of one snapshot is read as another snapshot. -/
theorem payloads_misread :
    decodeErrorPayload (sinkFrame
        [(timeoutOf 107 "seq=3").serialize, (timeoutOf 109 "seq=5").serialize]) ≠
      .ok [timeoutOf 107 "seq=3", timeoutOf 109 "seq=5"] ∧
    decodeErrorPayload (timeoutOf 107 "\x12\x01r").serialize ≠ .ok [timeoutOf 107 "\x12\x01r"] ∧
    decodeSnapshotPayload (sinkFrame [keyedSnapshot.serialize]) ≠ .ok [keyedSnapshot] := by
  refine ⟨?_, ?_, ?_⟩
  · obtain ⟨single, hone⟩ := Option.isSome_iff_exists.mp (show (decodeOneError (sinkFrame
      [(timeoutOf 107 "seq=3").serialize, (timeoutOf 109 "seq=5").serialize])).isSome by
        decide +kernel)
    rw [decodeErrorPayload_of_one hone]
    simp
  · obtain ⟨single, hone, hreason⟩ := Option.map_eq_some_iff.mp (show
      (decodeOneError (timeoutOf 107 "\x12\x01r").serialize).map (·.reason) = some "r" by
        decide +kernel)
    rw [decodeErrorPayload_of_one hone]
    intro heq
    obtain rfl : single = timeoutOf 107 "\x12\x01r" := by simpa using heq
    exact absurd hreason (by decide)
  · obtain ⟨single, hone, hversion⟩ := Option.map_eq_some_iff.mp (show
      (decodeOneSnapshot (sinkFrame [keyedSnapshot.serialize])).map (·.stateSchemaVersion) =
        some 0 by decide +kernel)
    rw [decodeSnapshotPayload, decodeBatch, hone, if_neg (by decide +kernel)]
    intro heq
    obtain rfl : single = keyedSnapshot := by simpa using heq
    exact absurd hversion (by decide)

end BeamAgents
