import BeamAgents.Protos.Traces
import BeamAgents.Wire.Delimited

/-!
# Trace streams

The stream of trace events that `replay/bundle.py` writes and reads: every event behind its length
as a varint. The console has writers of its own, in `console/_ingest.py` and `console/_sink.py`, and
a reader of varints that answers nothing where that of the replay raises.

## Main definitions

* `varint`, `readVarintAt`: the bytes of a length, and the loop that reads one.
* `frameTraceEvents`, `frameRecords`, `sinkFrame`: the three writers.
* `parseTraceStream`.

## Main results

* `varint_eq`, `readVarintAt_append`: the writer and the reader are those of the wire.
* `parseTraceStream_delimited`: what was framed is parsed.
-/

namespace BeamAgents

open Wire

/-! ### Lengths -/

/-- `_varint`, in `replay/bundle.py`, `console/_ingest.py` and `console/_sink.py`. -/
def varint (value : ℕ) : Bytes :=
  let byte := value &&& 0x7F
  let rest := value >>> 7
  if _ : rest ≠ 0 then UInt8.ofNat (byte ||| 0x80) :: varint rest else [UInt8.ofNat byte]
termination_by value
decreasing_by
  rename_i hrest
  have hne : value >>> 7 ≠ 0 := hrest
  rw [Nat.shiftRight_eq_div_pow] at hne ⊢
  omega

theorem varint_eq (value : ℕ) : varint value = writeVarint value := by
  induction value using Nat.strong_induction_on with
  | _ value ih =>
    have hbyte : value &&& 0x7F = value % 128 := Nat.and_two_pow_sub_one_eq_mod value 7
    have hrest : value >>> 7 = value / 128 := Nat.shiftRight_eq_div_pow value 7
    have hmore : value % 128 ||| 0x80 = value % 128 + 128 := by
      have hor := Nat.two_pow_add_eq_or_of_lt (i := 7) (Nat.mod_lt value (by decide : 0 < 128)) 1
      rw [Nat.or_comm, Nat.add_comm]
      exact hor.symm
    rw [varint, writeVarint_eq]
    simp only [hbyte, hrest]
    by_cases hlt : value < 128
    · rw [dif_neg (by omega), if_pos hlt, Nat.mod_eq_of_lt hlt]
    · rw [dif_pos (by omega), if_neg hlt, hmore, ih _ (by omega)]

/-- The loop of `_read_varint` on the bytes from an offset on: the number, and the offset behind it;
none when the bytes end in it. -/
def readVarintLoop (offset value shift : ℕ) : Bytes → Option (ℕ × ℕ)
  | [] => none
  | byte :: rest =>
    let value := value ||| ((byte.toNat &&& 0x7F) <<< shift)
    if byte.toNat &&& 0x80 = 0 then some (value, offset + 1)
    else readVarintLoop (offset + 1) value (shift + 7) rest

/-- `_read_varint`. In `replay/bundle.py` it raises where the bytes end, and in `console/_ingest.py`
the offset is `None`. -/
def readVarintAt (data : Bytes) (offset : ℕ) : Option (ℕ × ℕ) :=
  readVarintLoop offset 0 0 (data.drop offset)

/-- The top bit of a byte. -/
theorem topBit_iff : ∀ byte : Fin 256, byte.val &&& 0x80 = 0 ↔ byte.val < 128 := by decide +kernel

theorem readVarintLoop_eq {offset value shift : ℕ} (hvalue : value < 2 ^ shift) (bs : Bytes) :
    readVarintLoop offset value shift bs = (readVarint bs.length bs).map fun r =>
      (value + 2 ^ shift * r.1, offset + (bs.length - r.2.length)) := by
  induction bs generalizing offset value shift with
  | nil => rfl
  | cons byte bs ih =>
    have hbyte : byte.toNat < 256 := byte.toNat_lt
    have hmask : byte.toNat &&& 0x7F = byte.toNat % 128 := Nat.and_two_pow_sub_one_eq_mod _ 7
    have hmore : byte.toNat &&& 0x80 = 0 ↔ byte.toNat < 128 := topBit_iff ⟨byte.toNat, hbyte⟩
    have hor : value ||| ((byte.toNat % 128) <<< shift) =
        value + 2 ^ shift * (byte.toNat % 128) := by
      rw [Nat.shiftLeft_eq, Nat.mul_comm, Nat.or_comm, ← Nat.two_pow_add_eq_or_of_lt hvalue,
        Nat.add_comm]
    rw [readVarintLoop, List.length_cons, readVarint]
    simp only [hmask, hor, hmore]
    split_ifs with hlast
    · rw [Nat.mod_eq_of_lt hlast]
      simp
    · have hnext : value + 2 ^ shift * (byte.toNat % 128) < 2 ^ (shift + 7) := by
        rw [pow_add]
        have hdigit : byte.toNat % 128 ≤ 127 := by omega
        have hmul := Nat.mul_le_mul_left (2 ^ shift) hdigit
        omega
      rw [ih hnext, Option.map_map]
      refine Option.map_congr fun r hr => Prod.ext ?_ ?_
      · have hdigit : byte.toNat % 128 = byte.toNat - 128 := by omega
        simp only [Function.comp_apply]
        rw [pow_add, hdigit, Nat.mul_add, Nat.add_assoc, Nat.mul_assoc]
        rfl
      · have hshorter := length_of_readVarint hr
        simp only [Function.comp_apply]
        omega

/-- The reader is that of the wire, on the bytes from the offset on. -/
theorem readVarintAt_append (before bs : Bytes) :
    readVarintAt (before ++ bs) before.length = (readVarint bs.length bs).map fun r =>
      (r.1, before.length + (bs.length - r.2.length)) := by
  rw [readVarintAt, List.drop_left, readVarintLoop_eq (by decide)]
  refine Option.map_congr fun r _ => ?_
  simp

/-- What is read at the start of a frame. -/
theorem readVarintAt_delimit (before item rest : Bytes) :
    readVarintAt (before ++ (delimit item ++ rest)) before.length =
      some (item.length, before.length + (writeVarint item.length).length) := by
  have hread : readVarint (delimit item ++ rest).length (delimit item ++ rest) =
      some (item.length, item ++ rest) := by
    rw [delimit, List.append_assoc]
    exact readVarint_append (by rw [List.length_append]; omega) _
  rw [readVarintAt_append, hread, Option.map_some]
  simp only [List.length_append, length_delimit]
  congr 2
  omega

/-- Where a length is read, it takes a byte. -/
theorem lt_of_readVarintAt {data : Bytes} {offset value next : ℕ}
    (h : readVarintAt data offset = some (value, next)) : offset < next := by
  rw [readVarintAt, readVarintLoop_eq (by decide)] at h
  obtain ⟨r, hr, heq⟩ := Option.map_eq_some_iff.mp h
  have hshorter := length_of_readVarint hr
  have hnext := (Prod.mk.inj heq).2
  omega

/-! ### Streams -/

/-- Payloads one after another, each behind its length. -/
def framePayloads (payloads : List Bytes) : Bytes :=
  payloads.flatMap fun payload => varint payload.length ++ payload

theorem framePayloads_eq (payloads : List Bytes) : framePayloads payloads = delimited payloads := by
  simp only [framePayloads, varint_eq]
  rfl

/-- `frame_trace_events` of `replay/bundle.py`. -/
def frameTraceEvents (events : List TraceEventMessage) : Bytes :=
  framePayloads (events.map TraceEventMessage.serialize)

/-- `_frame_records` of `console/_ingest.py`, over the serializer of the messages. -/
def frameRecords {μ : Type} (serializeToString : μ → Bytes) (messages : List μ) : Bytes :=
  framePayloads (messages.map serializeToString)

/-- `_frame` of `console/_sink.py`. -/
def sinkFrame (payloads : List Bytes) : Bytes := framePayloads payloads

/-- A `ReplayUsageError` of the stream: a length is incomplete, a frame declares more than remains,
or a payload is no event. -/
inductive StreamError
  | lengthIncomplete
  | truncated (length offset remaining : ℕ)
  | malformed (offset : ℕ)
  deriving DecidableEq, Repr

/-- The loop of `parse_trace_stream` from an offset on. -/
def parseTraceStreamFrom (data : Bytes) (offset : ℕ) :
    Except StreamError (List TraceEventMessage) :=
  if _ : offset < data.length then
    match _ : readVarintAt data offset with
    | none => .error .lengthIncomplete
    | some (length, bodyStart) =>
      let stop := bodyStart + length
      if data.length < stop then
        .error (.truncated length bodyStart (data.length - bodyStart))
      else
        match TraceEventMessage.parse ((data.take stop).drop bodyStart) with
        | none => .error (.malformed bodyStart)
        | some event => do
          let events ← parseTraceStreamFrom data stop
          return event :: events
  else .ok []
termination_by data.length - offset
decreasing_by
  have hnext : offset < bodyStart := lt_of_readVarintAt ‹_›
  omega

/-- `parse_trace_stream`. -/
def parseTraceStream (data : Bytes) : Except StreamError (List TraceEventMessage) :=
  parseTraceStreamFrom data 0

/-- The body of the frame at an offset. -/
theorem body_of_delimit (before item rest : Bytes) :
    ((before ++ (delimit item ++ rest)).take
        (before.length + (writeVarint item.length).length + item.length)).drop
      (before.length + (writeVarint item.length).length) = item := by
  have hsplit : before ++ (delimit item ++ rest) =
      (before ++ writeVarint item.length) ++ (item ++ rest) := by
    simp only [delimit, List.append_assoc]
  rw [hsplit, ← List.length_append, List.take_length_add_append, List.drop_left, List.take_left]

/-- **What was framed is parsed.** -/
theorem parseTraceStreamFrom_delimited {events : List TraceEventMessage}
    (hfits : ∀ event ∈ events, TraceEventMessage.codec.Fits event) (before : Bytes) :
    parseTraceStreamFrom (before ++ delimited (events.map TraceEventMessage.serialize))
      before.length = .ok events := by
  induction events generalizing before with
  | nil =>
    rw [parseTraceStreamFrom, dif_neg]
    simp
  | cons event events ih =>
    obtain ⟨hevent, hevents⟩ := List.forall_mem_cons.mp hfits
    have hpos := length_delimit_pos event.serialize
    have hlength := length_delimit event.serialize
    rw [List.map_cons, delimited_cons, parseTraceStreamFrom, dif_pos (by
      simp only [List.length_append]
      omega)]
    split
    · rename_i hread
      rw [readVarintAt_delimit] at hread
      cases hread
    · rename_i length bodyStart hread
      rw [readVarintAt_delimit] at hread
      obtain ⟨rfl, rfl⟩ := Prod.mk.inj (Option.some.inj hread)
      have hrest := ih hevents (before ++ delimit event.serialize)
      rw [List.append_assoc, List.length_append, hlength, ← Nat.add_assoc] at hrest
      simp only [body_of_delimit, TraceEventMessage.parse_serialize hevent, hrest]
      rw [if_neg (by simp only [List.length_append]; omega)]
      rfl

theorem parseTraceStream_frameTraceEvents {events : List TraceEventMessage}
    (hfits : ∀ event ∈ events, TraceEventMessage.codec.Fits event) :
    parseTraceStream (frameTraceEvents events) = .ok events := by
  rw [frameTraceEvents, framePayloads_eq]
  exact parseTraceStreamFrom_delimited hfits []

end BeamAgents
