import BeamAgents.Replay.Framing

/-!
# Framed payloads at the console

`console/_ingest.py` locates the complete frames of a payload first, hands them to the parser of the
replay, and tells a stream that ends inside a record from one that is whole.

## Main definitions

* `frameBounds`, `framesEnd`, `decodeTraceStream`.

## Main results

* `decodeTraceStream_take`: the beginning of a stream gives its complete events.
-/

namespace BeamAgents

open Wire

/-- `_frame_bounds`, from an offset on: where every complete frame body starts and ends. -/
def frameBoundsFrom (payload : Bytes) (offset : ℕ) : List (ℕ × ℕ) :=
  if _ : offset < payload.length then
    match _ : readVarintAt payload offset with
    | none => []
    | some (length, bodyStart) =>
      let stop := bodyStart + length
      if payload.length < stop then [] else (bodyStart, stop) :: frameBoundsFrom payload stop
  else []
termination_by payload.length - offset
decreasing_by
  have hnext : offset < bodyStart := lt_of_readVarintAt ‹_›
  omega

/-- `_frame_bounds`. -/
def frameBounds (payload : Bytes) : List (ℕ × ℕ) := frameBoundsFrom payload 0

/-- `_frames_end`. -/
def framesEnd (bounds : List (ℕ × ℕ)) : ℕ := (bounds.getLast?.map Prod.snd).getD 0

/-- A `ValueError` of a decoder: a complete frame that is no event, or a payload that ends inside a
record, with what was read before. -/
inductive DecodeError
  | malformed (error : StreamError)
  | truncated (recordsRead trailingBytes : ℕ) (records : List TraceEventMessage)

/-- `decode_trace_stream`. -/
def decodeTraceStream (payload : Bytes) : Except DecodeError (List TraceEventMessage) :=
  let consumed := framesEnd (frameBounds payload)
  match parseTraceStream (payload.take consumed) with
  | .error error => .error (.malformed error)
  | .ok events =>
    if consumed ≠ payload.length then
      .error (.truncated events.length (payload.length - consumed) events)
    else .ok events

/-- At a piece of a frame there are no more bounds. -/
theorem frameBoundsFrom_piece {tail : Bytes} (h : Piece tail) (before : Bytes) :
    frameBoundsFrom (before ++ tail) before.length = [] := by
  rw [frameBoundsFrom]
  split_ifs
  · split
    · rfl
    · rename_i length bodyStart hread
      rw [readVarintAt_append] at hread
      rcases h.readVarint with hnone | ⟨length', rest, hsome, hlong⟩
      · rw [hnone] at hread
        cases hread
      · rw [hsome] at hread
        have hshorter := length_of_readVarint hsome
        obtain ⟨rfl, rfl⟩ := Prod.mk.inj (Option.some.inj hread)
        rw [if_pos (by simp only [List.length_append]; omega)]
  · rfl

/-- The end of the first bound is the end if there are no more. -/
theorem getLast?_bounds_cons (bound : ℕ × ℕ) (bounds : List (ℕ × ℕ)) (start : ℕ) :
    ((bound :: bounds).getLast?.map Prod.snd).getD start =
      (bounds.getLast?.map Prod.snd).getD bound.2 := by
  rw [List.getLast?_cons]
  cases bounds.getLast? <;> rfl

/-- The bounds of a stream and a piece of a frame reach to the end of the stream. -/
theorem framesEnd_frameBoundsFrom {tail : Bytes} (h : Piece tail) (items : List Bytes)
    (before : Bytes) :
    ((frameBoundsFrom (before ++ (delimited items ++ tail)) before.length).getLast?.map
      Prod.snd).getD before.length = before.length + (delimited items).length := by
  induction items generalizing before with
  | nil =>
    rw [delimited_nil, List.nil_append, frameBoundsFrom_piece h]
    rfl
  | cons item items ih =>
    have hpos := length_delimit_pos item
    have hlength := length_delimit item
    rw [delimited_cons, List.append_assoc, frameBoundsFrom, dif_pos (by
      simp only [List.length_append]
      omega)]
    split
    · rename_i hread
      rw [readVarintAt_delimit] at hread
      cases hread
    · rename_i length bodyStart hread
      rw [readVarintAt_delimit] at hread
      obtain ⟨rfl, rfl⟩ := Prod.mk.inj (Option.some.inj hread)
      have hrest := ih (before ++ delimit item)
      rw [List.append_assoc, List.length_append, hlength, ← Nat.add_assoc] at hrest
      rw [if_neg (by simp only [List.length_append]; omega), getLast?_bounds_cons, hrest,
        List.length_append, hlength]
      omega

theorem framesEnd_append {tail : Bytes} (h : Piece tail) (items : List Bytes) :
    framesEnd (frameBounds (delimited items ++ tail)) = (delimited items).length :=
  (framesEnd_frameBoundsFrom h items []).trans (Nat.zero_add _)

/-- What is decoded of a stream and a piece of a frame. -/
theorem decodeTraceStream_append {tail : Bytes} (h : Piece tail) {events : List TraceEventMessage}
    (hfits : ∀ event ∈ events, TraceEventMessage.codec.Fits event) :
    decodeTraceStream (frameTraceEvents events ++ tail) =
      if tail = [] then .ok events
      else .error (.truncated events.length tail.length events) := by
  have hparse : parseTraceStream (delimited (events.map TraceEventMessage.serialize)) =
      .ok events := by
    have hevents := parseTraceStream_frameTraceEvents hfits
    rwa [frameTraceEvents, framePayloads_eq] at hevents
  rw [decodeTraceStream, frameTraceEvents, framePayloads_eq, framesEnd_append h, List.take_left,
    hparse]
  by_cases htail : tail = []
  · simp [htail]
  · simp [htail]

/-- How many events of a stream are complete in its first bytes. -/
def completeEvents (events : List TraceEventMessage) (n : ℕ) : ℕ :=
  Nat.findGreatest (fun k => (frameTraceEvents (events.take k)).length ≤ n) events.length

theorem completeEvents_eq (events : List TraceEventMessage) (n : ℕ) :
    completeEvents events n = completeItems (events.map TraceEventMessage.serialize) n := by
  simp only [completeEvents, completeItems, frameTraceEvents, framePayloads_eq, List.map_take,
    List.length_map]

/-- **The beginning of a stream** is a stream of its complete events and a piece of the next frame.
-/
theorem take_frameTraceEvents (events : List TraceEventMessage) (n : ℕ) :
    ∃ tail, (frameTraceEvents events).take n =
      frameTraceEvents (events.take (completeEvents events n)) ++ tail ∧ Piece tail := by
  rw [completeEvents_eq, frameTraceEvents, frameTraceEvents, framePayloads_eq, framePayloads_eq,
    List.map_take]
  exact take_delimited _ n

theorem length_frameTraceEvents_take_le (events : List TraceEventMessage) {j k : ℕ} (h : j ≤ k) :
    (frameTraceEvents (events.take j)).length ≤ (frameTraceEvents (events.take k)).length := by
  have hsplit : events.take k = events.take j ++ (events.take k).drop j := by
    conv_lhs => rw [← List.take_append_drop j (events.take k)]
    rw [List.take_take, Nat.min_eq_left h]
  rw [hsplit, frameTraceEvents, frameTraceEvents, framePayloads_eq, framePayloads_eq,
    List.map_append, delimited_append, List.length_append]
  exact Nat.le_add_right _ _

theorem length_complete_events_le (events : List TraceEventMessage) (n : ℕ) :
    (frameTraceEvents (events.take (completeEvents events n))).length ≤ n :=
  Nat.findGreatest_spec (P := fun k => (frameTraceEvents (events.take k)).length ≤ n)
    (Nat.zero_le _) (Nat.zero_le n)

/-- What is decoded of the beginning of a stream. -/
theorem decodeTraceStream_take {events : List TraceEventMessage}
    (hfits : ∀ event ∈ events, TraceEventMessage.codec.Fits event) (n : ℕ) :
      decodeTraceStream ((frameTraceEvents events).take n) =
    if (frameTraceEvents events).take n =
        frameTraceEvents (events.take (completeEvents events n)) then
      .ok (events.take (completeEvents events n))
    else .error (.truncated (completeEvents events n)
      (((frameTraceEvents events).take n).length -
        (frameTraceEvents (events.take (completeEvents events n))).length)
      (events.take (completeEvents events n))) := by
  obtain ⟨tail, heq, htail⟩ := take_frameTraceEvents events n
  have hlength : (events.take (completeEvents events n)).length = completeEvents events n :=
    List.length_take_of_le (Nat.findGreatest_le _)
  rw [heq, decodeTraceStream_append htail fun event hevent =>
    hfits event (List.mem_of_mem_take hevent), hlength, List.length_append, Nat.add_sub_cancel_left]
  simp only [List.append_right_eq_self]

end BeamAgents
