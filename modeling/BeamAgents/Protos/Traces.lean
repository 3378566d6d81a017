import BeamAgents.Containers.SortedMap
import BeamAgents.Protos
import BeamAgents.Wire.Message
import Mathlib.Data.String.Basic

/-!
# Trace events on the wire

`TraceEvent` of `protos/beam_agents.proto` with all of its fields, as the exporters and the console
handle it: an event type that may be a number without a name, and the attributes as a map.

## Main definitions

* `EventType.toInt32`, `eventTypeName`, `eventTypeValue`: the numbers and the names of event types.
* `int64Of`, `uint32Of`, `fixed64Of`: the numbers that the fields of a message take.
* `TraceEventMessage`, `TraceEventMessage.codec`.

## Main results

* `eventTypeValue_of_name`: the name of a number is read as the number.
* `TraceEventMessage.parse_serialize`: an event is read back.
-/

namespace BeamAgents

open Containers Wire Wire.Scalar

/-! ### Event types -/

/-- The number of an event type as the wire has it. -/
def EventType.toInt32 (t : EventType) : Int32 := Int32.ofNat t.number

/-- The members of the enumeration. -/
def eventTypes : List EventType :=
  [.unspecified, .activationStart, .llmCall, .toolCall, .intentEmitted, .activationEnd, .error,
    .suspended]

/-- `TraceEvent.EventType.Name`; a number without a name is a `ValueError`. -/
def eventTypeName (number : Int32) : Option String :=
  (eventTypes.find? (·.toInt32 = number)).map EventType.name

/-- `TraceEvent.EventType.Value`; a name without a number is a `ValueError`. -/
def eventTypeValue (name : String) : Option Int32 :=
  (eventTypes.find? (·.name = name)).map EventType.toInt32

@[simp] theorem eventTypeName_toInt32 (t : EventType) : eventTypeName t.toInt32 = some t.name := by
  cases t <;> decide

@[simp] theorem eventTypeValue_name (t : EventType) : eventTypeValue t.name = some t.toInt32 := by
  cases t <;> decide

/-- A number has a name when it is that of a member. -/
theorem eventTypeName_eq_some_iff {number : Int32} {name : String} :
    eventTypeName number = some name ↔ ∃ t : EventType, t.toInt32 = number ∧ t.name = name := by
  constructor
  · intro h
    obtain ⟨t, ht, hname⟩ := Option.map_eq_some_iff.mp h
    have hnumber := List.find?_some ht
    exact ⟨t, of_decide_eq_true hnumber, hname⟩
  · rintro ⟨t, rfl, rfl⟩
    exact eventTypeName_toInt32 t

/-- **The name of a number is read as the number.** -/
theorem eventTypeValue_of_name {number : Int32} {name : String}
    (h : eventTypeName number = some name) : eventTypeValue name = some number := by
  obtain ⟨t, rfl, rfl⟩ := eventTypeName_eq_some_iff.mp h
  exact eventTypeValue_name t

/-! ### Numbers -/

/-- A number as an `int64` field takes it; one that does not fit is a `ValueError`. -/
def int64Of (n : Int) : Option Int64 :=
  if -2 ^ 63 ≤ n ∧ n < 2 ^ 63 then some (Int64.ofInt n) else none

/-- A number as a `uint32` field takes it. -/
def uint32Of (n : Int) : Option UInt32 :=
  if 0 ≤ n ∧ n < 2 ^ 32 then some (UInt32.ofNat n.toNat) else none

/-- A number as a `fixed64` field takes it. -/
def fixed64Of (n : Int) : Option UInt64 :=
  if 0 ≤ n ∧ n < 2 ^ 64 then some (UInt64.ofNat n.toNat) else none

@[simp] theorem int64Of_toInt (n : Int64) : int64Of n.toInt = some n := by
  rw [int64Of, if_pos ⟨n.le_toInt, n.toInt_lt⟩, Int64.ofInt_toInt]

@[simp] theorem uint32Of_toNat (n : UInt32) : uint32Of n.toNat = some n := by
  have hlt : n.toNat < 2 ^ 32 := n.toNat_lt
  rw [uint32Of, if_pos (by omega), Int.toNat_natCast, UInt32.ofNat_toNat]

/-- What fits is taken as it is. -/
theorem fixed64Of_eq_some_iff {n : Int} {x : UInt64} : fixed64Of n = some x ↔ n = x.toNat := by
  rw [fixed64Of]
  constructor
  · intro h
    split_ifs at h with hfits
    have hlt : n.toNat < 2 ^ 64 := by omega
    have hvalue : (UInt64.ofNat n.toNat).toNat = n.toNat := UInt64.toNat_ofNat_of_lt' hlt
    rw [← Option.some.inj h, hvalue]
    omega
  · rintro rfl
    have hlt : x.toNat < 2 ^ 64 := x.toNat_lt
    rw [if_pos (by omega), Int.toNat_natCast, UInt64.ofNat_toNat]

/-! ### Attributes -/

/-- One entry of the map `attributes`; both fields are written, empty or not. -/
structure AttributeEntry where
  key : String
  value : String
  deriving DecidableEq

namespace AttributeEntry

/-- How an entry is written. -/
def schema : Schema AttributeEntry where
  tags := [(1, 2), (2, 2)]
  nodup := by decide
  numbers := by decide
  parts e := [string.each 1 [e.key], string.each 2 [e.value]]
  tags_parts _ := rfl
  unknown _ := .empty

/-- The entry that fields are read as; what the schema does not know is dropped. -/
def read (fs : List Field) : Option AttributeEntry := do
  let key ← string.last 1 fs
  let value ← string.last 2 fs
  return { key, value }

theorem read_fields (e : AttributeEntry) : read (schema.fields e) = some e := by
  have hkey : string.all 1 (schema.fields e) = some [e.key] :=
    Scalar.all_eq (Schema.select_fields (List.mem_of_getElem? (i := 0) rfl))
  have hvalue : string.all 2 (schema.fields e) = some [e.value] :=
    Scalar.all_eq (Schema.select_fields (List.mem_of_getElem? (i := 1) rfl))
  simp only [read, Scalar.last, hkey, hvalue]
  rfl

/-- An entry as it is written and read. -/
def codec : MessageCodec AttributeEntry where
  toSchema := schema
  read fs _ := read fs
  read_fields e _ := read_fields e

end AttributeEntry

/-- `map<string, string>`. -/
abbrev Attributes := SortedMap String String

/-- The entries of a map as they are written, sorted by their keys. -/
def Attributes.toEntries (attributes : Attributes) : List AttributeEntry :=
  attributes.entries.map fun p => ⟨p.1, p.2⟩

/-- The map that entries are read as. -/
def Attributes.ofEntries (entries : List AttributeEntry) : Attributes :=
  SortedMap.ofList (entries.map fun e => (e.key, e.value))

@[simp] theorem Attributes.ofEntries_toEntries (attributes : Attributes) :
    ofEntries attributes.toEntries = attributes := by
  rw [ofEntries, toEntries, List.map_map]
  exact (congrArg SortedMap.ofList (List.map_id _)).trans attributes.ofList_entries

/-! ### Events -/

/-- The numbers and the wire types of the fields of `TraceEvent`. -/
def TraceEventMessage.tags : List (ℕ × ℕ) :=
  [(1, 2), (2, 2), (3, 2), (4, 2), (5, 0), (6, 0), (7, 0), (8, 2), (9, 0), (10, 0)]

/-- `TraceEvent`. The event type is its number, which may be one that is not declared. -/
structure TraceEventMessage where
  traceId : Bytes := []
  spanId : Bytes := []
  parentSpanId : Bytes := []
  entityKey : Bytes := []
  seq : Int64 := 0
  stepIndex : UInt32 := 0
  eventType : Int32 := 0
  attributes : Attributes := .empty
  startMs : Int64 := 0
  endMs : Int64 := 0
  unknown : UnknownFields TraceEventMessage.tags := .empty
  deriving DecidableEq

namespace TraceEventMessage

/-- How the message is written. -/
def schema : Schema TraceEventMessage where
  tags := tags
  nodup := by decide
  numbers := by decide
  parts m :=
    [bytes.one 1 m.traceId, bytes.one 2 m.spanId, bytes.one 3 m.parentSpanId,
      bytes.one 4 m.entityKey, int64.one 5 m.seq, uint32.one 6 m.stepIndex,
      enumeration.one 7 m.eventType, AttributeEntry.codec.each 8 m.attributes.toEntries,
      int64.one 9 m.startMs, int64.one 10 m.endMs]
  tags_parts _ := rfl
  unknown := unknown

/-- The message that fields are read as. -/
def read (fs : List Field) (unknown : UnknownFields tags) : Option TraceEventMessage := do
  let traceId ← bytes.last 1 fs
  let spanId ← bytes.last 2 fs
  let parentSpanId ← bytes.last 3 fs
  let entityKey ← bytes.last 4 fs
  let seq ← int64.last 5 fs
  let stepIndex ← uint32.last 6 fs
  let eventType ← enumeration.last 7 fs
  let attributes ← AttributeEntry.codec.all 8 fs
  let startMs ← int64.last 9 fs
  let endMs ← int64.last 10 fs
  return { traceId, spanId, parentSpanId, entityKey, seq, stepIndex, eventType,
           attributes := .ofEntries attributes, startMs, endMs, unknown }

theorem read_fields {m : TraceEventMessage} (hfits : schema.Fits m) :
    read (schema.fields m) m.unknown = some m := by
  have hlast {α : Type} [DecidableEq α] {c : Scalar α} {number : ℕ} {a : α} (i : ℕ)
      (hi : (schema.parts m)[i]? = some (c.one number a)) :
      c.last number (schema.fields m) = some a :=
    last_eq (Schema.select_fields (List.mem_of_getElem? hi))
  have hattributes : AttributeEntry.codec.all 8 (schema.fields m) = some m.attributes.toEntries :=
    MessageCodec.all_eq_of_fits hfits (List.mem_of_getElem? (i := 7) rfl)
  simp only [read, hlast 0 rfl, hlast 1 rfl, hlast 2 rfl, hlast 3 rfl, hlast 4 rfl, hlast 5 rfl,
    hlast 6 rfl, hattributes, hlast 8 rfl, hlast 9 rfl]
  simp

/-- `TraceEvent` as it is written and read. -/
def codec : MessageCodec TraceEventMessage where
  toSchema := schema
  read := read
  read_fields _ hfits := read_fields hfits

/-- `SerializeToString(deterministic=True)`. -/
def serialize (m : TraceEventMessage) : Bytes := codec.serialize m

/-- `FromString`; none is its `DecodeError`. -/
def parse (encoded : Bytes) : Option TraceEventMessage := codec.parse encoded

/-- **An event is read back** if it is not too long to be written. -/
theorem parse_serialize {m : TraceEventMessage} (h : codec.Fits m) : parse m.serialize = some m :=
  MessageCodec.parse_serialize h

end TraceEventMessage

end BeamAgents
