import BeamAgents.Wire.Fields

/-!
# Messages on the wire

A message writes its fields in the order of their numbers and leaves out those that have the value
zero of their type. A reader goes through the fields of the bytes: of a singular field the last
occurrence counts, a field that is absent is zero, and the occurrences of a message are put
together. Fields that the reader does not know, by their number or by their wire type, are kept and
written again after the others.

## Main definitions

* `Wire.Scalar` with `Wire.Scalar.string`, `Wire.Scalar.int64` and the others.
* `Wire.ValidField`, `Wire.UnknownFields`, `Wire.parseFields`.
* `Wire.last`, `Wire.one` and `Wire.all`, `Wire.each`: singular and repeated fields.
* `Wire.MessageCodec` with `serialize`, `parse`, and its use as a field.

## Main results

* `Wire.MessageCodec.parse_serialize`: a message is read from what it was written as.
-/

namespace Wire

/-! ### Values -/

/-- The wire type of a value. -/
def WireValue.wireType : WireValue → ℕ
  | .varint _ => 0
  | .fixed64 _ => 1
  | .len _ => 2
  | .group => 3
  | .fixed32 _ => 5

/-- A value that is written as a varint or with its length. -/
def WireValue.Plain : WireValue → Prop
  | .varint _ | .len _ => True
  | _ => False

/-- The field with a plain value as it is written. -/
def Field.of (number : ℕ) : WireValue → Field
  | .varint value => .varint number value
  | .len payload => .len number payload
  | value => ⟨number, value, []⟩

/-- The number and the wire type of a field. -/
def Field.tag (f : Field) : ℕ × ℕ := (f.number, f.value.wireType)

theorem Field.value_of (number : ℕ) (value : WireValue) :
    (Field.of number value).value = value := by
  cases value <;> rfl

theorem Field.tag_of (number : ℕ) (value : WireValue) :
    (Field.of number value).tag = (number, value.wireType) := by
  cases value <;> rfl

/-- A field that is written. -/
def Field.Written (f : Field) : Prop :=
  ∃ number value, IsFieldNumber number ∧ value.Plain ∧ f = .of number value

/-- A written field is valid if it is within the limits. -/
theorem Field.Written.valid {lim : Limits} {f : Field} (h : f.Written)
    (hlength : f.raw.length ≤ lim.maxLength) : f.Valid lim := by
  obtain ⟨number, value, hnumber, hplain, rfl⟩ := h
  cases value with
  | varint value => exact Field.valid_varint hnumber value
  | len payload =>
    refine Field.valid_len hnumber (le_trans ?_ hlength)
    simp only [Field.of, Field.len, List.length_append]
    omega
  | _ => exact hplain.elim

/-- A type of values of fields: its zero, its wire type, and how its values are written and read. -/
structure Scalar (α : Type) where
  zero : α
  wireType : ℕ
  encode : α → WireValue
  decode : WireValue → Option α
  plain_encode : ∀ a, (encode a).Plain
  wireType_encode : ∀ a, (encode a).wireType = wireType
  decode_encode : ∀ a, decode (encode a) = some a

namespace Scalar

/-- An integer type with its conversions. -/
def ofInteger {α : Type} (zero : α) (toWire : α → UInt64) (ofWire : UInt64 → α)
    (h : ∀ a, ofWire (toWire a) = a) : Scalar α where
  zero := zero
  wireType := 0
  encode a := .varint (toWire a)
  decode
    | .varint value => some (ofWire value)
    | _ => none
  plain_encode _ := trivial
  wireType_encode _ := rfl
  decode_encode a := congrArg some (h a)

def int64 : Scalar Int64 := ofInteger 0 Int64.toUInt64 UInt64.toInt64 (by simp)

def uint32 : Scalar UInt32 := ofInteger 0 UInt32.toUInt64 UInt64.toUInt32 (by simp)

/-- An enumeration, by its numbers. -/
def enumeration : Scalar Int32 :=
  ofInteger 0 (fun a => a.toInt64.toUInt64) (fun value => value.toInt64.toInt32) (by simp)

def bool : Scalar Bool :=
  ofInteger false (fun a => if a then 1 else 0) (fun value => value != 0) (by decide)

/-- A type whose values are written with their length, with its conversions. -/
def ofPayload {α : Type} (zero : α) (toBytes : α → List UInt8) (ofBytes : List UInt8 → Option α)
    (h : ∀ a, ofBytes (toBytes a) = some a) : Scalar α where
  zero := zero
  wireType := 2
  encode a := .len (toBytes a)
  decode
    | .len payload => ofBytes payload
    | _ => none
  plain_encode _ := trivial
  wireType_encode _ := rfl
  decode_encode a := h a

def bytes : Scalar (List UInt8) := ofPayload [] id some fun _ => rfl

/-- The bytes of a text in UTF-8. -/
def utf8 (s : String) : List UInt8 := s.toByteArray.data.toList

/-- A text; bytes that are not UTF-8 are malformed. -/
def string : Scalar String :=
  ofPayload "" utf8 (fun payload => String.fromUTF8? ⟨payload.toArray⟩) fun s => by
    have hbytes : (⟨(utf8 s).toArray⟩ : ByteArray) = s.toByteArray := by simp [utf8]
    rw [hbytes, String.fromUTF8?, dif_pos s.isValidUTF8]
    rfl

@[simp] theorem wireType_int64 : int64.wireType = 0 := rfl

@[simp] theorem wireType_uint32 : uint32.wireType = 0 := rfl

@[simp] theorem wireType_enumeration : enumeration.wireType = 0 := rfl

@[simp] theorem wireType_bool : bool.wireType = 0 := rfl

@[simp] theorem wireType_bytes : bytes.wireType = 2 := rfl

@[simp] theorem wireType_string : string.wireType = 2 := rfl

end Scalar

/-! ### Fields of a message -/

/-- The values under a number and a wire type. -/
def select (tag : ℕ × ℕ) (fs : List Field) : List WireValue :=
  (fs.filter (·.tag = tag)).map Field.value

theorem select_append (tag : ℕ × ℕ) (fs gs : List Field) :
    select tag (fs ++ gs) = select tag fs ++ select tag gs := by
  simp [select]

/-- What is written under one number: values of one wire type. -/
structure Part where
  number : ℕ
  wireType : ℕ
  values : List WireValue
  plain : ∀ value ∈ values, value.Plain
  typed : ∀ value ∈ values, value.wireType = wireType

namespace Part

/-- The number and the wire type of a part. -/
def tag (p : Part) : ℕ × ℕ := (p.number, p.wireType)

/-- The fields of a part. -/
def fields (p : Part) : List Field := p.values.map (.of p.number)

theorem tag_of_mem_fields {p : Part} {f : Field} (h : f ∈ p.fields) : f.tag = p.tag := by
  obtain ⟨value, hvalue, rfl⟩ := List.mem_map.mp h
  rw [Field.tag_of, p.typed value hvalue, tag]

theorem select_fields_self (p : Part) : select p.tag p.fields = p.values := by
  rw [select, List.filter_eq_self.mpr fun f hf => decide_eq_true (tag_of_mem_fields hf), fields,
    List.map_map]
  exact (List.map_congr_left fun value _ => Field.value_of p.number value).trans (List.map_id _)

theorem select_fields_of_ne {p : Part} {tag : ℕ × ℕ} (h : p.tag ≠ tag) :
    select tag p.fields = [] := by
  rw [select, List.map_eq_nil_iff, List.filter_eq_nil_iff]
  intro f hf
  rw [decide_eq_true_iff, tag_of_mem_fields hf]
  exact h

/-- One part is selected among parts with different tags. -/
theorem select_flatMap {parts : List Part} (hnodup : (parts.map tag).Nodup) {p : Part}
    (h : p ∈ parts) : select p.tag (parts.flatMap fields) = p.values := by
  induction parts with
  | nil => cases h
  | cons q parts ih =>
    rw [List.map_cons, List.nodup_cons] at hnodup
    rw [List.flatMap_cons, select_append]
    rcases List.mem_cons.mp h with rfl | hmem
    · have hnone : select p.tag (parts.flatMap fields) = [] := by
        rw [select, List.map_eq_nil_iff, List.filter_eq_nil_iff]
        intro f hf
        obtain ⟨q, hq, hfq⟩ := List.mem_flatMap.mp hf
        rw [decide_eq_true_iff, tag_of_mem_fields hfq]
        exact fun heq => hnodup.1 (heq ▸ List.mem_map_of_mem hq)
      rw [select_fields_self, hnone, List.append_nil]
    · have hne : q.tag ≠ p.tag := fun heq => hnodup.1 (heq ▸ List.mem_map_of_mem hmem)
      rw [select_fields_of_ne hne, List.nil_append, ih hnodup.2 hmem]

end Part

namespace Scalar

variable {α : Type} (c : Scalar α)

/-- A singular field: nothing is written when it is zero. -/
def one [DecidableEq α] (number : ℕ) (a : α) : Part where
  number := number
  wireType := c.wireType
  values := if a = c.zero then [] else [c.encode a]
  plain value hvalue := by
    split_ifs at hvalue
    · cases hvalue
    · rw [List.mem_singleton.mp hvalue]
      exact c.plain_encode a
  typed value hvalue := by
    split_ifs at hvalue
    · cases hvalue
    · rw [List.mem_singleton.mp hvalue, c.wireType_encode]

/-- A repeated field. -/
def each (number : ℕ) (as : List α) : Part where
  number := number
  wireType := c.wireType
  values := as.map c.encode
  plain value hvalue := by
    obtain ⟨a, -, rfl⟩ := List.mem_map.mp hvalue
    exact c.plain_encode a
  typed value hvalue := by
    obtain ⟨a, -, rfl⟩ := List.mem_map.mp hvalue
    exact c.wireType_encode a

/-- A repeated field is read. -/
def all (number : ℕ) (fs : List Field) : Option (List α) :=
  (select (number, c.wireType) fs).mapM c.decode

/-- A singular field is read: the last of its occurrences, or zero. -/
def last (number : ℕ) (fs : List Field) : Option α :=
  (c.all number fs).map (·.getLastD c.zero)

variable {c}

theorem last_eq [DecidableEq α] {number : ℕ} {a : α} {fs : List Field}
    (h : select (c.one number a).tag fs = (c.one number a).values) :
    c.last number fs = some a := by
  have hselect : select (number, c.wireType) fs = if a = c.zero then [] else [c.encode a] := h
  rw [last, all, hselect]
  split_ifs with hzero
  · simp [hzero]
  · simp [c.decode_encode]

theorem all_eq {number : ℕ} {as : List α} {fs : List Field}
    (h : select (c.each number as).tag fs = (c.each number as).values) :
    c.all number fs = some as := by
  have hselect : select (number, c.wireType) fs = as.map c.encode := h
  rw [all, hselect]
  clear h hselect
  induction as with
  | nil => rfl
  | cons a as ih => simp [c.decode_encode, ih]

end Scalar

/-! ### Unknown fields -/

/-- A field as it is read. -/
abbrev ValidField := { f : Field // f.Valid .standard }

/-- The fields of a sequence of bytes. -/
def parseFields (bs : List UInt8) : Option (List ValidField) :=
  (lex .standard bs).attach.map fun fs =>
    fs.1.attach.map fun f => ⟨f.1, (valid_of_lex fs.2).1 f.1 f.2⟩

theorem map_parseFields (bs : List UInt8) :
    (parseFields bs).map (List.map Subtype.val) = lex .standard bs := by
  rw [parseFields, Option.map_map]
  have hcomp : (List.map Subtype.val ∘ fun fs : { fs // lex .standard bs = some fs } =>
      fs.1.attach.map fun f => (⟨f.1, (valid_of_lex fs.2).1 f.1 f.2⟩ : ValidField)) =
      Subtype.val := by
    funext fs
    rw [Function.comp_apply, List.map_map]
    exact fs.1.attach_map_subtype_val
  rw [hcomp]
  exact Option.attach_map_subtype_val _

/-- The fields of a value that is a message. -/
def WireValue.fields : WireValue → Option (List ValidField)
  | .len payload => parseFields payload
  | _ => none

/-- The fields that a message with the given tags does not know, in order. -/
abbrev UnknownFields (known : List (ℕ × ℕ)) :=
  { vs : List ValidField // ∀ v ∈ vs, v.1.tag ∉ known }

namespace UnknownFields

variable {known : List (ℕ × ℕ)}

/-- No unknown fields. -/
def empty : UnknownFields known := ⟨[], by simp⟩

/-- The unknown ones of the fields that were read. -/
def of (vs : List ValidField) : UnknownFields known :=
  ⟨vs.filter (·.1.tag ∉ known), fun _ hv => of_decide_eq_true (List.mem_filter.mp hv).2⟩

/-- The fields themselves. -/
def fields (u : UnknownFields known) : List Field := u.1.map Subtype.val

theorem tag_notMem (u : UnknownFields known) : ∀ f ∈ u.fields, f.tag ∉ known := by
  intro f hf
  obtain ⟨v, hv, rfl⟩ := List.mem_map.mp hf
  exact u.2 v hv

theorem valid (u : UnknownFields known) : ∀ f ∈ u.fields, f.Valid .standard := by
  intro f hf
  obtain ⟨v, -, rfl⟩ := List.mem_map.mp hf
  exact v.2

theorem select_fields {tag : ℕ × ℕ} (u : UnknownFields known) (h : tag ∈ known) :
    select tag u.fields = [] := by
  rw [select, List.map_eq_nil_iff, List.filter_eq_nil_iff]
  intro f hf heq
  exact u.tag_notMem f hf (of_decide_eq_true heq ▸ h)

theorem fields_injective : Function.Injective (fields : UnknownFields known → List Field) :=
  fun _ _ h => Subtype.ext (Subtype.val_injective.list_map h)

/-- The unknown fields behind known ones are those that are unknown. -/
theorem filter_append {fs : List Field} (u : UnknownFields known) (hfs : ∀ f ∈ fs, f.tag ∈ known) :
    (fs ++ u.fields).filter (·.tag ∉ known) = u.fields := by
  rw [List.filter_append, List.filter_eq_nil_iff.mpr (by simpa using hfs), List.nil_append,
    List.filter_eq_self]
  exact fun f hf => decide_eq_true (u.tag_notMem f hf)

theorem fields_of (vs : List ValidField) :
    (of vs : UnknownFields known).fields = (vs.map Subtype.val).filter (·.tag ∉ known) := by
  rw [List.filter_map]
  rfl

end UnknownFields

/-! ### Messages -/

/-- How a type of messages is written: its tags, and what a message has under each of them. -/
structure Schema (M : Type) where
  tags : List (ℕ × ℕ)
  nodup : tags.Nodup
  numbers : ∀ tag ∈ tags, IsFieldNumber tag.1
  parts : M → List Part
  tags_parts : ∀ m, (parts m).map Part.tag = tags
  unknown : M → UnknownFields tags

namespace Schema

variable {M : Type} (c : Schema M)

/-- The fields of a message. -/
def fields (m : M) : List Field := (c.parts m).flatMap Part.fields ++ (c.unknown m).fields

/-- A message as bytes. -/
def serialize (m : M) : List UInt8 := (c.fields m).flatMap Field.raw

/-- A message that may be written: it is within the largest length. -/
def Fits (m : M) : Prop := (c.serialize m).length ≤ Limits.standard.maxLength

variable {c} {m : M}

theorem tag_mem {p : Part} (hp : p ∈ c.parts m) : p.tag ∈ c.tags := by
  rw [← c.tags_parts m]
  exact List.mem_map_of_mem hp

theorem tag_mem_of_mem_parts {f : Field} (h : f ∈ (c.parts m).flatMap Part.fields) :
    f.tag ∈ c.tags := by
  obtain ⟨p, hp, hf⟩ := List.mem_flatMap.mp h
  exact Part.tag_of_mem_fields hf ▸ tag_mem hp

/-- What is read under a tag is what was written under it. -/
theorem select_fields {p : Part} (hp : p ∈ c.parts m) : select p.tag (c.fields m) = p.values := by
  rw [fields, select_append, Part.select_flatMap (c.tags_parts m ▸ c.nodup) hp,
    (c.unknown m).select_fields (tag_mem hp), List.append_nil]

/-- The unknown fields are kept. -/
theorem filter_fields : (c.fields m).filter (·.tag ∉ c.tags) = (c.unknown m).fields :=
  (c.unknown m).filter_append fun _ => tag_mem_of_mem_parts

/-- The fields of a message are written or were read. -/
theorem written_or_valid {f : Field} (h : f ∈ c.fields m) : f.Written ∨ f.Valid .standard := by
  rcases List.mem_append.mp h with h | h
  · obtain ⟨p, hp, hf⟩ := List.mem_flatMap.mp h
    obtain ⟨value, hvalue, rfl⟩ := List.mem_map.mp hf
    exact .inl ⟨p.number, value, c.numbers p.tag (tag_mem hp), p.plain value hvalue, rfl⟩
  · exact .inr ((c.unknown m).valid f h)

theorem length_raw_le {fs : List Field} {f : Field} (h : f ∈ fs) :
    f.raw.length ≤ (fs.flatMap Field.raw).length := by
  obtain ⟨front, back, rfl⟩ := List.append_of_mem h
  simp only [List.flatMap_append, List.flatMap_cons, List.length_append]
  omega

/-- The fields of a message are read from its bytes, under limits that are large enough. -/
theorem lex_serialize {lim : Limits} (hlim : Limits.standard.Within lim)
    (h : (c.serialize m).length ≤ lim.maxLength) : lex lim (c.serialize m) = some (c.fields m) := by
  refine lex_flatMap fun f hf => ?_
  rcases written_or_valid hf with hwritten | hvalid
  · exact hwritten.valid ((length_raw_le hf).trans h)
  · exact hvalid.mono hlim

theorem parseFields_serialize (h : c.Fits m) :
    ∃ vs, parseFields (c.serialize m) = some vs ∧ vs.map Subtype.val = c.fields m := by
  have hlex := lex_serialize ⟨le_rfl, le_rfl⟩ h
  rw [← map_parseFields] at hlex
  exact Option.map_eq_some_iff.mp hlex

/-- **Bytes determine the fields.** Messages that are written as the same bytes have the same
fields. -/
theorem fields_eq_of_serialize_eq {m' : M} (h : c.serialize m = c.serialize m') :
    c.fields m = c.fields m' := by
  let size := max Limits.standard.maxLength (c.serialize m).length
  have hsize : size < 128 ^ (size + 5) :=
    (Nat.lt_pow_self (by decide)).trans_le (Nat.pow_le_pow_right (by decide) (by omega))
  let lim : Limits := ⟨size, size + 5, by omega, hsize⟩
  have hlim : Limits.standard.Within lim := ⟨le_max_left _ _, Nat.le_add_left _ _⟩
  have hlex := lex_serialize (m := m) hlim (le_max_right _ _)
  have hlex' := lex_serialize (m := m') hlim (by rw [← h]; exact le_max_right _ _)
  rw [h, hlex'] at hlex
  exact (Option.some.inj hlex).symm

end Schema

/-- A type of messages: how a message is written, and how it is read. -/
structure MessageCodec (M : Type) extends Schema M where
  read : List Field → UnknownFields tags → Option M
  read_fields : ∀ m, toSchema.Fits m → read (toSchema.fields m) (unknown m) = some m

namespace MessageCodec

variable {M : Type} (c : MessageCodec M)

/-- The message that fields are read as. -/
def ofFields (vs : List ValidField) : Option M := c.read (vs.map Subtype.val) (.of vs)

/-- The message that bytes are read as. -/
def parse (bs : List UInt8) : Option M := (parseFields bs).bind c.ofFields

variable {c}

theorem ofFields_eq {m : M} (h : c.Fits m) {vs : List ValidField}
    (hvs : vs.map Subtype.val = c.fields m) : c.ofFields vs = some m := by
  have hunknown : UnknownFields.of vs = c.unknown m := by
    apply UnknownFields.fields_injective
    rw [UnknownFields.fields_of, hvs, Schema.filter_fields]
  rw [ofFields, hvs, hunknown, c.read_fields m h]

/-- **A message is read from what it was written as.** -/
theorem parse_serialize {m : M} (h : c.Fits m) : c.parse (c.serialize m) = some m := by
  obtain ⟨vs, hvs, hfields⟩ := Schema.parseFields_serialize h
  rw [parse, hvs, Option.bind_some, ofFields_eq h hfields]

/-! ### Messages as fields -/

variable (c)

/-- A message as a value. -/
def encode (m : M) : WireValue := .len (c.serialize m)

/-- The message of a value. -/
def decode : WireValue → Option M
  | .len payload => c.parse payload
  | _ => none

/-- A singular field. -/
def one (number : ℕ) (m : Option M) : Part where
  number := number
  wireType := 2
  values := (m.map c.encode).toList
  plain value hvalue := by
    obtain ⟨a, -, rfl⟩ := Option.map_eq_some_iff.mp (Option.mem_toList.mp hvalue)
    trivial
  typed value hvalue := by
    obtain ⟨a, -, rfl⟩ := Option.map_eq_some_iff.mp (Option.mem_toList.mp hvalue)
    rfl

/-- A repeated field. -/
def each (number : ℕ) (ms : List M) : Part where
  number := number
  wireType := 2
  values := ms.map c.encode
  plain value hvalue := by
    obtain ⟨a, -, rfl⟩ := List.mem_map.mp hvalue
    trivial
  typed value hvalue := by
    obtain ⟨a, -, rfl⟩ := List.mem_map.mp hvalue
    rfl

/-- The values of a singular field, put together. -/
def merge : List WireValue → Option (Option M)
  | [] => some none
  | values => (values.mapM WireValue.fields).bind fun vss => (c.ofFields vss.flatten).map some

/-- A singular field is read. -/
def merged (number : ℕ) (fs : List Field) : Option (Option M) := c.merge (select (number, 2) fs)

/-- A repeated field is read. -/
def all (number : ℕ) (fs : List Field) : Option (List M) :=
  (select (number, 2) fs).mapM c.decode

variable {c}

theorem merged_eq {number : ℕ} {m : Option M} {fs : List Field} (hfits : ∀ a ∈ m, c.Fits a)
    (h : select (c.one number m).tag fs = (c.one number m).values) :
    c.merged number fs = some m := by
  have hselect : select (number, 2) fs = (m.map c.encode).toList := h
  rw [merged, hselect]
  cases m with
  | none => rfl
  | some a =>
    obtain ⟨vs, hvs, hfields⟩ := Schema.parseFields_serialize (hfits a rfl)
    have hread := ofFields_eq (hfits a rfl) hfields
    simp [merge, encode, WireValue.fields, hvs, hread]

theorem all_eq {number : ℕ} {ms : List M} {fs : List Field} (hfits : ∀ a ∈ ms, c.Fits a)
    (h : select (c.each number ms).tag fs = (c.each number ms).values) :
    c.all number fs = some ms := by
  have hselect : select (number, 2) fs = ms.map c.encode := h
  rw [all, hselect]
  clear h hselect
  induction ms with
  | nil => rfl
  | cons a ms ih =>
    have htail := ih fun b hb => hfits b (List.mem_cons_of_mem _ hb)
    simp [encode, decode, parse_serialize (hfits a List.mem_cons_self), htail]

/-- A message in a message that fits fits. -/
theorem fits_of_mem {P : Type} {d : Schema P} {p : P} (h : d.Fits p) {part : Part}
    (hpart : part ∈ d.parts p) {a : M} (ha : c.encode a ∈ part.values) : c.Fits a := by
  have hmem : Field.of part.number (c.encode a) ∈ d.fields p :=
    List.mem_append_left _ (List.mem_flatMap.mpr ⟨part, hpart, List.mem_map_of_mem ha⟩)
  have hlength : (c.serialize a).length ≤ (Field.of part.number (c.encode a)).raw.length := by
    simp only [encode, Field.of, Field.len, List.length_append]
    omega
  exact (hlength.trans (Schema.length_raw_le hmem)).trans h

/-- A repeated field of a message that fits is read. -/
theorem all_eq_of_fits {P : Type} {d : Schema P} {p : P} (h : d.Fits p) {number : ℕ} {ms : List M}
    (hpart : c.each number ms ∈ d.parts p) : c.all number (d.fields p) = some ms :=
  all_eq (fun _ ha => fits_of_mem h hpart (List.mem_map_of_mem ha)) (Schema.select_fields hpart)

/-- A singular field of a message that fits is read. -/
theorem merged_eq_of_fits {P : Type} {d : Schema P} {p : P} (h : d.Fits p) {number : ℕ}
    {m : Option M} (hpart : c.one number m ∈ d.parts p) :
    c.merged number (d.fields p) = some m := by
  refine merged_eq (fun a ha => ?_) (Schema.select_fields hpart)
  obtain rfl := ha
  exact fits_of_mem h hpart List.mem_cons_self

end MessageCodec

end Wire
