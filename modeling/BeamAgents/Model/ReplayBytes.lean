import BeamAgents.Model.ReplayRetention
import BeamAgents.Core.Migration
import BeamAgents.Wire.Message

/-!
# The replay cache blob on the wire

`LlmCacheBlob` of `protos/beam_agents.proto` as bytes, and its size: the sum that the cache tracks,
taken over the entries as they are. The schema version, a `uint32`, is one byte after its tag; the
stamps are `int64`, so that a stamp before the epoch takes ten bytes.

## Main definitions

* `LlmCacheEntry.schema`, `LlmCacheBlob.schema`: how the messages are written.
* `IsInt64`: the numbers that an `int64` field holds.

## Main results

* `LlmCacheEntry.length_serialize`, `LlmCacheBlob.length_serialize`.
-/

namespace BeamAgents

open Containers Wire Wire.Scalar

/-! ### Sizes of fields -/

theorem length_writeVarint (n : ℕ) : (writeVarint n).length = varintLen n := by
  induction n using Nat.strong_induction_on with
  | _ n ih =>
    rw [writeVarint_eq, varintLen]
    split_ifs with h
    · rfl
    · rw [List.length_cons, ih (n / 128) (by omega), Nat.add_comm]

/-- The field numbers whose tag is one byte. -/
theorem length_writeTag {number wireType : ℕ} (hnumber : number < 16) (htype : wireType < 8) :
    (writeTag number wireType).length = 1 := by
  rw [writeTag, length_writeVarint, varintLen, if_pos (by omega)]

/-- The bytes of a part. -/
def partSize (p : Part) : ℕ := (p.fields.flatMap Field.raw).length

/-- A message is as long as its parts. -/
theorem length_serialize {M : Type} (c : Schema M) {m : M} (hunknown : (c.unknown m).fields = []) :
    (c.serialize m).length = ((c.parts m).map partSize).sum := by
  rw [Schema.serialize, Schema.fields, hunknown, List.append_nil]
  induction c.parts m with
  | nil => rfl
  | cons p parts ih =>
    rw [List.flatMap_cons, List.flatMap_append, List.length_append, ih]
    rfl

/-- A singular field takes the bytes of its value, or none when it is zero. -/
theorem partSize_one {α : Type} [DecidableEq α] (c : Scalar α) (number : ℕ) (a : α) :
    partSize (c.one number a) =
      if a = c.zero then 0 else (Field.of number (c.encode a)).raw.length := by
  have hfields : partSize (c.one number a) =
      (((if a = c.zero then [] else [c.encode a]).map (Field.of number)).flatMap
        Field.raw).length := rfl
  rw [hfields]
  split_ifs
  · rfl
  · exact congrArg List.length (List.append_nil _)

section Scalars

variable {number : ℕ}

/-- A piece with its length before it. -/
theorem length_len (h : number < 16) (payload : List UInt8) :
    (Field.len number payload).raw.length = 1 + varintLen payload.length + payload.length := by
  simp only [Field.len, List.length_append, length_writeTag h (by decide : 2 < 8),
    length_writeVarint]
  omega

theorem length_varint (h : number < 16) (value : UInt64) :
    (Field.varint number value).raw.length = 1 + varintLen value.toNat := by
  simp only [Field.varint, List.length_append, length_writeTag h (by decide : 0 < 8),
    length_writeVarint]

theorem partSize_bytes (h : number < 16) (value : Bytes) :
    partSize (bytes.one number value) = bytesFieldSize value.length := by
  rw [partSize_one, bytesFieldSize, ← length_len h value]
  exact if_congr List.length_eq_zero_iff.symm rfl rfl

theorem partSize_string (h : number < 16) (value : String) :
    partSize (string.one number value) = bytesFieldSize value.utf8ByteSize := by
  have hlength : (utf8 value).length = value.utf8ByteSize := rfl
  rw [partSize_one, bytesFieldSize, ← hlength, ← length_len h (utf8 value), hlength]
  exact if_congr String.utf8ByteSize_eq_zero_iff.symm rfl rfl

theorem partSize_bool (h : number < 16) (value : Bool) :
    partSize (bool.one number value) = if value then 2 else 0 := by
  rw [partSize_one]
  cases value with
  | false => rfl
  | true =>
    have hone : varintLen (UInt64.toNat 1) = 1 := by decide +kernel
    have hlength := length_varint h 1
    rw [hone] at hlength
    exact hlength

/-- The numbers that an `int64` field holds. -/
def IsInt64 (value : Int) : Prop := -2 ^ 63 ≤ value ∧ value < 2 ^ 63

theorem isInt64_toInt (value : Int64) : IsInt64 value.toInt :=
  ⟨value.le_toInt, value.toInt_lt⟩

theorem isInt64_natCast {n : ℕ} (h : n < 2 ^ 63) : IsInt64 n := by
  unfold IsInt64
  omega

/-- The first digits of a number in base 128, and what is left of it. -/
theorem varintLen_div {n k : ℕ} (h : 128 ^ k ≤ n) : varintLen n = k + varintLen (n / 128 ^ k) := by
  induction k generalizing n with
  | zero => simp
  | succ k ih =>
    have hpos : 0 < 128 ^ k := Nat.pow_pos (by decide)
    have hbase : 128 ≤ n := le_trans (Nat.le_mul_of_pos_left 128 hpos) h
    have hrest : 128 ^ k ≤ n / 128 := (Nat.le_div_iff_mul_le (by decide)).mpr h
    rw [varintLen, if_neg (not_lt.mpr hbase), ih hrest, Nat.div_div_eq_div_mul, ← pow_succ']
    omega

/-- A number with its top bit set takes ten bytes. -/
theorem varintLen_top {n : ℕ} (hlow : 2 ^ 63 ≤ n) (hhigh : n < 2 ^ 64) : varintLen n = 10 := by
  have hlast : varintLen (n / 128 ^ 9) = 1 := by
    rw [varintLen, if_pos (by omega)]
  rw [varintLen_div (by omega : 128 ^ 9 ≤ n), hlast]

theorem partSize_int64 (h : number < 16) {value : Int} (hvalue : IsInt64 value) :
    partSize (int64.one number (Int64.ofInt value)) = int64FieldSize value := by
  obtain ⟨hlow, hhigh⟩ := hvalue
  have hround : (Int64.ofInt value).toInt = value := Int64.toInt_ofInt_of_le hlow hhigh
  have hzero : Int64.ofInt value = Scalar.int64.zero ↔ value = 0 := by
    constructor
    · intro heq
      rw [← hround, heq]
      rfl
    · rintro rfl
      rfl
  have hnat : (Int64.ofInt value).toUInt64.toNat = (value % 2 ^ 64).toNat := by
    simp [Int64.ofInt]
  have hlength : (Field.of number (Scalar.int64.encode (Int64.ofInt value))).raw.length =
      1 + varintLen (value % 2 ^ 64).toNat := hnat ▸ length_varint h _
  rw [partSize_one, hlength, int64FieldSize]
  refine (if_congr hzero rfl rfl).trans ?_
  split_ifs with _ hneg
  · rfl
  · rw [varintLen_top (by omega) (by omega)]
  · rw [Int.emod_eq_of_lt (not_lt.mp hneg) (by omega)]

end Scalars

/-! ### The blob -/

/-- How an entry is written. -/
def LlmCacheEntry.schema : Schema LlmCacheEntry where
  tags := [(1, 2), (2, 2), (3, 2), (4, 0), (5, 0), (6, 0)]
  nodup := by decide
  numbers := by decide
  parts e :=
    [string.one 1 e.cacheKey, bytes.one 2 e.response, bytes.one 3 e.responseDigest,
      int64.one 4 (Int64.ofInt e.createdAtMs), int64.one 5 (Int64.ofInt e.lastAccessMs),
      bool.one 6 e.digestOnly]
  tags_parts _ := rfl
  unknown _ := .empty

/-- How a blob is written. -/
def LlmCacheBlob.schema : Schema LlmCacheBlob where
  tags := [(1, 0), (2, 2), (3, 0)]
  nodup := by decide
  numbers := by decide
  parts blob :=
    [uint32.one 1 (UInt32.ofNat blob.stateSchemaVersion),
      bytes.each 2 (blob.entries.map LlmCacheEntry.schema.serialize),
      int64.one 3 (Int64.ofInt blob.totalResponseBytes)]
  tags_parts _ := rfl
  unknown _ := .empty

/-- The stamps of an entry are `int64` numbers. -/
structure LlmCacheEntry.Stamped (e : LlmCacheEntry) : Prop where
  created : IsInt64 e.createdAtMs
  accessed : IsInt64 e.lastAccessMs

/-- What an entry takes in a blob. -/
def LlmCacheEntry.wireSize (e : LlmCacheEntry) : ℕ :=
  entryWireSize e.cacheKey ⟨e.response, e.responseDigest, e.createdAtMs, e.lastAccessMs,
    e.digestOnly⟩

theorem LlmCacheEntry.length_serialize {e : LlmCacheEntry} (h : e.Stamped) :
    e.wireSize = 1 + varintLen (schema.serialize e).length + (schema.serialize e).length := by
  have hsize : (schema.serialize e).length = bytesFieldSize e.cacheKey.utf8ByteSize +
      bytesFieldSize e.response.length + bytesFieldSize e.responseDigest.length +
      int64FieldSize e.createdAtMs + int64FieldSize e.lastAccessMs +
      (if e.digestOnly then 2 else 0) := by
    rw [BeamAgents.length_serialize schema rfl]
    simp only [schema, List.map_cons, List.map_nil, List.sum_cons, List.sum_nil,
      partSize_string (by decide : 1 < 16), partSize_bytes (by decide : 2 < 16),
      partSize_bytes (by decide : 3 < 16), partSize_int64 (by decide : 4 < 16) h.created,
      partSize_int64 (by decide : 5 < 16) h.accessed, partSize_bool (by decide : 6 < 16)]
    omega
  rw [hsize]
  rfl

/-- The repeated entries, one after another. -/
theorem partSize_entries {entries : List LlmCacheEntry} (h : ∀ e ∈ entries, e.Stamped) :
    partSize (bytes.each 2 (entries.map LlmCacheEntry.schema.serialize)) =
      (entries.map LlmCacheEntry.wireSize).sum := by
  induction entries with
  | nil => rfl
  | cons e entries ih =>
    have hentry := LlmCacheEntry.length_serialize (h e List.mem_cons_self)
    have hrest := ih fun e he => h e (List.mem_cons_of_mem _ he)
    rw [List.map_cons, List.map_cons, List.sum_cons, ← hrest, hentry,
      ← length_len (by decide : 2 < 16)]
    exact List.length_append

/-- **The size of a blob**, of a schema version that takes one byte. -/
theorem LlmCacheBlob.length_serialize {blob : LlmCacheBlob}
    (hversion : blob.stateSchemaVersion = StateSchema.v1.current)
    (hentries : ∀ e ∈ blob.entries, e.Stamped) (htotal : blob.totalResponseBytes < 2 ^ 63) :
    (schema.serialize blob).length = blobHeaderSize blob.totalResponseBytes +
      (blob.entries.map LlmCacheEntry.wireSize).sum := by
  have hone : partSize (uint32.one 1 (UInt32.ofNat StateSchema.v1.current)) = 2 := by
    decide
  have htotalSize : int64FieldSize (blob.totalResponseBytes : Int) =
      if blob.totalResponseBytes ≠ 0 then 1 + varintLen blob.totalResponseBytes else 0 := by
    unfold int64FieldSize
    by_cases hzero : blob.totalResponseBytes = 0
    · simp [hzero]
    · simp [hzero]
  rw [BeamAgents.length_serialize schema rfl]
  simp only [schema, List.map_cons, List.map_nil, List.sum_cons, List.sum_nil, hversion, hone,
    partSize_entries hentries, partSize_int64 (by decide : 3 < 16) (isInt64_natCast htotal),
    htotalSize, blobHeaderSize]
  omega

end BeamAgents
