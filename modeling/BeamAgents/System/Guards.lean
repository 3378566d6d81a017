import BeamAgents.Effector.Conformance
import BeamAgents.Memory.Prefixes
import BeamAgents.Stores.Guards

/-!
# The guards of the Bigtable stores

The dedup store asks Bigtable whether an expiry lies ahead, the memory store whether a stored seq is
above an incoming one, and a search for the row keys with a prefix. Each question is put in bytes: a
range of values whose start is excluded, over the newest version of one column, and a range of row
keys.

## Main results

* `byte_guards`: what the three ranges select.
-/

namespace BeamAgents

open Stores

/-! ### Lease expiries and seqs -/

/-- Lease expiries compare as their bytes do. -/
theorem BigtableDedupStore.byteOrder_leaseExpiry :
    ByteOrder BigtableDedupStore.Encodable BigtableDedupStore.encodeLeaseExpiry
      BigtableDedupStore.decodeLeaseExpiry := by
  refine ByteOrder.of_decodes (fun he => ?_) (fun ha hb hx hy => ?_)
  · exact ⟨_, BigtableDedupStore.encodeLeaseExpiry_of_encodable he,
      BigtableDedupStore.decodeLeaseExpiry_bigEndian he⟩
  · rw [BigtableDedupStore.encodeLeaseExpiry_of_encodable ha, Option.some.injEq] at hx
    rw [BigtableDedupStore.encodeLeaseExpiry_of_encodable hb, Option.some.injEq] at hy
    rw [← hx, ← hy, ha.bigEndian_lt_iff hb]

/-- The seqs that eight bytes hold. -/
def EncodableSeq (seq : ℕ) : Prop := seq < 2 ^ 64

theorem EncodableSeq.lt {seq : ℕ} (h : EncodableSeq seq) : seq < 256 ^ 8 := lt_of_lt_of_eq h rfl

/-- Seqs compare as their bytes do. -/
theorem byteOrder_encodeSeq :
    ByteOrder EncodableSeq (fun seq => some (encodeSeq seq)) decodeSeq := by
  refine ByteOrder.of_decodes (fun {seq} hseq => ⟨_, rfl, ?_⟩) (fun ha hb hx hy => ?_)
  · have hlength : (encodeSeq seq).length = 8 := length_bigEndian 8 seq
    rw [decodeSeq, if_pos hlength.ge, List.take_of_length_le hlength.le, encodeSeq,
      ofBigEndian_bigEndian hseq.lt]
  · rw [← Option.some.inj hx, ← Option.some.inj hy, encodeSeq, encodeSeq,
      bigEndian_lt_iff ha.lt hb.lt]

/-! ### The ranges -/

section Ranges

variable {row : Row}

/-- An expiry filter lets the newest cell of its column through when the expiry lies ahead. -/
theorem BigtableDedupStore.mem_liveExpiryFilter {store : BigtableDedupStore} {column : Bytes}
    (hcolumn : Literal store.regex column) {now : Int}
    (hnow : BigtableDedupStore.Encodable now)
    (hrow : ∀ c ∈ row, c.inColumn BigtableDedupStore.columnFamily column →
      Carries BigtableDedupStore.Encodable BigtableDedupStore.encodeLeaseExpiry c) :
    ∃ filter, store.liveExpiryFilter now column = some filter ∧ ∀ c, c ∈ filter row ↔
      row.find? (Cell.inColumn BigtableDedupStore.columnFamily column) = some c ∧
        ∃ e, BigtableDedupStore.decodeLeaseExpiry c.value = some e ∧ now < e := by
  have hstart := BigtableDedupStore.encodeLeaseExpiry_of_encodable hnow
  refine ⟨_, by rw [BigtableDedupStore.liveExpiryFilter, hstart]; rfl, fun c => ?_⟩
  exact BigtableDedupStore.byteOrder_leaseExpiry.mem_newestAbove store.literal_columnFamily hcolumn
    hnow hstart hrow c

/-- The save guard lets the newest seq of a row through when it is above the incoming one. -/
theorem BigtableMemoryStore.mem_storedNewerFilter {store : BigtableMemoryStore} {seq : ℕ}
    (hseq : EncodableSeq seq)
    (hrow : ∀ c ∈ row, c.inColumn BigtableMemoryStore.columnFamily BigtableMemoryStore.seqColumn →
      Carries EncodableSeq (fun seq => some (encodeSeq seq)) c) (c : Cell) :
    c ∈ store.storedNewerFilter seq row ↔
      row.find? (Cell.inColumn BigtableMemoryStore.columnFamily BigtableMemoryStore.seqColumn) =
          some c ∧
        ∃ stored, decodeSeq c.value = some stored ∧ seq < stored :=
  byteOrder_encodeSeq.mem_newestAbove store.literal_columnFamily store.literal_seqColumn hseq rfl
    hrow c

end Ranges

/-- **What the guards select.** Lease expiries and seqs of 64 bits are read back from their bytes,
different ones have different bytes, and the bytes compare as the numbers do; so a range of values
that begins after the bytes of a number selects the cells of the greater numbers, and the filters of
the two stores select the newest cell of their column when its number is the greater. The rows from
a prefix up to its successor are those whose key has the prefix. -/
theorem byte_guards (dedup : BigtableDedupStore) (memory : BigtableMemoryStore) :
    (ByteOrder BigtableDedupStore.Encodable BigtableDedupStore.encodeLeaseExpiry
        BigtableDedupStore.decodeLeaseExpiry ∧
      ∀ now start (row : Row), BigtableDedupStore.Encodable now →
        BigtableDedupStore.encodeLeaseExpiry now = some start →
        (∀ c ∈ row, Carries BigtableDedupStore.Encodable BigtableDedupStore.encodeLeaseExpiry c) →
        ∀ c, c ∈ RowFilter.valueAbove start row ↔
          c ∈ row ∧ ∃ e, BigtableDedupStore.decodeLeaseExpiry c.value = some e ∧ now < e) ∧
    (ByteOrder EncodableSeq (fun seq => some (encodeSeq seq)) decodeSeq ∧
      ∀ seq (row : Row), EncodableSeq seq →
        (∀ c ∈ row, Carries EncodableSeq (fun seq => some (encodeSeq seq)) c) →
        ∀ c, c ∈ RowFilter.valueAbove (encodeSeq seq) row ↔
          c ∈ row ∧ ∃ stored, decodeSeq c.value = some stored ∧ seq < stored) ∧
    (∀ column ∈ [BigtableDedupStore.claimColumn, BigtableDedupStore.resultExpiryColumn],
      ∀ now (row : Row), BigtableDedupStore.Encodable now →
        (∀ c ∈ row, c.inColumn BigtableDedupStore.columnFamily column →
          Carries BigtableDedupStore.Encodable BigtableDedupStore.encodeLeaseExpiry c) →
        ∃ filter, dedup.liveExpiryFilter now column = some filter ∧ ∀ c, c ∈ filter row ↔
          row.find? (Cell.inColumn BigtableDedupStore.columnFamily column) = some c ∧
            ∃ e, BigtableDedupStore.decodeLeaseExpiry c.value = some e ∧ now < e) ∧
    (∀ seq (row : Row), EncodableSeq seq →
      (∀ c ∈ row, c.inColumn BigtableMemoryStore.columnFamily BigtableMemoryStore.seqColumn →
        Carries EncodableSeq (fun seq => some (encodeSeq seq)) c) →
      ∀ c, c ∈ memory.storedNewerFilter seq row ↔
        row.find? (Cell.inColumn BigtableMemoryStore.columnFamily BigtableMemoryStore.seqColumn) =
            some c ∧
          ∃ stored, decodeSeq c.value = some stored ∧ seq < stored) ∧
    ∀ start key, ¬ key < start ∧
        (∀ stop ∈ BigtableMemoryStore.prefixSuccessor start, key < stop) ↔ start <+: key := by
  have hleases := BigtableDedupStore.byteOrder_leaseExpiry
  refine ⟨⟨hleases, fun now start row hnow hstart hrow => hleases.mem_valueAbove hnow hstart hrow⟩,
    ⟨byteOrder_encodeSeq,
      fun seq row hseq hrow => byteOrder_encodeSeq.mem_valueAbove hseq rfl hrow⟩,
    fun column hcolumn now row hnow hrow => ?_,
    fun seq row hseq hrow => BigtableMemoryStore.mem_storedNewerFilter hseq hrow,
    BigtableMemoryStore.prefixSuccessor_range⟩
  have hliteral : Literal dedup.regex column := by
    rcases List.mem_pair.mp hcolumn with rfl | rfl
    · exact dedup.literal_claimColumn
    · exact dedup.literal_resultExpiryColumn
  exact BigtableDedupStore.mem_liveExpiryFilter hliteral hnow hrow

/-- A stored seq of 256 is above an incoming one of 255, though its last byte is below, and the keys
with a prefix that ends in the highest byte are a range. -/
theorem byte_guards_boundary :
    (⟨BigtableMemoryStore.columnFamily, BigtableMemoryStore.seqColumn, 0, encodeSeq 256⟩ : Cell) ∈
        RowFilter.valueAbove (encodeSeq 255)
          [⟨BigtableMemoryStore.columnFamily, BigtableMemoryStore.seqColumn, 0, encodeSeq 256⟩] ∧
      ∀ key : Bytes, ¬ key < [97, 255] ∧
        (∀ stop ∈ BigtableMemoryStore.prefixSuccessor [97, 255], key < stop) ↔
          [97, 255] <+: key := by
  have hguards := byte_guards
    ⟨fun a b => decide (b = a), fun _ => decide_eq_true_iff, fun _ => decide_eq_true_iff,
      fun _ => decide_eq_true_iff, fun _ => decide_eq_true_iff⟩
    ⟨fun a b => decide (b = a), fun _ => decide_eq_true_iff, fun _ => decide_eq_true_iff⟩
  have hfits : EncodableSeq 256 := by
    unfold EncodableSeq
    decide
  refine ⟨?_, hguards.2.2.2.2 [97, 255]⟩
  have hsmall : EncodableSeq 255 := by
    unfold EncodableSeq
    decide
  refine (hguards.2.1.2 255 _ hsmall ?_ _).mpr ⟨List.mem_singleton_self _, 256, by decide,
    by decide⟩
  intro c hc
  rw [List.mem_singleton.mp hc]
  exact ⟨256, hfits, rfl⟩

end BeamAgents
