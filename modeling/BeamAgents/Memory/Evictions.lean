import BeamAgents.Memory.Accounting

/-!
# Compactions of a write

A write can hand the memory to the compactor twice: before it commits a value that does not fit, and
once it has committed a value that takes the memory to the soft cap. Both memories are explicit
here, and what is lost in a write is what these compactions evict.

## Main definitions

* `MemoryOp.compactionsBefore`, `MemoryOp.compactionsAfter`, `MemoryOp.compactions`: the memories
  that a call hands to the compactor.

## Main results

* `Memory.mem_performWrite_iff`: what is lost in a write was evicted in one of its compactions.
-/

namespace BeamAgents

open Containers Transition

/-! ### Compactions -/

/-- The soft-cap compaction of a memory to which a value was committed. -/
def Memory.softCompactions (committed : Memory) : List Memory :=
  if committed.softCapWarned || committed.total < softCapBytes then []
  else [{ committed with softCapWarned := true }]

/-- The memory that a guarded write hands to the compactor because the value does not fit. -/
def Memory.compactionsBefore (m : Memory) (key : String)
    (compute : Memory → Except PyExn Bytes) : List Memory :=
  match compute m with
  | .error _ => []
  | .ok first => if m.prospectiveTotal key first ≤ hardCapBytes then [] else [m]

/-- The memory that a guarded write hands to the compactor once the value is committed, when it
comes to the soft cap for the first time. -/
def Memory.compactionsAfter (compaction : Compaction) (m : Memory) (key : String)
    (compute : Memory → Except PyExn Bytes) : List Memory :=
  match compute m with
  | .error _ => []
  | .ok first =>
    match compute (m.roomFor compaction key first) with
    | .error _ => []
    | .ok encoded =>
      if (m.roomFor compaction key first).prospectiveTotal key encoded ≤ hardCapBytes
      then ((m.roomFor compaction key first).commitEntry key encoded).softCompactions
      else []

/-- The key that a call names. -/
def MemoryOp.key? : MemoryOp → Option String
  | .get key => some key
  | .ring key => some key
  | .write w => some w.key
  | .delete key => some key
  | .reload _ _ => none

/-- The memories that a call hands to the compactor before it commits its value. -/
def MemoryOp.compactionsBefore (py : PyLib) (m : Memory) : MemoryOp → List Memory
  | .write w => if w.mismatched m then [] else m.compactionsBefore w.key (w.encode py)
  | _ => []

/-- The memories that a call hands to the compactor after it committed its value. -/
def MemoryOp.compactionsAfter (py : PyLib) (compaction : Compaction) (m : Memory) :
    MemoryOp → List Memory
  | .write w => if w.mismatched m then [] else m.compactionsAfter compaction w.key (w.encode py)
  | _ => []

/-- The memories that a call hands to the compactor, in order. -/
def MemoryOp.compactions (py : PyLib) (compaction : Compaction) (m : Memory) (op : MemoryOp) :
    List Memory := op.compactionsBefore py m ++ op.compactionsAfter py compaction m

namespace Memory

variable {py : PyLib} {c : DropOldestCompactor} {m : Memory} {w : MemoryWrite}
  {p : String × MemEntry}

theorem mem_compact_iff : p ∈ (c.compact m).entries.items ↔
    p ∈ m.entries.items ∧ p ∉ c.evicted m := by
  rw [DropOldestCompactor.items_compact_filter, List.mem_filter, decide_eq_true_iff]

theorem mem_settled_iff : p ∈ (m.settled (some c)).entries.items ↔
    p ∈ m.entries.items ∧ ∀ m₀ ∈ m.softCompactions, p ∉ c.evicted m₀ := by
  rw [settled, softCompactions]
  split_ifs
  · simp
  · rw [List.forall_mem_singleton]
    exact mem_compact_iff

theorem mem_roomFor_iff {key : String} {encoded : Bytes} :
    p ∈ (m.roomFor (some c) key encoded).entries.items ↔ p ∈ m.entries.items ∧
      ∀ m₀ ∈ (if m.prospectiveTotal key encoded ≤ hardCapBytes then [] else [m]),
        p ∉ c.evicted m₀ := by
  rw [roomFor]
  split_ifs
  · simp
  · rw [List.forall_mem_singleton]
    exact mem_compact_iff

/-- **What is lost in a write was evicted** in one of the compactions that it brought, but for what
is stored under the written key. -/
theorem mem_performWrite_iff (hp : p.1 ≠ w.key) :
    p ∈ (m.performWrite py (some c) w).1.entries.items ↔
      p ∈ m.entries.items ∧
        ∀ m₀ ∈ (MemoryOp.write w).compactions py (some c) m, p ∉ c.evicted m₀ := by
  rw [MemoryOp.compactions, MemoryOp.compactionsBefore, MemoryOp.compactionsAfter]
  cases hmismatched : w.mismatched m with
  | true =>
    obtain ⟨e, hraised, -⟩ : ∃ e, m.performWrite py (some c) w = (m, some e) ∧ _ :=
      performWrite_mismatched hmismatched
    rw [hraised]
    simp
  | false =>
    have hcommitted (m' : Memory) (encoded : Bytes) :
        p ∈ (m'.commitEntry w.key encoded).entries.items ↔ p ∈ m'.entries.items := by
      rw [commitEntry, Dict.items_touch, mem_refresh]
      constructor
      · rintro (⟨hmem, -⟩ | rfl)
        · exact hmem
        · exact absurd rfl hp
      · exact fun hmem => .inl ⟨hmem, hp⟩
    have hwritten : m.Written py (some c) w.key (w.encode py) (m.performWrite py (some c) w) := by
      rw [performWrite_guarded hmismatched]
      exact guardedWrite_written m w.key _
    simp only [Bool.false_eq_true, if_false, compactionsBefore, compactionsAfter]
    generalize m.performWrite py (some c) w = r at hwritten ⊢
    cases hwritten with
    | admitted first encoded hfirst hencoded hfits =>
      simp only [hfirst, hencoded, if_pos hfits, List.forall_mem_append]
      rw [mem_settled_iff, hcommitted, mem_roomFor_iff, and_assoc]
    | refused first encoded hfirst hfull hencoded hstill =>
      have hroom : m.roomFor (some c) w.key first = m.compacted (some c) :=
        if_neg (Nat.not_le.mpr hfull)
      simp only [hfirst, if_neg (Nat.not_le.mpr hfull), hroom, hencoded,
        if_neg (Nat.not_le.mpr hstill), List.append_nil, List.forall_mem_singleton]
      exact mem_compact_iff
    | failed e hfailed => simp [hfailed]
    | failedAgain first e hfirst hfull hfailed =>
      have hroom : m.roomFor (some c) w.key first = m.compacted (some c) :=
        if_neg (Nat.not_le.mpr hfull)
      simp only [hfirst, if_neg (Nat.not_le.mpr hfull), hroom, hfailed, List.append_nil,
        List.forall_mem_singleton]
      exact mem_compact_iff

end Memory

end BeamAgents
