import BeamAgents.Memory.Compaction
import BeamAgents.Memory.Ring
import BeamAgents.Observability.Traces
import BeamAgents.Transition.Machine

/-!
# Operations on working memory

The calls of the facade as operations with answers, for a memory without a compactor or with the
default one. A write is judged against the memory as it is, or against the memory that the compactor
leaves when the value does not fit at first; it is then committed, which may bring the soft-cap
compaction, or refused.

## Main definitions

* `MemoryWrite`, `MemoryOp`, `Memory.perform`, `Memory.machine`.
* `Memory.compacted`, `Memory.roomFor`, `Memory.settled`: the memory around a write.
* `Memory.Written`, `Memory.Read`: what a guarded write and a read can do.

## Main results

* `Memory.guardedWrite_written`, `Memory.get_read`, `Memory.ring_read`: they do no more.
* `Memory.refused_write`: a refused write leaves no trace of itself.
-/

namespace BeamAgents

open Containers Transition

/-- `DropOldestCompactor.compact` as the configured compactor, if there is one. -/
abbrev Compaction := Option DropOldestCompactor

/-- A call that writes. -/
inductive MemoryWrite
  | set (key : String) (value : Bytes)
  | append (key : String) (item : Bytes) (maxItems : Int)

/-- A call of the facade; reloading is `to_blob` and the next activation's `Memory`. -/
inductive MemoryOp
  | get (key : String)
  | ring (key : String)
  | write (w : MemoryWrite)
  | delete (key : String)
  | reload (version : ℕ) (nowMs : Int)

/-- What a call returns. -/
inductive MemoryAnswer
  | scalar (value : Option Bytes)
  | items (items : List Bytes)
  | done
  deriving DecidableEq

/-- The key that is written. -/
def MemoryWrite.key : MemoryWrite → String
  | .set key _ => key
  | .append key _ _ => key

/-- The value that is written, computed against a memory. -/
def MemoryWrite.encode (py : PyLib) : MemoryWrite → Memory → Except PyExn Bytes
  | .set _ value, _ => .ok (encodeScalar value)
  | .append key item maxItems, m => m.appended py key item maxItems

/-- The write is refused because of the kind of its key. -/
def MemoryWrite.mismatched (m : Memory) : MemoryWrite → Bool
  | .set _ _ => false
  | .append key _ _ =>
    match m.entries.get? key with
    | none => false
    | some entry => entry.value.head? != some kindRing

namespace Memory

variable (py : PyLib) (compaction : Compaction)

/-- Perform a write. -/
def performWrite (m : Memory) : MemoryWrite → Memory × Option PyExn
  | .set key value => m.set py (compaction.map (·.toCompactor)) key value
  | .append key item maxItems => m.append py (compaction.map (·.toCompactor)) key item maxItems

/-- A call without a result. -/
def answered (r : Memory × Option PyExn) : Memory × Except PyExn MemoryAnswer :=
  (r.1, match r.2 with
    | none => .ok .done
    | some e => .error e)

/-- Perform a call. -/
def perform (m : Memory) : MemoryOp → Memory × Except PyExn MemoryAnswer
  | .get key => ((m.get py key).1, (m.get py key).2.map .scalar)
  | .ring key => ((m.ring py key).1, (m.ring py key).2.map .items)
  | .write w => answered (m.performWrite py compaction w)
  | .delete key => (m.delete key, .ok .done)
  | .reload version nowMs => (ofBlob (some (m.toBlob version)) nowMs, .ok .done)

/-- Working memory as a machine that logs each call with its answer. -/
def machine : Machine Memory MemoryOp (MemoryOp × Except PyExn MemoryAnswer) where
  step m op m' log := m.perform py compaction op = (m', (m.perform py compaction op).2) ∧
    log = [(op, (m.perform py compaction op).2)]

/-- The memory once the configured compactor has run. -/
def compacted (m : Memory) : Memory :=
  match compaction with
  | none => m
  | some c => c.compact m

/-- The memory against which a value is judged: compacted when it does not fit at first. -/
def roomFor (m : Memory) (key : String) (encoded : Bytes) : Memory :=
  if m.prospectiveTotal key encoded ≤ hardCapBytes then m else m.compacted compaction

/-- The memory once the soft cap was seen to. -/
def settled (m : Memory) : Memory :=
  if m.softCapWarned || m.total < softCapBytes then m
  else ({ m with softCapWarned := true } : Memory).compacted compaction

/-- **What a guarded write can do**: admit the value, refuse it, or fail to compute it. -/
inductive Written (m : Memory) (key : String) (compute : Memory → Except PyExn Bytes) :
    Memory × Option PyExn → Prop
  | admitted (first encoded : Bytes) (hfirst : compute m = .ok first)
      (hencoded : compute (m.roomFor compaction key first) = .ok encoded)
      (hfits : (m.roomFor compaction key first).prospectiveTotal key encoded ≤ hardCapBytes) :
      Written m key compute
        (((m.roomFor compaction key first).commitEntry key encoded).settled compaction, none)
  | refused (first encoded : Bytes) (hfirst : compute m = .ok first)
      (hfull : hardCapBytes < m.prospectiveTotal key first)
      (hencoded : compute (m.compacted compaction) = .ok encoded)
      (hstill : hardCapBytes < (m.compacted compaction).prospectiveTotal key encoded) :
      Written m key compute (m.compacted compaction,
        some (memoryOverflow py key ((m.compacted compaction).prospectiveTotal key encoded)))
  | failed (e : PyExn) (h : compute m = .error e) : Written m key compute (m, some e)
  | failedAgain (first : Bytes) (e : PyExn) (hfirst : compute m = .ok first)
      (hfull : hardCapBytes < m.prospectiveTotal key first)
      (h : compute (m.compacted compaction) = .error e) :
      Written m key compute (m.compacted compaction, some e)

variable {py compaction} {m m' : Memory} {key : String} {w : MemoryWrite} {e : PyExn}

variable (py compaction) in
/-- One call. -/
theorem run_perform (m : Memory) (op : MemoryOp) :
    (machine py compaction).Run m [op] [(op, (m.perform py compaction op).2)]
      (m.perform py compaction op).1 := .single ⟨rfl, rfl⟩

variable (compaction) in
theorem maybeSoftCap_eq (m : Memory) :
    m.maybeSoftCap (compaction.map (·.toCompactor)) = (m.settled compaction, none) := by
  rw [maybeSoftCap, settled]
  cases compaction <;> split_ifs <;> rfl

theorem guardedWrite_written (m : Memory) (key : String)
    (compute : Memory → Except PyExn Bytes) :
    m.Written py compaction key compute
      (m.guardedWrite py (compaction.map (·.toCompactor)) key compute) := by
  rw [guardedWrite]
  cases hfirst : compute m with
  | error e => exact .failed e hfirst
  | ok first =>
    simp only [finishWrite, maybeSoftCap_eq]
    by_cases hfits : m.prospectiveTotal key first ≤ hardCapBytes
    · rw [if_pos hfits]
      have hroom : m.roomFor compaction key first = m := if_pos hfits
      have hadmitted : m.Written py compaction key compute
          (((m.roomFor compaction key first).commitEntry key first).settled compaction, none) :=
        .admitted first first hfirst (by rw [hroom]; exact hfirst) (by rw [hroom]; exact hfits)
      rwa [hroom] at hadmitted
    · rw [if_neg hfits]
      have hroom : m.roomFor compaction key first = m.compacted compaction := if_neg hfits
      cases compaction with
      | none =>
        have hstill := Nat.lt_of_not_le hfits
        have hrefused : m.Written py none key compute
            (m.compacted none, some (memoryOverflow py key (m.prospectiveTotal key first))) :=
          .refused first first hfirst hstill hfirst hstill
        exact hrefused
      | some c =>
        simp only [Option.map_some, runCompactor, DropOldestCompactor.toCompactor]
        cases hagain : compute (c.compact m) with
        | error e => exact .failedAgain first e hfirst (Nat.lt_of_not_le hfits) hagain
        | ok again =>
          by_cases hfits' : (c.compact m).prospectiveTotal key again ≤ hardCapBytes
          · simp only [if_pos hfits']
            have hadmitted : m.Written py (some c) key compute
                (((m.roomFor (some c) key first).commitEntry key again).settled (some c), none) :=
              .admitted first again hfirst (by rw [hroom]; exact hagain)
                (by rw [hroom]; exact hfits')
            rwa [hroom] at hadmitted
          · simp only [if_neg hfits']
            exact .refused first again hfirst (Nat.lt_of_not_le hfits) hagain
              (Nat.lt_of_not_le hfits')

/-! ### Reads -/

/-- **What a read can do**: fail, find nothing, or use the entry it finds. -/
inductive Read (m : Memory) (key : String) {α : Type} : Memory × Except PyExn α → Prop
  | failed (e : PyExn) : Read m key (m, .error e)
  | absent (h : m.entries.get? key = none) (a : α) : Read m key (m, .ok a)
  | used (entry : MemEntry) (h : m.entries.get? key = some entry) (a : α) :
      Read m key (m.touch key entry, .ok a)

theorem get_read (m : Memory) (key : String) : m.Read key (m.get py key) := by
  rw [get]
  cases hget : m.entries.get? key with
  | none => exact .absent hget _
  | some entry =>
    simp only
    split
    · exact .failed _
    · exact .used entry hget _

theorem ring_read (m : Memory) (key : String) : m.Read key (m.ring py key) := by
  rw [ring]
  cases hget : m.entries.get? key with
  | none => exact .absent hget _
  | some entry =>
    simp only
    split
    · exact .failed _
    · cases decodeRing py entry.value with
      | error e => exact .failed e
      | ok items => exact .used entry hget items

/-! ### Refused writes -/

theorem checkKind_error {entry : MemEntry} {kind : UInt8} {message : String}
    (h : checkKind py entry kind message = .error e) :
    e.typeName = "IndexError" ∨ e.typeName = "TypeError" := by
  rw [checkKind] at h
  split at h
  · cases h
    exact .inl rfl
  · split_ifs at h
    cases h
    exact .inr rfl

/-- A write of the wrong kind raises at once. -/
theorem performWrite_mismatched (h : w.mismatched m = true) :
    ∃ e, m.performWrite py compaction w = (m, some e) ∧
      (e.typeName = "IndexError" ∨ e.typeName = "TypeError") := by
  cases w with
  | set key value => cases h
  | append key item maxItems =>
    rw [performWrite, append]
    rw [MemoryWrite.mismatched] at h
    cases hget : m.entries.get? key with
    | none =>
      rw [hget] at h
      cases h
    | some entry =>
      rw [hget] at h
      simp only
      split
      · rename_i e he
        exact ⟨e, rfl, checkKind_error he⟩
      · rename_i hok
        rw [checkKind] at hok
        split at hok
        · cases hok
        · split_ifs at hok with hkind
          rename_i hhead
          simp [hhead, not_not.mp hkind] at h

/-- Any other write is guarded. -/
theorem performWrite_guarded (h : w.mismatched m = false) :
    m.performWrite py compaction w =
      m.guardedWrite py (compaction.map (·.toCompactor)) w.key (w.encode py) := by
  cases w with
  | set key value => rfl
  | append key item maxItems =>
    rw [performWrite, append]
    rw [MemoryWrite.mismatched] at h
    cases hget : m.entries.get? key with
    | none => rfl
    | some entry =>
      rw [hget] at h
      have hok (message : String) : checkKind py entry kindRing message = .ok () := by
        rw [checkKind]
        cases hhead : entry.value.head? with
        | none => simp [hhead] at h
        | some k =>
          have hk : k = kindRing := by simpa [hhead] using h
          simp [hk]
      simp only [hok]
      rfl

theorem performWrite_written (m : Memory) (w : MemoryWrite) :
    (∃ e, m.performWrite py compaction w = (m, some e) ∧
        (e.typeName = "IndexError" ∨ e.typeName = "TypeError")) ∨
      m.Written py compaction w.key (w.encode py) (m.performWrite py compaction w) := by
  cases h : w.mismatched m with
  | true => exact .inl (performWrite_mismatched h)
  | false =>
    rw [performWrite_guarded h]
    exact .inr (guardedWrite_written m w.key _)

/-- The exceptions of a value that cannot be computed. -/
theorem encode_error (h : w.encode py m = .error e) :
    e.typeName = "ValueError" ∨ e.typeName = "OverflowError" := by
  cases w with
  | set key value => cases h
  | append key item maxItems =>
    rw [MemoryWrite.encode, appended] at h
    have hencode {items : List Bytes} (h : encodeRing py items = .error e) :
        e.typeName = "OverflowError" := by rw [encodeRing_error h, lengthOverflow]
    cases hget : m.entries.get? key with
    | none =>
      simp only [hget] at h
      exact .inr (hencode h)
    | some entry =>
      simp only [hget] at h
      cases hstored : decodeRing py entry.value with
      | error e' =>
        simp only [hstored] at h
        cases h
        obtain ⟨cut, rfl⟩ := decodeRing_error hstored
        cases cut <;> exact .inl rfl
      | ok items =>
        simp only [hstored] at h
        exact .inr (hencode h)

/-- What compaction leaves are entries as they were, in their order. -/
theorem compacted_sublist (m : Memory) :
    (m.compacted compaction).entries.items.Sublist m.entries.items := by
  cases compaction with
  | none => exact List.Sublist.refl _
  | some c =>
    rw [compacted, DropOldestCompactor.items_compact]
    exact evict_sublist

/-- What is missing after compaction was unprotected, and evicted. -/
theorem missing_of_compacted {p : String × MemEntry} (hp : p ∈ m.entries.items)
    (hmissing : p ∉ (m.compacted compaction).entries.items) :
    ∃ c, compaction = some c ∧ p ∈ c.evicted m ∧ c.isProtected p.1 = false := by
  cases compaction with
  | none => exact absurd hp hmissing
  | some c =>
    rw [compacted, DropOldestCompactor.items_compact_filter, List.mem_filter, not_and] at hmissing
    have hevicted : p ∈ c.evicted m := by simpa using hmissing hp
    have hmay : c.evictable p = true := (may_of_mem_evicted hevicted).2
    rw [DropOldestCompactor.evictable, Bool.not_eq_true'] at hmay
    exact ⟨c, rfl, hevicted, hmay⟩

/-- **A refused write leaves no trace of itself.** When a write raises because of the cap or the
kind of its key, the entries that are still stored are as they were and in their order, those that
are missing were evicted and unprotected, and without a compactor, or when the kind is wrong,
nothing changed at all. With a compactor, a write that overflows is refused after the compactor has
run, and what it would bring the total to is over the cap even then. -/
theorem refused_write (py : PyLib) (compaction : Compaction) {m m' : Memory} {w : MemoryWrite}
    {e : PyExn} (h : m.performWrite py compaction w = (m', some e))
    (he : e.typeName = "MemoryOverflow" ∨ e.typeName = "TypeError") :
    m'.entries.items.Sublist m.entries.items ∧
      (∀ p ∈ m.entries.items, p ∉ m'.entries.items →
        ∃ c, compaction = some c ∧ p ∈ c.evicted m ∧ c.isProtected p.1 = false) ∧
      (compaction = none ∨ e.typeName = "TypeError" → m' = m) ∧
      ∀ c, compaction = some c → e.typeName = "MemoryOverflow" →
        m' = c.compact m ∧ ∃ encoded, w.encode py (c.compact m) = .ok encoded ∧
          hardCapBytes < (c.compact m).prospectiveTotal w.key encoded := by
  -- A write that raised left the memory as it was, or it overflowed what the compactor left.
  have hcases : m' = m ∧ e.typeName = "TypeError" ∨
      m' = m.compacted compaction ∧ e.typeName = "MemoryOverflow" ∧
        ∃ encoded, w.encode py m' = .ok encoded ∧
          hardCapBytes < m'.prospectiveTotal w.key encoded := by
    rcases performWrite_written m w with ⟨e', hkind, htype⟩ | hwritten
    · rw [h] at hkind
      cases hkind
      refine .inl ⟨rfl, he.resolve_left fun hoverflow => ?_⟩
      rcases htype with htype | htype <;> exact absurd (htype.symm.trans hoverflow) (by decide)
    · have hcomputed {m₀ : Memory} (hfailed : w.encode py m₀ = .error e) : False := by
        rcases encode_error hfailed with htype | htype <;> rw [htype] at he <;> simp at he
      rw [h] at hwritten
      cases hwritten with
      | refused first encoded hfirst hfull hencoded hstill =>
        exact .inr ⟨rfl, rfl, encoded, hencoded, hstill⟩
      | failed e hfailed => exact (hcomputed hfailed).elim
      | failedAgain first e hfirst hfull hfailed => exact (hcomputed hfailed).elim
  rcases hcases with ⟨rfl, htype⟩ | ⟨rfl, htype, encoded, hencoded, hstill⟩
  · refine ⟨List.Sublist.refl _, fun p hp hmissing => absurd hp hmissing, fun _ => rfl,
      fun c _ hoverflow => ?_⟩
    exact absurd (htype.symm.trans hoverflow) (by decide)
  · refine ⟨compacted_sublist m, fun p => missing_of_compacted, fun hnone => ?_, ?_⟩
    · rcases hnone with rfl | hkind
      · rfl
      · exact absurd (hkind.symm.trans htype) (by decide)
    · rintro c rfl -
      exact ⟨rfl, encoded, hencoded, hstill⟩

/-! ### A write that is refused -/

/-- A library whose `repr` quotes as Python does a text without both kinds of quotes. -/
def quotingPy : PyLib :=
  { PyLib.ofTable [] with
    reprStr := fun s =>
      let quote := if s.toList.contains (Char.ofNat 39) then "\"" else "'"
      quote ++ s ++ quote }

/-- A memory that a checkpoint fills to the cap, but for one small entry. -/
def fullMemory : Memory where
  nowMs := 7
  entries := Dict.ofList [("old", ⟨encodeScalar [9], 5⟩),
    ("__langgraph__/x", ⟨encodeScalar (List.replicate 1048573 0), 5⟩)]
  total := 1048576
  dirty := false
  softCapWarned := false

/-- Two more bytes are refused although the small entry goes: the checkpoint is protected. -/
theorem refused_write_full : ∃ m' e,
    fullMemory.performWrite quotingPy (some .ofDefaults) (.set "a" [1, 2]) = (m', some e) ∧
      e.typeName = "MemoryOverflow" ∧ m'.keys = ["__langgraph__/x"] ∧
      m' = DropOldestCompactor.ofDefaults.compact fullMemory := by
  have h : fullMemory.performWrite quotingPy (some .ofDefaults) (.set "a" [1, 2]) =
      (DropOldestCompactor.ofDefaults.compact fullMemory,
        some (memoryOverflow quotingPy "a" 1048577)) := by
    rfl
  have hrefused := refused_write quotingPy (some .ofDefaults) h (.inl rfl)
  exact ⟨_, _, h, rfl, rfl, (hrefused.2.2.2 _ rfl rfl).1⟩

end Memory

end BeamAgents
