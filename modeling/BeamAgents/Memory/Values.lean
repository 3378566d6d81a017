import BeamAgents.Memory.Evictions
import BeamAgents.Memory.Reference

/-!
# The value under one key

What a list of calls does to the value under one key. A call that names the key computes its new
value from the old one; any call may lose it to a compaction, before or after it commits its own
value. A loss is made good when the next call that names the key does not look at the old value.

## Main definitions

* `Memory.valueOf`, `MemoryWrite.encodeOver`: the value under a key, and what a write makes of it.
* `Memory.replay`: calls one after the other, up to the first that raises.
* `restores`: the next call that names the key does not look at its value.
* `KeyRun`: what calls do to the value under one key, and whether each loss is made good.
* `Memory.Undisturbed`: each loss of the value under a key is made good.

## Main results

* `Memory.replay_keyRun`: a replay is such a run under each key.
-/

namespace BeamAgents

open Containers Transition

/-- What a write stores, computed from the value that it finds under its key. -/
def MemoryWrite.encodeOver (py : PyLib) : MemoryWrite → Option Bytes → Except PyExn Bytes
  | .set _ value, _ => .ok (encodeScalar value)
  | .append _ item maxItems, none => encodeRing py (keepLast maxItems.toNat [item])
  | .append _ item maxItems, some stored =>
    match decodeRing py stored with
    | .error e => .error e
    | .ok items => encodeRing py (keepLast maxItems.toNat (items ++ [item]))

/-- What a call makes of the value under a key, without its compactions. -/
def MemoryOp.Applies (py : PyLib) (key : String) :
    MemoryOp → Option Bytes → Option Bytes → Prop
  | .write w, v, v' =>
    if w.key = key then ∃ encoded, w.encodeOver py v = .ok encoded ∧ v' = some encoded else v' = v
  | .delete k, v, v' => v' = if k = key then none else v
  | _, v, v' => v' = v

namespace Memory

/-- The value that is stored under a key. -/
def valueOf (m : Memory) (key : String) : Option Bytes := (m.entries.get? key).map MemEntry.value

/-- The entry of a key is evicted in one of the compactions. -/
def lost (c : DropOldestCompactor) (compactions : List Memory) (key : String) : Bool :=
  compactions.any fun m => (c.evicted m).any fun p => p.1 = key

variable {py : PyLib} {c : DropOldestCompactor} {m m' : Memory} {w : MemoryWrite}
  {x key : String}

theorem encode_eq (w : MemoryWrite) (m : Memory) :
    w.encode py m = w.encodeOver py (m.valueOf w.key) := by
  cases w with
  | set key value => rfl
  | append key item maxItems =>
    rw [MemoryWrite.encode, appended, valueOf, MemoryWrite.key]
    cases m.entries.get? key with
    | none => exact encodeRing_keepLast _ _
    | some entry =>
      simp only [Option.map_some, MemoryWrite.encodeOver]
      cases decodeRing py entry.value with
      | error e => rfl
      | ok items => exact encodeRing_keepLast _ _

/-! ### One call -/

theorem mem_of_lost {compactions : List Memory} (h : lost c compactions key = true) :
    ∃ m₀ ∈ compactions, ∃ entry, (key, entry) ∈ c.evicted m₀ := by
  obtain ⟨m₀, hm₀, hany⟩ := List.any_eq_true.mp h
  obtain ⟨⟨key', entry⟩, hp, hkey⟩ := List.any_eq_true.mp hany
  have hkey' : key' = key := of_decide_eq_true hkey
  exact ⟨m₀, hm₀, entry, hkey' ▸ hp⟩

/-- What a compaction evicts was stored. -/
theorem valueOf_of_lost (h : lost c [m] key = true) : m.valueOf key ≠ none := by
  obtain ⟨m₀, hm₀, entry, hentry⟩ := mem_of_lost h
  obtain rfl := List.mem_singleton.mp hm₀
  rw [valueOf, m₀.entries.get?_eq_some_iff.mpr (may_of_mem_evicted hentry).1]
  exact Option.some_ne_none _

theorem valueOf_compact (c : DropOldestCompactor) (m : Memory) (key : String) :
    (c.compact m).valueOf key = if lost c [m] key then none else m.valueOf key := by
  have hfind (entry : MemEntry) : (c.compact m).entries.get? key = some entry ↔
      m.entries.get? key = some entry ∧ (key, entry) ∉ c.evicted m := by
    rw [Dict.get?_eq_some_iff, Dict.get?_eq_some_iff, mem_compact_iff]
  cases hlost : lost c [m] key with
  | true =>
    obtain ⟨m₀, hm₀, entry, hentry⟩ := mem_of_lost hlost
    obtain rfl := List.mem_singleton.mp hm₀
    have hstored := m₀.entries.get?_eq_some_iff.mpr (may_of_mem_evicted hentry).1
    rw [if_pos rfl, valueOf]
    cases hget : (c.compact m₀).entries.get? key with
    | none => rfl
    | some entry' =>
      obtain ⟨hget', hkept⟩ := (hfind entry').mp hget
      rw [hstored] at hget'
      cases hget'
      exact absurd hentry hkept
  | false =>
    rw [if_neg Bool.false_ne_true, valueOf, valueOf]
    refine congrArg (Option.map MemEntry.value) (Option.ext fun entry => ?_)
    rw [hfind entry, and_iff_left_iff_imp]
    intro hget hevicted
    have htrue : lost c [m] key = true := List.any_eq_true.mpr ⟨m, List.mem_singleton_self m,
      List.any_eq_true.mpr ⟨_, hevicted, decide_eq_true rfl⟩⟩
    rw [hlost] at htrue
    cases htrue

theorem valueOf_settled (m : Memory) (key : String) : (m.settled (some c)).valueOf key =
    if lost c m.softCompactions key then none else m.valueOf key := by
  rw [settled, softCompactions]
  by_cases hquiet : (m.softCapWarned || m.total < softCapBytes) = true
  · rw [if_pos hquiet, if_pos hquiet]
    rfl
  · rw [if_neg hquiet, if_neg hquiet]
    exact valueOf_compact c _ key

theorem valueOf_roomFor {compute : Memory → Except PyExn Bytes} {first : Bytes}
    (hfirst : compute m = .ok first) (key x : String) :
    (m.roomFor (some c) key first).valueOf x =
      if lost c (m.compactionsBefore key compute) x then none else m.valueOf x := by
  simp only [roomFor, compactionsBefore, hfirst]
  by_cases hfits : m.prospectiveTotal key first ≤ hardCapBytes
  · rw [if_pos hfits, if_pos hfits]
    rfl
  · rw [if_neg hfits, if_neg hfits]
    exact valueOf_compact c m x

theorem valueOf_commitEntry (m : Memory) (key : String) (encoded : Bytes) (x : String) :
    (m.commitEntry key encoded).valueOf x = if x = key then some encoded else m.valueOf x := by
  rw [valueOf, commitEntry, get?_touched]
  split_ifs <;> rfl

theorem valueOf_of_lost_soft (h : lost c m.softCompactions key = true) : m.valueOf key ≠ none := by
  rw [softCompactions] at h
  split_ifs at h
  · cases h
  · have hwarned : ({ m with softCapWarned := true } : Memory).valueOf key ≠ none :=
      valueOf_of_lost h
    exact hwarned

/-- **What an admitted write does to the value under a key**: it may be lost before, the write
applies to it, and it may be lost after. -/
theorem valueOf_performWrite (h : (m.performWrite py (some c) w).2 = none) (key : String) : ∃ v,
    (MemoryOp.write w).Applies py key
        (if lost c ((MemoryOp.write w).compactionsBefore py m) key then none else m.valueOf key) v ∧
      (lost c ((MemoryOp.write w).compactionsAfter py (some c) m) key = true → v ≠ none) ∧
      (m.performWrite py (some c) w).1.valueOf key =
        if lost c ((MemoryOp.write w).compactionsAfter py (some c) m) key then none else v := by
  rw [MemoryOp.compactionsBefore, MemoryOp.compactionsAfter]
  cases hmismatched : w.mismatched m with
  | true =>
    obtain ⟨e, hraised, -⟩ : ∃ e, m.performWrite py (some c) w = (m, some e) ∧ _ :=
      performWrite_mismatched hmismatched
    rw [hraised] at h
    cases h
  | false =>
    have hwritten : m.Written py (some c) w.key (w.encode py) (m.performWrite py (some c) w) := by
      rw [performWrite_guarded hmismatched]
      exact guardedWrite_written m w.key _
    simp only [Bool.false_eq_true, if_false]
    generalize m.performWrite py (some c) w = r at hwritten h ⊢
    cases hwritten with
    | admitted first encoded hfirst hencoded hfits =>
      have hafter : m.compactionsAfter (some c) w.key (w.encode py) =
          ((m.roomFor (some c) w.key first).commitEntry w.key encoded).softCompactions := by
        simp only [compactionsAfter, hfirst, hencoded, if_pos hfits]
      refine ⟨((m.roomFor (some c) w.key first).commitEntry w.key encoded).valueOf key, ?_, ?_, ?_⟩
      · rw [valueOf_commitEntry, ← valueOf_roomFor hfirst, MemoryOp.Applies]
        by_cases hkey : w.key = key
        · subst hkey
          rw [if_pos rfl, if_pos rfl, ← encode_eq]
          exact ⟨encoded, hencoded, rfl⟩
        · rw [if_neg hkey, if_neg (Ne.symm hkey)]
      · rw [hafter]
        exact valueOf_of_lost_soft
      · rw [hafter]
        exact valueOf_settled _ _
    | refused => cases h
    | failed => cases h
    | failedAgain => cases h

theorem valueOf_of_lost_before (w : MemoryWrite)
    (h : lost c ((MemoryOp.write w).compactionsBefore py m) key = true) : m.valueOf key ≠ none := by
  rw [MemoryOp.compactionsBefore, compactionsBefore] at h
  split_ifs at h
  · cases h
  · cases hfirst : w.encode py m with
    | error e =>
      rw [hfirst] at h
      cases h
    | ok first =>
      simp only [hfirst] at h
      split_ifs at h
      · cases h
      · exact valueOf_of_lost h

theorem valueOf_delete (m : Memory) (key x : String) :
    (m.delete key).valueOf x = if key = x then none else m.valueOf x := by
  rw [delete, valueOf]
  cases hget : m.entries.get? key with
  | none =>
    split_ifs with hkey
    · rw [← hkey]
      exact congrArg (Option.map MemEntry.value) hget
    · rfl
  | some entry =>
    rw [Dict.get?_erase]
    by_cases hkey : key = x
    · rw [if_pos hkey, if_pos hkey.symm]
      rfl
    · rw [if_neg hkey, if_neg (Ne.symm hkey)]
      rfl

theorem Read.valueOf {α : Type} {r : Memory × Except PyExn α} (hr : m.Read key r) (x : String) :
    r.1.valueOf x = m.valueOf x := by
  cases hr with
  | failed e => rfl
  | absent h a => rfl
  | used entry h a =>
    rw [Memory.valueOf, touch, get?_touched]
    split_ifs with hkey
    · rw [hkey, Memory.valueOf, h]
      rfl
    · rfl

/-- The entry is of the kind. -/
theorem checkKind_eq_ok_iff {entry : MemEntry} {kind : UInt8} {message : String} :
    checkKind py entry kind message = .ok () ↔ entry.value.head? = some kind := by
  rw [checkKind]
  cases entry.value.head? with
  | none => simp
  | some k => by_cases hk : k = kind <;> simp [hk]

/-- What `ring` answers, by the value under the key. -/
theorem ring_eq_ok_iff {items : List Bytes} : (m.ring py key).2 = .ok items ↔
    m.valueOf key = none ∧ items = [] ∨
      m.valueOf key = some (ringBytes items) ∧ RingFits items := by
  rw [ring, valueOf]
  cases m.entries.get? key with
  | none => simp [eq_comm]
  | some entry =>
    simp only [Option.map_some, Option.some.injEq, reduceCtorEq, false_and, false_or]
    constructor
    · intro h
      cases hkind : checkKind py entry kindRing
        s!"key {py.reprStr key} holds a scalar; use get() instead of ring()" with
      | error e => simp [hkind] at h
      | ok u =>
        cases hread : decodeRing py entry.value with
        | error e => simp [hkind, hread] at h
        | ok items' =>
          have hitems : items' = items := by simpa [hkind, hread] using h
          exact ringBytes_of_decodeRing (checkKind_eq_ok_iff.mp hkind) (hitems ▸ hread)
    · rintro ⟨hvalue, hfits⟩
      have hkind : checkKind py entry kindRing
          s!"key {py.reprStr key} holds a scalar; use get() instead of ring()" = .ok () :=
        checkKind_eq_ok_iff.mpr (by rw [hvalue]; rfl)
      simp only [hkind, hvalue, decodeRing_ringBytes hfits]

/-- What `get` answers, by the value under the key. -/
theorem get_eq_ok_iff {value : Option Bytes} :
    (m.get py key).2 = .ok value ↔ m.valueOf key = value.map encodeScalar := by
  rw [get, valueOf]
  cases m.entries.get? key with
  | none => cases value <;> simp
  | some entry =>
    simp only [Option.map_some]
    constructor
    · intro h
      cases hkind : checkKind py entry kindScalar
        s!"key {py.reprStr key} holds a ring; use ring() instead of get()" with
      | error e => simp [hkind] at h
      | ok u =>
        obtain rfl : some (entry.value.drop 1) = value := by simpa [hkind] using h
        obtain ⟨xs, hxs⟩ := List.head?_eq_some_iff.mp (checkKind_eq_ok_iff.mp hkind)
        rw [hxs]
        rfl
    · intro h
      obtain ⟨v, rfl, hv⟩ := Option.map_eq_some_iff.mp h.symm
      have hkind : checkKind py entry kindScalar
          s!"key {py.reprStr key} holds a ring; use ring() instead of get()" = .ok () :=
        checkKind_eq_ok_iff.mpr (by rw [← hv]; rfl)
      simp only [hkind, ← hv]
      rfl

/-! ### Calls in a row -/

/-- Calls one after the other, up to the first that raises. -/
def replay (py : PyLib) (compaction : Compaction) : List MemoryOp → Memory → Memory × Option PyExn
  | [], m => (m, none)
  | op :: ops, m =>
    match m.perform py compaction op with
    | (m', .error e) => (m', some e)
    | (m', .ok _) => replay py compaction ops m'

end Memory

/-- The next call that names the key does not look at its value. -/
def restores (key : String) : List MemoryOp → Bool
  | [] => false
  | .write (.set k _) :: ops => k = key || restores key ops
  | .write (.append k _ _) :: ops => k ≠ key && restores key ops
  | .delete k :: ops => k = key || restores key ops
  | _ :: ops => restores key ops

/-- What calls do to the value under one key, and whether each loss is made good. -/
inductive KeyRun (py : PyLib) (key : String) :
    List MemoryOp → Option Bytes → Bool → Option Bytes → Prop
  | nil (v : Option Bytes) : KeyRun py key [] v true v
  | cons {op ops v v₁ good v'} (before after : Bool) (hbefore : before = true → v ≠ none)
      (happlies : op.Applies py key (if before then none else v) v₁)
      (hafter : after = true → v₁ ≠ none)
      (h : KeyRun py key ops (if after then none else v₁) good v') :
      KeyRun py key (op :: ops) v
        ((!before || restores key (op :: ops)) && (!after || restores key ops) && good) v'

namespace Memory

variable {py : PyLib} {c : DropOldestCompactor} {m m' : Memory} {key : String}

/-- Each loss of the value under a key is made good. -/
def undisturbed (py : PyLib) (c : DropOldestCompactor) (key : String) :
    Memory → List MemoryOp → Bool
  | _, [] => true
  | m, op :: ops =>
    (!lost c (op.compactionsBefore py m) key || restores key (op :: ops)) &&
      (!lost c (op.compactionsAfter py (some c) m) key || restores key ops) &&
      undisturbed py c key (m.perform py (some c) op).1 ops

/-- What a call that returns does to the value under a key. -/
theorem valueOf_perform {op : MemoryOp} {answer : MemoryAnswer}
    (h : (m.perform py (some c) op).2 = .ok answer) (key : String) : ∃ v,
    op.Applies py key (if lost c (op.compactionsBefore py m) key then none else m.valueOf key) v ∧
      (lost c (op.compactionsAfter py (some c) m) key = true → v ≠ none) ∧
      (m.perform py (some c) op).1.valueOf key =
        if lost c (op.compactionsAfter py (some c) m) key then none else v := by
  -- Without a compaction nothing is lost.
  have hkept {v : Option Bytes} (hlost : lost c [] key = true) : v ≠ none :=
    absurd hlost Bool.false_ne_true
  cases op with
  | get k => exact ⟨m.valueOf key, rfl, hkept, (get_read m k).valueOf key⟩
  | ring k => exact ⟨m.valueOf key, rfl, hkept, (ring_read m k).valueOf key⟩
  | write w =>
    refine valueOf_performWrite ?_ key
    simp only [perform, answered] at h
    cases hraised : (m.performWrite py (some c) w).2 with
    | none => rfl
    | some e =>
      rw [hraised] at h
      cases h
  | delete k => exact ⟨_, rfl, hkept, valueOf_delete m k key⟩
  | reload version nowMs =>
    refine ⟨m.valueOf key, rfl, hkept, ?_⟩
    show (ofBlob (some (m.toBlob version)) nowMs).valueOf key = m.valueOf key
    rw [valueOf, (m.ofBlob_toBlob version nowMs).1]
    rfl

theorem valueOf_of_lost_beforeOp (op : MemoryOp)
    (h : lost c (op.compactionsBefore py m) key = true) : m.valueOf key ≠ none := by
  cases op with
  | write w => exact valueOf_of_lost_before w h
  | _ => cases h

/-- **A replay, seen under one key.** -/
theorem replay_keyRun {ops : List MemoryOp} (h : m.replay py (some c) ops = (m', none))
    (key : String) :
    KeyRun py key ops (m.valueOf key) (m.undisturbed py c key ops) (m'.valueOf key) := by
  induction ops generalizing m with
  | nil =>
    cases h
    exact .nil _
  | cons op ops ih =>
    rw [replay] at h
    cases hop : m.perform py (some c) op with
    | mk m₁ answer =>
      rw [hop] at h
      cases answer with
      | error e => cases h
      | ok answer =>
        obtain ⟨v₁, happlies, hafter, hvalue⟩ :=
          valueOf_perform (congrArg Prod.snd hop : (m.perform py (some c) op).2 = .ok answer) key
        have hrest := ih h
        rw [undisturbed]
        rw [hop] at hvalue ⊢
        rw [hvalue] at hrest
        exact .cons _ _ (valueOf_of_lost_beforeOp op) happlies hafter hrest

end Memory

end BeamAgents
