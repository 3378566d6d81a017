import BeamAgents.Memory.Facade
import BeamAgents.Containers.Evict
import BeamAgents.Containers.Recency

/-!
# Dropping the oldest entries

The default compactor of `memory/compaction.py`. It walks a snapshot of the keys, least recently
used first, and deletes the unprotected ones until the memory is within a target. The walk is an
eviction to a target (`Containers.evict`) of the entries, sized by their stored values.

## Main definitions

* `DropOldestCompactor` with `compact`, `isProtected` and `evicted`.

## Main results

* `DropOldestCompactor.items_compact`, `DropOldestCompactor.total_compact`: the walk is an eviction.
* `DropOldestCompactor.compact_evicts`: what is evicted.
-/

namespace BeamAgents

open Containers

/-- `DEFAULT_TARGET_BYTES`. -/
def defaultTargetBytes : ℕ := hardCapBytes / 2

/-- `DEFAULT_PROTECTED_PREFIXES`. -/
def defaultProtectedPrefixes : List String := ["__langgraph__/"]

/-- `str.startswith`. -/
def startsWith (s start : String) : Bool := start.toList.isPrefixOf s.toList

/-- `DropOldestCompactor`: a positive target and the prefixes of the keys that stay. -/
structure DropOldestCompactor where
  targetBytes : ℕ
  protectedPrefixes : List String
  targetBytes_pos : 0 < targetBytes

/-- The size of an entry's stored value. -/
def entryBytes (p : String × MemEntry) : ℕ := p.2.value.length

/-- `Memory.keys`: a snapshot, least recently used first. -/
def Memory.keys (m : Memory) : List String := m.entries.keys

namespace DropOldestCompactor

/-- `DropOldestCompactor.__init__`. -/
def make (py : PyLib) (targetBytes : Int := defaultTargetBytes)
    (protectedPrefixes : List String := defaultProtectedPrefixes) :
    Except PyExn DropOldestCompactor :=
  if h : 0 < targetBytes then
    .ok ⟨targetBytes.toNat, protectedPrefixes, Int.lt_toNat.mpr h⟩
  else .error
    { typeName := "ValueError"
      repr := py.exnRepr "ValueError"
        s!"DropOldestCompactor target_bytes must be positive, got {targetBytes}" }

/-- `DropOldestCompactor()`, the compactor of an unconfigured pipeline. -/
def ofDefaults : DropOldestCompactor where
  targetBytes := defaultTargetBytes
  protectedPrefixes := defaultProtectedPrefixes
  targetBytes_pos := Nat.zero_lt_succ 524287

theorem make_ofDefaults (py : PyLib) : make py = .ok ofDefaults := rfl

variable (c : DropOldestCompactor)

/-- `_is_protected`. -/
def isProtected (key : String) : Bool := c.protectedPrefixes.any fun p => startsWith key p

/-- The loop of `compact` over the rest of the snapshot. -/
def compactLoop : (candidates : List String) → Memory → Memory
  | [], m => m
  | key :: candidates, m =>
    if m.total ≤ c.targetBytes then m
    else if c.isProtected key then compactLoop candidates m
    else compactLoop candidates (m.delete key)

/-- `DropOldestCompactor.compact`. -/
def compact (m : Memory) : Memory := c.compactLoop m.keys m

/-- The compactor as the facade calls it; it never raises. -/
def toCompactor : Compactor := fun m => (c.compact m, none)

/-- An entry that may be evicted. -/
def evictable (p : String × MemEntry) : Bool := !c.isProtected p.1

/-- The unprotected entries, least recently used first. -/
def candidates (m : Memory) : List (String × MemEntry) := m.entries.items.filter c.evictable

/-- The entries that `compact` evicts. -/
def evicted (m : Memory) : List (String × MemEntry) :=
  Containers.evicted c.targetBytes entryBytes c.evictable m.total m.entries.items

variable {c} {m : Memory}

/-! ### The walk -/

/-- Deleting the first of some entries leaves the others. -/
theorem delete_of_items {before rest : List (String × MemEntry)} {p : String × MemEntry}
    (h : m.entries.items = before ++ p :: rest) :
    (m.delete p.1).entries.items = before ++ rest ∧
      (m.delete p.1).total = m.total - entryBytes p := by
  obtain ⟨key, entry⟩ := p
  have hmem : (key, entry) ∈ m.entries.items := h ▸ List.mem_append_right _ List.mem_cons_self
  have hget : m.entries.get? key = some entry := m.entries.get?_eq_some_iff.mpr hmem
  have hnodup := m.entries.nodup
  rw [h, List.map_append, List.map_cons, List.nodup_append, List.nodup_cons] at hnodup
  have hkeep (l : List (String × MemEntry)) (hl : key ∉ l.map Prod.fst) :
      (l.filter fun q => q.1 ≠ key) = l :=
    List.filter_eq_self.mpr fun q hq =>
      decide_eq_true fun hqk => hl (hqk ▸ List.mem_map_of_mem hq)
  have hbefore : key ∉ before.map Prod.fst := fun hk =>
    hnodup.2.2 _ hk _ List.mem_cons_self rfl
  have hitems : (m.entries.erase key).items = before ++ rest := by
    rw [Dict.items_erase, h, List.filter_append, List.filter_cons_of_neg (by simp),
      hkeep before hbefore, hkeep rest hnodup.2.1.1]
  rw [Memory.delete, hget]
  exact ⟨hitems, rfl⟩

/-- Over the rest of the snapshot, the loop evicts from the rest of the entries. -/
theorem compactLoop_evicts {before rest : List (String × MemEntry)}
    (h : m.entries.items = before ++ rest) :
    (c.compactLoop (rest.map Prod.fst) m).entries.items =
        before ++ evict c.targetBytes entryBytes c.evictable m.total rest ∧
      (c.compactLoop (rest.map Prod.fst) m).total =
        m.total - ((Containers.evicted c.targetBytes entryBytes c.evictable m.total rest).map
          entryBytes).sum := by
  induction rest generalizing before m with
  | nil => exact ⟨h, rfl⟩
  | cons p rest ih =>
    rw [List.map_cons, compactLoop, evict, Containers.evicted]
    split_ifs with htarget hprotected hevictable hevictable
    · exact ⟨h, by simp⟩
    · rw [evictable, hprotected] at hevictable
      exact absurd hevictable (by decide)
    · have hnext : m.entries.items = (before ++ [p]) ++ rest := by
        rw [h, List.append_assoc]
        rfl
      obtain ⟨hitems, htotal⟩ := ih hnext
      exact ⟨by rw [hitems, List.append_assoc]; rfl, htotal⟩
    · obtain ⟨hdeleted, hsize⟩ := delete_of_items h
      obtain ⟨hitems, htotal⟩ := ih hdeleted
      rw [hsize] at hitems htotal
      exact ⟨hitems, by rw [htotal, List.map_cons, List.sum_cons, Nat.sub_sub]⟩
    · rw [evictable, Bool.eq_false_iff.mpr hprotected] at hevictable
      exact absurd rfl hevictable

theorem items_compact : (c.compact m).entries.items =
    evict c.targetBytes entryBytes c.evictable m.total m.entries.items :=
  (compactLoop_evicts (List.nil_append _).symm).1

theorem total_compact :
    (c.compact m).total = m.total - ((c.evicted m).map entryBytes).sum :=
  (compactLoop_evicts (List.nil_append _).symm).2

/-! ### What is evicted -/

/-- The evicted entries are the first candidates. -/
theorem evicted_eq_take : c.evicted m = (c.candidates m).take (c.evicted m).length :=
  List.prefix_iff_eq_take.mp evicted_prefix_filter

theorem items_compact_filter :
    (c.compact m).entries.items = m.entries.items.filter (· ∉ c.evicted m) := by
  have hnodup : m.entries.items.Nodup := List.Nodup.of_map Prod.fst m.entries.nodup
  rw [items_compact, evict_eq_filter hnodup]
  exact List.filter_congr fun p _ => decide_eq_decide.mpr Iff.rfl

/-- **What the compactor evicts.** It removes the shortest beginning of the unprotected entries,
least recently used first, that brings the total to the target, or all of them when none does. Every
other entry stays as it is and where it is among the others, and afterwards the total is within the
target or only protected entries remain. -/
theorem compact_evicts (c : DropOldestCompactor) (m : Memory) :
    ∃ n ≤ (c.candidates m).length,
      (c.compact m).entries.items =
          m.entries.items.filter (fun p => p ∉ (c.candidates m).take n) ∧
      (c.compact m).total = m.total - (((c.candidates m).take n).map entryBytes).sum ∧
      (∀ j < n, c.targetBytes < m.total - (((c.candidates m).take j).map entryBytes).sum) ∧
      ((c.compact m).total ≤ c.targetBytes ∨ n = (c.candidates m).length) ∧
      ((c.compact m).total ≤ c.targetBytes ∨
        ∀ p ∈ (c.compact m).entries.items, c.isProtected p.1 = true) := by
  have htake := evicted_eq_take (c := c) (m := m)
  have hlength : (c.evicted m).length ≤ (c.candidates m).length := evicted_prefix_filter.length_le
  have henough : (c.compact m).total ≤ c.targetBytes ∨ c.evicted m = c.candidates m := by
    rw [total_compact]
    exact evicted_enough
  refine ⟨(c.evicted m).length, hlength, ?_, ?_, fun j hj => evicted_shortest hj,
    henough.imp_right (congrArg List.length), henough.imp_right fun hall p hp => ?_⟩
  · rw [← htake]
    exact items_compact_filter
  · rw [← htake]
    exact total_compact
  · -- What stays was not evicted, so it was no candidate.
    rw [items_compact_filter, List.mem_filter, hall] at hp
    have hnot : p ∉ c.candidates m := of_decide_eq_true hp.2
    rw [candidates, List.mem_filter, not_and, evictable] at hnot
    simpa using hnot hp.1

end DropOldestCompactor

end BeamAgents
