import BeamAgents.Memory.Evictions

/-!
# Reserved namespaces under compaction

The adapters keep what a suspended run resumes from under reserved prefixes of working memory, and
their documentation asks that compactors leave these keys alone. The default compactor protects one
of the three prefixes, so that a compaction evicts an entry under the two others when the
unprotected entries used less recently than it do not bring the total to the target.

## Main definitions

* `reservedNamespaces`, `isReserved`: the adapters' namespaces.
* `DropOldestCompactor.Spares`: a compaction that comes to its target before any reserved entry.

## Main results

* `Memory.run_spares_reserved`: the runs that evict no reserved entry.
-/

namespace BeamAgents

open Containers Transition

/-! ### The adapters' namespaces -/

/-- `adapters/langgraph/checkpoint.py`: `_RESERVED_NAMESPACE`. -/
def langgraphNamespace : String := "__langgraph__/"

/-- `adapters/adk/session.py`: `_RESERVED_NAMESPACE`. -/
def adkNamespace : String := "__adk__/"

/-- `adapters/adk/session.py`: `_SESSION_KEY`. -/
def adkSessionKey : String := adkNamespace ++ "session"

/-- `adapters/pydantic_ai/history.py`: `_RESERVED_NAMESPACE`. -/
def pydanticAiNamespace : String := "__pydantic_ai__/"

/-- The namespaces in which the adapters keep resume state. -/
def reservedNamespaces : List String := [langgraphNamespace, adkNamespace, pydanticAiNamespace]

/-- The key belongs to an adapter. -/
def isReserved (key : String) : Bool := reservedNamespaces.any fun ns => startsWith key ns

/-! ### Sparing reserved entries -/

namespace DropOldestCompactor

variable {c : DropOldestCompactor} {m : Memory}

/-- The unprotected entries used less recently than a reserved one bring the total to the target. -/
def Spares (c : DropOldestCompactor) (m : Memory) : Prop :=
  ∀ before p after, c.candidates m = before ++ p :: after → isReserved p.1 = true →
    m.total - (before.map entryBytes).sum ≤ c.targetBytes

/-- **A compaction evicts no reserved entry** exactly when it comes to its target before one. -/
theorem spares_iff : c.Spares m ↔ ∀ p ∈ c.evicted m, isReserved p.1 = false := by
  have hnodup : (c.candidates m).Nodup := (List.Nodup.of_map Prod.fst m.entries.nodup).filter _
  have hsplit {before after} {p : String × MemEntry}
      (h : c.candidates m = before ++ p :: after) :
      p ∈ c.evicted m ↔ c.targetBytes < m.total - (before.map entryBytes).sum := by
    refine mem_evicted_iff h fun hp => ?_
    rw [h, List.nodup_append] at hnodup
    exact hnodup.2.2 _ hp _ List.mem_cons_self rfl
  constructor
  · intro h p hp
    obtain ⟨before, after, heq⟩ := List.append_of_mem (evicted_prefix_filter.subset hp)
    by_contra hreserved
    have hmet := h before p after heq (by simpa using hreserved)
    have hover := (hsplit heq).mp hp
    omega
  · intro h before p after heq hreserved
    by_contra hover
    have hp := (hsplit heq).mpr (Nat.lt_of_not_le hover)
    rw [h p hp] at hreserved
    cases hreserved

end DropOldestCompactor

namespace Memory

variable {py : PyLib} {c : DropOldestCompactor} {m : Memory} {w : MemoryWrite}
  {p : String × MemEntry}

/-! ### Runs -/

/-- A read moves nothing but the entry it finds. -/
theorem Read.mem {α : Type} {key : String} {r : Memory × Except PyExn α} (hr : m.Read key r)
    (hp : p ∈ m.entries.items) (hkey : p.1 ≠ key) : p ∈ r.1.entries.items := by
  cases hr with
  | failed e => exact hp
  | absent h a => exact hp
  | used entry h a =>
    rw [touch, Dict.items_touch, mem_refresh]
    exact .inl ⟨hp, hkey⟩

theorem mem_delete {key : String} (hp : p ∈ m.entries.items) (hkey : p.1 ≠ key) :
    p ∈ (m.delete key).entries.items := by
  rw [delete]
  cases m.entries.get? key with
  | none => exact hp
  | some entry => exact List.mem_filter.mpr ⟨hp, decide_eq_true hkey⟩

/-- The compactions of a call evict no reserved entry, and the reserved entries stay as they are,
but for one that the call names. -/
def KeepsReserved (py : PyLib) (m : Memory) (op : MemoryOp) (m' : Memory) : Prop :=
  (∀ m₀ ∈ op.compactions py (some .ofDefaults) m,
      ∀ p ∈ DropOldestCompactor.ofDefaults.evicted m₀, isReserved p.1 = false) ∧
    ∀ p ∈ m.entries.items, isReserved p.1 = true → op.key? ≠ some p.1 → p ∈ m'.entries.items

/-- The compactions of a call come to their target before any reserved entry. -/
def SparesReserved (py : PyLib) (m : Memory) (op : MemoryOp) : Prop :=
  ∀ m₀ ∈ op.compactions py (some .ofDefaults) m, DropOldestCompactor.ofDefaults.Spares m₀

theorem sparesReserved_iff (py : PyLib) (m : Memory) (op : MemoryOp) :
    SparesReserved py m op ↔
      KeepsReserved py m op (m.perform py (some .ofDefaults) op).1 := by
  have hspares : SparesReserved py m op ↔ ∀ m₀ ∈ op.compactions py (some .ofDefaults) m,
      ∀ p ∈ DropOldestCompactor.ofDefaults.evicted m₀, isReserved p.1 = false :=
    forall₂_congr fun _ _ => DropOldestCompactor.spares_iff
  refine hspares.trans ⟨fun hkeeps => ⟨hkeeps, fun p hp hreserved hkey => ?_⟩, And.left⟩
  cases op with
  | get key => exact (get_read m key).mem hp fun h => hkey (congrArg some h.symm)
  | ring key => exact (ring_read m key).mem hp fun h => hkey (congrArg some h.symm)
  | write w =>
    refine (mem_performWrite_iff fun h => hkey (congrArg some h.symm)).mpr ⟨hp, ?_⟩
    intro m₀ hm₀ hevicted
    rw [hkeeps m₀ hm₀ p hevicted] at hreserved
    cases hreserved
  | delete key => exact mem_delete hp fun h => hkey (congrArg some h.symm)
  | reload version nowMs =>
    show p ∈ (ofBlob (some (m.toBlob version)) nowMs).entries.items
    rwa [(m.ofBlob_toBlob version nowMs).1]

/-- **The runs that lose no resume state.** Under the default compactor, the runs whose compactions
all come to their target before any reserved entry are the runs in which no compaction evicts a
reserved entry, and every reserved entry stays as it is but for the calls that name it. -/
theorem run_spares_reserved (py : PyLib) {start m : Memory} {ops : List MemoryOp}
    {log : List (MemoryOp × Except PyExn MemoryAnswer)} :
    ((machine py (some .ofDefaults)).guarded (SparesReserved py)).Run start ops log m ↔
      ((machine py (some .ofDefaults)).restrict fun m op m' _ => KeepsReserved py m op m').Run
        start ops log m := by
  refine Machine.Run.guarded_iff_restrict (I := fun _ => True) trivial
    (fun _ _ _ => trivial) fun {m op m' log} _ hstep => ?_
  have hm' : m' = (m.perform py (some .ofDefaults) op).1 := (congrArg Prod.fst hstep.1).symm
  rw [hm']
  exact sparesReserved_iff py m op

/-- A session that alone comes to the soft cap. -/
def largeSession : Bytes := List.replicate 786431 0

/-- The memory that the compactor is handed once it is stored. -/
def sessionMemory : Memory where
  nowMs := 7
  entries := Dict.ofList [(adkSessionKey, ⟨encodeScalar largeSession, 7⟩)]
  total := 786432
  dirty := true
  softCapWarned := true

theorem sessionMemory_compactions :
    (MemoryOp.write (.set adkSessionKey largeSession)).compactions quotingPy (some .ofDefaults)
      (ofBlob none 7) = [sessionMemory] := by
  have hlength : (encodeScalar largeSession).length = 786432 := by
    rw [encodeScalar, largeSession, List.length_cons, List.length_replicate]
  have htotal : (ofBlob none 7).prospectiveTotal adkSessionKey (encodeScalar largeSession) =
      786432 := by
    have hget : (ofBlob none 7).entries.get? adkSessionKey = none := rfl
    have hempty : (ofBlob none 7).total = 0 := rfl
    rw [prospectiveTotal, hlength, hget, hempty]
    simp
  have hroom : (ofBlob none 7).roomFor (some .ofDefaults) adkSessionKey
      (encodeScalar largeSession) = ofBlob none 7 := by
    rw [roomFor, htotal]
    rfl
  have hfits : 786432 ≤ hardCapBytes := by decide
  simp only [MemoryOp.compactions, MemoryOp.compactionsBefore, MemoryOp.compactionsAfter,
    MemoryWrite.mismatched, compactionsBefore, compactionsAfter, MemoryWrite.encode,
    MemoryWrite.key, hroom, htotal, if_pos hfits, softCompactions, commitEntry]
  rfl

theorem evicted_sessionMemory : DropOldestCompactor.ofDefaults.evicted sessionMemory =
    [(adkSessionKey, ⟨encodeScalar largeSession, 7⟩)] := by
  have hmay : DropOldestCompactor.ofDefaults.evictable
      (adkSessionKey, ⟨encodeScalar largeSession, 7⟩) = true := by decide +kernel
  have hover : ¬ sessionMemory.total ≤ DropOldestCompactor.ofDefaults.targetBytes := by decide
  have hitems : sessionMemory.entries.items =
      [(adkSessionKey, ⟨encodeScalar largeSession, 7⟩)] := rfl
  rw [DropOldestCompactor.evicted, hitems, Containers.evicted, if_neg hover, if_pos hmay]
  rfl

/-- Storing it in an empty memory brings a compaction that evicts it at once. -/
theorem session_evicted : ∃ log m,
    (machine quotingPy (some .ofDefaults)).Run (ofBlob none 7)
        [.write (.set adkSessionKey largeSession)] log m ∧
      isReserved adkSessionKey = true ∧
      ∃ m₀ ∈ (MemoryOp.write (.set adkSessionKey largeSession)).compactions quotingPy
          (some .ofDefaults) (ofBlob none 7),
        (adkSessionKey, (⟨encodeScalar largeSession, 7⟩ : MemEntry)) ∈
          DropOldestCompactor.ofDefaults.evicted m₀ := by
  refine ⟨_, _, run_perform quotingPy _ _ _, by decide +kernel, sessionMemory, ?_, ?_⟩
  · rw [sessionMemory_compactions]
    exact List.mem_singleton_self _
  · rw [evicted_sessionMemory]
    exact List.mem_singleton_self _

end Memory

end BeamAgents
