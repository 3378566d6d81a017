import BeamAgents.Core.Migration
import BeamAgents.Model.ReplayRetention
import BeamAgents.Transition.Machine

/-!
# Activations over one replay cache

The operations on the replay cache of a key, over any number of activations: each starts by loading
the blob that the one before it has produced, at its own clock. The outputs of a run are what
becomes of the entries: which are used, which are stored, and which a `put` evicts.

## Main definitions

* `CacheOp`, `CacheEvent`, `ReplayCache.perform`.
* `FitsAlone`: an entry that fits a blob of its own.
* `ReplayCache.machine`: the runs of the operations.
-/

namespace BeamAgents

open Containers Transition

/-- What an activation does with the cache. A clock is an `int64` number, as the stamps are. -/
inductive CacheOp
  /-- The next activation starts, with the blob that the one before it has produced. -/
  | load (nowMs : Int64)
  | get (cacheKey : String)
  | put (cacheKey : String) (response : Bytes)
  deriving DecidableEq

/-- What becomes of an entry. -/
inductive CacheEvent
  | used (cacheKey : String)
  | stored (cacheKey : String) (response : Bytes) (nowMs : Int)
  | evicted (cacheKey : String)
  deriving DecidableEq

/-- An entry fits a blob of its own. -/
def FitsAlone (cacheKey : String) (e : CacheEntry) : Prop :=
  blobHeaderSize e.response.length + entryWireSize cacheKey e ≤ blobCapBytes

namespace ReplayCache

variable (c : ReplayCache)

/-- The keys that `put` evicts: those of the live entries, and the key of the new one, that are not
in the cache after it. -/
def victims (py : PyLib) (cacheKey : String) (response : Bytes) : List String :=
  ((c.purgeExpired.remove cacheKey).entries.items.map Prod.fst ++ [cacheKey]).filter
    fun k => k ∉ (c.put py cacheKey response).entries.items.map Prod.fst

/-- An operation, with what becomes of the entries. -/
def perform (py : PyLib) : CacheOp → ReplayCache × List CacheEvent
  | .load nowMs => (ofBlob (some (c.toBlob StateSchema.v1.current)) nowMs.toInt, [])
  | .get k => ((c.get k).1, if (c.get k).2.isSome then [.used k] else [])
  | .put k response =>
    (c.put py k response, .stored k response c.nowMs :: (c.victims py k response).map .evicted)

/-- The operations on the cache of one key. -/
def machine (py : PyLib) : Machine ReplayCache CacheOp CacheEvent where
  step c op c' events := c.perform py op = (c', events)

/-- Loading what the cache has produced keeps its items, with their sizes taken anew. -/
theorem Lists.load {c : ReplayCache} {now : Int} {items : CacheItems} (h : c.Lists now items)
    (current : ℕ) (nowMs : Int) : (ofBlob (some (c.toBlob current)) nowMs).Lists nowMs
      (items.map fun p => (p.1, p.2.1, entryWireSize p.1 p.2.1)) := by
  have hitems : (c.toBlob current).entries.map loadedItem =
      items.map fun p => (p.1, p.2.1, entryWireSize p.1 p.2.1) := by
    rw [toBlob, h.items, List.map_map]
    rfl
  exact hitems ▸ ofBlob_lists (c.toBlob_nodup current) nowMs

/-- A `put` stores the response when that fits a blob of its own, and its digest otherwise. -/
theorem newEntry_cases (py : PyLib) (k : String) (response : Bytes) :
    FitsAlone k ⟨response, py.sha256 response, c.nowMs, c.nowMs, false⟩ ∧
        c.newEntry py k response = ⟨response, py.sha256 response, c.nowMs, c.nowMs, false⟩ ∨
      ¬ FitsAlone k ⟨response, py.sha256 response, c.nowMs, c.nowMs, false⟩ ∧
        c.newEntry py k response = ⟨[], py.sha256 response, c.nowMs, c.nowMs, true⟩ := by
  by_cases hover : blobCapBytes < blobHeaderSize response.length +
      entryWireSize k ⟨response, py.sha256 response, c.nowMs, c.nowMs, false⟩
  · exact .inr ⟨not_le.mpr hover, if_pos hover⟩
  · exact .inl ⟨not_lt.mp hover, if_neg hover⟩

/-- The item that is stored last is not shed. -/
theorem newest_suffix (items : CacheItems) (k : String) (v : CacheEntry × ℕ) :
    [(k, v)] <:+ shed CacheItems.tooBig (shed CacheItems.tooMany (refresh items k v)) :=
  suffix_shed (suffix_shed ⟨_, rfl⟩ rfl) rfl

end ReplayCache

end BeamAgents
