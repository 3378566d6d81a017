import BeamAgents.Model.ReplayCache
import BeamAgents.Containers.Recency
import Mathlib.Algebra.Order.BigOperators.Group.Finset

/-!
# What the replay cache keeps

The cache as a least-recently-used list: a hit refreshes its item, and `put` refreshes an item of
the live list and then sheds from the front, first over the number of entries and then over the
bytes. As long as the responses that were used since some moment are few enough and small enough,
they stay the end of the list: no eviction reaches them. A cache that is written to its blob and
loaded again at the same time serves all of them.

## Main definitions

* `StoredResponse`, `Fits`: the responses that calls used, and that they fit the cache together.
* `ReplayCache.Exact`: the running totals are those of the entries.
* `ReplayCache.Retains`, `ReplayCache.Serves`.

## Main results

* `ReplayCache.items_put`: the entries after a `put`.
* `ReplayCache.Retains.hit`, `ReplayCache.Retains.put`: what was used recently is retained.
* `ReplayCache.Retains.serves`: a reloaded cache serves what was retained.
-/

namespace BeamAgents

open Containers

/-! ### Sizes -/

theorem varintLen_mono {a b : ℕ} (h : a ≤ b) : varintLen a ≤ varintLen b := by
  induction b using Nat.strong_induction_on generalizing a with
  | _ b ih =>
    rw [varintLen.eq_def a, varintLen.eq_def b]
    split_ifs with ha hb hb
    · omega
    · omega
    · omega
    · have hdiv := ih (b / 128) (by omega) (Nat.div_le_div_right h)
      omega

theorem blobHeaderSize_mono {a b : ℕ} (h : a ≤ b) : blobHeaderSize a ≤ blobHeaderSize b := by
  have hlen := varintLen_mono h
  unfold blobHeaderSize
  split_ifs with ha hb
  · omega
  · omega
  · omega
  · exact le_rfl

/-! ### Stored responses -/

/-- A response as the cache stores it, with the size that it counts for. -/
structure StoredResponse where
  cacheKey : String
  response : Bytes
  wireSize : ℕ
  deriving DecidableEq, Repr

/-- The responses fit the cache together: they are of no more requests than the cache has entries,
and a blob of them keeps to the cap. -/
structure Fits (stored : List StoredResponse) : Prop where
  count : (stored.map StoredResponse.cacheKey).toFinset.card ≤ maxEntries
  bytes : blobHeaderSize (∑ s ∈ stored.toFinset, s.response.length) +
    ∑ s ∈ stored.toFinset, s.wireSize ≤ blobCapBytes

theorem Fits.mono {stored stored' : List StoredResponse} (h : stored ⊆ stored')
    (hfits : Fits stored') : Fits stored := by
  have hsub : stored.toFinset ⊆ stored'.toFinset := fun s hs =>
    List.mem_toFinset.mpr (h (List.mem_toFinset.mp hs))
  have hkeys : (stored.map StoredResponse.cacheKey).toFinset ⊆
      (stored'.map StoredResponse.cacheKey).toFinset := fun k hk =>
    List.mem_toFinset.mpr (List.map_subset _ h (List.mem_toFinset.mp hk))
  refine ⟨(Finset.card_le_card hkeys).trans hfits.count, le_trans ?_ hfits.bytes⟩
  exact Nat.add_le_add
    (blobHeaderSize_mono (Finset.sum_le_sum_of_subset hsub)) (Finset.sum_le_sum_of_subset hsub)

/-! ### The cache as a list -/

/-- An entry that answers a call: its response is at hand, and its age is within the TTL. -/
structure CacheEntry.Servable (now : Int) (e : CacheEntry) : Prop where
  full : e.digestOnly = false
  live : now - e.createdAtMs ≤ replayTtlMs

/-- The items of a cache, least recently used first. -/
abbrev CacheItems := List (String × CacheEntry × ℕ)

namespace CacheItems

variable (l : CacheItems)

/-- The response bytes of the items. -/
def responseBytes : ℕ := (l.map fun p => p.2.1.response.length).sum

/-- The tracked wire sizes of the items. -/
def wireBytes : ℕ := (l.map fun p => p.2.2).sum

/-- More items than the cache may have. -/
def tooMany : Bool := maxEntries < l.length

/-- More than one item, and a blob over the cap. -/
def tooBig : Bool :=
  1 < l.length && blobCapBytes < blobHeaderSize l.responseBytes + l.wireBytes

/-- The response that an item stores. -/
def stored (p : String × CacheEntry × ℕ) : StoredResponse := ⟨p.1, p.2.1.response, p.2.2⟩

end CacheItems

namespace ReplayCache

/-- The cache is this list: its running totals are those of the items. -/
structure Lists (c : ReplayCache) (now : Int) (l : CacheItems) : Prop where
  items : c.entries.items = l
  responseTotal : c.responseTotal = l.responseBytes
  entriesWireTotal : c.entriesWireTotal = l.wireBytes
  nowMs : c.nowMs = now

section Lists

variable {c : ReplayCache} {now : Int} {items : CacheItems}

theorem Lists.nodup (h : c.Lists now items) : (items.map Prod.fst).Nodup :=
  h.items ▸ c.entries.nodup

/-- Removing a key filters it out. -/
theorem Lists.remove (h : c.Lists now items) (k : String) :
    (c.remove k).Lists now (items.filter fun p => p.1 ≠ k) := by
  unfold ReplayCache.remove
  split
  · rename_i hnone
    have hall : (items.filter fun p => p.1 ≠ k) = items := by
      refine List.filter_eq_self.mpr fun p hp => ?_
      rw [decide_eq_true_iff]
      rintro rfl
      have hsome := c.entries.get?_eq_some_iff.mpr (h.items.symm ▸ hp)
      rw [hnone] at hsome
      cases hsome
    rw [hall]
    exact h
  · rename_i entry wireSize hsome
    have hmem := c.entries.get?_eq_some_iff.mp hsome
    have hresponse := c.entries.sum_erase (fun p => p.2.1.response.length) hmem
    have hwire := c.entries.sum_erase (fun p => p.2.2) hmem
    rw [Dict.items_erase, h.items] at hresponse hwire
    refine ⟨?_, ?_, ?_, h.nowMs⟩
    · rw [← h.items]
      rfl
    · show c.responseTotal - entry.response.length = _
      rw [h.responseTotal]
      exact Nat.sub_eq_of_eq_add hresponse.symm
    · show c.entriesWireTotal - wireSize = _
      rw [h.entriesWireTotal]
      exact Nat.sub_eq_of_eq_add hwire.symm

/-- Evicting drops the first item. -/
theorem Lists.evict (h : c.Lists now items) : c.evictLeastRecentlyUsed.Lists now items.tail := by
  unfold evictLeastRecentlyUsed
  split
  · rename_i hnil
    rw [h.items] at hnil
    subst hnil
    exact h
  · rename_i lruKey value rest hcons
    rw [h.items] at hcons
    subst hcons
    have hrest : (((lruKey, value) :: rest).filter fun p => p.1 ≠ lruKey) = rest := by
      rw [List.filter_cons_of_neg (by simp)]
      refine List.filter_eq_self.mpr fun p hp => ?_
      rw [decide_eq_true_iff]
      intro hpk
      have hkey : p.1 ∈ rest.map Prod.fst := List.mem_map_of_mem hp
      rw [hpk] at hkey
      exact (List.nodup_cons.mp h.nodup).1 hkey
    exact hrest ▸ h.remove lruKey

/-- A loop of evictions sheds from the front. -/
theorem Lists.evictWhile {exceeds : ReplayCache → Bool} {excess : CacheItems → Bool}
    (hover : ∀ {c : ReplayCache} {items : CacheItems}, c.Lists now items → exceeds c = excess items)
    (fuel : ℕ) (h : c.Lists now items) (hfuel : items.length ≤ fuel) :
    (evictWhile exceeds fuel c).Lists now (shed excess items) := by
  induction fuel generalizing c items with
  | zero =>
    rw [List.length_eq_zero_iff.mp (Nat.le_zero.mp hfuel)] at h ⊢
    exact h
  | succ fuel ih =>
    rw [ReplayCache.evictWhile, hover h]
    cases items with
    | nil =>
      split_ifs
      · exact ih h.evict (Nat.zero_le _)
      · exact h
    | cons p items =>
      rw [shed]
      split_ifs
      · exact ih h.evict (Nat.le_of_succ_le_succ hfuel)
      · exact h

theorem Lists.overCount (h : c.Lists now items) : c.overCount = items.tooMany := by
  rw [ReplayCache.overCount, Dict.size, h.items]
  rfl

theorem Lists.overBytes (h : c.Lists now items) : c.overBytes = items.tooBig := by
  rw [ReplayCache.overBytes, Dict.size, h.items, h.responseTotal, h.entriesWireTotal]
  rfl

/-- Removing keys one by one filters them out. -/
private theorem Lists.removeAll (gone : CacheItems) (h : c.Lists now items) :
    (gone.foldl (fun c p => { c.remove p.1 with dirty := true }) c).Lists now
      (items.filter fun p => p.1 ∉ gone.map Prod.fst) := by
  induction gone generalizing c items with
  | nil => simpa using h
  | cons q gone ih =>
    have hremoved := h.remove q.1
    have hrest := ih (c := { c.remove q.1 with dirty := true })
      ⟨hremoved.items, hremoved.responseTotal, hremoved.entriesWireTotal, hremoved.nowMs⟩
    rw [List.filter_filter] at hrest
    refine (List.filter_congr fun p _ => ?_) ▸ hrest
    by_cases hq : p.1 = q.1 <;> simp [hq]

/-- Purging filters the expired items out. -/
theorem Lists.purge (h : c.Lists now items) :
    c.purgeExpired.Lists now (items.filter fun p => !c.isExpired p.2.1) := by
  have hexpired := h.removeAll (c.entries.items.filter fun p => c.isExpired p.2.1)
  refine (List.filter_congr fun p hp => ?_) ▸ hexpired
  -- A key is that of an expired item exactly when its own item is expired.
  have hiff : p.1 ∈ (c.entries.items.filter fun p => c.isExpired p.2.1).map Prod.fst ↔
      c.isExpired p.2.1 = true := by
    rw [h.items]
    constructor
    · intro hmem
      obtain ⟨q, hq, hqp⟩ := List.mem_map.mp hmem
      obtain ⟨hq, hqexpired⟩ := List.mem_filter.mp hq
      rw [← List.inj_on_of_nodup_map h.nodup hq hp hqp]
      exact hqexpired
    · exact fun hexp => List.mem_map_of_mem (List.mem_filter.mpr ⟨hp, hexp⟩)
  by_cases hp' : c.isExpired p.2.1 = true
  · simp [hp', hiff.mpr hp']
  · simp [hp', mt hiff.mp hp']

/-- The entry that `put` stores. -/
def newEntry (c : ReplayCache) (py : PyLib) (cacheKey : String) (response : Bytes) : CacheEntry :=
  let full : CacheEntry := ⟨response, py.sha256 response, c.nowMs, c.nowMs, false⟩
  if blobCapBytes < blobHeaderSize response.length + entryWireSize cacheKey full then
    ⟨[], py.sha256 response, c.nowMs, c.nowMs, true⟩
  else full

/-- **`put` on the list**: refresh an item of the live list, then shed over the number of entries,
then over the bytes. -/
theorem Lists.put (h : c.Lists now items) (py : PyLib) (k : String) (response : Bytes) :
    (c.put py k response).Lists now
      (shed CacheItems.tooBig (shed CacheItems.tooMany
        (refresh (items.filter fun p => !c.isExpired p.2.1) k
          (c.newEntry py k response, entryWireSize k (c.newEntry py k response))))) := by
  set value := (c.newEntry py k response, entryWireSize k (c.newEntry py k response)) with hvalue
  have hremoved := h.purge.remove k
  have habsent : k ∉ (c.purgeExpired.remove k).entries.items.map Prod.fst := by
    rw [hremoved.items]
    intro hmem
    obtain ⟨p, hp, hpk⟩ := List.mem_map.mp hmem
    exact of_decide_eq_true (List.mem_filter.mp hp).2 hpk
  let inserted : ReplayCache := { c.purgeExpired.remove k with
    entries := (c.purgeExpired.remove k).entries.set k value
    responseTotal := (c.purgeExpired.remove k).responseTotal + value.1.response.length
    entriesWireTotal := (c.purgeExpired.remove k).entriesWireTotal + value.2
    dirty := true }
  have hinserted : inserted.Lists now
      (refresh (items.filter fun p => !c.isExpired p.2.1) k value) := by
    refine ⟨?_, ?_, ?_, hremoved.nowMs⟩
    · show ((c.purgeExpired.remove k).entries.set k value).items = _
      rw [Dict.items_set_of_notMem _ habsent, hremoved.items]
      rfl
    · show (c.purgeExpired.remove k).responseTotal + value.1.response.length = _
      rw [hremoved.responseTotal]
      simp [CacheItems.responseBytes, refresh]
    · show (c.purgeExpired.remove k).entriesWireTotal + value.2 = _
      rw [hremoved.entriesWireTotal]
      simp [CacheItems.wireBytes, refresh]
  have hcounted := hinserted.evictWhile (fun h => h.overCount) inserted.entries.size
    (hinserted.items ▸ le_rfl)
  exact hcounted.evictWhile (fun h => h.overBytes) _ (hcounted.items ▸ le_rfl)

end Lists

/-! ### Lookups -/

/-- The stored response that answers a call with this key, if one does. -/
def served (c : ReplayCache) (k : String) : Option StoredResponse :=
  ((c.entries.get? k).filter fun p => !c.isExpired p.1 && !p.1.digestOnly).map fun p =>
    ⟨k, p.1.response, p.2⟩

theorem served_cacheKey {c : ReplayCache} {k : String} {s : StoredResponse}
    (h : c.served k = some s) : s.cacheKey = k := by
  obtain ⟨p, -, rfl⟩ := Option.map_eq_some_iff.mp h
  rfl

/-- What is served is what a lookup finds. -/
theorem get_served (c : ReplayCache) (k : String) :
    ((c.get k).2.filter fun entry => !entry.digestOnly).map CacheEntry.response =
      (c.served k).map StoredResponse.response := by
  unfold get served
  cases c.entries.get? k with
  | none => rfl
  | some p =>
    obtain ⟨e, wireSize⟩ := p
    dsimp only
    by_cases hexpired : c.isExpired e = true
    · simp [hexpired]
    · rw [if_neg hexpired, Option.filter_some, Option.filter_some]
      cases hdigest : e.digestOnly <;> simp [hexpired]

/-- The stored response that a provider call leaves, when it fits. -/
def answered (c : ReplayCache) (py : PyLib) (k : String) (response : Bytes) : StoredResponse where
  cacheKey := k
  response := response
  wireSize := entryWireSize k ⟨response, py.sha256 response, c.nowMs, c.nowMs, false⟩

/-- What `get` does with the item of a key: there is none, it is expired and removed, or it is
stamped with the time and moved to the end, its size as it was. -/
inductive Fetch (c : ReplayCache) (now : Int) (items : CacheItems) (k : String) : Prop
  | absent (found : c.entries.get? k = none) (get : c.get k = (c, none))
  | expired (e : CacheEntry) (wireSize : ℕ) (c' : ReplayCache)
      (found : c.entries.get? k = some (e, wireSize)) (expired : c.isExpired e = true)
      (get : c.get k = (c', none)) (lists : c'.Lists now (items.filter fun p => p.1 ≠ k))
  | live (e : CacheEntry) (wireSize : ℕ) (c' : ReplayCache)
      (found : c.entries.get? k = some (e, wireSize)) (live : c.isExpired e = false)
      (get : c.get k = (c', some e))
      (lists : c'.Lists now (refresh items k ({ e with lastAccessMs := now }, wireSize)))
      (responseTotal : c'.responseTotal = c.responseTotal)
      (entriesWireTotal : c'.entriesWireTotal = c.entriesWireTotal)

/-- What a lookup comes to: a hit refreshes the item that answers, a miss touches no item of another
key. -/
inductive Lookup (c : ReplayCache) (now : Int) (items : CacheItems) (k : String) : Prop
  | hit (e : CacheEntry) (wireSize : ℕ) (mem : (k, e, wireSize) ∈ items) (servable : e.Servable now)
      (served : c.served k = some ⟨k, e.response, wireSize⟩)
      (answer : ((c.get k).2.filter fun entry => !entry.digestOnly) = some e)
      (lists : (c.get k).1.Lists now
        (refresh items k ({ e with lastAccessMs := now }, wireSize)))
  | miss (items' : CacheItems)
      (notServable : ∀ e wireSize, (k, e, wireSize) ∈ items → ¬ e.Servable now)
      (served : c.served k = none)
      (answer : ((c.get k).2.filter fun entry => !entry.digestOnly) = none)
      (lists : (c.get k).1.Lists now items')
      (others : (items'.filter fun p => p.1 ≠ k) = items.filter fun p => p.1 ≠ k)

section Lookup

variable {c : ReplayCache} {now : Int} {items : CacheItems} {k : String}

theorem Lists.isExpired_iff (h : c.Lists now items) (e : CacheEntry) :
    c.isExpired e = true ↔ replayTtlMs < now - e.createdAtMs := by
  rw [isExpired, h.nowMs, decide_eq_true_iff]

/-- Touching an entry keeps the totals. -/
theorem Lists.touch (h : c.Lists now items) {e : CacheEntry} {wireSize : ℕ}
    (hmem : (k, e, wireSize) ∈ items) :
    ({ c with
      entries := (c.entries.erase k).set k ({ e with lastAccessMs := c.nowMs }, wireSize)
      dirty := true } : ReplayCache).Lists now
      (refresh items k ({ e with lastAccessMs := now }, wireSize)) := by
  rw [← h.items] at hmem
  have hresponse := c.entries.sum_erase (fun p => p.2.1.response.length) hmem
  have hwire := c.entries.sum_erase (fun p => p.2.2) hmem
  rw [Dict.items_erase, h.items] at hresponse hwire
  refine ⟨?_, ?_, ?_, h.nowMs⟩
  · rw [Dict.items_touch, h.items, h.nowMs]
  · show c.responseTotal = _
    rw [h.responseTotal]
    simpa [CacheItems.responseBytes, refresh] using hresponse.symm
  · show c.entriesWireTotal = _
    rw [h.entriesWireTotal]
    simpa [CacheItems.wireBytes, refresh] using hwire.symm

theorem Lists.fetch (h : c.Lists now items) (k : String) : c.Fetch now items k := by
  cases hfound : c.entries.get? k with
  | none => exact .absent hfound (by simp only [get, hfound])
  | some p =>
    obtain ⟨e, w⟩ := p
    have hmem : (k, e, w) ∈ items := h.items ▸ c.entries.get?_eq_some_iff.mp hfound
    cases hexpired : c.isExpired e with
    | true =>
      have hremoved := h.remove k
      exact .expired e w { c.remove k with dirty := true } hfound hexpired
        (by simp only [get, hfound, hexpired, if_true])
        ⟨hremoved.items, hremoved.responseTotal, hremoved.entriesWireTotal, hremoved.nowMs⟩
    | false =>
      refine .live e w _ hfound hexpired ?_ (h.touch hmem) rfl rfl
      simp only [get, hfound, hexpired]
      rfl

theorem Lists.lookup (h : c.Lists now items) (k : String) : c.Lookup now items k := by
  have hmem (e : CacheEntry) (w : ℕ) : (k, e, w) ∈ items ↔ c.entries.get? k = some (e, w) := by
    rw [Dict.get?_eq_some_iff, h.items]
  have hunique {e e' : CacheEntry} {w w' : ℕ} (hfound : c.entries.get? k = some (e, w))
      (h' : (k, e', w') ∈ items) : e' = e := by
    rw [hmem, hfound] at h'
    cases h'
    rfl
  cases h.fetch k with
  | absent hfound hget =>
    refine .miss items (fun e w hew => ?_) (by simp [served, hfound]) (by simp [hget])
      (by rw [hget]; exact h) rfl
    rw [hmem, hfound] at hew
    cases hew
  | expired e w c' hfound hexpired hget hlists =>
    refine .miss _ (fun e' w' h' hs => ?_) (by simp [served, hfound, hexpired]) (by simp [hget])
      (by rw [hget]; exact hlists) (by simp [List.filter_filter])
    rw [hunique hfound h'] at hs
    exact absurd hs.live (not_le.mpr ((h.isExpired_iff e).mp hexpired))
  | live e w c' hfound hlive hget hlists _ _ =>
    have hage : now - e.createdAtMs ≤ replayTtlMs := by
      by_contra hover
      rw [(h.isExpired_iff e).mpr (not_le.mp hover)] at hlive
      cases hlive
    cases hdigest : e.digestOnly with
    | false =>
      exact .hit e w ((hmem e w).mpr hfound) ⟨hdigest, hage⟩
        (by simp [served, hfound, hlive, hdigest]) (by simp [hget, hdigest])
        (by rw [hget]; exact hlists)
    | true =>
      -- An entry without its response is touched, and does not answer.
      refine .miss _ (fun e' w' h' hs => ?_) (by simp [served, hfound, hdigest])
        (by simp [hget, hdigest]) (by rw [hget]; exact hlists) ?_
      · rw [hunique hfound h'] at hs
        exact absurd (hs.full.symm.trans hdigest) (by decide)
      · simp [refresh, List.filter_append, List.filter_filter]

end Lookup

/-! ### What is retained -/

/-- The responses that calls used make up the end of the list, and the entries there answer calls
again. -/
structure Keeps (now : Int) (items recent : CacheItems) (stored : List StoredResponse) : Prop where
  suffix : recent <:+ items
  mem_iff : ∀ s, s ∈ stored ↔ s ∈ recent.map CacheItems.stored
  servable : ∀ p ∈ recent, p.2.1.Servable now

/-- The cache retains the responses. -/
def Retains (c : ReplayCache) (now : Int) (stored : List StoredResponse) : Prop :=
  ∃ items recent, c.Lists now items ∧ Keeps now items recent stored

/-- The cache answers a call with any of the keys by its response. -/
def Serves (c : ReplayCache) (now : Int) (stored : List StoredResponse) : Prop :=
  ∃ items, c.Lists now items ∧ ∀ s ∈ stored, ∃ e wireSize,
    (s.cacheKey, e, wireSize) ∈ items ∧ e.response = s.response ∧ e.Servable now

section Keeps

variable {now : Int} {items recent : CacheItems} {stored : List StoredResponse} {k : String}

theorem Keeps.refresh (h : Keeps now items recent stored) {v : CacheEntry × ℕ}
    (hsame : ∀ p ∈ recent, p.1 = k → CacheItems.stored p = CacheItems.stored (k, v))
    (hv : v.1.Servable now) :
    Keeps now (Containers.refresh items k v) (Containers.refresh recent k v)
      (stored ++ [CacheItems.stored (k, v)]) := by
  refine ⟨suffix_refresh h.suffix k v, fun s => ?_, fun p hp => ?_⟩
  · rw [List.mem_append, List.mem_singleton, h.mem_iff, List.mem_map, List.mem_map]
    constructor
    · rintro (⟨p, hp, rfl⟩ | rfl)
      · by_cases hpk : p.1 = k
        · exact ⟨(k, v), mem_refresh.mpr (.inr rfl), (hsame p hp hpk).symm⟩
        · exact ⟨p, mem_refresh.mpr (.inl ⟨hp, hpk⟩), rfl⟩
      · exact ⟨(k, v), mem_refresh.mpr (.inr rfl), rfl⟩
    · rintro ⟨p, hp, rfl⟩
      rcases mem_refresh.mp hp with ⟨hp, -⟩ | rfl
      · exact .inl ⟨p, hp, rfl⟩
      · exact .inr rfl
  · rcases mem_refresh.mp hp with ⟨hp, -⟩ | rfl
    · exact h.servable p hp
    · exact hv

theorem Keeps.filter (h : Keeps now items recent stored)
    {keep : String × CacheEntry × ℕ → Bool} (hkeep : ∀ p ∈ recent, keep p = true) :
    Keeps now (items.filter keep) recent stored := by
  refine ⟨?_, h.mem_iff, h.servable⟩
  have hsuffix := h.suffix.filter keep
  rwa [List.filter_eq_self.mpr hkeep] at hsuffix

theorem Keeps.shed (h : Keeps now items recent stored) {excess : CacheItems → Bool}
    (hover : excess recent = false) : Keeps now (Containers.shed excess items) recent stored :=
  ⟨suffix_shed h.suffix hover, h.mem_iff, h.servable⟩

/-- Responses that fit the cache together are never shed. -/
theorem Keeps.within (h : Keeps now items recent stored) (hnodup : (items.map Prod.fst).Nodup)
    (hfits : Fits stored) : recent.tooMany = false ∧ recent.tooBig = false := by
  have hkeys : (recent.map Prod.fst).Nodup := hnodup.sublist (h.suffix.sublist.map _)
  have hstored : (recent.map CacheItems.stored).Nodup := by
    refine List.Nodup.of_map StoredResponse.cacheKey ?_
    rw [List.map_map]
    exact hkeys
  have hset : stored.toFinset = (recent.map CacheItems.stored).toFinset := by
    ext s
    rw [List.mem_toFinset, List.mem_toFinset, h.mem_iff]
  have hsum (f : StoredResponse → ℕ) :
      ∑ s ∈ stored.toFinset, f s = (recent.map fun p => f (CacheItems.stored p)).sum := by
    rw [hset, List.sum_toFinset f hstored, List.map_map]
    rfl
  constructor
  · have hkeyset : (stored.map StoredResponse.cacheKey).toFinset =
        (recent.map Prod.fst).toFinset := by
      ext key
      rw [List.mem_toFinset, List.mem_toFinset, List.mem_map, List.mem_map]
      constructor
      · rintro ⟨s, hs, rfl⟩
        obtain ⟨p, hp, rfl⟩ := List.mem_map.mp ((h.mem_iff s).mp hs)
        exact ⟨p, hp, rfl⟩
      · rintro ⟨p, hp, rfl⟩
        exact ⟨CacheItems.stored p, (h.mem_iff _).mpr (List.mem_map_of_mem hp), rfl⟩
    have hcount := hfits.count
    rw [hkeyset, List.toFinset_card_of_nodup hkeys, List.length_map] at hcount
    exact decide_eq_false (not_lt.mpr hcount)
  · have hbytes := hfits.bytes
    rw [hsum StoredResponse.wireSize, hsum fun s => s.response.length] at hbytes
    rw [CacheItems.tooBig, Bool.and_eq_false_iff]
    exact .inr (decide_eq_false (not_lt.mpr hbytes))

end Keeps

section Retains

variable {c : ReplayCache} {now : Int} {items : CacheItems} {stored : List StoredResponse}
  {k : String}

theorem Lists.retains (h : c.Lists now items) : c.Retains now [] :=
  ⟨items, [], h, List.nil_suffix, by simp, by simp⟩

/-- A hit retains the response that it is answered by. -/
theorem Retains.hit (h : c.Retains now stored) {s : StoredResponse} (hs : c.served k = some s) :
    (c.get k).1.Retains now (stored ++ [s]) := by
  obtain ⟨items, recent, hlists, hkeeps⟩ := h
  cases hlists.lookup k with
  | miss items' _ hserved _ _ _ =>
    rw [hserved] at hs
    cases hs
  | hit e wireSize hmem hservable hserved _ htouched =>
    rw [hserved] at hs
    cases hs
    refine ⟨_, _, htouched, hkeeps.refresh (fun p hp hpk => ?_) ⟨hservable.full, hservable.live⟩⟩
    have hpmem := hkeeps.suffix.subset hp
    rw [List.inj_on_of_nodup_map hlists.nodup hpmem hmem hpk]
    rfl

/-- A provider call after a miss retains the response that it leaves, when the responses fit the
cache together. -/
theorem Retains.put (h : c.Retains now stored) (hmiss : c.served k = none) (py : PyLib)
    (response : Bytes) (hfits : Fits (stored ++ [(c.get k).1.answered py k response])) :
    ((c.get k).1.put py k response).Retains now
      (stored ++ [(c.get k).1.answered py k response]) := by
  obtain ⟨items, recent, hlists, hkeeps⟩ := h
  cases hlists.lookup k with
  | hit e wireSize hmem hservable hserved _ htouched =>
    rw [hserved] at hmiss
    cases hmiss
  | miss items' hnot hserved _ hlists' hothers =>
    set c' := (c.get k).1
    have hfull : c'.newEntry py k response =
        ⟨response, py.sha256 response, c'.nowMs, c'.nowMs, false⟩ := by
      have halone := (hfits.mono (List.subset_append_right _ _)).bytes
      simp only [List.toFinset_cons, List.toFinset_nil, insert_empty_eq, Finset.sum_singleton]
        at halone
      exact if_neg (not_lt.mpr halone)
    have hput := hlists'.put py k response
    rw [hfull] at hput
    -- The end of the list holds no item of this key, and purging does not touch it.
    have hother (p) (hp : p ∈ recent) : p.1 ≠ k := by
      rintro rfl
      exact hnot p.2.1 p.2.2 (hkeeps.suffix.subset hp) (hkeeps.servable p hp)
    have hlive (p) (hp : p ∈ recent) : (!c'.isExpired p.2.1) = true := by
      rw [Bool.not_eq_true', ← Bool.not_eq_true, hlists'.isExpired_iff]
      exact not_lt.mpr (hkeeps.servable p hp).live
    have hnew : CacheEntry.Servable now
        ⟨response, py.sha256 response, c'.nowMs, c'.nowMs, false⟩ := by
      refine ⟨rfl, ?_⟩
      rw [hlists'.nowMs, sub_self]
      decide
    have hitems (v : CacheEntry × ℕ) :
        refresh (items'.filter fun p => !c'.isExpired p.2.1) k v =
          refresh (items.filter fun p => !c'.isExpired p.2.1) k v := by
      rw [refresh, refresh, List.filter_comm, hothers, List.filter_comm]
    rw [hitems] at hput
    have hrefreshed := (hkeeps.filter hlive).refresh (k := k)
      (v := (⟨response, py.sha256 response, c'.nowMs, c'.nowMs, false⟩,
        entryWireSize k ⟨response, py.sha256 response, c'.nowMs, c'.nowMs, false⟩))
      (fun p hp hpk => absurd hpk (hother p hp)) hnew
    have hnodup := nodup_refresh (hlists.nodup.sublist
      ((List.filter_sublist (p := fun p => !c'.isExpired p.2.1)).map Prod.fst)) k
      ((⟨response, py.sha256 response, c'.nowMs, c'.nowMs, false⟩ : CacheEntry),
        entryWireSize k ⟨response, py.sha256 response, c'.nowMs, c'.nowMs, false⟩)
    obtain ⟨hcount, hbytes⟩ := hrefreshed.within hnodup hfits
    exact ⟨_, _, hput, (hrefreshed.shed hcount).shed hbytes⟩

/-! ### Blobs -/

/-- The item that a blob entry is loaded as. -/
def loadedItem (e : LlmCacheEntry) : String × CacheEntry × ℕ :=
  let entry : CacheEntry :=
    ⟨e.response, e.responseDigest, e.createdAtMs, e.lastAccessMs, e.digestOnly⟩
  (e.cacheKey, entry, entryWireSize e.cacheKey entry)

/-- A blob whose entries are of distinct keys is loaded as it is. -/
theorem ofBlob_lists {blob : LlmCacheBlob} (h : (blob.entries.map LlmCacheEntry.cacheKey).Nodup)
    (now : Int) : (ofBlob (some blob) now).Lists now (blob.entries.map loadedItem) := by
  refine ⟨Dict.items_ofList ?_, rfl, rfl, rfl⟩
  rw [List.map_map]
  exact h

theorem ofBlob_none_lists (now : Int) : (ofBlob none now).Lists now [] := ⟨rfl, rfl, rfl, rfl⟩

/-- The keys that a cache writes are distinct. -/
theorem toBlob_nodup (c : ReplayCache) (current : ℕ) :
    ((c.toBlob current).entries.map LlmCacheEntry.cacheKey).Nodup := by
  rw [toBlob, List.map_map]
  exact c.entries.nodup

/-- **A reloaded cache serves what was retained.** -/
theorem Retains.serves (h : c.Retains now stored) (current : ℕ) :
    (ofBlob (some (c.toBlob current)) now).Serves now stored := by
  obtain ⟨items, recent, hlists, hkeeps⟩ := h
  refine ⟨_, ofBlob_lists (c.toBlob_nodup current) now, fun s hs => ?_⟩
  obtain ⟨p, hp, rfl⟩ := List.mem_map.mp ((hkeeps.mem_iff s).mp hs)
  have hmem : p ∈ c.entries.items := hlists.items ▸ hkeeps.suffix.subset hp
  refine ⟨p.2.1, _, List.mem_map.mpr ⟨_, List.mem_map_of_mem hmem, rfl⟩, rfl,
    hkeeps.servable p hp⟩

/-- A cache that serves a key answers a call with it, and goes on serving. -/
theorem Serves.lookup (h : c.Serves now stored) {s : StoredResponse} (hs : s ∈ stored) :
    (∃ s', c.served s.cacheKey = some s' ∧ s'.response = s.response) ∧
      (c.get s.cacheKey).1.Serves now stored := by
  obtain ⟨items, hlists, hserves⟩ := h
  obtain ⟨e, wireSize, hmem, hresponse, hservable⟩ := hserves s hs
  cases hlists.lookup s.cacheKey with
  | miss items' hnot _ _ _ _ => exact absurd hservable (hnot e wireSize hmem)
  | hit e' wireSize' hmem' hservable' hserved _ htouched =>
    have hunique : (e, wireSize) = (e', wireSize') :=
      congrArg Prod.snd (List.inj_on_of_nodup_map hlists.nodup hmem hmem' rfl)
    cases hunique
    refine ⟨⟨_, hserved, hresponse⟩, _, htouched, fun s' hs' => ?_⟩
    obtain ⟨e', wireSize', hmem', hresponse', hservable'⟩ := hserves s' hs'
    by_cases hkey : s'.cacheKey = s.cacheKey
    · rw [hkey] at hmem' ⊢
      have hunique : (e', wireSize') = (e, wireSize) :=
        congrArg Prod.snd (List.inj_on_of_nodup_map hlists.nodup hmem' hmem rfl)
      cases hunique
      exact ⟨_, _, mem_refresh.mpr (.inr rfl), hresponse', ⟨hservable'.full, hservable'.live⟩⟩
    · exact ⟨e', wireSize', mem_refresh.mpr (.inl ⟨hmem', hkey⟩), hresponse', hservable'⟩

end Retains

end ReplayCache

end BeamAgents
