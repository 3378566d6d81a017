import BeamAgents.Model.ReplayRuns

/-!
# The replay cache as a least-recently-used map with expiry

What a lookup and an eviction should be, read off the history of the cache alone: which responses
were stored, used and evicted, in order. A key is answered by its last `put` as long as that is
within the TTL and the key was not evicted since, and the keys are ordered by their last use. The
cache agrees with it in every run whose clocks do not go back.

## Main definitions

* `CacheLog.known`, `CacheLog.recency`, `CacheLog.liveKeys`, `CacheLog.lookupAnswer`: what the
  history says.
* `ReplayCache.Follows`: the items of the cache against the history.
* `ReplayCache.PutSpec`: what a `put` evicts.

## Main results

* `ReplayCache.run_follows`: the invariant.
* `ReplayCache.run_refinesLru`.
-/

namespace BeamAgents

open Containers Transition

/-- `replay_cache.ReplayEntry`: what a lookup returns. -/
structure ReplayEntry where
  response : Bytes
  responseDigest : Bytes
  digestOnly : Bool
  deriving DecidableEq

/-- The view that `get` returns. -/
def CacheEntry.view (e : CacheEntry) : ReplayEntry := ⟨e.response, e.responseDigest, e.digestOnly⟩

instance (cacheKey : String) (e : CacheEntry) : Decidable (FitsAlone cacheKey e) :=
  inferInstanceAs (Decidable (_ ≤ _))

/-! ### The reference -/

namespace CacheLog

/-- The last `put` of a key and its time, unless the key was evicted since. -/
def known (log : List CacheEvent) (k : String) : Option (Bytes × Int) :=
  log.foldl (fun last event =>
    match event with
    | .used _ => last
    | .stored k' response nowMs => if k' = k then some (response, nowMs) else last
    | .evicted k' => if k' = k then none else last) none

/-- The keys in the order of their last use. -/
def recency (log : List CacheEvent) : List String :=
  log.foldl (fun keys event =>
    match event with
    | .used k => moveToEnd keys k
    | .stored k _ _ => moveToEnd keys k
    | .evicted _ => keys) []

/-- The age is within the TTL. -/
def Unexpired (nowMs createdAtMs : Int) : Prop := nowMs - createdAtMs ≤ replayTtlMs

instance (nowMs createdAtMs : Int) : Decidable (Unexpired nowMs createdAtMs) :=
  inferInstanceAs (Decidable (_ ≤ _))

/-- The keys that are stored and unexpired, least recently used first. -/
def liveKeys (log : List CacheEvent) (nowMs : Int) : List String :=
  (recency log).filter fun k => (known log k).any fun p => Unexpired nowMs p.2

/-- What is kept of a response: the response, or its digest when no blob can hold it. -/
def kept (py : PyLib) (k : String) (response : Bytes) (nowMs : Int) : ReplayEntry :=
  if FitsAlone k ⟨response, py.sha256 response, nowMs, nowMs, false⟩ then
    ⟨response, py.sha256 response, false⟩
  else ⟨[], py.sha256 response, true⟩

/-- The answer to a lookup. -/
def lookupAnswer (py : PyLib) (log : List CacheEvent) (nowMs : Int) (k : String) :
    Option ReplayEntry :=
  (known log k).bind fun p =>
    if Unexpired nowMs p.2 then some (kept py k p.1 p.2) else none

variable (log : List CacheEvent) (k k' : String)

@[simp] theorem known_used : known (log ++ [.used k']) k = known log k := by
  simp [known, List.foldl_append]

theorem known_stored (response : Bytes) (nowMs : Int) :
    known (log ++ [.stored k' response nowMs]) k =
      if k' = k then some (response, nowMs) else known log k := by
  simp [known, List.foldl_append]

theorem known_evicted (keys : List String) :
    known (log ++ keys.map .evicted) k = if k ∈ keys then none else known log k := by
  induction keys using List.reverseRecOn with
  | nil => simp
  | append_singleton keys k' ih =>
    have hlast (log' : List CacheEvent) :
        known (log' ++ [.evicted k']) k = if k' = k then none else known log' k := by
      simp [known, List.foldl_append]
    rw [List.map_append, ← List.append_assoc, List.map_singleton, hlast, ih]
    by_cases hk : k' = k
    · simp [hk]
    · simp [hk, Ne.symm hk]

@[simp] theorem recency_used : recency (log ++ [.used k]) = moveToEnd (recency log) k := by
  simp [recency, List.foldl_append]

@[simp] theorem recency_stored (response : Bytes) (nowMs : Int) :
    recency (log ++ [.stored k response nowMs]) = moveToEnd (recency log) k := by
  simp [recency, List.foldl_append]

@[simp] theorem recency_evicted (keys : List String) :
    recency (log ++ keys.map .evicted) = recency log := by
  induction keys using List.reverseRecOn with
  | nil => simp
  | append_singleton keys k ih =>
    rw [List.map_append, ← List.append_assoc, ← ih]
    simp [recency, List.foldl_append]

theorem nodup_recency : (recency log).Nodup := by
  induction log using List.reverseRecOn with
  | nil => exact List.nodup_nil
  | append_singleton log event ih =>
    cases event with
    | used k => exact recency_used log k ▸ nodup_moveToEnd ih k
    | stored k response nowMs => exact recency_stored log k response nowMs ▸ nodup_moveToEnd ih k
    | evicted k => exact (recency_evicted log [k]).symm ▸ ih

end CacheLog

open CacheLog

namespace ReplayCache

/-! ### The cache against the history -/

/-- The keys of the cache, least recently used first. -/
def keys (c : ReplayCache) : List String := c.entries.items.map Prod.fst

/-- The items are those of the history: they are in the order of their last use, each holds what was
last stored under its key, and no unexpired one is missing. -/
structure Follows (py : PyLib) (log : List CacheEvent) (nowMs : Int) (items : CacheItems) :
    Prop where
  order : (items.map Prod.fst).Sublist (recency log)
  entry : ∀ p ∈ items, ∃ response, known log p.1 = some (response, p.2.1.createdAtMs) ∧
    p.2.1.view = kept py p.1 response p.2.1.createdAtMs
  complete : ∀ k response createdAtMs, known log k = some (response, createdAtMs) →
    Unexpired nowMs createdAtMs → k ∈ items.map Prod.fst

section Follows

variable {py : PyLib} {log : List CacheEvent} {nowMs : Int} {items : CacheItems} {c : ReplayCache}
  {k : String} {e : CacheEntry} {wireSize : ℕ}

/-- Time passes, and the sizes are taken anew. -/
theorem Follows.load (h : Follows py log nowMs items) {nowMs' : Int} (hnow : nowMs ≤ nowMs') :
    Follows py log nowMs' (items.map fun p => (p.1, p.2.1, entryWireSize p.1 p.2.1)) := by
  have hkeys : (items.map fun p => (p.1, p.2.1, entryWireSize p.1 p.2.1)).map Prod.fst =
      items.map Prod.fst := by
    rw [List.map_map]
    rfl
  refine ⟨hkeys ▸ h.order, fun p hp => ?_, fun k response createdAtMs hknown hage => ?_⟩
  · obtain ⟨q, hq, rfl⟩ := List.mem_map.mp hp
    exact h.entry q hq
  · rw [hkeys]
    exact h.complete k response createdAtMs hknown (le_trans (sub_le_sub_right hnow _) hage)

/-- An expired item may go. -/
theorem Follows.expire (h : Follows py log nowMs items) (hmem : (k, e, wireSize) ∈ items)
    (hexpired : ¬ Unexpired nowMs e.createdAtMs) :
    Follows py log nowMs (items.filter fun p => p.1 ≠ k) := by
  refine ⟨(List.filter_sublist.map _).trans h.order,
    fun p hp => h.entry p (List.mem_filter.mp hp).1, fun k' response createdAtMs hknown hage => ?_⟩
  obtain ⟨p, hp, rfl⟩ := List.mem_map.mp (h.complete k' response createdAtMs hknown hage)
  refine List.mem_map_of_mem (List.mem_filter.mpr ⟨hp, decide_eq_true fun hpk => hexpired ?_⟩)
  obtain ⟨response', hknown', -⟩ := h.entry _ hmem
  rw [← hpk, hknown] at hknown'
  cases hknown'
  exact hage

/-- A hit moves its key to the end. -/
theorem Follows.hit (h : Follows py log nowMs items) (hmem : (k, e, wireSize) ∈ items) :
    Follows py (log ++ [.used k]) nowMs
      (refresh items k ({ e with lastAccessMs := nowMs }, wireSize)) := by
  refine ⟨?_, fun p hp => ?_, fun k' response createdAtMs hknown hage => ?_⟩
  · rw [map_refresh, recency_used]
    exact moveToEnd_sublist h.order k
  · rw [known_used]
    rcases mem_refresh.mp hp with ⟨hp, -⟩ | rfl
    · exact h.entry p hp
    · exact h.entry (k, e, wireSize) hmem
  · rw [known_used] at hknown
    rw [map_refresh, mem_moveToEnd]
    exact .inl (h.complete k' response createdAtMs hknown hage)

/-- The live items, with the one that is stored. -/
theorem Follows.store (h : Follows py log nowMs items)
    (response : Bytes) (hentry : e.view = kept py k response nowMs) (hnow : e.createdAtMs = nowMs) :
    Follows py (log ++ [.stored k response nowMs]) nowMs
      (refresh (items.filter fun p => Unexpired nowMs p.2.1.createdAtMs) k (e, wireSize)) := by
  refine ⟨?_, fun p hp => ?_, fun k' response' createdAtMs hknown hage => ?_⟩
  · rw [map_refresh, recency_stored]
    exact moveToEnd_sublist ((List.filter_sublist.map _).trans h.order) k
  · rw [known_stored]
    rcases mem_refresh.mp hp with ⟨hp, hpk⟩ | rfl
    · rw [if_neg (Ne.symm hpk)]
      exact h.entry p (List.mem_filter.mp hp).1
    · rw [if_pos rfl, hnow]
      exact ⟨response, rfl, hentry⟩
  · rw [map_refresh, mem_moveToEnd]
    rw [known_stored] at hknown
    split_ifs at hknown with hk
    · exact .inr hk.symm
    · obtain ⟨p, hp, rfl⟩ := List.mem_map.mp (h.complete k' response' createdAtMs hknown hage)
      obtain ⟨response', hknown', -⟩ := h.entry p hp
      rw [hknown] at hknown'
      cases hknown'
      exact .inl (List.mem_map_of_mem (List.mem_filter.mpr ⟨hp, decide_eq_true hage⟩))

/-- Some of the keys are evicted. -/
theorem Follows.evict (h : Follows py log nowMs items) {items' : CacheItems}
    (hsub : items'.Sublist items) :
    Follows py (log ++ ((items.map Prod.fst).filter fun k => k ∉ items'.map Prod.fst).map .evicted)
      nowMs items' := by
  refine ⟨?_, fun p hp => ?_, fun k response createdAtMs hknown hage => ?_⟩
  · rw [recency_evicted]
    exact (hsub.map _).trans h.order
  · have hheld : p.1 ∉ (items.map Prod.fst).filter fun k => k ∉ items'.map Prod.fst := by
      rw [List.mem_filter, decide_eq_true_iff]
      exact fun hp' => hp'.2 (List.mem_map_of_mem hp)
    rw [known_evicted, if_neg hheld]
    exact h.entry p (hsub.subset hp)
  · rw [known_evicted] at hknown
    split_ifs at hknown with hgone
    have hmem := h.complete k response createdAtMs hknown hage
    by_contra hnot
    exact hgone (List.mem_filter.mpr ⟨hmem, decide_eq_true hnot⟩)

/-- The live keys are those of the items, when none of these is expired. -/
theorem Follows.liveKeys_eq (h : Follows py log nowMs items)
    (hlive : ∀ p ∈ items, Unexpired nowMs p.2.1.createdAtMs) :
    liveKeys log nowMs = items.map Prod.fst := by
  refine filter_eq_of_sublist h.order (nodup_recency log) fun k _ => ?_
  rw [Option.any_eq_true]
  constructor
  · rintro ⟨⟨response, createdAtMs⟩, hknown, hage⟩
    exact h.complete k response createdAtMs hknown (of_decide_eq_true hage)
  · intro hk
    obtain ⟨p, hp, rfl⟩ := List.mem_map.mp hk
    obtain ⟨response, hknown, -⟩ := h.entry p hp
    exact ⟨_, hknown, decide_eq_true (hlive p hp)⟩

/-! ### What a put evicts -/

/-- The live items of a cache, by the clock. -/
theorem Lists.filter_live (h : c.Lists nowMs items) :
    (items.filter fun p => !c.isExpired p.2.1) =
      items.filter fun p => Unexpired nowMs p.2.1.createdAtMs := by
  refine List.filter_congr fun p _ => ?_
  rw [isExpired, h.nowMs, Bool.eq_iff_iff, Bool.not_eq_true', decide_eq_false_iff_not,
    decide_eq_true_iff]
  exact not_lt

/-- The entry that `put` stores is what the history says is kept. -/
theorem view_newEntry (c : ReplayCache) (py : PyLib) (k : String) (response : Bytes) :
    (c.newEntry py k response).view = kept py k response c.nowMs ∧
      (c.newEntry py k response).createdAtMs = c.nowMs := by
  rcases c.newEntry_cases py k response with ⟨hfits, hentry⟩ | ⟨hover, hentry⟩
  · rw [hentry, kept, if_pos hfits]
    exact ⟨rfl, rfl⟩
  · rw [hentry, kept, if_neg hover]
    exact ⟨rfl, rfl⟩

/-- The victims are the keys of the live items and of the new one that are not kept. -/
theorem Lists.victims (h : c.Lists nowMs items) (py : PyLib) (k : String) (response : Bytes)
    (v : CacheEntry × ℕ) : c.victims py k response =
      ((refresh (items.filter fun p => Unexpired nowMs p.2.1.createdAtMs) k v).map Prod.fst).filter
        fun k' => k' ∉ (c.put py k response).keys := by
  rw [ReplayCache.victims, (h.purge.remove k).items, h.filter_live, refresh, List.map_append]
  rfl

/-- What is counted for a key when `put` evicts: the bytes of its response and its tracked size. -/
def counted (c : ReplayCache) (py : PyLib) (k : String) (response : Bytes) (k' : String) : ℕ × ℕ :=
  let held := if k' = k then (c.put py k response).entries else c.entries
  ((held.get? k').map fun p => (p.1.response.length, p.2)).getD (0, 0)

/-- These keys are over a bound: they are too many, or more than one and too big for a blob. -/
def Over (c : ReplayCache) (py : PyLib) (k : String) (response : Bytes) (keys : List String) :
    Prop :=
  maxEntries < keys.length ∨ 1 < keys.length ∧
    blobCapBytes < blobHeaderSize (keys.map fun k' => (c.counted py k response k').1).sum +
      (keys.map fun k' => (c.counted py k response k').2).sum

/-- What a `put` does, against the history before it. -/
structure PutSpec (py : PyLib) (log : List CacheEvent) (c : ReplayCache) (k : String)
    (response : Bytes) : Prop where
  /-- The victims were used least recently among the live keys, the one of the `put` included. -/
  order : liveKeys (log ++ [.stored k response c.nowMs]) c.nowMs =
    c.victims py k response ++ (c.put py k response).keys
  /-- With one victim more, the keys that are kept would be over a bound. -/
  needed : ∀ keys, keys <:+ liveKeys (log ++ [.stored k response c.nowMs]) c.nowMs →
    (c.put py k response).keys.length < keys.length → c.Over py k response keys
  /-- The keys that are kept are within the bounds. -/
  within : ¬ c.Over py k response (c.put py k response).keys
  /-- The entry that was just stored is kept. -/
  newest : k ∈ (c.put py k response).keys
  /-- A response that no blob can hold counts for its digest only. -/
  digestOnly : ¬ FitsAlone k ⟨response, py.sha256 response, c.nowMs, c.nowMs, false⟩ →
    c.counted py k response k =
      (0, entryWireSize k ⟨[], py.sha256 response, c.nowMs, c.nowMs, true⟩)

/-- The bounds on keys are the bounds on their items. -/
theorem over_iff {live s : CacheItems} {v : CacheEntry × ℕ} {response : Bytes}
    (hlive : ∀ p ∈ live, c.entries.get? p.1 = some p.2)
    (hnew : (c.put py k response).entries.get? k = some v) (hs : s ⊆ refresh live k v) :
    c.Over py k response (s.map Prod.fst) ↔
      CacheItems.tooMany s = true ∨ CacheItems.tooBig s = true := by
  have hcounted (p) (hp : p ∈ s) :
      c.counted py k response p.1 = (p.2.1.response.length, p.2.2) := by
    rw [counted]
    rcases mem_refresh.mp (hs hp) with ⟨hp, hpk⟩ | rfl
    · rw [if_neg hpk, hlive p hp]
      rfl
    · rw [if_pos rfl, hnew]
      rfl
  have hresponse : ((s.map Prod.fst).map fun k' => (c.counted py k response k').1).sum =
      CacheItems.responseBytes s := by
    rw [List.map_map]
    exact congrArg List.sum (List.map_congr_left fun p hp => congrArg Prod.fst (hcounted p hp))
  have hwire : ((s.map Prod.fst).map fun k' => (c.counted py k response k').2).sum =
      CacheItems.wireBytes s := by
    rw [List.map_map]
    exact congrArg List.sum (List.map_congr_left fun p hp => congrArg Prod.snd (hcounted p hp))
  rw [Over, hresponse, hwire, List.length_map, CacheItems.tooMany, CacheItems.tooBig,
    Bool.and_eq_true, decide_eq_true_iff, decide_eq_true_iff, decide_eq_true_iff]

/-- The two loops of evictions leave an end of the list. -/
theorem shed_shed_suffix (l : CacheItems) :
    shed CacheItems.tooBig (shed CacheItems.tooMany l) <:+ l :=
  (shed_suffix _ _).trans (shed_suffix _ l)

/-- What is left is within both bounds. -/
theorem within_shed_shed (l : CacheItems) :
    ¬ (CacheItems.tooMany (shed CacheItems.tooBig (shed CacheItems.tooMany l)) = true ∨
      CacheItems.tooBig (shed CacheItems.tooBig (shed CacheItems.tooMany l)) = true) := by
  have hbig : CacheItems.tooBig (shed CacheItems.tooBig (shed CacheItems.tooMany l)) = false :=
    excess_shed rfl _
  have hmany : CacheItems.tooMany (shed CacheItems.tooMany l) = false := excess_shed rfl _
  have hlength := (shed_suffix CacheItems.tooBig (shed CacheItems.tooMany l)).length_le
  rw [hbig, CacheItems.tooMany, decide_eq_true_iff]
  rw [CacheItems.tooMany, decide_eq_false_iff_not] at hmany
  rintro (hover | hover)
  · omega
  · cases hover

/-- A longer end of the list is over a bound. -/
theorem excess_of_longer {l s : CacheItems} (h : s <:+ l)
    (hlength : (shed CacheItems.tooBig (shed CacheItems.tooMany l)).length < s.length) :
    CacheItems.tooMany s = true ∨ CacheItems.tooBig s = true := by
  rcases le_or_gt s.length (shed CacheItems.tooMany l).length with hle | hgt
  · have hs := List.suffix_of_suffix_length_le h (shed_suffix CacheItems.tooMany l) hle
    exact .inr (excess_of_suffix hs hlength)
  · exact .inl (excess_of_suffix h hgt)

/-- **A `put`, against the history.** -/
theorem Follows.put (h : Follows py log c.nowMs items) (hlists : c.Lists c.nowMs items) (k : String)
    (response : Bytes) : PutSpec py log c k response ∧ ∃ items',
      (c.put py k response).Lists c.nowMs items' ∧
      Follows py (log ++ [.stored k response c.nowMs] ++ (c.victims py k response).map .evicted)
        c.nowMs items' := by
  obtain ⟨hview, hcreated⟩ := c.view_newEntry py k response
  have hput := hlists.put py k response
  rw [hlists.filter_live] at hput
  have hvictims := hlists.victims py k response
    (c.newEntry py k response, entryWireSize k (c.newEntry py k response))
  have hstored : Follows py (log ++ [.stored k response c.nowMs]) c.nowMs
      (refresh (items.filter fun p => Unexpired c.nowMs p.2.1.createdAtMs) k
        (c.newEntry py k response, entryWireSize k (c.newEntry py k response))) :=
    h.store response hview hcreated
  have hnewest := newest_suffix (items.filter fun p => Unexpired c.nowMs p.2.1.createdAtMs) k
    (c.newEntry py k response, entryWireSize k (c.newEntry py k response))
  have hlive (p) (hp : p ∈ items.filter fun p => Unexpired c.nowMs p.2.1.createdAtMs) :
      c.entries.get? p.1 = some p.2 :=
    c.entries.get?_eq_some_iff.mpr (hlists.items.symm ▸ (List.mem_filter.mp hp).1)
  have hlive' (p) (hp : p ∈ items.filter fun p => Unexpired c.nowMs p.2.1.createdAtMs) :
      Unexpired c.nowMs p.2.1.createdAtMs := of_decide_eq_true (List.mem_filter.mp hp).2
  generalize (items.filter fun p => Unexpired c.nowMs p.2.1.createdAtMs) = live at *
  generalize hv : (c.newEntry py k response, entryWireSize k (c.newEntry py k response)) = v at *
  have hnew : (c.put py k response).entries.get? k = some v :=
    (c.put py k response).entries.get?_eq_some_iff.mpr
      (hput.items.symm ▸ hnewest.subset (List.mem_singleton_self _))
  have hkeys : (c.put py k response).keys =
      (shed CacheItems.tooBig (shed CacheItems.tooMany (refresh live k v))).map Prod.fst := by
    rw [keys, hput.items]
  have hunexpired (p) (hp : p ∈ refresh live k v) : Unexpired c.nowMs p.2.1.createdAtMs := by
    rcases mem_refresh.mp hp with ⟨hp, -⟩ | rfl
    · exact hlive' p hp
    · rw [← hv, hcreated, Unexpired, sub_self]
      decide
  have hliveKeys := hstored.liveKeys_eq hunexpired
  refine ⟨⟨?_, ?_, ?_, ?_, ?_⟩, _, hput, ?_⟩
  · have hnodup : ((refresh live k v).map Prod.fst).Nodup :=
      (nodup_recency _).sublist hstored.order
    rw [hliveKeys, hvictims, hkeys]
    exact (filter_append_of_suffix ((shed_shed_suffix _).map _) hnodup).symm
  · intro ks hks hlength
    rw [hliveKeys] at hks
    obtain ⟨s, hs, rfl⟩ := List.suffix_map_iff.mp hks
    rw [over_iff hlive hnew hs.subset]
    rw [hkeys, List.length_map, List.length_map] at hlength
    exact excess_of_longer hs hlength
  · rw [hkeys, over_iff hlive hnew (shed_shed_suffix _).subset]
    exact within_shed_shed _
  · rw [hkeys]
    exact List.mem_map_of_mem (hnewest.subset (List.mem_singleton_self _))
  · intro hover
    have hentry := (c.newEntry_cases py k response).resolve_left fun hfits => hover hfits.1
    rw [counted, if_pos rfl, hnew, ← hv, hentry.2]
    rfl
  · rw [hvictims, hkeys]
    exact hstored.evict (shed_shed_suffix _).sublist

end Follows

/-! ### The runs -/

/-- The clock of the next activation is not before that of this one. -/
def ClockForward (c : ReplayCache) : CacheOp → Prop
  | .load nowMs => c.nowMs ≤ nowMs.toInt
  | _ => True

instance (c : ReplayCache) (op : CacheOp) : Decidable (ClockForward c op) := by
  unfold ClockForward
  split <;> infer_instance

/-- The cache holds what the history says. -/
def FollowsLog (py : PyLib) (log : List CacheEvent) (c : ReplayCache) : Prop :=
  ∃ items, c.Lists c.nowMs items ∧ Follows py log c.nowMs items

section Runs

variable {py : PyLib} {log : List CacheEvent} {c : ReplayCache}

/-- A lookup, against the history. -/
theorem FollowsLog.get (h : FollowsLog py log c) (k : String) :
    (c.get k).2.map CacheEntry.view = lookupAnswer py log c.nowMs k ∧
      FollowsLog py (log ++ if (c.get k).2.isSome then [.used k] else []) (c.get k).1 := by
  obtain ⟨items, hlists, hfollows⟩ := h
  cases hlists.fetch k with
  | absent hfound hget =>
    rw [hget]
    refine ⟨?_, items, hlists, by simpa using hfollows⟩
    rw [lookupAnswer]
    cases hknown : known log k with
    | none => rfl
    | some p =>
      refine (if_neg fun hage => ?_).symm
      obtain ⟨q, hq, rfl⟩ := List.mem_map.mp (hfollows.complete k p.1 p.2 hknown hage)
      rw [c.entries.get?_eq_some_iff.mpr (hlists.items.symm ▸ hq)] at hfound
      cases hfound
  | expired e wireSize c' hfound hexpired hget hlists' =>
    have hmem : (k, e, wireSize) ∈ items :=
      hlists.items ▸ c.entries.get?_eq_some_iff.mp hfound
    have hage : ¬ Unexpired c.nowMs e.createdAtMs :=
      not_le.mpr ((hlists.isExpired_iff e).mp hexpired)
    obtain ⟨response, hknown, -⟩ := hfollows.entry _ hmem
    rw [hget]
    refine ⟨?_, _, hlists'.nowMs.symm ▸ hlists', ?_⟩
    · rw [lookupAnswer, hknown]
      exact (if_neg hage).symm
    · rw [hlists'.nowMs]
      simpa using hfollows.expire hmem hage
  | live e wireSize c' hfound hlive hget hlists' _ _ =>
    have hmem : (k, e, wireSize) ∈ items :=
      hlists.items ▸ c.entries.get?_eq_some_iff.mp hfound
    have hage : Unexpired c.nowMs e.createdAtMs := by
      by_contra hover
      rw [(hlists.isExpired_iff e).mpr (not_le.mp hover)] at hlive
      cases hlive
    obtain ⟨response, hknown, hview⟩ := hfollows.entry _ hmem
    rw [hget]
    refine ⟨?_, _, hlists'.nowMs.symm ▸ hlists', ?_⟩
    · rw [lookupAnswer, hknown, Option.bind_some, if_pos hage]
      exact congrArg some hview
    · rw [hlists'.nowMs]
      exact hfollows.hit hmem

/-- An operation keeps the cache to the history. -/
theorem FollowsLog.perform (h : FollowsLog py log c) {op : CacheOp} (hop : c.ClockForward op) :
    FollowsLog py (log ++ (c.perform py op).2) (c.perform py op).1 := by
  cases op with
  | load nowMs =>
    obtain ⟨items, hlists, hfollows⟩ := h
    refine ⟨_, hlists.load StateSchema.v1.current nowMs.toInt, ?_⟩
    show Follows py (log ++ []) nowMs.toInt _
    rw [List.append_nil]
    exact hfollows.load hop
  | get k => exact (h.get k).2
  | put k response =>
    obtain ⟨items, hlists, hfollows⟩ := h
    obtain ⟨-, items', hlists', hfollows'⟩ := hfollows.put hlists k response
    refine ⟨items', hlists'.nowMs.symm ▸ hlists', ?_⟩
    show Follows py _ (c.put py k response).nowMs items'
    rw [hlists'.nowMs, ReplayCache.perform, List.append_cons]
    exact hfollows'

/-- **What the cache holds is what the history says**, in every run whose clocks do not go back. -/
theorem run_follows {nowMs : Int64} {ops : List CacheOp} {events : List CacheEvent}
    (h : ((machine py).guarded ClockForward).Run (ofBlob none nowMs.toInt) ops events c) :
    FollowsLog py events c := by
  refine h.invariant (I := fun _ events c => FollowsLog py events c) ?_ ?_
  · exact ⟨[], ofBlob_none_lists _, List.nil_sublist _, by simp, fun _ _ _ h => by cases h⟩
  · rintro ops events c op c' es - hfollows ⟨hop, hstep⟩
    have hperform := hfollows.perform hop
    have heq : c.perform py op = (c', es) := hstep
    rw [heq] at hperform
    exact hperform

/-- **The replay cache is a least-recently-used map with expiry.** In every run of lookups and
`put`s over any number of activations whose clocks do not go back, and for every key: a lookup
returns an entry exactly when the last `put` of the key is within the TTL and the key was not
evicted since, and then the response of that `put`, or its digest when no blob can hold the
response. And a `put` evicts the live keys that were used least recently, no more of them than the
two bounds ask for by the tracked sizes, and never its own; a response that no blob can hold counts
for its digest. -/
theorem run_refinesLru {nowMs : Int64} {ops : List CacheOp} {events : List CacheEvent}
    (h : ((machine py).guarded ClockForward).Run (ofBlob none nowMs.toInt) ops events c) :
    (∀ k, (c.get k).2.map CacheEntry.view = lookupAnswer py events c.nowMs k) ∧
      ∀ k response, PutSpec py events c k response := by
  have hlog := run_follows h
  refine ⟨fun k => (hlog.get k).1, fun k response => ?_⟩
  obtain ⟨items, hlists, hfollows⟩ := hlog
  exact (hfollows.put hlists k response).1

/-- Keys of one character. -/
def shortKey (n : ℕ) : String := String.singleton (Char.ofNat (48 + n))

/-- As many responses as the cache holds are stored; a second later the first one is used and one
more is stored; and six hours later all but the last have expired. -/
def fullRun : List CacheOp :=
  (List.range maxEntries).map (fun n => .put (shortKey n) [1]) ++
    [.load 1000, .get (shortKey 0), .put (shortKey maxEntries) [2], .load 21600500]

/-- What was used least recently is evicted, the last response is returned, and the first one is
not. -/
theorem run_refinesLru_full :
    let py : PyLib := .ofTable []
    ∃ events c,
      ((machine py).guarded ClockForward).Run (ofBlob none (0 : Int64).toInt) fullRun events c ∧
      events.filter (fun e => e matches .evicted _) = [.evicted (shortKey 1)] ∧
      (c.get (shortKey maxEntries)).2.map CacheEntry.view = some ⟨[2], py.sha256 [2], false⟩ ∧
      (c.get (shortKey 0)).2.map CacheEntry.view = none ∧
      (c.get (shortKey 1)).2.map CacheEntry.view = none ∧
      PutSpec py events c (shortKey 1) [3] := by
  intro py
  have hexec :
    (Machine.exec (fun c op => if ClockForward c op then some (c.perform py op) else none)
      (ofBlob none (0 : Int64).toInt) fullRun).map (fun r =>
        (r.1.filter fun e => e matches .evicted _, r.2.nowMs,
          [maxEntries, 0, 1].map fun n => lookupAnswer py r.1 r.2.nowMs (shortKey n))) =
      some ([.evicted (shortKey 1)], 21600500, [some ⟨[2], py.sha256 [2], false⟩, none, none]) := by
    decide +kernel
  obtain ⟨⟨events, c⟩, hr, hseen⟩ := Option.map_eq_some_iff.mp hexec
  obtain ⟨hevicted, hlookups⟩ := Prod.mk.inj hseen
  obtain ⟨-, hlookups⟩ := Prod.mk.inj hlookups
  obtain ⟨hlast, hlookups⟩ := List.cons.inj hlookups
  obtain ⟨hfirst, hlookups⟩ := List.cons.inj hlookups
  have hrun : ((machine py).guarded ClockForward).Run (ofBlob none (0 : Int64).toInt) fullRun events
      c := by
    refine .of_exec (fun op _ hstep => ?_) hr
    split_ifs at hstep with hclock
    exact ⟨hclock, Option.some.inj hstep⟩
  obtain ⟨hanswer, hspec⟩ := run_refinesLru hrun
  exact ⟨events, c, hrun, hevicted, (hanswer _).trans hlast, (hanswer _).trans hfirst,
    (hanswer _).trans (List.cons.inj hlookups).1, hspec _ _⟩

end Runs

end ReplayCache

end BeamAgents
