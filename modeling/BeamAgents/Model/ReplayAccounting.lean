import BeamAgents.Model.ReplayBytes
import BeamAgents.Model.ReplayRuns

/-!
# The accounting of the replay cache

The cache tracks the size of its blob entry by entry, so that the byte cap is checked without a
serialization. A `put` takes the sizes of the entries as they are, and loading takes them anew. A
`get` stamps the entry that it finds with the clock and keeps the size that the entry had: the total
stays that of the blob exactly when the new stamp takes as many bytes as the old one. And the loop
over the bytes leaves one entry, which may be over the cap by itself when its key is large.

## Main definitions

* `ReplayCache.Accounted`: the total is the size of the blob, and the bounds are kept.
* `ReplayCache.SizeKept`: the condition on an operation.

## Main results

* `ReplayCache.run_cacheAccounted_iff`.
-/

namespace BeamAgents

open Containers Transition

/-- The size of the blob, computed from what is written. -/
def LlmCacheBlob.byteSize (blob : LlmCacheBlob) : ℕ := (schema.serialize blob).length

namespace ReplayCache

/-- The running total with the header is the size of the blob, the blob keeps to the cap, and no
more entries are held than there may be. -/
structure Accounted (c : ReplayCache) : Prop where
  size : blobHeaderSize c.responseTotal + c.entriesWireTotal =
    (c.toBlob StateSchema.v1.current).byteSize
  bytes : (c.toBlob StateSchema.v1.current).byteSize ≤ blobCapBytes
  count : c.entries.size ≤ maxEntries

/-- What an operation has to meet: the stamp of a live entry that a `get` finds takes as many bytes
as the clock does, and the entry that a `put` stores, with its response or without, fits a blob of
its own. -/
def SizeKept (py : PyLib) (c : ReplayCache) : CacheOp → Prop
  | .load _ => True
  | .get k => ∀ e wireSize, c.entries.get? k = some (e, wireSize) → c.isExpired e = false →
      int64FieldSize c.nowMs = int64FieldSize e.lastAccessMs
  | .put k response =>
    FitsAlone k ⟨response, py.sha256 response, c.nowMs, c.nowMs, false⟩ ∨
      FitsAlone k ⟨[], py.sha256 response, c.nowMs, c.nowMs, true⟩

/-! ### Sizes of entries -/

theorem le_bytesFieldSize (length : ℕ) : length ≤ bytesFieldSize length := by
  unfold bytesFieldSize
  split_ifs <;> omega

/-- An entry takes at least the bytes of its response. -/
theorem length_le_entryWireSize (k : String) (e : CacheEntry) :
    e.response.length ≤ entryWireSize k e := by
  have hfield := le_bytesFieldSize e.response.length
  simp only [entryWireSize]
  omega

/-- Stamping an entry keeps its size exactly when the stamps take the same bytes. -/
theorem entryWireSize_touch_iff (k : String) (e : CacheEntry) (now : Int) :
    entryWireSize k { e with lastAccessMs := now } = entryWireSize k e ↔
      int64FieldSize now = int64FieldSize e.lastAccessMs := by
  have hstrict {a b : ℕ} (h : a < b) : 1 + varintLen a + a < 1 + varintLen b + b := by
    have hlen := varintLen_mono h.le
    omega
  have hinjective : Function.Injective fun payload => 1 + varintLen payload + payload :=
    (strictMono_nat_of_lt_succ fun n => hstrict n.lt_succ_self).injective
  refine hinjective.eq_iff.trans ?_
  dsimp only
  omega

/-- The header and one entry take no more than the header and all entries. -/
theorem fitsAlone_of_mem {items : CacheItems} {k : String} {e : CacheEntry}
    (hmem : (k, e, entryWireSize k e) ∈ items)
    (h : blobHeaderSize items.responseBytes + items.wireBytes ≤ blobCapBytes) : FitsAlone k e := by
  have hresponse : e.response.length ≤ items.responseBytes :=
    List.single_le_sum (fun _ _ => Nat.zero_le _) _ (List.mem_map_of_mem hmem)
  have hwire : entryWireSize k e ≤ items.wireBytes :=
    List.single_le_sum (fun _ _ => Nat.zero_le _) _ (List.mem_map_of_mem hmem)
  have hheader := blobHeaderSize_mono hresponse
  unfold FitsAlone
  omega

/-! ### The invariant -/

/-- The size of every item is that of its entry, the stamps are `int64` numbers, and the bounds are
kept. -/
structure Sound (c : ReplayCache) (items : CacheItems) : Prop where
  lists : c.Lists c.nowMs items
  now : IsInt64 c.nowMs
  exact : ∀ p ∈ items, p.2.2 = entryWireSize p.1 p.2.1
  stamped : ∀ p ∈ items, IsInt64 p.2.1.createdAtMs ∧ IsInt64 p.2.1.lastAccessMs
  bytes : blobHeaderSize items.responseBytes + items.wireBytes ≤ blobCapBytes
  count : items.length ≤ maxEntries

section Sound

variable {c : ReplayCache} {now : Int} {items : CacheItems} {k : String}

/-- The responses take no more than the items. -/
theorem responseBytes_le (h : ∀ p ∈ items, p.2.1.response.length ≤ p.2.2) :
    items.responseBytes ≤ items.wireBytes :=
  List.sum_le_sum h

/-- The size of the blob is a sum over the entries. -/
theorem Lists.byteSize (h : c.Lists now items)
    (hstamped : ∀ p ∈ items, IsInt64 p.2.1.createdAtMs ∧ IsInt64 p.2.1.lastAccessMs)
    (htotal : items.responseBytes < 2 ^ 63) : (c.toBlob StateSchema.v1.current).byteSize =
      blobHeaderSize items.responseBytes + (items.map fun p => entryWireSize p.1 p.2.1).sum := by
  have hentries : (c.toBlob StateSchema.v1.current).entries = items.map fun p =>
      ⟨p.1, p.2.1.response, p.2.1.responseDigest, p.2.1.createdAtMs, p.2.1.lastAccessMs,
        p.2.1.digestOnly⟩ := by
    rw [toBlob, h.items]
  have htotal' : (c.toBlob StateSchema.v1.current).totalResponseBytes = items.responseBytes :=
    h.responseTotal
  rw [LlmCacheBlob.byteSize, LlmCacheBlob.length_serialize rfl ?_ (htotal' ▸ htotal), htotal',
    hentries, List.map_map]
  · rfl
  · rw [hentries]
    intro e he
    obtain ⟨p, hp, rfl⟩ := List.mem_map.mp he
    exact ⟨(hstamped p hp).1, (hstamped p hp).2⟩

theorem Sound.responseBytes_lt (h : c.Sound items) : items.responseBytes < 2 ^ 63 := by
  have hle := responseBytes_le fun p hp => h.exact p hp ▸ length_le_entryWireSize p.1 p.2.1
  have hbytes := h.bytes
  have hcap : blobCapBytes < 2 ^ 63 := by decide
  omega

theorem Sound.accounted (h : c.Sound items) : c.Accounted := by
  have hsize := h.lists.byteSize h.stamped h.responseBytes_lt
  have hexact : (items.map fun p => entryWireSize p.1 p.2.1).sum = items.wireBytes :=
    congrArg List.sum (List.map_congr_left fun p hp => (h.exact p hp).symm)
  rw [hexact] at hsize
  refine ⟨?_, hsize ▸ h.bytes, ?_⟩
  · rw [hsize, h.lists.responseTotal, h.lists.entriesWireTotal]
  · rw [Dict.size, h.lists.items]
    exact h.count

theorem sound_ofBlob_none (now : Int64) : (ofBlob none now.toInt).Sound [] := by
  refine ⟨ofBlob_none_lists _, isInt64_toInt now, ?_, ?_, ?_, ?_⟩
  · exact fun p hp => absurd hp List.not_mem_nil
  · exact fun p hp => absurd hp List.not_mem_nil
  · decide
  · decide

/-- Some of the items of a sound cache. -/
theorem Sound.sublist (h : c.Sound items) {c' : ReplayCache} {items' : CacheItems}
    (hlists : c'.Lists c.nowMs items') (hsub : items'.Sublist items) : c'.Sound items' := by
  have hresponse : items'.responseBytes ≤ items.responseBytes :=
    (hsub.map _).sum_le_sum fun _ _ => Nat.zero_le _
  have hwire : items'.wireBytes ≤ items.wireBytes :=
    (hsub.map _).sum_le_sum fun _ _ => Nat.zero_le _
  have hheader := blobHeaderSize_mono hresponse
  have hbytes := h.bytes
  refine ⟨hlists.nowMs.symm ▸ hlists, hlists.nowMs.symm ▸ h.now,
    fun p hp => h.exact p (hsub.subset hp), fun p hp => h.stamped p (hsub.subset hp), by omega,
    hsub.length_le.trans h.count⟩

/-! ### The operations -/

/-- Loading keeps a sound cache. -/
theorem Sound.load (h : c.Sound items) (nowMs : Int64) :
    (ofBlob (some (c.toBlob StateSchema.v1.current)) nowMs.toInt).Sound items := by
  have hlists := h.lists.load StateSchema.v1.current nowMs.toInt
  have hitems : (items.map fun p => (p.1, p.2.1, entryWireSize p.1 p.2.1)) = items := by
    refine (List.map_congr_left fun p hp => ?_).trans (List.map_id items)
    rw [← h.exact p hp]
    rfl
  rw [hitems] at hlists
  exact ⟨hlists, isInt64_toInt nowMs, h.exact, h.stamped, h.bytes, h.count⟩

/-- A hit keeps a sound cache when the stamp takes the same bytes. -/
theorem Sound.hit (h : c.Sound items) {e : CacheEntry} {wireSize : ℕ} {c' : ReplayCache}
    (hmem : (k, e, wireSize) ∈ items)
    (hlists : c'.Lists c.nowMs (refresh items k ({ e with lastAccessMs := c.nowMs }, wireSize)))
    (hresponse : c'.responseTotal = c.responseTotal)
    (hwire : c'.entriesWireTotal = c.entriesWireTotal)
    (hsize : int64FieldSize c.nowMs = int64FieldSize e.lastAccessMs) :
    c'.Sound (refresh items k ({ e with lastAccessMs := c.nowMs }, wireSize)) := by
  have hbytes := h.bytes
  rw [← h.lists.responseTotal, ← h.lists.entriesWireTotal, ← hresponse, ← hwire,
    hlists.responseTotal, hlists.entriesWireTotal] at hbytes
  refine ⟨hlists.nowMs.symm ▸ hlists, hlists.nowMs.symm ▸ h.now, fun p hp => ?_, fun p hp => ?_,
    hbytes, ?_⟩
  · rcases mem_refresh.mp hp with ⟨hp, -⟩ | rfl
    · exact h.exact p hp
    · exact (h.exact _ hmem).trans ((entryWireSize_touch_iff k e c.nowMs).mpr hsize).symm
  · rcases mem_refresh.mp hp with ⟨hp, -⟩ | rfl
    · exact h.stamped p hp
    · exact ⟨(h.stamped _ hmem).1, h.now⟩
  · have hkeys : (items.filter fun p => p.1 ≠ k).length < items.length :=
      List.length_filter_lt_length_iff_exists.mpr ⟨_, hmem, by simp⟩
    have hcount := h.count
    rw [refresh, List.length_append, List.length_singleton]
    omega

/-- After a hit the total is that of the blob only when the stamp takes the same bytes. -/
theorem Sound.sizeKept_of_hit (h : c.Sound items) {e : CacheEntry} {wireSize : ℕ} {c' : ReplayCache}
    (hmem : (k, e, wireSize) ∈ items)
    (hlists : c'.Lists c.nowMs (refresh items k ({ e with lastAccessMs := c.nowMs }, wireSize)))
    (haccounted : c'.Accounted) : int64FieldSize c.nowMs = int64FieldSize e.lastAccessMs := by
  set e' : CacheEntry := { e with lastAccessMs := c.nowMs }
  have hwireSize : wireSize = entryWireSize k e := h.exact _ hmem
  have hstamped (p) (hp : p ∈ refresh items k (e', wireSize)) :
      IsInt64 p.2.1.createdAtMs ∧ IsInt64 p.2.1.lastAccessMs := by
    rcases mem_refresh.mp hp with ⟨hp, -⟩ | rfl
    · exact h.stamped p hp
    · exact ⟨(h.stamped _ hmem).1, h.now⟩
  have hlength (p) (hp : p ∈ refresh items k (e', wireSize)) :
      p.2.1.response.length ≤ p.2.2 := by
    rcases mem_refresh.mp hp with ⟨hp, -⟩ | rfl
    · exact h.exact p hp ▸ length_le_entryWireSize p.1 p.2.1
    · exact hwireSize ▸ length_le_entryWireSize k e
  -- The cap bounds the total, and with it the bytes of the responses.
  have htracked := haccounted.size
  rw [hlists.responseTotal, hlists.entriesWireTotal] at htracked
  have htotal : CacheItems.responseBytes (refresh items k (e', wireSize)) < 2 ^ 63 := by
    have hle := responseBytes_le hlength
    have hbytes := haccounted.bytes
    have hcap : blobCapBytes < 2 ^ 63 := by decide
    omega
  rw [hlists.byteSize hstamped htotal] at htracked
  have hothers : ((items.filter fun p => p.1 ≠ k).map fun p => entryWireSize p.1 p.2.1) =
      (items.filter fun p => p.1 ≠ k).map fun p => p.2.2 :=
    List.map_congr_left fun p hp => (h.exact p (List.mem_filter.mp hp).1).symm
  rw [CacheItems.wireBytes, refresh, List.map_append, List.map_append, hothers] at htracked
  simp only [List.map_cons, List.map_nil, List.sum_append, List.sum_cons, List.sum_nil]
    at htracked
  refine (entryWireSize_touch_iff k e c.nowMs).mp ?_
  have hbytes : blobHeaderSize (CacheItems.responseBytes (refresh items k (e', wireSize))) =
    blobHeaderSize (CacheItems.responseBytes
      ((items.filter fun p => p.1 ≠ k) ++ [(k, e', wireSize)])) := rfl
  have hentry : wireSize = entryWireSize k e' := by omega
  exact (hwireSize ▸ hentry).symm

/-- The entry that `put` stores fits a blob of its own when either of the two does. -/
theorem fitsAlone_newEntry_iff (c : ReplayCache) (py : PyLib) (k : String) (response : Bytes) :
    FitsAlone k (c.newEntry py k response) ↔ c.SizeKept py (.put k response) := by
  rcases c.newEntry_cases py k response with ⟨hfits, hentry⟩ | ⟨hover, hentry⟩
  · rw [hentry]
    exact (or_iff_left_of_imp fun _ => hfits).symm
  · rw [hentry]
    exact (or_iff_right hover).symm

/-- A `put` whose entry fits a blob of its own keeps a sound cache. -/
theorem Sound.put (h : c.Sound items) (py : PyLib) {response : Bytes}
    (hfits : FitsAlone k (c.newEntry py k response)) :
    ∃ items', (c.put py k response).Sound items' := by
  have hstamps : (c.newEntry py k response).createdAtMs = c.nowMs ∧
      (c.newEntry py k response).lastAccessMs = c.nowMs := by
    rcases c.newEntry_cases py k response with ⟨-, hentry⟩ | ⟨-, hentry⟩
    · rw [hentry]
      exact ⟨rfl, rfl⟩
    · rw [hentry]
      exact ⟨rfl, rfl⟩
  have hlists := h.lists.put py k response
  generalize c.newEntry py k response = e at hfits hstamps hlists
  generalize hrefreshed : refresh (items.filter fun p => !c.isExpired p.2.1) k
    (e, entryWireSize k e) = refreshed at hlists
  have hnewest := newest_suffix (items.filter fun p => !c.isExpired p.2.1) k (e, entryWireSize k e)
  rw [hrefreshed] at hnewest
  have hmem (p) (hp : p ∈ shed CacheItems.tooBig (shed CacheItems.tooMany refreshed)) :
      p ∈ items ∨ p = (k, e, entryWireSize k e) := by
    have hp := (shed_suffix _ _).subset ((shed_suffix _ _).subset hp)
    rw [← hrefreshed] at hp
    exact (mem_refresh.mp hp).imp_left fun hp => (List.mem_filter.mp hp.1).1
  refine ⟨_, hlists.nowMs.symm ▸ hlists, hlists.nowMs.symm ▸ h.now, fun p hp => ?_,
    fun p hp => ?_, ?_, ?_⟩
  · rcases hmem p hp with hp | rfl
    · exact h.exact p hp
    · rfl
  · rcases hmem p hp with hp | rfl
    · exact h.stamped p hp
    · exact ⟨hstamps.1 ▸ h.now, hstamps.2 ▸ h.now⟩
  · have hbound : CacheItems.tooBig (shed CacheItems.tooBig (shed CacheItems.tooMany refreshed)) =
        false := excess_shed rfl _
    rw [CacheItems.tooBig, Bool.and_eq_false_iff, decide_eq_false_iff_not,
      decide_eq_false_iff_not] at hbound
    rcases hbound with hone | hbytes
    · -- One item is left, the one that is stored last.
      rw [← hnewest.eq_of_length_le (not_lt.mp hone)]
      simpa [CacheItems.responseBytes, CacheItems.wireBytes, FitsAlone] using hfits
    · exact not_lt.mp hbytes
  · have hbound : CacheItems.tooMany (shed CacheItems.tooMany refreshed) = false :=
      excess_shed rfl _
    exact (shed_suffix _ _).length_le.trans (not_lt.mp (of_decide_eq_false hbound))

/-- After a `put` the bounds are kept only when its entry fits a blob of its own. -/
theorem Sound.fitsAlone_of_put (h : c.Sound items) (py : PyLib) {response : Bytes}
    (haccounted : (c.put py k response).Accounted) : FitsAlone k (c.newEntry py k response) := by
  have hlists := h.lists.put py k response
  have hnewest := newest_suffix (items.filter fun p => !c.isExpired p.2.1) k
    (c.newEntry py k response, entryWireSize k (c.newEntry py k response))
  have hbytes := haccounted.size.trans_le haccounted.bytes
  rw [hlists.responseTotal, hlists.entriesWireTotal] at hbytes
  exact fitsAlone_of_mem (hnewest.subset (List.mem_singleton_self _)) hbytes

/-- One operation on a sound cache: it meets the condition exactly when the size and the bounds are
kept. -/
theorem Sound.perform_iff (h : c.Sound items) (py : PyLib) (op : CacheOp) :
    c.SizeKept py op ↔ (c.perform py op).1.Accounted := by
  cases op with
  | load nowMs => exact iff_of_true trivial (h.load nowMs).accounted
  | put k response =>
    rw [← fitsAlone_newEntry_iff]
    refine ⟨fun hfits => ?_, fun haccounted => h.fitsAlone_of_put py haccounted⟩
    obtain ⟨items', hsound⟩ := h.put py hfits
    exact hsound.accounted
  | get k =>
    show _ ↔ (c.get k).1.Accounted
    cases h.lists.fetch k with
    | absent hfound hget =>
      rw [hget]
      refine iff_of_true (fun e wireSize hsome _ => ?_) h.accounted
      rw [hfound] at hsome
      cases hsome
    | expired e wireSize c' hfound hexpired hget hlists =>
      rw [hget]
      refine iff_of_true (fun e' wireSize' hsome hlive => ?_)
        (h.sublist hlists List.filter_sublist).accounted
      rw [hfound] at hsome
      cases hsome
      rw [hexpired] at hlive
      cases hlive
    | live e wireSize c' hfound hlive hget hlists hresponse hwire =>
      have hmem : (k, e, wireSize) ∈ items :=
        h.lists.items ▸ c.entries.get?_eq_some_iff.mp hfound
      rw [hget]
      constructor
      · intro hsize
        exact (h.hit hmem hlists hresponse hwire (hsize e wireSize hfound hlive)).accounted
      · intro haccounted e' wireSize' hsome _
        rw [hfound] at hsome
        cases hsome
        exact h.sizeKept_of_hit hmem hlists haccounted

/-- An operation that meets the condition keeps a sound cache. -/
theorem Sound.perform (h : c.Sound items) (py : PyLib) {op : CacheOp} (hop : c.SizeKept py op) :
    ∃ items', (c.perform py op).1.Sound items' := by
  cases op with
  | load nowMs => exact ⟨items, h.load nowMs⟩
  | put k response => exact h.put py ((fitsAlone_newEntry_iff c py k response).mpr hop)
  | get k =>
    show ∃ items', (c.get k).1.Sound items'
    cases h.lists.fetch k with
    | absent hfound hget => exact ⟨items, by rw [hget]; exact h⟩
    | expired e wireSize c' hfound hexpired hget hlists =>
      exact ⟨_, by rw [hget]; exact h.sublist hlists List.filter_sublist⟩
    | live e wireSize c' hfound hlive hget hlists hresponse hwire =>
      have hmem : (k, e, wireSize) ∈ items :=
        h.lists.items ▸ c.entries.get?_eq_some_iff.mp hfound
      exact ⟨_, by rw [hget]; exact h.hit hmem hlists hresponse hwire (hop e wireSize hfound hlive)⟩

end Sound

/-! ### The runs -/

/-- **The total is the size of the blob and the bounds are kept exactly when every operation meets
the condition.** Over any number of activations, with any clocks, keys and responses: the runs in
which every `get` that finds a live entry stamps it with as many bytes as before, and every `put`
stores an entry that fits a blob of its own, are the runs in which, after each operation, the
running total with the header is the size of the serialized blob, the blob is within the cap, and no
more entries are held than there may be. -/
theorem run_cacheAccounted_iff (py : PyLib) (nowMs : Int64) (ops : List CacheOp)
    (events : List CacheEvent) (c : ReplayCache) :
    ((machine py).guarded (SizeKept py)).Run (ofBlob none nowMs.toInt) ops events c ↔
      ((machine py).restrict fun _ _ c' _ => c'.Accounted).Run (ofBlob none nowMs.toInt) ops
        events c := by
  refine Machine.Run.guarded_iff_restrict (I := fun c => ∃ items, c.Sound items)
    ⟨[], sound_ofBlob_none nowMs⟩ ?_ ?_
  · rintro c op c' es ⟨items, hsound⟩ haccounted hstep
    have hc' : (c.perform py op).1 = c' := congrArg Prod.fst hstep
    rw [← hc'] at haccounted ⊢
    exact hsound.perform py ((hsound.perform_iff py op).mpr haccounted)
  · rintro c op c' es ⟨items, hsound⟩ hstep
    have hc' : (c.perform py op).1 = c' := congrArg Prod.fst hstep
    rw [← hc']
    exact hsound.perform_iff py op

/-- A response that is stored at time 0 and used a second later: the stamp takes no byte at first,
and three bytes then, so that the total is three bytes below the size of the blob. -/
theorem stamp_grows : ∃ ops events c,
    (machine (.ofTable [])).Run (ofBlob none 0) ops events c ∧
      blobHeaderSize c.responseTotal + c.entriesWireTotal + 3 =
        (c.toBlob StateSchema.v1.current).byteSize ∧ ¬ c.Accounted := by
  refine ⟨_, _, _, ((Machine.Run.single (a := CacheOp.put "k" [1]) rfl).tail
    (a := CacheOp.load 1000) rfl).tail (a := CacheOp.get "k") rfl, ?_, ?_⟩
  · decide +kernel
  · rintro ⟨hsize, -, -⟩
    revert hsize
    decide +kernel

end ReplayCache

end BeamAgents
