import BeamAgents.Core.Loop
import BeamAgents.Memory.Store
import BeamAgents.Transition.Machine

/-!
# Reading one's own long-term saves

What `ctx.memory.longterm` is for: an activation reads as if each of its saves had reached the store
at once. In fact a save is staged, and `load` and `search` lay the staged saves over what the store
answers. A search merges the staged saves with a result that the store has limited already, which is
wide enough: a row that the limit cut off comes after as many rows that it did not. When the saves
are flushed in the end, the store comes to hold what it would have held.

## Main definitions

* `LongtermCall`, `LongtermCall.prog`, `longtermCalls`: the calls of an activation over a store.
* `InMemoryMemoryStore.perform`, `referenceCalls`: the same calls on a store that saves at once.
* `flushStore`: the flush of the staged saves.
* `Overlays`: the staged saves over the one store are the other.

## Main results

* `Overlays.step`: a call answers the same and keeps the overlay.
* `run_readYourWrites`: every sequence of calls does, and so does the flush.
-/

namespace BeamAgents

open Containers Transition

/-- A call on `ctx.memory.longterm`. -/
inductive LongtermCall
  | save (key : String) (value : Bytes)
  | load (key : String)
  | search (keyPrefix : String) (limit : ℕ)

/-- What a call returns. -/
inductive LongtermAnswer
  | done
  | record (record : Option MemoryRecord)
  | records (records : List MemoryRecord)
  deriving DecidableEq

/-- The call as user code that returns what the call returned or raised. -/
def LongtermCall.prog : LongtermCall → Prog (Except PyExn LongtermAnswer)
  | .save key value => .perform (.longtermSave key value) fun r => .ret (r.map fun _ => .done)
  | .load key => longtermLoad key fun r => .ret (r.map .record)
  | .search keyPrefix limit => longtermSearch keyPrefix limit fun r => .ret (r.map .records)

/-- A world in which the store is the reference store. -/
def InMemoryMemoryStore.answers (store : InMemoryMemoryStore) (entityKey : Bytes)
    (others : Answers) : Answers := fun awaits a =>
  match a with
  | .storeLoad key => ⟨store.load entityKey key, 0⟩
  | .storeSearch keyPrefix limit => ⟨store.search entityKey keyPrefix limit, 0⟩
  | .model request => others awaits (.model request)
  | .tool toolName argsJson => others awaits (.tool toolName argsJson)
  | .other what => others awaits (.other what)

/-- The calls of an activation as a machine that logs each call with its answer. -/
def longtermCalls (py : PyLib) (cfg : ContextConfig) (store : InMemoryMemoryStore)
    (others : Answers) :
    Machine ActivationContext LongtermCall (LongtermCall × Except PyExn LongtermAnswer) where
  step ctx call ctx' log := ∃ awaits answer,
    let e := call.prog.run py cfg (store.answers ctx.entityKey others) awaits ctx
    e.ctx = ctx' ∧ e.outcome = .ok answer ∧ log = [(call, answer)]

/-- The record that an activation saves. -/
def savedRecord (entityKey : Bytes) (seq : ℕ) (nowMs : Int) (key : String) (value : Bytes) :
    MemoryRecord := ⟨entityKey, key, value, seq, nowMs⟩

/-- A call on a store to which a save is applied at once. -/
def InMemoryMemoryStore.perform (entityKey : Bytes) (seq : ℕ) (nowMs : Int)
    (store : InMemoryMemoryStore) :
    LongtermCall → InMemoryMemoryStore × Except PyExn LongtermAnswer
  | .save key value =>
    if key = "" then (store, .error emptyLongtermKey)
    else (store.saved (savedRecord entityKey seq nowMs key value), .ok .done)
  | .load key => (store, (store.load entityKey key).map .record)
  | .search keyPrefix limit => (store, (store.search entityKey keyPrefix limit).map .records)

/-- The calls on such a store as a machine that logs each call with its answer. -/
def referenceCalls (entityKey : Bytes) (seq : ℕ) (nowMs : Int) :
    Machine InMemoryMemoryStore LongtermCall (LongtermCall × Except PyExn LongtermAnswer) where
  step store call store' log := store' = (store.perform entityKey seq nowMs call).1 ∧
    log = [(call, (store.perform entityKey seq nowMs call).2)]

/-- `_flush_longterm` on the reference store: the store afterwards, and what is raised. -/
def flushStore (py : PyLib) : List MemoryRecord → InMemoryMemoryStore →
    InMemoryMemoryStore × Option PyExn
  | [], store => (store, none)
  | record :: records, store =>
    match store.save record with
    | .ok (store', _) => flushStore py records store'
    | .error e =>
      (store, some (if e.cls = .cancelled then e else longtermFlushFailed py record.key))

/-! ### Stores that saves have built -/

/-- Each row holds an envelope of its own key. -/
def InMemoryMemoryStore.Keyed (store : InMemoryMemoryStore) : Prop :=
  ∀ {entityKey key row}, store.table (entityKey, key) = some row → row.2.key = key

namespace InMemoryMemoryStore

variable {store : InMemoryMemoryStore} {record : MemoryRecord}

theorem saved_of_empty (h : record.key = "") : store.saved record = store := by
  rw [saved, save, if_pos h]

theorem Keyed.saved (h : store.Keyed) (record : MemoryRecord) : (store.saved record).Keyed := by
  intro entityKey key row hrow
  by_cases hkey : record.key = ""
  · rw [saved_of_empty hkey] at hrow
    exact h hrow
  · rw [table_saved hkey] at hrow
    by_cases hadmits : store.table.Admits record.write
    · rw [Rows.put_of_admits hadmits] at hrow
      by_cases hsame : (entityKey, key) = record.write.key
      · rw [hsame, Function.update_self] at hrow
        cases hrow
        exact (congrArg Prod.snd hsame).symm
      · rw [Function.update_of_ne hsame] at hrow
        exact h hrow
    · rw [Rows.put_of_not_admits hadmits] at hrow
      exact h hrow

/-- **Every store that saves have built** has its envelopes under their keys. -/
theorem keyed_savedAll (records : List MemoryRecord) :
    (InMemoryMemoryStore.savedAll {} records).Keyed := by
  induction records using List.reverseRecOn with
  | nil => exact nofun
  | append_singleton records record ih =>
    rw [savedAll, List.foldl_append]
    exact ih.saved record

end InMemoryMemoryStore

/-! ### The overlay -/

/-- The staged saves of an activation, laid over the one store, are the other. -/
structure Overlays (store : InMemoryMemoryStore) (ctx : ActivationContext)
    (store' : InMemoryMemoryStore) : Prop where
  staged : ∀ {key record}, ctx.longterm.get? key = some record →
    record.key = key ∧ record.entityKey = ctx.entityKey ∧ record.seq = ctx.seq ∧ key ≠ ""
  covered : ∀ {key record}, ctx.longterm.get? key = some record →
    store'.table (ctx.entityKey, key) = some (record.seq, encodeEnvelope record)
  bare : ∀ {entityKey key}, (entityKey = ctx.entityKey → ctx.longterm.get? key = none) →
    store'.table (entityKey, key) = store.table (entityKey, key)

section Overlays

variable {py : PyLib} {cfg : ContextConfig} {store store' : InMemoryMemoryStore}
  {ctx : ActivationContext} {key keyPrefix : String} {limit : ℕ}

/-- Before any save the two stores are one. -/
theorem Overlays.refl (h : ctx.longterm = Dict.empty) : Overlays store ctx store where
  staged hget := by rw [h] at hget; cases hget
  covered hget := by rw [h] at hget; cases hget
  bare _ := rfl

/-- The record that the store holds is the staged one, or else that of the other store. -/
theorem Overlays.recordAt (h : Overlays store ctx store') (key : String) :
    store'.recordAt ctx.entityKey key =
      (ctx.longterm.get? key).or (store.recordAt ctx.entityKey key) := by
  rw [InMemoryMemoryStore.recordAt, InMemoryMemoryStore.recordAt]
  cases hget : ctx.longterm.get? key with
  | none => rw [h.bare fun _ => hget, Option.none_or]
  | some record =>
    rw [h.covered hget, ← (h.staged hget).2.1]
    rfl

theorem Overlays.load (h : Overlays store ctx store') (key : String) :
    store'.load ctx.entityKey key =
      match ctx.longterm.get? key with
      | some record => .ok (some record)
      | none => store.load ctx.entityKey key := by
  have hrecord := h.recordAt key
  cases hget : ctx.longterm.get? key with
  | some record =>
    rw [InMemoryMemoryStore.load_eq _ _ (h.staged hget).2.2.2, hrecord, hget]
    rfl
  | none =>
    rw [hget, Option.none_or] at hrecord
    by_cases hkey : key = ""
    · simp only [InMemoryMemoryStore.load, if_pos hkey]
    · rw [InMemoryMemoryStore.load_eq _ _ hkey, InMemoryMemoryStore.load_eq _ _ hkey, hrecord]

/-- The staged saves whose keys start with a prefix. -/
def stagedKeys (ctx : ActivationContext) (keyPrefix : String) : Finset String :=
  (ctx.longterm.keys.filter fun key => keyPrefix.isPrefixOf key).toFinset

theorem mem_stagedKeys : key ∈ stagedKeys ctx keyPrefix ↔
    ctx.longterm.get? key ≠ none ∧ keyPrefix.isPrefixOf key = true := by
  rw [stagedKeys, List.mem_toFinset, List.mem_filter, ne_eq, Dict.get?_eq_none_iff, not_not]
  exact Iff.rfl

theorem Overlays.matchingKeys (h : Overlays store ctx store') (keyPrefix : String) :
    store'.matchingKeys ctx.entityKey keyPrefix =
      store.matchingKeys ctx.entityKey keyPrefix ∪ stagedKeys ctx keyPrefix := by
  ext key
  rw [Finset.mem_union, InMemoryMemoryStore.mem_matchingKeys,
    InMemoryMemoryStore.mem_matchingKeys, mem_stagedKeys, ← or_and_right]
  refine and_congr_left fun _ => ?_
  cases hget : ctx.longterm.get? key with
  | none => simp [h.bare fun _ => hget]
  | some record => simp [h.covered hget]

theorem key_of_recordAt (hkeyed : store.Keyed) {entityKey : Bytes} {record : MemoryRecord}
    (h : store.recordAt entityKey key = some record) : record.key = key := by
  obtain ⟨row, hrow, rfl⟩ := Option.map_eq_some_iff.mp h
  exact hkeyed hrow

/-- The records of some rows, found by their keys. -/
theorem lookup_records (hkeyed : store.Keyed) (entityKey : Bytes) (keys : List String)
    (key : String) :
    ((keys.filterMap (store.recordAt entityKey)).map fun r => (r.key, r)).lookup key =
      if key ∈ keys then store.recordAt entityKey key else none := by
  induction keys with
  | nil => rfl
  | cons k keys ih =>
    rw [List.filterMap_cons]
    by_cases hk : key = k
    · subst hk
      cases hrecord : store.recordAt entityKey key with
      | none => simp [ih, hrecord]
      | some record => simp [key_of_recordAt hkeyed hrecord]
    · cases hrecord : store.recordAt entityKey k with
      | none => simp [ih, hk]
      | some record =>
        have hne : (key == record.key) = false := by
          rw [key_of_recordAt hkeyed hrecord]
          simpa using hk
        simp [List.lookup_cons, hne, ih, hk]

theorem nodup_records (hkeyed : store.Keyed) (entityKey : Bytes) {keys : List String}
    (h : keys.Nodup) :
    (((keys.filterMap (store.recordAt entityKey)).map fun r => (r.key, r)).map Prod.fst).Nodup := by
  rw [List.map_map, List.map_filterMap]
  refine h.filterMap fun k k' key hk hk' => ?_
  obtain ⟨record, hrecord, rfl⟩ := Option.map_eq_some_iff.mp hk
  obtain ⟨record', hrecord', heq⟩ := Option.map_eq_some_iff.mp hk'
  rw [← key_of_recordAt hkeyed hrecord, ← key_of_recordAt hkeyed hrecord']
  exact heq.symm

/-- **The merge of a search**: the staged saves over what the store answered are the rows of the
other store. -/
theorem Overlays.merge (h : Overlays store ctx store') (hkeyed : store.Keyed)
    (keyPrefix : String) (limit : ℕ) :
    ctx.longtermMerge keyPrefix limit ((smallest limit
        (store.matchingKeys ctx.entityKey keyPrefix)).filterMap (store.recordAt ctx.entityKey)) =
      (smallest limit (store'.matchingKeys ctx.entityKey keyPrefix)).filterMap
        (store'.recordAt ctx.entityKey) := by
  generalize hfound : smallest limit (store.matchingKeys ctx.entityKey keyPrefix) = found
  have hnodup : found.Nodup := hfound ▸ nodup_smallest limit _
  have hmatching {key : String} (hkey : key ∈ found) :
      store.recordAt ctx.entityKey key ≠ none ∧ keyPrefix.isPrefixOf key = true := by
    have hmem := smallest_subset (List.mem_toFinset.mpr (hfound ▸ hkey))
    obtain ⟨hrow, hstart⟩ := InMemoryMemoryStore.mem_matchingKeys.mp hmem
    exact ⟨fun hnone => hrow (Option.map_eq_none_iff.mp hnone), hstart⟩
  rw [ActivationContext.longtermMerge]
  generalize hmerged : (ctx.longterm.items.filter fun p => keyPrefix.isPrefixOf p.1).foldl
    (fun d p => d.set p.1 p.2)
    (Dict.ofList ((found.filterMap (store.recordAt ctx.entityKey)).map fun r => (r.key, r))) =
    merged
  have hget (key : String) : merged.get? key =
      (if keyPrefix.isPrefixOf key then ctx.longterm.get? key else none).or
        (if key ∈ found then store.recordAt ctx.entityKey key else none) := by
    rw [← hmerged, Dict.get?_foldl_set _ (ctx.longterm.nodup.sublist (List.filter_sublist.map _)),
      Dict.lookup_filter_fst, Dict.get?_ofList (nodup_records hkeyed _ hnodup),
      lookup_records hkeyed]
    rfl
  have hvalue : ∀ p ∈ merged.items, p.2.key = p.1 := by
    intro p hp
    have hfind : merged.get? p.1 = some p.2 := merged.get?_eq_some_iff.mpr hp
    rw [hget, Option.or_eq_some_iff] at hfind
    rcases hfind with hstaged | ⟨-, hstored⟩
    · split_ifs at hstaged
      exact (h.staged hstaged).1
    · split_ifs at hstored
      exact key_of_recordAt hkeyed hstored
  have hkeys : merged.keys.toFinset = found.toFinset ∪ stagedKeys ctx keyPrefix := by
    ext key
    rw [List.mem_toFinset, Finset.mem_union, List.mem_toFinset, mem_stagedKeys, Dict.keys,
      ← not_not (a := key ∈ _), ← Dict.get?_eq_none_iff, hget, Option.or_eq_none_iff]
    by_cases hkey : key ∈ found
    · simp [hkey, (hmatching hkey).1]
    · by_cases hstart : keyPrefix.isPrefixOf key = true <;> simp [hkey, hstart]
  rw [take_mergeSort_values merged MemoryRecord.key hvalue, hkeys, ← hfound, smallest_union,
    ← h.matchingKeys]
  refine List.filterMap_congr fun key hkey => ?_
  rw [h.matchingKeys, ← List.mem_toFinset, ← smallest_union, hfound] at hkey
  rw [hget, h.recordAt]
  rcases Finset.mem_union.mp (smallest_subset hkey) with hin | hin
  · have hin := List.mem_toFinset.mp hin
    rw [if_pos (hmatching hin).2, if_pos hin]
  · obtain ⟨hstaged, hstart⟩ := mem_stagedKeys.mp hin
    obtain ⟨record, hrecord⟩ := Option.ne_none_iff_exists'.mp hstaged
    rw [if_pos hstart, hrecord]
    rfl

theorem Overlays.search (h : Overlays store ctx store') (hkeyed : store.Keyed)
    (keyPrefix : String) (limit : ℕ) :
    store'.search ctx.entityKey keyPrefix limit =
      (store.search ctx.entityKey keyPrefix limit).map (ctx.longtermMerge keyPrefix limit) := by
  rcases Nat.eq_zero_or_pos limit with rfl | hlimit
  · rfl
  · rw [InMemoryMemoryStore.search_eq _ _ hlimit, InMemoryMemoryStore.search_eq _ _ hlimit,
      ← h.merge hkeyed]
    rfl

/-- A staged save is a save on the other store. -/
theorem Overlays.save (h : Overlays store ctx store')
    (hseq : ∀ key row, store.table (ctx.entityKey, key) = some row → row.1 ≤ ctx.seq)
    (hkey : key ≠ "") (value : Bytes) :
    Overlays store
      { ctx with longterm := ctx.longterm.set key
                  (savedRecord ctx.entityKey ctx.seq ctx.nowMs key value) }
      (store'.saved (savedRecord ctx.entityKey ctx.seq ctx.nowMs key value)) := by
  generalize hrecord : savedRecord ctx.entityKey ctx.seq ctx.nowMs key value = record
  have hrow : record.write.key = (ctx.entityKey, key) := by rw [← hrecord]; rfl
  have hversion : record.seq = ctx.seq := by rw [← hrecord]; rfl
  have hname : record.key = key := by rw [← hrecord]; rfl
  have hadmits : store'.table.Admits record.write := by
    intro row hrow'
    rw [hrow] at hrow'
    cases hget : ctx.longterm.get? key with
    | none =>
      rw [h.bare fun _ => hget] at hrow'
      exact (hseq _ _ hrow').trans hversion.ge
    | some staged =>
      rw [h.covered hget] at hrow'
      cases hrow'
      exact ((h.staged hget).2.2.1.trans hversion.symm).le
  have htable : (store'.saved record).table = store'.table.put record.write :=
    InMemoryMemoryStore.table_saved (hname.trans_ne hkey)
  refine ⟨fun {k r} hget => ?_, fun {k r} hget => ?_, fun {entityKey k} hnone => ?_⟩
  · rw [Dict.get?_set] at hget
    split_ifs at hget with hk
    · cases hget
      exact ⟨hname.trans hk.symm, congrArg Prod.fst hrow, hversion, hk.trans_ne hkey⟩
    · exact h.staged hget
  · rw [Dict.get?_set] at hget
    rw [htable, Rows.put_of_admits hadmits, hrow]
    split_ifs at hget with hk
    · cases hget
      rw [hk, Function.update_self]
      rfl
    · rw [Function.update_of_ne fun heq => hk (congrArg Prod.snd heq)]
      exact h.covered hget
  · have hother : (entityKey, k) ≠ record.write.key := by
      rw [hrow]
      rintro heq
      cases heq
      have hset := hnone rfl
      rw [Dict.get?_set, if_pos rfl] at hset
      cases hset
    rw [htable, Rows.put_of_ne hother]
    refine h.bare fun hentity => ?_
    have hset := hnone hentity
    rw [Dict.get?_set] at hset
    split_ifs at hset with hk
    exact hset

end Overlays

/-! ### Runs -/

section Runs

variable {py : PyLib} {cfg : ContextConfig} {others : Answers} {store store' : InMemoryMemoryStore}
  {ctx ctx' : ActivationContext} {call : LongtermCall}

/-- What the activation's scope is. -/
def SameScope (ctx ctx' : ActivationContext) : Prop :=
  ctx'.entityKey = ctx.entityKey ∧ ctx'.seq = ctx.seq ∧ ctx'.nowMs = ctx.nowMs

variable (py others) in
/-- **A call answers what the other store answers**, and keeps the overlay. -/
theorem Overlays.step (h : Overlays store ctx store') (hcfg : cfg.longterm = true)
    (hkeyed : store.Keyed)
    (hseq : ∀ key row, store.table (ctx.entityKey, key) = some row → row.1 ≤ ctx.seq)
    (awaits : ℕ) (call : LongtermCall) :
    let e := call.prog.run py cfg (store.answers ctx.entityKey others) awaits ctx
    e.outcome = .ok (store'.perform ctx.entityKey ctx.seq ctx.nowMs call).2 ∧
      Overlays store e.ctx (store'.perform ctx.entityKey ctx.seq ctx.nowMs call).1 ∧
      SameScope ctx e.ctx := by
  cases call with
  | save key value =>
    by_cases hkey : key = ""
    · simp only [LongtermCall.prog, Prog.run, ActivationContext.perform,
        ActivationContext.longtermSave, hcfg, InMemoryMemoryStore.perform, if_pos hkey,
        Bool.not_true, Bool.false_eq_true, if_false]
      exact ⟨rfl, h, rfl, rfl, rfl⟩
    · simp only [LongtermCall.prog, Prog.run, ActivationContext.perform,
        ActivationContext.longtermSave, hcfg, InMemoryMemoryStore.perform, if_neg hkey,
        Bool.not_true, Bool.false_eq_true, if_false]
      exact ⟨rfl, h.save hseq hkey value, rfl, rfl, rfl⟩
  | load key =>
    simp only [LongtermCall.prog, longtermLoad, Prog.run, ActivationContext.perform, hcfg, if_true,
      InMemoryMemoryStore.perform, h.load key]
    cases ctx.longterm.get? key with
    | some record => exact ⟨rfl, h, rfl, rfl, rfl⟩
    | none => exact ⟨rfl, h, rfl, rfl, rfl⟩
  | search keyPrefix limit =>
    simp only [LongtermCall.prog, longtermSearch, Prog.run, ActivationContext.perform, hcfg,
      if_true, InMemoryMemoryStore.perform, InMemoryMemoryStore.answers, h.search hkeyed]
    cases store.search ctx.entityKey keyPrefix limit with
    | error e => exact ⟨rfl, h, rfl, rfl, rfl⟩
    | ok stored => exact ⟨rfl, h, rfl, rfl, rfl⟩

theorem flushStore_eq (py : PyLib) {records : List MemoryRecord} (store : InMemoryMemoryStore)
    (h : ∀ r ∈ records, r.key ≠ "") :
    flushStore py records store = (store.savedAll records, none) := by
  induction records generalizing store with
  | nil => rfl
  | cons r records ih =>
    obtain ⟨hr, hrecords⟩ := List.forall_mem_cons.mp h
    rw [flushStore, InMemoryMemoryStore.save_eq hr]
    exact ih _ hrecords

/-- The flush of the staged saves makes the one store the other. -/
theorem Overlays.flush (py : PyLib) (h : Overlays store ctx store')
    (hseq : ∀ key row, store.table (ctx.entityKey, key) = some row → row.1 ≤ ctx.seq) :
    (flushStore py ctx.stagedUpserts store).2 = none ∧
      (flushStore py ctx.stagedUpserts store).1.table = store'.table := by
  have hstaged {key : String} {record : MemoryRecord} (hmem : (key, record) ∈ ctx.longterm.items) :
      ctx.longterm.get? key = some record := ctx.longterm.get?_eq_some_iff.mpr hmem
  have hkeys : ∀ record ∈ ctx.stagedUpserts, record.key ≠ "" := by
    intro record hmem
    obtain ⟨⟨key, record⟩, hp, rfl⟩ := List.mem_map.mp hmem
    obtain ⟨hkey, -, -, hne⟩ := h.staged (hstaged hp)
    exact hkey.trans_ne hne
  have hflush := flushStore_eq py store hkeys
  refine ⟨congrArg Prod.snd hflush, ?_⟩
  have htable : (flushStore py ctx.stagedUpserts store).1.table =
      store.table.putAll (ctx.stagedUpserts.map MemoryRecord.write) := by
    rw [hflush]
    exact InMemoryMemoryStore.table_savedAll hkeys
  have hwrites : (ctx.stagedUpserts.map MemoryRecord.write).map Write.key =
      ctx.longterm.keys.map (ctx.entityKey, ·) := by
    rw [ActivationContext.stagedUpserts, Dict.values, Dict.keys, List.map_map, List.map_map,
      List.map_map]
    refine List.map_congr_left fun p hp => ?_
    obtain ⟨hkey, hentity, -⟩ := h.staged (hstaged hp)
    exact Prod.ext hentity hkey
  have hnodup : ((ctx.stagedUpserts.map MemoryRecord.write).map Write.key).Nodup := by
    rw [hwrites]
    exact ctx.longterm.nodup.map fun key key' heq => congrArg Prod.snd heq
  rw [htable]
  refine funext fun k => ?_
  obtain ⟨entityKey, key⟩ := k
  by_cases hcovered : entityKey = ctx.entityKey ∧ ctx.longterm.get? key ≠ none
  · obtain ⟨rfl, hsome⟩ := hcovered
    obtain ⟨record, hget⟩ := Option.ne_none_iff_exists'.mp hsome
    obtain ⟨hkey, hentity, hversion, -⟩ := h.staged hget
    have hmem : record.write ∈ ctx.stagedUpserts.map MemoryRecord.write :=
      List.mem_map_of_mem (List.mem_map_of_mem (ctx.longterm.get?_eq_some_iff.mp hget))
    have hrow : record.write.key = (ctx.entityKey, key) := Prod.ext hentity hkey
    have hadmits : store.table.Admits record.write := fun row hrow' =>
      (hseq key row (hrow ▸ hrow')).trans hversion.ge
    rw [h.covered hget, ← hrow]
    exact Rows.putAll_of_mem hnodup hmem hadmits
  · rw [h.bare fun hentity => not_not.mp fun hne => hcovered ⟨hentity, hne⟩]
    refine Rows.putAll_of_forall_ne fun w hw heq => hcovered ?_
    have hmem : (entityKey, key) ∈ ctx.longterm.keys.map (ctx.entityKey, ·) := by
      rw [← hwrites, ← heq]
      exact List.mem_map_of_mem hw
    obtain ⟨key', hkey', hsame⟩ := List.mem_map.mp hmem
    cases hsame
    exact ⟨rfl, fun hnone => (Dict.get?_eq_none_iff _).mp hnone hkey'⟩

/-- **Reading one's own saves.** Over every store that saves have built and whose rows for the
entity are of no later `seq` than the activation, every sequence of calls of the activation answers
what it answers on that store when each save is applied to it at once, and after the flush the store
holds the same rows. -/
theorem run_readYourWrites (py : PyLib) {cfg : ContextConfig} (hcfg : cfg.longterm = true)
    (history : List MemoryRecord) (others : Answers) {input : ActivationInput}
    {ctx ctx' : ActivationContext} (hnew : ActivationContext.new py cfg input = .ok ctx)
    (hseq : ∀ key row, (InMemoryMemoryStore.savedAll {} history).table (input.entityKey, key) =
      some row → row.1 ≤ input.seq)
    {calls : List LongtermCall} {log : List (LongtermCall × Except PyExn LongtermAnswer)}
    (h : (longtermCalls py cfg (.savedAll {} history) others).Run ctx calls log ctx') :
    ∃ store', (referenceCalls input.entityKey input.seq input.nowMs).Run (.savedAll {} history)
        calls log store' ∧
      (flushStore py ctx'.stagedUpserts (.savedAll {} history)).2 = none ∧
      (flushStore py ctx'.stagedUpserts (.savedAll {} history)).1.table = store'.table := by
  obtain ⟨hfresh, hentity, hseq_eq, hnow⟩ : ctx.longterm = Dict.empty ∧
      ctx.entityKey = input.entityKey ∧ ctx.seq = input.seq ∧ ctx.nowMs = input.nowMs := by
    rw [ActivationContext.new] at hnew
    split_ifs at hnew
    cases hnew
    exact ⟨rfl, rfl, rfl, rfl⟩
  rw [← hentity, ← hseq_eq] at hseq
  rw [← hentity, ← hseq_eq, ← hnow]
  have hstep {c c' : ActivationContext} {call : LongtermCall}
      {o : List (LongtermCall × Except PyExn LongtermAnswer)} {store₁ : InMemoryMemoryStore}
      (hR : Overlays (.savedAll {} history) c store₁ ∧ SameScope ctx c)
      (hs : (longtermCalls py cfg (.savedAll {} history) others).step c call c' o) :
      ∃ store₂, (referenceCalls ctx.entityKey ctx.seq ctx.nowMs).step store₁ call store₂ o ∧
        Overlays (.savedAll {} history) c' store₂ ∧ SameScope ctx c' := by
    obtain ⟨hoverlays, hentity', hseq', hnow'⟩ := hR
    obtain ⟨awaits, answer, rfl, hanswer, rfl⟩ := hs
    rw [← hentity', ← hseq'] at hseq
    obtain ⟨hsame, hnext, hscope⟩ := hoverlays.step py others hcfg
      (InMemoryMemoryStore.keyed_savedAll history) hseq awaits call
    rw [hsame] at hanswer
    cases hanswer
    have hperform : store₁.perform c.entityKey c.seq c.nowMs call =
        store₁.perform ctx.entityKey ctx.seq ctx.nowMs call := by rw [hentity', hseq', hnow']
    rw [hperform] at hnext ⊢
    exact ⟨_, ⟨rfl, rfl⟩, hnext, hscope.1.trans hentity', hscope.2.1.trans hseq',
      hscope.2.2.trans hnow'⟩
  obtain ⟨store', hrun, hoverlays, hentity', hseq', -⟩ :=
    h.lockstep ⟨.refl hfresh, rfl, rfl, rfl⟩ hstep
  rw [← hentity', ← hseq'] at hseq
  exact ⟨store', hrun, hoverlays.flush py hseq⟩

/-- A store with one row. -/
def notedHistory : List MemoryRecord := [⟨[107], "a", [2], 1, 500⟩]

/-- The third activation of its entity. -/
def notingInput : ActivationInput where
  entityKey := [107]
  seq := 3
  nowMs := 1000
  memoryBlob := none
  cacheBlob := none
  event := .inl [1]

/-- Its context. -/
def notingContext : ActivationContext :=
  (ActivationContext.new (.ofTable []) { longterm := true } notingInput).toOption.get rfl

/-- It saves over the row and reads it back. -/
theorem run_readYourWrites_noting : ∃ log ctx' store',
    (longtermCalls (.ofTable []) { longterm := true } (.savedAll {} notedHistory)
        quietWorld.answers).Run notingContext ([.save "a" [1]] ++ [.load "a"]) log ctx' ∧
      (referenceCalls [107] 3 1000).Run (.savedAll {} notedHistory)
        ([.save "a" [1]] ++ [.load "a"]) log store' ∧
      (flushStore (.ofTable []) ctx'.stagedUpserts (.savedAll {} notedHistory)).1.table =
        store'.table := by
  have hseq : ∀ key row, (InMemoryMemoryStore.savedAll {} notedHistory).table ([107], key) =
      some row → row.1 ≤ 3 := by
    intro key row hrow
    by_cases hkey : key = "a"
    · subst hkey
      cases hrow
      decide
    · have hnone : (InMemoryMemoryStore.savedAll {} notedHistory).table ([107], key) = none := by
        rw [InMemoryMemoryStore.table_savedAll (by decide)]
        exact Rows.putAll_of_forall_ne
          (by simpa [notedHistory, MemoryRecord.write, eq_comm] using hkey)
      rw [hnone] at hrow
      cases hrow
  have hsave : (longtermCalls (.ofTable []) { longterm := true } (.savedAll {} notedHistory)
      quietWorld.answers).Run notingContext [.save "a" [1]] _ _ := .single ⟨0, _, rfl, rfl, rfl⟩
  have hrun := hsave.append (.single (a := .load "a") ⟨0, _, rfl, rfl, rfl⟩)
  have hnew : ActivationContext.new (.ofTable []) { longterm := true } notingInput =
      .ok notingContext := rfl
  obtain ⟨store', hreference, -, htable⟩ := run_readYourWrites (.ofTable []) rfl notedHistory
    quietWorld.answers hnew hseq hrun
  exact ⟨_, _, store', hrun, hreference, htable⟩

end Runs

end BeamAgents
