import BeamAgents.Core.Attempts
import BeamAgents.Core.Flush
import BeamAgents.Core.Suspensions

/-!
# The long-term store over the life of a key

One key and the store it writes to. A bundle of calls is rolled back and retried as a whole, and
what its failed attempts had saved stays; a write that was still under way when its activation was
reported, or its attempt failed, may reach the store at any later time; other keys write other rows.
What the store should hold is the last value that a committed activation, or the flush of a wipe,
wrote. It does in every run in which the guard of a row never refuses such a write, and no other
write changes a value that is there.

A save is guarded by the `seq` of its activation, which `_flush_longterm` stages and whose verdict
it does not look at. The counter starts again at zero after a wipe while the rows stay, so that the
guard then refuses what is newer.

## Main definitions

* `FlushToLongterm`: the upsert of the shipped `on_expire` hook.
* `AgentDoFn.saves`, `AgentDoFn.bundleSaves`: what a call and a bundle save, and which saves count.
* `AgentDoFn.longtermMachine`: a key and the store.
* `LastCommitted`: the store holds the last committed values.
* `AgentDoFn.Kept`: the condition on a step.

## Main results

* `AgentDoFn.savedAll_attempts`: failed attempts of a bundle leave no trace once it succeeds.
* `AgentDoFn.saves_committed`: the writes that count are those of committed activations.
* `AgentDoFn.run_lastCommitted`.
-/

namespace BeamAgents

open Containers Transition

/-- `DEFAULT_EXPIRY_KEY`. -/
def defaultExpiryKey : String := "working_memory"

/-- `FlushToLongterm`. -/
structure FlushToLongterm where
  key : String := defaultExpiryKey

/-- The record that `FlushToLongterm` saves; `serialize` is the deterministic serialization of a
blob. -/
def FlushToLongterm.record (hook : FlushToLongterm) (serialize : MemoryBlob → Bytes)
    (entityKey : Bytes) (seq : ℕ) (blob : MemoryBlob) (expiredAtMs : Int) : MemoryRecord where
  entityKey := entityKey
  key := hook.key
  value := serialize blob
  seq := seq
  updatedAtMs := expiredAtMs

/-- What a call, or a bundle, saves: the records that reached the store, in order, each with whether
its activation committed, and those whose writes are still under way. -/
structure Saves where
  landed : List (Bool × MemoryRecord) := []
  underWay : List MemoryRecord := []

/-- The records that reached the store. -/
def Saves.records (saves : Saves) : List MemoryRecord := saves.landed.map Prod.snd

/-- The records of these that committed activations and wipes wrote. -/
def Saves.committed (saves : Saves) : List MemoryRecord :=
  (saves.landed.filter Prod.fst).map Prod.snd

/-- A key and the store: its state, the rows, and the writes that are under way. -/
structure LongtermState where
  key : KeyState
  store : InMemoryMemoryStore
  underWay : List MemoryRecord

/-- What happens to a key and its store. An attempt of a bundle is given by the number of its saves
that reached the store before it failed, and the number that were under way then. -/
inductive LongtermAction
  | bundle (calls : List KeyCall) (attempts : List (ℕ × ℕ))
  | land (record : MemoryRecord)
  | other (record : MemoryRecord)

/-- The store holds the last value written to each row by `records`. -/
def LastCommitted (store : InMemoryMemoryStore) (records : List MemoryRecord) : Prop :=
  ∀ entityKey key record,
    (records.filter fun r => r.entityKey = entityKey ∧ r.key = key).getLast? = some record →
    ∃ row, store.load entityKey key = .ok (some row) ∧ row.value = record.value

namespace AgentDoFn

variable (d : AgentDoFn) (py : PyLib) (hook : FlushToLongterm) (serialize : MemoryBlob → Bytes)
  (key : Bytes)

/-- The upsert of `_flush_expiring`, when there is memory to demote. -/
def expiring (micros : Int) (s : KeyState) : Option MemoryRecord :=
  if d.onExpire then
    match d.schema.migrateMemory s.memory with
    | .ok (some blob) =>
      if blob.entries = [] then none
      else some (hook.record serialize key s.seq blob (firedAtMs micros))
    | _ => none
  else none

/-- What a call saves. A wipe that does not raise has saved the memory it clears. -/
def saves (s : KeyState) (c : KeyCall) : Saves :=
  match c with
  | .onTtl micros _ => { landed := (d.expiring hook serialize key micros s).toList.map (true, ·) }
  | c =>
    match d.attempt key s c with
    | none => {}
    | some (w, input) =>
      let saves := flushSaves w 0 (d.staged py w input)
      { landed := (recordsOf .landed saves).map ((d.activate py w input).isOk, ·)
        underWay := recordsOf .underWay saves }

/-- What a bundle of calls saves, one call after the other. -/
def bundleSaves (s : KeyState) : List KeyCall → Saves
  | [] => {}
  | c :: cs =>
    let first := d.saves py hook serialize key s c
    let rest := bundleSaves (s.applyAll (d.call py key s c).effects) cs
    { landed := first.landed ++ rest.landed, underWay := first.underWay ++ rest.underWay }

/-- The store after the failed attempts of a bundle. -/
def afterAttempts (records : List MemoryRecord) (attempts : List (ℕ × ℕ))
    (store : InMemoryMemoryStore) : InMemoryMemoryStore :=
  attempts.foldl (fun store attempt => store.savedAll (records.take attempt.1)) store

/-- The writes that the failed attempts of a bundle leave under way. -/
def leftUnderWay (records : List MemoryRecord) (attempts : List (ℕ × ℕ)) : List MemoryRecord :=
  attempts.flatMap fun attempt => (records.drop attempt.1).take attempt.2

/-- A bundle that succeeds, after any number of failed attempts that saved a part of the same
records. A call whose save raises, for want of a key, raises too, and its bundle does not
succeed. -/
def bundleStep (x : LongtermState) (calls : List KeyCall) (attempts : List (ℕ × ℕ)) :
    Option (LongtermState × List MemoryRecord) :=
  let saves := d.bundleSaves py hook serialize key x.key calls
  match d.exec py key x.key calls with
  | none => none
  | some (_, s) =>
    if ∀ r ∈ saves.records, r.key ≠ "" then
      some ({
        key := s
        store := (afterAttempts saves.records attempts x.store).savedAll saves.records
        underWay := x.underWay ++ leftUnderWay saves.records attempts ++ saves.underWay },
        saves.committed)
    else none

/-- What an action does, and the records that its committed activations and wipes wrote. -/
def longtermStep (x : LongtermState) :
    LongtermAction → Option (LongtermState × List MemoryRecord)
  | .bundle calls attempts => d.bundleStep py hook serialize key x calls attempts
  | .land record =>
    if record ∈ x.underWay then
      some ({ x with store := x.store.saved record, underWay := x.underWay.erase record }, [])
    else none
  | .other record =>
    if record.entityKey ≠ key then some ({ x with store := x.store.saved record }, []) else none

/-- The machine of a key and the store. -/
def longtermMachine : Machine LongtermState LongtermAction MemoryRecord where
  step x a y os := d.longtermStep py hook serialize key x a = some (y, os)

/-- The value of an envelope. -/
abbrev rowValue : LongTermRecord → Bytes := LongTermRecord.value

/-- The condition on a step: the guard refuses no write of a committed activation or a wipe when it
is made, and every other write that reaches the store is refused, or creates the row, or leaves its
value as it is. -/
def Kept (x : LongtermState) : LongtermAction → Prop
  | .bundle calls _ => Rows.Sound rowValue x.store.table
      ((d.bundleSaves py hook serialize key x.key calls).landed.map fun m => (m.1, m.2.write))
  | .land record => Rows.Harmless rowValue x.store.table record.write
  | .other _ => True

instance (x : LongtermState) (a : LongtermAction) :
    Decidable (d.Kept py hook serialize key x a) :=
  match a with
  | .bundle .. => inferInstanceAs (Decidable (Rows.Sound _ _ _))
  | .land _ => inferInstanceAs (Decidable (Rows.Harmless _ _ _))
  | .other _ => isTrue trivial

/-! ### Retried bundles -/

section Attempts

variable {records : List MemoryRecord} {attempts : List (ℕ × ℕ)} {store : InMemoryMemoryStore}

/-- **Failed attempts leave no trace.** Once the bundle succeeds, the rows are those of a bundle
that succeeded at once. -/
theorem savedAll_attempts (h : ∀ r ∈ records, r.key ≠ "") :
    ((afterAttempts records attempts store).savedAll records).table =
      store.table.putAll (records.map MemoryRecord.write) := by
  induction attempts generalizing store with
  | nil => exact InMemoryMemoryStore.table_savedAll h
  | cons attempt attempts ih =>
    have hpart : ∀ r ∈ records.take attempt.1, r.key ≠ "" :=
      fun r hr => h r (List.mem_of_mem_take hr)
    have hprefix : (records.take attempt.1).map MemoryRecord.write <+:
        records.map MemoryRecord.write := (List.take_prefix attempt.1 records).map _
    calc ((afterAttempts records (attempt :: attempts) store).savedAll records).table
        = (store.savedAll (records.take attempt.1)).table.putAll
            (records.map MemoryRecord.write) := ih
      _ = (store.table.putAll ((records.take attempt.1).map MemoryRecord.write)).putAll
            (records.map MemoryRecord.write) := by
          rw [InMemoryMemoryStore.table_savedAll hpart]
      _ = store.table.putAll (records.map MemoryRecord.write) := Rows.putAll_prefix hprefix

end Attempts

/-! ### What counts -/

section Counts

variable {d py hook serialize key} {s : KeyState} {c : KeyCall} {w : World}
  {input : ActivationInput} {record : MemoryRecord}

theorem saves_attempt (h : d.attempt key s c = some (w, input)) :
    d.saves py hook serialize key s c =
      { landed := (recordsOf .landed (flushSaves w 0 (d.staged py w input))).map
          ((d.activate py w input).isOk, ·)
        underWay := recordsOf .underWay (flushSaves w 0 (d.staged py w input)) } := by
  cases c with
  | onTtl micros w => cases h
  | onHitl micros w => cases h
  | process envelope w => simp only [saves, h]
  | onFlush w => simp only [saves, h]

/-- **What counts is what is committed.** An activation that comes to a result has saved its
upserts, in order, and nothing of it is under way. -/
theorem saves_committed {result : ActivationResult} (h : d.attempt key s c = some (w, input))
    (hresult : d.activate py w input = .ok result) :
    (d.saves py hook serialize key s c).committed = result.upserts ∧
      (d.saves py hook serialize key s c).records = result.upserts ∧
      (d.saves py hook serialize key s c).underWay = [] := by
  obtain ⟨ctx, htail, hupserts, hflush, htime⟩ := commitTail_activate hresult
  obtain ⟨hlanded, hunder⟩ := flushSaves_of_flushLongterm hflush htime
  have hstaged : d.staged py w input = ctx.stagedUpserts := by simp [staged, htail]
  have hok : (d.activate py w input).isOk = true := by rw [hresult]; rfl
  have hall : (ctx.stagedUpserts.map (true, ·)).filter Prod.fst =
      ctx.stagedUpserts.map (true, ·) := List.filter_eq_self.mpr (by simp)
  have hrecords : (ctx.stagedUpserts.map (true, ·)).map Prod.snd = ctx.stagedUpserts := by
    simp [Function.comp_def]
  rw [saves_attempt h, hstaged, hlanded, hunder, hok, hupserts]
  exact ⟨by rw [Saves.committed, hall, hrecords], hrecords, rfl⟩

/-- A call saves rows of its key only. -/
theorem saves_entityKey :
    ∀ m ∈ (d.saves py hook serialize key s c).landed, m.2.entityKey = key := by
  intro m hm
  cases h : d.attempt key s c with
  | some p =>
    obtain ⟨w, input⟩ := p
    rw [saves_attempt h] at hm
    obtain ⟨r, hr, rfl⟩ := List.mem_map.mp hm
    obtain ⟨hown, -⟩ := staged_own d py w input
    exact (hown r (recordsOf_flushSaves_sublist.subset hr)).2.1.trans (attempt_scope h).1
  | none =>
    cases c with
    | onTtl micros w =>
      simp only [saves, List.mem_map, Option.mem_toList] at hm
      obtain ⟨r, hr, rfl⟩ := hm
      unfold expiring at hr
      split_ifs at hr
      split at hr
      · split_ifs at hr
        cases hr
        rfl
      · cases hr
    | _ => simp [saves, h] at hm

theorem bundleSaves_entityKey (calls : List KeyCall) :
    ∀ m ∈ (d.bundleSaves py hook serialize key s calls).landed, m.2.entityKey = key := by
  induction calls generalizing s with
  | nil => simp [bundleSaves]
  | cons c cs ih =>
    intro m hm
    rcases List.mem_append.mp hm with hm | hm
    · exact saves_entityKey m hm
    · exact ih m hm

end Counts

/-! ### The law -/

section Law

variable {d py hook serialize key} {x y : LongtermState} {a : LongtermAction}
  {written os : List MemoryRecord}

/-- What was committed is held, and is of the key. -/
structure Holds (key : Bytes) (x : LongtermState) (written : List MemoryRecord) : Prop where
  last : Rows.HoldsLast rowValue x.store.table (written.map MemoryRecord.write)
  own : ∀ r ∈ written, r.entityKey = key ∧ r.key ≠ ""

/-- A save is a guarded write, unless it has no key and does nothing. -/
theorem table_saved_cases (store : InMemoryMemoryStore) (record : MemoryRecord) :
    (store.saved record).table = store.table.put record.write ∨
      (store.saved record).table = store.table := by
  by_cases hkey : record.key = ""
  · refine .inr ?_
    simp only [InMemoryMemoryStore.saved, InMemoryMemoryStore.save, if_pos hkey]
  · exact .inl (InMemoryMemoryStore.table_saved hkey)

/-- What a bundle that succeeds leaves, and what it commits. -/
theorem bundleStep_eq {calls : List KeyCall} {attempts : List (ℕ × ℕ)}
    (h : d.bundleStep py hook serialize key x calls attempts = some (y, os)) :
    (∀ r ∈ (d.bundleSaves py hook serialize key x.key calls).records, r.key ≠ "") ∧
      y.store.table = x.store.table.putAll
        ((d.bundleSaves py hook serialize key x.key calls).records.map MemoryRecord.write) ∧
      os = (d.bundleSaves py hook serialize key x.key calls).committed := by
  unfold bundleStep at h
  dsimp only at h
  split at h
  · cases h
  split_ifs at h with hreturned
  cases h
  exact ⟨hreturned, savedAll_attempts hreturned, rfl⟩

/-- Each step that meets the condition keeps what was committed, and adds what it commits. -/
theorem Holds.step (h : Holds key x written) (hkept : d.Kept py hook serialize key x a)
    (hstep : (d.longtermMachine py hook serialize key).step x a y os) :
    Holds key y (written ++ os) := by
  cases a with
  | bundle calls attempts =>
    obtain ⟨hreturned, htable, rfl⟩ := bundleStep_eq hstep
    refine ⟨?_, ?_⟩
    · have hlast := h.last.putAll hkept
      rw [List.map_map] at hlast
      have hwrites : (d.bundleSaves py hook serialize key x.key calls).landed.map
            (Prod.snd ∘ fun m => (m.1, m.2.write)) =
          (d.bundleSaves py hook serialize key x.key calls).records.map MemoryRecord.write := by
        simp [Saves.records, List.map_map, Function.comp_def]
      have hcounted : Rows.counted ((d.bundleSaves py hook serialize key x.key calls).landed.map
            fun m => (m.1, m.2.write)) =
          (d.bundleSaves py hook serialize key x.key calls).committed.map MemoryRecord.write := by
        simp [Rows.counted, Saves.committed, List.filter_map, List.map_map, Function.comp_def]
      rw [hwrites, hcounted] at hlast
      rw [List.map_append, htable]
      exact hlast
    · intro r hr
      rcases List.mem_append.mp hr with hr | hr
      · exact h.own r hr
      · obtain ⟨m, hm, rfl⟩ := List.mem_map.mp hr
        have hlanded := (List.mem_filter.mp hm).1
        exact ⟨bundleSaves_entityKey calls m hlanded, hreturned _ (List.mem_map_of_mem hlanded)⟩
  | land record =>
    change (if record ∈ x.underWay then _ else none) = some (y, os) at hstep
    split_ifs at hstep
    cases hstep
    rw [List.append_nil]
    refine ⟨?_, h.own⟩
    rcases table_saved_cases x.store record with htable | htable <;> rw [htable]
    · exact h.last.put_harmless hkept
    · exact h.last
  | other record =>
    change (if record.entityKey ≠ key then _ else none) = some (y, os) at hstep
    split_ifs at hstep with hother
    cases hstep
    rw [List.append_nil]
    refine ⟨?_, h.own⟩
    rcases table_saved_cases x.store record with htable | htable <;> rw [htable]
    · refine h.last.put_other fun v hv heq => hother ?_
      obtain ⟨r, hr, rfl⟩ := List.mem_map.mp hv
      exact (congrArg Prod.fst heq).symm.trans (h.own r hr).1
    · exact h.last

/-- The rows that a store holds under the last committed values are read as these values. -/
theorem Holds.lastCommitted (h : Holds key x written) : LastCommitted x.store written := by
  intro entityKey k record hlast
  have hmem := List.mem_filter.mp (List.mem_of_getLast? hlast)
  have hkey : record.entityKey = entityKey ∧ record.key = k := by simpa using hmem.2
  have hne : k ≠ "" := hkey.2 ▸ (h.own record hmem.1).2
  have hwrite : Rows.lastTo (written.map MemoryRecord.write) (entityKey, k) =
      some record.write := by
    have hfilter : (written.map MemoryRecord.write).filter (fun w => w.key = (entityKey, k)) =
        (written.filter fun r => r.entityKey = entityKey ∧ r.key = k).map MemoryRecord.write := by
      rw [List.filter_map]
      congr 1
      refine List.filter_congr fun r _ => ?_
      simp [MemoryRecord.write]
    rw [Rows.lastTo, hfilter, List.getLast?_map, hlast]
    rfl
  obtain ⟨row, hrow, hvalue⟩ := h.last (entityKey, k) record.write hwrite
  refine ⟨decodeEnvelope entityKey row.2, ?_, hvalue⟩
  rw [InMemoryMemoryStore.load_eq _ _ hne, InMemoryMemoryStore.recordAt, hrow]
  rfl

/-- **The last committed value is held.** Whatever the store holds when the key is first seen,
through commits, failures, wipes with their flush, retried bundles and writes that come late: the
row of every long-term key holds the value that the last committed activation, or the last wipe,
wrote to it, in every run in which each such write finds a row of no higher `seq`, and no other
write changes a value that is there. -/
theorem run_lastCommitted (d : AgentDoFn) (py : PyLib) (hook : FlushToLongterm)
    (serialize : MemoryBlob → Bytes) (key : Bytes) {store : InMemoryMemoryStore}
    {actions : List LongtermAction} {written : List MemoryRecord} {x : LongtermState}
    (h : ((d.longtermMachine py hook serialize key).guarded
      (d.Kept py hook serialize key)).Run ⟨{}, store, []⟩ actions written x) :
    LastCommitted x.store written := by
  have hholds : Holds key x written := by
    refine h.invariant (I := fun _ written x => Holds key x written) ⟨.nil, by simp⟩ ?_
    intro _ _ t a u o _ ih hstep
    exact ih.step hstep.1 hstep.2
  exact hholds.lastCommitted

end Law

/-! ### Two runs -/

/-- An agent that keeps the last event in both memories, demoted when its key expires. -/
def recordingAgent : AgentDoFn where
  agent := .read fun ctx => .perform (.memorySet "last" ctx.events.flatten) fun _ =>
    .perform (.longtermSave "a" ctx.events.flatten) fun _ => .ret .complete
  longterm := true
  onExpire := true

/-- The values of a blob, one after the other. -/
def serializeValues (blob : MemoryBlob) : Bytes := blob.entries.flatMap MemoryEntry.value

/-- A step that meets the condition. -/
def keptStep (d : AgentDoFn) (py : PyLib) (hook : FlushToLongterm) (serialize : MemoryBlob → Bytes)
    (key : Bytes) (x : LongtermState) (a : LongtermAction) :
    Option (LongtermState × List MemoryRecord) :=
  if d.Kept py hook serialize key x a then d.longtermStep py hook serialize key x a else none

theorem keptStep_step {d : AgentDoFn} {py : PyLib} {hook : FlushToLongterm}
    {serialize : MemoryBlob → Bytes} {key : Bytes} {x y : LongtermState} {a : LongtermAction}
    {os : List MemoryRecord} (h : d.keptStep py hook serialize key x a = some (y, os)) :
    ((d.longtermMachine py hook serialize key).guarded (d.Kept py hook serialize key)).step
      x a y os := by
  unfold keptStep at h
  split_ifs at h with hkept
  exact ⟨hkept, h⟩

/-- Two attempts of the first bundle fail, one with its write under way, which comes after the
second event; the wipe is retried once. The rows hold what was last committed. -/
theorem run_lastCommitted_retried : ∃ written x,
    ((recordingAgent.longtermMachine (.ofTable []) {} serializeValues [107]).guarded
      (recordingAgent.Kept (.ofTable []) {} serializeValues [107])).Run ⟨{}, {}, []⟩
      [.bundle [eventAt 1000 1] [(1, 0), (0, 1)], .bundle [eventAt 2000 2] [],
        .land ⟨[107], "a", [1], 0, 1000⟩, .bundle [.onTtl 9000000000 quietWorld] [(1, 0)]]
      written x ∧
    written = [⟨[107], "a", [1], 0, 1000⟩, ⟨[107], "a", [2], 1, 2000⟩,
      ⟨[107], "working_memory", [0, 2], 2, 9000000⟩] ∧
    LastCommitted x.store written := by
  have hexec : (Machine.exec (recordingAgent.keptStep (.ofTable []) {} serializeValues [107])
      ⟨{}, {}, []⟩
      [.bundle [eventAt 1000 1] [(1, 0), (0, 1)], .bundle [eventAt 2000 2] [],
        .land ⟨[107], "a", [1], 0, 1000⟩, .bundle [.onTtl 9000000000 quietWorld] [(1, 0)]]).map
      Prod.fst = some [⟨[107], "a", [1], 0, 1000⟩, ⟨[107], "a", [2], 1, 2000⟩,
        ⟨[107], "working_memory", [0, 2], 2, 9000000⟩] := by decide
  obtain ⟨⟨written, x⟩, hx, rfl⟩ := Option.map_eq_some_iff.mp hexec
  have hrun := Machine.Run.of_exec (fun _ _ => keptStep_step) hx
  exact ⟨_, x, hrun, rfl, run_lastCommitted _ _ _ _ _ hrun⟩

/-- The counter starts again after the wipe, and the row of the first life wins over the write of
the second one: the last value committed under `a` is `3`, and the row holds `2`. -/
theorem last_committed_discarded : ∃ written x,
    (recordingAgent.longtermMachine (.ofTable []) {} serializeValues [107]).Run ⟨{}, {}, []⟩
      [.bundle [eventAt 1000 1] [], .bundle [eventAt 2000 2] [],
        .bundle [.onTtl 9000000000 quietWorld] [], .bundle [eventAt 9500000 3] []] written x ∧
    written.getLast? = some ⟨[107], "a", [3], 0, 9500000⟩ ∧
    x.store.load [107] "a" = .ok (some ⟨[107], "a", [2], 1, 2000⟩) ∧
    ¬ LastCommitted x.store written := by
  have hexec : (Machine.exec (recordingAgent.longtermStep (.ofTable []) {} serializeValues [107])
      ⟨{}, {}, []⟩ [.bundle [eventAt 1000 1] [], .bundle [eventAt 2000 2] [],
        .bundle [.onTtl 9000000000 quietWorld] [], .bundle [eventAt 9500000 3] []]).map
      (fun r => (r.1, (r.2.store.load [107] "a").toOption)) =
      some ([⟨[107], "a", [1], 0, 1000⟩, ⟨[107], "a", [2], 1, 2000⟩,
        ⟨[107], "working_memory", [0, 2], 2, 9000000⟩, ⟨[107], "a", [3], 0, 9500000⟩],
        some (some ⟨[107], "a", [2], 1, 2000⟩)) := by decide
  obtain ⟨⟨written, x⟩, hx, heq⟩ := Option.map_eq_some_iff.mp hexec
  obtain ⟨rfl, hload⟩ := Prod.mk.inj heq
  have hrow : x.store.load [107] "a" = .ok (some ⟨[107], "a", [2], 1, 2000⟩) := by
    cases h : x.store.load [107] "a" with
    | error e => rw [h] at hload; cases hload
    | ok row => rw [h] at hload; cases hload; rfl
  refine ⟨_, x, Machine.Run.of_exec (fun _ _ h => h) hx, rfl, hrow, fun hlast => ?_⟩
  obtain ⟨row, hread, hvalue⟩ := hlast [107] "a" ⟨[107], "a", [3], 0, 9500000⟩ (by decide)
  rw [hrow] at hread
  cases hread
  exact absurd hvalue (by decide)

end AgentDoFn

end BeamAgents
