import BeamAgents.Console.Derived
import BeamAgents.Transition.Machine

/-!
# Roll-ups over whole runs

A write recomputes the roll-ups of the keys that the records of its batch carry. Merging a copy into
a stored event can change an event of an activation that the batch does not name: the copy may carry
no entity key, so that the event stays with the entity that it was stored under, or another `seq`,
which moves it to another activation. Pruning asks the stored records for the keys, and misses none.

## Main definitions

* `ConsoleDb.Covers`: a batch names the activations whose events it changes.
* `ConsoleDb.machine`: the database under writes and pruning.

## Main results

* `ConsoleDb.write_derived`, `ConsoleDb.pruneBefore_derived`: one call keeps the roll-ups up to
  date.
* `ConsoleDb.run_rebuilt`: in every run whose batches name what they change, the roll-ups are those
  that are rebuilt from the records.
-/

namespace BeamAgents

open Containers Transition

/-- What the roll-up of an activation reads of an event. -/
def StoredEvent.evidence (event : StoredEvent) : ActivationKey × Int × Provenance × Attributes :=
  (event.activation, event.startMs, event.provenance, event.attributes)

/-- What the rows of a batch make of an event, one after another. -/
def mergedEvent (stored : Option StoredEvent) (rows : List EventRow) : Option StoredEvent :=
  rows.foldl (fun stored row => some (mergeEvent stored row)) stored

namespace ConsoleDb

variable {readInt : String → Option Int} {py : PyLib} {db db' : ConsoleDb}
  {records : ConsoleRecords} {batch : RecordBatch SnapshotRow}

/-- **A batch names the activations whose events it changes.** An event that it delivers stays for
the roll-ups what it was, or is before and after in an activation that the batch names; and an error
under the id of one of its rows is of the same entity and `seq`. -/
structure Covers (py : PyLib) (records : ConsoleRecords) (batch : RecordBatch SnapshotRow) :
    Prop where
  events : ∀ key : EventKey,
    let stored := records.events.get? key
    let merged := mergedEvent stored (batch.events.filter fun row => row.key = key)
    merged.map StoredEvent.evidence = stored.map StoredEvent.evidence ∨
      (∀ event ∈ stored, event.activation ∈ touched batch) ∧
        ∀ event ∈ merged, event.activation ∈ touched batch
  errors : ∀ row ∈ batch.errors, ∀ stored ∈ records.errors.get? (errorId py row),
    stored.entityKey = row.entityKey ∧ stored.seq = row.seq

/-! ### What a write stores -/

theorem foldl_writeEvent (db : ConsoleDb) (rows : List EventRow) :
    (rows.foldl writeEvent db).rollups = db.rollups ∧
      (rows.foldl writeEvent db).records.errors = db.records.errors ∧
      ∀ key, (rows.foldl writeEvent db).records.events.get? key =
        mergedEvent (db.records.events.get? key) (rows.filter fun row => row.key = key) := by
  induction rows generalizing db with
  | nil => exact ⟨rfl, rfl, fun _ => rfl⟩
  | cons row rows ih =>
    obtain ⟨hrollups, herrors, hevents⟩ := ih (db.writeEvent row)
    refine ⟨hrollups, herrors, fun key => ?_⟩
    have hfirst : (db.writeEvent row).records.events.get? key =
        if key = row.key then some (mergeEvent (db.records.events.get? row.key) row)
        else db.records.events.get? key := SortedMap.get?_set row.key key _
    rw [List.foldl_cons, hevents key, hfirst]
    by_cases hkey : key = row.key
    · rw [if_pos hkey, List.filter_cons_of_pos (by simpa using hkey.symm), hkey]
      rfl
    · rw [if_neg hkey, List.filter_cons_of_neg (by simpa using Ne.symm hkey)]

theorem foldl_writeError (db : ConsoleDb) (rows : List ErrorRow) :
    (rows.foldl (writeError py) db).rollups = db.rollups ∧
      (rows.foldl (writeError py) db).records.events = db.records.events ∧
      (rows.foldl (writeError py) db).records.errors = writeErrors py db.records.errors rows := by
  induction rows generalizing db with
  | nil => exact ⟨rfl, rfl, rfl⟩
  | cons row rows ih => exact ih (db.writeError py row)

theorem foldl_writeSnapshot (db : ConsoleDb) (rows : List SnapshotRow) :
    (rows.foldl writeSnapshot db).rollups = db.rollups ∧
      (rows.foldl writeSnapshot db).records.events = db.records.events ∧
      (rows.foldl writeSnapshot db).records.errors = db.records.errors := by
  induction rows generalizing db with
  | nil => exact ⟨rfl, rfl, rfl⟩
  | cons row rows ih => exact ih (db.writeSnapshot row)

/-- What storing the records of a batch leaves. -/
theorem writeRecords_spec (db : ConsoleDb) (batch : RecordBatch SnapshotRow) :
    (writeRecords py db batch).rollups = db.rollups ∧
      (writeRecords py db batch).records.errors = writeErrors py db.records.errors batch.errors ∧
      ∀ key, (writeRecords py db batch).records.events.get? key =
        mergedEvent (db.records.events.get? key)
          (batch.events.filter fun row => row.key = key) := by
  obtain ⟨hrollups₁, herrors₁, hevents₁⟩ := foldl_writeEvent db batch.events
  obtain ⟨hrollups₂, hevents₂, herrors₂⟩ :=
    @foldl_writeError py (batch.events.foldl writeEvent db) batch.errors
  obtain ⟨hrollups₃, hevents₃, herrors₃⟩ := foldl_writeSnapshot
    (batch.errors.foldl (writeError py) (batch.events.foldl writeEvent db)) batch.snapshots
  refine ⟨hrollups₃.trans (hrollups₂.trans hrollups₁), ?_, fun key => ?_⟩
  · rw [writeRecords, herrors₃, herrors₂, herrors₁]
  · rw [writeRecords, hevents₃, hevents₂, hevents₁ key]

/-! ### What a write leaves as it was -/

/-- What the roll-ups of an activation read, from the evidence. -/
def readEvidence (activation : ActivationKey)
    (evidence : ActivationKey × Int × Provenance × Attributes) :
    Option (Int × Provenance × Attributes) :=
  if evidence.1 = activation then some evidence.2 else none

theorem readEvents_eq (records : ConsoleRecords) (activation : ActivationKey) :
    readEvents records activation =
      (((records.events.filterMap fun event =>
        readEvidence activation event.evidence).entries.map fun p =>
          (⟨p.1, p.2.1, p.2.2.1, p.2.2.2⟩ : ReadEvent)).insertionSort
            fun a b => a.order ≤ b.order) := by
  rw [readEvents, SortedMap.filterMap, List.map_filterMap, ← List.filterMap_eq_filter,
    List.map_filterMap]
  congr 1
  refine List.filterMap_congr fun p _ => ?_
  by_cases hp : p.2.activation = activation <;>
    simp [readEvidence, StoredEvent.evidence, hp, Option.guard]

/-- The activations that a batch does not name keep their events. -/
theorem readEvents_writeRecords (h : Covers py db.records batch) {activation : ActivationKey}
    (hactivation : activation ∉ touched batch) :
    readEvents (writeRecords py db batch).records activation =
      readEvents db.records activation := by
  have hsame : ((writeRecords py db batch).records.events.filterMap fun event =>
      readEvidence activation event.evidence) =
        db.records.events.filterMap fun event => readEvidence activation event.evidence := by
    refine SortedMap.ext_get? fun key => ?_
    rw [SortedMap.get?_filterMap, SortedMap.get?_filterMap, (writeRecords_spec db batch).2.2 key]
    have hnone {event : StoredEvent} (hevent : event.activation ∈ touched batch) :
        readEvidence activation event.evidence = none :=
      if_neg fun heq : event.activation = activation => hactivation (heq ▸ hevent)
    rcases h.events key with heq | ⟨hstored, hmerged⟩
    · have hbind := congrArg (Option.bind · (readEvidence activation)) heq
      rwa [Option.bind_map, Option.bind_map] at hbind
    · rw [Option.bind_eq_none_iff.mpr fun event hevent => hnone (hmerged event hevent),
        Option.bind_eq_none_iff.mpr fun event hevent => hnone (hstored event hevent)]
  rw [readEvents_eq, readEvents_eq, hsame]

/-- The traces that a batch does not name keep their events. -/
theorem traceEvents_writeRecords {traceId : String}
    (htrace : traceId ∉ batch.events.map EventRow.traceId) :
    traceEvents (writeRecords py db batch).records traceId = traceEvents db.records traceId := by
  have hsame : (writeRecords py db batch).records.events.restrict
      (fun key _ => decide (key.traceId = traceId)) =
        db.records.events.restrict fun key _ => decide (key.traceId = traceId) := by
    refine SortedMap.ext_get? fun key => ?_
    rw [SortedMap.get?_restrict, SortedMap.get?_restrict, (writeRecords_spec db batch).2.2 key]
    by_cases hkey : key.traceId = traceId
    · have hrows : (batch.events.filter fun row => row.key = key) = [] :=
        List.filter_eq_nil_iff.mpr fun row hrow heq => htrace <| List.mem_map.mpr
          ⟨row, hrow, (congrArg EventKey.traceId (of_decide_eq_true heq)).trans hkey⟩
      rw [hrows]
      rfl
    · simp [hkey]
  exact congrArg SortedMap.entries hsame

/-- Rows that no test of a table sees leave what it sees as it was. -/
theorem filter_writeErrors {table : ErrorTable} {rows : List ErrorRow} {p : ErrorRow → Bool}
    (hp : ∀ row provenance, p { row with provenance } = p row) (hrows : ∀ row ∈ rows, p row = false)
    (hstored : ∀ row ∈ rows, ∀ stored ∈ table.get? (errorId py row), p stored = false) :
    (writeErrors py table rows).values.filter p = table.values.filter p := by
  induction rows generalizing table with
  | nil => rfl
  | cons row rows ih =>
    have hrow := hrows row List.mem_cons_self
    have hfirst := hstored row List.mem_cons_self
    -- The upsert stores a row that the test does not see in the place of one that it did not see.
    have hupsert : ∃ stored, p stored = false ∧
        upsertError py table row = table.set (errorId py row) stored := by
      unfold upsertError
      cases hget : table.get? (errorId py row) with
      | none => exact ⟨row, hrow, rfl⟩
      | some stored => exact ⟨_, (hp stored _).trans (hfirst stored hget), rfl⟩
    obtain ⟨stored, hseen, hset⟩ := hupsert
    rw [writeErrors, List.foldl_cons, ← writeErrors, hset, ih, Dict.filter_values_set hseen hfirst]
    · exact fun row' hrow' => hrows row' (List.mem_cons_of_mem _ hrow')
    · intro row' hrow' held hheld
      rw [Dict.get?_set] at hheld
      split_ifs at hheld with hid
      · exact Option.some.inj hheld ▸ hseen
      · exact hstored row' (List.mem_cons_of_mem _ hrow') held hheld

/-- The activations that a batch does not name keep their errors. -/
theorem readErrors_writeRecords (h : Covers py db.records batch) {activation : ActivationKey}
    (hactivation : activation ∉ touched batch) :
    readErrors (writeRecords py db batch).records activation =
      readErrors db.records activation := by
  have hrow {row : ErrorRow} (hmem : row ∈ batch.errors) {row' : ErrorRow}
      (hentity : row'.entityKey = row.entityKey) (hseq : row'.seq = row.seq) :
      decide (row'.activation = some activation) = false := by
    refine decide_eq_false fun heq => hactivation (List.mem_dedup.mpr (List.mem_append_right _
      (List.mem_filterMap.mpr ⟨row, hmem, ?_⟩)))
    rw [← heq, ErrorRow.activation, ErrorRow.activation, hentity, hseq]
  rw [readErrors, readErrors, (writeRecords_spec db batch).2.1,
    filter_writeErrors (fun _ _ => rfl) (fun row hmem => hrow hmem rfl rfl)
      fun row hmem stored hstored =>
        hrow hmem (h.errors row hmem stored hstored).1 (h.errors row hmem stored hstored).2]

/-- The entities that a batch does not name keep their errors. -/
theorem entityErrors_writeRecords (h : Covers py db.records batch) {entityKey : String}
    (hentity : entityKey ∉ batch.errors.map ErrorRow.entityKey) :
    ((writeRecords py db batch).records.errors.values.filter fun row => row.entityKey = entityKey) =
      db.records.errors.values.filter fun row => row.entityKey = entityKey := by
  have hrow {row : ErrorRow} (hmem : row ∈ batch.errors) {row' : ErrorRow}
      (heq : row'.entityKey = row.entityKey) : decide (row'.entityKey = entityKey) = false :=
    decide_eq_false fun hkey => hentity (List.mem_map.mpr ⟨row, hmem, heq.symm.trans hkey⟩)
  rw [(writeRecords_spec db batch).2.1, filter_writeErrors (fun _ _ => rfl)
    (fun row hmem => hrow hmem rfl) fun row hmem stored hstored =>
      hrow hmem (h.errors row hmem stored hstored).1]

/-! ### Single calls -/

/-- **A write that names what it changes keeps the roll-ups up to date.** -/
theorem write_derived (h : Derived readInt py db.records db.rollups)
    (hcovers : Covers py db.records batch) :
    Derived readInt py (db.write readInt py batch).1.records
      (db.write readInt py batch).1.rollups := by
  rw [write]
  split_ifs
  · have hbefore : Derived readInt py db.records (writeRecords py db batch).rollups := by
      rwa [(writeRecords_spec db batch).1]
    refine recompute_derived hbefore ?_ ?_ ?_
    · exact fun k hk => ⟨readEvents_writeRecords hcovers hk, readErrors_writeRecords hcovers hk⟩
    · exact fun k hk => traceEvents_writeRecords fun hmem => hk (List.mem_dedup.mpr hmem)
    · intro k hk
      rw [List.mem_dedup, List.mem_append, not_or] at hk
      exact ⟨fun a ha heq => hk.1 (List.mem_map.mpr ⟨a, ha, heq⟩),
        entityErrors_writeRecords hcovers hk.2⟩
  · exact h

theorem filter_restrict {κ ν : Type} [LinearOrder κ] {table : SortedMap κ ν} {keep : κ → ν → Bool}
    {p : κ × ν → Bool} (h : ∀ e ∈ table.entries, p e = true → keep e.1 e.2 = true) :
    (table.restrict keep).entries.filter p = table.entries.filter p := by
  rw [SortedMap.restrict, List.filter_filter]
  refine List.filter_congr fun e he => ?_
  cases hp : p e with
  | false => rfl
  | true => rw [h e he hp]; rfl

theorem filter_keepErrors {table : ErrorTable} {keep p : ErrorRow → Bool}
    (h : ∀ row ∈ table.values, p row = true → keep row = true) :
    (keepErrors table keep).values.filter p = table.values.filter p := by
  have hvalues : (keepErrors table keep).values = table.values.filter keep :=
    List.filter_map.symm
  rw [hvalues, List.filter_filter]
  refine List.filter_congr fun row hrow => ?_
  cases hp : p row with
  | false => rfl
  | true => rw [h row hrow hp]; rfl

/-- **Pruning keeps the roll-ups up to date.** -/
theorem pruneBefore_derived (h : Derived readInt py db.records db.rollups) (cutoffMs : Int) :
    Derived readInt py (db.pruneBefore readInt py cutoffMs).records
      (db.pruneBefore readInt py cutoffMs).rollups := by
  have hbefore : Derived readInt py db.records (db.pruneRecords cutoffMs).rollups := h
  refine recompute_derived hbefore (fun k hk => ⟨?_, ?_⟩)
    (fun k hk => ?_) (fun k hk => ⟨fun a ha heq => hk ?_, ?_⟩)
  · rw [readEvents, readEvents, pruneRecords, filter_restrict fun p hp heq => ?_]
    refine decide_eq_true fun hstart => hk (List.mem_dedup.mpr (List.mem_append_left _
      (List.mem_map.mpr ⟨p, List.mem_filter.mpr ⟨hp, decide_eq_true hstart⟩, ?_⟩)))
    exact of_decide_eq_true heq
  · rw [readErrors, readErrors, pruneRecords, filter_keepErrors fun row hrow heq => ?_]
    refine decide_eq_true fun htime => hk (List.mem_dedup.mpr (List.mem_append_right _
      (List.mem_filterMap.mpr ⟨row, List.mem_filter.mpr ⟨hrow, decide_eq_true htime⟩, ?_⟩)))
    exact of_decide_eq_true heq
  · rw [traceEvents, traceEvents, pruneRecords, filter_restrict fun p hp heq => ?_]
    refine decide_eq_true fun hstart => hk (List.mem_dedup.mpr
      (List.mem_map.mpr ⟨p, List.mem_filter.mpr ⟨hp, decide_eq_true hstart⟩, ?_⟩))
    exact of_decide_eq_true heq
  · exact List.mem_dedup.mpr (List.mem_append_left _ (List.mem_map.mpr ⟨a, ha, heq⟩))
  · rw [pruneRecords, filter_keepErrors fun row hrow heq => ?_]
    refine decide_eq_true fun htime => hk (List.mem_dedup.mpr (List.mem_append_right _
      (List.mem_map.mpr ⟨row, List.mem_filter.mpr ⟨hrow, decide_eq_true htime⟩, ?_⟩)))
    exact of_decide_eq_true heq

/-! ### Runs -/

/-- The calls on a store that change it. -/
inductive ConsoleAct
  | write (batch : RecordBatch SnapshotRow)
  | prune (nowMs : Int)

/-- A call, and what it returns. -/
def perform (readInt : String → Option Int) (py : PyLib) (retentionMs : Option Int)
    (db : ConsoleDb) : ConsoleAct → ConsoleDb × List ℕ
  | .write batch => ((db.write readInt py batch).1, [(db.write readInt py batch).2])
  | .prune nowMs => ((db.prune readInt py retentionMs nowMs).1,
      [(db.prune readInt py retentionMs nowMs).2])

/-- The database under writes and pruning; the outputs are what the calls return. -/
def machine (readInt : String → Option Int) (py : PyLib) (retentionMs : Option Int) :
    Machine ConsoleDb ConsoleAct ℕ where
  step db act db' counts := db.perform readInt py retentionMs act = (db', counts)

/-- A call whose batch, if it has one, names the activations whose events it changes. -/
def Names (py : PyLib) (db : ConsoleDb) : ConsoleAct → Prop
  | .write batch => Covers py db.records batch
  | .prune _ => True

/-- One call keeps the roll-ups up to date. -/
theorem perform_derived {retentionMs : Option Int} {act : ConsoleAct}
    (h : Derived readInt py db.records db.rollups) (hnames : Names py db act) :
    Derived readInt py (db.perform readInt py retentionMs act).1.records
      (db.perform readInt py retentionMs act).1.rollups := by
  cases act with
  | write batch => exact write_derived h hnames
  | prune nowMs =>
    cases retentionMs with
    | none => exact h
    | some retention => exact pruneBefore_derived h (nowMs - retention)

/-- **Roll-ups are derived data.** In every run of writes and pruning whose batches name the
activations whose events they change, the roll-ups are those that are rebuilt from the records. -/
theorem run_rebuilt {retentionMs : Option Int} {acts : List ConsoleAct} {counts : List ℕ}
    (h : ((machine readInt py retentionMs).guarded (Names py)).Run empty acts counts db) :
    db.rollups = rebuilt readInt py db.records := by
  refine derived_iff.mp (h.stateInvariant (I := fun db => Derived readInt py db.records db.rollups)
    derived_empty ?_)
  rintro t act u counts ht ⟨hnames, hstep⟩
  have hu : Derived readInt py (t.perform readInt py retentionMs act).1.records
      (t.perform readInt py retentionMs act).1.rollups := perform_derived ht hnames
  rwa [hstep] at hu

/-- A batch of one event. -/
def batchOf (row : EventRow) : RecordBatch SnapshotRow := ⟨[row], [], []⟩

/-- The first delivery of an event names its activation. -/
theorem covers_first {row : EventRow} (h : records.events.get? row.key = none) :
    Covers py records (batchOf row) where
  events key := by
    by_cases hkey : row.key = key
    · have hrows : (batchOf row).events.filter (fun row' => row'.key = row.key) = [row] := by
        simp [batchOf]
      rw [← hkey, h, hrows]
      refine .inr ⟨nofun, fun event hevent => ?_⟩
      obtain rfl := Option.some.inj hevent
      exact List.mem_dedup.mpr List.mem_cons_self
    · have hrows : (batchOf row).events.filter (fun row' => row'.key = key) = [] := by
        simpa [batchOf] using hkey
      rw [hrows]
      exact .inl rfl
  errors := nofun

/-- A call of a model, as a native path delivers it. -/
def callRow : EventRow where
  traceId := "01"
  spanId := "02"
  parentSpanId := ""
  entityKey := "aa"
  seq := 5
  stepIndex := 0
  eventType := "LLM_CALL"
  startMs := 1000
  endMs := 1000
  attributes := .empty
  provenance := .native

/-- The same call, as a span carries it. -/
def callCopy : EventRow := { callRow with entityKey := "", seq := 0, provenance := .otlp }

/-- The call is written, and pruned an hour later. -/
theorem run_rebuilt_pruned :
    let py := PyLib.ofTable []
    ∃ db, ((machine (fun _ => none) py (some 3600000)).guarded (Names py)).Run empty
        [.write (batchOf callRow), .prune 3601001] [5, 5] db ∧
      db.rollups = rebuilt (fun _ => none) py db.records := by
  intro py
  let written := (empty.write (fun _ => none) py (batchOf callRow)).1
  have hwrite : (machine (fun _ => none) py (some 3600000)).step empty (.write (batchOf callRow))
      written [5] := Prod.ext rfl (by decide +kernel)
  have hprune : (machine (fun _ => none) py (some 3600000)).step written (.prune 3601001)
      (written.prune (fun _ => none) py (some 3600000) 3601001).1 [5] :=
    Prod.ext rfl (by decide +kernel)
  have hnames : Names py empty (.write (batchOf callRow)) := covers_first rfl
  have hlast : Names py written (.prune 3601001) := trivial
  have hrun := (Machine.Run.single (M := (machine (fun _ => none) py (some 3600000)).guarded
    (Names py)) ⟨hnames, hwrite⟩).tail ⟨hlast, hprune⟩
  exact ⟨_, hrun, run_rebuilt hrun⟩

/-- When a span of an event that is stored already is written, the event moves to the first
activation of its entity, and the roll-up of the activation that it was in is left behind. -/
theorem copy_leaves_rollup :
    let py := PyLib.ofTable []
    ∃ db, (machine (fun _ => none) py none).Run empty
        [.write (batchOf callRow), .write (batchOf callCopy)] [5, 3] db ∧
      db.rollups ≠ rebuilt (fun _ => none) py db.records := by
  intro py
  let first := (empty.write (fun _ => none) py (batchOf callRow)).1
  let second := (first.write (fun _ => none) py (batchOf callCopy)).1
  have hfirst : (machine (fun _ => none) py none).step empty (.write (batchOf callRow)) first [5] :=
    Prod.ext rfl (by decide +kernel)
  have hsecond : (machine (fun _ => none) py none).step first (.write (batchOf callCopy)) second
      [3] := Prod.ext rfl (by decide +kernel)
  refine ⟨second, (Machine.Run.single hfirst).tail hsecond, fun heq => ?_⟩
  have hheld : (second.rollups.activations.get? ⟨"aa", 5⟩).isSome = true := by decide +kernel
  have hgone : ((rebuilt (fun _ => none) py second.records).activations.get? ⟨"aa", 5⟩).isSome =
      false := by decide +kernel
  rw [heq, hgone] at hheld
  cases hheld

end ConsoleDb

end BeamAgents
