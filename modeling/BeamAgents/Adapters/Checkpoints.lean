import BeamAgents.Adapters.CheckpointSaver
import BeamAgents.Containers.Recency
import BeamAgents.Transition.Machine
import BeamAgents.Wire.Delimited
import Mathlib.Data.Set.List
import Mathlib.Data.String.Basic

/-!
# The checkpoint that a saver serves

The two scalars of a saver stand for the checkpoint that was put last and for the writes that were
recorded for each checkpoint id, one for a task and an index. Putting a checkpoint drops the writes
of every other id. The namespace of a checkpoint is stored and returned with it, and never compared
with the one that is asked for: a checkpoint put by a subgraph is served to the graph around it.

## Main definitions

* `SaverRef`: the checkpoint that was put last, and the writes recorded.
* `SaverRef.Serves`: what the saver answers of them.
* `CheckpointSaver.Represents`: the two scalars stand for them.
* `CheckpointSaver.machine`: the calls of the activations of a key, each on the memory that the last
  one to succeed has left.

## Main results

* `CheckpointSaver.getTuple_serves`, `CheckpointSaver.put_represents`,
  `CheckpointSaver.putWrites_represents`: the calls of the saver.
* `CheckpointSaver.run_serves`: the answers in every run.
-/

namespace BeamAgents

open Containers Transition

/-! ### Checkpoints and their writes -/

/-- A write of a task, without the key it is recorded under. -/
structure PendingWrite (ν : Type) where
  channel : String
  value : ν
  taskPath : String
  deriving DecidableEq, Repr

/-- What a saver is asked to keep: the checkpoint put last, with its namespace and its metadata, and
the writes of each checkpoint id, by task and index. -/
structure SaverRef (γ μ ν : Type) where
  latest : Option (String × Checkpoint γ × μ)
  writes : String → String × Int → Option (PendingWrite ν)

/-- The order of tasks and indexes. -/
def taskLt (a b : String × Int) : Prop := a.1 < b.1 ∨ a.1 = b.1 ∧ a.2 < b.2

namespace SaverRef

variable {γ μ ν : Type}

/-- Before the first call. -/
def empty : SaverRef γ μ ν := ⟨none, fun _ _ => none⟩

/-- A checkpoint that is put takes the place of the last, and the writes of the other ids go. -/
def put (ref : SaverRef γ μ ν) (config : RunnableConfig) (checkpoint : Checkpoint γ)
    (metadata : μ) : SaverRef γ μ ν where
  latest := some (config.checkpointNs.getD "", checkpoint, metadata)
  writes id := if id = checkpoint.id then ref.writes id else fun _ => none

/-- A write is recorded in the place of an earlier one of its task and index. -/
def record (ref : SaverRef γ μ ν) (id : String) (key : String × Int) (write : PendingWrite ν) :
    SaverRef γ μ ν where
  latest := ref.latest
  writes := Function.update ref.writes id (Function.update (ref.writes id) key (some write))

/-- The writes of a task are recorded one after the other. -/
def putWrites (writesIdxMap : String → Option Int) (ref : SaverRef γ μ ν) (config : RunnableConfig)
    (writes : List (String × ν)) (taskId taskPath : String) : SaverRef γ μ ν :=
  match config.checkpointId with
  | none => ref
  | some id => writes.zipIdx.foldl (fun ref write => ref.record id
      (taskId, (writesIdxMap write.1.1).getD write.2) ⟨write.1.1, write.1.2, taskPath⟩) ref

/-- **What the saver answers**: nothing when nothing was put or another id is asked for, and else
the checkpoint put last, under its own namespace, with the writes recorded for its id, in order. -/
def Serves (ref : SaverRef γ μ ν) (config : RunnableConfig) :
    Option (CheckpointTuple γ μ ν) → Prop
  | none => ∀ ns checkpoint metadata, ref.latest = some (ns, checkpoint, metadata) →
      config.checkpointId.getD "" ≠ "" ∧ config.checkpointId.getD "" ≠ checkpoint.id
  | some tuple => ∃ ns, ref.latest = some (ns, tuple.checkpoint, tuple.metadata) ∧
      (config.checkpointId.getD "" = "" ∨ config.checkpointId.getD "" = tuple.checkpoint.id) ∧
      tuple.config = ⟨config.threadId, some ns, some tuple.checkpoint.id⟩ ∧
      tuple.parentConfig = none ∧
      ∃ rows : List ((String × Int) × PendingWrite ν),
        (rows.map Prod.fst).Pairwise taskLt ∧
        (∀ key write, (key, write) ∈ rows ↔ ref.writes tuple.checkpoint.id key = some write) ∧
        tuple.pendingWrites = rows.map fun row => (row.1.1, row.2.channel, row.2.value)

end SaverRef

namespace CheckpointSaver

variable {γ μ ν : Type} {saver : CheckpointSaver γ μ ν} {py : PyLib} {compactor : Option Compactor}
  {m m' : Memory} {ref : SaverRef γ μ ν} {rows : List WriteRow} {id : String}
  {key : String × Int} {write write' : PendingWrite ν}

/-! ### Rows -/

variable (saver) in
/-- The row that a write is stored as. -/
def rowOf (id : String) (key : String × Int) (write : PendingWrite ν) : WriteRow where
  taskId := key.1
  idx := key.2
  channel := write.channel
  tagged := saver.serde.value.dumpsTyped write.value
  taskPath := write.taskPath
  checkpointId := id

theorem rowOf_injective (h : saver.serde.value.RoundTrips) (id : String) (key : String × Int) :
    Function.Injective (saver.rowOf id key) := by
  rintro ⟨channel, value, taskPath⟩ ⟨channel', value', taskPath'⟩ heq
  obtain ⟨-, -, hchannel, htagged, hpath, -⟩ := WriteRow.mk.inj heq
  have hvalue : Except.ok (ε := PyExn) value = .ok value' :=
    (h value).symm.trans ((congrArg _ htagged).trans (h value'))
  cases hvalue
  exact congrArg₂ (fun channel taskPath => PendingWrite.mk channel value taskPath) hchannel hpath

/-- Rows are loaded to the writes they were stored as. -/
theorem mapM_loadWrite (h : saver.serde.value.RoundTrips) (id : String)
    (entries : List ((String × Int) × PendingWrite ν)) :
    (entries.map fun e => saver.rowOf id e.1 e.2).mapM saver.loadWrite =
      .ok (entries.map fun e => (e.1.1, e.2.channel, e.2.value)) := by
  induction entries with
  | nil => rfl
  | cons e entries ih =>
    have hload : saver.loadWrite (saver.rowOf id e.1 e.2) =
        .ok (e.1.1, e.2.channel, e.2.value) := by
      rw [loadWrite, rowOf, h]
      rfl
    rw [List.map_cons, List.mapM_cons, hload, ih]
    rfl

instance : Std.Total WriteRow.Le where
  total a b := by
    rcases lt_trichotomy a.taskId b.taskId with h | h | h
    · exact .inl (.inl h)
    · rcases le_total a.idx b.idx with hidx | hidx
      · exact .inl (.inr ⟨h, hidx⟩)
      · exact .inr (.inr ⟨h.symm, hidx⟩)
    · exact .inr (.inl h)

instance : IsTrans WriteRow WriteRow.Le where
  trans a b c := by
    rintro (hab | ⟨hab, hidx⟩) (hbc | ⟨hbc, hidx'⟩)
    · exact .inl (hab.trans hbc)
    · exact .inl (hbc ▸ hab)
    · exact .inl (hab ▸ hbc)
    · exact .inr ⟨hab.trans hbc, hidx.trans hidx'⟩

/-- Rows of different tasks or indexes are sorted strictly. -/
theorem pairwise_sorted (h : (rows.map fun row => (row.taskId, row.idx)).Nodup) :
    ((rows.insertionSort WriteRow.Le).map fun row => (row.taskId, row.idx)).Pairwise taskLt := by
  have hnodup : ((rows.insertionSort WriteRow.Le).map fun row => (row.taskId, row.idx)).Nodup :=
    ((List.perm_insertionSort _ _).map _).nodup_iff.mpr h
  rw [List.pairwise_map]
  refine ((List.pairwise_insertionSort WriteRow.Le rows).and (List.pairwise_map.mp hnodup)).imp ?_
  rintro a b ⟨hlt | ⟨htask, hidx⟩, hne⟩
  · exact .inl hlt
  · exact .inr ⟨htask, lt_of_le_of_ne hidx fun heq => hne (Prod.ext htask heq)⟩

/-! ### Rows by their keys -/

/-- The rows stand for the writes recorded. -/
def Indexed (saver : CheckpointSaver γ μ ν) (d : Dict (String × String × Int) WriteRow)
    (writes : String → String × Int → Option (PendingWrite ν)) : Prop :=
  ∀ id key, d.get? (id, key) = (writes id key).map (saver.rowOf id key)

variable {d : Dict (String × String × Int) WriteRow}
  {writes : String → String × Int → Option (PendingWrite ν)} {row : WriteRow}

/-- A row that is stored is that of a write. -/
theorem Indexed.exists_write (h : saver.Indexed d writes) {k : String × String × Int}
    (hmem : (k, row) ∈ d.items) :
    ∃ write, writes k.1 k.2 = some write ∧ saver.rowOf k.1 k.2 write = row :=
  Option.map_eq_some_iff.mp ((h k.1 k.2).symm.trans (d.get?_eq_some_iff.mpr hmem))

theorem Indexed.key_eq (h : saver.Indexed d writes) {k : String × String × Int}
    (hmem : (k, row) ∈ d.items) : row.key = k := by
  obtain ⟨write, -, rfl⟩ := h.exists_write hmem
  rfl

/-- The rows of a write are stored. -/
theorem Indexed.mem_values_iff (h : saver.Indexed d writes) : row ∈ d.values ↔
    ∃ id key write, writes id key = some write ∧ row = saver.rowOf id key write := by
  constructor
  · intro hmem
    obtain ⟨⟨k, row⟩, hitem, rfl⟩ := List.mem_map.mp hmem
    obtain ⟨write, hwrite, hrow⟩ := h.exists_write hitem
    exact ⟨k.1, k.2, write, hwrite, hrow.symm⟩
  · rintro ⟨id, key, write, hwrite, rfl⟩
    have hget : d.get? (id, key) = some (saver.rowOf id key write) := by
      rw [h id key, hwrite]
      rfl
    exact List.mem_map_of_mem (d.get?_eq_some_iff.mp hget)

/-- The rows that are loaded are indexed again as they were. -/
theorem Indexed.byKey_values (h : saver.Indexed d writes) : byKey d.values = d := by
  have hitems : (d.values.map fun row => (row.key, row)) = d.items := by
    rw [Dict.values, List.map_map]
    refine (List.map_congr_left fun p hp => ?_).trans (List.map_id _)
    exact Prod.ext (h.key_eq hp) rfl
  exact Dict.ext ((congrArg (fun l => (Dict.ofList l).items) hitems).trans
    (Dict.items_ofList d.nodup))

/-- A row in the place of another records its write. -/
theorem Indexed.set (h : saver.Indexed d writes) (id : String) (key : String × Int)
    (write : PendingWrite ν) : saver.Indexed (d.set (id, key) (saver.rowOf id key write))
      (Function.update writes id (Function.update (writes id) key (some write))) := by
  intro id' key'
  rw [Dict.get?_set]
  by_cases hid : id' = id
  · subst hid
    rw [Function.update_self]
    by_cases hkey : key' = key
    · subst hkey
      rw [Function.update_self, if_pos rfl]
      rfl
    · rw [Function.update_of_ne hkey, if_neg fun heq => hkey (congrArg Prod.snd heq)]
      exact h id' key'
  · rw [Function.update_of_ne hid, if_neg fun heq => hid (congrArg Prod.fst heq)]
    exact h id' key'

/-- The rows of one checkpoint. -/
theorem Indexed.filter (h : saver.Indexed d writes) (id : String) :
    ∃ d' : Dict (String × String × Int) WriteRow,
      d'.values = d.values.filter (fun row => row.checkpointId = id) ∧
      saver.Indexed d' fun id' => if id' = id then writes id' else fun _ => none := by
  refine ⟨⟨d.items.filter fun p => p.1.1 = id, d.nodup.sublist (List.filter_sublist.map _)⟩,
    ?_, fun id' key => ?_⟩
  · rw [Dict.values, Dict.values, List.filter_map]
    refine congrArg (List.map Prod.snd) (List.filter_congr fun p hp => ?_)
    have hid : p.2.checkpointId = p.1.1 := congrArg Prod.fst (h.key_eq hp)
    rw [Function.comp_apply, hid]
  · have hget := Dict.lookup_filter_fst (fun k : String × String × Int => k.1 = id) d.items
      (id', key)
    rw [Dict.get?]
    refine hget.trans ?_
    beta_reduce
    by_cases hid : id' = id
    · rw [if_pos (decide_eq_true hid), if_pos hid]
      exact h id' key
    · rw [if_neg (by simpa using hid), if_neg hid]
      rfl

/-- **The rows of one checkpoint in order** are its writes, sorted by task and index. -/
theorem Indexed.sorted (h : saver.Indexed d writes) (hvalue : saver.serde.value.RoundTrips)
    (id : String) : ∃ entries : List ((String × Int) × PendingWrite ν),
      (d.values.filter fun row => row.checkpointId = id).insertionSort WriteRow.Le =
        entries.map (fun e => saver.rowOf id e.1 e.2) ∧
      (entries.map Prod.fst).Pairwise taskLt ∧
      ∀ key write, (key, write) ∈ entries ↔ writes id key = some write := by
  set sorted := (d.values.filter fun row => row.checkpointId = id).insertionSort WriteRow.Le
    with hsorted
  have hmem (row : WriteRow) : row ∈ sorted ↔
      ∃ key write, writes id key = some write ∧ row = saver.rowOf id key write := by
    rw [hsorted, List.mem_insertionSort, List.mem_filter, h.mem_values_iff]
    constructor
    · rintro ⟨⟨id', key, write, hwrite, rfl⟩, hid⟩
      obtain rfl : id' = id := of_decide_eq_true hid
      exact ⟨key, write, hwrite, rfl⟩
    · rintro ⟨key, write, hwrite, rfl⟩
      exact ⟨⟨id, key, write, hwrite, rfl⟩, decide_eq_true rfl⟩
  have hrows : sorted ∈ Set.range (List.map fun e : (String × Int) × PendingWrite ν =>
      saver.rowOf id e.1 e.2) := by
    rw [Set.range_list_map]
    intro row hrow
    obtain ⟨key, write, -, rfl⟩ := (hmem row).mp hrow
    exact ⟨(key, write), rfl⟩
  obtain ⟨entries, hentries⟩ := hrows
  refine ⟨entries, hentries.symm, ?_, fun key write => ?_⟩
  · have hkeys : (sorted.map fun row => (row.taskId, row.idx)) = entries.map Prod.fst := by
      rw [← hentries, List.map_map]
      rfl
    rw [← hkeys]
    refine pairwise_sorted ?_
    -- The rows of one checkpoint have different keys, since all rows do.
    have hnodup : (d.values.map WriteRow.key).Nodup := by
      have hkeys : d.values.map WriteRow.key = d.items.map Prod.fst := by
        rw [Dict.values, List.map_map]
        exact List.map_congr_left fun p hp => h.key_eq hp
      rw [hkeys]
      exact d.nodup
    refine List.Nodup.map_on ?_ ((List.Nodup.of_map _ hnodup).filter _)
    intro a ha b hb heq
    obtain ⟨ha, haid⟩ := List.mem_filter.mp ha
    obtain ⟨hb, hbid⟩ := List.mem_filter.mp hb
    refine List.inj_on_of_nodup_map hnodup ha hb (Prod.ext ?_ heq)
    exact (of_decide_eq_true haid).trans (of_decide_eq_true hbid).symm
  · have hentry : (key, write) ∈ entries ↔ saver.rowOf id key write ∈ sorted := by
      rw [← hentries, List.mem_map]
      constructor
      · exact fun hentry => ⟨_, hentry, rfl⟩
      · rintro ⟨⟨key', write'⟩, hentry, heq⟩
        obtain rfl : key' = key :=
          Prod.ext (congrArg WriteRow.taskId heq) (congrArg WriteRow.idx heq)
        obtain rfl : write' = write := rowOf_injective hvalue id key' heq
        exact hentry
    rw [hentry, hmem]
    constructor
    · rintro ⟨key', write', hwrite, heq⟩
      obtain rfl : key = key' :=
        Prod.ext (congrArg WriteRow.taskId heq) (congrArg WriteRow.idx heq)
      obtain rfl : write = write' := rowOf_injective hvalue id key heq
      exact hwrite
    · exact fun hwrite => ⟨key, write, hwrite, rfl⟩

/-! ### The two scalars -/

/-- The rows that are stored. -/
def Holds (saver : CheckpointSaver γ μ ν) (py : PyLib) (m : Memory) (rows : List WriteRow) : Prop :=
  ∃ stored : Option Bytes, m.valueOf writesKey = stored.map encodeScalar ∧
    match stored with
    | none => rows = []
    | some framed => frameTagged py (saver.serde.rows.dumpsTyped rows) = .ok framed

/-- The envelope of a checkpoint. -/
def envelopeOf (saver : CheckpointSaver γ μ ν) (latest : String × Checkpoint γ × μ) :
    CheckpointEnvelope where
  id := latest.2.1.id
  ns := latest.1
  checkpoint := saver.serde.checkpoint.dumpsTyped latest.2.1
  metadata := saver.serde.metadata.dumpsTyped latest.2.2

/-- **The scalars stand for** the checkpoint put last and the writes recorded. -/
structure Represents (saver : CheckpointSaver γ μ ν) (py : PyLib) (m : Memory)
    (ref : SaverRef γ μ ν) : Prop where
  latest : ∃ stored : Option Bytes, m.valueOf ckptKey = stored.map encodeScalar ∧
    match ref.latest with
    | none => stored = none
    | some latest => ∃ framed, stored = some framed ∧
        frameTagged py (saver.serde.envelope.dumpsTyped (saver.envelopeOf latest)) = .ok framed
  writes : ∃ d, saver.Holds py m d.values ∧ saver.Indexed d ref.writes

theorem startsWith_ckptKey : startsWith ckptKey langgraphNamespace = true := by decide +kernel

theorem startsWith_writesKey : startsWith writesKey langgraphNamespace = true := by decide +kernel

theorem ckptKey_ne_writesKey : ckptKey ≠ writesKey := by decide

/-- What the memory holds under other keys does not matter. -/
theorem Represents.congr (h : saver.Represents py m ref)
    (hckpt : m'.valueOf ckptKey = m.valueOf ckptKey)
    (hwrites : m'.valueOf writesKey = m.valueOf writesKey) : saver.Represents py m' ref := by
  obtain ⟨⟨stored, hstored, hlatest⟩, d, ⟨rows, hrows, hframed⟩, hd⟩ := h
  exact ⟨⟨stored, hckpt.trans hstored, hlatest⟩, d, ⟨rows, hwrites.trans hrows, hframed⟩, hd⟩

/-- What was framed is loaded. -/
theorem loads_of_frameTagged {α : Type} {serde : TypedSerde α} (hserde : serde.RoundTrips) {a : α}
    {framed : Bytes} (h : frameTagged py (serde.dumpsTyped a) = .ok framed) :
    loads py serde framed = .ok a := by
  rw [loads, unframeTagged_frameTagged h]
  exact hserde a

theorem allWrites_of_holds (hserde : saver.serde.RoundTrips) (h : saver.Holds py m rows) :
    ∃ m', saver.allWrites py m = (m', .ok rows) ∧ ∀ x, m'.valueOf x = m.valueOf x := by
  obtain ⟨stored, hstored, hframed⟩ := h
  obtain ⟨m', hget, hframe⟩ := Memory.get_of_valueOf py hstored
  refine ⟨m', ?_, hframe⟩
  rw [allWrites, hget]
  cases stored with
  | none =>
    obtain rfl := hframed
    rfl
  | some framed => exact Prod.ext rfl (loads_of_frameTagged hserde.rows hframed)

theorem storeWrites_holds (hkeeps : ∀ compact ∈ compactor, Keeps compact langgraphNamespace)
    (h : saver.storeWrites py compactor m rows = (m', none)) :
    saver.Holds py m' rows ∧ m'.valueOf ckptKey = m.valueOf ckptKey := by
  rw [storeWrites] at h
  cases hframed : frameTagged py (saver.serde.rows.dumpsTyped rows) with
  | error e =>
    rw [hframed] at h
    cases h
  | ok framed =>
    rw [hframed] at h
    refine ⟨⟨some framed, ?_, hframed⟩, ?_⟩
    · rw [Memory.valueOf_set hkeeps h startsWith_writesKey]
      exact if_pos rfl
    · rw [Memory.valueOf_set hkeeps h startsWith_ckptKey]
      exact if_neg ckptKey_ne_writesKey

/-! ### Calls -/

/-- **What the saver answers.** -/
theorem getTuple_serves (hserde : saver.serde.RoundTrips) (h : saver.Represents py m ref)
    (config : RunnableConfig) : ∃ m' answer, saver.getTuple py m config = (m', .ok answer) ∧
      ref.Serves config answer ∧ saver.Represents py m' ref := by
  obtain ⟨stored, hstored, hlatest⟩ := h.latest
  obtain ⟨m₁, hget, hframe⟩ := Memory.get_of_valueOf py hstored
  have h₁ : saver.Represents py m₁ ref := h.congr (hframe _) (hframe _)
  rw [getTuple, hget]
  cases hput : ref.latest with
  | none =>
    simp only [hput] at hlatest
    subst hlatest
    refine ⟨m₁, none, rfl, fun ns checkpoint metadata hsome => ?_, h₁⟩
    rw [hput] at hsome
    cases hsome
  | some latest =>
    obtain ⟨ns, checkpoint, metadata⟩ := latest
    simp only [hput] at hlatest
    obtain ⟨framed, rfl, hframed⟩ := hlatest
    simp only [loads_of_frameTagged hserde.envelope hframed]
    by_cases hother : config.checkpointId.getD "" ≠ "" ∧ config.checkpointId.getD "" ≠ checkpoint.id
    · refine ⟨m₁, none, if_pos hother, fun ns' checkpoint' metadata' hsome => ?_, h₁⟩
      rw [hput] at hsome
      cases hsome
      exact hother
    · obtain ⟨d, hholds, hindexed⟩ := h₁.writes
      obtain ⟨m₂, hall, hframe₂⟩ := allWrites_of_holds hserde hholds
      obtain ⟨entries, hentries, hsorted, hmem⟩ := hindexed.sorted hserde.value checkpoint.id
      have hwrites : saver.writesFor py m₁ checkpoint.id =
          (m₂, .ok (entries.map fun e => saver.rowOf checkpoint.id e.1 e.2)) := by
        rw [writesFor, hall, ← hentries]
      refine ⟨m₂, some {
          config := ⟨config.threadId, some ns, some checkpoint.id⟩
          checkpoint
          metadata
          pendingWrites := entries.map fun e => (e.1.1, e.2.channel, e.2.value) }, ?_, ?_,
        h₁.congr (hframe₂ _) (hframe₂ _)⟩
      · have hcheckpoint := hserde.checkpoint checkpoint
        have hmetadata := hserde.metadata metadata
        simp only [if_neg hother, envelopeOf, hcheckpoint, hmetadata, hwrites,
          mapM_loadWrite hserde.value]
        rfl
      · refine ⟨ns, hput, ?_, rfl, rfl, entries, hsorted, hmem, rfl⟩
        by_cases hempty : config.checkpointId.getD "" = ""
        · exact .inl hempty
        · exact .inr (not_not.mp fun hne => hother ⟨hempty, hne⟩)

/-- **A checkpoint that is put** takes the place of the last. -/
theorem put_represents (hserde : saver.serde.RoundTrips)
    (hkeeps : ∀ compact ∈ compactor, Keeps compact langgraphNamespace)
    (h : saver.Represents py m ref) {config stored : RunnableConfig} {checkpoint : Checkpoint γ}
    {metadata : μ} (hput : saver.put py compactor m config checkpoint metadata = (m', .ok stored)) :
    saver.Represents py m' (ref.put config checkpoint metadata) := by
  rw [put] at hput
  cases hframed : frameTagged py (saver.serde.envelope.dumpsTyped
      (saver.envelopeOf (config.checkpointNs.getD "", checkpoint, metadata))) with
  | error e =>
    simp only [envelopeOf] at hframed
    simp only [hframed] at hput
    cases hput
  | ok framed =>
    have hframed' := hframed
    simp only [envelopeOf] at hframed'
    simp only [hframed'] at hput
    cases hset : m.set py compactor ckptKey framed with
    | mk m₁ raised =>
      cases raised with
      | some e =>
        simp only [hset] at hput
        cases hput
      | none =>
        have hckpt₁ : m₁.valueOf ckptKey = some (encodeScalar framed) := by
          rw [Memory.valueOf_set hkeeps hset startsWith_ckptKey]
          exact if_pos rfl
        have hwrites₁ : m₁.valueOf writesKey = m.valueOf writesKey := by
          rw [Memory.valueOf_set hkeeps hset startsWith_writesKey]
          exact if_neg ckptKey_ne_writesKey.symm
        obtain ⟨d, ⟨rows, hrows, hheld⟩, hindexed⟩ := h.writes
        have hholds₁ : saver.Holds py m₁ d.values := ⟨rows, hwrites₁.trans hrows, hheld⟩
        obtain ⟨m₂, hall, hframe⟩ := allWrites_of_holds hserde hholds₁
        have hckpt₂ : m₂.valueOf ckptKey = some (encodeScalar framed) := (hframe _).trans hckpt₁
        obtain ⟨d', hkept, hindexed'⟩ := hindexed.filter checkpoint.id
        simp only [hset, hall] at hput
        -- Either way the rows of the checkpoint are what is stored.
        suffices hboth : m'.valueOf ckptKey = some (encodeScalar framed) ∧
            saver.Holds py m' d'.values from
          ⟨⟨some framed, hboth.1, framed, rfl, hframed⟩, d', hboth.2, hindexed'⟩
        split_ifs at hput with hlength
        · rw [← hkept] at hput
          cases hstore : saver.storeWrites py compactor m₂ d'.values with
          | mk m₃ raised =>
            rw [hstore] at hput
            cases raised with
            | some e => cases hput
            | none =>
              cases hput
              obtain ⟨hholds, hckpt⟩ := storeWrites_holds hkeeps hstore
              exact ⟨hckpt.trans hckpt₂, hholds⟩
        · cases hput
          have hall : d'.values = d.values :=
            hkept.trans (List.filter_sublist.eq_of_length (not_not.mp hlength))
          exact ⟨hckpt₂, hall ▸ ⟨rows, (hframe _).trans (hwrites₁.trans hrows), hheld⟩⟩

/-- The writes of a task, one after the other. -/
theorem Indexed.putWrites (id taskId taskPath : String) (items : List ((String × ν) × ℕ))
    (h : saver.Indexed d ref.writes) :
    saver.Indexed ((items.map (saver.writeRow id taskId taskPath)).foldl
        (fun rows row => rows.set row.key row) d)
      (items.foldl (fun ref write => ref.record id
        (taskId, (saver.writesIdxMap write.1.1).getD write.2)
        ⟨write.1.1, write.1.2, taskPath⟩) ref).writes := by
  induction items generalizing d ref with
  | nil => exact h
  | cons item items ih =>
    have hset := h.set id (taskId, (saver.writesIdxMap item.1.1).getD (item.2 : Int))
      ⟨item.1.1, item.1.2, taskPath⟩
    rw [List.map_cons, List.foldl_cons, List.foldl_cons]
    exact ih hset

theorem latest_putWrites (writesIdxMap : String → Option Int) (ref : SaverRef γ μ ν)
    (config : RunnableConfig) (items : List (String × ν)) (taskId taskPath : String) :
    (ref.putWrites writesIdxMap config items taskId taskPath).latest = ref.latest := by
  rw [SaverRef.putWrites]
  cases config.checkpointId with
  | none => rfl
  | some id =>
    simp only
    induction items.zipIdx using List.reverseRecOn with
    | nil => rfl
    | append_singleton items item ih =>
      rw [List.foldl_append]
      exact ih

/-- **The writes of a task** are recorded. -/
theorem putWrites_represents (hserde : saver.serde.RoundTrips)
    (hkeeps : ∀ compact ∈ compactor, Keeps compact langgraphNamespace)
    (h : saver.Represents py m ref) {config : RunnableConfig} {items : List (String × ν)}
    {taskId taskPath : String}
    (hput : saver.putWrites py compactor m config items taskId taskPath = (m', .ok ())) :
    saver.Represents py m'
      (ref.putWrites saver.writesIdxMap config items taskId taskPath) := by
  obtain ⟨stored, hstored, hlatest⟩ := h.latest
  obtain ⟨d, hholds, hindexed⟩ := h.writes
  obtain ⟨m₁, hall, hframe⟩ := allWrites_of_holds hserde hholds
  have hlatest' := latest_putWrites saver.writesIdxMap ref config items taskId taskPath
  rw [CheckpointSaver.putWrites] at hput
  rw [SaverRef.putWrites] at hlatest' ⊢
  cases hid : config.checkpointId with
  | none =>
    rw [hid] at hput
    cases hput
  | some id =>
    rw [hid] at hput hlatest'
    simp only [hall, hindexed.byKey_values] at hput
    cases hstore : saver.storeWrites py compactor m₁
        ((items.zipIdx.map (saver.writeRow id taskId taskPath)).foldl
          (fun rows row => rows.set row.key row) d).values with
    | mk m₂ raised =>
      rw [hstore] at hput
      cases raised with
      | some e => cases hput
      | none =>
        cases hput
        obtain ⟨hholds', hckpt⟩ := storeWrites_holds hkeeps hstore
        refine ⟨⟨stored, hckpt.trans ((hframe _).trans hstored), ?_⟩, _, hholds',
          hindexed.putWrites id taskId taskPath items.zipIdx⟩
        rw [hlatest']
        exact hlatest

/-! ### A serializer -/

/-- The serializer of a code, under one tag. -/
def taggedCode {α : Type} (encode : α → Bytes) (decode : Bytes → Option α) : TypedSerde α where
  dumpsTyped a := ("msgpack", encode a)
  loadsTyped tagged := match decode tagged.2 with
    | some a => .ok a
    | none => .error ⟨.other, "ValueError", "ValueError('Unpack failed')"⟩

theorem roundTrips_taggedCode {α : Type} {encode : α → Bytes} {decode : Bytes → Option α}
    (h : ∀ a, decode (encode a) = some a) : (taggedCode encode decode).RoundTrips := by
  intro a
  simp only [taggedCode, h]

/-- A text that was encoded. -/
def readText (b : Bytes) : Option String := String.fromUTF8? ⟨b.toArray⟩

theorem readText_utf8 (s : String) : readText (Wire.Scalar.utf8 s) = some s :=
  Wire.Scalar.string.decode_encode s

/-- An index, behind its sign. -/
def encodeIdx (idx : Int) : Bytes := (if idx < 0 then 1 else 0) :: Wire.writeVarint idx.natAbs

def decodeIdx : Bytes → Option Int
  | [] => none
  | sign :: b =>
    (Wire.readVarint b.length b).map fun r => if sign = 0 then (r.1 : Int) else -(r.1 : Int)

theorem decodeIdx_encodeIdx (idx : Int) : decodeIdx (encodeIdx idx) = some idx := by
  have hread := Wire.readVarint_append (n := idx.natAbs) (Nat.le_refl _) []
  rw [List.append_nil] at hread
  simp only [decodeIdx, encodeIdx, hread, Option.map_some, Option.some.injEq]
  by_cases hneg : idx < 0
  · rw [if_pos hneg, if_neg (by decide)]
    omega
  · rw [if_neg hneg, if_pos rfl]
    omega

def encodeRow (row : WriteRow) : Bytes :=
  Wire.delimited [Wire.Scalar.utf8 row.taskId, encodeIdx row.idx, Wire.Scalar.utf8 row.channel,
    Wire.Scalar.utf8 row.tagged.1, row.tagged.2, Wire.Scalar.utf8 row.taskPath,
    Wire.Scalar.utf8 row.checkpointId]

def decodeRow (b : Bytes) : Option WriteRow :=
  match Wire.undelimit b with
  | some [taskId, idx, channel, tag, payload, taskPath, checkpointId] => do
    return ⟨← readText taskId, ← decodeIdx idx, ← readText channel, (← readText tag, payload),
      ← readText taskPath, ← readText checkpointId⟩
  | _ => none

theorem decodeRow_encodeRow (row : WriteRow) : decodeRow (encodeRow row) = some row := by
  simp only [decodeRow, encodeRow, Wire.undelimit_delimited, readText_utf8, decodeIdx_encodeIdx]
  rfl

def encodeRows (rows : List WriteRow) : Bytes := Wire.delimited (rows.map encodeRow)

def decodeRows (b : Bytes) : Option (List WriteRow) :=
  (Wire.undelimit b).bind fun items => items.mapM decodeRow

theorem decodeRows_encodeRows (rows : List WriteRow) :
    decodeRows (encodeRows rows) = some rows := by
  rw [decodeRows, encodeRows, Wire.undelimit_delimited, Option.bind_some]
  induction rows with
  | nil => rfl
  | cons row rows ih =>
    rw [List.map_cons, List.mapM_cons, decodeRow_encodeRow, ih]
    rfl

def encodeCheckpoint (checkpoint : Checkpoint Bytes) : Bytes :=
  Wire.delimited [Wire.Scalar.utf8 checkpoint.id, checkpoint.content]

def decodeCheckpoint (b : Bytes) : Option (Checkpoint Bytes) :=
  match Wire.undelimit b with
  | some [id, content] => (readText id).map fun id => ⟨id, content⟩
  | _ => none

theorem decodeCheckpoint_encodeCheckpoint (checkpoint : Checkpoint Bytes) :
    decodeCheckpoint (encodeCheckpoint checkpoint) = some checkpoint := by
  simp only [decodeCheckpoint, encodeCheckpoint, Wire.undelimit_delimited, readText_utf8]
  rfl

def encodeEnvelope (envelope : CheckpointEnvelope) : Bytes :=
  Wire.delimited [Wire.Scalar.utf8 envelope.id, Wire.Scalar.utf8 envelope.ns,
    Wire.Scalar.utf8 envelope.checkpoint.1, envelope.checkpoint.2,
    Wire.Scalar.utf8 envelope.metadata.1, envelope.metadata.2]

def decodeEnvelope (b : Bytes) : Option CheckpointEnvelope :=
  match Wire.undelimit b with
  | some [id, ns, checkpointTag, checkpoint, metadataTag, metadata] => do
    return ⟨← readText id, ← readText ns, (← readText checkpointTag, checkpoint),
      (← readText metadataTag, metadata)⟩
  | _ => none

theorem decodeEnvelope_encodeEnvelope (envelope : CheckpointEnvelope) :
    decodeEnvelope (encodeEnvelope envelope) = some envelope := by
  simp only [decodeEnvelope, encodeEnvelope, Wire.undelimit_delimited, readText_utf8]
  rfl

/-- A serializer that writes each field behind its length. -/
def plainSerde : SaverSerde Bytes Bytes Bytes where
  checkpoint := taggedCode encodeCheckpoint decodeCheckpoint
  metadata := taggedCode (fun b => b) some
  value := taggedCode (fun b => b) some
  envelope := taggedCode encodeEnvelope decodeEnvelope
  rows := taggedCode encodeRows decodeRows

theorem plainSerde_roundTrips : plainSerde.RoundTrips where
  checkpoint := roundTrips_taggedCode decodeCheckpoint_encodeCheckpoint
  metadata := roundTrips_taggedCode fun _ => rfl
  value := roundTrips_taggedCode fun _ => rfl
  envelope := roundTrips_taggedCode decodeEnvelope_encodeEnvelope
  rows := roundTrips_taggedCode decodeRows_encodeRows

/-- A saver with the fixed index of one special channel. -/
def plainSaver : CheckpointSaver Bytes Bytes Bytes where
  serde := plainSerde
  writesIdxMap channel := if channel = "__error__" then some (-1) else none

/-! ### Runs -/

/-- The working memory of a key: the blob committed last, and the memory of the activation. A call
that has raised fails its activation. -/
structure SaverState where
  committed : Option MemoryBlob
  memory : Memory
  failed : Bool

/-- What happens: a call of the saver, a scalar that the agent stores itself, and the end of an
activation, which commits its memory or discards it. -/
inductive SaverAct (γ μ ν : Type)
  | put (config : RunnableConfig) (checkpoint : Checkpoint γ) (metadata : μ)
  | putWrites (config : RunnableConfig) (writes : List (String × ν)) (taskId taskPath : String)
  | getTuple (config : RunnableConfig)
  | store (key : String) (value : Bytes)
  | commit (version : ℕ) (nowMs : Int)
  | discard (nowMs : Int)

/-- An activation that starts from a blob. -/
def SaverState.start (committed : Option MemoryBlob) (nowMs : Int) : SaverState :=
  ⟨committed, Memory.ofBlob committed nowMs, false⟩

/-- After a call, which may have raised. -/
def SaverState.called {α : Type} (s : SaverState) (r : Memory × Except PyExn α) : SaverState :=
  { s with memory := r.1, failed := !r.2.isOk }

/-- One act. A failed activation can only be discarded, and the agent stays out of the namespace of
the saver. -/
def perform (saver : CheckpointSaver γ μ ν) (py : PyLib) (compactor : Option Compactor)
    (s : SaverState) : SaverAct γ μ ν → Option SaverState
  | .put config checkpoint metadata =>
    if s.failed then none
    else some (s.called (saver.put py compactor s.memory config checkpoint metadata))
  | .putWrites config writes taskId taskPath =>
    if s.failed then none
    else some (s.called (saver.putWrites py compactor s.memory config writes taskId taskPath))
  | .getTuple config =>
    if s.failed then none else some (s.called (saver.getTuple py s.memory config))
  | .store key value =>
    if s.failed || startsWith key langgraphNamespace then none
    else some (s.called (Memory.answered (s.memory.set py compactor key value)))
  | .commit version nowMs =>
    if s.failed then none else some (.start (some (s.memory.toBlob version)) nowMs)
  | .discard nowMs => some (.start s.committed nowMs)

/-- The acts on the working memory of a key. -/
def machine (saver : CheckpointSaver γ μ ν) (py : PyLib) (compactor : Option Compactor) :
    Machine SaverState (SaverAct γ μ ν) Unit where
  step s act s' os := saver.perform py compactor s act = some s' ∧ os = []

/-- What was asked to be kept: with the blob committed last, and now. -/
structure SaverHistory (γ μ ν : Type) where
  committed : SaverRef γ μ ν
  staged : SaverRef γ μ ν

namespace SaverHistory

/-- What an act does to it. -/
def after (writesIdxMap : String → Option Int) (history : SaverHistory γ μ ν) :
    SaverAct γ μ ν → SaverHistory γ μ ν
  | .put config checkpoint metadata =>
    { history with staged := history.staged.put config checkpoint metadata }
  | .putWrites config writes taskId taskPath =>
    { history with staged := history.staged.putWrites writesIdxMap config writes taskId taskPath }
  | .getTuple _ => history
  | .store _ _ => history
  | .commit _ _ => ⟨history.staged, history.staged⟩
  | .discard _ => ⟨history.committed, history.committed⟩

/-- What acts make of the empty memory. -/
def of (writesIdxMap : String → Option Int) (acts : List (SaverAct γ μ ν)) : SaverHistory γ μ ν :=
  acts.foldl (after writesIdxMap) ⟨.empty, .empty⟩

end SaverHistory

/-- The memory of a key stands for what was asked to be kept. -/
structure Tracks (saver : CheckpointSaver γ μ ν) (py : PyLib) (history : SaverHistory γ μ ν)
    (s : SaverState) : Prop where
  committed : ∀ nowMs, saver.Represents py (.ofBlob s.committed nowMs) history.committed
  staged : s.failed = false → saver.Represents py s.memory history.staged

variable {history : SaverHistory γ μ ν} {s s' : SaverState} {act : SaverAct γ μ ν}

theorem represents_empty (nowMs : Int) :
    saver.Represents py (.ofBlob none nowMs) (.empty : SaverRef γ μ ν) where
  latest := ⟨none, rfl, rfl⟩
  writes := ⟨.empty, ⟨none, rfl, rfl⟩, fun _ _ => rfl⟩

theorem Represents.reload (h : saver.Represents py m ref) (version : ℕ) (nowMs : Int) :
    saver.Represents py (.ofBlob (some (m.toBlob version)) nowMs) ref :=
  h.congr (m.valueOf_reload version nowMs _) (m.valueOf_reload version nowMs _)

/-- A call that has not raised has returned. -/
theorem called_running {α : Type} {r : Memory × Except PyExn α}
    (h : (s.called r).failed = false) : ∃ a, r = (r.1, .ok a) := by
  cases hr : r.2 with
  | ok a => exact ⟨a, Prod.ext rfl hr⟩
  | error e =>
    rw [SaverState.called, hr] at h
    cases h

/-- **What one act does** to what the memory stands for. -/
theorem Tracks.step (hserde : saver.serde.RoundTrips)
    (hkeeps : ∀ compact ∈ compactor, Keeps compact langgraphNamespace)
    (h : saver.Tracks py history s) (hstep : saver.perform py compactor s act = some s') :
    saver.Tracks py (history.after saver.writesIdxMap act) s' := by
  cases act with
  | put config checkpoint metadata =>
    simp only [perform] at hstep
    split_ifs at hstep with hfailed
    cases hstep
    refine ⟨h.committed, fun hrunning => ?_⟩
    obtain ⟨stored, hreturned⟩ := called_running hrunning
    exact put_represents hserde hkeeps (h.staged (Bool.eq_false_of_not_eq_true hfailed)) hreturned
  | putWrites config writes taskId taskPath =>
    simp only [perform] at hstep
    split_ifs at hstep with hfailed
    cases hstep
    refine ⟨h.committed, fun hrunning => ?_⟩
    obtain ⟨stored, hreturned⟩ := called_running hrunning
    exact putWrites_represents hserde hkeeps (h.staged (Bool.eq_false_of_not_eq_true hfailed))
      hreturned
  | getTuple config =>
    simp only [perform] at hstep
    split_ifs at hstep with hfailed
    cases hstep
    refine ⟨h.committed, fun _ => ?_⟩
    obtain ⟨m', answer, hget, -, hrepresents⟩ :=
      getTuple_serves hserde (h.staged (Bool.eq_false_of_not_eq_true hfailed)) config
    rw [SaverState.called, hget]
    exact hrepresents
  | store key value =>
    simp only [perform] at hstep
    split_ifs at hstep with hrefused
    cases hstep
    rw [Bool.or_eq_true, not_or] at hrefused
    obtain ⟨hfailed, hkey⟩ := hrefused
    refine ⟨h.committed, fun hrunning => ?_⟩
    cases hset : s.memory.set py compactor key value with
    | mk m' raised =>
      cases raised with
      | some e =>
        rw [hset] at hrunning
        cases hrunning
      | none =>
        have hother {x : String} (hx : startsWith x langgraphNamespace = true) :
            m'.valueOf x = s.memory.valueOf x := by
          rw [Memory.valueOf_set hkeeps hset hx]
          exact if_neg fun heq : x = key => hkey (heq ▸ hx)
        exact (h.staged (Bool.eq_false_of_not_eq_true hfailed)).congr (hother startsWith_ckptKey)
          (hother startsWith_writesKey)
  | commit version nowMs =>
    simp only [perform] at hstep
    split_ifs at hstep with hfailed
    cases hstep
    have hstaged := h.staged (Bool.eq_false_of_not_eq_true hfailed)
    exact ⟨fun nowMs => hstaged.reload version nowMs, fun _ => hstaged.reload version nowMs⟩
  | discard nowMs =>
    cases hstep
    exact ⟨h.committed, fun _ => h.committed nowMs⟩

/-- In every run the memory stands for what was asked to be kept. -/
theorem run_tracks (hserde : saver.serde.RoundTrips)
    (hkeeps : ∀ compact ∈ compactor, Keeps compact langgraphNamespace)
    {nowMs : Int} {acts : List (SaverAct γ μ ν)} {os : List Unit}
    (h : (saver.machine py compactor).Run (.start none nowMs) acts os s) :
    saver.Tracks py (.of saver.writesIdxMap acts) s := by
  refine h.invariant (I := fun acts _ s => saver.Tracks py (.of saver.writesIdxMap acts) s)
    ⟨represents_empty, fun _ => represents_empty nowMs⟩ fun {acts os t act u o} _ ih hstep => ?_
  rw [SaverHistory.of, List.foldl_append]
  exact ih.step hserde hkeeps hstep.1

/-- A subgraph puts a checkpoint and the writes of a task, which are committed. -/
def subgraphActs : List (SaverAct Bytes Bytes Bytes) :=
  [.put ⟨"t", some "inner:1", none⟩ ⟨"c1", [7]⟩ [1],
    .putWrites ⟨"t", some "inner:1", some "c1"⟩ [("x", [3]), ("y", [4])] "task" "",
    .commit 1 20]

/-- The saver under the default compactor. -/
abbrev plainMachine : Machine SaverState (SaverAct Bytes Bytes Bytes) Unit :=
  plainSaver.machine Memory.quotingPy (some DropOldestCompactor.ofDefaults.toCompactor)

theorem plain_keeps : ∀ compact ∈ some DropOldestCompactor.ofDefaults.toCompactor,
    Keeps compact langgraphNamespace := by
  intro compact hcompact
  obtain rfl := Option.some.inj hcompact
  exact keeps_ofDefaults

theorem subgraphActs_run : ∃ os s,
    plainMachine.Run (.start none 10) subgraphActs os s ∧ s.failed = false := by
  have hperformed : ((Machine.exec (fun s act => (plainSaver.perform Memory.quotingPy
      (some DropOldestCompactor.ofDefaults.toCompactor) s act).map fun s' => (s', ([] : List Unit)))
      (.start none 10) subgraphActs).any fun r => !r.2.failed) = true := by decide +kernel
  obtain ⟨⟨os, s⟩, hexec, hrunning⟩ := (Option.any_eq_true _ _).mp hperformed
  refine ⟨os, s, .of_exec (fun act _ hact => ?_) hexec, by simpa using hrunning⟩
  obtain ⟨s', hs', heq⟩ := Option.map_eq_some_iff.mp hact
  cases heq
  exact ⟨hs', rfl⟩

/-- **The answers in every run.** Under a compactor that leaves the namespace of the saver alone,
and with a serializer that reads back what it writes, `get_tuple` returns in every run what was
asked to be kept, whatever namespace it is asked for. -/
theorem run_serves (saver : CheckpointSaver γ μ ν) (hserde : saver.serde.RoundTrips) (py : PyLib)
    {compactor : Option Compactor}
    (hkeeps : ∀ compact ∈ compactor, Keeps compact langgraphNamespace)
    {nowMs : Int} {acts : List (SaverAct γ μ ν)} {os : List Unit} {s : SaverState}
    (h : (saver.machine py compactor).Run (.start none nowMs) acts os s)
    (hrunning : s.failed = false) (config : RunnableConfig) :
    ∃ answer, (saver.getTuple py s.memory config).2 = .ok answer ∧
      (SaverHistory.of saver.writesIdxMap acts).staged.Serves config answer := by
  have htracks := run_tracks hserde hkeeps h
  obtain ⟨m', answer, hget, hserves, -⟩ := getTuple_serves hserde (htracks.staged hrunning) config
  exact ⟨answer, congrArg Prod.snd hget, hserves⟩

/-- The graph around the subgraph is answered. -/
theorem run_serves_subgraph : ∃ os s answer,
    plainMachine.Run (.start none 10) subgraphActs os s ∧
      (plainSaver.getTuple Memory.quotingPy s.memory ⟨"t", some "", none⟩).2 = .ok answer ∧
      (SaverHistory.of plainSaver.writesIdxMap subgraphActs).staged.Serves
        ⟨"t", some "", none⟩ answer := by
  obtain ⟨os, s, hrun, hrunning⟩ := subgraphActs_run
  obtain ⟨answer, hget, hserves⟩ :=
    run_serves plainSaver plainSerde_roundTrips Memory.quotingPy plain_keeps hrun hrunning
      ⟨"t", some "", none⟩
  exact ⟨os, s, answer, hrun, hget, hserves⟩

/-- It is handed the checkpoint of the subgraph, which was put under another namespace. -/
theorem subgraph_checkpoint_served : ∃ os s tuple,
    plainMachine.Run (.start none 10) subgraphActs os s ∧
      (plainSaver.getTuple Memory.quotingPy s.memory ⟨"t", some "", none⟩).2 = .ok (some tuple) ∧
      tuple.checkpoint = ⟨"c1", [7]⟩ ∧ tuple.config.checkpointNs = some "inner:1" := by
  obtain ⟨os, s, hrun, hrunning⟩ := subgraphActs_run
  obtain ⟨m', answer, hget, hserves, -⟩ := getTuple_serves plainSerde_roundTrips
    ((run_tracks plainSerde_roundTrips plain_keeps hrun).staged hrunning) ⟨"t", some "", none⟩
  have hlatest : (SaverHistory.of plainSaver.writesIdxMap subgraphActs).staged.latest =
      some ("inner:1", ⟨"c1", [7]⟩, [1]) := rfl
  cases answer with
  | none => exact absurd rfl (hserves _ _ _ hlatest).1
  | some tuple =>
    obtain ⟨ns, hsome, -, hconfig, -⟩ := hserves
    obtain ⟨hns, hcheckpoint, -⟩ :
        "inner:1" = ns ∧ (⟨"c1", [7]⟩ : Checkpoint Bytes) = tuple.checkpoint ∧
          [1] = tuple.metadata := by
      simpa using hlatest.symm.trans hsome
    exact ⟨os, s, tuple, hrun, congrArg Prod.snd hget, hcheckpoint.symm, by rw [hconfig, hns]⟩

end CheckpointSaver

end BeamAgents
