import BeamAgents.Memory.Reserved
import BeamAgents.Memory.Values
import BeamAgents.Wire.Message
import Mathlib.Data.List.Sort

/-!
# The LangGraph checkpoint saver

`adapters/langgraph/checkpoint.py` keeps the latest checkpoint of a graph and the writes of its
tasks as two scalars of working memory. Values, checkpoints, the envelope of a checkpoint and the
rows of writes all go through one serializer, which is a parameter at each of these types.

## Main definitions

* `TypedSerde`, `SaverSerde`: the serializer.
* `frameTagged`, `unframeTagged`: `_frame` and `_unframe`.
* `CheckpointSaver` with `getTuple`, `put` and `putWrites`.

## Main results

* `unframeTagged_frameTagged`: what was framed is unframed.
* `Memory.valueOf_set`: what a write to working memory does to the scalars of the saver.
-/

namespace BeamAgents

open Containers

/-! ### Data -/

/-- `dumps_typed` and `loads_typed` of the serializer at a type: a tag and a payload. -/
structure TypedSerde (α : Type) where
  dumpsTyped : α → String × Bytes
  loadsTyped : String × Bytes → Except PyExn α

/-- A value is read back. -/
def TypedSerde.RoundTrips {α : Type} (serde : TypedSerde α) : Prop :=
  ∀ a, serde.loadsTyped (serde.dumpsTyped a) = .ok a

/-- The keys of a `RunnableConfig` under `configurable`. -/
structure RunnableConfig where
  threadId : String
  checkpointNs : Option String := none
  checkpointId : Option String := none
  deriving DecidableEq, Repr

/-- A `Checkpoint`: its id, and the rest of it. -/
structure Checkpoint (γ : Type) where
  id : String
  content : γ
  deriving DecidableEq, Repr

/-- What is stored of a checkpoint. -/
structure CheckpointEnvelope where
  id : String
  ns : String
  checkpoint : String × Bytes
  metadata : String × Bytes
  deriving DecidableEq, Repr

/-- `_WriteRow`. -/
structure WriteRow where
  taskId : String
  idx : Int
  channel : String
  tagged : String × Bytes
  taskPath : String
  checkpointId : String
  deriving DecidableEq, Repr

/-- The serializer, at the types it is used at. -/
structure SaverSerde (γ μ ν : Type) where
  checkpoint : TypedSerde (Checkpoint γ)
  metadata : TypedSerde μ
  value : TypedSerde ν
  envelope : TypedSerde CheckpointEnvelope
  rows : TypedSerde (List WriteRow)

/-- The serializer reads back what it has written. -/
structure SaverSerde.RoundTrips {γ μ ν : Type} (serde : SaverSerde γ μ ν) : Prop where
  checkpoint : serde.checkpoint.RoundTrips
  metadata : serde.metadata.RoundTrips
  value : serde.value.RoundTrips
  envelope : serde.envelope.RoundTrips
  rows : serde.rows.RoundTrips

/-- `CheckpointTuple`. -/
structure CheckpointTuple (γ μ ν : Type) where
  config : RunnableConfig
  checkpoint : Checkpoint γ
  metadata : μ
  parentConfig : Option RunnableConfig := none
  pendingWrites : List (String × String × ν)
  deriving DecidableEq, Repr

/-! ### Frames -/

/-- `_TAG_LEN_PREFIX`. -/
def tagLenPrefix : ℕ := 2

/-- `_frame`. -/
def frameTagged (py : PyLib) (tagged : String × Bytes) : Except PyExn Bytes :=
  let tagBytes := Wire.Scalar.utf8 tagged.1
  if tagBytes.length < 256 ^ tagLenPrefix then
    .ok (Stores.bigEndian tagLenPrefix tagBytes.length ++ tagBytes ++ tagged.2)
  else .error (lengthOverflow py)

/-- `_unframe`. -/
def unframeTagged (py : PyLib) (value : Bytes) : Except PyExn (String × Bytes) :=
  let tagEnd := tagLenPrefix + Stores.ofBigEndian (value.take tagLenPrefix)
  match String.fromUTF8? ⟨((value.take tagEnd).drop tagLenPrefix).toArray⟩ with
  | none => .error ⟨.other, "UnicodeDecodeError", py.exnRepr "UnicodeDecodeError" "invalid utf-8"⟩
  | some tag => .ok (tag, value.drop tagEnd)

/-- The parts of a frame. -/
theorem parts_of_frame {tag payload framed : Bytes}
    (h : Stores.bigEndian tagLenPrefix tag.length ++ tag ++ payload = framed) :
    framed.take tagLenPrefix = Stores.bigEndian tagLenPrefix tag.length ∧
      (framed.take (tagLenPrefix + tag.length)).drop tagLenPrefix = tag ∧
      framed.drop (tagLenPrefix + tag.length) = payload := by
  have hlength : (Stores.bigEndian tagLenPrefix tag.length).length = tagLenPrefix :=
    Stores.length_bigEndian ..
  have hend : tagLenPrefix + tag.length =
      (Stores.bigEndian tagLenPrefix tag.length ++ tag).length := by
    rw [List.length_append, hlength]
  refine ⟨?_, ?_, ?_⟩
  · rw [← h, List.append_assoc, List.take_left' hlength]
  · rw [← h, hend, List.take_left, List.drop_left' hlength]
  · rw [← h, hend, List.drop_left]

/-- **What was framed is unframed.** -/
theorem unframeTagged_frameTagged {py : PyLib} {tagged : String × Bytes} {framed : Bytes}
    (h : frameTagged py tagged = .ok framed) : unframeTagged py framed = .ok tagged := by
  simp only [frameTagged] at h
  split_ifs at h with hfits
  obtain ⟨hlength, htag, hpayload⟩ := parts_of_frame (Except.ok.inj h)
  have hdecode : String.fromUTF8? ⟨(Wire.Scalar.utf8 tagged.1).toArray⟩ = some tagged.1 :=
    Wire.Scalar.string.decode_encode tagged.1
  simp only [unframeTagged, hlength, Stores.ofBigEndian_bigEndian hfits, htag, hpayload, hdecode]

/-! ### Scalars under a namespace -/

/-- A compactor that returns leaves the values under a namespace alone. -/
def Keeps (compact : Compactor) (ns : String) : Prop :=
  ∀ ⦃m m' : Memory⦄, compact m = (m', none) →
    ∀ ⦃key : String⦄, startsWith key ns = true → m'.valueOf key = m.valueOf key

/-- The default compactor keeps the namespace of the saver. -/
theorem keeps_ofDefaults : Keeps DropOldestCompactor.ofDefaults.toCompactor langgraphNamespace := by
  intro m m' h key hkey
  obtain rfl : DropOldestCompactor.ofDefaults.compact m = m' := congrArg Prod.fst h
  rw [Memory.valueOf_compact]
  refine if_neg fun hlost => ?_
  obtain ⟨m₀, -, entry, hevicted⟩ := Memory.mem_of_lost hlost
  have hfree : DropOldestCompactor.ofDefaults.isProtected key = false :=
    (Bool.not_eq_true' _).mp (may_of_mem_evicted hevicted).2
  have hprotected : DropOldestCompactor.ofDefaults.isProtected key = true := by
    rw [DropOldestCompactor.isProtected]
    exact List.any_eq_true.mpr ⟨langgraphNamespace, List.mem_singleton_self _, hkey⟩
  rw [hprotected] at hfree
  cases hfree

namespace Memory

variable {py : PyLib} {compactor : Option Compactor} {ns key x : String} {value encoded : Bytes}
  {m m' : Memory}

theorem valueOf_finishWrite (hkeeps : ∀ compact ∈ compactor, Keeps compact ns)
    (h : finishWrite compactor m key encoded = (m', none)) (hx : startsWith x ns = true) :
    m'.valueOf x = if x = key then some encoded else m.valueOf x := by
  rw [← valueOf_commitEntry]
  rw [finishWrite, maybeSoftCap] at h
  split_ifs at h
  · cases h
    rfl
  · cases compactor with
    | none =>
      cases h
      rfl
    | some compact => exact hkeeps compact rfl h hx

/-- **What a write does to the scalars under a namespace** that the compactor keeps. -/
theorem valueOf_set (hkeeps : ∀ compact ∈ compactor, Keeps compact ns)
    (h : m.set py compactor key value = (m', none)) (hx : startsWith x ns = true) :
    m'.valueOf x = if x = key then some (encodeScalar value) else m.valueOf x := by
  simp only [set, guardedWrite] at h
  split_ifs at h with hfits
  · exact valueOf_finishWrite hkeeps h hx
  · cases compactor with
    | none => cases h
    | some compact =>
      simp only [runCompactor] at h
      cases hcompact : compact m with
      | mk m₁ raised =>
        cases raised with
        | some e =>
          rw [hcompact] at h
          cases h
        | none =>
          simp only [hcompact] at h
          split_ifs at h
          · rw [valueOf_finishWrite hkeeps h hx, hkeeps compact rfl hcompact hx]
          · cases h

/-- A scalar that is stored is read, and nothing changes. -/
theorem get_of_valueOf (py : PyLib) {stored : Option Bytes}
    (h : m.valueOf key = stored.map encodeScalar) :
    ∃ m', m.get py key = (m', .ok stored) ∧ ∀ x, m'.valueOf x = m.valueOf x :=
  ⟨(m.get py key).1, Prod.ext rfl (get_eq_ok_iff.mpr h), fun x => (get_read m key).valueOf x⟩

theorem valueOf_reload (m : Memory) (version : ℕ) (nowMs : Int) (x : String) :
    (ofBlob (some (m.toBlob version)) nowMs).valueOf x = m.valueOf x := by
  rw [valueOf, (m.ofBlob_toBlob version nowMs).1]
  rfl

end Memory

/-! ### The saver -/

/-- `_CKPT_KEY`. -/
def ckptKey : String := langgraphNamespace ++ "ckpt"

/-- `_WRITES_KEY`. -/
def writesKey : String := langgraphNamespace ++ "writes"

/-- What a row of writes is stored under. -/
def WriteRow.key (row : WriteRow) : String × String × Int := (row.checkpointId, row.taskId, row.idx)

/-- The order of rows: by task, and by index. -/
def WriteRow.Le (a b : WriteRow) : Prop :=
  a.taskId < b.taskId ∨ a.taskId = b.taskId ∧ a.idx ≤ b.idx

instance : DecidableRel WriteRow.Le := fun _ _ => inferInstanceAs (Decidable (_ ∨ _))

/-- A `BeamCheckpointSaver`. The fixed indexes of the special channels, `WRITES_IDX_MAP`, are
LangGraph's. -/
structure CheckpointSaver (γ μ ν : Type) where
  serde : SaverSerde γ μ ν
  writesIdxMap : String → Option Int

namespace CheckpointSaver

variable {γ μ ν : Type} (saver : CheckpointSaver γ μ ν) (py : PyLib)
  (compactor : Option Compactor)

/-- `_loads`. -/
def loads {α : Type} (serde : TypedSerde α) (value : Bytes) : Except PyExn α := do
  let tagged ← unframeTagged py value
  serde.loadsTyped tagged

/-- `_all_writes`. -/
def allWrites (m : Memory) : Memory × Except PyExn (List WriteRow) :=
  match m.get py writesKey with
  | (m, .error e) => (m, .error e)
  | (m, .ok none) => (m, .ok [])
  | (m, .ok (some raw)) => (m, loads py saver.serde.rows raw)

/-- `_writes_for`. -/
def writesFor (m : Memory) (checkpointId : String) : Memory × Except PyExn (List WriteRow) :=
  match saver.allWrites py m with
  | (m, .error e) => (m, .error e)
  | (m, .ok rows) =>
    (m, .ok ((rows.filter fun row => row.checkpointId = checkpointId).insertionSort WriteRow.Le))

/-- `_store_writes`. -/
def storeWrites (m : Memory) (rows : List WriteRow) : Memory × Option PyExn :=
  match frameTagged py (saver.serde.rows.dumpsTyped rows) with
  | .error e => (m, some e)
  | .ok framed => m.set py compactor writesKey framed

/-- A write of a task as `get_tuple` returns it. -/
def loadWrite (row : WriteRow) : Except PyExn (String × String × ν) := do
  let value ← saver.serde.value.loadsTyped row.tagged
  return (row.taskId, row.channel, value)

/-- `get_tuple`. -/
def getTuple (m : Memory) (config : RunnableConfig) :
    Memory × Except PyExn (Option (CheckpointTuple γ μ ν)) :=
  match m.get py ckptKey with
  | (m, .error e) => (m, .error e)
  | (m, .ok none) => (m, .ok none)
  | (m, .ok (some raw)) =>
    match loads py saver.serde.envelope raw with
    | .error e => (m, .error e)
    | .ok envelope =>
      let wanted := config.checkpointId.getD ""
      if wanted ≠ "" ∧ wanted ≠ envelope.id then (m, .ok none)
      else
        match saver.serde.checkpoint.loadsTyped envelope.checkpoint,
          saver.serde.metadata.loadsTyped envelope.metadata with
        | .error e, _ => (m, .error e)
        | .ok _, .error e => (m, .error e)
        | .ok checkpoint, .ok metadata =>
          match saver.writesFor py m envelope.id with
          | (m, .error e) => (m, .error e)
          | (m, .ok rows) => (m, do
            let pendingWrites ← rows.mapM saver.loadWrite
            return some {
              config := ⟨config.threadId, some envelope.ns, some envelope.id⟩
              checkpoint
              metadata
              pendingWrites })

/-- `put`. -/
def put (m : Memory) (config : RunnableConfig) (checkpoint : Checkpoint γ) (metadata : μ) :
    Memory × Except PyExn RunnableConfig :=
  let checkpointNs := config.checkpointNs.getD ""
  let envelope : CheckpointEnvelope := {
    id := checkpoint.id
    ns := checkpointNs
    checkpoint := saver.serde.checkpoint.dumpsTyped checkpoint
    metadata := saver.serde.metadata.dumpsTyped metadata }
  let stored : RunnableConfig := ⟨config.threadId, some checkpointNs, some checkpoint.id⟩
  match frameTagged py (saver.serde.envelope.dumpsTyped envelope) with
  | .error e => (m, .error e)
  | .ok framed =>
    match m.set py compactor ckptKey framed with
    | (m, some e) => (m, .error e)
    | (m, none) =>
      match saver.allWrites py m with
      | (m, .error e) => (m, .error e)
      | (m, .ok rows) =>
        let kept := rows.filter fun row => row.checkpointId = checkpoint.id
        if kept.length ≠ rows.length then
          match saver.storeWrites py compactor m kept with
          | (m, some e) => (m, .error e)
          | (m, none) => (m, .ok stored)
        else (m, .ok stored)

/-- The row of the write at a position. -/
def writeRow (checkpointId taskId taskPath : String) (write : (String × ν) × ℕ) : WriteRow where
  taskId
  idx := (saver.writesIdxMap write.1.1).getD write.2
  channel := write.1.1
  tagged := saver.serde.value.dumpsTyped write.1.2
  taskPath
  checkpointId

/-- The rows by their keys, a later one in the place of an earlier. -/
def byKey (rows : List WriteRow) : Dict (String × String × Int) WriteRow :=
  .ofList (rows.map fun row => (row.key, row))

/-- `put_writes`. -/
def putWrites (m : Memory) (config : RunnableConfig) (writes : List (String × ν)) (taskId : String)
    (taskPath : String := "") : Memory × Except PyExn Unit :=
  match config.checkpointId with
  | none => (m, .error ⟨.other, "KeyError", "KeyError('checkpoint_id')"⟩)
  | some checkpointId =>
    match saver.allWrites py m with
    | (m, .error e) => (m, .error e)
    | (m, .ok rows) =>
      let rows := (writes.zipIdx.map (saver.writeRow checkpointId taskId taskPath)).foldl
        (fun rows row => rows.set row.key row) (byKey rows)
      match saver.storeWrites py compactor m rows.values with
      | (m, some e) => (m, .error e)
      | (m, none) => (m, .ok ())

end CheckpointSaver

end BeamAgents
