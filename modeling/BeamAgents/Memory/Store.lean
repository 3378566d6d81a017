import BeamAgents.Protos
import BeamAgents.Containers.Smallest
import BeamAgents.Containers.Versioned
import Mathlib.Data.String.Basic

/-!
# The long-term memory store

The record envelope, the `seq` guard and the reference store of `memory/stores/base.py`. An envelope
is kept as the message; its deterministic serialization, which every backend stores, is not
modelled. Seen as a table of rows under `(entity_key, key)`, a save is a write guarded by its `seq`.

## Main definitions

* `LongTermRecord`, `encodeEnvelope`, `decodeEnvelope`, `seqGuardApplies`.
* `InMemoryMemoryStore` with `load`, `save` and `search`.
* `InMemoryMemoryStore.table`, `MemoryRecord.write`: the store as guarded rows.

## Main results

* `InMemoryMemoryStore.table_saved`: a save is a guarded write.
* `InMemoryMemoryStore.load_eq`, `InMemoryMemoryStore.search_eq`: a load reads the row, and a search
  the rows with the first of the matching keys.
-/

namespace BeamAgents

open Containers

/-- The stored envelope of a row. -/
structure LongTermRecord where
  stateSchemaVersion : ℕ
  key : String
  value : Bytes
  seq : ℕ
  updatedAtMs : Int
  deriving DecidableEq, Repr

/-- `_encode_envelope`. -/
def encodeEnvelope (record : MemoryRecord) : LongTermRecord where
  stateSchemaVersion := 1
  key := record.key
  value := record.value
  seq := record.seq
  updatedAtMs := record.updatedAtMs

/-- `_decode_envelope`. -/
def decodeEnvelope (entityKey : Bytes) (message : LongTermRecord) : MemoryRecord where
  entityKey := entityKey
  key := message.key
  value := message.value
  seq := message.seq
  updatedAtMs := message.updatedAtMs

@[simp] theorem decode_encodeEnvelope (record : MemoryRecord) :
    decodeEnvelope record.entityKey (encodeEnvelope record) = record := rfl

/-- `_seq_guard_applies`. -/
def seqGuardApplies (incomingSeq : ℕ) (storedSeq : Option ℕ) : Bool :=
  match storedSeq with
  | none => true
  | some storedSeq => storedSeq ≤ incomingSeq

/-- The `ValueError` of `_require_key`. -/
def emptyRecordKey : PyExn where
  typeName := "ValueError"
  repr := "ValueError('record key must be a non-empty string')"

/-- `InMemoryMemoryStore`: under an entity key and a key, the `seq` and the envelope of the row. -/
structure InMemoryMemoryStore where
  rows : Dict Bytes (Dict String (ℕ × LongTermRecord)) := Dict.empty

/-- The row that a record is written to, under its `seq`. -/
def MemoryRecord.write (record : MemoryRecord) : Write (Bytes × String) ℕ LongTermRecord where
  key := (record.entityKey, record.key)
  version := record.seq
  value := encodeEnvelope record

namespace InMemoryMemoryStore

variable (store : InMemoryMemoryStore)

/-- The rows of one entity. -/
def entityRows (entityKey : Bytes) : Dict String (ℕ × LongTermRecord) :=
  (store.rows.get? entityKey).getD Dict.empty

/-- The store with the rows of one entity replaced. -/
def withRows (entityKey : Bytes) (rows : Dict String (ℕ × LongTermRecord)) :
    InMemoryMemoryStore := ⟨store.rows.set entityKey rows⟩

/-- `MemoryStore.load`. -/
def load (entityKey : Bytes) (key : String) : Except PyExn (Option MemoryRecord) :=
  if key = "" then .error emptyRecordKey
  else .ok (((store.entityRows entityKey).get? key).map fun row => decodeEnvelope entityKey row.2)

/-- The `ValueError` of a search whose limit is not positive. -/
def searchLimit (limit : ℕ) : PyExn where
  typeName := "ValueError"
  repr := s!"ValueError('search limit must be positive, got {limit}')"

/-- `MemoryStore.search`; every key that is sorted has a row. -/
def search (entityKey : Bytes) (keyPrefix : String) (limit : ℕ) :
    Except PyExn (List MemoryRecord) :=
  if limit = 0 then .error (searchLimit limit)
  else
    let entityRows := store.entityRows entityKey
    let matching := (entityRows.keys.filter fun key => keyPrefix.isPrefixOf key).mergeSort
      fun a b => decide (a ≤ b)
    .ok ((matching.take limit).filterMap fun key =>
      (entityRows.get? key).map fun row => decodeEnvelope entityKey row.2)

/-- `MemoryStore.save`: the store afterwards, and whether the write applied. -/
def save (record : MemoryRecord) : Except PyExn (InMemoryMemoryStore × Bool) :=
  if record.key = "" then .error emptyRecordKey
  else
    let entityRows := store.entityRows record.entityKey
    if seqGuardApplies record.seq ((entityRows.get? record.key).map Prod.fst) then
      .ok (store.withRows record.entityKey
        (entityRows.set record.key (record.seq, encodeEnvelope record)), true)
    else .ok (store.withRows record.entityKey entityRows, false)

/-- The store once a save has reached it; one that raises leaves it as it is. -/
def saved (record : MemoryRecord) : InMemoryMemoryStore :=
  match store.save record with
  | .ok (store', _) => store'
  | .error _ => store

/-- The store once several saves have reached it, in order. -/
def savedAll (records : List MemoryRecord) : InMemoryMemoryStore := records.foldl saved store

/-- The store as a table of rows. -/
def table : Rows (Bytes × String) ℕ LongTermRecord :=
  fun k => (store.entityRows k.1).get? k.2

/-- The record of a row. -/
def recordAt (entityKey : Bytes) (key : String) : Option MemoryRecord :=
  (store.table (entityKey, key)).map fun row => decodeEnvelope entityKey row.2

variable {store} {record : MemoryRecord}

theorem entityRows_withRows (entityKey entityKey' : Bytes)
    (rows : Dict String (ℕ × LongTermRecord)) :
    (store.withRows entityKey rows).entityRows entityKey' =
      if entityKey' = entityKey then rows else store.entityRows entityKey' := by
  rw [entityRows, withRows, Dict.get?_set]
  split_ifs <;> rfl

variable (store) in
/-- The guard of a save is the guard of its write. -/
theorem seqGuardApplies_iff (record : MemoryRecord) :
    seqGuardApplies record.seq
        (((store.entityRows record.entityKey).get? record.key).map Prod.fst) = true ↔
      store.table.Admits record.write := by
  have hrow : store.table record.write.key =
      (store.entityRows record.entityKey).get? record.key := rfl
  rw [Rows.Admits, hrow]
  cases (store.entityRows record.entityKey).get? record.key with
  | none => simp [seqGuardApplies]
  | some row => simp [seqGuardApplies, MemoryRecord.write]

/-- A save under a key returns, and reports whether the guard let it through. -/
theorem save_eq (hkey : record.key ≠ "") :
    store.save record = .ok (store.saved record, decide (store.table.Admits record.write)) := by
  have hguard := seqGuardApplies_iff store record
  by_cases hadmits : store.table.Admits record.write
  · simp only [saved, save, if_neg hkey, if_pos (hguard.mpr hadmits), hadmits, decide_true]
  · simp only [saved, save, if_neg hkey, if_neg fun h => hadmits (hguard.mp h), hadmits,
      decide_false]

/-- **A save is a guarded write.** -/
theorem table_saved (hkey : record.key ≠ "") :
    (store.saved record).table = store.table.put record.write := by
  funext k
  obtain ⟨entityKey, key⟩ := k
  by_cases hguard : store.table.Admits record.write
  · have hsaved : store.saved record = store.withRows record.entityKey
        ((store.entityRows record.entityKey).set record.key
          (record.seq, encodeEnvelope record)) := by
      simp only [saved, save, if_neg hkey, if_pos ((seqGuardApplies_iff store record).mpr hguard)]
    rw [hsaved, Rows.put_of_admits hguard]
    by_cases hentity : entityKey = record.entityKey
    · subst hentity
      by_cases hk : key = record.key
      · subst hk
        simp [table, entityRows_withRows, Dict.get?_set, MemoryRecord.write]
      · have hne : (record.entityKey, key) ≠ record.write.key := by simp [MemoryRecord.write, hk]
        rw [Function.update_of_ne hne]
        simp [table, entityRows_withRows, Dict.get?_set, hk]
    · have hne : (entityKey, key) ≠ record.write.key := by simp [MemoryRecord.write, hentity]
      rw [Function.update_of_ne hne]
      simp [table, entityRows_withRows, hentity]
  · have hsaved : store.saved record =
        store.withRows record.entityKey (store.entityRows record.entityKey) := by
      simp only [saved, save, if_neg hkey,
        if_neg fun h => hguard ((seqGuardApplies_iff store record).mp h)]
    rw [hsaved, Rows.put_of_not_admits hguard]
    simp only [table, entityRows_withRows]
    split_ifs with hentity
    · rw [hentity]
    · rfl

/-- A load reads the row. -/
theorem load_eq (entityKey : Bytes) (key : String) (hkey : key ≠ "") :
    store.load entityKey key =
      .ok (store.recordAt entityKey key) := by
  simp only [load, if_neg hkey, recordAt, table]

/-- The keys of an entity that start with a prefix. -/
def matchingKeys (store : InMemoryMemoryStore) (entityKey : Bytes) (keyPrefix : String) :
    Finset String :=
  ((store.entityRows entityKey).keys.filter fun key => keyPrefix.isPrefixOf key).toFinset

theorem mem_matchingKeys {entityKey : Bytes} {keyPrefix key : String} :
    key ∈ store.matchingKeys entityKey keyPrefix ↔
      store.table (entityKey, key) ≠ none ∧ keyPrefix.isPrefixOf key = true := by
  rw [matchingKeys, List.mem_toFinset, List.mem_filter, table, ne_eq, Dict.get?_eq_none_iff,
    not_not]
  exact Iff.rfl

/-- **A search reads the rows** with the first of the matching keys. -/
theorem search_eq (entityKey : Bytes) (keyPrefix : String) {limit : ℕ} (hlimit : 0 < limit) :
    store.search entityKey keyPrefix limit =
      .ok ((smallest limit (store.matchingKeys entityKey keyPrefix)).filterMap
        (store.recordAt entityKey)) := by
  have hnodup : (store.entityRows entityKey).keys.Nodup := (store.entityRows entityKey).nodup
  rw [search, if_neg hlimit.ne', matchingKeys, ← take_mergeSort (hnodup.filter _)]
  rfl

theorem table_savedAll {records : List MemoryRecord} (h : ∀ r ∈ records, r.key ≠ "") :
    (store.savedAll records).table = store.table.putAll (records.map MemoryRecord.write) := by
  induction records generalizing store with
  | nil => rfl
  | cons r records ih =>
    obtain ⟨hr, hrecords⟩ := List.forall_mem_cons.mp h
    show (InMemoryMemoryStore.savedAll (store.saved r) records).table = _
    rw [ih hrecords, table_saved hr]
    rfl

end InMemoryMemoryStore

end BeamAgents
