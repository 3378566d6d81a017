import BeamAgents.Memory.Store
import BeamAgents.Stores.BigEndian
import BeamAgents.Stores.Rows

/-!
# The long-term stores over SQL, Firestore, Redis and Bigtable

`save` of the backends of `memory/stores/`, as what it does to the rows of a server at one instant:
a transaction of a SQL database or of Firestore, a script of a Redis server, a conditional mutation
of a Bigtable row. Each has its own rows, its own name for the row of a record and its own form of
the guard; all store the same envelope bytes, for which `serialize` stands.

## Main definitions

* `encodeSeq`, `decodeSeq`.
* `SqlMemoryStore.save`, `FirestoreMemoryStore.save`, `RedisMemoryStore.save`,
  `BigtableMemoryStore.save`.
-/

namespace BeamAgents

open Containers Stores

/-- `_encode_seq`, of a number that eight bytes hold. -/
def encodeSeq (seq : ℕ) : Bytes := bigEndian 8 seq

/-- `_decode_seq`, which reads the first eight bytes; fewer are an error. -/
def decodeSeq (encoded : Bytes) : Option ℕ :=
  if 8 ≤ encoded.length then some (ofBigEndian (encoded.take 8)) else none

/-- `str.encode("utf-8")`. -/
def utf8 (s : String) : Bytes := s.toUTF8.data.toList

variable (serialize : LongTermRecord → Bytes)

/-! ### SQL -/

/-- The columns of `beam_agents_longterm` beside the primary key: `seq`, `rec` and
`updated_at_ms`. -/
structure SqlColumns where
  seq : ℕ
  envelope : Bytes
  updatedAtMs : Int
  deriving DecidableEq, Repr

/-- The table `beam_agents_longterm`, by its primary key. -/
abbrev SqlTable := Dict (Bytes × String) SqlColumns

/-- `SqlMemoryStore._save` in its transaction: `INSERT` of an absent row and `UPDATE` of a present
one both store the columns under the primary key. -/
def SqlMemoryStore.save (table : SqlTable) (record : MemoryRecord) : SqlTable × Bool :=
  let storedSeq := (table.get? (record.entityKey, record.key)).map SqlColumns.seq
  if !seqGuardApplies record.seq storedSeq then (table, false)
  else
    (table.set (record.entityKey, record.key)
      ⟨record.seq, serialize (encodeEnvelope record), record.updatedAtMs⟩, true)

/-! ### Firestore -/

/-- The fields of a document: `entity`, `key`, `seq` and `rec`. -/
structure FirestoreDoc where
  entity : String
  key : String
  seq : ℕ
  envelope : Bytes
  deriving DecidableEq, Repr

/-- The documents of the collection, by their IDs. -/
abbrev FirestoreCollection := Dict String FirestoreDoc

/-- The characters that `urllib.parse.quote` leaves alone, by their codes. -/
def alwaysSafe (b : UInt8) : Bool :=
  (65 ≤ b && b ≤ 90) || (97 ≤ b && b ≤ 122) || (48 ≤ b && b ≤ 57) ||
    b = 95 || b = 46 || b = 45 || b = 126

/-- One uppercase hex digit. -/
def upperHexDigit (n : ℕ) : Char :=
  if n < 10 then Char.ofNat (48 + n) else Char.ofNat (55 + n)

/-- One byte of `urllib.parse.quote`. -/
def quoteByte (b : UInt8) : List Char :=
  if alwaysSafe b then [Char.ofNat b.toNat]
  else ['%', upperHexDigit (b.toNat / 16), upperHexDigit (b.toNat % 16)]

/-- `urllib.parse.quote(key, safe="")`. -/
def quote (key : String) : String := String.ofList ((utf8 key).flatMap quoteByte)

namespace FirestoreMemoryStore

/-- `_doc_id`. -/
def docId (entityKey : Bytes) (key : String) : String := entityKey.hex ++ "#" ++ quote key

/-- `_save` in its transaction. -/
def save (documents : FirestoreCollection) (record : MemoryRecord) : FirestoreCollection × Bool :=
  let docRef := docId record.entityKey record.key
  let payload : FirestoreDoc :=
    ⟨record.entityKey.hex, record.key, record.seq, serialize (encodeEnvelope record)⟩
  match documents.get? docRef with
  | some snapshot =>
    if record.seq < snapshot.seq then (documents, false) else (documents.set docRef payload, true)
  | none => (documents.set docRef payload, true)

end FirestoreMemoryStore

/-! ### Redis -/

/-- The hashes of a Redis server: under a key, the values by their fields. -/
abbrev RedisHashes := Dict String (Dict String Bytes)

/-- `RedisMemoryStore`. -/
structure RedisMemoryStore where
  keyPrefix : String := "beam-agents:ltm:"

namespace RedisMemoryStore

variable (store : RedisMemoryStore)

/-- `_hash_key`. -/
def hashKey (entityKey : Bytes) : String := store.keyPrefix ++ entityKey.hex

/-- `HGET`. -/
def hget (db : RedisHashes) (key field : String) : Option Bytes :=
  ((db.get? key).getD Dict.empty).get? field

/-- `HSET`. -/
def hset (db : RedisHashes) (key field : String) (value : Bytes) : RedisHashes :=
  db.set key (((db.get? key).getD Dict.empty).set field value)

/-- `_SAVE_SCRIPT`: Lua compares strings byte by byte. -/
def saveScript (db : RedisHashes) (key field : String) (seq envelope : Bytes) :
    RedisHashes × ℕ :=
  match hget db key field with
  | none => (hset db key field (seq ++ envelope), 1)
  | some stored =>
    if stored.take 8 ≤ seq then (hset db key field (seq ++ envelope), 1) else (db, 0)

/-- `_save`. -/
def save (db : RedisHashes) (record : MemoryRecord) : RedisHashes × Bool :=
  let r := saveScript db (store.hashKey record.entityKey) record.key (encodeSeq record.seq)
    (serialize (encodeEnvelope record))
  (r.1, r.2 ≠ 0)

end RedisMemoryStore

/-! ### Bigtable -/

namespace BigtableMemoryStore

/-- `COLUMN_FAMILY`, the letter m. -/
def columnFamily : Bytes := [109]

/-- `SEQ_COLUMN`, the bytes of seq. -/
def seqColumn : Bytes := [115, 101, 113]

/-- `RECORD_COLUMN`, the bytes of rec. -/
def recordColumn : Bytes := [114, 101, 99]

end BigtableMemoryStore

/-- What the server's regular expressions match. The names of the family and of the column have no
special characters. -/
structure BigtableMemoryStore where
  regex : Bytes → Bytes → Bool
  literal_columnFamily : Literal regex BigtableMemoryStore.columnFamily
  literal_seqColumn : Literal regex BigtableMemoryStore.seqColumn

/-- The rows of a Bigtable table; an absent row has no cells. -/
abbrev BigtableRows := Bytes → Row

namespace BigtableMemoryStore

variable (store : BigtableMemoryStore)

/-- `_row_key`. -/
def rowKey (entityKey : Bytes) (key : String) : Bytes := utf8 entityKey.hex ++ 35 :: utf8 key

/-- `_stored_newer_filter`. -/
def storedNewerFilter (incomingSeq : ℕ) : RowFilter :=
  RowFilter.chain [RowFilter.familyName store.regex columnFamily,
    RowFilter.columnQualifier store.regex seqColumn, RowFilter.cellsColumnLimit 1,
    RowFilter.valueAbove (encodeSeq incomingSeq)]

/-- `_save` at a time, with which the new cells are stamped. -/
def save (rows : BigtableRows) (now : Int) (record : MemoryRecord) : BigtableRows × Bool :=
  let rowKey := rowKey record.entityKey record.key
  let r := (rows rowKey).checkAndMutate now (store.storedNewerFilter record.seq) []
    [.setCell columnFamily seqColumn (encodeSeq record.seq),
      .setCell columnFamily recordColumn (serialize (encodeEnvelope record))]
  (Function.update rows rowKey r.1, !r.2)

end BigtableMemoryStore

end BeamAgents
