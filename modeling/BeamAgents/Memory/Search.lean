import BeamAgents.Memory.Backends
import BeamAgents.Protos.LongTerm
import BeamAgents.Stores.Patterns
import Mathlib.Data.List.DropRight

/-!
# Prefix search over SQL, Firestore, Redis and Bigtable

`search` of the backends of `memory/stores/`: what each asks its server for, what the server
answers, and what is done to the answer. A SQL database matches a pattern, Firestore compares the
key with two bounds, Redis scans a hash and Bigtable reads a range of rows. SQL, Firestore and
Bigtable compare texts by their bytes in UTF-8, and limit the answer themselves.

## Main definitions

* `searchWith`: what the backends have in common.
* `SqlMemoryStore.escapeLikePrefix`, `SqlMemoryStore.search`.
* `FirestoreMemoryStore.search`.
* `RedisMemoryStore.literalGlobPrefix`, `RedisMemoryStore.HScan`, `RedisMemoryStore.search`.
* `BigtableMemoryStore.prefixSuccessor`, `BigtableMemoryStore.Table`, `BigtableMemoryStore.search`.
-/

namespace BeamAgents

open Containers Stores

/-- The `DecodeError` of `ParseFromString`. -/
def decodeError : PyExn where
  typeName := "DecodeError"
  repr := "DecodeError('Error parsing message')"

/-- `_decode_envelope` of stored bytes. -/
def decodeStored (entityKey encoded : Bytes) : Except PyExn MemoryRecord :=
  match LongTermRecord.parse encoded with
  | some message => .ok (decodeEnvelope entityKey message)
  | none => .error decodeError

/-- `MemoryStore.search` over the envelopes that the `_search` of a backend finds. -/
def searchWith (entityKey : Bytes) (limit : ℕ) (envelopes : List Bytes) :
    Except PyExn (List MemoryRecord) :=
  if limit = 0 then .error (InMemoryMemoryStore.searchLimit limit)
  else envelopes.mapM (decodeStored entityKey)

/-! ### SQL -/

namespace SqlMemoryStore

/-- `_LIKE_ESCAPE`. -/
def likeEscape : Char := '\\'

/-- `str.replace` of one character. -/
def replaceChar (old : Char) (new text : List Char) : List Char :=
  text.flatMap fun c => if c = old then new else [c]

/-- `_escape_like_prefix`. -/
def escapeLikePrefix (keyPrefix : String) : String :=
  String.ofList <| replaceChar '_' [likeEscape, '_'] <| replaceChar '%' [likeEscape, '%'] <|
    replaceChar likeEscape [likeEscape, likeEscape] keyPrefix.toList

/-- The `SELECT` of `_search`. `ORDER BY` compares bytes, as the collation `BINARY` of SQLite does.
-/
def select (dialect : LikeDialect) (table : SqlTable) (entityKey : Bytes) (pattern : String)
    (limit : ℕ) : List Bytes :=
  let rows := table.items.filter fun row =>
    row.1.1 = entityKey && dialect.like likeEscape pattern.toList row.1.2.toList
  let ordered := rows.mergeSort fun a b => decide (utf8 a.1.2 ≤ utf8 b.1.2)
  (ordered.take limit).map fun row => row.2.envelope

/-- `search`. -/
def search (dialect : LikeDialect) (table : SqlTable) (entityKey : Bytes) (keyPrefix : String)
    (limit : ℕ) : Except PyExn (List MemoryRecord) :=
  searchWith entityKey limit
    (select dialect table entityKey (escapeLikePrefix keyPrefix ++ "%") limit)

end SqlMemoryStore

/-! ### Firestore -/

namespace FirestoreMemoryStore

/-- The query of `_search`: of the documents of an entity those whose key is within the bounds, in
the order of their keys. -/
def query (documents : FirestoreCollection) (entity start stop : String) (limit : ℕ) :
    List Bytes :=
  let within := documents.values.filter fun doc =>
    doc.entity = entity && utf8 start ≤ utf8 doc.key && utf8 doc.key < utf8 stop
  let ordered := within.mergeSort fun a b => decide (utf8 a.key ≤ utf8 b.key)
  (ordered.take limit).map FirestoreDoc.envelope

/-- `search`. -/
def search (documents : FirestoreCollection) (entityKey : Bytes) (keyPrefix : String)
    (limit : ℕ) : Except PyExn (List MemoryRecord) :=
  searchWith entityKey limit
    (query documents entityKey.hex keyPrefix (keyPrefix ++ "\uffff") limit)

end FirestoreMemoryStore

/-! ### Redis -/

namespace RedisMemoryStore

/-- `_GLOB_SPECIALS`. -/
def globSpecials : List Char := ['\\', '?', '*', '[', ']']

/-- `_literal_glob_prefix`. -/
def literalGlobPrefix (keyPrefix : String) : String :=
  String.ofList (keyPrefix.toList.flatMap fun c => if c ∈ globSpecials then ['\\', c] else [c]) ++
    "*"

/-- What a whole iteration of `HSCAN` may answer: the fields that match, in any order, each of them
once or more often. -/
structure HScan (db : RedisHashes) (key pattern : String) (answer : List (String × Bytes)) :
    Prop where
  stored : ∀ item ∈ answer, hget db key item.1 = some item.2 ∧
    glob (utf8 pattern) (utf8 item.1) = true
  complete : ∀ field value, hget db key field = some value →
    glob (utf8 pattern) (utf8 field) = true → (field, value) ∈ answer

variable (store : RedisMemoryStore)

/-- `search`, where the server answers `hscan_iter` with `hscan`. -/
def search (hscan : String → String → List (String × Bytes)) (entityKey : Bytes)
    (keyPrefix : String) (limit : ℕ) : Except PyExn (List MemoryRecord) :=
  let scan := hscan (store.hashKey entityKey) (literalGlobPrefix keyPrefix)
  let matched := scan.filter fun item => keyPrefix.isPrefixOf item.1
  let ordered := matched.mergeSort fun a b => decide (a.1 ≤ b.1)
  searchWith entityKey limit ((ordered.take limit).map fun item => item.2.drop 8)

end RedisMemoryStore

/-! ### Bigtable -/

namespace BigtableMemoryStore

/-- `_prefix_successor`. -/
def prefixSuccessor (start : Bytes) : Option Bytes :=
  let trimmed := start.rdropWhile (· = 255)
  trimmed.getLast?.map fun last => trimmed.dropLast ++ [last + 1]

/-- The rows of a table, with the keys of those that have cells, in order. -/
structure Table where
  rows : BigtableRows
  keys : List Bytes
  sorted : keys.Pairwise (· < ·)
  mem_keys : ∀ key, key ∈ keys ↔ rows key ≠ []

/-- `read_rows` of a range with a limit: the rows of which the filter lets some cell through. -/
def Table.readRows (table : Table) (start : Bytes) (stop : Option Bytes) (limit : ℕ)
    (rowFilter : RowFilter) : List Row :=
  let within := table.keys.filter fun key => start ≤ key && stop.all fun stop => key < stop
  let filtered := within.map fun key => rowFilter (table.rows key)
  (filtered.filter fun row => row ≠ []).take limit

variable (store : BigtableMemoryStore)

/-- `_latest_cells_filter`. -/
def latestCellsFilter : RowFilter :=
  RowFilter.chain [RowFilter.familyName store.regex columnFamily, RowFilter.cellsColumnLimit 1]

/-- `_record_cell`. -/
def recordCell (row : Row) : Option Bytes :=
  (row.find? fun cell => cell.qualifier = recordColumn).map Cell.value

/-- `search`. -/
def search (table : Table) (entityKey : Bytes) (keyPrefix : String) (limit : ℕ) :
    Except PyExn (List MemoryRecord) :=
  let start := rowKey entityKey keyPrefix
  let rows := table.readRows start (prefixSuccessor start) limit store.latestCellsFilter
  searchWith entityKey limit (rows.filterMap recordCell)

end BigtableMemoryStore

end BeamAgents
