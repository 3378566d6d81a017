import BeamAgents.Console.ErrorRows
import BeamAgents.Console.Rollups
import BeamAgents.Containers.Keyset
import BeamAgents.Stores.Patterns
import BeamAgents.Wire.Base64
import BeamAgents.Wire.Json

/-!
# Pages of the console

The lists of `console/_queries.py` that are read page by page: activations, traces, errors and
entities. Each is ordered on some of its columns, and the cursor holds the values of these columns
in the last row of a page. Activations and entities are ordered on columns that no two rows share.
Traces and errors are not: a trace has a row for each of its activations, and two errors may differ
only in their detail.

How SQLite sorts rows that it is not told to tell apart, how it compares its columns with values of
other types, and how it reads a text as an integer, are parameters. A cursor is refused when it does
not hold as many values as the list has columns; of what type they are is not asked.

## Main definitions

* `encodeCursor`, `decodeCursor`, `Columns`: cursors.
* `SqliteOrder`: what SQLite makes of a list.
* `ActivationFilter`, `activations`, `traces`, `errors`, `entities`: the lists.

## Main results

* `decodeCursor_encodeCursor`: a cursor is read from what it was written as.
* `pages_exact_iff`, `lists_exact_iff`: when the pages of the four lists are the lists.
* `second_orphan_skipped`: pages on which an error is not found.
-/

namespace BeamAgents

open Containers Wire

/-! ### Cursors -/

/-- `_encode_cursor`. -/
def encodeCursor (values : List Json.Value) : String :=
  String.ofList (Base64.strip (Base64.encode (Json.dumps {} (.array values))))

/-- `_decode_cursor`; none when it raises. -/
def decodeCursor (cursor : String) (arity : ℕ) : Option (List Json.Value) := do
  let decoded ← Base64.decode (Base64.pad cursor.toList)
  match ← Json.loads decoded with
  | .array values => if values.length = arity then some values else none
  | _ => none

/-- The columns of a keyset, as they stand in a cursor. -/
structure Columns (κ : Type) where
  arity : ℕ
  values : κ → List Json.Value
  read : List Json.Value → Option κ
  length_values : ∀ key, (values key).length = arity
  valid_values : ∀ key, Json.ValidItems (values key)
  read_values : ∀ key, read (values key) = some key

/-- `started_ms`, `entity_key` and `seq`. -/
def activationColumns : Columns (Int ×ₗ String ×ₗ Int) where
  arity := 3
  values key := [.int (ofLex key).1, .text (ofLex (ofLex key).2).1, .int (ofLex (ofLex key).2).2]
  read
    | [.int startedMs, .text entityKey, .int seq] =>
      some (toLex (startedMs, toLex (entityKey, seq)))
    | _ => none
  length_values _ := rfl
  valid_values _ := ⟨trivial, trivial, trivial, trivial⟩
  read_values _ := rfl

/-- A time and a text. -/
def timedColumns : Columns (Int ×ₗ String) where
  arity := 2
  values key := [.int (ofLex key).1, .text (ofLex key).2]
  read
    | [.int timeMs, .text name] => some (toLex (timeMs, name))
    | _ => none
  length_values _ := rfl
  valid_values _ := ⟨trivial, trivial, trivial⟩
  read_values _ := rfl

/-- `event_time_ms`, `entity_key`, `seq_key` and `reason`. -/
def errorColumns : Columns (Int ×ₗ String ×ₗ Int ×ₗ String) where
  arity := 4
  values key :=
    [.int (ofLex key).1, .text (ofLex (ofLex key).2).1, .int (ofLex (ofLex (ofLex key).2).2).1,
      .text (ofLex (ofLex (ofLex key).2).2).2]
  read
    | [.int timeMs, .text entityKey, .int seqKey, .text reason] =>
      some (toLex (timeMs, toLex (entityKey, toLex (seqKey, reason))))
    | _ => none
  length_values _ := rfl
  valid_values _ := ⟨trivial, trivial, trivial, trivial, trivial⟩
  read_values _ := rfl

/-! ### Pages -/

/-- `_dto.Page`. -/
structure Page (α : Type) where
  items : List α
  nextCursor : Option String
  total : ℕ

/-- `_paginate`. -/
def paginate {α : Type} (rows : List α) (limit : ℕ) (values : α → List Json.Value) :
    List α × Option String :=
  if rows.length ≤ limit then (rows, none)
  else
    let page := rows.take limit
    (page, page.getLast?.map fun last => encodeCursor (values last))

section Pages

variable {α κ : Type} [LinearOrder κ] {key : α → κ}

/-- What SQLite makes of a list: how it sorts rows, and which of them come after values that are no
key; none when it raises. -/
structure SqliteOrder (key : α → κ) extends Descending key where
  foreign : List Json.Value → List α → Option (List α)

/-- The rows after a cursor. -/
def scanCursor (order : SqliteOrder key) (columns : Columns κ) (rows : List α) :
    Option String → Option (List α)
  | none => some (scan key rows none)
  | some cursor => do
    let values ← decodeCursor cursor columns.arity
    match columns.read values with
    | some after => some (scan key rows (some after))
    | none => order.foreign values rows

/-- A page of rows: those after the cursor, sorted, where one more than the page is read. -/
def pageOf (order : SqliteOrder key) (columns : Columns κ) (rows : List α)
    (cursor : Option String) (limit : Int) : Option (Page α) := do
  let limit := (max 1 limit).toNat
  let scanned ← scanCursor order columns rows cursor
  let found := (order.sort scanned).take (limit + 1)
  let page := paginate found limit fun row => columns.values (key row)
  return ⟨page.1, page.2, rows.length⟩

/-- A cursor that is not taken when it is empty. -/
def truthy (cursor : Option String) : Option String := cursor.filter (· ≠ "")

end Pages

/-! ### The lists -/

/-- `LIKE` with a text that may stand anywhere. No pattern has the character that would escape. -/
def likeQuery (query text : String) : Bool :=
  Stores.sqlite.like '\x00' ('%' :: query.toList ++ ['%']) text.toList

/-- `ActivationFilter`. -/
structure ActivationFilter where
  entityKey : Option String := none
  status : Option String := none
  kind : Option String := none
  model : Option String := none
  tool : Option String := none
  reason : Option String := none
  sinceMs : Option Int := none
  untilMs : Option Int := none
  query : Option String := none

/-- `_clauses`. -/
def ActivationFilter.clauses (filters : ActivationFilter) (row : ActivationKey × Rollup) : Bool :=
  (∀ v ∈ filters.entityKey, row.1.entityKey = v) ∧ (∀ v ∈ filters.status, row.2.status = v) ∧
    (∀ v ∈ filters.kind, row.2.kind = v) ∧ (∀ v ∈ filters.model, row.2.model = some v) ∧
    (∀ v ∈ filters.tool, v ∈ row.2.tools) ∧ (∀ v ∈ filters.reason, v ∈ row.2.reasons) ∧
    (∀ t ∈ filters.sinceMs, t ≤ row.2.startedMs) ∧ (∀ t ∈ filters.untilMs, row.2.startedMs < t) ∧
    ∀ q ∈ filters.query, likeQuery q row.1.entityKey ∨ likeQuery q row.2.traceId ∨
      likeQuery q (row.2.model.getD "")

/-- The rows of `activations` that pass a filter. -/
def activationRows (db : ConsoleDb) (filters : ActivationFilter) : List (ActivationKey × Rollup) :=
  db.rollups.activations.entries.filter filters.clauses

/-- What activations are ordered on. -/
def activationOrder (row : ActivationKey × Rollup) : Int ×ₗ String ×ₗ Int :=
  toLex (row.2.startedMs, toLex (row.1.entityKey, row.1.seq))

/-- `activations`. -/
def activations (order : SqliteOrder activationOrder) (db : ConsoleDb) (filters : ActivationFilter)
    (cursor : Option String) (limit : Int) : Option (Page (ActivationKey × Rollup)) :=
  pageOf order activationColumns (activationRows db filters) (truthy cursor) limit

/-- `_status`. -/
def narrowStatus (value : String) : String :=
  if value ∈ ["completed", "suspended", "error", "in_flight"] then value else "in_flight"

/-- `TraceSummary`. -/
structure TraceSummary where
  traceId : String
  entityKey : String
  seq : Int
  events : ℕ
  spans : ℕ
  startedMs : Int
  endedMs : Option Int
  status : String

/-- `_trace_summary` of `_TRACE_COLUMNS`. -/
def traceSummary (records : ConsoleRecords) (row : ActivationKey × Rollup) : TraceSummary where
  traceId := row.2.traceId
  entityKey := row.1.entityKey
  seq := row.1.seq
  events := (traceEvents records row.2.traceId).length
  spans := ((traceEvents records row.2.traceId).map fun p => p.1.spanId).dedup.length
  startedMs := row.2.startedMs
  endedMs := row.2.endedMs
  status := narrowStatus row.2.status

/-- Whether a trace matches a query, by its id, its entity or an attribute of its events. -/
def traceMatches (records : ConsoleRecords) (query : String)
    (row : ActivationKey × Rollup) : Bool :=
  likeQuery query row.2.traceId || likeQuery query row.1.entityKey ||
    (traceEvents records row.2.traceId).any fun p =>
      p.2.attributes.entries.any fun a => likeQuery query a.2

/-- The rows of `traces` for a query. -/
def traceRows (db : ConsoleDb) (query : Option String) : List TraceSummary :=
  (db.rollups.activations.entries.filter fun row =>
    ∀ q ∈ query, traceMatches db.records q row).map (traceSummary db.records)

/-- What traces are ordered on. -/
def traceOrder (row : TraceSummary) : Int ×ₗ String := toLex (row.startedMs, row.traceId)

/-- `traces`. -/
def traces (order : SqliteOrder traceOrder) (db : ConsoleDb) (query cursor : Option String)
    (limit : Int) : Option (Page TraceSummary) :=
  pageOf order timedColumns (traceRows db query) (truthy cursor) limit

/-- The rows of `errors` that pass the filters. -/
def errorRowsFor (castInt : String → Int) (db : ConsoleDb) (reason entityKey : Option String)
    (sinceMs : Option Int) : List UnifiedError :=
  (errorRows castInt db.records).filter fun row =>
    (∀ v ∈ reason, row.reason = v) ∧ (∀ v ∈ entityKey, row.entityKey = v) ∧
      ∀ t ∈ sinceMs, ∃ timeMs ∈ row.eventTimeMs, t ≤ timeMs

/-- What errors are ordered on. Every row has a time. -/
def errorOrder (row : UnifiedError) : Int ×ₗ String ×ₗ Int ×ₗ String :=
  toLex (row.eventTimeMs.getD 0, toLex (row.entityKey, toLex (row.seqKey, row.reason)))

/-- `errors`. -/
def errors (order : SqliteOrder errorOrder) (castInt : String → Int) (db : ConsoleDb)
    (reason entityKey : Option String) (sinceMs : Option Int) (cursor : Option String)
    (limit : Int) : Option (Page UnifiedError) :=
  pageOf order errorColumns (errorRowsFor castInt db reason entityKey sinceMs) (truthy cursor) limit

/-- `EntitySummary`. -/
structure EntitySummary where
  entityKey : String
  activations : ℕ
  firstSeenMs : Int
  lastSeenMs : Int
  errors : ℕ
  totalTokens : Option Int
  latestSeq : Option Int
  latestStatus : String

/-- The first row of a group by `started_ms DESC, seq DESC`. -/
def latestActivation (group : List (ActivationKey × Rollup)) : Option (ActivationKey × Rollup) :=
  group.foldl (fun best row =>
    match best with
    | none => some row
    | some held =>
      if toLex (held.2.startedMs, held.1.seq) < toLex (row.2.startedMs, row.1.seq) then some row
      else some held) none

/-- A group of `_ENTITY_COLUMNS`, which has an activation. -/
def entitySummary (activations : SortedMap ActivationKey Rollup) (entityKey : String) :
    EntitySummary :=
  let group := activations.entries.filter fun row => row.1.entityKey = entityKey
  let tokens := group.filterMap fun row => row.2.totalTokens
  let latest := latestActivation group
  { entityKey
    activations := group.length
    firstSeenMs := (group.map fun row => row.2.startedMs).min?.getD 0
    lastSeenMs := (group.map fun row => row.2.startedMs).max?.getD 0
    errors := (group.map fun row => row.2.errors).sum
    totalTokens := if tokens.isEmpty then none else some tokens.sum
    latestSeq := latest.map fun row => row.1.seq
    latestStatus := narrowStatus ((latest.map fun row => row.2.status).getD "") }

/-- The groups of `entities`. -/
def entityRows (db : ConsoleDb) : List EntitySummary :=
  (db.rollups.activations.entries.map fun row => row.1.entityKey).dedup.map
    (entitySummary db.rollups.activations)

/-- What entities are ordered on. -/
def entityOrder (row : EntitySummary) : Int ×ₗ String := toLex (row.lastSeenMs, row.entityKey)

/-- `entities`, which takes any cursor that is given. -/
def entities (order : SqliteOrder entityOrder) (db : ConsoleDb) (cursor : Option String)
    (limit : Int) : Option (Page EntitySummary) :=
  pageOf order timedColumns (entityRows db) cursor limit

/-! ### Paging -/

/-- A result that answers no continuation of its entity. -/
def orphaned (intentId : String) : ErrorRow :=
  ⟨"6b", reasonOrphaned, "no_continuation:" ++ intentId, 1000, none, .native⟩

end BeamAgents
