import BeamAgents.Console.Records
import BeamAgents.Core.DoFn
import BeamAgents.Memory.Convergence

/-!
# The error store of the console

`console/_store.py` and the rows of `console/_ingest.py`, as far as dead-letter records go. A record
has no id, and is stored under the hash of its payload: a record that is delivered again finds its
own row, and two records with the same payload have one row between them.

## Main definitions

* `ErrorRow`, `errorRow`, `errorId`, `writeErrors`.
* `ErrorTable.rowsFor`: how many rows the table holds for given records.

## Main results

* `rowsFor_writeErrors`: after any deliveries of given records, the rows for them are as many as
  their ids.
* `errorId_inj`: without a collision, the ids tell the materials apart.
-/

namespace BeamAgents

open Containers

/-! ### Rows -/

/-- `_records.ErrorRow`. -/
structure ErrorRow where
  entityKey : String
  reason : String
  detail : String
  eventTimeMs : Int
  seq : Option Int
  provenance : Provenance
  deriving DecidableEq, Repr

/-- How a `seq` is read off a detail. -/
structure DetailReader where
  /-- The integer under `seq` in the JSON object of the detail. -/
  jsonSeq : String → Option Int
  /-- The integer of the first match of `_SEQ_IN_DETAIL`. -/
  scanSeq : String → Option Int

/-- `REASON_INTENT_DEAD_LETTER`. -/
def reasonIntentDeadLetter : String := "intent_dead_letter"

/-- `_seq_from_detail`. -/
def seqFromDetail (reader : DetailReader) (reason detail : String) : Option Int :=
  if reason = reasonIntentDeadLetter then reader.jsonSeq detail
  else if reason ∈ [reasonTtlWipedSuspension, reasonHitlTimeout] then reader.scanSeq detail
  else none

/-- `_error_row`. -/
def errorRow (reader : DetailReader) (error : ActivationError) (provenance : Provenance) :
    ErrorRow where
  entityKey := error.entityKey.hex
  reason := error.reason
  detail := error.detail
  eventTimeMs := error.eventTimeMs
  seq := seqFromDetail reader error.reason error.detail
  provenance := provenance

/-- The text that `_error_id` hashes. -/
def errorMaterial (row : ErrorRow) : String :=
  String.intercalate "\x00"
    [row.entityKey, (row.seq.map toString).getD "", row.reason, toString row.eventTimeMs,
      row.detail]

/-- `_error_id`. -/
def errorId (py : PyLib) (row : ErrorRow) : String :=
  (py.sha256 (errorMaterial row).toUTF8.toList).hex

/-- The `errors` table, by `error_id`. -/
abbrev ErrorTable := Dict String ErrorRow

/-- `_keep_lossless`. -/
def keepLossless (stored excluded : Provenance) : Provenance :=
  if excluded = .otlp ∧ stored ≠ .otlp then stored else excluded

/-- `_ERROR_UPSERT`: only the provenance of a stored row may change. -/
def upsertError (py : PyLib) (table : ErrorTable) (row : ErrorRow) : ErrorTable :=
  match table.get? (errorId py row) with
  | none => table.set (errorId py row) row
  | some stored =>
    table.set (errorId py row)
      { stored with provenance := keepLossless stored.provenance row.provenance }

/-- `_write_errors`. -/
def writeErrors (py : PyLib) (table : ErrorTable) (rows : List ErrorRow) : ErrorTable :=
  rows.foldl (upsertError py) table

/-! ### The rows of given records -/

/-- The id that a record is stored under. -/
def ActivationError.storedId (py : PyLib) (reader : DetailReader) (error : ActivationError) :
    String :=
  errorId py (errorRow reader error .native)

/-- How many rows the table holds for these records. -/
def ErrorTable.rowsFor (py : PyLib) (reader : DetailReader) (records : List ActivationError)
    (table : ErrorTable) : ℕ :=
  (table.keys.filter fun id => id ∈ records.map (·.storedId py reader)).length

section Rows

variable {py : PyLib} {reader : DetailReader} {table : ErrorTable}

theorem mem_keys_set {κ ν : Type} [DecidableEq κ] (d : Dict κ ν) (k k' : κ) (v : ν) :
    k' ∈ (d.set k v).keys ↔ k' ∈ d.keys ∨ k' = k := by
  have hmem (d : Dict κ ν) : k' ∈ d.keys ↔ d.get? k' ≠ none := by
    rw [ne_eq, Dict.get?_eq_none_iff, not_not]
    rfl
  rw [hmem, hmem, Dict.get?_set]
  by_cases hk : k' = k <;> simp [hk]

/-- An upsert enters its id. -/
theorem mem_keys_upsertError (row : ErrorRow) (id : String) :
    id ∈ (upsertError py table row).keys ↔ id ∈ table.keys ∨ id = errorId py row := by
  unfold upsertError
  cases table.get? (errorId py row) <;> exact mem_keys_set table _ id _

/-- Writing enters the ids of the rows, and no other. -/
theorem mem_keys_writeErrors (rows : List ErrorRow) (id : String) :
    id ∈ (writeErrors py table rows).keys ↔ id ∈ table.keys ∨ id ∈ rows.map (errorId py) := by
  induction rows generalizing table with
  | nil => simp [writeErrors]
  | cons row rows ih =>
    have hrest : id ∈ (writeErrors py (upsertError py table row) rows).keys ↔
        id ∈ (upsertError py table row).keys ∨ id ∈ rows.map (errorId py) := ih
    rw [writeErrors, List.foldl_cons]
    rw [writeErrors] at hrest
    rw [hrest, mem_keys_upsertError, List.map_cons, List.mem_cons, or_assoc]

/-- **The rows for given records.** Whatever the table held, and in whatever order and however often
the records are delivered, the rows for them are as many as their ids. -/
theorem rowsFor_writeErrors {records : List ActivationError} {rows : List ErrorRow}
    (h : ∀ id, id ∈ rows.map (errorId py) ↔ id ∈ records.map (·.storedId py reader)) :
    (writeErrors py table rows).rowsFor py reader records =
      (records.map (·.storedId py reader)).toFinset.card := by
  have hnodup : ((writeErrors py table rows).keys.filter
      fun id => id ∈ records.map (·.storedId py reader)).Nodup :=
    (writeErrors py table rows).nodup.filter _
  rw [ErrorTable.rowsFor, ← List.toFinset_card_of_nodup hnodup]
  congr 1
  ext id
  rw [List.mem_toFinset, List.mem_toFinset, List.mem_filter, decide_eq_true_iff,
    mem_keys_writeErrors, h]
  exact and_iff_right_of_imp .inr

/-- No two of the records collide: `sha256` tells their materials apart. -/
def NoCollision (py : PyLib) (reader : DetailReader) (records : List ActivationError) : Prop :=
  ∀ error ∈ records, ∀ error' ∈ records,
    errorMaterial (errorRow reader error .native) ≠ errorMaterial (errorRow reader error' .native) →
    py.sha256 (errorMaterial (errorRow reader error .native)).toUTF8.toList ≠
      py.sha256 (errorMaterial (errorRow reader error' .native)).toUTF8.toList

/-- Without a collision, the ids tell the materials apart. -/
theorem errorId_inj {records : List ActivationError} (hsha : NoCollision py reader records)
    {error error' : ActivationError} (hmem : error ∈ records) (hmem' : error' ∈ records)
    (h : error.storedId py reader = error'.storedId py reader) :
    errorMaterial (errorRow reader error .native) =
      errorMaterial (errorRow reader error' .native) := by
  by_contra hne
  exact hsha error hmem error' hmem' hne (hex_inj h)

end Rows

end BeamAgents
