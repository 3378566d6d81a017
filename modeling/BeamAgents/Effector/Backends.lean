import BeamAgents.Effector.Claims
import BeamAgents.Stores.BigEndian
import BeamAgents.Stores.Expiring
import BeamAgents.Stores.Rows

/-!
# The dedup stores over Redis and Bigtable

`RedisDedupStore` and `BigtableDedupStore` of `effector/dedup.py`, as what one call does to the
entries of a Redis server and to a row of a Bigtable table. A call takes place at one instant, which
the clock of the process and that of the server share; the claim's token is the one that it mints. A
call that raises an error changes nothing, and gives no answer.

A Redis entry holds a tag and a payload, and expires by itself. A Bigtable row holds the expiry and
the owner of a claim in two columns, and the result and the expiry of a terminal record in two
others; the superseded versions of a column stay in it, and so does an expired claim until somebody
claims again.

## Main definitions

* `RedisDedupStore.claim`, `complete`, `release`.
* `BigtableDedupStore.claim`, `complete`, `release`.
* `DedupOp`, `DedupAnswer`, and what each of the three stores does with a call:
  `DedupRecords.perform`, `RedisDedupStore.perform`, `BigtableDedupStore.perform`.
-/

namespace BeamAgents

open Stores Lease

/-- `_encode_claim`. -/
def Codec.encodeClaim (c : Codec) (token : ℕ) : Bytes := tagClaim ++ c.encodeToken token

@[simp] theorem Codec.encodeClaim_inj (c : Codec) {a b : ℕ} :
    c.encodeClaim a = c.encodeClaim b ↔ a = b := by
  rw [encodeClaim, encodeClaim, List.append_cancel_left_eq]
  exact c.encodeToken_injective.eq_iff

/-! ### Redis -/

/-- A Redis server, and the prefix of the store's keys. -/
structure RedisDedupStore where
  rule : ExpiryRule
  keyPrefix : String := "beam-agents:intent:"

namespace RedisDedupStore

variable (c : Codec) (store : RedisDedupStore) (db : ExpiringDb) (now : Int)
  (intentId : String)

/-- `_key`. -/
def key : String := store.keyPrefix ++ intentId

/-- `claim`: a losing `SET NX PX` reads what is stored. -/
def claim (leaseMs : Int) (token : ℕ) : Option (ExpiringDb × ClaimOutcome) :=
  match db.setNxPx store.rule now (store.key intentId) (c.encodeClaim token) leaseMs with
  | none => none
  | some (db, true) => some (db, .claimed token)
  | some (db, false) =>
    match db.get store.rule now (store.key intentId) with
    | none => some (db, .inFlight)
    | some existing =>
      if existing.take 1 = tagDone then
        some (db, .done (c.decodeDone (existing.drop 1)))
      else some (db, .inFlight)

/-- `complete` and its script. -/
def complete (token : ℕ) (result : Option ToolResult) (ttlMs : Int) :
    Option (ExpiringDb × Bool) :=
  if db.get store.rule now (store.key intentId) = some (c.encodeClaim token) then
    match db.setPx now (store.key intentId) (c.encodeDone result) ttlMs with
    | none => none
    | some db => some (db, true)
  else some (db, false)

/-- `release` and its script. -/
def release (token : ℕ) : ExpiringDb × Bool :=
  if db.get store.rule now (store.key intentId) = some (c.encodeClaim token) then
    (db.del (store.key intentId), true)
  else (db, false)

end RedisDedupStore

/-! ### Bigtable -/

namespace BigtableDedupStore

/-- `COLUMN_FAMILY`, the letter d. -/
def columnFamily : Bytes := [100]

/-- `CLAIM_COLUMN`, the bytes of claim. -/
def claimColumn : Bytes := [99, 108, 97, 105, 109]

/-- `OWNER_COLUMN`, the bytes of owner. -/
def ownerColumn : Bytes := [111, 119, 110, 101, 114]

/-- `RESULT_COLUMN`, the bytes of result. -/
def resultColumn : Bytes := [114, 101, 115, 117, 108, 116]

/-- `RESULT_EXPIRY_COLUMN`, the bytes of rexp. -/
def resultExpiryColumn : Bytes := [114, 101, 120, 112]

end BigtableDedupStore

/-- What the server's regular expressions match. The names of the family and of the columns have no
special characters. -/
structure BigtableDedupStore where
  regex : Bytes → Bytes → Bool
  literal_columnFamily : Literal regex BigtableDedupStore.columnFamily
  literal_claimColumn : Literal regex BigtableDedupStore.claimColumn
  literal_ownerColumn : Literal regex BigtableDedupStore.ownerColumn
  literal_resultExpiryColumn : Literal regex BigtableDedupStore.resultExpiryColumn

namespace BigtableDedupStore

/-- `_encode_lease_expiry`; a number that eight bytes do not hold is an error. -/
def encodeLeaseExpiry (expiresAtMs : Int) : Option Bytes :=
  if 0 ≤ expiresAtMs ∧ expiresAtMs < 2 ^ 64 then some (bigEndian 8 expiresAtMs.toNat) else none

/-- `_decode_lease_expiry`; fewer than eight bytes are an error. -/
def decodeLeaseExpiry (encoded : Bytes) : Option Int :=
  if 8 ≤ encoded.length then some (ofBigEndian (encoded.take 8)) else none

variable (c : Codec) (store : BigtableDedupStore) (row : Row) (now : Int)

/-- `_live_expiry_filter`. -/
def liveExpiryFilter (column : Bytes) : Option RowFilter :=
  (encodeLeaseExpiry now).map fun start =>
    RowFilter.chain [RowFilter.familyName store.regex columnFamily,
      RowFilter.columnQualifier store.regex column, RowFilter.cellsColumnLimit 1,
      RowFilter.valueAbove start]

/-- `_live_claim_filter`. -/
def liveClaimFilter : Option RowFilter := store.liveExpiryFilter now claimColumn

/-- `_live_result_filter`. -/
def liveResultFilter : Option RowFilter := store.liveExpiryFilter now resultExpiryColumn

/-- `_taken_filter`. -/
def takenFilter : Option RowFilter :=
  (store.liveClaimFilter now).bind fun liveClaim =>
    (store.liveResultFilter now).map fun liveResult => RowFilter.union [liveClaim, liveResult]

/-- `_read_state`. -/
def readState : Option ClaimOutcome :=
  let cells := Row.byQualifier (RowFilter.chain [RowFilter.familyName store.regex columnFamily,
    RowFilter.cellsColumnLimit 1] row)
  match cells resultColumn, cells resultExpiryColumn with
  | some stored, some expiry =>
    (decodeLeaseExpiry expiry).map fun expiresAtMs =>
      if now < expiresAtMs then .done (c.decodeDone stored) else .inFlight
  | _, _ => some .inFlight

/-- `claim`. -/
def claim (leaseMs : Int) (token : ℕ) : Option (Row × ClaimOutcome) :=
  (store.takenFilter now).bind fun filter =>
    (encodeLeaseExpiry (now + leaseMs)).bind fun expiry =>
      match row.checkAndMutate now filter [] [.setCell columnFamily claimColumn expiry,
          .setCell columnFamily ownerColumn (c.encodeToken token)] with
      | (row, true) => (store.readState c row now).map (row, ·)
      | (row, false) => some (row, .claimed token)

/-- `_owner_filter`. -/
def ownerFilter (token : ℕ) : RowFilter :=
  RowFilter.chain [RowFilter.familyName store.regex columnFamily,
    RowFilter.columnQualifier store.regex ownerColumn, RowFilter.cellsColumnLimit 1,
    RowFilter.valueRegex store.regex (c.encodeToken token)]

/-- `complete`. -/
def complete (token : ℕ) (result : Option ToolResult) (ttlMs : Int) : Option (Row × Bool) :=
  (encodeLeaseExpiry (now + ttlMs)).map fun expiry =>
    row.checkAndMutate now (store.ownerFilter c token)
      [.setCell columnFamily resultColumn ((c.encodeDone result).drop tagDone.length),
        .setCell columnFamily resultExpiryColumn expiry,
        .deleteColumn columnFamily claimColumn, .deleteColumn columnFamily ownerColumn] []

/-- `release`. -/
def release (token : ℕ) : Row × Bool :=
  row.checkAndMutate now (store.ownerFilter c token)
    [.deleteColumn columnFamily claimColumn, .deleteColumn columnFamily ownerColumn] []

end BigtableDedupStore

/-! ### Calls and answers -/

/-- A call on one intent. -/
inductive DedupOp
  | claim (leaseMs : Int) (token : ℕ)
  | complete (token : ℕ) (result : Option ToolResult) (ttlMs : Int)
  | release (token : ℕ)
  deriving DecidableEq, Repr

/-- The answer to a call; `raised` when there is none. -/
inductive DedupAnswer
  | claim (outcome : ClaimOutcome)
  | complete (done : Bool)
  | release (done : Bool)
  | raised
  deriving DecidableEq, Repr

/-- What the in-memory store does with a call. -/
def DedupRecords.perform (c : Codec) (records : DedupRecords) (now : Int) (intentId : String) :
    DedupOp → DedupRecords × DedupAnswer
  | .claim leaseMs token =>
    (DedupRecords.claim c records now now intentId leaseMs token).map id .claim
  | .complete token result ttlMs =>
    (DedupRecords.complete c records now now intentId token result ttlMs).map id .complete
  | .release token => (DedupRecords.release c records now intentId token).map id .release

/-- What the Redis store does with a call. -/
def RedisDedupStore.perform (c : Codec) (store : RedisDedupStore) (db : ExpiringDb)
    (now : Int) (intentId : String) : DedupOp → ExpiringDb × DedupAnswer
  | .claim leaseMs token =>
    match store.claim c db now intentId leaseMs token with
    | none => (db, .raised)
    | some (db, outcome) => (db, .claim outcome)
  | .complete token result ttlMs =>
    match store.complete c db now intentId token result ttlMs with
    | none => (db, .raised)
    | some (db, done) => (db, .complete done)
  | .release token => (store.release c db now intentId token).map id .release

/-- What the Bigtable store does with a call on the row of an intent. -/
def BigtableDedupStore.perform (c : Codec) (store : BigtableDedupStore) (row : Row)
    (now : Int) : DedupOp → Row × DedupAnswer
  | .claim leaseMs token =>
    match store.claim c row now leaseMs token with
    | none => (row, .raised)
    | some (row, outcome) => (row, .claim outcome)
  | .complete token result ttlMs =>
    match store.complete c row now token result ttlMs with
    | none => (row, .raised)
    | some (row, done) => (row, .complete done)
  | .release token => (store.release c row now token).map id .release

end BeamAgents
