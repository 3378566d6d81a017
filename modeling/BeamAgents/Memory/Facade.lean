import BeamAgents.Protos
import BeamAgents.Containers.Dict
import BeamAgents.Stores.BigEndian

/-!
# The working-memory facade

`memory/facade.py`: the bounded `MemoryBlob` entries behind a scalar and a ring interface, with
incremental size accounting, the soft and hard caps, and the staging side of the long-term tier.
The entries are kept least-recently-used first: reads and writes move an entry to the end.

A compactor is user code. It is a function of the memory, since cap enforcement is suspended while
it runs, and may raise.

## Main definitions

* `Memory` with `get`, `set`, `delete`, `append`, `ring`, `ofBlob` and `toBlob`.
* `Compactor`.
-/

namespace BeamAgents

open Containers

/-- `HARD_CAP_BYTES`. -/
def hardCapBytes : ℕ := 1048576

/-- `_SOFT_CAP_BYTES`. -/
def softCapBytes : ℕ := hardCapBytes * 3 / 4

/-- `_KIND_SCALAR`, the first byte of a stored scalar. -/
def kindScalar : UInt8 := 0

/-- `_KIND_RING`, the first byte of a stored ring. -/
def kindRing : UInt8 := 1

/-- `facade._Entry`. -/
structure MemEntry where
  value : Bytes
  lastAccessMs : Int
  deriving DecidableEq, Repr

/-- The state of a `Memory` facade. -/
structure Memory where
  nowMs : Int
  entries : Dict String MemEntry
  total : ℕ
  dirty : Bool
  softCapWarned : Bool

/-- `Compactor.compact`: shrinks the memory in place, and may raise. -/
abbrev Compactor := Memory → Memory × Option PyExn

/-! ### Value encoding -/

/-- `_RING_LEN_PREFIX`. -/
def ringLenPrefix : ℕ := 4

/-- The `OverflowError` of a length that does not fit its bytes. -/
def lengthOverflow (py : PyLib) : PyExn where
  typeName := "OverflowError"
  repr := py.exnRepr "OverflowError" "int too big to convert"

/-- `int.to_bytes(_RING_LEN_PREFIX, "big")`. -/
def encodeLength (py : PyLib) (n : ℕ) : Except PyExn Bytes :=
  if n < 256 ^ ringLenPrefix then .ok (Stores.bigEndian ringLenPrefix n)
  else .error (lengthOverflow py)

/-- `int.from_bytes(prefix, "big")`. -/
def decodeLength (b : Bytes) : ℕ := Stores.ofBigEndian b

/-- `_encode_scalar`. -/
def encodeScalar (value : Bytes) : Bytes := kindScalar :: value

/-- The loop of `_encode_ring`, which writes each item behind its length. -/
def encodeRingItems (py : PyLib) : List Bytes → Except PyExn Bytes
  | [] => .ok []
  | item :: items =>
    match encodeLength py item.length with
    | .error e => .error e
    | .ok length => (encodeRingItems py items).map fun rest => length ++ item ++ rest

/-- `_encode_ring`. -/
def encodeRing (py : PyLib) (items : List Bytes) : Except PyExn Bytes :=
  (encodeRingItems py items).map (kindRing :: ·)

/-- The `ValueError` of a corrupt ring entry. -/
def corruptRing (py : PyLib) (what : String) : PyExn where
  typeName := "ValueError"
  repr := py.exnRepr "ValueError" s!"corrupt ring entry: truncated {what}"

/-- The loop of `_decode_ring` over the bytes after the kind tag. -/
def decodeRingItems (py : PyLib) : (fuel : ℕ) → Bytes → Except PyExn (List Bytes)
  | _, [] => .ok []
  | 0, _ => .ok []
  | fuel + 1, b =>
    if b.length < ringLenPrefix then .error (corruptRing py "length prefix")
    else
      let length := decodeLength (b.take ringLenPrefix)
      let rest := b.drop ringLenPrefix
      if rest.length < length then .error (corruptRing py "item")
      else match decodeRingItems py fuel (rest.drop length) with
        | .error e => .error e
        | .ok items => .ok (rest.take length :: items)

/-- `_decode_ring`: each item takes at least four bytes, so the length bounds the loop. -/
def decodeRing (py : PyLib) (encoded : Bytes) : Except PyExn (List Bytes) :=
  decodeRingItems py encoded.length (encoded.drop 1)

namespace Memory

variable (py : PyLib) (compactor : Option Compactor)

/-- `Memory.__init__` from a stored blob. -/
def ofBlob (blob : Option MemoryBlob) (nowMs : Int) : Memory :=
  let stored := (blob.map MemoryBlob.entries).getD []
  { nowMs := nowMs
    entries := Dict.ofList (stored.map fun e => (e.key, ⟨e.value, e.lastAccessMs⟩))
    total := (stored.map fun e => e.value.length).sum
    dirty := false
    softCapWarned := false }

/-- `Memory.to_blob`, stamped with the current schema version. -/
def toBlob (m : Memory) (current : ℕ) : MemoryBlob where
  stateSchemaVersion := current
  entries := m.entries.items.map fun p => ⟨p.1, p.2.value, p.2.lastAccessMs⟩
  totalValueBytes := m.total

/-- `Memory._touch`. -/
def touch (m : Memory) (key : String) (entry : MemEntry) : Memory :=
  { m with
    entries := (m.entries.erase key).set key { entry with lastAccessMs := m.nowMs }
    dirty := true }

/-- The `TypeError` of an access of the wrong kind. -/
def kindMismatch (message : String) : PyExn where
  typeName := "TypeError"
  repr := py.exnRepr "TypeError" message

/-- `entry.value[0] != kind` guards an access: an empty value raises on its own. -/
def checkKind (entry : MemEntry) (kind : UInt8) (message : String) : Except PyExn Unit :=
  match entry.value.head? with
  | none => .error ⟨.other, "IndexError", "IndexError('index out of range')"⟩
  | some k => if k ≠ kind then .error (kindMismatch py message) else .ok ()

/-- `Memory.get`. -/
def get (m : Memory) (key : String) : Memory × Except PyExn (Option Bytes) :=
  match m.entries.get? key with
  | none => (m, .ok none)
  | some entry =>
    match checkKind py entry kindScalar
        s!"key {py.reprStr key} holds a ring; use ring() instead of get()" with
    | .error e => (m, .error e)
    | .ok () => (m.touch key entry, .ok (some (entry.value.drop 1)))

/-- `Memory.ring`. -/
def ring (m : Memory) (key : String) : Memory × Except PyExn (List Bytes) :=
  match m.entries.get? key with
  | none => (m, .ok [])
  | some entry =>
    match checkKind py entry kindRing
        s!"key {py.reprStr key} holds a scalar; use get() instead of ring()" with
    | .error e => (m, .error e)
    | .ok () =>
      match decodeRing py entry.value with
      | .error e => (m, .error e)
      | .ok items => (m.touch key entry, .ok items)

/-- `Memory.delete`. -/
def delete (m : Memory) (key : String) : Memory :=
  match m.entries.get? key with
  | none => m
  | some entry =>
    { m with
      entries := m.entries.erase key
      total := m.total - entry.value.length
      dirty := true }

/-- `Memory._prospective_total`. -/
def prospectiveTotal (m : Memory) (key : String) (newEncoded : Bytes) : ℕ :=
  m.total + newEncoded.length - ((m.entries.get? key).map fun e => e.value.length).getD 0

/-- `Memory._commit`. -/
def commitEntry (m : Memory) (key : String) (newEncoded : Bytes) : Memory :=
  { m with
    total := m.prospectiveTotal key newEncoded
    entries := (m.entries.erase key).set key ⟨newEncoded, m.nowMs⟩
    dirty := true }

/-- `Memory._run_compactor`: the compactor's own writes are not enforced. -/
def runCompactor (compact : Compactor) (m : Memory) : Memory × Option PyExn := compact m

/-- `Memory._maybe_soft_cap`. -/
def maybeSoftCap (m : Memory) : Memory × Option PyExn :=
  if m.softCapWarned || m.total < softCapBytes then (m, none)
  else
    let warned := { m with softCapWarned := true }
    match compactor with
    | none => (warned, none)
    | some compact => runCompactor compact warned

/-- `MemoryOverflow`. -/
def memoryOverflow (key : String) (attempted : ℕ) : PyExn where
  typeName := "MemoryOverflow"
  repr := py.exnRepr "MemoryOverflow"
    (s!"working memory for key {py.reprStr key} would reach {attempted} bytes, " ++
      s!"over the {hardCapBytes}-byte hard cap")

/-- Commit the computed value and handle the soft cap, the tail of `_guarded_write`. -/
def finishWrite (m : Memory) (key : String) (newEncoded : Bytes) : Memory × Option PyExn :=
  maybeSoftCap compactor (m.commitEntry key newEncoded)

/-- `Memory._guarded_write` with cap enforcement on: check, compact, reject. -/
def guardedWrite (m : Memory) (key : String) (compute : Memory → Except PyExn Bytes) :
    Memory × Option PyExn :=
  match compute m with
  | .error e => (m, some e)
  | .ok newEncoded =>
    let prospective := m.prospectiveTotal key newEncoded
    if prospective ≤ hardCapBytes then finishWrite compactor m key newEncoded
    else match compactor with
      | none => (m, some (memoryOverflow py key prospective))
      | some compact =>
        match runCompactor compact m with
        | (m', some e) => (m', some e)
        | (m', none) =>
          -- The value is computed again, against the memory the compactor left.
          match compute m' with
          | .error e => (m', some e)
          | .ok again =>
            let prospective' := m'.prospectiveTotal key again
            if prospective' ≤ hardCapBytes then finishWrite compactor m' key again
            else (m', some (memoryOverflow py key prospective'))

/-- `Memory.set`. -/
def set (m : Memory) (key : String) (value : Bytes) : Memory × Option PyExn :=
  guardedWrite py compactor m key fun _ => .ok (encodeScalar value)

/-- What `append` writes, computed against the memory at hand: a compactor may have dropped the key
in between. `items[-max_items:]` keeps the newest items. -/
def appended (m : Memory) (key : String) (item : Bytes) (maxItems : Int) : Except PyExn Bytes :=
  let stored := match m.entries.get? key with
    | none => Except.ok []
    | some entry => decodeRing py entry.value
  match stored with
  | .error e => .error e
  | .ok items =>
    let items := items ++ [item]
    encodeRing py (if 0 < maxItems then items.drop (items.length - maxItems.toNat) else [])

/-- `Memory.append`. -/
def append (m : Memory) (key : String) (item : Bytes) (maxItems : Int := 64) :
    Memory × Option PyExn :=
  let existing := match m.entries.get? key with
    | none => Except.ok ()
    | some entry => checkKind py entry kindRing
        s!"key {py.reprStr key} holds a scalar; append() requires a ring"
  match existing with
  | .error e => (m, some e)
  | .ok () => guardedWrite py compactor m key fun m => m.appended py key item maxItems

end Memory

end BeamAgents
