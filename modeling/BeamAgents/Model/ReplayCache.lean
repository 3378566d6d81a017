import BeamAgents.Observability.Traces
import BeamAgents.Containers.Dict

/-!
# The replay cache and the token budget

`model/replay_cache.py`: the bounded, least-recently-used cache of provider responses that makes a
retried activation reach the provider no second time, and `TokenBudget` of `model/facade.py`, the
meter of one activation attempt. The entries are kept least-recently-used first; the byte cap is
checked against the serialized size of the blob, which is tracked entry by entry.

## Main definitions

* `ReplayCache` with `get`, `put`, `ofBlob` and `toBlob`, and `computeCacheKey`.
* `TokenBudget` with `check` and `charge`.
-/

namespace BeamAgents

open Containers

/-- `MAX_ENTRIES`. -/
def maxEntries : ℕ := 64

/-- `TTL_MS`, six hours. -/
def replayTtlMs : Int := 21600000

/-- `BLOB_CAP_BYTES`. -/
def blobCapBytes : ℕ := 102400

/-- `_varint_len`. -/
def varintLen (value : ℕ) : ℕ :=
  if value < 128 then 1 else 1 + varintLen (value / 128)

/-- The wire size of a length-delimited field with a one-byte tag; proto3 omits an empty one. -/
def bytesFieldSize (length : ℕ) : ℕ :=
  if length = 0 then 0 else 1 + varintLen length + length

/-- The wire size of an `int64` field with a one-byte tag: negative values take ten bytes. -/
def int64FieldSize (value : Int) : ℕ :=
  if value = 0 then 0 else if value < 0 then 11 else 1 + varintLen value.toNat

/-- `replay_cache._Entry`, without its cached wire size. -/
structure CacheEntry where
  response : Bytes
  responseDigest : Bytes
  createdAtMs : Int
  lastAccessMs : Int
  digestOnly : Bool
  deriving DecidableEq, Repr

/-- `_entry_wire_size`: tag, length prefix and the entry message's `ByteSize()`. -/
def entryWireSize (cacheKey : String) (e : CacheEntry) : ℕ :=
  let payload := bytesFieldSize cacheKey.utf8ByteSize + bytesFieldSize e.response.length +
    bytesFieldSize e.responseDigest.length + int64FieldSize e.createdAtMs +
    int64FieldSize e.lastAccessMs + (if e.digestOnly then 2 else 0)
  1 + varintLen payload + payload

/-- `_blob_header_size`. -/
def blobHeaderSize (totalResponseBytes : ℕ) : ℕ :=
  2 + if totalResponseBytes ≠ 0 then 1 + varintLen totalResponseBytes else 0

/-- What a model call asks for. `canonical` is what `json.dumps` makes of its messages, tools
schema and sampling parameters, in this order, or what it raises on a value that is not JSON. -/
structure LlmRequest where
  modelId : String
  canonical : Except PyExn (String × String × String)

/-- `compute_cache_key`: the sha256 of the canonical document, its fields in sorted order.
`jsonStr` is the JSON text of a string. -/
def computeCacheKey (py : PyLib) (request : LlmRequest) (entityKey : Bytes) (seq : ℕ) :
    Except PyExn String :=
  request.canonical.map fun (messages, tools, params) =>
    let document := "\x7b\"key\":\"" ++ entityKey.hex ++ "\",\"messages\":" ++ messages ++
      ",\"model\":" ++ py.jsonStr request.modelId ++ ",\"params\":" ++ params ++ ",\"seq\":" ++
      toString seq ++ ",\"tools\":" ++ tools ++ "\x7d"
    (py.sha256 document.toUTF8.toList).hex

/-- The state of a `ReplayCache`. An entry is stored with its wire size. -/
structure ReplayCache where
  nowMs : Int
  entries : Dict String (CacheEntry × ℕ)
  responseTotal : ℕ
  entriesWireTotal : ℕ
  dirty : Bool

namespace ReplayCache

variable (c : ReplayCache)

/-- `ReplayCache.__init__`. -/
def ofBlob (blob : Option LlmCacheBlob) (nowMs : Int) : ReplayCache :=
  let stored := ((blob.map LlmCacheBlob.entries).getD []).map fun e =>
    let entry : CacheEntry :=
      ⟨e.response, e.responseDigest, e.createdAtMs, e.lastAccessMs, e.digestOnly⟩
    (e.cacheKey, (entry, entryWireSize e.cacheKey entry))
  { nowMs := nowMs
    entries := Dict.ofList stored
    responseTotal := (stored.map fun p => p.2.1.response.length).sum
    entriesWireTotal := (stored.map fun p => p.2.2).sum
    dirty := false }

/-- `ReplayCache.to_blob`. -/
def toBlob (current : ℕ) : LlmCacheBlob where
  stateSchemaVersion := current
  entries := c.entries.items.map fun p =>
    ⟨p.1, p.2.1.response, p.2.1.responseDigest, p.2.1.createdAtMs, p.2.1.lastAccessMs,
      p.2.1.digestOnly⟩
  totalResponseBytes := c.responseTotal

/-- `ReplayCache._is_expired`: the age equal to the TTL is still live. -/
def isExpired (entry : CacheEntry) : Bool := c.nowMs - entry.createdAtMs > replayTtlMs

/-- `ReplayCache._remove`. -/
def remove (cacheKey : String) : ReplayCache :=
  match c.entries.get? cacheKey with
  | none => c
  | some (entry, wireSize) =>
    { c with
      entries := c.entries.erase cacheKey
      responseTotal := c.responseTotal - entry.response.length
      entriesWireTotal := c.entriesWireTotal - wireSize }

/-- `ReplayCache.get`: an expired entry is purged and reported as a miss. -/
def get (cacheKey : String) : ReplayCache × Option CacheEntry :=
  match c.entries.get? cacheKey with
  | none => (c, none)
  | some (entry, wireSize) =>
    if c.isExpired entry then ({ c.remove cacheKey with dirty := true }, none)
    else
      ({ c with
        entries := (c.entries.erase cacheKey).set cacheKey
          ({ entry with lastAccessMs := c.nowMs }, wireSize)
        dirty := true }, some entry)

/-- `ReplayCache._purge_expired`. -/
def purgeExpired : ReplayCache :=
  (c.entries.items.filter fun p => c.isExpired p.2.1).foldl
    (fun c p => { c.remove p.1 with dirty := true }) c

/-- `ReplayCache._evict_least_recently_used`: drop the first entry. -/
def evictLeastRecentlyUsed : ReplayCache :=
  match c.entries.items with
  | [] => c
  | (lruKey, _) :: _ => c.remove lruKey

/-- A `while` loop of evictions. Each drops an entry, so the number of entries bounds it. -/
def evictWhile (exceeds : ReplayCache → Bool) : (fuel : ℕ) → ReplayCache → ReplayCache
  | 0, c => c
  | fuel + 1, c => if exceeds c then evictWhile exceeds fuel c.evictLeastRecentlyUsed else c

/-- The loop condition of `_evict_over_count`. -/
def overCount : Bool := maxEntries < c.entries.size

/-- The loop condition of `_evict_over_bytes`. -/
def overBytes : Bool :=
  1 < c.entries.size && blobCapBytes < blobHeaderSize c.responseTotal + c.entriesWireTotal

/-- `ReplayCache.put`: a response that fits no blob is kept by its digest only. -/
def put (py : PyLib) (cacheKey : String) (response : Bytes) : ReplayCache :=
  let purged := c.purgeExpired
  let digest := py.sha256 response
  let full : CacheEntry := ⟨response, digest, c.nowMs, c.nowMs, false⟩
  let entry : CacheEntry :=
    if blobCapBytes < blobHeaderSize response.length + entryWireSize cacheKey full then
      ⟨[], digest, c.nowMs, c.nowMs, true⟩
    else full
  let wireSize := entryWireSize cacheKey entry
  let removed := purged.remove cacheKey
  let inserted := { removed with
    entries := removed.entries.set cacheKey (entry, wireSize)
    responseTotal := removed.responseTotal + entry.response.length
    entriesWireTotal := removed.entriesWireTotal + wireSize
    dirty := true }
  let counted := evictWhile overCount inserted.entries.size inserted
  evictWhile overBytes counted.entries.size counted

end ReplayCache

/-! ### The token budget -/

/-- The per-attempt token meter behind `max_tokens_per_activation`. -/
structure TokenBudget where
  limit : ℕ
  consumed : Int := 0
  exhausted : Bool := false
  deriving DecidableEq, Repr

/-- `BudgetExceeded`. -/
def budgetExceeded (limit : ℕ) (consumed : Int) : PyExn where
  cls := .budgetExceeded
  typeName := "BudgetExceeded"
  repr := s!"BudgetExceeded(limit={limit}, consumed={consumed})"

namespace TokenBudget

variable (b : TokenBudget)

/-- `TokenBudget.check`: what the entry guard raises. -/
def check : Option PyExn :=
  if b.exhausted then some (budgetExceeded b.limit b.consumed) else none

/-- `TokenBudget.charge`: the crossing charge is the one that raises, and it latches. -/
def charge (totalTokens : Int) : TokenBudget × Option PyExn :=
  match b.check with
  | some e => (b, some e)
  | none =>
    let consumed := b.consumed + totalTokens
    if b.limit < consumed then
      ({ b with consumed := consumed, exhausted := true }, some (budgetExceeded b.limit consumed))
    else ({ b with consumed := consumed }, none)

end TokenBudget

end BeamAgents
