import BeamAgents.Observability.Traces
import BeamAgents.Protos.Envelopes
import BeamAgents.Stores.BigEndian
import Mathlib.Data.Int.CardIntervalMod

/-!
# Hot-key sharding

`shard_key`, `unshard_key` and `ShardKeys` of `keys.py`: one logical key is fanned out over `n`
physical keys, each of which is a key of its own to the transform. An element goes to the shard that
the hash of its payload names or, on request, to the next one of a counter that all transforms of a
worker share.

## Main definitions

* `shardKey`, `unshardKey`, `hashPayload`.
* `ShardKeys`, `ShardKeys.new`, `ShardKeys.process`, `ShardKeys.run`.

## Main results

* `unshardKey_eq_ok_iff`: the keys that `unshard_key` takes.
* `ShardKeys.sharded`: what a sharded stream is, and when a retry repeats it.
-/

namespace BeamAgents

open Wire Stores

/-! ### Bytes as text -/

/-- One byte of `repr` of a `bytes` between the given quotes. -/
def Bytes.reprByte (quote x : UInt8) : List Char :=
  if x = quote ∨ x = 92 then ['\x5c', Char.ofNat x.toNat]
  else if x = 9 then ['\x5c', 't']
  else if x = 10 then ['\x5c', 'n']
  else if x = 13 then ['\x5c', 'r']
  else if x < 32 ∨ 127 ≤ x then
    ['\x5c', 'x', hexDigit (x.toNat / 16), hexDigit (x.toNat % 16)]
  else [Char.ofNat x.toNat]

/-- `repr` of a `bytes`: in double quotes if single ones occur in it and double ones do not. -/
def Bytes.repr (b : Bytes) : String :=
  let quote : UInt8 := if 39 ∈ b ∧ 34 ∉ b then 34 else 39
  String.ofList ('b' :: Char.ofNat quote.toNat :: (b.flatMap (reprByte quote) ++
    [Char.ofNat quote.toNat]))

/-- `bytes.rpartition` at a byte; `none` when the byte does not occur. -/
def Bytes.rpartition (sep : UInt8) : Bytes → Option (Bytes × Bytes)
  | [] => none
  | x :: rest =>
    match rpartition sep rest with
    | some (before, after) => some (x :: before, after)
    | none => if x = sep then some ([], rest) else none

/-- `bytes.isdigit()`. -/
def Bytes.isDigits (b : Bytes) : Bool := b ≠ [] && b.all fun x => 48 ≤ x && x ≤ 57

/-- `str(n).encode("ascii")`. -/
def asciiDigits (n : ℕ) : Bytes := (Nat.toDigits 10 n).map fun c => UInt8.ofNat c.toNat

namespace Bytes

variable {sep : UInt8} {b before after : Bytes}

theorem rpartition_of_notMem (h : sep ∉ b) : rpartition sep b = none := by
  induction b with
  | nil => rfl
  | cons x rest ih =>
    rw [List.mem_cons, not_or] at h
    rw [rpartition, ih h.2]
    exact if_neg (Ne.symm h.1)

theorem rpartition_append (h : sep ∉ after) :
    rpartition sep (before ++ sep :: after) = some (before, after) := by
  induction before with
  | nil => rw [List.nil_append, rpartition, rpartition_of_notMem h]; exact if_pos rfl
  | cons x before ih => rw [List.cons_append, rpartition, ih]

/-- Bytes are parted where the separator occurs for the last time. -/
theorem rpartition_eq_some_iff :
    rpartition sep b = some (before, after) ↔ b = before ++ sep :: after ∧ sep ∉ after := by
  refine ⟨fun h => ?_, fun ⟨hb, hnot⟩ => hb ▸ rpartition_append hnot⟩
  have hmem : sep ∈ b := by
    by_contra hnot
    rw [rpartition_of_notMem hnot] at h
    cases h
  -- The last occurrence of the separator parts the bytes, in this way and in no other.
  obtain ⟨after', before', hb, hnot⟩ := List.eq_append_cons_of_mem (List.mem_reverse.mpr hmem)
  have hsplit : b = before'.reverse ++ sep :: after'.reverse := by
    rw [← List.reverse_reverse b, hb]
    simp
  have hnot' : sep ∉ after'.reverse := by simpa using hnot
  rw [hsplit, rpartition_append hnot'] at h
  cases h
  exact ⟨hsplit, hnot'⟩

end Bytes

/-- The character that a byte of a decimal text stands for. -/
private theorem ofNat_toNat_digit {c : Char} (h : c.isDigit) :
    48 ≤ UInt8.ofNat c.toNat ∧ UInt8.ofNat c.toNat ≤ 57 ∧
      Char.ofNat (UInt8.ofNat c.toNat).toNat = c := by
  have hrange : 48 ≤ c.toNat ∧ c.toNat ≤ 57 := by
    simpa [Char.isDigit, UInt32.le_iff_toNat_le] using h
  have hbyte : (UInt8.ofNat c.toNat).toNat = c.toNat := by
    rw [UInt8.toNat_ofNat']
    omega
  rw [UInt8.le_iff_toNat_le, UInt8.le_iff_toNat_le, hbyte]
  exact ⟨hrange.1, hrange.2, Char.ofNat_toNat c⟩

private theorem mem_toDigits {n : ℕ} {c : Char} (h : c ∈ Nat.toDigits 10 n) : c.isDigit :=
  Nat.isDigit_of_mem_toDigits (by decide) (by decide) h

theorem Bytes.isDigits_iff {b : Bytes} : b.isDigits ↔ b ≠ [] ∧ ∀ x ∈ b, 48 ≤ x ∧ x ≤ 57 := by
  simp only [isDigits, Bool.and_eq_true, decide_eq_true_eq, List.all_eq_true]

theorem isDigits_asciiDigits (n : ℕ) : (asciiDigits n).isDigits := by
  have hne : asciiDigits n ≠ [] := by
    simp [asciiDigits]
  refine Bytes.isDigits_iff.mpr ⟨hne, fun x hx => ?_⟩
  obtain ⟨c, hc, rfl⟩ := List.mem_map.mp hx
  have hdigit := ofNat_toNat_digit (mem_toDigits hc)
  exact ⟨hdigit.1, hdigit.2.1⟩

theorem asciiDigits_inj {m n : ℕ} (h : asciiDigits m = asciiDigits n) : m = n := by
  have hback (n : ℕ) : (asciiDigits n).map (fun x => Char.ofNat x.toNat) = Nat.toDigits 10 n := by
    rw [asciiDigits, List.map_map]
    exact (List.map_congr_left fun c hc => (ofNat_toNat_digit (mem_toDigits hc)).2.2).trans
      (List.map_id _)
  have hdigits : Nat.toDigits 10 m = Nat.toDigits 10 n := by rw [← hback, ← hback, h]
  rw [← Nat.ofDigitChars_ten_toDigits (n := m), hdigits, Nat.ofDigitChars_ten_toDigits]

/-! ### Keys of shards -/

variable (py : PyLib)

/-- `SHARD_DELIMITER`. -/
def shardDelimiter : UInt8 := 35

/-- `_DIGEST_BYTES`. -/
def digestBytes : ℕ := 8

/-- A shard count below one is refused. -/
def shardCountError (what : String) (n : Int) : PyExn where
  typeName := "ValueError"
  repr := py.exnRepr "ValueError" s!"{what} must be >= 1, got {n}"

/-- The error of a key that is not one of a shard. -/
def notSharded (key : Bytes) : PyExn where
  typeName := "ValueError"
  repr := py.exnRepr "ValueError"
    (s!"not a sharded key: {key.repr} has no trailing shard suffix. Expected the key#<shard> " ++
      "shape produced by beam_agents.shard_key (e.g. b'entity#3').")

/-- The physical key of a shard. -/
def physicalKey (key : Bytes) (index : ℕ) : Bytes := key ++ shardDelimiter :: asciiDigits index

/-- The shard that a payload belongs to. -/
def shardIndex (n : ℕ) (payload : Bytes) : ℕ :=
  ofBigEndian ((py.sha256 payload).take digestBytes) % n

/-- `shard_key`. -/
def shardKey (key : Bytes) (n : Int) (payload : Bytes) : Except PyExn Bytes :=
  if n < 1 then .error (shardCountError py "shard count" n)
  else .ok (physicalKey key (shardIndex py n.toNat payload))

/-- `unshard_key`. -/
def unshardKey (key : Bytes) : Except PyExn Bytes :=
  match key.rpartition shardDelimiter with
  | none => .error (notSharded py key)
  | some (logical, digits) =>
    if digits.isDigits then .ok logical else .error (notSharded py key)

/-- `_hash_payload`. -/
def hashPayload (envelope : AgentEnvelopeMessage) : Bytes :=
  match envelope.payload with
  | .externalEvent event => event
  | _ => AgentEnvelopeMessage.codec.serialize envelope

section Keys

variable {py} {key key' logical digits : Bytes} {index index' : ℕ}

/-- No digit is the delimiter. -/
theorem delimiter_notMem (h : digits.isDigits) : shardDelimiter ∉ digits := by
  intro hmem
  exact absurd ((Bytes.isDigits_iff.mp h).2 _ hmem).1 (by decide)

/-- **The keys of shards.** `unshard_key` takes the keys that end in the delimiter and digits, and
returns what stands before them. -/
theorem unshardKey_eq_ok_iff :
    unshardKey py key = .ok logical ↔
      ∃ digits : Bytes, digits.isDigits ∧ key = logical ++ shardDelimiter :: digits := by
  constructor
  · intro h
    unfold unshardKey at h
    split at h
    · cases h
    · rename_i logical' digits hparts
      split_ifs at h with hdigits
      cases h
      exact ⟨digits, hdigits, (Bytes.rpartition_eq_some_iff.mp hparts).1⟩
  · rintro ⟨digits, hdigits, rfl⟩
    simp [unshardKey, Bytes.rpartition_append (delimiter_notMem hdigits), hdigits]

theorem unshardKey_physicalKey (key : Bytes) (index : ℕ) :
    unshardKey py (physicalKey key index) = .ok key :=
  unshardKey_eq_ok_iff.mpr ⟨_, isDigits_asciiDigits index, rfl⟩

/-- A physical key tells its logical key and its shard. -/
theorem physicalKey_inj (h : physicalKey key index = physicalKey key' index') :
    key = key' ∧ index = index' := by
  have hparts := congrArg (Bytes.rpartition shardDelimiter) h
  rw [physicalKey, physicalKey, Bytes.rpartition_append (delimiter_notMem (isDigits_asciiDigits _)),
    Bytes.rpartition_append (delimiter_notMem (isDigits_asciiDigits _)), Option.some.injEq,
    Prod.mk.injEq] at hparts
  exact ⟨hparts.1, asciiDigits_inj hparts.2⟩

theorem shardIndex_lt {n : ℕ} (hn : 0 < n) (payload : Bytes) : shardIndex py n payload < n :=
  Nat.mod_lt _ hn

end Keys

/-! ### The transform -/

/-- `Assignment`. -/
inductive Assignment
  | hash
  | roundRobin
  deriving DecidableEq, Repr

/-- The assignment of a name. -/
def Assignment.ofName : String → Option Assignment
  | "hash" => some .hash
  | "round_robin" => some .roundRobin
  | _ => none

/-- `ShardKeys`. Its shard count is positive. -/
structure ShardKeys where
  n : ℕ
  assignment : Assignment
  pos : 0 < n

/-- A keyed element. -/
abbrev ShardElement := Bytes × AgentEnvelopeMessage

namespace ShardKeys

/-- `ShardKeys.__init__`. -/
def new (n : Int) (assignment : String := "hash") : Except PyExn ShardKeys :=
  if h : n < 1 then .error (shardCountError py "ShardKeys shard count" n)
  else
    match Assignment.ofName assignment with
    | none => .error {
        typeName := "ValueError"
        repr := py.exnRepr "ValueError" (s!"unknown ShardKeys assignment " ++
          s!"{py.reprStr assignment}; expected one of ('hash', 'round_robin')") }
    | some assignment => .ok ⟨n.toNat, assignment, by omega⟩

variable (S : ShardKeys)

/-- `_ShardElement._index_key`, and the counter of the worker after it. -/
def indexKey (key : Bytes) (envelope : AgentEnvelopeMessage) (count : ℕ) :
    Except PyExn (Bytes × ℕ) :=
  match S.assignment with
  | .hash => do
    let physical ← shardKey py key S.n (hashPayload envelope)
    return (physical, count)
  | .roundRobin => .ok (physicalKey key (count % S.n), count + 1)

/-- `_ShardElement.process`. -/
def process (element : ShardElement) (count : ℕ) : Except PyExn (ShardElement × ℕ) := do
  let (key, envelope) := element
  let (physical, count) ← S.indexKey py key envelope count
  return ((physical, { envelope with entityKey := physical }), count)

/-- The elements of a stream, one after the other. -/
def run : List ShardElement → ℕ → Except PyExn (List ShardElement × ℕ)
  | [], count => .ok ([], count)
  | element :: rest, count => do
    let (sharded, count) ← S.process py element count
    let (rest, count) ← run rest count
    return (sharded :: rest, count)

/-- The shard that an element goes to while the counter is at `count`. -/
def indexOf (element : ShardElement) (count : ℕ) : ℕ :=
  match S.assignment with
  | .hash => shardIndex py S.n (hashPayload element.2)
  | .roundRobin => count % S.n

/-- An element with its key replaced by that of a shard. -/
def onShard (element : ShardElement) (index : ℕ) : ShardElement :=
  (physicalKey element.1 index, { element.2 with entityKey := physicalKey element.1 index })

/-- The counter after one element. -/
def next (count : ℕ) : ℕ :=
  match S.assignment with
  | .hash => count
  | .roundRobin => count + 1

/-- Every element comes to one shard. -/
theorem process_eq (element : ShardElement) (count : ℕ) :
    S.process py element count =
      .ok (onShard element (S.indexOf py element count), S.next count) := by
  have hpos : ¬ (S.n : Int) < 1 := by have := S.pos; omega
  unfold process indexKey indexOf next
  cases S.assignment with
  | hash =>
    simp only [shardKey, if_neg hpos, Int.toNat_natCast]
    rfl
  | roundRobin => rfl

/-- The elements of a stream that starts at `count`, each on its shard. -/
def shards : List ShardElement → ℕ → List ShardElement
  | [], _ => []
  | element :: rest, count =>
    onShard element (S.indexOf py element count) :: shards rest (S.next count)

/-- The shard that a physical key names. -/
def onIndex (index : ℕ) (element : ShardElement) : Bool :=
  (element.1.rpartition shardDelimiter).map Prod.snd = some (asciiDigits index)

section Shards

variable {py} {S} {elements elements' : List ShardElement} {count count' : ℕ}

theorem indexOf_lt (element : ShardElement) (count : ℕ) : S.indexOf py element count < S.n := by
  unfold indexOf
  cases S.assignment with
  | hash => exact shardIndex_lt S.pos _
  | roundRobin => exact Nat.mod_lt _ S.pos

/-- A stream never raises. -/
theorem run_eq (elements : List ShardElement) (count : ℕ) :
    ∃ count', S.run py elements count = .ok (S.shards py elements count, count') := by
  induction elements generalizing count with
  | nil => exact ⟨count, rfl⟩
  | cons element rest ih =>
    obtain ⟨count', hrest⟩ := ih (S.next count)
    refine ⟨count', ?_⟩
    rw [run, process_eq]
    simp only [bind, Except.bind, hrest, pure, Except.pure, shards]

/-- Each element gets a key of its own shard, and nothing else changes. -/
theorem forall₂_shards (elements : List ShardElement) (count : ℕ) :
    List.Forall₂ (fun e e' : ShardElement => (∃ i < S.n, e'.1 = physicalKey e.1 i) ∧
      unshardKey py e'.1 = .ok e.1 ∧ e'.2 = { e.2 with entityKey := e'.1 })
      elements (S.shards py elements count) := by
  induction elements generalizing count with
  | nil => exact .nil
  | cons element rest ih =>
    refine .cons ⟨⟨_, indexOf_lt element count, rfl⟩, ?_, rfl⟩ (ih _)
    exact unshardKey_physicalKey _ _

/-- A hash looks at nothing but the element. -/
theorem shards_hash (h : S.assignment = .hash) (elements : List ShardElement) (count : ℕ) :
    S.shards py elements count =
      elements.map fun element => onShard element (shardIndex py S.n (hashPayload element.2)) := by
  induction elements generalizing count with
  | nil => rfl
  | cons element rest ih => rw [shards, ih, List.map_cons, indexOf, h]

/-- Round robin repeats itself exactly from counters that agree modulo the number of shards. -/
theorem shards_roundRobin_inj (h : S.assignment = .roundRobin) :
    S.shards py elements count = S.shards py elements count' ↔
      elements = [] ∨ count ≡ count' [MOD S.n] := by
  have hindex (element : ShardElement) (count : ℕ) : S.indexOf py element count = count % S.n := by
    rw [indexOf, h]
  have hnext (count : ℕ) : S.next count = count + 1 := by rw [next, h]
  constructor
  · intro heq
    cases elements with
    | nil => exact .inl rfl
    | cons element rest =>
      have hkey := congrArg Prod.fst (List.cons.inj heq).1
      rw [hindex, hindex] at hkey
      exact .inr (physicalKey_inj hkey).2
  · rintro (rfl | hcount)
    · rfl
    induction elements generalizing count count' with
    | nil => rfl
    | cons element rest ih =>
      have hmod : count % S.n = count' % S.n := hcount
      rw [shards, shards, hindex, hindex, hnext, hnext, hmod, ih (hcount.add_right 1)]

theorem onIndex_onShard (element : ShardElement) (i j : ℕ) :
    onIndex i (onShard element j) = decide (j = i) := by
  have hparts : (physicalKey element.1 j).rpartition shardDelimiter =
      some (element.1, asciiDigits j) :=
    Bytes.rpartition_append (delimiter_notMem (isDigits_asciiDigits j))
  have hiff : asciiDigits j = asciiDigits i ↔ j = i := ⟨asciiDigits_inj, fun h => h ▸ rfl⟩
  simp [onIndex, onShard, hparts, hiff]

/-- How many elements round robin hands to one shard. -/
theorem countP_shards (h : S.assignment = .roundRobin) (i : ℕ) (elements : List ShardElement)
    (count : ℕ) : (S.shards py elements count).countP (onIndex i) =
      Nat.count (fun k => (count + k) % S.n = i) elements.length := by
  induction elements generalizing count with
  | nil => simp [shards]
  | cons element rest ih =>
    have hnext : S.next count = count + 1 := by rw [next, h]
    have hindex : S.indexOf py element count = count % S.n := by rw [indexOf, h]
    have hshift : (fun k => (count + 1 + k) % S.n = i) = fun k => (count + (k + 1)) % S.n = i :=
      funext fun k => by rw [Nat.add_assoc, Nat.add_comm 1 k]
    rw [shards, List.countP_cons, ih, onIndex_onShard, List.length_cons, Nat.count_succ', hnext,
      hindex]
    simp only [hshift, decide_eq_true_eq, Nat.add_zero]

/-- Of any `m` numbers in a row, one residue is that of `m / n` or of one more. -/
private theorem count_residue {n i : ℕ} (hi : i < n) (count m : ℕ) :
    m / n ≤ Nat.count (fun k => (count + k) % n = i) m ∧
      Nat.count (fun k => (count + k) % n = i) m ≤ m / n + 1 := by
  have hpos : 0 < n := Nat.zero_lt_of_lt hi
  -- The residue of `count + k` is `i` exactly when `k` is congruent to `v`.
  let v := i + (n - count % n)
  have hv : count + v ≡ i [MOD n] := by
    have hle := (Nat.mod_lt count hpos).le
    have hsum : count + v = i + n * (count / n + 1) := by
      have hsplit := Nat.div_add_mod count n
      rw [Nat.mul_add]
      omega
    rw [hsum]
    exact Nat.add_mul_mod_self_left i n _
  have hiff (k : ℕ) : (count + k) % n = i ↔ k ≡ v [MOD n] := by
    have hmod : (count + k) % n = i ↔ count + k ≡ i [MOD n] := by
      rw [Nat.ModEq, Nat.mod_eq_of_lt hi]
    rw [hmod]
    exact ⟨fun h => Nat.ModEq.add_left_cancel' count (h.trans hv.symm),
      fun h => (h.add_left count).trans hv⟩
  simp only [hiff, Nat.count_modEq_card m hpos]
  split_ifs <;> omega

/-- **Sharded streams.** A stream with positive shard count never raises. Each element gets the key
of one of the `n` shards of its key, in the envelope too, the logical key is read back from it, and
nothing else changes. With the hash, an element goes to the same shard in whatever order, bundle or
attempt it is seen, so a retry repeats the keys. With round robin, any stream in a row loads the
shards alike up to one element, and a retry repeats the keys exactly when the counter has moved on
by a multiple of `n`. -/
theorem sharded (py : PyLib) (S : ShardKeys) (elements : List ShardElement) (count : ℕ) :
    (∃ out last, S.run py elements count = .ok (out, last) ∧
      List.Forall₂ (fun e e' : ShardElement => (∃ i < S.n, e'.1 = physicalKey e.1 i) ∧
        unshardKey py e'.1 = .ok e.1 ∧ e'.2 = { e.2 with entityKey := e'.1 }) elements out ∧
      (S.assignment = .roundRobin → ∀ i < S.n, elements.length / S.n ≤ out.countP (onIndex i) ∧
        out.countP (onIndex i) ≤ elements.length / S.n + 1)) ∧
    (S.assignment = .hash → ∀ elements' count' out out' last last',
      S.run py elements count = .ok (out, last) → S.run py elements' count' = .ok (out', last') →
      elements'.Perm elements → out'.Perm out) ∧
    (S.assignment = .roundRobin → ∀ count' out out' last last',
      S.run py elements count = .ok (out, last) → S.run py elements count' = .ok (out', last') →
      (out' = out ↔ elements = [] ∨ count' ≡ count [MOD S.n])) := by
  have hout {elements : List ShardElement} {count last : ℕ} {out : List ShardElement}
      (h : S.run py elements count = .ok (out, last)) : out = S.shards py elements count := by
    obtain ⟨last', hrun⟩ : ∃ last', S.run py elements count =
        .ok (S.shards py elements count, last') := run_eq elements count
    rw [hrun] at h
    cases h
    rfl
  refine ⟨?_, fun hhash elements' count' out out' last last' h h' hperm => ?_,
    fun hrobin count' out out' last last' h h' => ?_⟩
  · obtain ⟨last, hrun⟩ : ∃ last, S.run py elements count =
        .ok (S.shards py elements count, last) := run_eq elements count
    refine ⟨_, last, hrun, forall₂_shards elements count, fun hrobin i hi => ?_⟩
    rw [countP_shards hrobin]
    exact count_residue hi count elements.length
  · rw [hout h, hout h', shards_hash hhash, shards_hash hhash]
    exact hperm.map _
  · rw [hout h, hout h']
    exact shards_roundRobin_inj hrobin

/-- Three events of one key. -/
def threeEvents : List ShardElement :=
  [1, 4, 5].map fun event => ([107], { entityKey := [107], payload := .externalEvent [event] })

/-- The digests of their payloads. -/
def threeDigests : List (Bytes × String) :=
  [([1], "4bf5122f344554c53bde2ebb8cd2b7e3d1600ad631c385a5d7cce23c7785459a"),
    ([4], "e52d9c508c502347344d8c07ad91cbd6068afc75ff6292f062a09ca381c89e71"),
    ([5], "e77b9a9ae9e30b0dbdb6f510a264ef9de781501d7b6b92ae89eb059c5ab743db")]

/-- A library that knows these digests. -/
def threeLib : PyLib := {
  PyLib.ofTable [] with
  sha256 := fun payload =>
    ((threeDigests.lookup payload).map fun digest => bytesOfHex digest.toList).getD [] }

/-- Three shards in turn get one of three events each, and a retry after three events repeats the
keys, while one after a single event does not; by their hashes too the events part, and backwards
they come to the same shards. -/
theorem sharded_three :
    (∀ i < 3, ∃ out last, ShardKeys.run threeLib ⟨3, .roundRobin, by decide⟩ threeEvents 0 =
      .ok (out, last) ∧ 1 ≤ out.countP (onIndex i) ∧ out.countP (onIndex i) ≤ 2) ∧
    (∀ out out' last last',
      ShardKeys.run threeLib ⟨3, .roundRobin, by decide⟩ threeEvents 0 = .ok (out, last) →
      ShardKeys.run threeLib ⟨3, .roundRobin, by decide⟩ threeEvents 3 = .ok (out', last') →
      out' = out) ∧
    (∃ out out' last last',
      ShardKeys.run threeLib ⟨3, .hash, by decide⟩ threeEvents 0 = .ok (out, last) ∧
      ShardKeys.run threeLib ⟨3, .hash, by decide⟩ threeEvents.reverse 7 = .ok (out', last') ∧
      out.map Prod.fst = [physicalKey [107] 1, physicalKey [107] 2, physicalKey [107] 0] ∧
      out'.Perm out) := by
  refine ⟨fun i hi => ?_, fun out out' last last' h h' => ?_, ?_⟩
  · obtain ⟨⟨out, last, hrun, -, hload⟩, -⟩ := sharded threeLib ⟨3, .roundRobin, by decide⟩
      threeEvents 0
    exact ⟨out, last, hrun, hload rfl i hi⟩
  · have hmod : 3 ≡ 0 [MOD 3] := rfl
    exact ((sharded threeLib ⟨3, .roundRobin, by decide⟩ threeEvents 0).2.2 rfl 3 out out' last
      last' h h').mpr (.inr hmod)
  · refine ⟨_, _, _, _, rfl, rfl, rfl, ?_⟩
    exact (sharded threeLib ⟨3, .hash, by decide⟩ threeEvents 0).2.1 rfl _ 7 _ _ _ _ rfl rfl
      (List.reverse_perm _)

end Shards

end ShardKeys

end BeamAgents
