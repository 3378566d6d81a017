import BeamAgents.Memory.Backends
import BeamAgents.Protos.LongTerm
import BeamAgents.Transition.Machine
import BeamAgents.Wire.Codes

/-!
# Saves in any order

Saves that reach a long-term store in any order, and any number of times, leave the same rows: in
each the record of the highest `seq`. This holds of the reference store and of the four backends
alike, for each of them is a table whose writes are guarded by their `seq` (`Containers.Rows`),
although they name their rows and compare the numbers in different ways. Over Bigtable it holds as
long as no save comes too early: the cells of a save carry the time of its client, and a row is read
by its newest cells.

## Main definitions

* `MemoryRecord.Valid`, `ConsistentSaves`: the saves that the statement is about.
* `SaveLogic`: a store as far as saves go, with `inMemory`, `sql`, `firestore`, `redis` and
  `bigtable`.
* `SaveLogic.Guarded`: the store is a guarded table.
* `SaveLogic.Convergent`: what saves in any order come to.
* `BigtableMemoryStore.Timely`: a save does not come too early.

## Main results

* `SaveLogic.Guarded.convergent`: every guarded table is convergent.
* `saves_convergent`: the five stores are, Bigtable with saves that do not come too early.
* `bigtable_loses_save`: Bigtable with a client whose clock is behind is not.
-/

namespace BeamAgents

open Containers Stores Transition Wire

/-- A record that a store takes: it has a key, and its numbers are those of the message type. -/
structure MemoryRecord.Valid (record : MemoryRecord) : Prop where
  key : record.key ≠ ""
  seq : record.seq < 2 ^ 63
  updatedAtMs : -2 ^ 63 ≤ record.updatedAtMs ∧ record.updatedAtMs < 2 ^ 63

/-- Two saves of one row with the same `seq` carry the same record. -/
def ConsistentSaves (saves : Multiset MemoryRecord) : Prop :=
  ∀ r ∈ saves, ∀ r' ∈ saves, r.entityKey = r'.entityKey → r.key = r'.key → r.seq = r'.seq → r = r'

/-- A store as far as saves go: each save takes effect as one step, and reports whether it was
applied. A row is read as its `seq` and the bytes of its envelope. -/
structure SaveLogic where
  State : Type
  start : State
  machine : Machine State MemoryRecord (MemoryRecord × Bool)
  rows : State → Rows (Bytes × String) ℕ Bytes

variable (serialize : LongTermRecord → Bytes)

/-- What is written for a record. -/
def MemoryRecord.stored (record : MemoryRecord) : Write (Bytes × String) ℕ Bytes where
  key := (record.entityKey, record.key)
  version := record.seq
  value := serialize (encodeEnvelope record)

namespace SaveLogic

/-- The store is a table whose writes are guarded by their `seq`. -/
structure Guarded (b : SaveLogic) (Inv : b.State → Prop) : Prop where
  start : Inv b.start
  empty : b.rows b.start = fun _ => none
  total : ∀ {s r}, Inv s → r.Valid → ∃ s' applied, b.machine.step s r s' [(r, applied)]
  step : ∀ {s r s' o}, Inv s → b.machine.step s r s' o → Inv s' ∧
    b.rows s' = (b.rows s).put (r.stored serialize) ∧
    o = [(r, decide ((b.rows s).Admits (r.stored serialize)))]

/-- **What saves in any order come to.** Every save of a valid record is performed; the `seq` of a
row never decreases; a save reports that it was applied exactly when its `seq` is not below the
stored one; and saves that are consistent, in any order and with any repetitions, leave each row
that one of them is to with the record of its highest `seq`, and the others empty. -/
structure Convergent (b : SaveLogic) : Prop where
  performed : ∀ {s r}, b.machine.Reachable b.start s → r.Valid →
    ∃ s' applied, b.machine.step s r s' [(r, applied)]
  monotone : ∀ {s r s' o k row}, b.machine.Reachable b.start s → b.machine.step s r s' o →
    b.rows s k = some row → ∃ row', b.rows s' k = some row' ∧ row.1 ≤ row'.1
  reports : ∀ {s r s' o}, b.machine.Reachable b.start s → b.machine.step s r s' o →
    ∃ applied, o = [(r, applied)] ∧
      (applied = true ↔ ∀ row, b.rows s (r.entityKey, r.key) = some row → row.1 ≤ r.seq)
  highest : ∀ {saves order log s}, ConsistentSaves saves → (∀ r, r ∈ order ↔ r ∈ saves) →
    b.machine.Run b.start order log s →
    (∀ r ∈ saves, (∀ r' ∈ saves, r'.entityKey = r.entityKey → r'.key = r.key → r'.seq ≤ r.seq) →
      b.rows s (r.entityKey, r.key) = some (r.seq, serialize (encodeEnvelope r))) ∧
    ∀ entityKey key, (∀ r ∈ saves, (r.entityKey, r.key) ≠ (entityKey, key)) →
      b.rows s (entityKey, key) = none

variable {serialize} {b : SaveLogic} {Inv : b.State → Prop}

/-- The rows after some saves. -/
theorem Guarded.rows_of_run (h : b.Guarded serialize Inv) {order : List MemoryRecord}
    {log : List (MemoryRecord × Bool)} {s : b.State} (hrun : b.machine.Run b.start order log s) :
    Inv s ∧ b.rows s = Rows.putAll (fun _ => none) (order.map (MemoryRecord.stored serialize)) := by
  induction hrun with
  | refl => exact ⟨h.start, h.empty⟩
  | tail _ hs ih =>
    obtain ⟨hinv, hrows⟩ := ih
    obtain ⟨hinv', hput, -⟩ := h.step hinv hs
    refine ⟨hinv', ?_⟩
    rw [hput, hrows, List.map_append, Rows.putAll_append]
    rfl

/-- **Every guarded table is convergent.** -/
theorem Guarded.convergent (h : b.Guarded serialize Inv) : b.Convergent serialize := by
  have hinv {s : b.State} (hs : b.machine.Reachable b.start s) : Inv s :=
    hs.invariant h.start fun hi hstep => (h.step hi hstep).1
  refine ⟨fun hs => h.total (hinv hs), fun {s r s' o k row} hs hstep hrow => ?_,
    fun {s r s' o} hs hstep => ?_, fun {saves order log s} hconsistent horder hrun => ?_⟩
  · obtain ⟨-, hput, -⟩ := h.step (hinv hs) hstep
    have hlater : ∃ row', (b.rows s).putAll [r.stored serialize] k = some row' ∧ row.1 ≤ row'.1 :=
      Rows.version_putAll hrow
    rwa [Rows.putAll_cons, Rows.putAll_nil, ← hput] at hlater
  · obtain ⟨-, -, rfl⟩ := h.step (hinv hs) hstep
    exact ⟨_, rfl, decide_eq_true_iff⟩
  · obtain ⟨-, hrows⟩ := h.rows_of_run hrun
    have hhighest (k : Bytes × String) :
        Rows.Highest (order.map (MemoryRecord.stored serialize)) k (b.rows s k) := by
      rw [hrows]
      exact Rows.putAll_highest _ k
    constructor
    · intro r hr hmax
      have hr' : r.stored serialize ∈ order.map (MemoryRecord.stored serialize) :=
        List.mem_map_of_mem ((horder r).mpr hr)
      rcases hhighest (r.entityKey, r.key) with ⟨-, hnone⟩ | ⟨w, hw, hkey, hvalue, htop⟩
      · exact absurd rfl (hnone _ hr')
      · obtain ⟨top, hmem, rfl⟩ := List.mem_map.mp hw
        have hmem' := (horder top).mp hmem
        have hentity : top.entityKey = r.entityKey := congrArg Prod.fst hkey
        have hname : top.key = r.key := congrArg Prod.snd hkey
        have hle : r.seq ≤ top.seq := htop _ hr' rfl
        have hsame : top = r := hconsistent top hmem' r hr hentity hname
          (Nat.le_antisymm (hmax top hmem' hentity hname) hle)
        rw [hvalue, hsame]
        rfl
    · intro entityKey key hother
      rcases hhighest (entityKey, key) with ⟨hnone, -⟩ | ⟨w, hw, hkey, -⟩
      · exact hnone
      · obtain ⟨top, hmem, rfl⟩ := List.mem_map.mp hw
        exact absurd hkey (hother top ((horder top).mp hmem))

/-- A store given by what a save of a valid record can do. -/
def ofStep {σ : Type} (start : σ) (performs : σ → MemoryRecord → σ × Bool → Prop)
    (rows : σ → Rows (Bytes × String) ℕ Bytes) : SaveLogic where
  State := σ
  start := start
  machine :=
    { step := fun s record s' o => record.Valid ∧ ∃ applied,
        performs s record (s', applied) ∧ o = [(record, applied)] }
  rows := rows

theorem guarded_ofStep {σ : Type} {start : σ} {performs : σ → MemoryRecord → σ × Bool → Prop}
    {rows : σ → Rows (Bytes × String) ℕ Bytes} (I : σ → Prop) (hstart : I start)
    (hempty : rows start = fun _ => none)
    (htotal : ∀ s r, I s → r.Valid → ∃ x, performs s r x)
    (hstep : ∀ s r x, I s → r.Valid → performs s r x → I x.1 ∧
      rows x.1 = (rows s).put (r.stored serialize) ∧
      x.2 = decide ((rows s).Admits (r.stored serialize))) :
    (ofStep start performs rows).Guarded serialize I where
  start := hstart
  empty := hempty
  total {s r} hs hr := by
    obtain ⟨⟨s', applied⟩, hperforms⟩ := htotal s r hs hr
    exact ⟨s', applied, hr, applied, hperforms, rfl⟩
  step {s r s' o} hs hs' := by
    obtain ⟨hr, applied, hperforms, rfl⟩ := hs'
    obtain ⟨hinv, hrows, hflag⟩ := hstep s r _ hs hr hperforms
    exact ⟨hinv, hrows, congrArg (fun a => [(r, a)]) hflag⟩

end SaveLogic

/-! ### The reference store -/

namespace InMemoryMemoryStore

/-- The rows of the store. -/
def storedRows (store : InMemoryMemoryStore) : Rows (Bytes × String) ℕ Bytes :=
  fun k => (store.table k).map fun row => (row.1, serialize row.2)

variable {serialize} {store : InMemoryMemoryStore} {r : MemoryRecord}

theorem admits_stored :
    (store.storedRows serialize).Admits (r.stored serialize) ↔ store.table.Admits r.write := by
  show (∀ row ∈ store.storedRows serialize r.write.key, row.1 ≤ r.seq) ↔
    ∀ row ∈ store.table r.write.key, row.1 ≤ r.seq
  rw [storedRows]
  cases store.table r.write.key <;> simp

theorem storedRows_saved (hkey : r.key ≠ "") : (store.saved r).storedRows serialize =
    (store.storedRows serialize).put (r.stored serialize) := by
  have hrow (k : Bytes × String) : (store.saved r).storedRows serialize k =
      (store.table.put r.write k).map fun row => (row.1, serialize row.2) := by
    rw [storedRows, table_saved hkey]
  refine Rows.eq_put (fun h => ?_) (fun h => ?_) fun k hk => ?_
  · rw [hrow]
    show (store.table.put r.write r.write.key).map _ = _
    rw [Rows.put_self (admits_stored.mp h)]
    rfl
  · rw [hrow, Rows.put_of_not_admits fun h' => h (admits_stored.mpr h')]
    rfl
  · have hother : k ≠ r.write.key := hk
    rw [hrow, Rows.put_of_ne hother]
    rfl

end InMemoryMemoryStore

/-! ### SQL -/

namespace SqlMemoryStore

/-- The rows of the table. -/
def rows (table : SqlTable) : Rows (Bytes × String) ℕ Bytes :=
  fun k => (table.get? k).map fun columns => (columns.seq, columns.envelope)

variable {serialize} {table : SqlTable} {r : MemoryRecord}

theorem save_guarded : rows (save serialize table r).1 = (rows table).put (r.stored serialize) ∧
    (save serialize table r).2 = decide ((rows table).Admits (r.stored serialize)) := by
  have hguard : seqGuardApplies r.seq ((table.get? (r.entityKey, r.key)).map SqlColumns.seq) =
      true ↔ (rows table).Admits (r.stored serialize) := by
    show _ ↔ ∀ row ∈ rows table (r.entityKey, r.key), row.1 ≤ r.seq
    rw [rows]
    cases table.get? (r.entityKey, r.key) <;> simp [seqGuardApplies]
  by_cases hadmits : (rows table).Admits (r.stored serialize)
  · have hsave : save serialize table r = (table.set (r.entityKey, r.key)
        ⟨r.seq, serialize (encodeEnvelope r), r.updatedAtMs⟩, true) := by
      simp only [save, hguard.mpr hadmits, Bool.not_true, Bool.false_eq_true, if_false]
    rw [hsave]
    refine ⟨Rows.eq_put (fun _ => ?_) (fun h => absurd hadmits h) fun k hk => ?_,
      (decide_eq_true hadmits).symm⟩
    · rw [rows, MemoryRecord.stored, Dict.get?_set, if_pos rfl]
      rfl
    · have hother : k ≠ (r.entityKey, r.key) := hk
      rw [rows, Dict.get?_set, if_neg hother]
      rfl
  · have hsave : save serialize table r = (table, false) := by
      simp only [save, Bool.eq_false_iff.mpr fun h => hadmits (hguard.mp h), Bool.not_false,
        if_true]
    rw [hsave]
    exact ⟨(Rows.put_of_not_admits hadmits).symm, (decide_eq_false hadmits).symm⟩

end SqlMemoryStore

/-! ### Names of rows -/

theorem hexDigit_inj {m n : ℕ} (hm : m < 16) (hn : n < 16) (h : hexDigit m = hexDigit n) :
    m = n := by
  have hall : ∀ m n : Fin 16, hexDigit m = hexDigit n → m = n := by decide
  exact congrArg Fin.val (hall ⟨m, hm⟩ ⟨n, hn⟩ h)

theorem upperHexDigit_inj {m n : ℕ} (hm : m < 16) (hn : n < 16)
    (h : upperHexDigit m = upperHexDigit n) : m = n := by
  have hall : ∀ m n : Fin 16, upperHexDigit m = upperHexDigit n → m = n := by decide
  exact congrArg Fin.val (hall ⟨m, hm⟩ ⟨n, hn⟩ h)

/-- A byte is told by its two halves. -/
theorem byte_ext {a b : UInt8} (hhigh : a.toNat / 16 = b.toNat / 16)
    (hlow : a.toNat % 16 = b.toNat % 16) : a = b := by
  refine UInt8.toNat_inj.mp ?_
  omega

/-- The two hex digits of a byte. -/
def hexByte (b : UInt8) : List Char := [hexDigit (b.toNat / 16), hexDigit (b.toNat % 16)]

theorem hexByte_prefixCode : PrefixCode hexByte where
  nonempty _ := List.cons_ne_nil _ _
  symbol {a b s t} h := by
    have ha := a.toNat_lt
    have hb := b.toNat_lt
    obtain ⟨hhigh, hrest⟩ := List.cons.inj h
    exact byte_ext (hexDigit_inj (by omega) (by omega) hhigh)
      (hexDigit_inj (by omega) (by omega) (List.cons.inj hrest).1)

theorem hex_inj {a b : Bytes} (h : a.hex = b.hex) : a = b :=
  hexByte_prefixCode.flatMap_inj (String.ofList_injective h)

private theorem toNat_ofNat {n : ℕ} (hn : n < 128) : (Char.ofNat n).toNat = n := by
  have hvalid : n.isValidChar := .inl (by omega)
  rw [Char.ofNat, dif_pos hvalid]
  rfl

private theorem ofNat_inj {m n : ℕ} (hm : m < 128) (hn : n < 128)
    (h : Char.ofNat m = Char.ofNat n) : m = n := by
  rw [← toNat_ofNat hm, ← toNat_ofNat hn, h]

/-- A safe character is not a percent sign. -/
theorem code_of_alwaysSafe {b : UInt8} (h : alwaysSafe b = true) :
    b.toNat < 128 ∧ b.toNat ≠ 37 := by
  simp only [alwaysSafe, Bool.or_eq_true, Bool.and_eq_true, decide_eq_true_eq,
    UInt8.le_iff_toNat_le, ← UInt8.toNat_inj] at h
  simp at h
  omega

theorem quoteByte_prefixCode : PrefixCode quoteByte where
  nonempty b := by
    rw [quoteByte]
    split_ifs <;> exact List.cons_ne_nil _ _
  symbol {a b s t} h := by
    have hpercent : '%' = Char.ofNat 37 := rfl
    rw [quoteByte, quoteByte] at h
    split_ifs at h with ha hb hb
    · exact UInt8.toNat_inj.mp (ofNat_inj (code_of_alwaysSafe ha).1 (code_of_alwaysSafe hb).1
        (List.cons.inj h).1)
    · have hchar := (List.cons.inj h).1
      rw [hpercent] at hchar
      exact absurd (ofNat_inj (code_of_alwaysSafe ha).1 (by decide) hchar)
        (code_of_alwaysSafe ha).2
    · have hchar := (List.cons.inj h).1
      rw [hpercent] at hchar
      exact absurd (ofNat_inj (by decide) (code_of_alwaysSafe hb).1 hchar).symm
        (code_of_alwaysSafe hb).2
    · have ha := a.toNat_lt
      have hb := b.toNat_lt
      obtain ⟨hhigh, hrest⟩ := List.cons.inj (List.cons.inj h).2
      exact byte_ext (upperHexDigit_inj (by omega) (by omega) hhigh)
        (upperHexDigit_inj (by omega) (by omega) (List.cons.inj hrest).1)

theorem utf8_inj {s t : String} (h : utf8 s = utf8 t) : s = t :=
  String.toByteArray_inj.mp (ByteArray.ext (Array.toList_inj.mp h))

theorem utf8_append (s t : String) : utf8 (s ++ t) = utf8 s ++ utf8 t := by
  rw [utf8, String.toUTF8, String.toByteArray_append, ByteArray.data_append, Array.toList_append]
  rfl

/-- No hex digit is a number sign. -/
theorem head?_hexByte (b : UInt8) : (hexByte b).head? ≠ some '#' := by
  have hall : ∀ n : Fin 16, hexDigit n ≠ '#' := by decide
  have hb := b.toNat_lt
  intro h
  exact hall ⟨b.toNat / 16, by omega⟩ (Option.some.inj h)

/-- **Different rows have different document IDs.** -/
theorem FirestoreMemoryStore.docId_inj {entityKey entityKey' : Bytes} {key key' : String}
    (h : docId entityKey key = docId entityKey' key') : entityKey = entityKey' ∧ key = key' := by
  have hchars := congrArg String.toList h
  rw [docId, docId, Bytes.hex, Bytes.hex, quote, quote] at hchars
  simp only [String.toList_append, String.toList_ofList, List.append_assoc] at hchars
  obtain ⟨hentity, hrest⟩ := hexByte_prefixCode.flatMap_append_inj head?_hexByte hchars
  exact ⟨hentity, utf8_inj (quoteByte_prefixCode.flatMap_inj hrest)⟩

/-- A row key is the bytes of a text. -/
theorem BigtableMemoryStore.rowKey_eq (entityKey : Bytes) (key : String) :
    rowKey entityKey key = utf8 (entityKey.hex ++ "#" ++ key) := by
  have hsep : utf8 "#" = [35] := rfl
  rw [utf8_append, utf8_append, hsep, List.append_assoc]
  rfl

/-- **Different rows have different row keys.** -/
theorem BigtableMemoryStore.rowKey_inj {entityKey entityKey' : Bytes} {key key' : String}
    (h : rowKey entityKey key = rowKey entityKey' key') : entityKey = entityKey' ∧ key = key' := by
  rw [rowKey_eq, rowKey_eq] at h
  have hchars := congrArg String.toList (utf8_inj h)
  rw [Bytes.hex, Bytes.hex] at hchars
  simp only [String.toList_append, String.toList_ofList, List.append_assoc] at hchars
  obtain ⟨hentity, hrest⟩ := hexByte_prefixCode.flatMap_append_inj head?_hexByte hchars
  exact ⟨hentity, String.toList_injective hrest⟩

/-! ### Firestore -/

namespace FirestoreMemoryStore

/-- The rows of the collection. -/
def rows (documents : FirestoreCollection) : Rows (Bytes × String) ℕ Bytes :=
  fun k => (documents.get? (docId k.1 k.2)).map fun doc => (doc.seq, doc.envelope)

variable {serialize} {documents : FirestoreCollection} {r : MemoryRecord}

theorem save_guarded :
    rows (save serialize documents r).1 = (rows documents).put (r.stored serialize) ∧
      (save serialize documents r).2 = decide ((rows documents).Admits (r.stored serialize)) := by
  have hrow : rows documents (r.stored serialize).key =
      (documents.get? (docId r.entityKey r.key)).map fun doc => (doc.seq, doc.envelope) := rfl
  have hadmits : (rows documents).Admits (r.stored serialize) ↔
      ∀ doc, documents.get? (docId r.entityKey r.key) = some doc → doc.seq ≤ r.seq := by
    show (∀ row ∈ rows documents (r.stored serialize).key, row.1 ≤ r.seq) ↔ _
    rw [hrow]
    cases documents.get? (docId r.entityKey r.key) <;> simp
  by_cases h : (rows documents).Admits (r.stored serialize)
  · have hsave : save serialize documents r = (documents.set (docId r.entityKey r.key)
        ⟨r.entityKey.hex, r.key, r.seq, serialize (encodeEnvelope r)⟩, true) := by
      rw [save]
      cases hget : documents.get? (docId r.entityKey r.key) with
      | none => rfl
      | some doc => simp only [if_neg (Nat.not_lt.mpr (hadmits.mp h doc hget))]
    rw [hsave]
    refine ⟨Rows.eq_put (fun _ => ?_) (fun h' => absurd h h') fun k hk => ?_,
      (decide_eq_true h).symm⟩
    · show ((documents.set _ _).get? (docId r.entityKey r.key)).map _ = _
      rw [Dict.get?_set, if_pos rfl]
      rfl
    · have hother : docId k.1 k.2 ≠ docId r.entityKey r.key := fun heq =>
        hk (Prod.ext (docId_inj heq).1 (docId_inj heq).2)
      rw [rows, Dict.get?_set, if_neg hother]
      rfl
  · have hsave : save serialize documents r = (documents, false) := by
      rw [hadmits] at h
      push Not at h
      obtain ⟨doc, hget, hlater⟩ := h
      simp only [save, hget, if_pos hlater]
    rw [hsave]
    exact ⟨(Rows.put_of_not_admits h).symm, (decide_eq_false h).symm⟩

end FirestoreMemoryStore

/-! ### Redis -/

namespace RedisMemoryStore

/-- The rows of the server: what the framed values hold. -/
def rows (store : RedisMemoryStore) (db : RedisHashes) : Rows (Bytes × String) ℕ Bytes :=
  fun k => (hget db (store.hashKey k.1) k.2).map fun value =>
    (ofBigEndian (value.take 8), value.drop 8)

/-- Every value starts with eight bytes. -/
def Framed (db : RedisHashes) : Prop := ∀ key field value, hget db key field = some value →
  8 ≤ value.length

variable {serialize} {store : RedisMemoryStore} {db : RedisHashes} {r : MemoryRecord}

theorem hashKey_inj {entityKey entityKey' : Bytes}
    (h : store.hashKey entityKey = store.hashKey entityKey') : entityKey = entityKey' := by
  have hchars := congrArg String.toList h
  rw [hashKey, hashKey, String.toList_append, String.toList_append] at hchars
  exact hex_inj (String.toList_injective (List.append_cancel_left hchars))

theorem hget_hset (db : RedisHashes) (key field : String) (value : Bytes) (key' field' : String) :
    hget (hset db key field value) key' field' =
      if key' = key ∧ field' = field then some value else hget db key' field' := by
  rw [hget, hset, Dict.get?_set]
  by_cases hkey : key' = key
  · subst hkey
    rw [if_pos rfl, Option.getD_some, Dict.get?_set]
    simp only [true_and]
    rfl
  · rw [if_neg hkey, if_neg fun h => hkey h.1]
    rfl

private theorem seq_fits (hr : r.Valid) : r.seq < 256 ^ 8 :=
  lt_trans hr.seq (by decide)

/-- The byte order of the stored number and of the incoming one is their order. -/
theorem take_le_iff {value : Bytes} (hvalue : 8 ≤ value.length) (hr : r.Valid) :
    value.take 8 ≤ encodeSeq r.seq ↔ ofBigEndian (value.take 8) ≤ r.seq := by
  have hlength : (value.take 8).length = 8 := List.length_take_of_le hvalue
  have hbytes := bigEndian_ofBigEndian (value.take 8)
  have hfits := ofBigEndian_lt (value.take 8)
  rw [hlength] at hbytes hfits
  rw [← List.not_lt, ← hbytes, encodeSeq, bigEndian_lt_iff (seq_fits hr) hfits, hbytes, not_lt]

theorem save_guarded (hr : r.Valid) (hdb : Framed db) :
    Framed (store.save serialize db r).1 ∧
      store.rows (store.save serialize db r).1 = (store.rows db).put (r.stored serialize) ∧
      (store.save serialize db r).2 = decide ((store.rows db).Admits (r.stored serialize)) := by
  have hrow : store.rows db (r.stored serialize).key =
      (hget db (store.hashKey r.entityKey) r.key).map fun value =>
        (ofBigEndian (value.take 8), value.drop 8) := rfl
  have hadmits : (store.rows db).Admits (r.stored serialize) ↔
      ∀ value, hget db (store.hashKey r.entityKey) r.key = some value →
        value.take 8 ≤ encodeSeq r.seq := by
    show (∀ row ∈ store.rows db (r.stored serialize).key, row.1 ≤ r.seq) ↔ _
    rw [hrow]
    cases hget' : hget db (store.hashKey r.entityKey) r.key with
    | none => simp
    | some value => simp [take_le_iff (hdb _ _ _ hget') hr]
  by_cases h : (store.rows db).Admits (r.stored serialize)
  · have hsave : store.save serialize db r = (hset db (store.hashKey r.entityKey) r.key
        (encodeSeq r.seq ++ serialize (encodeEnvelope r)), true) := by
      rw [save, saveScript]
      cases hget' : hget db (store.hashKey r.entityKey) r.key with
      | none => rfl
      | some value => simp only [if_pos (hadmits.mp h value hget')]; rfl
    rw [hsave]
    have hlength : (encodeSeq r.seq).length = 8 := length_bigEndian 8 r.seq
    refine ⟨fun key field value hget' => ?_, Rows.eq_put (fun _ => ?_) (fun h' => absurd h h')
      fun k hk => ?_, (decide_eq_true h).symm⟩
    · rw [hget_hset] at hget'
      split_ifs at hget'
      · cases hget'
        rw [List.length_append, hlength]
        exact Nat.le_add_right 8 _
      · exact hdb _ _ _ hget'
    · show (hget (hset db _ _ _) (store.hashKey r.entityKey) r.key).map _ = _
      rw [hget_hset, if_pos ⟨rfl, rfl⟩, Option.map_some, List.take_left' hlength,
        List.drop_left' hlength, encodeSeq, ofBigEndian_bigEndian (seq_fits hr)]
      rfl
    · have hother : ¬ (store.hashKey k.1 = store.hashKey r.entityKey ∧ k.2 = r.key) := fun heq =>
        hk (Prod.ext (hashKey_inj heq.1) heq.2)
      rw [rows, hget_hset, if_neg hother]
      rfl
  · have hsave : store.save serialize db r = (db, false) := by
      rw [hadmits] at h
      push Not at h
      obtain ⟨value, hget', hlater⟩ := h
      rw [save, saveScript]
      simp only [hget', if_neg hlater]
      rfl
    rw [hsave]
    exact ⟨hdb, (Rows.put_of_not_admits h).symm, (decide_eq_false h).symm⟩

end RedisMemoryStore

/-! ### Bigtable -/

namespace BigtableMemoryStore

/-- The number and the envelope of a row: the newest cells of the two columns. -/
def rowOf (row : Row) : Option (ℕ × Bytes) :=
  (row.latest columnFamily seqColumn).bind fun seq =>
    (row.latest columnFamily recordColumn).map fun envelope => (ofBigEndian seq, envelope)

/-- The rows of the table. -/
def storedRows (rows : BigtableRows) : Rows (Bytes × String) ℕ Bytes :=
  fun k => rowOf (rows (rowKey k.1 k.2))

/-- A row has either both columns, the number in eight bytes, or none. -/
def Framed (rows : BigtableRows) : Prop := ∀ key, ∃ held : Option (ℕ × Bytes),
  (∀ p ∈ held, p.1 < 256 ^ 8) ∧
    (rows key).latest columnFamily seqColumn = held.map (encodeSeq ·.1) ∧
    (rows key).latest columnFamily recordColumn = held.map Prod.snd

/-- A save at a time does not come too early: if it takes effect, its time is not before the cells
of the row, or the row holds just its record. -/
def Timely (store : BigtableMemoryStore) (rows : BigtableRows) (now : Int) (r : MemoryRecord) :
    Prop :=
  store.storedNewerFilter r.seq (rows (rowKey r.entityKey r.key)) = [] →
    (rows (rowKey r.entityKey r.key)).Before now ∨
      rowOf (rows (rowKey r.entityKey r.key)) = some (r.seq, serialize (encodeEnvelope r))

variable {serialize} {store : BigtableMemoryStore} {rows : BigtableRows} {r : MemoryRecord}
  {now : Int}

/-- The filter lets a cell through when the newest stored number is above the incoming one. -/
theorem storedNewerFilter_ne_nil (row : Row) (seq : ℕ) : store.storedNewerFilter seq row ≠ [] ↔
    ∃ value, row.latest columnFamily seqColumn = some value ∧ encodeSeq seq < value := by
  have hchain := RowFilter.latest_chain store.literal_columnFamily store.literal_seqColumn
    (fun cell => encodeSeq seq < cell.value) row
  show RowFilter.chain [RowFilter.familyName store.regex columnFamily,
    RowFilter.columnQualifier store.regex seqColumn, RowFilter.cellsColumnLimit 1,
    fun row => row.filter fun cell => encodeSeq seq < cell.value] row ≠ [] ↔ _
  rw [hchain, Row.latest]
  cases hfind : row.find? (Cell.inColumn columnFamily seqColumn) with
  | none => simp
  | some cell => by_cases hlt : encodeSeq seq < cell.value <;> simp [List.filter, hlt]

/-- What a row with both columns or none holds. -/
theorem rowOf_framed {row : Row} {held : Option (ℕ × Bytes)} (hfits : ∀ p ∈ held, p.1 < 256 ^ 8)
    (hseq : row.latest columnFamily seqColumn = held.map (encodeSeq ·.1))
    (hrecord : row.latest columnFamily recordColumn = held.map Prod.snd) : rowOf row = held := by
  rw [rowOf, hseq, hrecord]
  cases held with
  | none => rfl
  | some p =>
    rw [Option.map_some, Option.bind_some, Option.map_some, Option.map_some, encodeSeq,
      ofBigEndian_bigEndian (hfits p rfl)]

/-- The two cells of a save are the newest of their columns, if it does not come too early. -/
theorem latest_written {row : Row} {seq : ℕ} {envelope : Bytes} {held : Option (ℕ × Bytes)}
    (hseq : row.latest columnFamily seqColumn = held.map (encodeSeq ·.1))
    (hrecord : row.latest columnFamily recordColumn = held.map Prod.snd)
    (h : row.Before now ∨ held = some (seq, envelope)) :
    let row' := [Mutation.setCell columnFamily seqColumn (encodeSeq seq),
      .setCell columnFamily recordColumn envelope].foldl (Row.mutate now) row
    row'.latest columnFamily seqColumn = some (encodeSeq seq) ∧
      row'.latest columnFamily recordColumn = some envelope := by
  intro row'
  have hcolumns : seqColumn ≠ recordColumn := by decide
  simp only [row', List.foldl_cons, List.foldl_nil]
  rcases h with hnow | rfl
  · rw [Row.latest_setCell (hnow.mutate _), Row.latest_setCell (hnow.mutate _),
      if_neg fun h => hcolumns h.2, if_pos ⟨rfl, rfl⟩, Row.latest_setCell hnow, if_pos ⟨rfl, rfl⟩]
    exact ⟨rfl, rfl⟩
  · have hrecord' : (row.mutate now (.setCell columnFamily seqColumn (encodeSeq seq))).latest
        columnFamily recordColumn = some envelope := by
      rw [Row.latest_setCell_of_eq hseq, hrecord]
      rfl
    rw [Row.latest_setCell_of_eq hrecord', Row.latest_setCell_of_eq hrecord',
      Row.latest_setCell_of_eq hseq, hseq]
    exact ⟨rfl, hrecord'⟩

theorem save_guarded (hr : r.Valid) (hrows : Framed rows)
    (htimely : store.Timely serialize rows now r) :
    Framed (store.save serialize rows now r).1 ∧
      storedRows (store.save serialize rows now r).1 =
        (storedRows rows).put (r.stored serialize) ∧
      (store.save serialize rows now r).2 =
        decide ((storedRows rows).Admits (r.stored serialize)) := by
  have hseq : r.seq < 256 ^ 8 := lt_trans hr.seq (by decide)
  obtain ⟨held, hfits, hlatest, hrecord⟩ := hrows (rowKey r.entityKey r.key)
  have hrow : storedRows rows (r.stored serialize).key = held := rowOf_framed hfits hlatest hrecord
  have hadmits : (storedRows rows).Admits (r.stored serialize) ↔
      store.storedNewerFilter r.seq (rows (rowKey r.entityKey r.key)) = [] := by
    rw [← not_iff_not, ← ne_eq, storedNewerFilter_ne_nil, hlatest, Rows.Admits, hrow]
    cases held with
    | none => simp
    | some p =>
      have hlt : encodeSeq r.seq < encodeSeq p.1 ↔ r.seq < p.1 :=
        bigEndian_lt_iff hseq (hfits p rfl)
      simp [hlt, MemoryRecord.stored]
  by_cases h : (storedRows rows).Admits (r.stored serialize)
  · obtain ⟨row, hwritten⟩ : ∃ row, row = [
        Mutation.setCell columnFamily seqColumn (encodeSeq r.seq),
        .setCell columnFamily recordColumn (serialize (encodeEnvelope r))].foldl (Row.mutate now)
          (rows (rowKey r.entityKey r.key)) := ⟨_, rfl⟩
    have hsave : store.save serialize rows now r =
        (Function.update rows (rowKey r.entityKey r.key) row, true) := by
      simp only [save, Row.checkAndMutate_of_miss (hadmits.mp h), ← hwritten]
      rfl
    have hheld : row.latest columnFamily seqColumn = some (encodeSeq r.seq) ∧
        row.latest columnFamily recordColumn = some (serialize (encodeEnvelope r)) := by
      rw [hwritten]
      refine latest_written hlatest hrecord ((htimely (hadmits.mp h)).imp_right fun hsame => ?_)
      exact (rowOf_framed hfits hlatest hrecord).symm.trans hsame
    have hnew : ∀ p ∈ some (r.seq, serialize (encodeEnvelope r)), p.1 < 256 ^ 8 := by
      rintro p ⟨⟩
      exact hseq
    rw [hsave]
    dsimp only
    refine ⟨fun key => ?_, Rows.eq_put (fun _ => ?_) (fun h' => absurd h h') fun k hk => ?_,
      (decide_eq_true h).symm⟩
    · by_cases hkey : key = rowKey r.entityKey r.key
      · subst hkey
        rw [Function.update_self]
        exact ⟨some (r.seq, serialize (encodeEnvelope r)), hnew, hheld⟩
      · rw [Function.update_of_ne hkey]
        exact hrows key
    · show rowOf (Function.update rows _ row (rowKey r.entityKey r.key)) = _
      rw [Function.update_self]
      exact rowOf_framed hnew hheld.1 hheld.2
    · have hother : rowKey k.1 k.2 ≠ rowKey r.entityKey r.key := fun heq =>
        hk (Prod.ext (rowKey_inj heq).1 (rowKey_inj heq).2)
      rw [storedRows, Function.update_of_ne hother]
      rfl
  · have hsave : store.save serialize rows now r = (rows, false) := by
      simp only [save, Row.checkAndMutate_of_hit fun h' => h (hadmits.mpr h'), List.foldl_nil,
        Function.update_eq_self]
      rfl
    rw [hsave]
    exact ⟨hrows, (Rows.put_of_not_admits h).symm, (decide_eq_false h).symm⟩

end BigtableMemoryStore

/-! ### The five stores -/

namespace SaveLogic

/-- `InMemoryMemoryStore`. -/
def inMemory : SaveLogic :=
  ofStep (σ := InMemoryMemoryStore) {} (fun store r x => store.save r = .ok x)
    (InMemoryMemoryStore.storedRows serialize)

/-- `SqlMemoryStore`, each save in one transaction. -/
def sql : SaveLogic :=
  ofStep (σ := SqlTable) Dict.empty (fun table r x => x = SqlMemoryStore.save serialize table r)
    SqlMemoryStore.rows

/-- `FirestoreMemoryStore`, each save in one transaction. -/
def firestore : SaveLogic :=
  ofStep (σ := FirestoreCollection) Dict.empty
    (fun documents r x => x = FirestoreMemoryStore.save serialize documents r)
    FirestoreMemoryStore.rows

/-- `RedisMemoryStore`, each save in one run of its script. -/
def redis (store : RedisMemoryStore) : SaveLogic :=
  ofStep (σ := RedisHashes) Dict.empty (fun db r x => x = store.save serialize db r) store.rows

/-- `BigtableMemoryStore`, each save in one conditional mutation, at a time that meets a condition.
`SetCell` is given no timestamp, so that the cells get the time of the client that saves. -/
def bigtable (store : BigtableMemoryStore)
    (timely : BigtableRows → Int → MemoryRecord → Prop) : SaveLogic :=
  ofStep (σ := BigtableRows) (fun _ => [])
    (fun rows r x => ∃ now, timely rows now r ∧ x = store.save serialize rows now r)
    BigtableMemoryStore.storedRows

variable {serialize}

theorem inMemory_guarded : (inMemory serialize).Guarded serialize fun _ => True := by
  refine guarded_ofStep _ trivial rfl (fun s r _ hr => ⟨_, InMemoryMemoryStore.save_eq hr.key⟩)
    fun s r x _ hr hsave => ?_
  rw [InMemoryMemoryStore.save_eq hr.key] at hsave
  cases hsave
  exact ⟨trivial, InMemoryMemoryStore.storedRows_saved hr.key,
    by simp only [InMemoryMemoryStore.admits_stored]⟩

theorem sql_guarded : (sql serialize).Guarded serialize fun _ => True := by
  refine guarded_ofStep _ trivial rfl (fun s r _ _ => ⟨_, rfl⟩) fun s r x _ _ hsave => ?_
  subst hsave
  exact ⟨trivial, SqlMemoryStore.save_guarded⟩

theorem firestore_guarded : (firestore serialize).Guarded serialize fun _ => True := by
  refine guarded_ofStep _ trivial rfl (fun s r _ _ => ⟨_, rfl⟩) fun s r x _ _ hsave => ?_
  subst hsave
  exact ⟨trivial, FirestoreMemoryStore.save_guarded⟩

theorem redis_guarded (store : RedisMemoryStore) :
    (redis serialize store).Guarded serialize RedisMemoryStore.Framed := by
  refine guarded_ofStep _ (fun key field value h => ?_) rfl (fun s r _ _ => ⟨_, rfl⟩)
    fun s r x hs hr hsave => ?_
  · cases h
  · subst hsave
    exact RedisMemoryStore.save_guarded hr hs

/-- There is a time that is not before any cell of a row. -/
theorem exists_before (row : Row) : ∃ now, row.Before now := by
  induction row with
  | nil => exact ⟨0, List.forall_mem_nil _⟩
  | cons c row ih =>
    obtain ⟨now, hnow⟩ := ih
    exact ⟨max c.timestamp now, List.forall_mem_cons.mpr
      ⟨le_max_left _ _, fun d hd => (hnow d hd).trans (le_max_right _ _)⟩⟩

theorem bigtable_guarded (store : BigtableMemoryStore) :
    (bigtable serialize store (store.Timely serialize)).Guarded serialize
      BigtableMemoryStore.Framed := by
  refine guarded_ofStep _ (fun key => ⟨none, nofun, rfl, rfl⟩) rfl (fun s r _ _ => ?_)
    fun s r x hs hr hsave => ?_
  · obtain ⟨now, hnow⟩ := exists_before (s (BigtableMemoryStore.rowKey r.entityKey r.key))
    exact ⟨_, now, fun _ => .inl hnow, rfl⟩
  · obtain ⟨now, hnow, rfl⟩ := hsave
    exact BigtableMemoryStore.save_guarded hr hs hnow

end SaveLogic

/-- **Saves in any order** come to the same in the reference store and over SQL, Firestore, Redis
and, as long as no save comes too early, Bigtable: each row holds the record of its highest `seq`,
no row goes back, and a save is applied exactly when its `seq` is not below the stored one. -/
theorem saves_convergent (serialize : LongTermRecord → Bytes) (redis : RedisMemoryStore)
    (bigtable : BigtableMemoryStore) :
    (SaveLogic.inMemory serialize).Convergent serialize ∧
      (SaveLogic.sql serialize).Convergent serialize ∧
      (SaveLogic.firestore serialize).Convergent serialize ∧
      (SaveLogic.redis serialize redis).Convergent serialize ∧
      (SaveLogic.bigtable serialize bigtable (bigtable.Timely serialize)).Convergent serialize :=
  ⟨SaveLogic.inMemory_guarded.convergent, SaveLogic.sql_guarded.convergent,
    SaveLogic.firestore_guarded.convergent, (SaveLogic.redis_guarded redis).convergent,
    (SaveLogic.bigtable_guarded bigtable).convergent⟩

/-! ### A client whose clock is behind -/

/-- A server whose patterns are literal. -/
def BigtableMemoryStore.plain : BigtableMemoryStore where
  regex pattern text := text = pattern
  literal_columnFamily _ := decide_eq_true_iff
  literal_seqColumn _ := decide_eq_true_iff

/-- A record with a number. -/
def numbered (seq : ℕ) : MemoryRecord := ⟨[107], "note", [UInt8.ofNat seq], seq, 0⟩

theorem numbered_valid {seq : ℕ} (hseq : seq < 2 ^ 63) : (numbered seq).Valid :=
  ⟨by simp [numbered], hseq, by simp [numbered], by simp [numbered]⟩

/-- A client saves the record 1, and another one, whose clock is behind, the record 2: the save is
applied, and the row still holds the record 1. -/
theorem bigtable_loses_save : ∃ rows,
    (SaveLogic.bigtable LongTermRecord.serialize .plain fun _ _ _ => True).machine.Run
      (fun _ => []) [numbered 1, numbered 2] [(numbered 1, true), (numbered 2, true)] rows ∧
    BigtableMemoryStore.storedRows rows ([107], "note") =
      some (1, LongTermRecord.serialize (encodeEnvelope (numbered 1))) ∧
    ¬ (SaveLogic.bigtable LongTermRecord.serialize .plain fun _ _ _ => True).Convergent
      LongTermRecord.serialize := by
  let M := (SaveLogic.bigtable LongTermRecord.serialize .plain fun _ _ _ => True).machine
  let save (rows : BigtableRows) := BigtableMemoryStore.plain.save LongTermRecord.serialize rows
  let first : BigtableRows := (save (fun _ => []) 2000 (numbered 1)).1
  let second : BigtableRows := (save first 1000 (numbered 2)).1
  have hfirst : (save (fun _ => []) 2000 (numbered 1)).2 = true := by decide +kernel
  have hsecond : (save first 1000 (numbered 2)).2 = true := by decide +kernel
  have hrow : BigtableMemoryStore.storedRows second ([107], "note") =
      some (1, LongTermRecord.serialize (encodeEnvelope (numbered 1))) := by decide +kernel
  have hstep₁ : M.step (fun _ => []) (numbered 1) first [(numbered 1, true)] :=
    ⟨numbered_valid (by decide), true, ⟨2000, trivial, Prod.ext rfl hfirst.symm⟩, rfl⟩
  have hstep₂ : M.step first (numbered 2) second [(numbered 2, true)] :=
    ⟨numbered_valid (by decide), true, ⟨1000, trivial, Prod.ext rfl hsecond.symm⟩, rfl⟩
  have hrun : M.Run (fun _ => []) ([numbered 1] ++ [numbered 2])
      ([(numbered 1, true)] ++ [(numbered 2, true)]) second :=
    (Machine.Run.single hstep₁).append (.single hstep₂)
  refine ⟨second, hrun, hrow, fun hconvergent => ?_⟩
  have hconsistent : ConsistentSaves {numbered 1, numbered 2} := by
    intro r hr r' hr' _ _ hseq
    simp only [Multiset.insert_eq_cons, Multiset.mem_cons, Multiset.mem_singleton] at hr hr'
    rcases hr with rfl | rfl <;> rcases hr' with rfl | rfl <;> first | rfl | cases hseq
  have hhighest := (hconvergent.highest hconsistent (by simp) hrun).1 (numbered 2) (by simp) (by
    simp [numbered])
  have hsame := hhighest.symm.trans hrow
  simp [numbered] at hsame

end BeamAgents
