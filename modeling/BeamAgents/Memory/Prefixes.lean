import BeamAgents.Memory.Convergence
import BeamAgents.Memory.Search
import BeamAgents.Wire.Utf8

/-!
# What a prefix search finds

For each backend the keys that its search finds, in a store with any rows. SQL, Firestore and
Bigtable find the first keys of a set of keys; Redis finds the first of a list of keys, in which a
key may be repeated. The set is that of the stored keys that start with the prefix over Bigtable,
those that the database takes to start with it over SQL, and those without a character from U+FFFF
on behind it over Firestore.

## Main definitions

* `Readable`, `InMemoryMemoryStore.Readable`: what is stored can be read back.
* `InMemoryMemoryStore.matchesBefore`.
* `SqlMemoryStore.foundKeys`, `FirestoreMemoryStore.foundKeys`, `RedisMemoryStore.scannedKeys`.

## Main results

* `InMemoryMemoryStore.agrees_iff`: when a search that finds the first of some keys agrees with the
  reference store.
* `SqlMemoryStore.search_eq`, `FirestoreMemoryStore.search_eq`, `RedisMemoryStore.search_eq`,
  `BigtableMemoryStore.search_eq`.
* `BigtableMemoryStore.prefixSuccessor_range`: the range up to the successor of a prefix.
-/

namespace BeamAgents

open Containers Stores Transition Wire

/-! ### Texts and their bytes -/

theorem utf8_eq (s : String) : utf8 s = s.toList.flatMap String.utf8EncodeChar := by
  conv_lhs => rw [← String.ofList_toList (s := s)]
  simp [utf8, String.ofList, List.utf8Encode]

/-- **The bytes of texts are in the order of their code points.** -/
theorem utf8_lt_iff {s t : String} : utf8 s < utf8 t ↔ s < t := by
  rw [utf8_eq, utf8_eq, utf8EncodeChar_orderedCode.flatMap_lt_iff, String.lt_iff_toList_lt]

theorem utf8_le_iff {s t : String} : utf8 s ≤ utf8 t ↔ s ≤ t := by
  rw [← List.not_lt, utf8_lt_iff, not_lt]

/-- The bytes of a text begin those of another exactly when the text does. -/
theorem utf8_prefix_iff {s t : String} : utf8 s <+: utf8 t ↔ s.toList <+: t.toList := by
  rw [utf8_eq, utf8_eq, utf8EncodeChar_orderedCode.flatMap_prefix_iff]

theorem isPrefixOf_iff {s t : String} : s.isPrefixOf t = true ↔ s.toList <+: t.toList :=
  String.startsWith_string_iff

/-! ### What a search returns -/

/-- Each row can be read, and holds the record of its key. -/
def Readable (rows : Rows (Bytes × String) ℕ Bytes) : Prop :=
  ∀ k row, rows k = some row → ∃ message, LongTermRecord.parse row.2 = some message ∧
    message.key = k.2

/-- The envelope of a row. -/
def envelopeAt (rows : Rows (Bytes × String) ℕ Bytes) (entityKey : Bytes) (key : String) :
    Option Bytes := (rows (entityKey, key)).map Prod.snd

variable {content : Rows (Bytes × String) ℕ Bytes} {entityKey : Bytes} {limit : ℕ}

/-- The records of stored keys are read, and show their keys. -/
theorem records_of_keys (h : Readable content) {keys : List String}
    (hkeys : ∀ key ∈ keys, content (entityKey, key) ≠ none) :
    ∃ records, (keys.filterMap (envelopeAt content entityKey)).mapM (decodeStored entityKey) =
      .ok records ∧ records.map MemoryRecord.key = keys := by
  induction keys with
  | nil => exact ⟨[], rfl, rfl⟩
  | cons key keys ih =>
    obtain ⟨hkey, hrest⟩ := List.forall_mem_cons.mp hkeys
    obtain ⟨records, hrecords, hmap⟩ := ih hrest
    obtain ⟨row, hrow⟩ := Option.ne_none_iff_exists'.mp hkey
    obtain ⟨message, hparse, hmessage⟩ := h _ _ hrow
    have henvelope : envelopeAt content entityKey key = some row.2 := by rw [envelopeAt, hrow]; rfl
    refine ⟨decodeEnvelope entityKey message :: records, ?_, ?_⟩
    · rw [List.filterMap_cons_some henvelope, List.mapM_cons, hrecords, decodeStored, hparse]
      rfl
    · rw [List.map_cons, hmap]
      exact congrArg (· :: keys) hmessage

/-- **Searches that find different keys return different records.** -/
theorem searchWith_inj (h : Readable content) (hlimit : 0 < limit) {keys keys' : List String}
    (hkeys : ∀ key ∈ keys, content (entityKey, key) ≠ none)
    (hkeys' : ∀ key ∈ keys', content (entityKey, key) ≠ none) :
    searchWith entityKey limit (keys.filterMap (envelopeAt content entityKey)) =
      searchWith entityKey limit (keys'.filterMap (envelopeAt content entityKey)) ↔
    keys = keys' := by
  refine ⟨fun heq => ?_, fun heq => by rw [heq]⟩
  obtain ⟨records, hrecords, hmap⟩ := records_of_keys h hkeys
  obtain ⟨records', hrecords', hmap'⟩ := records_of_keys h hkeys'
  rw [searchWith, searchWith, if_neg hlimit.ne', if_neg hlimit.ne', hrecords, hrecords'] at heq
  rw [← hmap, ← hmap', Except.ok.inj heq]

namespace InMemoryMemoryStore

variable {store : InMemoryMemoryStore} {keyPrefix : String}

/-- The envelopes of the store can be read back, and are under their keys. -/
def Readable (store : InMemoryMemoryStore) : Prop :=
  ∀ k row, store.table k = some row →
    LongTermRecord.parse row.2.serialize = some row.2 ∧ row.2.key = k.2

/-- The rows of the store, as the backends store them. -/
abbrev bytes (store : InMemoryMemoryStore) : Rows (Bytes × String) ℕ Bytes :=
  store.storedRows LongTermRecord.serialize

theorem bytes_eq_none_iff {k : Bytes × String} : store.bytes k = none ↔ store.table k = none :=
  Option.map_eq_none_iff

theorem Readable.bytes (h : store.Readable) : BeamAgents.Readable store.bytes := by
  intro k row hrow
  obtain ⟨stored, hstored, rfl⟩ := Option.map_eq_some_iff.mp hrow
  exact ⟨stored.2, (h k stored hstored).1, (h k stored hstored).2⟩

/-- The records of stored keys are those that are read from their bytes. -/
theorem records_of_bytes (h : store.Readable) {keys : List String}
    (hkeys : ∀ key ∈ keys, store.bytes (entityKey, key) ≠ none) :
    (keys.filterMap (envelopeAt store.bytes entityKey)).mapM (decodeStored entityKey) =
      .ok (keys.filterMap (store.recordAt entityKey)) := by
  induction keys with
  | nil => rfl
  | cons key keys ih =>
    obtain ⟨hkey, hrest⟩ := List.forall_mem_cons.mp hkeys
    obtain ⟨row, hrow⟩ := Option.ne_none_iff_exists'.mp fun hnone =>
      hkey (bytes_eq_none_iff.mpr hnone)
    have henvelope : envelopeAt store.bytes entityKey key = some row.2.serialize := by
      rw [envelopeAt, InMemoryMemoryStore.bytes, storedRows, hrow]
      rfl
    have hrecord : store.recordAt entityKey key = some (decodeEnvelope entityKey row.2) := by
      rw [recordAt, hrow]
      rfl
    rw [List.filterMap_cons_some henvelope, List.filterMap_cons_some hrecord, List.mapM_cons,
      ih hrest, decodeStored, (h _ _ hrow).1]
    rfl

/-- The keys that a search of the store finds are stored. -/
theorem bytes_ne_none_of_matching {limit : ℕ} {key : String}
    (h : key ∈ smallest limit (store.matchingKeys entityKey keyPrefix)) :
    store.bytes (entityKey, key) ≠ none := by
  have hmatching := smallest_subset (List.mem_toFinset.mpr h)
  rw [ne_eq, bytes_eq_none_iff]
  exact (mem_matchingKeys.mp hmatching).1

/-- A search of the store, as a search of the bytes. -/
theorem search_bytes (h : store.Readable) (hlimit : 0 < limit) :
    store.search entityKey keyPrefix limit = searchWith entityKey limit
      ((smallest limit (store.matchingKeys entityKey keyPrefix)).filterMap
        (envelopeAt store.bytes entityKey)) := by
  rw [search_eq entityKey keyPrefix hlimit, searchWith, if_neg hlimit.ne',
    records_of_bytes h fun _ hkey => bytes_ne_none_of_matching hkey]

/-- The number of keys before a key that start with a prefix. -/
def matchesBefore (store : InMemoryMemoryStore) (entityKey : Bytes) (keyPrefix key : String) : ℕ :=
  ((store.matchingKeys entityKey keyPrefix).filter (· < key)).card

/-- **A search agrees with the store** exactly when each key that only one of them takes to match
comes after as many matching keys as the search returns. -/
theorem agrees_iff (h : store.Readable) (hlimit : 0 < limit) {found : Finset String}
    (hfound : ∀ key ∈ found, store.bytes (entityKey, key) ≠ none) :
    searchWith entityKey limit
        ((smallest limit found).filterMap (envelopeAt store.bytes entityKey)) =
      store.search entityKey keyPrefix limit ↔
    ∀ key, ¬ (key ∈ store.matchingKeys entityKey keyPrefix ↔ key ∈ found) →
      limit ≤ store.matchesBefore entityKey keyPrefix key := by
  rw [search_bytes h hlimit, searchWith_inj h.bytes hlimit
    (fun key hkey => hfound key (smallest_subset (List.mem_toFinset.mpr hkey)))
    (fun key hkey => bytes_ne_none_of_matching hkey), eq_comm, smallest_eq_iff]
  rfl

end InMemoryMemoryStore

/-! ### SQL -/

namespace SqlMemoryStore

variable {dialect : LikeDialect} {table : SqlTable} {keyPrefix : String}

/-- Escaping character by character. -/
theorem escapeLikePrefix_eq (keyPrefix : String) :
    (escapeLikePrefix keyPrefix).toList = keyPrefix.toList.flatMap (likeEscaped likeEscape) := by
  rw [escapeLikePrefix, String.toList_ofList, replaceChar, replaceChar, replaceChar,
    List.flatMap_assoc, List.flatMap_assoc]
  refine List.flatMap_congr fun c _ => ?_
  by_cases hescape : c = likeEscape
  · subst hescape
    rfl
  by_cases hmany : c = '%'
  · subst hmany
    rfl
  by_cases hone : c = '_'
  · subst hone
    rfl
  simp [likeEscaped, hescape, hmany, hone]

/-- The pattern of a search matches the keys that the database takes to start with the prefix. -/
theorem like_pattern (key : String) :
    dialect.like likeEscape (escapeLikePrefix keyPrefix ++ "%").toList key.toList = true ↔
      dialect.StartsWith keyPrefix.toList key.toList := by
  rw [String.toList_append, escapeLikePrefix_eq]
  exact LikeDialect.like_escaped (by decide) (by decide) _ _

/-- The rows that the pattern of a search matches. -/
def matchingRows (dialect : LikeDialect) (table : SqlTable) (entityKey : Bytes)
    (keyPrefix : String) : List ((Bytes × String) × SqlColumns) :=
  table.items.filter fun row => row.1.1 = entityKey &&
    dialect.like likeEscape (escapeLikePrefix keyPrefix ++ "%").toList row.1.2.toList

theorem mem_matchingRows {row : (Bytes × String) × SqlColumns} :
    row ∈ matchingRows dialect table entityKey keyPrefix ↔ row ∈ table.items ∧
      row.1.1 = entityKey ∧ dialect.StartsWith keyPrefix.toList row.1.2.toList := by
  rw [matchingRows, List.mem_filter, Bool.and_eq_true, decide_eq_true_iff, like_pattern]

/-- The keys that the pattern of a search matches. -/
def foundKeys (dialect : LikeDialect) (table : SqlTable) (entityKey : Bytes)
    (keyPrefix : String) : Finset String :=
  ((matchingRows dialect table entityKey keyPrefix).map fun row => row.1.2).toFinset

theorem mem_foundKeys {key : String} : key ∈ foundKeys dialect table entityKey keyPrefix ↔
    rows table (entityKey, key) ≠ none ∧ dialect.StartsWith keyPrefix.toList key.toList := by
  have hrow : rows table (entityKey, key) ≠ none ↔ ∃ columns, ((entityKey, key), columns) ∈
      table.items := by
    rw [rows, ne_eq, Option.map_eq_none_iff, ← ne_eq, Option.ne_none_iff_exists']
    simp only [Dict.get?_eq_some_iff]
  simp only [foundKeys, List.mem_toFinset, List.mem_map, mem_matchingRows, hrow]
  constructor
  · rintro ⟨⟨⟨entity, key⟩, columns⟩, ⟨hmem, rfl, hstarts⟩, rfl⟩
    exact ⟨⟨columns, hmem⟩, hstarts⟩
  · rintro ⟨⟨columns, hmem⟩, hstarts⟩
    exact ⟨((entityKey, key), columns), ⟨hmem, rfl, hstarts⟩, rfl⟩

/-- A search of the table finds the first of these keys. -/
theorem search_eq (entityKey : Bytes) (keyPrefix : String) (limit : ℕ) :
    search dialect table entityKey keyPrefix limit = searchWith entityKey limit
      ((smallest limit (foundKeys dialect table entityKey keyPrefix)).filterMap
        (envelopeAt (rows table) entityKey)) := by
  have hnodup :
      ((matchingRows dialect table entityKey keyPrefix).map fun row => row.1.2).Nodup := by
    refine List.Nodup.map_on (fun a ha b hb hkey => ?_) (table.nodup.of_map.filter _)
    obtain ⟨hamem, hentity, -⟩ := mem_matchingRows.mp ha
    obtain ⟨hbmem, hentity', -⟩ := mem_matchingRows.mp hb
    exact List.inj_on_of_nodup_map table.nodup hamem hbmem
      (Prod.ext (hentity.trans hentity'.symm) hkey)
  have hfind : ∀ row ∈ matchingRows dialect table entityKey keyPrefix,
      envelopeAt (rows table) entityKey row.1.2 = some row.2.envelope := by
    rintro ⟨⟨entity, key⟩, columns⟩ hrow
    obtain ⟨hmem, rfl, -⟩ := mem_matchingRows.mp hrow
    rw [envelopeAt, rows, (table.get?_eq_some_iff).mpr hmem]
    rfl
  rw [search, select, foundKeys, ← take_mergeSort_by hnodup hfind]
  simp only [utf8_le_iff]
  rfl

end SqlMemoryStore

/-! ### Firestore -/

namespace FirestoreMemoryStore

variable {documents : FirestoreCollection} {keyPrefix : String}

/-- Each document is under the ID of its entity and key. -/
def Placed (documents : FirestoreCollection) : Prop :=
  ∀ p ∈ documents.items, ∃ entityKey : Bytes, p.2.entity = entityKey.hex ∧
    p.1 = docId entityKey p.2.key

/-- A key that starts with a prefix and is within the bounds of a query: it ends with the prefix, or
goes on with a character before U+FFFF. -/
def Within (keyPrefix key : String) : Prop :=
  ∃ rest, key.toList = keyPrefix.toList ++ rest ∧ ∀ c ∈ rest.head?, c < '\uffff'

/-- The bounds of a query. -/
theorem bounds_iff {key : String} :
    utf8 keyPrefix ≤ utf8 key ∧ utf8 key < utf8 (keyPrefix ++ "\uffff") ↔ Within keyPrefix key := by
  have hlast : (keyPrefix ++ "\uffff").toList = keyPrefix.toList ++ ['\uffff'] :=
    String.toList_append
  rw [← List.not_lt, utf8_lt_iff, utf8_lt_iff, String.lt_iff_toList_lt, String.lt_iff_toList_lt,
    hlast, between_iff]
  simp only [lt_singleton_iff]
  rfl

/-- The documents of an entity within the bounds of a query. -/
def withinBounds (documents : FirestoreCollection) (entityKey : Bytes) (keyPrefix : String) :
    List FirestoreDoc :=
  documents.values.filter fun doc => doc.entity = entityKey.hex &&
    utf8 keyPrefix ≤ utf8 doc.key && utf8 doc.key < utf8 (keyPrefix ++ "\uffff")

theorem mem_withinBounds {doc : FirestoreDoc} :
    doc ∈ withinBounds documents entityKey keyPrefix ↔ doc ∈ documents.values ∧
      doc.entity = entityKey.hex ∧ Within keyPrefix doc.key := by
  rw [withinBounds, List.mem_filter, Bool.and_eq_true, Bool.and_eq_true, decide_eq_true_iff,
    decide_eq_true_iff, decide_eq_true_iff, and_assoc, bounds_iff]

/-- A document is found under its ID. -/
theorem Placed.get? (h : Placed documents) {doc : FirestoreDoc} (hdoc : doc ∈ documents.values)
    (hentity : doc.entity = entityKey.hex) :
    documents.get? (docId entityKey doc.key) = some doc := by
  obtain ⟨⟨id, doc⟩, hmem, rfl⟩ := List.mem_map.mp hdoc
  obtain ⟨entityKey', hentity', hid⟩ := h _ hmem
  obtain rfl : entityKey' = entityKey := hex_inj (hentity'.symm.trans hentity)
  rw [documents.get?_eq_some_iff]
  exact hid ▸ hmem

/-- The keys within the bounds of a query. -/
def foundKeys (documents : FirestoreCollection) (entityKey : Bytes) (keyPrefix : String) :
    Finset String :=
  ((withinBounds documents entityKey keyPrefix).map FirestoreDoc.key).toFinset

theorem mem_foundKeys (h : Placed documents) {key : String} :
    key ∈ foundKeys documents entityKey keyPrefix ↔
      rows documents (entityKey, key) ≠ none ∧ Within keyPrefix key := by
  simp only [foundKeys, List.mem_toFinset, List.mem_map, mem_withinBounds]
  constructor
  · rintro ⟨doc, ⟨hdoc, hentity, hwithin⟩, rfl⟩
    refine ⟨?_, hwithin⟩
    rw [rows, h.get? hdoc hentity]
    exact Option.some_ne_none _
  · rintro ⟨hstored, hwithin⟩
    rw [rows, ne_eq, Option.map_eq_none_iff, ← ne_eq, Option.ne_none_iff_exists'] at hstored
    obtain ⟨doc, hdoc⟩ := hstored
    have hmem := documents.get?_eq_some_iff.mp hdoc
    obtain ⟨entityKey', hentity, hid⟩ := h _ hmem
    obtain ⟨rfl, hkey⟩ := docId_inj hid
    exact ⟨doc, ⟨List.mem_map_of_mem hmem, hentity, hkey ▸ hwithin⟩, hkey.symm⟩

/-- A search of the collection finds the first of these keys. -/
theorem search_eq (h : Placed documents) (entityKey : Bytes) (keyPrefix : String) (limit : ℕ) :
    search documents entityKey keyPrefix limit = searchWith entityKey limit
      ((smallest limit (foundKeys documents entityKey keyPrefix)).filterMap
        (envelopeAt (rows documents) entityKey)) := by
  have hids : documents.values.map (fun doc => doc.entity ++ "#" ++ quote doc.key) =
      documents.keys := by
    rw [Dict.values, Dict.keys, List.map_map]
    refine List.map_congr_left fun p hp => ?_
    obtain ⟨entityKey, hentity, hid⟩ := h p hp
    rw [hid, docId, ← hentity]
    rfl
  have hvalues : (documents.values.map fun doc => doc.entity ++ "#" ++ quote doc.key).Nodup :=
    hids ▸ documents.nodup
  have hnodup : ((withinBounds documents entityKey keyPrefix).map FirestoreDoc.key).Nodup := by
    refine List.Nodup.map_on (fun a ha b hb hkey => ?_) (hvalues.of_map.filter _)
    obtain ⟨hamem, hentity, -⟩ := mem_withinBounds.mp ha
    obtain ⟨hbmem, hentity', -⟩ := mem_withinBounds.mp hb
    refine List.inj_on_of_nodup_map hvalues hamem hbmem ?_
    rw [hentity, hentity', hkey]
  have hfind : ∀ doc ∈ withinBounds documents entityKey keyPrefix,
      envelopeAt (rows documents) entityKey doc.key = some doc.envelope := by
    intro doc hdoc
    obtain ⟨hmem, hentity, -⟩ := mem_withinBounds.mp hdoc
    rw [envelopeAt, rows, h.get? hmem hentity]
    rfl
  have horder : (fun a b : FirestoreDoc => decide (utf8 a.key ≤ utf8 b.key)) =
      fun a b => decide (a.key ≤ b.key) := by simp only [utf8_le_iff]
  rw [search, query, horder, foundKeys, ← take_mergeSort_by hnodup hfind]
  rfl

end FirestoreMemoryStore

/-! ### Redis -/

namespace RedisMemoryStore

variable {store : RedisMemoryStore} {db : RedisHashes} {keyPrefix : String}

/-- The bytes of a character, behind a backslash if it is special, are literal in a pattern. -/
theorem globPieces_char (c : Char) (pattern : Bytes) :
    globPieces ((if c ∈ globSpecials then ['\\', c] else [c]).flatMap String.utf8EncodeChar ++
        pattern) =
      (String.utf8EncodeChar c).map (.like id) ++ globPieces pattern := by
  have hword {word : Bytes} (hword : ∀ b ∈ word, ¬ globSpecial b) :
      globPieces (word ++ pattern) = word.map (.like id) ++ globPieces pattern := by
    induction word with
    | nil => rfl
    | cons b word ih =>
      obtain ⟨hb, hrest⟩ := List.forall_mem_cons.mp hword
      rw [List.cons_append, globPieces_cons hb, ih hrest]
      rfl
  by_cases hc : c ∈ globSpecials
  · rw [if_pos hc]
    simp only [globSpecials, List.mem_cons, List.not_mem_nil, or_false] at hc
    rcases hc with rfl | rfl | rfl | rfl | rfl <;> exact globPieces_escaped _ _
  · rw [if_neg hc, List.flatMap_singleton]
    refine hword fun b hb hspecial => hc ?_
    rcases mem_utf8EncodeChar hb with hcode | hlarge
    · have hchar : c = Char.ofNat b.toNat := by rw [hcode, Char.ofNat_toNat]
      rw [hchar]
      rcases hspecial with rfl | rfl | rfl | rfl <;> decide
    · rcases hspecial with rfl | rfl | rfl | rfl <;> exact absurd hlarge (by decide)

/-- The pieces of the pattern of a search. -/
theorem globPieces_literalGlobPrefix (keyPrefix : String) :
    globPieces (utf8 (literalGlobPrefix keyPrefix)) =
      (utf8 keyPrefix).map (.like id) ++ [.many] := by
  rw [literalGlobPrefix, utf8_append, utf8_eq, utf8_eq keyPrefix, String.toList_ofList,
    List.flatMap_assoc]
  have hlast : globPieces (utf8 "*") = [.many] := by
    show globPieces [42] = _
    simp [globPieces]
  induction keyPrefix.toList with
  | nil => exact hlast
  | cons c text ih =>
    rw [List.flatMap_cons, List.append_assoc, globPieces_char, ih, List.flatMap_cons,
      List.map_append, List.append_assoc]

/-- The pattern of a search matches the keys that start with the prefix. -/
theorem glob_literalGlobPrefix {key : String} :
    glob (utf8 (literalGlobPrefix keyPrefix)) (utf8 key) = true ↔
      keyPrefix.isPrefixOf key = true := by
  rw [glob, globPieces_literalGlobPrefix, Piece.accept_ones_many, List.map_id, List.map_id,
    utf8_prefix_iff, isPrefixOf_iff]

variable {scan : List (String × Bytes)}

/-- The fields that are left of a scan, with their repetitions. -/
def scannedKeys (keyPrefix : String) (scan : List (String × Bytes)) : List String :=
  (scan.map Prod.fst).filter fun key => keyPrefix.isPrefixOf key

/-- The scan has every key that starts with the prefix. -/
theorem mem_scannedKeys (hscan : HScan db (store.hashKey entityKey) (literalGlobPrefix keyPrefix)
    scan) {key : String} : key ∈ scannedKeys keyPrefix scan ↔
      store.rows db (entityKey, key) ≠ none ∧ keyPrefix.isPrefixOf key = true := by
  rw [scannedKeys, List.mem_filter, rows, ne_eq, Option.map_eq_none_iff, ← ne_eq,
    Option.ne_none_iff_exists', List.mem_map]
  refine and_congr_left fun hstarts => ⟨?_, ?_⟩
  · rintro ⟨item, hitem, rfl⟩
    exact ⟨item.2, (hscan.stored item hitem).1⟩
  · rintro ⟨value, hvalue⟩
    exact ⟨(key, value), hscan.complete key value hvalue (glob_literalGlobPrefix.mpr hstarts), rfl⟩

/-- A search of the server finds the first of these keys. -/
theorem search_eq {hscan : String → String → List (String × Bytes)}
    (h : HScan db (store.hashKey entityKey) (literalGlobPrefix keyPrefix)
      (hscan (store.hashKey entityKey) (literalGlobPrefix keyPrefix))) (limit : ℕ) :
    store.search hscan entityKey keyPrefix limit = searchWith entityKey limit
      ((((scannedKeys keyPrefix (hscan (store.hashKey entityKey)
        (literalGlobPrefix keyPrefix))).mergeSort fun a b => decide (a ≤ b)).take limit).filterMap
          (envelopeAt (store.rows db) entityKey)) := by
  rw [search]
  generalize hscan (store.hashKey entityKey) (literalGlobPrefix keyPrefix) = scan at h ⊢
  have hkeys : (scan.filter fun item => keyPrefix.isPrefixOf item.1).map Prod.fst =
      scannedKeys keyPrefix scan := by
    rw [scannedKeys, List.filter_map]
    rfl
  have hsorted : ((scan.filter fun item => keyPrefix.isPrefixOf item.1).mergeSort
      fun a b => decide (a.1 ≤ b.1)).map Prod.fst =
      (scannedKeys keyPrefix scan).mergeSort fun a b => decide (a ≤ b) := by
    rw [← hkeys]
    exact List.map_mergeSort fun a _ b _ => rfl
  have hfound : ∀ item ∈ ((scan.filter fun item => keyPrefix.isPrefixOf item.1).mergeSort
      fun a b => decide (a.1 ≤ b.1)).take limit,
      (envelopeAt (store.rows db) entityKey ∘ Prod.fst) item = some (item.2.drop 8) := by
    intro item hitem
    have hmem := (List.mem_filter.mp (List.mem_mergeSort.mp (List.mem_of_mem_take hitem))).1
    rw [Function.comp_apply, envelopeAt, rows, (h.stored item hmem).1]
    rfl
  rw [← hsorted, ← List.map_take, List.filterMap_map, List.filterMap_congr hfound,
    ← List.filterMap_eq_map]
  rfl

/-- **A search of Redis agrees with the store** exactly when every repetition of a key in the scan
comes after as many matching keys as the search returns. -/
theorem agrees_iff {memory : InMemoryMemoryStore} (hreadable : memory.Readable)
    (hlimit : 0 < limit) (hrows : store.rows db = memory.bytes)
    {hscan : String → String → List (String × Bytes)}
    (h : HScan db (store.hashKey entityKey) (literalGlobPrefix keyPrefix)
      (hscan (store.hashKey entityKey) (literalGlobPrefix keyPrefix))) :
    store.search hscan entityKey keyPrefix limit = memory.search entityKey keyPrefix limit ↔
      ∀ key, keyPrefix.isPrefixOf key = true → 1 < ((hscan (store.hashKey entityKey)
        (literalGlobPrefix keyPrefix)).map Prod.fst).count key →
          limit ≤ memory.matchesBefore entityKey keyPrefix key + 1 := by
  rw [search_eq h, InMemoryMemoryStore.search_bytes hreadable hlimit, hrows]
  generalize hscan (store.hashKey entityKey) (literalGlobPrefix keyPrefix) = scan at h ⊢
  obtain ⟨sorted, hsorted⟩ : ∃ sorted, sorted = (scannedKeys keyPrefix scan).mergeSort
      fun a b => decide (a ≤ b) := ⟨_, rfl⟩
  have hperm : sorted.Perm (scannedKeys keyPrefix scan) := hsorted ▸ List.mergeSort_perm _ _
  have hpairwise : sorted.Pairwise (· ≤ ·) := hsorted ▸ List.pairwise_mergeSort' (· ≤ ·) _
  have hmem {key : String} : key ∈ sorted ↔ key ∈ memory.matchingKeys entityKey keyPrefix := by
    rw [hperm.mem_iff, mem_scannedKeys h, hrows, ne_eq, InMemoryMemoryStore.bytes_eq_none_iff,
      InMemoryMemoryStore.mem_matchingKeys]
  have hset : sorted.toFinset = memory.matchingKeys entityKey keyPrefix := by
    ext key
    rw [List.mem_toFinset, hmem]
  rw [← hsorted, searchWith_inj hreadable.bytes hlimit
    (fun key hkey => ?_) (fun key hkey => InMemoryMemoryStore.bytes_ne_none_of_matching hkey),
    ← hset, take_sorted_iff hpairwise, hset]
  · refine forall_congr' fun key => ?_
    have hcount : keyPrefix.isPrefixOf key = true →
        sorted.count key = (scan.map Prod.fst).count key := fun hstarts => by
      rw [hperm.count_eq, scannedKeys, List.count_filter hstarts]
    have hplaces (hkey : key ∈ sorted) :
        ((memory.matchingKeys entityKey keyPrefix).filter (· ≤ key)).card =
          memory.matchesBefore entityKey keyPrefix key + 1 := card_filter_le (hmem.mp hkey)
    constructor
    · intro hall hstarts hrepeated
      rw [← hcount hstarts] at hrepeated
      rw [← hplaces (List.count_pos_iff.mp (by omega))]
      exact hall hrepeated
    · intro hall hrepeated
      have hkey : key ∈ sorted := List.count_pos_iff.mp (by omega)
      have hstarts := (InMemoryMemoryStore.mem_matchingKeys.mp (hmem.mp hkey)).2
      rw [hplaces hkey]
      exact hall hstarts (hcount hstarts ▸ hrepeated)
  · have hmatching := InMemoryMemoryStore.mem_matchingKeys.mp
      (hmem.mp (List.mem_of_mem_take hkey))
    rw [ne_eq, InMemoryMemoryStore.bytes_eq_none_iff]
    exact hmatching.1

end RedisMemoryStore

/-! ### Bigtable -/

namespace BigtableMemoryStore

variable {store : BigtableMemoryStore} {table : Table} {keyPrefix : String}

theorem prefixSuccessor_nil : prefixSuccessor [] = none := rfl

theorem prefixSuccessor_cons (b : UInt8) (start : Bytes) : prefixSuccessor (b :: start) =
    match prefixSuccessor start with
    | some stop => some (b :: stop)
    | none => if b = 255 then none else some [b + 1] := by
  have hnone : prefixSuccessor start = none ↔ start.rdropWhile (· = 255) = [] := by
    rw [prefixSuccessor, Option.map_eq_none_iff, List.getLast?_eq_none_iff]
  have htrim : (b :: start).rdropWhile (· = 255) =
      if start.rdropWhile (· = 255) = [] then if b = 255 then [] else [b]
      else b :: start.rdropWhile (· = 255) := by
    rw [List.rdropWhile, List.rdropWhile, List.reverse_cons, List.dropWhile_append]
    simp only [List.isEmpty_iff, List.reverse_eq_nil_iff]
    split_ifs <;> simp_all
  by_cases hempty : start.rdropWhile (· = 255) = []
  · rw [hnone.mpr hempty, prefixSuccessor, htrim, if_pos hempty]
    dsimp only
    split_ifs <;> rfl
  · rw [prefixSuccessor, prefixSuccessor, htrim, if_neg hempty]
    obtain ⟨a, rest, hrest⟩ := List.exists_cons_of_ne_nil hempty
    rw [hrest]
    simp [List.getLast?_eq_some_getLast]

/-- **The bytes up to the successor** are those that start with the given ones. -/
theorem prefixSuccessor_range (start key : Bytes) :
    ¬ key < start ∧ (∀ stop ∈ prefixSuccessor start, key < stop) ↔ start <+: key := by
  induction start generalizing key with
  | nil => simp [prefixSuccessor_nil]
  | cons b start ih =>
    cases key with
    | nil => simp
    | cons c key =>
      rw [prefixSuccessor_cons, List.cons_prefix_cons, ← ih key, List.cons_lt_cons_iff]
      cases prefixSuccessor start with
      | some stop =>
        simp only [Option.mem_some_iff, forall_eq', List.cons_lt_cons_iff]
        constructor
        · rintro ⟨hnot, hcb | ⟨rfl, hkey⟩⟩
          · exact absurd (.inl hcb) hnot
          · exact ⟨rfl, fun h => hnot (.inr ⟨rfl, h⟩), hkey⟩
        · rintro ⟨rfl, hnot, hkey⟩
          exact ⟨fun h => h.elim (UInt8.lt_irrefl _) fun h => hnot h.2, .inr ⟨rfl, hkey⟩⟩
      | none =>
        have hlast : (∀ stop ∈ if b = 255 then none else some [b + 1], c :: key < stop) ↔
            ¬ b < c := by
          by_cases hb : b = 255
          · subst hb
            have hle : c.toNat ≤ 255 := Nat.le_of_lt_succ c.toNat_lt
            simpa [UInt8.lt_iff_toNat_lt] using hle
          · have hb' : b.toNat < 255 := by
              have hne : b.toNat ≠ 255 := fun h => hb (UInt8.toNat_inj.mp h)
              have := b.toNat_lt
              omega
            have hsucc : (b + 1).toNat = b.toNat + 1 := by
              rw [UInt8.toNat_add]
              exact Nat.mod_eq_of_lt (Nat.succ_lt_succ hb')
            simp only [if_neg hb, Option.mem_some_iff, forall_eq', List.cons_lt_cons_iff,
              List.not_lt_nil, and_false, or_false, UInt8.lt_iff_toNat_lt, hsucc]
            omega
        rw [hlast]
        simp only [reduceCtorEq, Option.mem_def, false_imp_iff, implies_true, and_true]
        constructor
        · rintro ⟨hnot, hbc⟩
          have hcb : ¬ c < b := fun h => hnot (.inl h)
          rw [UInt8.lt_iff_toNat_lt] at hbc hcb
          obtain rfl : b = c := UInt8.toNat_inj.mp (by omega)
          exact ⟨rfl, fun h => hnot (.inr ⟨rfl, h⟩)⟩
        · rintro ⟨rfl, hnot⟩
          exact ⟨fun h => h.elim (UInt8.lt_irrefl _) fun h => hnot h.2, UInt8.lt_irrefl _⟩

/-- A row key starts with another when it is of the same entity and its key starts with the other.
-/
theorem rowKey_prefix_iff {entityKey entityKey' : Bytes} {key : String} :
    rowKey entityKey keyPrefix <+: rowKey entityKey' key ↔
      entityKey = entityKey' ∧ keyPrefix.isPrefixOf key = true := by
  have hchars (entityKey : Bytes) (key : String) :
      (entityKey.hex ++ "#" ++ key).toList = entityKey.flatMap hexByte ++ '#' :: key.toList := by
    rw [Bytes.hex, String.toList_append, String.toList_append, String.toList_ofList,
      List.append_assoc]
    rfl
  rw [rowKey_eq, rowKey_eq, utf8_prefix_iff, isPrefixOf_iff, hchars, hchars]
  constructor
  · rintro ⟨rest, hrest⟩
    rw [List.append_assoc, List.cons_append] at hrest
    obtain ⟨hentity, hkey⟩ := hexByte_prefixCode.flatMap_append_inj head?_hexByte hrest
    exact ⟨hentity, rest, hkey⟩
  · rintro ⟨rfl, rest, hrest⟩
    exact ⟨rest, by rw [List.append_assoc, List.cons_append, hrest]⟩

/-- The row keys of an entity are in the order of the keys. -/
theorem rowKey_lt_iff {key key' : String} :
    rowKey entityKey key < rowKey entityKey key' ↔ key < key' := by
  rw [rowKey, rowKey, OrderedCode.append_lt_append_iff, List.cons_lt_cons_self, utf8_lt_iff]

/-- Each row that has cells is that of an entity and a key, and holds their record. -/
def Placed (rows : BigtableRows) : Prop := ∀ rowKey', rows rowKey' ≠ [] →
  ∃ entityKey key, rowKey' = rowKey entityKey key ∧ storedRows rows (entityKey, key) ≠ none

theorem storedRows_ne_none {rows : BigtableRows} {key : String}
    (h : storedRows rows (entityKey, key) ≠ none) : rows (rowKey entityKey key) ≠ [] := by
  intro hempty
  exact h (by rw [storedRows, hempty]; rfl)

/-- What is read of a row is its newest envelope. -/
theorem recordCell_latest (row : Row) :
    recordCell (store.latestCellsFilter row) = row.latest columnFamily recordColumn := by
  rw [recordCell, ← List.head?_filter, latestCellsFilter,
    Row.filter_qualifier_newest store.literal_columnFamily, Row.latest]
  cases row.find? (Cell.inColumn columnFamily recordColumn) <;> rfl

variable (store) in
/-- The envelope of a row that holds a record. -/
theorem recordCell_stored {rows : BigtableRows} {key : String}
    (h : storedRows rows (entityKey, key) ≠ none) :
    ∃ envelope, recordCell (store.latestCellsFilter (rows (rowKey entityKey key))) =
      some envelope ∧ envelopeAt (storedRows rows) entityKey key = some envelope := by
  obtain ⟨row, hrow⟩ := Option.ne_none_iff_exists'.mp h
  obtain ⟨seq, hseq, henvelope⟩ := Option.bind_eq_some_iff.mp hrow
  obtain ⟨envelope, hlatest, rfl⟩ := Option.map_eq_some_iff.mp henvelope
  refine ⟨envelope, ?_, ?_⟩
  · rw [recordCell_latest]
    exact hlatest
  · rw [envelopeAt, hrow]
    rfl

/-- **The rows of a range** are those of the matching keys, in the order of the keys. -/
theorem keys_within (h : Placed table.rows) {matching : Finset String}
    (hmatching : ∀ key, key ∈ matching ↔ storedRows table.rows (entityKey, key) ≠ none ∧
      keyPrefix.isPrefixOf key = true) :
    (table.keys.filter fun key => rowKey entityKey keyPrefix ≤ key &&
      (prefixSuccessor (rowKey entityKey keyPrefix)).all fun stop => key < stop) =
        matching.sort.map (rowKey entityKey) := by
  have hrange (key : Bytes) : (rowKey entityKey keyPrefix ≤ key &&
      (prefixSuccessor (rowKey entityKey keyPrefix)).all fun stop => key < stop) = true ↔
        rowKey entityKey keyPrefix <+: key := by
    rw [← prefixSuccessor_range, Bool.and_eq_true, decide_eq_true_iff, ← List.not_lt,
      Option.all_eq_true]
    simp
  refine (table.sorted.filter _).eq_of_mem_iff ?_ fun rowKey' => ?_
  · rw [List.pairwise_map]
    exact matching.sortedLT_sort.pairwise.imp fun hlt => rowKey_lt_iff.mpr hlt
  · rw [List.mem_filter, hrange, table.mem_keys, List.mem_map]
    simp only [Finset.mem_sort, hmatching]
    constructor
    · rintro ⟨hcells, hprefix⟩
      obtain ⟨entityKey', key, rfl, hstored⟩ := h rowKey' hcells
      obtain ⟨rfl, hstarts⟩ := rowKey_prefix_iff.mp hprefix
      exact ⟨key, ⟨hstored, hstarts⟩, rfl⟩
    · rintro ⟨key, ⟨hstored, hstarts⟩, rfl⟩
      exact ⟨storedRows_ne_none hstored, rowKey_prefix_iff.mpr ⟨rfl, hstarts⟩⟩

/-- A search of the table finds the first of the matching keys. -/
theorem search_eq (h : Placed table.rows) {matching : Finset String}
    (hmatching : ∀ key, key ∈ matching ↔ storedRows table.rows (entityKey, key) ≠ none ∧
      keyPrefix.isPrefixOf key = true) (limit : ℕ) :
    store.search table entityKey keyPrefix limit = searchWith entityKey limit
      ((smallest limit matching).filterMap (envelopeAt (storedRows table.rows) entityKey)) := by
  have hstored : ∀ key ∈ matching.sort, storedRows table.rows (entityKey, key) ≠ none :=
    fun key hkey => ((hmatching key).mp ((Finset.mem_sort _).mp hkey)).1
  have hall : ∀ row ∈ (matching.sort.map (rowKey entityKey)).map fun key =>
      store.latestCellsFilter (table.rows key), decide (row ≠ []) = true := by
    intro row hrow
    obtain ⟨key', hkey', rfl⟩ := List.mem_map.mp hrow
    obtain ⟨key, hkey, rfl⟩ := List.mem_map.mp hkey'
    obtain ⟨envelope, hcell, -⟩ := recordCell_stored store (hstored key hkey)
    refine decide_eq_true fun hempty => ?_
    rw [hempty] at hcell
    cases hcell
  rw [search, Table.readRows, keys_within h hmatching, List.filter_eq_self.mpr hall, List.map_map,
    ← List.map_take, List.filterMap_map, smallest]
  congr 1
  refine List.filterMap_congr fun key hkey => ?_
  obtain ⟨envelope, hcell, henvelope⟩ :=
    recordCell_stored store (hstored key (List.mem_of_mem_take hkey))
  rw [henvelope]
  exact hcell

end BigtableMemoryStore

end BeamAgents
