import BeamAgents.Memory.Prefixes

/-!
# Prefix search across the stores

The same saves leave the same rows in the reference store and in each of the backends. A prefix
search of a backend then returns what the reference store returns unless one of the first places of
its answer is taken by a key that does not start with the prefix, or lost by one that does: over SQL
by a key that starts with the prefix in another case, over Firestore by a key that goes on with a
character from U+FFFF on, over Redis by a field that the scan returns again. Over Bigtable it always
does.

## Main definitions

* `StoredContents`, `SavedTo`: what the stores hold after the same saves.

## Main results

* `exists_savedTo`: any valid records can be saved.
* `SavedTo.sql_agrees_iff`, `SavedTo.firestore_agrees_iff`, `SavedTo.bigtable_agrees`,
  `RedisMemoryStore.agrees_iff`: each of the backends.
* `searches_agree_iff`: all of them.
-/

namespace BeamAgents

open Containers Stores Transition Wire

/-! ### The stores after some saves -/

namespace SaveLogic

variable {serialize : LongTermRecord → Bytes} {b : SaveLogic} {Inv : b.State → Prop}

/-- Every sequence of valid records can be saved. -/
theorem Guarded.exists_run (h : b.Guarded serialize Inv) {saves : List MemoryRecord}
    (hvalid : ∀ r ∈ saves, r.Valid) : ∃ log s, b.machine.Run b.start saves log s := by
  induction saves using List.reverseRecOn with
  | nil => exact ⟨[], _, .refl⟩
  | append_singleton saves r ih =>
    obtain ⟨log, s, hrun⟩ := ih fun r hr => hvalid r (List.mem_append_left _ hr)
    obtain ⟨s', applied, hstep⟩ := h.total (h.rows_of_run hrun).1
      (hvalid r (List.mem_append_right _ (List.mem_singleton_self r)))
    exact ⟨_, _, hrun.tail hstep⟩

end SaveLogic

/-- The records that were saved are those of the rows. -/
theorem InMemoryMemoryStore.record_of_run {saves : List MemoryRecord}
    {log : List (MemoryRecord × Bool)} {store : InMemoryMemoryStore}
    (h : (SaveLogic.inMemory LongTermRecord.serialize).machine.Run {} saves log store)
    {k : Bytes × String} {row : ℕ × LongTermRecord} (hrow : store.table k = some row) :
    ∃ r ∈ saves, r.Valid ∧ (r.entityKey, r.key) = k ∧ row.2 = encodeEnvelope r := by
  refine h.invariant (I := fun saves _ (store : InMemoryMemoryStore) => ∀ k row,
    store.table k = some row → ∃ r ∈ saves, r.Valid ∧ (r.entityKey, r.key) = k ∧
      row.2 = encodeEnvelope r) ?_ ?_ k row hrow
  · intro k row hrow
    cases hrow
  · rintro saves log store r store' o - ih ⟨hvalid, applied, hsave, -⟩ k row hrow
    rw [InMemoryMemoryStore.save_eq hvalid.key] at hsave
    obtain rfl : store.saved r = store' := congrArg Prod.fst (Except.ok.inj hsave)
    rw [InMemoryMemoryStore.table_saved hvalid.key] at hrow
    by_cases hadmits : store.table.Admits r.write
    · by_cases hk : k = r.write.key
      · subst hk
        rw [Rows.put_self hadmits] at hrow
        cases hrow
        exact ⟨r, List.mem_append_right _ (List.mem_singleton_self r), hvalid, rfl, rfl⟩
      · rw [Rows.put_of_ne hk] at hrow
        obtain ⟨r', hr', h'⟩ := ih k row hrow
        exact ⟨r', List.mem_append_left _ hr', h'⟩
    · rw [Rows.put_of_not_admits hadmits] at hrow
      obtain ⟨r', hr', h'⟩ := ih k row hrow
      exact ⟨r', List.mem_append_left _ hr', h'⟩

/-- What some saves leave in the reference store. -/
theorem InMemoryMemoryStore.eq_of_run {saves : List MemoryRecord}
    {log : List (MemoryRecord × Bool)} {store : InMemoryMemoryStore}
    (h : (SaveLogic.inMemory LongTermRecord.serialize).machine.Run {} saves log store) :
    store = InMemoryMemoryStore.savedAll {} saves := by
  refine h.invariant (I := fun saves _ (store : InMemoryMemoryStore) =>
    store = InMemoryMemoryStore.savedAll {} saves) rfl ?_
  rintro saves log store r store' o - rfl ⟨hvalid, applied, hsave, -⟩
  rw [InMemoryMemoryStore.save_eq hvalid.key] at hsave
  obtain rfl : _ = store' := congrArg Prod.fst (Except.ok.inj hsave)
  rw [savedAll, savedAll, List.foldl_append]
  rfl

/-- The envelopes that were saved are read back. -/
theorem InMemoryMemoryStore.readable_of_run {saves : List MemoryRecord}
    {log : List (MemoryRecord × Bool)} {store : InMemoryMemoryStore}
    (h : (SaveLogic.inMemory LongTermRecord.serialize).machine.Run {} saves log store)
    (hfits : ∀ r ∈ saves, LongTermRecordMessage.codec.Fits (encodeEnvelope r).message) :
    store.Readable := by
  intro k row hrow
  obtain ⟨r, hr, hvalid, rfl, hrecord⟩ := record_of_run h hrow
  rw [hrecord]
  have hnumbers : (encodeEnvelope r).Valid :=
    ⟨(by decide : 1 < 2 ^ 32), hvalid.seq, hvalid.updatedAtMs⟩
  exact ⟨LongTermRecord.parse_serialize hnumbers (hfits r hr), rfl⟩

/-- The documents that were saved are under their IDs. -/
theorem FirestoreMemoryStore.placed_of_run {saves : List MemoryRecord}
    {log : List (MemoryRecord × Bool)} {documents : FirestoreCollection}
    (h : (SaveLogic.firestore LongTermRecord.serialize).machine.Run Dict.empty saves log
      documents) : Placed documents := by
  refine h.stateInvariant (I := Placed) ?_ ?_
  · intro p hp
    cases hp
  · rintro documents r documents' o ih ⟨-, applied, hsave, -⟩ ⟨id, doc⟩ hmem
    obtain rfl : documents' = (save LongTermRecord.serialize documents r).1 :=
      congrArg Prod.fst hsave
    have hsaved : (save LongTermRecord.serialize documents r).1 = documents ∨
        (save LongTermRecord.serialize documents r).1 = documents.set (docId r.entityKey r.key)
          ⟨r.entityKey.hex, r.key, r.seq, (encodeEnvelope r).serialize⟩ := by
      rw [save]
      cases documents.get? (docId r.entityKey r.key) with
      | none => exact .inr rfl
      | some snapshot =>
        dsimp only
        split_ifs
        · exact .inl rfl
        · exact .inr rfl
    rcases hsaved with hsame | hset
    · rw [hsame] at hmem
      exact ih _ hmem
    · rw [hset, ← Dict.get?_eq_some_iff, Dict.get?_set] at hmem
      split_ifs at hmem with hid
      · cases hmem
        exact ⟨r.entityKey, rfl, hid⟩
      · exact ih (id, doc) ((Dict.get?_eq_some_iff _).mp hmem)

/-- The rows that have cells are those of records that were saved. -/
theorem BigtableMemoryStore.placed_of_run {store : BigtableMemoryStore} {saves : List MemoryRecord}
    {log : List (MemoryRecord × Bool)} {rows : BigtableRows}
    (h : (SaveLogic.bigtable LongTermRecord.serialize store
      (store.Timely LongTermRecord.serialize)).machine.Run (fun _ => []) saves log rows)
    {rowKey' : Bytes} (hrow : rows rowKey' ≠ []) :
    ∃ r ∈ saves, rowKey' = rowKey r.entityKey r.key ∧
      storedRows rows (r.entityKey, r.key) ≠ none := by
  have hguarded : (SaveLogic.bigtable LongTermRecord.serialize store
      (store.Timely LongTermRecord.serialize)).Guarded LongTermRecord.serialize Framed :=
    SaveLogic.bigtable_guarded store
  have hplaced : Framed rows ∧ ∀ rowKey', rows rowKey' ≠ [] → ∃ r ∈ saves,
      rowKey' = rowKey r.entityKey r.key ∧ storedRows rows (r.entityKey, r.key) ≠ none := by
    refine h.invariant (I := fun saves _ (rows : BigtableRows) => Framed rows ∧ ∀ rowKey',
      rows rowKey' ≠ [] → ∃ r ∈ saves, rowKey' = rowKey r.entityKey r.key ∧
        storedRows rows (r.entityKey, r.key) ≠ none) ?_ ?_
    · exact ⟨hguarded.start, fun _ hrow => absurd rfl hrow⟩
    · intro saves log rows r rows' o _ ⟨hframed, ih⟩ hstep
      obtain ⟨hframed', hput, -⟩ := hguarded.step hframed hstep
      obtain ⟨-, applied, ⟨now, -, hsave⟩, -⟩ := hstep
      obtain rfl : rows' = (store.save LongTermRecord.serialize rows now r).1 :=
        congrArg Prod.fst hsave
      have hrows : storedRows (store.save LongTermRecord.serialize rows now r).1 =
          (storedRows rows).put (r.stored LongTermRecord.serialize) := hput
      refine ⟨hframed', fun rowKey' hrow => ?_⟩
      by_cases hkey : rowKey' = rowKey r.entityKey r.key
      · refine ⟨r, List.mem_append_right _ (List.mem_singleton_self r), hkey, ?_⟩
        rw [hrows]
        exact Rows.put_key_ne_none (w := r.stored LongTermRecord.serialize)
      · have hsame : (store.save LongTermRecord.serialize rows now r).1 rowKey' = rows rowKey' :=
          Function.update_of_ne hkey _ _
        rw [hsame] at hrow
        obtain ⟨r', hr', rfl, hstored⟩ := ih rowKey' hrow
        refine ⟨r', List.mem_append_left _ hr', rfl, ?_⟩
        rwa [storedRows, hsame]
  exact hplaced.2 rowKey' hrow

/-- The table of rows of which only some have cells. -/
theorem BigtableMemoryStore.exists_table {rows : BigtableRows} {names : Finset String}
    (h : ∀ rowKey', rows rowKey' ≠ [] → ∃ name ∈ names, rowKey' = utf8 name) :
    ∃ table : Table, table.rows = rows := by
  refine ⟨⟨rows, (names.filter fun name => rows (utf8 name) ≠ []).sort.map utf8, ?_, ?_⟩, rfl⟩
  · rw [List.pairwise_map]
    exact (Finset.sortedLT_sort _).pairwise.imp fun hlt => utf8_lt_iff.mpr hlt
  · intro key
    simp only [List.mem_map, Finset.mem_sort, Finset.mem_filter]
    constructor
    · rintro ⟨name, ⟨-, hcells⟩, rfl⟩
      exact hcells
    · intro hcells
      obtain ⟨name, hname, rfl⟩ := h key hcells
      exact ⟨name, ⟨hname, hcells⟩, rfl⟩

/-! ### Agreement -/

/-- What the reference store and the four servers hold. -/
structure StoredContents where
  memory : InMemoryMemoryStore
  sql : SqlTable
  firestore : FirestoreCollection
  redis : RedisHashes
  bigtable : BigtableMemoryStore.Table

/-- The stores hold what some saves, in this order, leave in each of them. -/
structure SavedTo (redis : RedisMemoryStore) (bigtable : BigtableMemoryStore)
    (saves : List MemoryRecord) (contents : StoredContents) : Prop where
  memory : ∃ log, (SaveLogic.inMemory LongTermRecord.serialize).machine.Run {} saves log
    contents.memory
  sql : ∃ log, (SaveLogic.sql LongTermRecord.serialize).machine.Run Dict.empty saves log
    contents.sql
  firestore : ∃ log, (SaveLogic.firestore LongTermRecord.serialize).machine.Run Dict.empty saves log
    contents.firestore
  redis : ∃ log, (SaveLogic.redis LongTermRecord.serialize redis).machine.Run Dict.empty saves log
    contents.redis
  /-- No save to Bigtable comes too early. -/
  bigtable : ∃ log, (SaveLogic.bigtable LongTermRecord.serialize bigtable
    (bigtable.Timely LongTermRecord.serialize)).machine.Run (fun _ => []) saves log
      contents.bigtable.rows

variable {redis : RedisMemoryStore} {bigtable : BigtableMemoryStore} {saves : List MemoryRecord}
  {contents : StoredContents}

/-- Every sequence of valid records can be saved to all the stores. -/
theorem exists_savedTo (redis : RedisMemoryStore) (bigtable : BigtableMemoryStore)
    (hvalid : ∀ r ∈ saves, r.Valid) : ∃ contents, SavedTo redis bigtable saves contents := by
  obtain ⟨memoryLog, memory, hmemory⟩ : ∃ log memory,
      (SaveLogic.inMemory LongTermRecord.serialize).machine.Run {} saves log memory :=
    SaveLogic.inMemory_guarded.exists_run hvalid
  obtain ⟨sqlLog, sql, hsql⟩ : ∃ log sql,
      (SaveLogic.sql LongTermRecord.serialize).machine.Run Dict.empty saves log sql :=
    SaveLogic.sql_guarded.exists_run hvalid
  obtain ⟨firestoreLog, firestore, hfirestore⟩ : ∃ log firestore,
      (SaveLogic.firestore LongTermRecord.serialize).machine.Run Dict.empty saves log firestore :=
    SaveLogic.firestore_guarded.exists_run hvalid
  obtain ⟨redisLog, db, hredis⟩ : ∃ log db,
      (SaveLogic.redis LongTermRecord.serialize redis).machine.Run Dict.empty saves log db :=
    (SaveLogic.redis_guarded redis).exists_run hvalid
  obtain ⟨bigtableLog, rows, hbigtable⟩ : ∃ log rows,
      (SaveLogic.bigtable LongTermRecord.serialize bigtable
        (bigtable.Timely LongTermRecord.serialize)).machine.Run (fun _ => []) saves log rows :=
    (SaveLogic.bigtable_guarded bigtable).exists_run hvalid
  have hnames : ∀ rowKey', rows rowKey' ≠ [] →
      ∃ name ∈ (saves.map fun r => r.entityKey.hex ++ "#" ++ r.key).toFinset,
        rowKey' = utf8 name := by
    intro rowKey' hrow
    obtain ⟨r, hr, hkey, -⟩ := BigtableMemoryStore.placed_of_run hbigtable hrow
    exact ⟨_, List.mem_toFinset.mpr (List.mem_map_of_mem hr),
      hkey.trans (BigtableMemoryStore.rowKey_eq _ _)⟩
  obtain ⟨table, rfl⟩ := BigtableMemoryStore.exists_table hnames
  exact ⟨⟨memory, sql, firestore, db, table⟩, ⟨_, hmemory⟩, ⟨_, hsql⟩, ⟨_, hfirestore⟩,
    ⟨_, hredis⟩, ⟨_, hbigtable⟩⟩

namespace SavedTo

theorem memory_bytes (h : SavedTo redis bigtable saves contents) : contents.memory.bytes =
    Rows.putAll (fun _ => none) (saves.map (MemoryRecord.stored LongTermRecord.serialize)) :=
  h.memory.elim fun _ hrun => (SaveLogic.inMemory_guarded.rows_of_run hrun).2

theorem memory_eq (h : SavedTo redis bigtable saves contents) :
    contents.memory = InMemoryMemoryStore.savedAll {} saves :=
  h.memory.elim fun _ hrun => InMemoryMemoryStore.eq_of_run hrun

theorem sql_rows (h : SavedTo redis bigtable saves contents) :
    SqlMemoryStore.rows contents.sql = contents.memory.bytes :=
  h.memory_bytes ▸ h.sql.elim fun _ hrun => (SaveLogic.sql_guarded.rows_of_run hrun).2

theorem firestore_rows (h : SavedTo redis bigtable saves contents) :
    FirestoreMemoryStore.rows contents.firestore = contents.memory.bytes :=
  h.memory_bytes ▸ h.firestore.elim fun _ hrun => (SaveLogic.firestore_guarded.rows_of_run hrun).2

theorem redis_rows (h : SavedTo redis bigtable saves contents) :
    redis.rows contents.redis = contents.memory.bytes :=
  h.memory_bytes ▸ h.redis.elim fun _ hrun => ((SaveLogic.redis_guarded redis).rows_of_run hrun).2

theorem bigtable_rows (h : SavedTo redis bigtable saves contents) :
    BigtableMemoryStore.storedRows contents.bigtable.rows = contents.memory.bytes :=
  h.memory_bytes ▸ h.bigtable.elim fun _ hrun =>
    ((SaveLogic.bigtable_guarded bigtable).rows_of_run hrun).2

/-- What was saved can be read back. -/
theorem readable (h : SavedTo redis bigtable saves contents)
    (hfits : ∀ r ∈ saves, LongTermRecordMessage.codec.Fits (encodeEnvelope r).message) :
    contents.memory.Readable :=
  h.memory.elim fun _ hrun => InMemoryMemoryStore.readable_of_run hrun hfits

variable {entityKey : Bytes} {keyPrefix : String} {limit : ℕ}

/-- A search of the SQL store. -/
theorem sql_agrees_iff (h : SavedTo redis bigtable saves contents)
    (hfits : ∀ r ∈ saves, LongTermRecordMessage.codec.Fits (encodeEnvelope r).message)
    (dialect : LikeDialect) (hlimit : 0 < limit) :
    SqlMemoryStore.search dialect contents.sql entityKey keyPrefix limit =
        contents.memory.search entityKey keyPrefix limit ↔
      ∀ key, contents.memory.table (entityKey, key) ≠ none →
        dialect.StartsWith keyPrefix.toList key.toList → keyPrefix.isPrefixOf key = false →
          limit ≤ contents.memory.matchesBefore entityKey keyPrefix key := by
  have hmem {key : String} : key ∈ SqlMemoryStore.foundKeys dialect contents.sql entityKey
      keyPrefix ↔ contents.memory.table (entityKey, key) ≠ none ∧
        dialect.StartsWith keyPrefix.toList key.toList := by
    rw [SqlMemoryStore.mem_foundKeys, h.sql_rows, ne_eq, InMemoryMemoryStore.bytes_eq_none_iff]
  rw [SqlMemoryStore.search_eq, h.sql_rows,
    InMemoryMemoryStore.agrees_iff (h.readable hfits) hlimit fun key hkey =>
      fun hnone => (hmem.mp hkey).1 (InMemoryMemoryStore.bytes_eq_none_iff.mp hnone)]
  refine forall_congr' fun key => ?_
  rw [InMemoryMemoryStore.mem_matchingKeys, hmem]
  constructor
  · intro hall hstored hstarts hnot
    refine hall fun hiff => ?_
    rw [(hiff.mpr ⟨hstored, hstarts⟩).2] at hnot
    cases hnot
  · intro hall hdiff
    have hstarts : keyPrefix.isPrefixOf key = true →
        dialect.StartsWith keyPrefix.toList key.toList := fun hprefix =>
      LikeDialect.startsWith_of_prefix (isPrefixOf_iff.mp hprefix)
    by_cases hstored : contents.memory.table (entityKey, key) = none
    · exact absurd (iff_of_false (fun h => h.1 hstored) fun h => h.1 hstored) hdiff
    · by_cases hprefix : keyPrefix.isPrefixOf key = true
      · exact absurd (iff_of_true ⟨hstored, hprefix⟩ ⟨hstored, hstarts hprefix⟩) hdiff
      · refine hall hstored (by_contra fun hnot => ?_) (Bool.eq_false_iff.mpr hprefix)
        exact hdiff (iff_of_false (fun h => hprefix h.2) fun h => hnot h.2)

/-- **A search of a SQL store that takes texts as they are always agrees.** -/
theorem exactLike_agrees (h : SavedTo redis bigtable saves contents)
    (hfits : ∀ r ∈ saves, LongTermRecordMessage.codec.Fits (encodeEnvelope r).message)
    (hlimit : 0 < limit) :
    SqlMemoryStore.search exactLike contents.sql entityKey keyPrefix limit =
      contents.memory.search entityKey keyPrefix limit := by
  refine (h.sql_agrees_iff hfits exactLike hlimit).mpr fun key _ hstarts hnot => ?_
  rw [LikeDialect.exactLike_startsWith, ← isPrefixOf_iff, hnot] at hstarts
  cases hstarts

/-- A search of the Firestore store. -/
theorem firestore_agrees_iff (h : SavedTo redis bigtable saves contents)
    (hfits : ∀ r ∈ saves, LongTermRecordMessage.codec.Fits (encodeEnvelope r).message)
    (hlimit : 0 < limit) :
    FirestoreMemoryStore.search contents.firestore entityKey keyPrefix limit =
        contents.memory.search entityKey keyPrefix limit ↔
      ∀ key c rest, contents.memory.table (entityKey, key) ≠ none →
        key.toList = keyPrefix.toList ++ c :: rest → '\uffff' ≤ c →
          limit ≤ contents.memory.matchesBefore entityKey keyPrefix key := by
  have hplaced : FirestoreMemoryStore.Placed contents.firestore :=
    h.firestore.elim fun _ hrun => FirestoreMemoryStore.placed_of_run hrun
  have hmem {key : String} : key ∈ FirestoreMemoryStore.foundKeys contents.firestore entityKey
      keyPrefix ↔ contents.memory.table (entityKey, key) ≠ none ∧
        FirestoreMemoryStore.Within keyPrefix key := by
    rw [FirestoreMemoryStore.mem_foundKeys hplaced, h.firestore_rows, ne_eq,
      InMemoryMemoryStore.bytes_eq_none_iff]
  rw [FirestoreMemoryStore.search_eq hplaced, h.firestore_rows,
    InMemoryMemoryStore.agrees_iff (h.readable hfits) hlimit fun key hkey =>
      fun hnone => (hmem.mp hkey).1 (InMemoryMemoryStore.bytes_eq_none_iff.mp hnone)]
  refine forall_congr' fun key => ?_
  rw [InMemoryMemoryStore.mem_matchingKeys, hmem, isPrefixOf_iff]
  constructor
  · intro hall c rest hstored hkey hc
    refine hall fun hiff => ?_
    obtain ⟨-, rest', hkey', hbefore⟩ := hiff.mp ⟨hstored, _, hkey.symm⟩
    obtain rfl := List.append_cancel_left (hkey.symm.trans hkey')
    exact absurd (hbefore c rfl) hc.not_gt
  · intro hall hdiff
    by_cases hstored : contents.memory.table (entityKey, key) = none
    · exact absurd (iff_of_false (fun h => h.1 hstored) fun h => h.1 hstored) hdiff
    by_cases hprefix : keyPrefix.toList <+: key.toList
    · obtain ⟨rest, hrest⟩ := hprefix
      cases rest with
      | nil =>
        exact absurd (iff_of_true ⟨hstored, _, hrest⟩ ⟨hstored, [], hrest.symm, by simp⟩) hdiff
      | cons c rest =>
        refine hall c rest hstored hrest.symm (not_lt.mp fun hlt => hdiff ?_)
        exact iff_of_true ⟨hstored, _, hrest⟩ ⟨hstored, _, hrest.symm, by simpa using hlt⟩
    · refine absurd (iff_of_false (fun h => hprefix h.2) ?_) hdiff
      rintro ⟨-, rest, hkey, -⟩
      exact hprefix ⟨rest, hkey.symm⟩

/-- A search of the Bigtable store. -/
theorem bigtable_agrees (h : SavedTo redis bigtable saves contents)
    (hfits : ∀ r ∈ saves, LongTermRecordMessage.codec.Fits (encodeEnvelope r).message)
    (hlimit : 0 < limit) :
    bigtable.search contents.bigtable entityKey keyPrefix limit =
      contents.memory.search entityKey keyPrefix limit := by
  have hplaced : BigtableMemoryStore.Placed contents.bigtable.rows := by
    intro rowKey' hrow
    obtain ⟨log, hrun⟩ := h.bigtable
    obtain ⟨r, -, hkey, hstored⟩ := BigtableMemoryStore.placed_of_run hrun hrow
    exact ⟨r.entityKey, r.key, hkey, hstored⟩
  rw [BigtableMemoryStore.search_eq hplaced fun key => ?_, h.bigtable_rows,
    ← InMemoryMemoryStore.search_bytes (h.readable hfits) hlimit]
  rw [h.bigtable_rows, InMemoryMemoryStore.mem_matchingKeys, ne_eq, ne_eq,
    InMemoryMemoryStore.bytes_eq_none_iff]

end SavedTo

/-- **Prefix search across the stores.** After the same saves,

* a search over SQL returns what the reference store returns exactly when each stored key that the
  database takes to start with the prefix, although it does not, comes after as many matching keys
  as the search returns;
* one over Firestore exactly when each stored key that goes on with a character from U+FFFF on
  behind the prefix does;
* one over Redis exactly when each repetition of a key in the scan does;
* and one over Bigtable always. -/
theorem searches_agree_iff (dialect : LikeDialect) (redis : RedisMemoryStore)
    (bigtable : BigtableMemoryStore) {saves : List MemoryRecord} {contents : StoredContents}
    (h : SavedTo redis bigtable saves contents)
    (hfits : ∀ r ∈ saves, LongTermRecordMessage.codec.Fits (encodeEnvelope r).message)
    (entityKey : Bytes) (keyPrefix : String) {limit : ℕ} (hlimit : 0 < limit) :
    (SqlMemoryStore.search dialect contents.sql entityKey keyPrefix limit =
        contents.memory.search entityKey keyPrefix limit ↔
      ∀ key, contents.memory.table (entityKey, key) ≠ none →
        dialect.StartsWith keyPrefix.toList key.toList → keyPrefix.isPrefixOf key = false →
          limit ≤ contents.memory.matchesBefore entityKey keyPrefix key) ∧
    (FirestoreMemoryStore.search contents.firestore entityKey keyPrefix limit =
        contents.memory.search entityKey keyPrefix limit ↔
      ∀ key c rest, contents.memory.table (entityKey, key) ≠ none →
        key.toList = keyPrefix.toList ++ c :: rest → '\uffff' ≤ c →
          limit ≤ contents.memory.matchesBefore entityKey keyPrefix key) ∧
    (∀ hscan : String → String → List (String × Bytes),
      (∀ key pattern, RedisMemoryStore.HScan contents.redis key pattern (hscan key pattern)) →
      (redis.search hscan entityKey keyPrefix limit =
          contents.memory.search entityKey keyPrefix limit ↔
        ∀ key, keyPrefix.isPrefixOf key = true → 1 < ((hscan (redis.hashKey entityKey)
          (RedisMemoryStore.literalGlobPrefix keyPrefix)).map Prod.fst).count key →
            limit ≤ contents.memory.matchesBefore entityKey keyPrefix key + 1)) ∧
    bigtable.search contents.bigtable entityKey keyPrefix limit =
      contents.memory.search entityKey keyPrefix limit :=
  ⟨h.sql_agrees_iff hfits dialect hlimit, h.firestore_agrees_iff hfits hlimit,
    fun _ hscan => RedisMemoryStore.agrees_iff (h.readable hfits) hlimit h.redis_rows (hscan _ _),
    h.bigtable_agrees hfits hlimit⟩

/-! ### An upper case letter and an astral character -/

/-- The stored keys of an entity. -/
theorem InMemoryMemoryStore.mem_keys_iff {store : InMemoryMemoryStore} {entityKey : Bytes}
    {key : String} :
    store.table (entityKey, key) ≠ none ↔ key ∈ (store.entityRows entityKey).keys := by
  rw [table, ne_eq, Dict.get?_eq_none_iff, not_not]
  exact Iff.rfl

/-- Records under an upper case letter, and under a lower case letter with an astral character. -/
def letterRecords : List MemoryRecord :=
  [⟨[1], "A", [], 0, 0⟩, ⟨[1], "a😀", [], 0, 0⟩]

theorem letterRecords_valid : ∀ r ∈ letterRecords, r.Valid := by
  intro r hr
  simp only [letterRecords, List.mem_cons, List.not_mem_nil, or_false] at hr
  rcases hr with rfl | rfl <;> exact ⟨by decide, by decide, by decide, by decide⟩

theorem letterRecords_fit :
    ∀ r ∈ letterRecords, LongTermRecordMessage.codec.Fits (encodeEnvelope r).message := by
  intro r hr
  simp only [letterRecords, List.mem_cons, List.not_mem_nil, or_false] at hr
  rcases hr with rfl | rfl
  · show (LongTermRecordMessage.codec.serialize _).length ≤ 2 ^ 31 - 1
    decide +kernel
  · show (LongTermRecordMessage.codec.serialize _).length ≤ 2 ^ 31 - 1
    decide +kernel

/-- SQLite finds the upper case letter, and Firestore does not find the astral character. -/
theorem letterRecords_disagree : ∃ contents,
    SavedTo {} BigtableMemoryStore.plain letterRecords contents ∧
      SqlMemoryStore.search sqlite contents.sql [1] "a" 1 ≠ contents.memory.search [1] "a" 1 ∧
      FirestoreMemoryStore.search contents.firestore [1] "a" 1 ≠
        contents.memory.search [1] "a" 1 := by
  obtain ⟨contents, h⟩ := exists_savedTo {} BigtableMemoryStore.plain letterRecords_valid
  have hmemory := h.memory_eq
  have hstored : ∀ key ∈ ["A", "a😀"], contents.memory.table ([1], key) ≠ none := by
    rw [hmemory]
    decide +kernel
  refine ⟨contents, h, fun hagree => ?_, fun hagree => ?_⟩
  · have hplaces := (h.sql_agrees_iff letterRecords_fit sqlite (by decide)).mp hagree "A"
      (hstored "A" (by decide)) (by decide)
      (Bool.eq_false_iff.mpr fun hstarts => absurd (isPrefixOf_iff.mp hstarts) (by decide))
    rw [hmemory] at hplaces
    exact absurd hplaces (by decide +kernel)
  · have hplaces := (h.firestore_agrees_iff letterRecords_fit (by decide)).mp hagree "a😀" '😀' []
      (hstored "a😀" (by decide)) rfl (by decide)
    rw [hmemory] at hplaces
    exact absurd hplaces (by decide +kernel)

/-! ### Searches whose places are taken before -/

/-- A scan of a hash that gives one of its fields again. -/
def RedisMemoryStore.hscanTwice (db : RedisHashes) (again key pattern : String) :
    List (String × Bytes) :=
  let matched := ((db.get? key).getD Dict.empty).items.filter fun item =>
    glob (utf8 pattern) (utf8 item.1)
  matched ++ matched.filter fun item => item.1 = again

theorem RedisMemoryStore.hscanTwice_hscan (db : RedisHashes) (again key pattern : String) :
    HScan db key pattern (hscanTwice db again key pattern) := by
  have hmem (item : String × Bytes) : item ∈ hscanTwice db again key pattern ↔
      hget db key item.1 = some item.2 ∧ glob (utf8 pattern) (utf8 item.1) = true := by
    have hitem : item ∈ ((db.get? key).getD Dict.empty).items ↔
        hget db key item.1 = some item.2 := (Dict.get?_eq_some_iff _).symm
    simp only [hscanTwice, List.mem_append, List.mem_filter, hitem]
    exact ⟨fun h => h.elim id And.left, .inl⟩
  exact ⟨fun item hitem => (hmem item).mp hitem,
    fun field value hstored hmatches => (hmem (field, value)).mpr ⟨hstored, hmatches⟩⟩

/-- No other field is given again. -/
theorem RedisMemoryStore.eq_of_count_hscanTwice {db : RedisHashes}
    {again key pattern field : String}
    (h : 1 < ((hscanTwice db again key pattern).map Prod.fst).count field) : field = again := by
  by_contra hne
  have hnodup : ((((db.get? key).getD Dict.empty).items.filter fun item =>
      glob (utf8 pattern) (utf8 item.1)).map Prod.fst).Nodup :=
    ((db.get? key).getD Dict.empty).nodup.sublist (List.filter_sublist.map _)
  have hother : field ∉ ((((db.get? key).getD Dict.empty).items.filter fun item =>
      glob (utf8 pattern) (utf8 item.1)).filter fun item => item.1 = again).map Prod.fst := by
    intro hfield
    obtain ⟨item, hitem, rfl⟩ := List.mem_map.mp hfield
    exact hne (of_decide_eq_true (List.mem_filter.mp hitem).2)
  rw [hscanTwice, List.map_append, List.count_append, List.count_eq_zero.mpr hother] at h
  exact absurd (List.nodup_iff_count_le_one.mp hnodup field) (not_le.mpr h)

/-- Notes of two entities, in different cases, one with an astral character and one saved twice. -/
def noteRecords : List MemoryRecord :=
  [⟨[1], "note/a", [], 0, 0⟩, ⟨[1], "Note/😀", [1], 0, 0⟩, ⟨[1], "Note/b", [2], 3, 0⟩,
    ⟨[1], "Note/a", [3], 2, 5⟩, ⟨[1], "other", [], 0, 0⟩, ⟨[2], "Note/0", [], 0, 0⟩,
    ⟨[1], "Note/a", [4], 1, 9⟩]

/-- The note in lower case and the one with the astral character come after the two that are
returned, and the one that the scan gives again is the last of these. -/
theorem noteRecords_agree : ∃ contents,
    SavedTo {} BigtableMemoryStore.plain noteRecords contents ∧
      contents.memory.search [1] "Note/" 2 =
        .ok [⟨[1], "Note/a", [3], 2, 5⟩, ⟨[1], "Note/b", [2], 3, 0⟩] ∧
      SqlMemoryStore.search sqlite contents.sql [1] "Note/" 2 =
        contents.memory.search [1] "Note/" 2 ∧
      FirestoreMemoryStore.search contents.firestore [1] "Note/" 2 =
        contents.memory.search [1] "Note/" 2 ∧
      RedisMemoryStore.search {} (RedisMemoryStore.hscanTwice contents.redis "Note/b") [1] "Note/" 2
        = contents.memory.search [1] "Note/" 2 ∧
      BigtableMemoryStore.plain.search contents.bigtable [1] "Note/" 2 =
        contents.memory.search [1] "Note/" 2 := by
  have hvalid : ∀ r ∈ noteRecords, r.Valid := by
    intro r hr
    simp only [noteRecords, List.mem_cons, List.not_mem_nil, or_false] at hr
    rcases hr with rfl | rfl | rfl | rfl | rfl | rfl | rfl <;>
      exact ⟨by decide, by decide, by decide, by decide⟩
  have hfits : ∀ r ∈ noteRecords,
      (LongTermRecordMessage.codec.serialize (encodeEnvelope r).message).length ≤ 2 ^ 31 - 1 := by
    decide +kernel
  obtain ⟨contents, h⟩ := exists_savedTo {} BigtableMemoryStore.plain hvalid
  have hmemory := h.memory_eq
  have hkeys : (contents.memory.entityRows [1]).keys =
      ["note/a", "Note/😀", "Note/b", "Note/a", "other"] := by
    rw [hmemory]
    decide +kernel
  have hmatching : contents.memory.matchingKeys [1] "Note/" =
      ["Note/a", "Note/b", "Note/😀"].toFinset := by
    rw [InMemoryMemoryStore.matchingKeys, hkeys]
    decide +kernel
  have hsorted : (contents.memory.matchingKeys [1] "Note/").sort =
      ["Note/a", "Note/b", "Note/😀"] := by
    rw [hmatching]
    exact (List.toFinset_sort _ (by decide)).mpr (by decide +kernel)
  obtain ⟨hsql, hfirestore, hredis, hbigtable⟩ := searches_agree_iff sqlite {}
    BigtableMemoryStore.plain h hfits [1] "Note/" (by decide : 0 < 2)
  refine ⟨contents, h, ?_, hsql.mpr fun key hstored hstarts hnot => ?_,
    hfirestore.mpr fun key c rest hstored hkey hc => ?_,
    (hredis _ fun _ _ => RedisMemoryStore.hscanTwice_hscan _ _ _ _).mpr fun key _ hcount => ?_,
    hbigtable⟩
  · rw [InMemoryMemoryStore.search_eq _ _ (by decide), smallest, hsorted, hmemory]
    decide +kernel
  · rw [InMemoryMemoryStore.mem_keys_iff, hkeys] at hstored
    have hplaces : ∀ key ∈ ["note/a", "Note/😀", "Note/b", "Note/a", "other"],
        sqlite.StartsWith "Note/".toList key.toList → "Note/".isPrefixOf key = false →
          2 ≤ contents.memory.matchesBefore [1] "Note/" key := by
      rw [hmemory]
      decide +kernel
    exact hplaces key hstored hstarts hnot
  · rw [InMemoryMemoryStore.mem_keys_iff, hkeys] at hstored
    have hnext : key.toList.getD 5 'a' = c := by
      rw [hkey]
      rfl
    have hplaces : ∀ key ∈ ["note/a", "Note/😀", "Note/b", "Note/a", "other"],
        '\uffff' ≤ key.toList.getD 5 'a' →
          2 ≤ contents.memory.matchesBefore [1] "Note/" key := by
      rw [hmemory]
      decide +kernel
    exact hplaces key hstored (hnext ▸ hc)
  · rw [RedisMemoryStore.eq_of_count_hscanTwice hcount, hmemory]
    decide +kernel

end BeamAgents
