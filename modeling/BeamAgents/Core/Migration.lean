import BeamAgents.Protos

/-!
# Lazy schema migration

`core/migration.py`: a stored blob is upgraded one version at a time, by registered steps, before
any of its fields is interpreted. The registry and the current version are the parameters of the
regime, so that the model covers every later bump of `CURRENT_STATE_SCHEMA_VERSION`; a blob of
version 0 reads as the baseline version 1.

## Main definitions

* `Versioned`, `StateSchema`, `MigrationError`.
* `migrateToCurrent`, `migrateStored`.

## Main results

* `migrateToCurrent_current`: a blob of the current version is returned as it is.
-/

namespace BeamAgents

/-- The messages that carry a `state_schema_version`. -/
class Versioned (M : Type) where
  version : M → ℕ
  typeName : String

instance : Versioned MemoryBlob := ⟨MemoryBlob.stateSchemaVersion, "MemoryBlob"⟩
instance : Versioned Continuation := ⟨Continuation.stateSchemaVersion, "Continuation"⟩
instance : Versioned LlmCacheBlob := ⟨LlmCacheBlob.stateSchemaVersion, "LlmCacheBlob"⟩

/-- `_BASELINE_VERSION`. -/
def baselineVersion : ℕ := 1

/-- The version regime: the current version and, for each message type, the registered steps by
the version they start from. -/
structure StateSchema where
  /-- `CURRENT_STATE_SCHEMA_VERSION`. -/
  current : ℕ
  current_pos : baselineVersion ≤ current
  memory : ℕ → Option (MemoryBlob → MemoryBlob)
  continuation : ℕ → Option (Continuation → Continuation)
  llmCache : ℕ → Option (LlmCacheBlob → LlmCacheBlob)

/-- `StateMigrationError` and its three classes. -/
inductive MigrationError
  | fromFuture (typeName : String) (found current : ℕ)
  | missing (typeName : String) (fromVersion current : ℕ)
  | step (typeName : String) (fromVersion produced : ℕ)
  deriving DecidableEq, Repr

/-- `str` of the exception. -/
def MigrationError.message : MigrationError → String
  | .fromFuture typeName found current =>
    s!"{typeName} state_schema_version={found} exceeds this " ++
      s!"binary's CURRENT_STATE_SCHEMA_VERSION={current}; refusing to " ++
      "interpret newer state — roll the binary forward, do not roll back"
  | .missing typeName fromVersion current =>
    s!"no migration registered for {typeName} at version " ++
      s!"{fromVersion} (current version is {current}); every step in " ++
      s!"1..{current - 1} must be registered in core/migration.py"
  | .step typeName fromVersion produced =>
    s!"migration step for {typeName} at version {fromVersion} " ++
      s!"returned state_schema_version={produced}, expected {fromVersion + 1}"

section Migrate

variable {M : Type} [Versioned M]

/-- `message.state_schema_version or _BASELINE_VERSION`. -/
def effectiveVersion (message : M) : ℕ :=
  if Versioned.version message = 0 then baselineVersion else Versioned.version message

/-- The `while version < current` loop over `todo = current - version` remaining steps. -/
def migrateLoop (steps : ℕ → Option (M → M)) (current : ℕ) :
    (todo : ℕ) → M → Except MigrationError M
  | 0, migrated => .ok migrated
  | todo + 1, migrated =>
    let version := current - (todo + 1)
    match steps version with
    | none => .error (.missing (Versioned.typeName M) version current)
    | some step =>
      let next := step migrated
      if Versioned.version next ≠ version + 1 then
        .error (.step (Versioned.typeName M) version (Versioned.version next))
      else migrateLoop steps current todo next

/-- `migrate_to_current` on a present blob. -/
def migrateToCurrent (steps : ℕ → Option (M → M)) (current : ℕ) (message : M) :
    Except MigrationError M :=
  let version := effectiveVersion message
  if version = current then .ok message
  else if version > current then .error (.fromFuture (Versioned.typeName M) version current)
  else migrateLoop steps current (current - version) message

/-- `migrate_to_current` on a state cell: an absent blob passes through. -/
def migrateStored (steps : ℕ → Option (M → M)) (current : ℕ) :
    Option M → Except MigrationError (Option M)
  | none => .ok none
  | some message => (migrateToCurrent steps current message).map some

/-- A blob of the current version is returned as it is, with no step consulted. -/
theorem migrateToCurrent_current (steps : ℕ → Option (M → M)) {current : ℕ} {message : M}
    (h : effectiveVersion message = current) :
    migrateToCurrent steps current message = .ok message := by
  simp [migrateToCurrent, h]

@[simp] theorem migrateStored_none (steps : ℕ → Option (M → M)) (current : ℕ) :
    migrateStored steps current (none : Option M) = .ok none := rfl

theorem migrateStored_current (steps : ℕ → Option (M → M)) {current : ℕ} {message : M}
    (h : effectiveVersion message = current) :
    migrateStored steps current (some message) = .ok (some message) := by
  simp [migrateStored, migrateToCurrent_current steps h, Except.map]

/-- A present cell migrates to a present blob. -/
theorem migrateStored_eq_ok_none {steps : ℕ → Option (M → M)} {current : ℕ} {stored : Option M}
    (h : migrateStored steps current stored = .ok none) : stored = none := by
  cases stored with
  | none => rfl
  | some message =>
    simp only [migrateStored] at h
    cases hm : migrateToCurrent steps current message <;> simp [hm, Except.map] at h

end Migrate

namespace StateSchema

variable (schema : StateSchema)

/-- `migrate_to_current(memory.read())`. -/
def migrateMemory (stored : Option MemoryBlob) : Except MigrationError (Option MemoryBlob) :=
  migrateStored schema.memory schema.current stored

/-- `migrate_to_current(continuation.read())`. -/
def migrateContinuation (stored : Option Continuation) :
    Except MigrationError (Option Continuation) :=
  migrateStored schema.continuation schema.current stored

/-- `migrate_to_current(llm_cache.read())`. -/
def migrateCache (stored : Option LlmCacheBlob) : Except MigrationError (Option LlmCacheBlob) :=
  migrateStored schema.llmCache schema.current stored

theorem migrateContinuation_current {cont : Continuation}
    (h : cont.stateSchemaVersion = schema.current) :
    schema.migrateContinuation (some cont) = .ok (some cont) := by
  refine migrateStored_current _ ?_
  have hpos := schema.current_pos
  simp only [effectiveVersion, Versioned.version, h, baselineVersion] at hpos ⊢
  rw [if_neg (by omega)]

end StateSchema

/-- The regime of the source: version 1, with an empty registry. -/
def StateSchema.v1 : StateSchema where
  current := 1
  current_pos := Nat.le_refl 1
  memory _ := none
  continuation _ := none
  llmCache _ := none

end BeamAgents
