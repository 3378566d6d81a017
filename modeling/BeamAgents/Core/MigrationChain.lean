import BeamAgents.Core.Migration
import Mathlib.Data.List.Range

/-!
# Migration is an exact fold

What `migrate_to_current` comes to, for every registry, every current version and every blob. The
loop looks up the version that it counts, never the stamp of the blob that it holds, so that it ends
whatever the steps return; the stamp of each result is compared with the count, so that a result it
goes on from, and the last one, is of the version that the count says.

## Main definitions

* `StepChain`: steps applied one after the other, the stamp of each result checked.
* `MigrationOutcome`: what the migration of a blob may come to.

## Main results

* `migrateToCurrent_outcome`.
-/

namespace BeamAgents

section MigrationChain

variable {M : Type} [Versioned M]

/-- The steps registered for these versions take the first blob to the second one. Each is applied
once, in this order, and its result is stamped one higher than the version it starts from. -/
inductive StepChain (steps : ℕ → Option (M → M)) : List ℕ → M → M → Prop
  | nil (message : M) : StepChain steps [] message message
  | cons {version : ℕ} {versions : List ℕ} {step : M → M} {message migrated : M}
      (hstep : steps version = some step)
      (hstamp : Versioned.version (step message) = version + 1)
      (h : StepChain steps versions (step message) migrated) :
      StepChain steps (version :: versions) message migrated

/-- What the migration of a blob comes to: the blob itself, when it is current; the steps for its
version up to the current one, applied in order; or one of the three errors. -/
inductive MigrationOutcome (steps : ℕ → Option (M → M)) (current : ℕ) (message : M) :
    Except MigrationError M → Prop
  /-- The blob is of the current version, version 0 read as the baseline. -/
  | current (h : effectiveVersion message = current) :
      MigrationOutcome steps current message (.ok message)
  /-- The blob is of a version that is still to come. -/
  | fromFuture (h : current < effectiveVersion message) :
      MigrationOutcome steps current message
        (.error (.fromFuture (Versioned.typeName M) (effectiveVersion message) current))
  /-- Every step is there and advances the stamp by one. -/
  | migrated {migrated : M} (h : effectiveVersion message < current)
      (hchain : StepChain steps
        (List.range' (effectiveVersion message) (current - effectiveVersion message))
        message migrated)
      (hstamp : Versioned.version migrated = current) :
      MigrationOutcome steps current message (.ok migrated)
  /-- The steps before a version are applied, and there is none for that version. -/
  | missing {version : ℕ} {reached : M} (hle : effectiveVersion message ≤ version)
      (hlt : version < current)
      (hchain : StepChain steps
        (List.range' (effectiveVersion message) (version - effectiveVersion message))
        message reached)
      (hnone : steps version = none) :
      MigrationOutcome steps current message
        (.error (.missing (Versioned.typeName M) version current))
  /-- The steps before a version are applied, and the next one does not advance the stamp by one. -/
  | step {version : ℕ} {reached : M} {step : M → M} (hle : effectiveVersion message ≤ version)
      (hlt : version < current)
      (hchain : StepChain steps
        (List.range' (effectiveVersion message) (version - effectiveVersion message))
        message reached)
      (hstep : steps version = some step)
      (hstamp : Versioned.version (step reached) ≠ version + 1) :
      MigrationOutcome steps current message
        (.error (.step (Versioned.typeName M) version (Versioned.version (step reached))))

variable {steps : ℕ → Option (M → M)} {current : ℕ} {message migrated : M}

theorem effectiveVersion_pos (message : M) : 0 < effectiveVersion message := by
  unfold effectiveVersion
  split_ifs with h
  · exact Nat.one_pos
  · exact Nat.pos_of_ne_zero h

/-- A blob with a stamp is of the version that it is stamped with. -/
theorem effectiveVersion_of_pos (h : 0 < Versioned.version message) :
    effectiveVersion message = Versioned.version message := by
  rw [effectiveVersion, if_neg (Nat.pos_iff_ne_zero.mp h)]

/-- One step after a chain. -/
theorem StepChain.snoc {versions : List ℕ} {version : ℕ} {step : M → M}
    (h : StepChain steps versions message migrated) (hstep : steps version = some step)
    (hstamp : Versioned.version (step migrated) = version + 1) :
    StepChain steps (versions ++ [version]) message (step migrated) := by
  induction h with
  | nil message => exact .cons hstep hstamp (.nil _)
  | cons hfirst hstamped _ ih => exact .cons hfirst hstamped (ih hstamp)

/-- The loop at a version without a step. -/
theorem migrateLoop_none {version : ℕ} (hlt : version < current) (hnone : steps version = none)
    (reached : M) : migrateLoop steps current (current - version) reached =
      .error (.missing (Versioned.typeName M) version current) := by
  obtain ⟨todo, htodo⟩ : ∃ todo, current - version = todo + 1 :=
    ⟨current - version - 1, by omega⟩
  have hversion : current - (todo + 1) = version := by omega
  simp only [htodo, migrateLoop, hversion, hnone]

/-- The loop at a version with a step. -/
theorem migrateLoop_some {version : ℕ} {step : M → M} (hlt : version < current)
    (hstep : steps version = some step) (reached : M) :
    migrateLoop steps current (current - version) reached =
      if Versioned.version (step reached) = version + 1 then
        migrateLoop steps current (current - (version + 1)) (step reached)
      else .error (.step (Versioned.typeName M) version (Versioned.version (step reached))) := by
  obtain ⟨todo, htodo⟩ : ∃ todo, current - version = todo + 1 :=
    ⟨current - version - 1, by omega⟩
  have hversion : current - (todo + 1) = version := by omega
  have hnext : current - (version + 1) = todo := by omega
  simp only [htodo, migrateLoop, hversion, hstep, hnext, ne_eq, ite_not]

/-- The loop, after a chain that has brought the blob to the version it counts. -/
theorem migrateLoop_outcome {version todo : ℕ} {reached : M}
    (hle : effectiveVersion message ≤ version) (htodo : version + todo = current)
    (hlt : effectiveVersion message < current)
    (hchain : StepChain steps
      (List.range' (effectiveVersion message) (version - effectiveVersion message)) message reached)
    (hstamp : effectiveVersion message < version → Versioned.version reached = version) :
    MigrationOutcome steps current message
      (migrateLoop steps current (current - version) reached) := by
  induction todo generalizing version reached with
  | zero =>
    obtain rfl : version = current := htodo
    rw [Nat.sub_self]
    exact .migrated hlt hchain (hstamp hlt)
  | succ todo ih =>
    have hbefore : version < current := by omega
    cases hstep : steps version with
    | none =>
      rw [migrateLoop_none hbefore hstep]
      exact .missing hle hbefore hchain hstep
    | some step =>
      rw [migrateLoop_some hbefore hstep]
      by_cases hnext : Versioned.version (step reached) = version + 1
      · have hchain' : StepChain steps (List.range' (effectiveVersion message)
            (version + 1 - effectiveVersion message)) message (step reached) := by
          rw [Nat.sub_add_comm hle, List.range'_concat]
          simpa [Nat.add_sub_cancel' hle] using hchain.snoc hstep hnext
        simpa [hnext] using ih (Nat.le_succ_of_le hle) (by omega) hchain' fun _ => hnext
      · simpa [hnext] using MigrationOutcome.step hle hbefore hchain hstep hnext

/-- The loop goes through a chain, step by step. -/
theorem migrateLoop_chain {version n : ℕ}
    (h : StepChain steps (List.range' version n) message migrated) (hle : version + n ≤ current) :
    migrateLoop steps current (current - version) message =
      migrateLoop steps current (current - (version + n)) migrated := by
  induction n generalizing version message with
  | zero =>
    cases h
    rfl
  | succ n ih =>
    rw [List.range'_succ] at h
    cases h with
    | cons hstep hstamp h =>
      have hthrough := ih h (by omega)
      rw [Nat.add_assoc, Nat.add_comm 1 n] at hthrough
      rw [migrateLoop_some (by omega) hstep, if_pos hstamp]
      exact hthrough

/-- Each outcome is what the migration comes to. -/
theorem MigrationOutcome.eq {result : Except MigrationError M}
    (h : MigrationOutcome steps current message result) :
    migrateToCurrent steps current message = result := by
  -- Past the comparisons with the current version, the loop has gone through a chain.
  have hloop {version : ℕ} {reached : M} (hle : effectiveVersion message ≤ version)
      (hlt : effectiveVersion message < current) (hversion : version ≤ current)
      (hchain : StepChain steps
        (List.range' (effectiveVersion message) (version - effectiveVersion message))
        message reached) :
      migrateToCurrent steps current message =
        migrateLoop steps current (current - version) reached := by
    have hthrough := migrateLoop_chain hchain (by omega : _ ≤ current)
    rw [Nat.add_sub_cancel' hle] at hthrough
    simp only [migrateToCurrent, hlt.ne, Nat.not_lt.mpr hlt.le, if_false]
    exact hthrough
  cases h with
  | current h => exact migrateToCurrent_current steps h
  | fromFuture h => simp [migrateToCurrent, h.ne', h]
  | migrated h hchain hstamp =>
    rw [hloop h.le h le_rfl hchain, Nat.sub_self]
    rfl
  | missing hle hlt hchain hnone =>
    rw [hloop hle (hle.trans_lt hlt) hlt.le hchain, migrateLoop_none hlt hnone]
  | step hle hlt hchain hstep hstamp =>
    rw [hloop hle (hle.trans_lt hlt) hlt.le hchain, migrateLoop_some hlt hstep, if_neg hstamp]

/-- The migration comes to one of the outcomes. -/
theorem migrateToCurrent_mem (steps : ℕ → Option (M → M)) (current : ℕ) (message : M) :
    MigrationOutcome steps current message (migrateToCurrent steps current message) := by
  rcases Nat.lt_trichotomy (effectiveVersion message) current with hlt | heq | hgt
  · simp only [migrateToCurrent, hlt.ne, Nat.not_lt.mpr hlt.le, if_false]
    refine migrateLoop_outcome le_rfl (Nat.add_sub_cancel' hlt.le) hlt ?_
      fun h => absurd h (lt_irrefl _)
    rw [Nat.sub_self]
    exact .nil message
  · rw [migrateToCurrent_current steps heq]
    exact .current heq
  · simp only [migrateToCurrent, hgt.ne', hgt, if_false, if_true]
    exact .fromFuture hgt

/-- **Migration is an exact fold.** For every registry, every current version and every blob, the
migration comes to exactly one outcome: the blob itself when it is current; what the steps for its
version, the next one, and so on up to the one before the current version make of it, each applied
once, in this order, with every stamp checked; or the error for a version that is still to come, for
a step that is missing or for a result that is not stamped one higher. What it returns is migrated
to itself, whatever the registry: no step is consulted. -/
theorem migrateToCurrent_outcome (steps : ℕ → Option (M → M)) (current : ℕ) (message : M) :
    (∀ result, migrateToCurrent steps current message = result ↔
      MigrationOutcome steps current message result) ∧
    ∀ migrated, migrateToCurrent steps current message = .ok migrated →
      ∀ steps' : ℕ → Option (M → M), migrateToCurrent steps' current migrated = .ok migrated := by
  have houtcome := migrateToCurrent_mem steps current message
  refine ⟨fun result => ⟨fun h => h ▸ houtcome, fun h => h.eq⟩, fun migrated h steps' => ?_⟩
  refine migrateToCurrent_current steps' ?_
  generalize migrateToCurrent steps current message = result at h houtcome
  cases houtcome with
  | current heq =>
    cases h
    exact heq
  | migrated hlt hchain hstamp =>
    cases h
    rw [effectiveVersion_of_pos (hstamp ▸ (effectiveVersion_pos message).trans hlt), hstamp]
  | fromFuture => cases h
  | missing => cases h
  | step => cases h

end MigrationChain

end BeamAgents
