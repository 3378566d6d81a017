import BeamAgents.Lease.History
import BeamAgents.Protos

/-!
# The in-memory dedup store

`InMemoryDedupStore` of `effector/dedup.py`. A record is kept as what its tag and payload decode
to: a claim with its token, or a terminal record with its result, which an approval does not have.
A token stands for a `uuid4` and is a number that is not used twice. Every method reads the clock
once, when it looks a record up, and completes without awaiting.

Each method is given with the marks of the changes that it makes, and what it does to the records
is what the marks do.

## Main definitions

* `InMemoryDedupStore` with `live`, `claim`, `complete`, `release`.
* `ClaimOutcome`.

## Main results

* `InMemoryDedupStore.claim_spec`, `complete_spec`, `release_spec`.
-/

namespace BeamAgents

open Lease

/-- One store entry. -/
abbrev DedupRecord := Entry ℕ (Option ToolResult)

/-- A change of the store. -/
abbrev DedupMark := Mark String ℕ (Option ToolResult)

/-- The records of the store. -/
abbrev InMemoryDedupStore := Table String ℕ (Option ToolResult)

/-- `Claimed`, `InFlight` or `Done`. -/
inductive ClaimOutcome
  | claimed (token : ℕ)
  | inFlight
  | done (result : Option ToolResult)
  deriving DecidableEq, Repr

namespace InMemoryDedupStore

variable (records : InMemoryDedupStore) (now : Int) (intentId : String)

/-- `_live`: the record that has not expired; an expired one is deleted. -/
def live : InMemoryDedupStore × Option DedupRecord :=
  match records intentId with
  | none => (records, none)
  | some record =>
    if record.expiresAt ≤ now then (Function.update records intentId none, none)
    else (records, some record)

/-- `claim`, with the token that it would mint. -/
def claim (leaseMs : Int) (token : ℕ) : InMemoryDedupStore × ClaimOutcome :=
  match live records now intentId with
  | (records, some (.done result _)) => (records, .done result)
  | (records, some (.held ..)) => (records, .inFlight)
  | (records, none) =>
    (Function.update records intentId (some (.held token (now + leaseMs))), .claimed token)

/-- `complete`. -/
def complete (token : ℕ) (result : Option ToolResult) (ttlMs : Int) :
    InMemoryDedupStore × Bool :=
  match live records now intentId with
  | (records, some (.held token' _)) =>
    if token' = token then
      (Function.update records intentId (some (.done result (now + ttlMs))), true)
    else (records, false)
  | (records, _) => (records, false)

/-- `release`. -/
def release (token : ℕ) : InMemoryDedupStore × Bool :=
  match live records now intentId with
  | (records, some (.held token' _)) =>
    if token' = token then (Function.update records intentId none, true) else (records, false)
  | (records, _) => (records, false)

/-! ### The changes that a method makes -/

/-- The changes of a lookup. -/
def liveMarks : List DedupMark :=
  match records intentId with
  | none => []
  | some record => if record.expiresAt ≤ now then [.forgot intentId record now] else []

/-- The changes of a claim. -/
def claimMarks (leaseMs : Int) (token : ℕ) : List DedupMark :=
  liveMarks records now intentId ++
    match (claim records now intentId leaseMs token).2 with
    | .claimed token => [.granted intentId token (now + leaseMs)]
    | .inFlight | .done _ => []

/-- The changes of a completion. -/
def completeMarks (token : ℕ) (result : Option ToolResult) (ttlMs : Int) : List DedupMark :=
  liveMarks records now intentId ++
    if (complete records now intentId token result ttlMs).2 then
      [.completed intentId token result (now + ttlMs)]
    else []

/-- The changes of a release. -/
def releaseMarks (token : ℕ) : List DedupMark :=
  liveMarks records now intentId ++
    if (release records now intentId token).2 then [.released intentId token] else []

/-- What a lookup does: it finds no record, forgets an expired one, or finds one that is live. -/
theorem live_cases :
    (records intentId = none ∧ live records now intentId = (records, none) ∧
        liveMarks records now intentId = []) ∨
      (∃ record, records intentId = some record ∧ record.expiresAt ≤ now ∧
        live records now intentId = (Function.update records intentId none, none) ∧
        liveMarks records now intentId = [.forgot intentId record now]) ∨
      ∃ record, records intentId = some record ∧ now < record.expiresAt ∧
        live records now intentId = (records, some record) ∧
        liveMarks records now intentId = [] := by
  cases h : records intentId with
  | none => exact .inl ⟨rfl, by simp [live, h], by simp [liveMarks, h]⟩
  | some record =>
    by_cases hexpired : record.expiresAt ≤ now
    · exact .inr (.inl ⟨record, rfl, hexpired, by simp [live, h, hexpired],
        by simp [liveMarks, h, hexpired]⟩)
    · exact .inr (.inr ⟨record, rfl, Int.not_le.mp hexpired, by simp [live, h, hexpired],
        by simp [liveMarks, h, hexpired]⟩)

/-- What a claim does: it is granted when there is no live record, and otherwise it changes nothing
and tells what the record is. -/
theorem claim_cases (leaseMs : Int) (token : ℕ) :
    (∃ ms, claimMarks records now intentId leaseMs token =
          ms ++ [.granted intentId token (now + leaseMs)] ∧
        (claim records now intentId leaseMs token).2 = .claimed token ∧
        Table.applyAll records ms intentId = none ∧
        (ms = [] ∨ ∃ record, records intentId = some record ∧ record.expiresAt ≤ now ∧
          ms = [.forgot intentId record now])) ∨
      (claimMarks records now intentId leaseMs token = [] ∧ ∃ token' e,
        records intentId = some (.held token' e) ∧ now < e ∧
          (claim records now intentId leaseMs token).2 = .inFlight) ∨
      (claimMarks records now intentId leaseMs token = [] ∧ ∃ result e,
        records intentId = some (.done result e) ∧ now < e ∧
          (claim records now intentId leaseMs token).2 = .done result) := by
  rcases live_cases records now intentId with
    ⟨hnone, hlive, hmarks⟩ | ⟨record, hsome, hexpired, hlive, hmarks⟩ |
    ⟨record, hsome, hnow, hlive, hmarks⟩
  · refine .inl ⟨[], ?_, ?_, hnone, .inl rfl⟩ <;> simp [claimMarks, claim, hlive, hmarks]
  · refine .inl ⟨_, ?_, ?_, ?_, .inr ⟨record, hsome, hexpired, rfl⟩⟩ <;>
      simp [claimMarks, claim, hlive, hmarks, Table.apply]
  · cases record with
    | held token' e =>
      refine .inr (.inl ⟨?_, token', e, hsome, hnow, ?_⟩) <;>
        simp [claimMarks, claim, hlive, hmarks]
    | done result e =>
      refine .inr (.inr ⟨?_, result, e, hsome, hnow, ?_⟩) <;>
        simp [claimMarks, claim, hlive, hmarks]

/-- A completion succeeds for the owner of the live claim, and otherwise at most forgets an expired
record. -/
theorem complete_cases (token : ℕ) (result : Option ToolResult) (ttlMs : Int) :
    (∃ e, records intentId = some (.held token e) ∧ now < e ∧
        (complete records now intentId token result ttlMs).2 = true ∧
        completeMarks records now intentId token result ttlMs =
          [.completed intentId token result (now + ttlMs)]) ∨
      ((complete records now intentId token result ttlMs).2 = false ∧
        (∀ e, records intentId = some (.held token e) → e ≤ now) ∧
        completeMarks records now intentId token result ttlMs =
          liveMarks records now intentId) := by
  rcases live_cases records now intentId with
    ⟨hnone, hlive, hmarks⟩ | ⟨record, hsome, hexpired, hlive, hmarks⟩ |
    ⟨record, hsome, hnow, hlive, hmarks⟩
  · refine .inr ⟨?_, ?_, ?_⟩ <;> simp [completeMarks, complete, hlive, hnone]
  · refine .inr ⟨by simp [complete, hlive], fun e he => ?_,
      by simp [completeMarks, complete, hlive]⟩
    obtain rfl := Option.some.inj (hsome.symm.trans he)
    exact hexpired
  · cases record with
    | held token' e =>
      by_cases htoken : token' = token
      · subst htoken
        refine .inl ⟨e, hsome, hnow, ?_, ?_⟩ <;> simp [completeMarks, complete, hlive, hmarks]
      · refine .inr ⟨by simp [complete, hlive, htoken], fun e' he => ?_,
          by simp [completeMarks, complete, hlive, htoken]⟩
        cases hsome.symm.trans he
        exact absurd rfl htoken
    | done result' e =>
      refine .inr ⟨by simp [complete, hlive], fun e' he => ?_,
        by simp [completeMarks, complete, hlive]⟩
      cases hsome.symm.trans he

/-- A release succeeds for the owner of the live claim, and otherwise at most forgets an expired
record. -/
theorem release_cases (token : ℕ) :
    ((∃ e, records intentId = some (.held token e) ∧ now < e) ∧
        releaseMarks records now intentId token = [.released intentId token]) ∨
      releaseMarks records now intentId token = liveMarks records now intentId := by
  rcases live_cases records now intentId with
    ⟨hnone, hlive, hmarks⟩ | ⟨record, hsome, hexpired, hlive, hmarks⟩ |
    ⟨record, hsome, hnow, hlive, hmarks⟩
  · exact .inr (by simp [releaseMarks, release, hlive])
  · exact .inr (by simp [releaseMarks, release, hlive])
  · cases record with
    | held token' e =>
      by_cases htoken : token' = token
      · subst htoken
        exact .inl ⟨⟨e, hsome, hnow⟩, by simp [releaseMarks, release, hlive, hmarks]⟩
      · exact .inr (by simp [releaseMarks, release, hlive, htoken])
    | done result' e => exact .inr (by simp [releaseMarks, release, hlive])

/-- **What a claim does to the records is what its marks do**, and these are valid. -/
theorem claim_spec (leaseMs : Int) (token : ℕ) :
    (claim records now intentId leaseMs token).1 =
        Table.applyAll records (claimMarks records now intentId leaseMs token) ∧
      Valid records (claimMarks records now intentId leaseMs token) := by
  rcases live_cases records now intentId with
    ⟨hnone, hlive, hmarks⟩ | ⟨record, hsome, hexpired, hlive, hmarks⟩ |
    ⟨record, hsome, hnow, hlive, hmarks⟩
  · simp [claimMarks, claim, hlive, hmarks, Table.apply, Valid, Mark.Enabled, hnone]
  · simp [claimMarks, claim, hlive, hmarks, Table.apply, Valid, Mark.Enabled, hsome, hexpired]
  · cases record <;> simp [claimMarks, claim, hlive, hmarks, Valid]

/-- What a completion does to the records is what its marks do. -/
theorem complete_spec (token : ℕ) (result : Option ToolResult) (ttlMs : Int) :
    (complete records now intentId token result ttlMs).1 =
        Table.applyAll records (completeMarks records now intentId token result ttlMs) ∧
      Valid records (completeMarks records now intentId token result ttlMs) := by
  rcases live_cases records now intentId with
    ⟨hnone, hlive, hmarks⟩ | ⟨record, hsome, hexpired, hlive, hmarks⟩ |
    ⟨record, hsome, hnow, hlive, hmarks⟩
  · simp [completeMarks, complete, hlive, hmarks, Valid]
  · simp [completeMarks, complete, hlive, hmarks, Table.apply, Valid, Mark.Enabled, hsome, hexpired]
  · cases record with
    | held token' e =>
      by_cases htoken : token' = token <;>
        simp [completeMarks, complete, hlive, hmarks, Table.apply, Valid, Mark.Enabled, hsome,
          htoken]
    | done result' e => simp [completeMarks, complete, hlive, hmarks, Valid]

/-- What a release does to the records is what its marks do. -/
theorem release_spec (token : ℕ) :
    (release records now intentId token).1 =
        Table.applyAll records (releaseMarks records now intentId token) ∧
      Valid records (releaseMarks records now intentId token) := by
  rcases live_cases records now intentId with
    ⟨hnone, hlive, hmarks⟩ | ⟨record, hsome, hexpired, hlive, hmarks⟩ |
    ⟨record, hsome, hnow, hlive, hmarks⟩
  · simp [releaseMarks, release, hlive, hmarks, Valid]
  · simp [releaseMarks, release, hlive, hmarks, Table.apply, Valid, Mark.Enabled, hsome, hexpired]
  · cases record with
    | held token' e =>
      by_cases htoken : token' = token <;>
        simp [releaseMarks, release, hlive, hmarks, Table.apply, Valid, Mark.Enabled, hsome, htoken]
    | done result' e => simp [releaseMarks, release, hlive, hmarks, Valid]

end InMemoryDedupStore

end BeamAgents
