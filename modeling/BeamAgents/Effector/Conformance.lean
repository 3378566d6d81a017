import BeamAgents.Effector.Backends
import BeamAgents.Transition.Machine

/-!
# What the dedup stores have in common

Each store keeps, for each intent, one record that counts: the one that has not expired. What a call
answers and what it leaves depends on that record alone in the in-memory store, and this is the
abstract store that the three are compared with. The Redis entry and the Bigtable columns of an
intent are the same record in other words as long as every call meets a condition, and then the
answers are the same, too.

The condition is exact. Expiries must be numbers that the servers take; a Redis server must not go
on serving an entry at the very instant of its expiry; and the owner that Bigtable finds in the row
must own a live claim. The last is what the code misses: an expired claim stays in the row, and its
token goes on completing and releasing it until somebody else claims the intent.

## Main definitions

* `DedupOp.serve`: what a call does to the record of its intent.
* `RedisDedupStore.Same`, `BigtableDedupStore.Same`, `RedisDedupStore.Meets`,
  `BigtableDedupStore.Meets`.
* `DedupBackends`, `DedupBackends.machine`: the three stores under one sequence of calls.

## Main results

* `InMemoryDedupStore.perform_spec`, `RedisDedupStore.perform_spec`,
  `BigtableDedupStore.perform_spec`.
* `dedup_backends_agree_iff`: the stores agree in a run exactly when its calls meet the condition.
-/

namespace BeamAgents

open Stores Lease Transition

/-- The record that has not expired at a time. -/
def unexpired (now : Int) (record : Option DedupRecord) : Option DedupRecord :=
  record.filter fun r => now < r.expiresAt

theorem unexpired_eq_some {now : Int} {record : Option DedupRecord} {r : DedupRecord} :
    unexpired now record = some r ↔ record = some r ∧ now < r.expiresAt := by
  rw [unexpired, Option.filter_eq_some_iff, decide_eq_true_iff]

@[simp] theorem unexpired_none (now : Int) : unexpired now none = none := rfl

@[simp] theorem unexpired_unexpired (now : Int) (record : Option DedupRecord) :
    unexpired now (unexpired now record) = unexpired now record := by
  simp [unexpired, Option.filter_filter]

theorem unexpired_mono {now later : Int} (h : now ≤ later) (record : Option DedupRecord) :
    unexpired later (unexpired now record) = unexpired later record := by
  rw [unexpired, unexpired, Option.filter_filter]
  congr 1
  funext r
  by_cases hlater : later < r.expiresAt
  · simp [hlater, Int.lt_of_le_of_lt h hlater]
  · simp [hlater]

/-- A claim that a token owns. -/
def Owned (now : Int) (record : Option DedupRecord) (token : ℕ) : Prop :=
  ∃ e, unexpired now record = some (.held token e)

/-! ### The record of an intent -/

/-- What a call does to the live record of its intent, and what it answers. -/
def DedupOp.serve (c : Codec) (now : Int) (live : Option DedupRecord) :
    DedupOp → Option DedupRecord × DedupAnswer
  | .claim leaseMs token =>
    match live with
    | none => (some (.held token (now + leaseMs)), .claim (.claimed token))
    | some (.held ..) => (live, .claim .inFlight)
    | some (.done result _) => (live, .claim (.done (c.reads result)))
  | .complete token result ttlMs =>
    match live with
    | some (.held token' _) =>
      if token' = token then (some (.done result (now + ttlMs)), .complete true)
      else (live, .complete false)
    | _ => (live, .complete false)
  | .release token =>
    match live with
    | some (.held token' _) =>
      if token' = token then (none, .release true) else (live, .release false)
    | _ => (live, .release false)

namespace InMemoryDedupStore

variable (c : Codec) (records : InMemoryDedupStore) (now : Int) (intentId : String)

/-- A lookup leaves the live record. -/
private theorem live_eq :
    (live records now intentId).2 = unexpired now (records intentId) ∧
      unexpired now ((live records now intentId).1 intentId) =
        unexpired now (records intentId) ∧
      ∀ other ≠ intentId,
        (live records now intentId).1 other = records other := by
  rcases live_cases records now intentId with
    ⟨hnone, hlive, -⟩ | ⟨record, hsome, hexpired, hlive, -⟩ | ⟨record, hsome, hnow, hlive, -⟩
  · simp [hlive, hnone]
  · have hunexpired : unexpired now (records intentId) = none := by
      rw [hsome]
      simp [unexpired, Option.filter, Int.not_lt.mpr hexpired]
    rw [hlive, hunexpired]
    refine ⟨rfl, ?_, fun other hother => Function.update_of_ne hother _ _⟩
    show unexpired now (Function.update records intentId none intentId) = none
    rw [Function.update_self, unexpired_none]
  · have hunexpired : unexpired now (records intentId) = some record :=
      unexpired_eq_some.mpr ⟨hsome, hnow⟩
    rw [hlive]
    exact ⟨hunexpired.symm, rfl, fun _ _ => rfl⟩

/-- What a call does to decoded records. -/
def perform : DedupOp → InMemoryDedupStore × DedupAnswer
  | .claim leaseMs token =>
    (claim records now intentId leaseMs token).map id fun o => .claim (o.read c)
  | .complete token result ttlMs =>
    (complete records now intentId token result ttlMs).map id .complete
  | .release token => (release records now intentId token).map id .release

private theorem perform_encode (op : DedupOp) :
    DedupRecords.perform c (encodeRecords c records) now intentId op =
      (perform c records now intentId op).map (encodeRecords c) id := by
  cases op with
  | claim leaseMs token =>
    rw [DedupRecords.perform, claim_encode, Int.sub_self, Int.zero_add]
    rfl
  | complete token result ttlMs =>
    rw [DedupRecords.perform, complete_encode, Int.sub_self, Int.zero_add]
    rfl
  | release token =>
    rw [DedupRecords.perform, release_encode]
    rfl

/-- **What a call on the in-memory store does**: what it does to the live record of its intent. -/
theorem perform_spec (op : DedupOp) :
    let served := op.serve c now (unexpired now (records intentId))
    (perform c records now intentId op).2 = served.2 ∧
      unexpired now ((perform c records now intentId op).1 intentId) =
        unexpired now served.1 ∧
      ∀ other ≠ intentId, (perform c records now intentId op).1 other =
        records other := by
  obtain ⟨hlive, hkept, hothers⟩ := live_eq records now intentId
  rcases hpair : live records now intentId with ⟨after, found⟩
  rw [hpair] at hlive hkept hothers
  simp only at hlive hkept hothers
  subst hlive
  -- What a store or a deletion under the key leaves.
  have hupdate (record : Option DedupRecord) : ∀ other ≠ intentId,
      Function.update after intentId record other = records other := fun other hother => by
    rw [Function.update_of_ne hother, hothers other hother]
  cases hfound : unexpired now (records intentId) with
  | none =>
    rw [hfound] at hpair hkept
    cases op with
    | claim leaseMs token =>
      simpa [perform, claim, ClaimOutcome.read, DedupOp.serve, hpair] using hupdate _
    | complete token result ttlMs =>
      simpa [perform, complete, DedupOp.serve, hpair, hkept]
        using hothers
    | release token =>
      simpa [perform, release, DedupOp.serve, hpair, hkept]
        using hothers
  | some record =>
    have hself : unexpired now (some record) = some record := by
      rw [← hfound, unexpired_unexpired]
    rw [hfound] at hpair hkept
    cases record with
    | held token' e =>
      cases op with
      | claim leaseMs token =>
        simpa [perform, claim, ClaimOutcome.read, DedupOp.serve, hpair, hkept, hself]
          using hothers
      | complete token result ttlMs =>
        by_cases htoken : token' = token
        · simpa [perform, complete, DedupOp.serve, hpair, htoken]
            using hupdate _
        · simpa [perform, complete, DedupOp.serve, hpair, htoken, hkept,
            hself] using hothers
      | release token =>
        by_cases htoken : token' = token
        · simpa [perform, release, DedupOp.serve, hpair, htoken]
            using hupdate _
        · simpa [perform, release, DedupOp.serve, hpair, htoken, hkept,
            hself] using hothers
    | done result e =>
      cases op with
      | claim leaseMs token =>
        simpa [perform, claim, ClaimOutcome.read, DedupOp.serve, hpair, hkept, hself]
          using hothers
      | complete token result' ttlMs =>
        simpa [perform, complete, DedupOp.serve, hpair, hkept, hself]
          using hothers
      | release token =>
        simpa [perform, release, DedupOp.serve, hpair, hkept, hself]
          using hothers

end InMemoryDedupStore

/-- The answers to a completion and to a release tell whether the token owns the claim. -/
theorem DedupOp.serve_complete (c : Codec) (now : Int) (record : Option DedupRecord)
    (token : ℕ) (result : Option ToolResult) (ttlMs : Int) :
    (Owned now record token ∧
        (DedupOp.complete token result ttlMs).serve c now (unexpired now record) =
          (some (.done result (now + ttlMs)), .complete true)) ∨
      (¬ Owned now record token ∧
        (DedupOp.complete token result ttlMs).serve c now (unexpired now record) =
          (unexpired now record, .complete false)) := by
  unfold Owned
  rcases hlive : unexpired now record with _ | ⟨token', e⟩ | ⟨result', e⟩
  · exact .inr ⟨by simp, rfl⟩
  · by_cases htoken : token' = token
    · exact .inl ⟨⟨e, by rw [htoken]⟩, if_pos htoken⟩
    · exact .inr ⟨by simp [htoken], if_neg htoken⟩
  · exact .inr ⟨by simp, rfl⟩

theorem DedupOp.serve_release (c : Codec) (now : Int) (record : Option DedupRecord)
    (token : ℕ) :
    (Owned now record token ∧ (DedupOp.release token).serve c now (unexpired now record) =
          (none, .release true)) ∨
      (¬ Owned now record token ∧
        (DedupOp.release token).serve c now (unexpired now record) =
          (unexpired now record, .release false)) := by
  unfold Owned
  rcases hlive : unexpired now record with _ | ⟨token', e⟩ | ⟨result', e⟩
  · exact .inr ⟨by simp, rfl⟩
  · by_cases htoken : token' = token
    · exact .inl ⟨⟨e, by rw [htoken]⟩, if_pos htoken⟩
    · exact .inr ⟨by simp [htoken], if_neg htoken⟩
  · exact .inr ⟨by simp, rfl⟩

/-! ### The Redis entry -/

/-- A record as a Redis entry. -/
def Codec.entry (c : Codec) : DedupRecord → Bytes × Int
  | .held token e => (c.encodeClaim token, e)
  | .done result e => (c.encodeDone result, e)

@[simp] theorem Codec.entry_expiresAt (c : Codec) (r : DedupRecord) :
    (c.entry r).2 = r.expiresAt := by
  cases r <;> rfl

theorem Codec.entry_eq_claim {c : Codec} {r : DedupRecord} {token : ℕ} :
    (c.entry r).1 = c.encodeClaim token ↔ ∃ e, r = .held token e := by
  cases r with
  | held token' e => simp [entry]
  | done result e => simp [entry, encodeClaim, encodeDone, tagDone, tagClaim]

namespace RedisDedupStore

variable (c : Codec) (store : RedisDedupStore) (db : ExpiringDb) (now : Int)
  (intentId : String) (record : Option DedupRecord)

/-- The unexpired entry of an intent is its live record. -/
def Same : Prop := (unexpired now record).map c.entry = db.unexpired now (store.key intentId)

/-- The server still serves this entry when it expires at the very instant of the call. -/
def Lingers (value : Bytes) : Prop :=
  db (store.key intentId) = some (value, now) ∧ store.rule.expired now now = false

/-- When a call is answered like the in-memory store answers it, where `owned` are the tokens that
own a live claim of the intent. -/
def Meets (owned : ℕ → Prop) : DedupOp → Prop
  | .claim leaseMs _ => PxValid now leaseMs ∧ ∀ value, ¬ store.Lingers db now intentId value
  | .complete token _ ttlMs =>
    ¬ store.Lingers db now intentId (c.encodeClaim token) ∧
      (owned token → PxValid now ttlMs)
  | .release token => ¬ store.Lingers db now intentId (c.encodeClaim token)

variable {c store db now intentId record}

theorem key_inj {other : String} : store.key intentId = store.key other ↔ intentId = other := by
  rw [key, key, String.append_right_inj]

theorem Same.mono {later : Int} (h : store.Same c db now intentId record) (hnow : now ≤ later) :
    store.Same c db later intentId record := by
  rw [Same, ← ExpiringDb.unexpired_mono hnow, ← h, ← unexpired_mono hnow record, unexpired,
    Option.filter_map]
  congr 2
  funext r
  simp

/-- What is served is the live record. -/
private theorem Same.get (h : store.Same c db now intentId record)
    (hexpired : ∀ value, ¬ store.Lingers db now intentId value) :
    db.get store.rule now (store.key intentId) =
      (unexpired now record).map fun r => (c.entry r).1 := by
  have hrule (value : Bytes) (hvalue : db (store.key intentId) = some (value, now)) :
      store.rule.expired now now = true := by
    by_contra hserved
    exact hexpired value ⟨hvalue, Bool.eq_false_iff.mpr hserved⟩
  rw [ExpiringDb.get_eq_unexpired hrule, ← h, Option.map_map]
  rfl

/-- Where an entry lingers there is no live record. -/
private theorem Same.unexpired_eq_none {value : Bytes}
    (h : store.Same c db now intentId record) (hlingers : store.Lingers db now intentId value) :
    unexpired now record = none := by
  have hnone : (unexpired now record).map c.entry = none := by
    rw [h, ExpiringDb.unexpired, hlingers.1]
    simp [Option.filter]
  exact Option.map_eq_none_iff.mp hnone

private theorem Lingers.get {value : Bytes} (h : store.Lingers db now intentId value) :
    db.get store.rule now (store.key intentId) = some value := by
  rw [ExpiringDb.get_of_expiring h.1, h.2]
  rfl

/-- A claim is served under its token when the token owns it. -/
private theorem Same.get_claim {token : ℕ} (h : store.Same c db now intentId record)
    (hexpired : ¬ store.Lingers db now intentId (c.encodeClaim token)) :
    db.get store.rule now (store.key intentId) = some (c.encodeClaim token) ↔
      Owned now record token := by
  by_cases hlingers : ∃ value, store.Lingers db now intentId value
  · obtain ⟨value, hvalue⟩ := hlingers
    have hne : value ≠ c.encodeClaim token := fun heq => hexpired (heq ▸ hvalue)
    simp [Owned, hvalue.get, h.unexpired_eq_none hvalue, hne]
  · rw [h.get (not_exists.mp hlingers), Owned]
    simp only [Option.map_eq_some_iff, Codec.entry_eq_claim]
    constructor
    · rintro ⟨r, hr, e, rfl⟩
      exact ⟨e, hr⟩
    · rintro ⟨e, hr⟩
      exact ⟨_, hr, e, rfl⟩

variable (c store db now intentId) in
/-- Storing a record is storing its entry. -/
private theorem Same.update (record : Option DedupRecord) :
    store.Same c (Function.update db (store.key intentId) (record.map c.entry)) now
      intentId record := by
  rw [Same, ExpiringDb.unexpired, Function.update_self, unexpired, Option.filter_map]
  congr 2
  funext r
  simp

variable (c store db now intentId record) in
/-- What is to be shown of a call: it answers as the live record of the intent has it exactly when
it meets the condition, and then it leaves the entry of the record that the call leaves. -/
private def Follows (op : DedupOp) : Prop :=
  (store.Meets c db now intentId (Owned now record) op ↔
      (store.perform c db now intentId op).2 =
        (op.serve c now (unexpired now record)).2) ∧
    (store.Meets c db now intentId (Owned now record) op →
      store.Same c (store.perform c db now intentId op).1 now intentId
        (op.serve c now (unexpired now record)).1) ∧
    ∀ other ≠ intentId, (store.perform c db now intentId op).1 (store.key other) =
      db (store.key other)

private theorem update_other (entry : Option (Bytes × Int)) : ∀ other ≠ intentId,
    Function.update db (store.key intentId) entry (store.key other) = db (store.key other) :=
  fun _ hother => Function.update_of_ne (fun heq => hother (key_inj.mp heq)) _ _

private theorem Same.self (h : store.Same c db now intentId record) :
    store.Same c db now intentId (unexpired now record) := by
  rw [Same, unexpired_unexpired]
  exact h

private theorem follows_claim (h : store.Same c db now intentId record)
    (leaseMs : Int) (token : ℕ) :
    store.Follows c db now intentId record (.claim leaseMs token) := by
  have hself := h.self
  rw [Follows]
  by_cases hpx : PxValid now leaseMs
  · by_cases hlingers : ∃ value, store.Lingers db now intentId value
    · obtain ⟨value, hvalue⟩ := hlingers
      rw [h.unexpired_eq_none hvalue]
      have hset : store.perform c db now intentId (.claim leaseMs token) =
          (db, (store.perform c db now intentId (.claim leaseMs token)).2) ∧
          (store.perform c db now intentId (.claim leaseMs token)).2 ≠
            .claim (.claimed token) := by
        simp only [perform, claim, ExpiringDb.setNxPx, if_pos hpx, hvalue.get]
        split_ifs <;> simp
      rw [hset.1]
      exact ⟨⟨fun hmeets => absurd hvalue (hmeets.2 value), fun heq => absurd heq hset.2⟩,
        fun hmeets => absurd hvalue (hmeets.2 value), fun _ _ => rfl⟩
    · have hget := h.get (not_exists.mp hlingers)
      have hmeets : store.Meets c db now intentId (Owned now record) (.claim leaseMs token) :=
        ⟨hpx, not_exists.mp hlingers⟩
      rcases hlive : unexpired now record with _ | ⟨token', e⟩ | ⟨result, e⟩
      · rw [hlive] at hget
        have hclaimed : store.perform c db now intentId (.claim leaseMs token) =
            (Function.update db (store.key intentId)
              (some (c.encodeClaim token, now + leaseMs)), .claim (.claimed token)) := by
          simp [perform, claim, ExpiringDb.setNxPx, hpx, hget]
        rw [hclaimed]
        exact ⟨⟨fun _ => rfl, fun _ => hmeets⟩,
          fun _ => Same.update c store db now intentId (some (.held token (now + leaseMs))),
          update_other _⟩
      · rw [hlive] at hget hself
        have hheld : store.perform c db now intentId (.claim leaseMs token) =
            (db, .claim .inFlight) := by
          simp [perform, claim, ExpiringDb.setNxPx, hpx, hget, Codec.entry, Codec.encodeClaim,
            tagClaim, tagDone]
        rw [hheld]
        exact ⟨⟨fun _ => rfl, fun _ => hmeets⟩, fun _ => hself, fun _ _ => rfl⟩
      · rw [hlive] at hget hself
        have hdone : store.perform c db now intentId (.claim leaseMs token) =
            (db, .claim (.done (c.reads result))) := by
          simp [perform, claim, ExpiringDb.setNxPx, hpx, hget, Codec.entry, Codec.encodeDone,
            Codec.reads, tagDone]
        rw [hdone]
        exact ⟨⟨fun _ => rfl, fun _ => hmeets⟩, fun _ => hself, fun _ _ => rfl⟩
  · have hraised : store.perform c db now intentId (.claim leaseMs token) = (db, .raised) := by
      simp [perform, claim, ExpiringDb.setNxPx, hpx]
    rw [hraised]
    refine ⟨⟨fun hmeets => absurd hmeets.1 hpx, fun heq => ?_⟩, fun hmeets => absurd hmeets.1 hpx,
      fun _ _ => rfl⟩
    simp only [DedupOp.serve] at heq
    split at heq <;> cases heq

private theorem follows_complete (h : store.Same c db now intentId record) (token : ℕ)
    (result : Option ToolResult) (ttlMs : Int) :
    store.Follows c db now intentId record (.complete token result ttlMs) := by
  have hself := h.self
  rw [Follows]
  by_cases hlingers : store.Lingers db now intentId (c.encodeClaim token)
  · rw [h.unexpired_eq_none hlingers]
    have hanswer : (store.perform c db now intentId (.complete token result ttlMs)).2 ≠
        .complete false := by
      simp only [perform, complete, hlingers.get, if_true]
      rcases db.setPx now (store.key intentId)
        (c.encodeDone result) ttlMs with _ | _ <;> simp
    refine ⟨⟨fun hmeets => absurd hlingers hmeets.1, fun heq => absurd heq hanswer⟩,
      fun hmeets => absurd hlingers hmeets.1, fun other hother => ?_⟩
    simp only [perform, complete, hlingers.get, if_true, ExpiringDb.setPx]
    split_ifs
    · exact update_other _ other hother
    · rfl
  · have hget := h.get_claim hlingers
    rcases DedupOp.serve_complete c now record token result ttlMs with
      ⟨howned, hserve⟩ | ⟨howned, hserve⟩
    · by_cases hpx : PxValid now ttlMs
      · have hcompleted : store.perform c db now intentId (.complete token result ttlMs) =
            (Function.update db (store.key intentId)
              (some (c.encodeDone result, now + ttlMs)),
              .complete true) := by
          simp [perform, complete, hget.mpr howned, ExpiringDb.setPx, hpx]
        rw [hserve, hcompleted]
        refine ⟨⟨fun _ => rfl, fun _ => ⟨hlingers, fun _ => hpx⟩⟩, fun _ => ?_, update_other _⟩
        have hsame := Same.update c store db now intentId
          (some (.done result (now + ttlMs)))
        exact hsame
      · have hraised : store.perform c db now intentId (.complete token result ttlMs) =
            (db, .raised) := by
          simp [perform, complete, hget.mpr howned, ExpiringDb.setPx, hpx]
        rw [hserve, hraised]
        refine ⟨⟨fun hmeets => absurd (hmeets.2 howned) hpx, fun heq => ?_⟩,
          fun hmeets => absurd (hmeets.2 howned) hpx, fun _ _ => rfl⟩
        cases heq
    · have hrefused : store.perform c db now intentId (.complete token result ttlMs) =
          (db, .complete false) := by
        simp [perform, complete, mt hget.mp howned]
      rw [hserve, hrefused]
      exact ⟨⟨fun _ => rfl, fun _ => ⟨hlingers, fun h => absurd h howned⟩⟩, fun _ => hself,
        fun _ _ => rfl⟩

private theorem follows_release (h : store.Same c db now intentId record) (token : ℕ) :
    store.Follows c db now intentId record (.release token) := by
  have hself := h.self
  rw [Follows]
  by_cases hlingers : store.Lingers db now intentId (c.encodeClaim token)
  · rw [h.unexpired_eq_none hlingers]
    have hreleased : store.perform c db now intentId (.release token) =
        (db.del (store.key intentId), .release true) := by
      simp [perform, release, hlingers.get]
    rw [hreleased]
    refine ⟨⟨fun hmeets => absurd hlingers hmeets, fun heq => ?_⟩,
      fun hmeets => absurd hlingers hmeets, update_other none⟩
    cases heq
  · have hget := h.get_claim hlingers
    rcases DedupOp.serve_release c now record token with ⟨howned, hserve⟩ | ⟨howned, hserve⟩
    · have hreleased : store.perform c db now intentId (.release token) =
          (db.del (store.key intentId), .release true) := by
        simp [perform, release, hget.mpr howned]
      rw [hserve, hreleased]
      exact ⟨⟨fun _ => rfl, fun _ => hlingers⟩,
        fun _ => Same.update c store db now intentId none, update_other none⟩
    · have hrefused : store.perform c db now intentId (.release token) =
          (db, .release false) := by
        simp [perform, release, mt hget.mp howned]
      rw [hserve, hrefused]
      exact ⟨⟨fun _ => rfl, fun _ => hlingers⟩, fun _ => hself, fun _ _ => rfl⟩

/-- **What a call on the Redis store does.** It answers as the live record of the intent has it
exactly when it meets the condition, and then it leaves the entry of the record that the call
leaves. -/
theorem perform_spec (h : store.Same c db now intentId record) (op : DedupOp) :
    let served := op.serve c now (unexpired now record)
    (store.Meets c db now intentId (Owned now record) op ↔
        (store.perform c db now intentId op).2 = served.2) ∧
      (store.Meets c db now intentId (Owned now record) op →
        store.Same c (store.perform c db now intentId op).1 now intentId served.1) ∧
      ∀ other ≠ intentId, (store.perform c db now intentId op).1 (store.key other) =
        db (store.key other) := by
  cases op with
  | claim leaseMs token => exact follows_claim h leaseMs token
  | complete token result ttlMs => exact follows_complete h token result ttlMs
  | release token => exact follows_release h token

end RedisDedupStore

/-! ### The Bigtable row -/

namespace BigtableDedupStore

variable (c : Codec) (store : BigtableDedupStore) (row : Row) (now : Int)
  (record : Option DedupRecord)

/-- An expiry that eight bytes hold. -/
def Encodable (expiresAtMs : Int) : Prop := 0 ≤ expiresAtMs ∧ expiresAtMs < 2 ^ 64

/-- The newest versions of the columns: a claim's expiry and owner, and a terminal record's result
and expiry. -/
structure Columns (claim : Option (ℕ × Int)) (terminal : Option (Option ToolResult × Int)) :
    Prop where
  claimCell : row.latest columnFamily claimColumn = claim.map fun held => bigEndian 8 held.2.toNat
  ownerCell : row.latest columnFamily ownerColumn = claim.map fun held => c.encodeToken held.1
  resultCell : row.latest columnFamily resultColumn =
    terminal.map fun r => (c.encodeDone r.1).drop tagDone.length
  expiryCell : row.latest columnFamily resultExpiryColumn =
    terminal.map fun r => bigEndian 8 r.2.toNat
  claim_encodable : ∀ held ∈ claim, Encodable held.2
  terminal_encodable : ∀ r ∈ terminal, Encodable r.2

/-- The unexpired claim or terminal record of the row is the live record. -/
structure Same : Prop where
  before : row.Before now
  columns : ∃ claim terminal, Columns c row claim terminal ∧
    (∀ token e, now < e → (record = some (.held token e) ↔ claim = some (token, e))) ∧
    ∀ result e, now < e → (record = some (.done result e) ↔ terminal = some (result, e))

/-- When a call is answered like the in-memory store answers it, where `owned` are the tokens that
own a live claim of the intent. -/
def Meets (owned : ℕ → Prop) : DedupOp → Prop
  | .claim leaseMs _ => Encodable now ∧ Encodable (now + leaseMs)
  | .complete token _ ttlMs =>
    Encodable (now + ttlMs) ∧ Owns token
  | .release token => Owns token
where
  /-- The pattern of the token matches the owner in the row exactly when the token owns a live
  claim: not when the claim has expired, and not when it is the token of another. -/
  Owns (token : ℕ) : Prop :=
    (∀ owner, row.latest columnFamily ownerColumn = some owner →
      store.regex (c.encodeToken token) owner = true → owned token) ∧
    (owned token → store.regex (c.encodeToken token) (c.encodeToken token) = true)

variable {c store row now record}

theorem encodeLeaseExpiry_of_encodable {e : Int} (h : Encodable e) :
    encodeLeaseExpiry e = some (bigEndian 8 e.toNat) := if_pos h

theorem encodeLeaseExpiry_of_not {e : Int} (h : ¬ Encodable e) : encodeLeaseExpiry e = none :=
  if_neg h

private theorem Encodable.toNat_lt {e : Int} (h : Encodable e) : e.toNat < 256 ^ 8 := by
  have hlt := h.2
  norm_num at hlt ⊢
  omega

/-- The bytes of expiries are ordered as the expiries are. -/
theorem Encodable.bigEndian_lt_iff {a b : Int} (ha : Encodable a) (hb : Encodable b) :
    bigEndian 8 a.toNat < bigEndian 8 b.toNat ↔ a < b := by
  rw [Stores.bigEndian_lt_iff ha.toNat_lt hb.toNat_lt]
  have ha' := ha.1
  have hb' := hb.1
  omega

theorem decodeLeaseExpiry_bigEndian {e : Int} (h : Encodable e) :
    decodeLeaseExpiry (bigEndian 8 e.toNat) = some e := by
  rw [decodeLeaseExpiry, if_pos (by rw [length_bigEndian]), List.take_of_length_le (by simp),
    ofBigEndian_bigEndian h.toNat_lt, Int.toNat_of_nonneg h.1]

variable (row) in
/-- A live claim or terminal record is one whose newest expiry lies ahead. -/
private theorem liveExpiryFilter_eq {column : Bytes} (hcolumn : Literal store.regex column)
    (hnow : Encodable now) :
    ∃ filter, store.liveExpiryFilter now column = some filter ∧
      (filter row ≠ [] ↔ ∃ value, row.latest columnFamily column = some value ∧
        bigEndian 8 now.toNat < value) := by
  refine ⟨_, by rw [liveExpiryFilter, encodeLeaseExpiry_of_encodable hnow]; rfl, ?_⟩
  have hchain := RowFilter.latest_chain store.literal_columnFamily hcolumn
    (fun cell => bigEndian 8 now.toNat < cell.value) row
  show RowFilter.chain [RowFilter.familyName store.regex columnFamily,
    RowFilter.columnQualifier store.regex column, RowFilter.cellsColumnLimit 1,
    fun row => row.filter fun cell => bigEndian 8 now.toNat < cell.value] row ≠ [] ↔ _
  rw [hchain, Row.latest]
  cases hfind : row.find? (Cell.inColumn columnFamily column) with
  | none => simp
  | some cell => by_cases hlt : bigEndian 8 now.toNat < cell.value <;> simp [List.filter, hlt]

/-- The owner filter looks at the newest owner. -/
private theorem ownerFilter_ne_nil {token : ℕ} :
    store.ownerFilter c token row ≠ [] ↔ ∃ owner,
      row.latest columnFamily ownerColumn = some owner ∧
        store.regex (c.encodeToken token) owner = true := by
  have hchain := RowFilter.latest_chain store.literal_columnFamily store.literal_ownerColumn
    (fun cell => store.regex (c.encodeToken token) cell.value) row
  show RowFilter.chain [RowFilter.familyName store.regex columnFamily,
    RowFilter.columnQualifier store.regex ownerColumn, RowFilter.cellsColumnLimit 1,
    fun row => row.filter fun cell => store.regex (c.encodeToken token) cell.value] row ≠ [] ↔ _
  rw [hchain, Row.latest]
  cases hfind : row.find? (Cell.inColumn columnFamily ownerColumn) with
  | none => simp
  | some cell =>
    cases hregex : store.regex (c.encodeToken token) cell.value <;> simp [List.filter, hregex]

section Columns

variable {claim : Option (ℕ × Int)} {terminal : Option (Option ToolResult × Int)}

/-- What a granted claim writes. -/
private theorem Columns.claimed (h : Columns c row claim terminal) (hbefore : row.Before now)
    (token : ℕ) {e : Int} (he : Encodable e) :
    Columns c ([Mutation.setCell columnFamily claimColumn (bigEndian 8 e.toNat),
      .setCell columnFamily ownerColumn (c.encodeToken token)].foldl (Row.mutate now) row)
      (some (token, e)) terminal := by
  have hstep := hbefore.mutate (.setCell columnFamily claimColumn (bigEndian 8 e.toNat))
  constructor
  · simp +decide [Row.latest_setCell hstep, Row.latest_setCell hbefore]
  · simp [Row.latest_setCell hstep]
  · simpa +decide [Row.latest_setCell hstep, Row.latest_setCell hbefore] using h.resultCell
  · simpa +decide [Row.latest_setCell hstep, Row.latest_setCell hbefore] using h.expiryCell
  · rintro _ ⟨⟩
    exact he
  · exact h.terminal_encodable

/-- What a completion writes. -/
private theorem Columns.completed (hbefore : row.Before now) (result : Option ToolResult) {e : Int}
    (he : Encodable e) :
    Columns c ([Mutation.setCell columnFamily resultColumn
        ((c.encodeDone result).drop tagDone.length),
      .setCell columnFamily resultExpiryColumn (bigEndian 8 e.toNat),
      .deleteColumn columnFamily claimColumn, .deleteColumn columnFamily ownerColumn].foldl
        (Row.mutate now) row) none (some (result, e)) := by
  have hstep := hbefore.mutate
    (.setCell columnFamily resultColumn ((c.encodeDone result).drop tagDone.length))
  constructor
  · simp [Row.latest_deleteColumn]
  · simp [Row.latest_deleteColumn]
  · simp +decide [Row.latest_deleteColumn, Row.latest_setCell hstep, Row.latest_setCell hbefore]
  · simp +decide [Row.latest_deleteColumn, Row.latest_setCell hstep]
  · rintro _ ⟨⟩
  · rintro _ ⟨⟩
    exact he

/-- What a release deletes. -/
private theorem Columns.released (h : Columns c row claim terminal) :
    Columns c ([Mutation.deleteColumn columnFamily claimColumn,
      .deleteColumn columnFamily ownerColumn].foldl (Row.mutate now) row) none terminal := by
  constructor
  · simp [Row.latest_deleteColumn]
  · simp [Row.latest_deleteColumn]
  · simpa +decide [Row.latest_deleteColumn] using h.resultCell
  · simpa +decide [Row.latest_deleteColumn] using h.expiryCell
  · rintro _ ⟨⟩
  · exact h.terminal_encodable

end Columns

theorem Same.mono {later : Int} (h : Same c row now record) (hnow : now ≤ later) :
    Same c row later record := by
  obtain ⟨claim, terminal, hcolumns, hheld, hdone⟩ := h.columns
  exact ⟨h.before.mono hnow, claim, terminal, hcolumns,
    fun token e he => hheld token e (Int.lt_of_le_of_lt hnow he),
    fun result e he => hdone result e (Int.lt_of_le_of_lt hnow he)⟩

private theorem Same.self (h : Same c row now record) :
    Same c row now (unexpired now record) := by
  obtain ⟨claim, terminal, hcolumns, hheld, hdone⟩ := h.columns
  refine ⟨h.before, claim, terminal, hcolumns, fun token e he => ?_, fun result e he => ?_⟩
  · rw [unexpired_eq_some, ← hheld token e he]
    exact and_iff_left he
  · rw [unexpired_eq_some, ← hdone result e he]
    exact and_iff_left he

variable (store) in
/-- A row is taken when there is a live record. -/
private theorem takenFilter_eq (h : Same c row now record) (hnow : Encodable now) :
    ∃ filter, store.takenFilter now = some filter ∧
      (filter row ≠ [] ↔ unexpired now record ≠ none) := by
  obtain ⟨claim, terminal, hcolumns, hheld, hdone⟩ := h.columns
  obtain ⟨liveClaim, hclaim, hclaim_iff⟩ :=
    liveExpiryFilter_eq row store.literal_claimColumn hnow
  obtain ⟨liveResult, hresult, hresult_iff⟩ :=
    liveExpiryFilter_eq row store.literal_resultExpiryColumn hnow
  refine ⟨RowFilter.union [liveClaim, liveResult], ?_, ?_⟩
  · rw [takenFilter, liveClaimFilter, liveResultFilter, hclaim, hresult]
    rfl
  · have hunion : RowFilter.union [liveClaim, liveResult] row ≠ [] ↔
        liveClaim row ≠ [] ∨ liveResult row ≠ [] := by
      simp [RowFilter.union, imp_iff_not_or]
    rw [hunion, hclaim_iff, hresult_iff, hcolumns.claimCell, hcolumns.expiryCell]
    constructor
    · rintro (⟨value, hvalue, hlt⟩ | ⟨value, hvalue, hlt⟩)
      · obtain ⟨⟨token, e⟩, hc, rfl⟩ := Option.map_eq_some_iff.mp hvalue
        have he := (hnow.bigEndian_lt_iff (hcolumns.claim_encodable _ hc)).mp hlt
        rw [unexpired_eq_some.mpr ⟨(hheld token e he).mpr hc, he⟩]
        simp
      · obtain ⟨⟨result, e⟩, hr, rfl⟩ := Option.map_eq_some_iff.mp hvalue
        have he := (hnow.bigEndian_lt_iff (hcolumns.terminal_encodable _ hr)).mp hlt
        rw [unexpired_eq_some.mpr ⟨(hdone result e he).mpr hr, he⟩]
        simp
    · intro hlive
      obtain ⟨r, hr⟩ := Option.ne_none_iff_exists'.mp hlive
      obtain ⟨hrecord, he⟩ := unexpired_eq_some.mp hr
      cases r with
      | held token e =>
        have hc := (hheld token e he).mp hrecord
        refine .inl ⟨_, by rw [hc]; rfl, ?_⟩
        exact (hnow.bigEndian_lt_iff (hcolumns.claim_encodable _ hc)).mpr he
      | done result e =>
        have hr := (hdone result e he).mp hrecord
        refine .inr ⟨_, by rw [hr]; rfl, ?_⟩
        exact (hnow.bigEndian_lt_iff (hcolumns.terminal_encodable _ hr)).mpr he

variable (store) in
/-- What is read of a row that is taken. -/
private theorem readState_eq (h : Same c row now record)
    :
    store.readState c row now = some
      (match unexpired now record with
        | some (.done result _) => .done (c.reads result)
        | _ => .inFlight) := by
  obtain ⟨claim, terminal, hcolumns, hheld, hdone⟩ := h.columns
  simp only [readState, Row.byQualifier_newest store.literal_columnFamily, hcolumns.resultCell,
    hcolumns.expiryCell]
  rcases terminal with _ | ⟨result, e⟩
  · rcases hlive : unexpired now record with _ | ⟨token, e⟩ | ⟨result, e⟩
    · rfl
    · rfl
    · obtain ⟨hrecord, he⟩ := unexpired_eq_some.mp hlive
      cases (hdone result e he).mp hrecord
  · have hencodable := hcolumns.terminal_encodable _ rfl
    simp only [Option.map_some, decodeLeaseExpiry_bigEndian hencodable]
    by_cases he : now < e
    · have hlive : unexpired now record = some (.done result e) :=
        unexpired_eq_some.mpr ⟨(hdone result e he).mpr rfl, he⟩
      rw [hlive, if_pos he]
      rfl
    · rw [if_neg he]
      rcases hlive : unexpired now record with _ | ⟨token, e'⟩ | ⟨result', e'⟩
      · rfl
      · rfl
      · obtain ⟨hrecord, he'⟩ := unexpired_eq_some.mp hlive
        cases (hdone result' e' he').mp hrecord
        exact absurd he' he

variable (c store row now record) in
/-- What is to be shown of a call: it answers as the live record of the intent has it exactly when
it meets the condition, and then it leaves the row of the record that the call leaves. -/
private def Follows (op : DedupOp) : Prop :=
  (store.Meets c row now (Owned now record) op ↔
      (store.perform c row now op).2 =
        (op.serve c now (unexpired now record)).2) ∧
    (store.Meets c row now (Owned now record) op →
      Same c (store.perform c row now op).1 now
        (op.serve c now (unexpired now record)).1)

private theorem serve_claim_answer (leaseMs : Int) (token : ℕ) (live : Option DedupRecord) :
    ((DedupOp.claim leaseMs token).serve c now live).2 ≠ .raised := by
  rcases live with _ | _ | _ <;> simp [DedupOp.serve]

private theorem follows_claim (h : Same c row now record)
    (leaseMs : Int) (token : ℕ) :
    store.Follows c row now record (.claim leaseMs token) := by
  rw [Follows]
  by_cases hnow : Encodable now
  · by_cases hexpiry : Encodable (now + leaseMs)
    · have hmeets : store.Meets c row now (Owned now record) (.claim leaseMs token) :=
        ⟨hnow, hexpiry⟩
      obtain ⟨filter, hfilter, htaken⟩ := takenFilter_eq store h hnow
      have hself := h.self
      rcases hlive : unexpired now record with _ | r
      · have hfree : filter row = [] := by
          by_contra hne
          exact htaken.mp hne hlive
        have hclaimed : store.perform c row now (.claim leaseMs token) =
            ([Mutation.setCell columnFamily claimColumn (bigEndian 8 (now + leaseMs).toNat),
              .setCell columnFamily ownerColumn (c.encodeToken token)].foldl (Row.mutate now) row,
              .claim (.claimed token)) := by
          simp [perform, claim, hfilter, encodeLeaseExpiry_of_encodable hexpiry,
            Row.checkAndMutate_of_miss hfree]
        rw [hclaimed]
        refine ⟨⟨fun _ => rfl, fun _ => hmeets⟩, fun _ => ?_⟩
        obtain ⟨claim, terminal, hcolumns, hheld, hdone⟩ := h.columns
        refine ⟨h.before.foldl _, _, terminal, hcolumns.claimed h.before token hexpiry,
          fun token' e he => ?_, fun result e he => ?_⟩
        · simp [DedupOp.serve]
        · -- The terminal record that is left has expired.
          constructor
          · intro hrecord
            cases hrecord
          · intro hterminal
            have hrecord := (hdone result e he).mpr hterminal
            rw [unexpired_eq_some.mpr ⟨hrecord, he⟩] at hlive
            cases hlive
      · have hhit : filter row ≠ [] := htaken.mpr (by simp [hlive])
        have hread := readState_eq store h
        rw [hlive] at hread hself
        have hanswer : store.perform c row now (.claim leaseMs token) =
            (row, .claim (match some r with
              | some (.done result _) => .done (c.reads result)
              | _ => .inFlight)) := by
          simp [perform, claim, hfilter, encodeLeaseExpiry_of_encodable hexpiry,
            Row.checkAndMutate_of_hit hhit, hread]
        rw [hanswer]
        cases r with
        | held token' e => exact ⟨⟨fun _ => rfl, fun _ => hmeets⟩, fun _ => hself⟩
        | done result e => exact ⟨⟨fun _ => rfl, fun _ => hmeets⟩, fun _ => hself⟩
    · have hraised : store.perform c row now (.claim leaseMs token) = (row, .raised) := by
        obtain ⟨filter, hfilter, -⟩ := takenFilter_eq store h hnow
        simp [perform, claim, hfilter, encodeLeaseExpiry_of_not hexpiry]
      rw [hraised]
      exact ⟨⟨fun hmeets => absurd hmeets.2 hexpiry, fun heq => absurd heq.symm
        (serve_claim_answer leaseMs token _)⟩, fun hmeets => absurd hmeets.2 hexpiry⟩
  · have hraised : store.perform c row now (.claim leaseMs token) = (row, .raised) := by
      simp [perform, claim, takenFilter, liveClaimFilter, liveExpiryFilter,
        encodeLeaseExpiry_of_not hnow]
    rw [hraised]
    exact ⟨⟨fun hmeets => absurd hmeets.1 hnow, fun heq => absurd heq.symm
      (serve_claim_answer leaseMs token _)⟩, fun hmeets => absurd hmeets.1 hnow⟩

variable (store) in
/-- The owner filter tells who owns the claim exactly when the pattern does. -/
private theorem Same.owns_iff (h : Same c row now record) (token : ℕ) :
    Meets.Owns c store row (Owned now record) token ↔
      (store.ownerFilter c token row ≠ [] ↔ Owned now record token) := by
  obtain ⟨claim, terminal, hcolumns, hheld, hdone⟩ := h.columns
  have howner (howned : Owned now record token) :
      row.latest columnFamily ownerColumn = some (c.encodeToken token) := by
    obtain ⟨e, hlive⟩ := howned
    obtain ⟨hrecord, he⟩ := unexpired_eq_some.mp hlive
    rw [hcolumns.ownerCell, (hheld token e he).mp hrecord]
    rfl
  rw [ownerFilter_ne_nil]
  constructor
  · rintro ⟨hfalse, htrue⟩
    constructor
    · rintro ⟨owner, hlatest, hregex⟩
      exact hfalse owner hlatest hregex
    · intro howned
      exact ⟨_, howner howned, htrue howned⟩
  · intro hiff
    refine ⟨fun owner hlatest hregex => hiff.mp ⟨owner, hlatest, hregex⟩, fun howned => ?_⟩
    obtain ⟨owner, hlatest, hregex⟩ := hiff.mpr howned
    rw [howner howned, Option.some.injEq] at hlatest
    rwa [← hlatest] at hregex

private theorem follows_complete (h : Same c row now record) (token : ℕ)
    (result : Option ToolResult) (ttlMs : Int) :
    store.Follows c row now record (.complete token result ttlMs) := by
  rw [Follows]
  have howns := h.owns_iff store token
  by_cases hexpiry : Encodable (now + ttlMs)
  · by_cases hhit : store.ownerFilter c token row ≠ []
    · have hcompleted : store.perform c row now (.complete token result ttlMs) =
          ([Mutation.setCell columnFamily resultColumn ((c.encodeDone result).drop tagDone.length),
            .setCell columnFamily resultExpiryColumn (bigEndian 8 (now + ttlMs).toNat),
            .deleteColumn columnFamily claimColumn, .deleteColumn columnFamily ownerColumn].foldl
              (Row.mutate now) row, .complete true) := by
        simp [perform, complete, encodeLeaseExpiry_of_encodable hexpiry,
          Row.checkAndMutate_of_hit hhit]
      rw [hcompleted]
      rcases DedupOp.serve_complete c now record token result ttlMs with
        ⟨howned, hserve⟩ | ⟨howned, hserve⟩
      · have hmeets : store.Meets c row now (Owned now record) (.complete token result ttlMs) :=
          ⟨hexpiry, howns.mpr ⟨fun _ => howned, fun _ => hhit⟩⟩
        rw [hserve]
        refine ⟨⟨fun _ => rfl, fun _ => hmeets⟩, fun _ => ⟨h.before.foldl _, none, _,
          Columns.completed h.before result hexpiry, fun token' e he => ?_, fun result' e he => ?_⟩⟩
        · simp
        · simp [eq_comm]
      · rw [hserve]
        have hnot : ¬ store.Meets c row now (Owned now record) (.complete token result ttlMs) :=
          fun hmeets => howned ((howns.mp hmeets.2).mp hhit)
        exact ⟨⟨fun hmeets => absurd hmeets hnot, fun heq => by cases heq⟩,
          fun hmeets => absurd hmeets hnot⟩
    · have hrefused : store.perform c row now (.complete token result ttlMs) =
          (row, .complete false) := by
        simp [perform, complete, encodeLeaseExpiry_of_encodable hexpiry,
          Row.checkAndMutate_of_miss (not_not.mp hhit)]
      rw [hrefused]
      rcases DedupOp.serve_complete c now record token result ttlMs with
        ⟨howned, hserve⟩ | ⟨howned, hserve⟩
      · rw [hserve]
        have hnot : ¬ store.Meets c row now (Owned now record) (.complete token result ttlMs) :=
          fun hmeets => hhit ((howns.mp hmeets.2).mpr howned)
        exact ⟨⟨fun hmeets => absurd hmeets hnot, fun heq => by cases heq⟩,
          fun hmeets => absurd hmeets hnot⟩
      · have hmeets : store.Meets c row now (Owned now record) (.complete token result ttlMs) :=
          ⟨hexpiry, howns.mpr ⟨fun h => absurd h hhit, fun h => absurd h howned⟩⟩
        rw [hserve]
        exact ⟨⟨fun _ => rfl, fun _ => hmeets⟩, fun _ => h.self⟩
  · have hraised : store.perform c row now (.complete token result ttlMs) = (row, .raised) := by
      simp [perform, complete, encodeLeaseExpiry_of_not hexpiry]
    rw [hraised]
    refine ⟨⟨fun hmeets => absurd hmeets.1 hexpiry, fun heq => ?_⟩,
      fun hmeets => absurd hmeets.1 hexpiry⟩
    rcases DedupOp.serve_complete c now record token result ttlMs with
      ⟨-, hserve⟩ | ⟨-, hserve⟩ <;>
    · rw [hserve] at heq
      cases heq

private theorem follows_release (h : Same c row now record) (token : ℕ) :
    store.Follows c row now record (.release token) := by
  rw [Follows]
  have howns := h.owns_iff store token
  by_cases hhit : store.ownerFilter c token row ≠ []
  · have hreleased : store.perform c row now (.release token) =
        ([Mutation.deleteColumn columnFamily claimColumn,
          .deleteColumn columnFamily ownerColumn].foldl (Row.mutate now) row, .release true) := by
      simp [perform, release, Row.checkAndMutate_of_hit hhit]
    rw [hreleased]
    rcases DedupOp.serve_release c now record token with ⟨howned, hserve⟩ | ⟨howned, hserve⟩
    · have hmeets : store.Meets c row now (Owned now record) (.release token) :=
        howns.mpr ⟨fun _ => howned, fun _ => hhit⟩
      rw [hserve]
      obtain ⟨claim, terminal, hcolumns, hheld, hdone⟩ := h.columns
      refine ⟨⟨fun _ => rfl, fun _ => hmeets⟩, fun _ => ⟨h.before.foldl _, none, terminal,
        hcolumns.released, fun token' e he => by simp, fun result' e he => ?_⟩⟩
      -- The record was a claim, so that no terminal record is live.
      constructor
      · intro hrecord
        cases hrecord
      · intro hterminal
        obtain ⟨e', hlive⟩ := howned
        rw [unexpired_eq_some.mpr ⟨(hdone result' e he).mpr hterminal, he⟩] at hlive
        cases hlive
    · rw [hserve]
      have hnot : ¬ store.Meets c row now (Owned now record) (.release token) :=
        fun hmeets => howned ((howns.mp hmeets).mp hhit)
      exact ⟨⟨fun hmeets => absurd hmeets hnot, fun heq => by cases heq⟩,
        fun hmeets => absurd hmeets hnot⟩
  · have hrefused : store.perform c row now (.release token) = (row, .release false) := by
      simp [perform, release, Row.checkAndMutate_of_miss (not_not.mp hhit)]
    rw [hrefused]
    rcases DedupOp.serve_release c now record token with ⟨howned, hserve⟩ | ⟨howned, hserve⟩
    · rw [hserve]
      have hnot : ¬ store.Meets c row now (Owned now record) (.release token) :=
        fun hmeets => hhit ((howns.mp hmeets).mpr howned)
      exact ⟨⟨fun hmeets => absurd hmeets hnot, fun heq => by cases heq⟩,
        fun hmeets => absurd hmeets hnot⟩
    · have hmeets : store.Meets c row now (Owned now record) (.release token) :=
        howns.mpr ⟨fun h => absurd h hhit, fun h => absurd h howned⟩
      rw [hserve]
      exact ⟨⟨fun _ => rfl, fun _ => hmeets⟩, fun _ => h.self⟩

variable (store) in
/-- **What a call on the Bigtable store does.** It answers as the live record of the intent has it
exactly when it meets the condition, and then it leaves the row of the record that the call
leaves. -/
theorem perform_spec (h : Same c row now record) (op : DedupOp) :
    let served := op.serve c now (unexpired now record)
    (store.Meets c row now (Owned now record) op ↔ (store.perform c row now op).2 = served.2) ∧
      (store.Meets c row now (Owned now record) op →
        Same c (store.perform c row now op).1 now served.1) := by
  cases op with
  | claim leaseMs token => exact follows_claim h leaseMs token
  | complete token result ttlMs => exact follows_complete h token result ttlMs
  | release token => exact follows_release h token

end BigtableDedupStore

/-! ### The three stores under one sequence of calls -/

theorem RedisDedupStore.Same.congr {c : Codec} {store : RedisDedupStore}
    {db db' : ExpiringDb} {now : Int} {intentId : String} {record record' : Option DedupRecord}
    (h : store.Same c db now intentId record)
    (hrecord : unexpired now record' = unexpired now record)
    (hdb : db' (store.key intentId) = db (store.key intentId)) :
    store.Same c db' now intentId record' := by
  rw [Same, hrecord, ExpiringDb.unexpired, hdb]
  exact h

theorem BigtableDedupStore.Same.congr {c : Codec} {row : Row} {now : Int}
    {record record' : Option DedupRecord} (h : Same c row now record)
    (hrecord : unexpired now record' = unexpired now record) : Same c row now record' := by
  have heq (r : DedupRecord) (hr : now < r.expiresAt) : record' = some r ↔ record = some r := by
    have hiff : unexpired now record' = some r ↔ record' = some r ∧ now < r.expiresAt :=
      unexpired_eq_some
    rw [hrecord, unexpired_eq_some] at hiff
    rw [← and_iff_left (a := record' = some r) hr, ← hiff, and_iff_left hr]
  obtain ⟨claim, terminal, hcolumns, hheld, hdone⟩ := h.columns
  exact ⟨h.before, claim, terminal, hcolumns,
    fun token e he => (heq (.held token e) he).trans (hheld token e he),
    fun result e he => (heq (.done result e) he).trans (hdone result e he)⟩

/-- The writing of tokens and results, a Redis server and a Bigtable server. -/
structure DedupServers where
  codec : Codec
  redis : RedisDedupStore
  bigtable : BigtableDedupStore

/-- What the three stores hold, and the time of the last call. -/
structure DedupBackends where
  now : Int
  memory : DedupRecords
  redis : ExpiringDb
  bigtable : String → Row

/-- The stores before the first call. -/
def DedupBackends.empty (now : Int) : DedupBackends :=
  ⟨now, fun _ => none, fun _ => none, fun _ => []⟩

/-- A call on an intent at an instant. -/
structure DedupRequest where
  now : Int
  intentId : String
  op : DedupOp

/-- The answers of the three stores. -/
structure DedupAnswers where
  memory : DedupAnswer
  redis : DedupAnswer
  bigtable : DedupAnswer
  deriving DecidableEq, Repr

/-- The three stores answer the same. -/
def DedupAnswers.Agree (o : DedupAnswers) : Prop := o.redis = o.memory ∧ o.bigtable = o.memory

/-- A token owns a live claim in the bytes of the in-memory store. -/
def StoredRecord.OwnedBy (c : Codec) (now : Int) (record : Option StoredRecord)
    (token : ℕ) : Prop :=
  ∃ e, record = some ⟨tagClaim, c.encodeToken token, e⟩ ∧ now < e

theorem StoredRecord.ownedBy_encode (c : Codec) (now : Int) (record : Option DedupRecord) :
    StoredRecord.OwnedBy c now (record.map (encodeRecord c)) = Owned now record := by
  funext token
  rw [OwnedBy, Owned, eq_iff_iff]
  refine exists_congr fun e => ?_
  rw [unexpired_eq_some]
  refine and_congr_left fun _ => ?_
  rcases record with _ | ⟨token', e'⟩ | ⟨result, e'⟩
  · simp
  · simp [encodeRecord, c.encodeToken_injective.eq_iff]
  · simp [encodeRecord, tagDone, tagClaim]

namespace DedupServers

variable (D : DedupServers)

/-- What each store does with a call. -/
def perform (s : DedupBackends) (a : DedupRequest) : DedupBackends × DedupAnswers :=
  let memory := DedupRecords.perform D.codec s.memory a.now a.intentId a.op
  let redis := D.redis.perform D.codec s.redis a.now a.intentId a.op
  let bigtable := D.bigtable.perform D.codec (s.bigtable a.intentId) a.now a.op
  (⟨a.now, memory.1, redis.1, Function.update s.bigtable a.intentId bigtable.1⟩,
    ⟨memory.2, redis.2, bigtable.2⟩)

/-- The stores under calls at times that do not decrease. -/
def machine : Machine DedupBackends DedupRequest DedupAnswers where
  step s a s' os := s.now ≤ a.now ∧ s' = (D.perform s a).1 ∧ os = [(D.perform s a).2]

/-- When the servers answer a call like the in-memory store. -/
def Meets (s : DedupBackends) (a : DedupRequest) : Prop :=
  let owned := StoredRecord.OwnedBy D.codec a.now (s.memory a.intentId)
  D.redis.Meets D.codec s.redis a.now a.intentId owned a.op ∧
    D.bigtable.Meets D.codec (s.bigtable a.intentId) a.now owned a.op

/-- The three stores hold the same live records. -/
def Alike (s : DedupBackends) : Prop := ∃ records, s.memory = encodeRecords D.codec records ∧
  ∀ intentId, D.redis.Same D.codec s.redis s.now intentId (records intentId) ∧
    BigtableDedupStore.Same D.codec (s.bigtable intentId) s.now (records intentId)

variable {D} {s s' : DedupBackends} {a : DedupRequest} {os : List DedupAnswers}

theorem alike_empty (now : Int) : D.Alike (.empty now) := by
  refine ⟨fun _ => none, rfl, fun intentId =>
    ⟨rfl, fun _ h => (by cases h), none, none, ?_, ?_, ?_⟩⟩
  · exact ⟨rfl, rfl, rfl, rfl, fun _ h => (by cases h), fun _ h => (by cases h)⟩
  · simp
  · simp

/-- A call is answered alike exactly when it meets the condition. -/
theorem Alike.meets_iff (h : D.Alike s) (hstep : D.machine.step s a s' os) :
    D.Meets s a ↔ ∀ o ∈ os, o.Agree := by
  obtain ⟨hnow, -, rfl⟩ := hstep
  obtain ⟨records, hmemory, hsame⟩ := h
  obtain ⟨hredis, hbigtable⟩ := hsame a.intentId
  have hanswer : (DedupRecords.perform D.codec s.memory a.now a.intentId a.op).2 =
      (a.op.serve D.codec a.now (unexpired a.now (records a.intentId))).2 := by
    rw [hmemory, InMemoryDedupStore.perform_encode]
    exact (InMemoryDedupStore.perform_spec D.codec records a.now a.intentId a.op).1
  have howned : StoredRecord.OwnedBy D.codec a.now (s.memory a.intentId) =
      Owned a.now (records a.intentId) := by
    rw [hmemory]
    exact StoredRecord.ownedBy_encode D.codec a.now (records a.intentId)
  rw [Meets, howned, (RedisDedupStore.perform_spec (hredis.mono hnow) a.op).1,
    (BigtableDedupStore.perform_spec D.bigtable (hbigtable.mono hnow) a.op).1,
    List.forall_mem_singleton, DedupAnswers.Agree, ← hanswer]
  rfl

/-- After calls that meet the condition the records are the same. -/
theorem Alike.step (h : D.Alike s) (hmeets : D.Meets s a) (hstep : D.machine.step s a s' os) :
    D.Alike s' := by
  obtain ⟨hnow, rfl, -⟩ := hstep
  obtain ⟨records, hmemory, hsame⟩ := h
  have howned : StoredRecord.OwnedBy D.codec a.now (s.memory a.intentId) =
      Owned a.now (records a.intentId) := by
    rw [hmemory]
    exact StoredRecord.ownedBy_encode D.codec a.now (records a.intentId)
  rw [Meets, howned] at hmeets
  obtain ⟨-, hafter, hothers⟩ :=
    InMemoryDedupStore.perform_spec D.codec records a.now a.intentId a.op
  refine ⟨(InMemoryDedupStore.perform D.codec records a.now a.intentId a.op).1, ?_,
    fun intentId => ?_⟩
  · show (DedupRecords.perform D.codec s.memory a.now a.intentId a.op).1 = _
    rw [hmemory, InMemoryDedupStore.perform_encode]
    rfl
  · by_cases hintent : intentId = a.intentId
    · subst hintent
      obtain ⟨hredis, hbigtable⟩ := hsame a.intentId
      have hredis' := (RedisDedupStore.perform_spec (hredis.mono hnow) a.op).2.1 hmeets.1
      have hbigtable' :=
        (BigtableDedupStore.perform_spec D.bigtable (hbigtable.mono hnow) a.op).2 hmeets.2
      refine ⟨hredis'.congr hafter rfl, ?_⟩
      show BigtableDedupStore.Same D.codec (Function.update s.bigtable a.intentId _ a.intentId) _ _
      rw [Function.update_self]
      exact hbigtable'.congr hafter
    · obtain ⟨hredis, hbigtable⟩ := hsame intentId
      obtain ⟨hself, -⟩ := hsame a.intentId
      rw [hothers intentId hintent]
      refine ⟨(hredis.mono hnow).congr rfl ?_, ?_⟩
      · exact (RedisDedupStore.perform_spec (hself.mono hnow) a.op).2.2 intentId hintent
      · show BigtableDedupStore.Same D.codec (Function.update s.bigtable a.intentId _ intentId) _ _
        rw [Function.update_of_ne hintent]
        exact hbigtable.mono hnow

end DedupServers

/-- **The dedup stores over Redis and Bigtable answer like the in-memory store**: in a run, all
calls are answered alike exactly when all of them meet the condition. -/
theorem dedup_backends_agree_iff (D : DedupServers) {now : Int} {as : List DedupRequest}
    {os : List DedupAnswers} {s : DedupBackends} :
    (D.machine.guarded D.Meets).Run (.empty now) as os s ↔
      (D.machine.restrict fun _ _ _ os => ∀ o ∈ os, o.Agree).Run (.empty now) as os s :=
  Machine.Run.guarded_iff_restrict (I := D.Alike) (DedupServers.alike_empty now)
    (fun halike hagree hstep => halike.step ((halike.meets_iff hstep).mpr hagree) hstep)
    (fun halike hstep => halike.meets_iff hstep)

/-! ### A claim that has expired -/

/-- A Redis server that goes on serving an entry when it expires just now, and a Bigtable server on
which every pattern matches itself only. -/
def exactServers : DedupServers where
  codec := sampleCodec
  redis := {
    rule := {
      expired := fun now expiresAt => expiresAt < now
      expired_of_lt := fun h => decide_eq_true h
      served_of_lt := fun h => decide_eq_false (Int.not_lt.mpr (Int.le_of_lt h)) } }
  bigtable := {
    regex := fun pattern text => pattern = text
    literal_columnFamily := fun _ => by rw [decide_eq_true_iff, eq_comm]
    literal_claimColumn := fun _ => by rw [decide_eq_true_iff, eq_comm]
    literal_ownerColumn := fun _ => by rw [decide_eq_true_iff, eq_comm]
    literal_resultExpiryColumn := fun _ => by rw [decide_eq_true_iff, eq_comm] }

/-- A claim for a second. -/
def secondClaim : DedupRequest := ⟨0, "intent", .claim 1000 7⟩

/-- The completion of the claim, a second after it has expired. -/
def lateCompletion : DedupRequest := ⟨2000, "intent", .complete 7 none 60000⟩

/-- The completion is refused by the in-memory store and by Redis, and accepted by Bigtable. -/
theorem bigtable_completes_expired_claim : ∃ os s,
    exactServers.machine.Run (.empty 0) [secondClaim, lateCompletion] os s ∧
      ⟨.complete false, .complete false, .complete true⟩ ∈ os := by
  have hclaim : exactServers.machine.step (.empty 0) secondClaim
      (exactServers.perform (.empty 0) secondClaim).1
      [(exactServers.perform (.empty 0) secondClaim).2] := ⟨Int.le_refl 0, rfl, rfl⟩
  have hlate : exactServers.machine.step (exactServers.perform (.empty 0) secondClaim).1
      lateCompletion _ [(exactServers.perform (exactServers.perform (.empty 0) secondClaim).1
        lateCompletion).2] := ⟨show (0 : Int) ≤ 2000 by decide, rfl, rfl⟩
  refine ⟨_, _, (Machine.Run.single hclaim).append (Machine.Run.single hlate),
    List.mem_append_right _ ?_⟩
  rw [List.mem_singleton]
  decide +kernel

end BeamAgents
