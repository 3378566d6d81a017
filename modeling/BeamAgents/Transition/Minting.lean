import BeamAgents.Transition.Machine
import Mathlib.Data.List.Pairwise
import Mathlib.Data.List.Nodup
import Mathlib.Order.Basic

/-!
# Minting stamps from sessions

A minter hands out stamps `(session, step)`. It numbers its sessions by a counter; at most one
session is open, with a cursor on its next free step. A commit either starts the session of the
current counter or resumes the open one, issues some steps in increasing order, and leaves the
session open at a later cursor or closed. Between commits the open session may issue the step at
its cursor (`extend`) or be closed. Every commit advances the counter, so a resumed session is
older than the counter.

The counter counts the commits, exceeds the session of every stamp issued, the cursor of the open
session exceeds every step issued under it, and hence no stamp is issued twice
(`Transition.Minter.run_spec`).

## Main definitions

* `Transition.Minter`, `Transition.Minter.Act`, `Transition.Minter.machine`.
* `Transition.Minter.Covers`: the invariant between the minter and the stamps issued.

## Main results

* `Transition.Minter.run_spec`.
-/

namespace Transition

/-- The state of a minter: the next session number and the open session with its cursor. -/
@[ext] structure Minter (κ : Type*) where
  /-- The number of the next session. -/
  counter : ℕ
  /-- The open session and its next free step. -/
  opened : Option (ℕ × κ)

namespace Minter

/-- What a minter emits: the mark of a commit, or a stamp. -/
inductive Issue (κ : Type*)
  | commit
  | stamp (session : ℕ) (step : κ)

/-- The actions of a minter. `start` and `resume` name the steps they issue and the cursor at which
they leave the session open, if they do. -/
inductive Act (κ : Type*)
  | start (steps : List κ) (cursor : Option κ)
  | resume (steps : List κ) (cursor : Option κ)
  | extend (cursor : κ)
  | close

variable {κ : Type*}

/-- The stamps among the outputs, in order. -/
def stamps (os : List (Issue κ)) : List (ℕ × κ) :=
  os.filterMap fun
    | .commit => none
    | .stamp q n => some (q, n)

/-- The number of commits among the outputs. -/
def commits (os : List (Issue κ)) : ℕ :=
  os.countP fun
    | .commit => true
    | .stamp _ _ => false

/-- What a commit of session `q` emits: its stamps in order, and the mark of the commit. -/
def issued (q : ℕ) (steps : List κ) : List (Issue κ) := .commit :: steps.map (.stamp q)

@[simp] theorem stamps_nil : stamps ([] : List (Issue κ)) = [] := rfl

@[simp] theorem stamps_append (os ps : List (Issue κ)) :
    stamps (os ++ ps) = stamps os ++ stamps ps :=
  List.filterMap_append

@[simp] theorem stamps_issued (q : ℕ) (steps : List κ) :
    stamps (issued q steps) = steps.map fun n => (q, n) := by
  induction steps with
  | nil => rfl
  | cons n steps ih => simp [stamps, issued]

@[simp] theorem stamps_stamp (q : ℕ) (n : κ) : stamps [.stamp q n] = [(q, n)] := rfl

@[simp] theorem commits_append (os ps : List (Issue κ)) :
    commits (os ++ ps) = commits os + commits ps :=
  List.countP_append

@[simp] theorem commits_issued (q : ℕ) (steps : List κ) : commits (issued q steps) = 1 := by
  simp [commits, issued, List.countP_eq_zero]

@[simp] theorem commits_stamp (q : ℕ) (n : κ) : commits [.stamp q n] = 0 := rfl

@[simp] theorem commits_nil : commits ([] : List (Issue κ)) = 0 := rfl

theorem mem_map_stamp {q : ℕ} {steps : List κ} {p : ℕ × κ} :
    p ∈ steps.map (fun n => (q, n)) ↔ p.1 = q ∧ p.2 ∈ steps := by
  constructor
  · intro h
    obtain ⟨n, hn, rfl⟩ := List.mem_map.mp h
    exact ⟨rfl, hn⟩
  · rintro ⟨rfl, h⟩
    exact List.mem_map.mpr ⟨p.2, h, rfl⟩

variable [Preorder κ]

/-- The steps of a minter. -/
inductive Step : Minter κ → Act κ → Minter κ → List (Issue κ) → Prop
  | start {m : Minter κ} {steps cursor} (hsteps : steps.Pairwise (· < ·))
      (hcursor : ∀ k ∈ cursor, ∀ n ∈ steps, n < k) :
      Step m (.start steps cursor) ⟨m.counter + 1, cursor.map fun k => (m.counter, k)⟩
        (issued m.counter steps)
  | resume {m : Minter κ} {q k₀ steps cursor} (hopen : m.opened = some (q, k₀))
      (hsteps : steps.Pairwise (· < ·)) (hfrom : ∀ n ∈ steps, k₀ ≤ n)
      (hcursor : ∀ k ∈ cursor, k₀ ≤ k ∧ ∀ n ∈ steps, n < k) :
      Step m (.resume steps cursor) ⟨m.counter + 1, cursor.map fun k => (q, k)⟩ (issued q steps)
  | extend {m : Minter κ} {q k₀ k} (hopen : m.opened = some (q, k₀)) (hk : k₀ < k) :
      Step m (.extend k) ⟨m.counter, some (q, k)⟩ [.stamp q k₀]
  | close {m : Minter κ} : Step m .close ⟨m.counter, none⟩ []

/-- The minter as a machine. -/
def machine (κ : Type*) [Preorder κ] : Machine (Minter κ) (Act κ) (Issue κ) where
  step := Step

/-- The minter is ahead of the stamps in `H`: its counter exceeds their sessions, the cursor of
its open session exceeds their steps under that session, and the open session is started. -/
structure Covers (m : Minter κ) (H : List (ℕ × κ)) : Prop where
  counter : ∀ p ∈ H, p.1 < m.counter
  session : ∀ q k, m.opened = some (q, k) → q < m.counter
  cursor : ∀ q k, m.opened = some (q, k) → ∀ p ∈ H, p.1 = q → p.2 < k

/-- Starting a session keeps the minter ahead: the session is new. -/
theorem Covers.start {m : Minter κ} {H : List (ℕ × κ)} (h : m.Covers H) {steps : List κ}
    {cursor : Option κ} (hcursor : ∀ k ∈ cursor, ∀ n ∈ steps, n < k) :
    Covers ⟨m.counter + 1, cursor.map fun k => (m.counter, k)⟩
      (H ++ steps.map fun n => (m.counter, n)) := by
  refine ⟨fun p hp => ?_, fun q k hq => ?_, fun q k hq p hp hpq => ?_⟩
  · rcases List.mem_append.mp hp with hp | hp
    · exact Nat.lt_succ_of_lt (h.counter p hp)
    · exact (mem_map_stamp.mp hp).1 ▸ Nat.lt_succ_self _
  · obtain ⟨k', -, hk'⟩ := Option.map_eq_some_iff.mp hq
    cases hk'
    exact Nat.lt_succ_self _
  · obtain ⟨k', hk, hk'⟩ := Option.map_eq_some_iff.mp hq
    cases hk'
    rcases List.mem_append.mp hp with hp | hp
    · exact absurd (h.counter p hp) (Nat.not_lt.mpr (Nat.le_of_eq hpq.symm))
    · exact hcursor k (Option.mem_def.mpr hk) _ (mem_map_stamp.mp hp).2

/-- Resuming a session keeps the minter ahead: its steps start at the cursor. -/
theorem Covers.resume {m : Minter κ} {H : List (ℕ × κ)} (h : m.Covers H) {q : ℕ} {k₀ : κ}
    (hopen : m.opened = some (q, k₀)) {steps : List κ} {cursor : Option κ}
    (hcursor : ∀ k ∈ cursor, k₀ ≤ k ∧ ∀ n ∈ steps, n < k) :
    Covers ⟨m.counter + 1, cursor.map fun k => (q, k)⟩ (H ++ steps.map fun n => (q, n)) := by
  have hq := h.session q k₀ hopen
  refine ⟨fun p hp => ?_, fun q' k hq' => ?_, fun q' k hq' p hp hpq => ?_⟩
  · rcases List.mem_append.mp hp with hp | hp
    · exact Nat.lt_succ_of_lt (h.counter p hp)
    · exact Nat.lt_succ_of_lt ((mem_map_stamp.mp hp).1.symm ▸ hq)
  · obtain ⟨k', -, hk'⟩ := Option.map_eq_some_iff.mp hq'
    cases hk'
    exact Nat.lt_succ_of_lt hq
  · obtain ⟨k', hk, hk'⟩ := Option.map_eq_some_iff.mp hq'
    cases hk'
    obtain ⟨hle, hlt⟩ := hcursor k (Option.mem_def.mpr hk)
    rcases List.mem_append.mp hp with hp | hp
    · exact (h.cursor q k₀ hopen p hp hpq).trans_le hle
    · exact hlt _ (mem_map_stamp.mp hp).2

/-- A step keeps the minter ahead of the stamps. -/
theorem Covers.step {m m' : Minter κ} {H : List (ℕ × κ)} {a : Act κ} {os : List (Issue κ)}
    (h : m.Covers H) (hs : Step m a m' os) : m'.Covers (H ++ stamps os) := by
  cases hs with
  | start hsteps hcursor => simpa only [stamps_issued] using h.start hcursor
  | resume hopen hsteps hfrom hcursor => simpa only [stamps_issued] using h.resume hopen hcursor
  | @extend q k₀ k hopen hk =>
    simp only [stamps_stamp]
    refine ⟨fun p hp => ?_, fun q' k' hq' => ?_, fun q' k' hq' p hp hpq => ?_⟩
    · rcases List.mem_append.mp hp with hp | hp
      · exact h.counter p hp
      · rw [List.mem_singleton.mp hp]
        exact h.session q k₀ hopen
    · cases hq'
      exact h.session q k₀ hopen
    · cases hq'
      rcases List.mem_append.mp hp with hp | hp
      · exact (h.cursor q k₀ hopen p hp hpq).trans hk
      · rw [List.mem_singleton.mp hp]
        exact hk
  | close =>
    simp only [stamps_nil, List.append_nil]
    exact ⟨h.counter, fun q k hq => absurd hq (by simp), fun q k hq => absurd hq (by simp)⟩

theorem pairwise_map_stamp {q : ℕ} {steps : List κ} (h : steps.Pairwise (· < ·)) :
    (steps.map fun n => (q, n)).Pairwise (· ≠ ·) :=
  h.map _ fun _ _ hab heq => hab.ne (congrArg Prod.snd heq)

/-- The stamps a step issues are new and distinct. -/
theorem Covers.fresh {m m' : Minter κ} {H : List (ℕ × κ)} {a : Act κ} {os : List (Issue κ)}
    (h : m.Covers H) (hs : Step m a m' os) :
    (stamps os).Pairwise (· ≠ ·) ∧ ∀ p ∈ H, ∀ r ∈ stamps os, p ≠ r := by
  cases hs with
  | start hsteps hcursor =>
    rw [stamps_issued]
    refine ⟨pairwise_map_stamp hsteps, fun p hp r hr heq => ?_⟩
    subst heq
    exact absurd (h.counter p hp) (Nat.not_lt.mpr (Nat.le_of_eq (mem_map_stamp.mp hr).1.symm))
  | @resume q k₀ steps cursor hopen hsteps hfrom hcursor =>
    rw [stamps_issued]
    refine ⟨pairwise_map_stamp hsteps, fun p hp r hr heq => ?_⟩
    subst heq
    obtain ⟨hq, hn⟩ := mem_map_stamp.mp hr
    exact lt_irrefl _ ((h.cursor q k₀ hopen p hp hq).trans_le (hfrom _ hn))
  | @extend q k₀ k hopen hk =>
    simp only [stamps_stamp, List.pairwise_singleton, List.mem_singleton, true_and]
    rintro p hp r rfl rfl
    exact lt_irrefl _ (h.cursor q k₀ hopen _ hp rfl)
  | close => simp

/-- **Minted stamps are distinct.** Along a run from a minter with no open session, the counter
has advanced by the number of commits, the minter is ahead of the stamps issued, and these are
pairwise distinct. -/
theorem run_spec {c : ℕ} {m : Minter κ} {as : List (Act κ)} {os : List (Issue κ)}
    (h : (machine κ).Run ⟨c, none⟩ as os m) :
    m.counter = c + commits os ∧ m.Covers (stamps os) ∧ (stamps os).Pairwise (· ≠ ·) := by
  refine h.invariant (I := fun _ os m =>
    m.counter = c + commits os ∧ m.Covers (stamps os) ∧ (stamps os).Pairwise (· ≠ ·)) ?_ ?_
  · refine ⟨rfl, ⟨by simp, by simp, by simp⟩, List.Pairwise.nil⟩
  · rintro as os m a m' o - ⟨hcount, hcov, hnd⟩ hs
    have hnew := hcov.fresh hs
    refine ⟨?_, by simpa only [stamps_append] using hcov.step hs, ?_⟩
    · cases hs <;> simp [hcount, Nat.add_assoc]
    · rw [stamps_append]
      exact List.pairwise_append.mpr ⟨hnd, hnew.1, hnew.2⟩

end Minter

end Transition
