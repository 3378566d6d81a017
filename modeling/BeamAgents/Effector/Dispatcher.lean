import BeamAgents.Effector.Exclusive
import Mathlib.Data.Finset.Card
import Mathlib.Data.Finset.Range

/-!
# The dispatcher and its partitions

`EffectorService.run` with the queues and the workers of the partitions. The dispatcher reads the
source and puts each delivery on the queue of its partition, which holds one; a worker takes the
deliveries of its queue one by one and takes each through `process`, with a bound on how many do so
at once. A worker may end with an exception of `process`, and nothing takes it out of the tables
then; a revocation takes a partition out of them and cancels its worker. In both cases a dispatcher
that waits for room on the queue waits forever.

A queue and its worker are created together and share a number, a lane. A cancellation is requested
first and takes effect later.

## Main definitions

* `WorkerTask`, `Lane`, `RunPhase`, `Dispatcher`, `DispatcherAct`.
* `Dispatcher.perform` and `Dispatcher.machine`.
* `Dispatcher.Stuck`: the dispatcher is blocked on a queue that nobody will take from.
* `Dispatcher.Awaits`: `run` waits for a worker, so that its failure surfaces.
* `Dispatcher.Proceeds`: when a step leaves `run` unblocked, with every failed worker waited for.

## Main results

* `Dispatcher.run_unstuck_iff`: exactly in the runs whose steps proceed, `run` is never stuck and
  waits for every worker that has failed, and there each failure can surface.
* `Dispatcher.failure_blocks`: a run that is stuck.
-/

namespace BeamAgents

open Transition

/-- What the task of a worker does: it waits for its queue or for a permit, it is in `process`, or
it has ended. -/
inductive WorkerTask
  | waiting
  | acquiring (d : Delivered)
  | processing (d : Delivered)
  | returned
  | failed
  | cancelled
  deriving DecidableEq, Repr

namespace WorkerTask

/-- Whether the task is done. -/
def ended : WorkerTask → Bool
  | .returned | .failed | .cancelled => true
  | _ => false

/-- Whether the task holds a permit. -/
def isProcessing : WorkerTask → Bool
  | .processing _ => true
  | _ => false

end WorkerTask

/-- A queue with room for one item and its worker. The item `none` is the stop sentinel. -/
structure Lane where
  partition : String := ""
  item : Option (Option Delivered) := none
  task : WorkerTask := .waiting
  cancelRequested : Bool := false
  deriving DecidableEq, Repr

/-- Where `run` is. -/
inductive RunPhase
  /-- Waiting for the source. -/
  | reading
  /-- Waiting for room on a queue. -/
  | putting (q : ℕ) (d : Delivered)
  /-- In `_drain`: waiting for the workers, with the sentinels that are still to be put. -/
  | draining (workers sentinels : List ℕ)
  /-- Waiting for cancelled workers, to raise then. -/
  | stopping (workers : List ℕ)
  | returned
  | raised
  deriving DecidableEq, Repr

/-- The tables of `EffectorService`, the lanes behind them, and `run`. -/
structure Dispatcher where
  lanes : ℕ → Lane := fun _ => {}
  /-- How many lanes have been created. -/
  count : ℕ := 0
  queues : String → Option ℕ := fun _ => none
  workers : String → Option ℕ := fun _ => none
  run : RunPhase := .reading

/-- A step of `run`, of a worker, of a revocation, or of the world. -/
inductive DispatcherAct
  /-- The source yields a delivery. -/
  | receive (d : Delivered)
  /-- A blocked put goes through. -/
  | put
  | get (q : ℕ)
  | acquire (q : ℕ)
  /-- `process` returns. -/
  | finish (q : ℕ)
  /-- `process` raises. -/
  | fail (q : ℕ)
  /-- A requested cancellation takes effect. -/
  | cancelled (q : ℕ)
  /-- `_on_revoked`. -/
  | revoke (partition : String)
  /-- The source ends. -/
  | exhaust
  | sentinel (q : ℕ)
  /-- The workers that `_drain` waits for have all returned, or one of them has raised. -/
  | gather
  /-- `run` is cancelled, or the source raises. -/
  | signal
  /-- The cancelled workers have ended. -/
  | unwound
  deriving DecidableEq, Repr

/-- How `run` ends. -/
inductive RunOutcome
  | returned
  | raised
  deriving DecidableEq, Repr

namespace Dispatcher

variable (s : Dispatcher)

/-- Change a lane. -/
def setLane (q : ℕ) (lane : Lane) : Dispatcher := { s with lanes := Function.update s.lanes q lane }

/-- How many workers hold a permit. -/
def processing : ℕ :=
  ((Finset.range s.count).filter fun q => (s.lanes q).task.isProcessing).card

/-- `_ensure_worker`: the lane of a partition, created if there is none. -/
def ensureWorker (partition : String) : Dispatcher × ℕ :=
  match s.queues partition with
  | some q => (s, q)
  | none =>
    ({ s.setLane s.count { partition := partition } with
        count := s.count + 1
        queues := Function.update s.queues partition (some s.count)
        workers := Function.update s.workers partition (some s.count) }, s.count)

/-- The values of a table, in the order in which they were inserted. -/
def tableValues (table : String → Option ℕ) : List ℕ :=
  (List.range s.count).filter fun q => table (s.lanes q).partition = some q

/-- Request the cancellation of workers. -/
def cancelAll (workers : List ℕ) : Dispatcher :=
  { s with lanes := fun q =>
      if q ∈ workers then { s.lanes q with cancelRequested := true } else s.lanes q }

/-- `_abort`, up to the wait for the workers. -/
def abort : Dispatcher :=
  let workers := s.tableValues s.workers
  { s.cancelAll workers with
    queues := fun _ => none
    workers := fun _ => none
    run := .stopping workers }

/-- One step. -/
def perform (svc : EffectorService) (s : Dispatcher) :
    DispatcherAct → Option (Dispatcher × List RunOutcome)
  | .receive d =>
    match s.run with
    | .reading =>
      let (s, q) := s.ensureWorker d.partition
      if (s.lanes q).item = none then
        some (s.setLane q { s.lanes q with item := some (some d) }, [])
      else some ({ s with run := .putting q d }, [])
    | _ => none
  | .put =>
    match s.run with
    | .putting q d =>
      if (s.lanes q).item = none then
        some ({ s.setLane q { s.lanes q with item := some (some d) } with run := .reading }, [])
      else none
    | _ => none
  | .get q =>
    match (s.lanes q).task, (s.lanes q).item with
    | .waiting, some (some d) =>
      some (s.setLane q { s.lanes q with item := none, task := .acquiring d }, [])
    | .waiting, some none =>
      some (s.setLane q { s.lanes q with item := none, task := .returned }, [])
    | _, _ => none
  | .acquire q =>
    match (s.lanes q).task with
    | .acquiring d =>
      if s.processing < svc.maxConcurrentPartitions then
        some (s.setLane q { s.lanes q with task := .processing d }, [])
      else none
    | _ => none
  | .finish q =>
    match (s.lanes q).task with
    | .processing _ => some (s.setLane q { s.lanes q with task := .waiting }, [])
    | _ => none
  | .fail q =>
    match (s.lanes q).task with
    | .processing _ => some (s.setLane q { s.lanes q with task := .failed }, [])
    | _ => none
  | .cancelled q =>
    if (s.lanes q).cancelRequested && !(s.lanes q).task.ended then
      some (s.setLane q { s.lanes q with task := .cancelled }, [])
    else none
  | .revoke partition =>
    some (({ s with
      queues := Function.update s.queues partition none
      workers := Function.update s.workers partition none } : Dispatcher).cancelAll
        (s.workers partition).toList, [])
  | .exhaust =>
    match s.run with
    | .reading =>
      let workers := s.tableValues s.workers
      let sentinels := s.tableValues s.queues
      let s : Dispatcher := { s with queues := fun _ => none, workers := fun _ => none }
      if workers = [] then some ({ s with run := .returned }, [.returned])
      else some ({ s with run := .draining workers sentinels }, [])
    | _ => none
  | .sentinel q =>
    match s.run with
    | .draining workers sentinels =>
      if q ∈ sentinels ∧ (s.lanes q).item = none then
        some ({ s.setLane q { s.lanes q with item := some none } with
          run := .draining workers (sentinels.erase q) }, [])
      else none
    | _ => none
  | .gather =>
    match s.run with
    | .draining workers _ =>
      if workers.any fun q => (s.lanes q).task = .failed ∨ (s.lanes q).task = .cancelled then
        some ({ s.cancelAll workers with run := .stopping workers }, [])
      else if workers.all fun q => (s.lanes q).task.ended then
        some ({ s with run := .returned }, [.returned])
      else none
    | _ => none
  | .signal =>
    match s.run with
    | .reading | .putting _ _ => some (s.abort, [])
    | .draining workers _ => some ({ s.cancelAll workers with run := .stopping workers }, [])
    | _ => none
  | .unwound =>
    match s.run with
    | .stopping workers =>
      if workers.all fun q => (s.lanes q).task.ended then
        some ({ s with run := .raised }, [.raised])
      else none
    | _ => none

/-- The dispatcher as a machine. -/
def machine (svc : EffectorService) : Machine Dispatcher DispatcherAct RunOutcome where
  step s a s' os := s.perform svc a = some (s', os)

/-- The dispatcher waits for room on a full queue whose worker has ended or has been taken out of
the table. -/
def Stuck : Prop :=
  ∃ q d, s.run = .putting q d ∧ (s.lanes q).item ≠ none ∧
    ((s.lanes q).task.ended = true ∨ s.workers (s.lanes q).partition ≠ some q)

/-- The dispatcher waits for room on the full queue of a lane. -/
def BlockedOn (q : ℕ) : Prop := ∃ d, s.run = .putting q d ∧ (s.lanes q).item ≠ none

/-- Whether `run` is going to raise, or has raised. -/
def raising : Bool :=
  match s.run with
  | .stopping _ | .raised => true
  | _ => false

/-- `run` waits for a worker, or will wait for it when the source ends; or it raises anyway. -/
def Awaits (q : ℕ) : Prop :=
  match s.run with
  | .reading | .putting _ _ => s.workers (s.lanes q).partition = some q
  | .draining workers _ => q ∈ workers
  | .stopping _ | .raised => True
  | .returned => False

/-- A step that leaves the dispatcher unblocked: no worker fails and no partition is revoked while
the dispatcher is blocked on its queue, and no delivery arrives for a worker that has ended with a
full queue. -/
def Unblocks : DispatcherAct → Prop
  | .receive d => ∀ q, s.queues d.partition = some q → (s.lanes q).item ≠ none →
      (s.lanes q).task.ended = false
  | .fail q => ¬ s.BlockedOn q
  | .revoke partition => ∀ q, s.workers partition = some q → ¬ s.BlockedOn q
  | _ => True

/-- A step that hides no failure: the partition of a worker that has failed is not revoked, and a
worker whose cancellation was requested does not fail, unless `run` is going to raise. -/
def Shows : DispatcherAct → Prop
  | .fail q => (s.lanes q).cancelRequested = true → s.raising = true
  | .revoke partition => ∀ q, s.workers partition = some q → (s.lanes q).task ≠ .failed
  | _ => True

/-- A step that lets the dispatcher proceed. -/
def Proceeds (a : DispatcherAct) : Prop := s.Unblocks a ∧ s.Shows a

/-! ### What holds while `run` reads the source -/

/-- Whether `run` is in its loop over the source. -/
def looping : Bool :=
  match s.run with
  | .reading | .putting _ _ => true
  | _ => false

/-- While `run` is in its loop, the two tables are one and name the lanes of their partitions, the
lanes to come are untouched, there are no sentinels, and the workers out of the table are the
cancelled ones. -/
structure Loop : Prop where
  tables : s.queues = s.workers
  known : ∀ p q, s.workers p = some q → q < s.count ∧ (s.lanes q).partition = p
  fresh : ∀ q, s.count ≤ q → s.lanes q = {}
  item : ∀ q, (s.lanes q).item ≠ some none
  cancelled : ∀ q, (s.lanes q).cancelRequested = true → s.workers (s.lanes q).partition ≠ some q
  kept : ∀ q, q < s.count → (s.lanes q).cancelRequested = false →
    s.workers (s.lanes q).partition = some q
  target : ∀ q d, s.run = .putting q d → q < s.count

variable {s} {s' : Dispatcher} {svc : EffectorService} {q : ℕ} {partition : String} {lane : Lane}
  {os : List RunOutcome}

@[simp] theorem setLane_self : (s.setLane q lane).lanes q = lane := Function.update_self ..

theorem setLane_of_ne {q' : ℕ} (h : q' ≠ q) : (s.setLane q lane).lanes q' = s.lanes q' :=
  Function.update_of_ne h ..

/-- A lane that has been touched has been created. -/
theorem Loop.lt_count (h : s.Loop) (hq : s.lanes q ≠ {}) : q < s.count :=
  Nat.lt_of_not_le fun hle => hq (h.fresh q hle)

/-- A change of a lane that leaves its partition and its cancellation alone keeps the invariant. -/
theorem Loop.setLane (h : s.Loop) (hq : q < s.count)
    (hpartition : lane.partition = (s.lanes q).partition)
    (hcancel : lane.cancelRequested = (s.lanes q).cancelRequested) (hitem : lane.item ≠ some none) :
    (s.setLane q lane).Loop := by
  refine ⟨h.tables, fun p q' hp => ?_, fun q' hle => ?_, fun q' => ?_, fun q' => ?_,
    fun q' hlt => ?_, h.target⟩
  · obtain ⟨hlt, hname⟩ := h.known p q' hp
    refine ⟨hlt, ?_⟩
    by_cases hqq : q' = q
    · subst hqq
      rw [setLane_self, hpartition, hname]
    · rw [setLane_of_ne hqq, hname]
  · have hne : q' ≠ q := fun heq => absurd hq (Nat.not_lt.mpr (heq ▸ hle))
    rw [setLane_of_ne hne]
    exact h.fresh q' hle
  · by_cases hqq : q' = q
    · subst hqq
      rwa [setLane_self]
    · rw [setLane_of_ne hqq]
      exact h.item q'
  · by_cases hqq : q' = q
    · subst hqq
      rw [setLane_self, hcancel, hpartition]
      exact h.cancelled q'
    · rw [setLane_of_ne hqq]
      exact h.cancelled q'
  · by_cases hqq : q' = q
    · subst hqq
      rw [setLane_self, hcancel, hpartition]
      exact h.kept q' hlt
    · rw [setLane_of_ne hqq]
      exact h.kept q' hlt

/-- Only the phase of `run` changes. -/
theorem Loop.withRun (h : s.Loop) {run : RunPhase}
    (hrun : ∀ q d, run = .putting q d → q < s.count) :
    ({ s with run := run } : Dispatcher).Loop :=
  ⟨h.tables, h.known, h.fresh, h.item, h.cancelled, h.kept, hrun⟩

/-- The lane of a partition exists afterwards, and is found under its name. -/
theorem Loop.ensureWorker (h : s.Loop) (partition : String) :
    (s.ensureWorker partition).1.Loop ∧
      (s.ensureWorker partition).1.workers partition = some (s.ensureWorker partition).2 := by
  unfold Dispatcher.ensureWorker
  split
  · rename_i q hq
    exact ⟨h, h.tables ▸ hq⟩
  · rename_i hnone
    have hcount : s.lanes s.count = {} := h.fresh s.count (Nat.le_refl _)
    have hne {p : String} {q : ℕ} (hp : s.workers p = some q) : q ≠ s.count :=
      Nat.ne_of_lt (h.known p q hp).1
    refine ⟨⟨?_, fun p q hp => ?_, fun q hle => ?_, fun q => ?_, fun q hcancel => ?_,
      fun q hlt hcancel => ?_, fun q d hrun => Nat.lt_succ_of_lt (h.target q d hrun)⟩,
      Function.update_self ..⟩
    · simp only [h.tables]
    · simp only [Dispatcher.setLane] at hp ⊢
      by_cases hpp : p = partition
      · subst hpp
        rw [Function.update_self] at hp
        cases hp
        exact ⟨Nat.lt_succ_self _, by rw [Function.update_self]⟩
      · rw [Function.update_of_ne hpp] at hp
        obtain ⟨hlt, hname⟩ := h.known p q hp
        exact ⟨Nat.lt_succ_of_lt hlt, by rw [Function.update_of_ne (hne hp), hname]⟩
    · simp only [Dispatcher.setLane] at hle ⊢
      rw [Function.update_of_ne (by omega)]
      exact h.fresh q (by omega)
    · simp only [Dispatcher.setLane]
      by_cases hqq : q = s.count
      · subst hqq
        rw [Function.update_self]
        simp
      · rw [Function.update_of_ne hqq]
        exact h.item q
    · simp only [Dispatcher.setLane] at hcancel ⊢
      have hqq : q ≠ s.count := fun heq => by
        subst heq
        rw [Function.update_self] at hcancel
        cases hcancel
      rw [Function.update_of_ne hqq] at hcancel ⊢
      intro hp
      by_cases hpp : (s.lanes q).partition = partition
      · rw [hpp, Function.update_self] at hp
        exact hqq (Option.some.inj hp).symm
      · rw [Function.update_of_ne hpp] at hp
        exact h.cancelled q hcancel hp
    · simp only [Dispatcher.setLane] at hlt hcancel ⊢
      by_cases hqq : q = s.count
      · subst hqq
        rw [Function.update_self, Function.update_self]
      · rw [Function.update_of_ne hqq] at hcancel ⊢
        have hkept := h.kept q (by omega) hcancel
        have hpp : (s.lanes q).partition ≠ partition := fun heq => by
          rw [heq, ← h.tables, hnone] at hkept
          cases hkept
        rw [Function.update_of_ne hpp, hkept]

@[simp] theorem cancelAll_partition {ws : List ℕ} :
    ((s.cancelAll ws).lanes q).partition = (s.lanes q).partition := by
  simp only [cancelAll]
  split_ifs <;> rfl

@[simp] theorem cancelAll_item {ws : List ℕ} :
    ((s.cancelAll ws).lanes q).item = (s.lanes q).item := by
  simp only [cancelAll]
  split_ifs <;> rfl

@[simp] theorem cancelAll_task {ws : List ℕ} :
    ((s.cancelAll ws).lanes q).task = (s.lanes q).task := by
  simp only [cancelAll]
  split_ifs <;> rfl

/-- A partition is out of the tables, and its worker cancelled. -/
theorem Loop.revoke (h : s.Loop) (partition : String) :
    (({ s with
      queues := Function.update s.queues partition none
      workers := Function.update s.workers partition none } : Dispatcher).cancelAll
        (s.workers partition).toList).Loop := by
  have hkept {p : String} {q : ℕ} (hp : Function.update s.workers partition none p = some q) :
      p ≠ partition ∧ s.workers p = some q := by
    by_cases hpp : p = partition
    · subst hpp
      rw [Function.update_self] at hp
      cases hp
    · exact ⟨hpp, by rwa [Function.update_of_ne hpp] at hp⟩
  refine ⟨?_, fun p q hp => ?_, fun q hle => ?_, fun q => ?_, fun q hcancel hp => ?_,
    fun q hlt hcancel => ?_, h.target⟩
  · simp only [cancelAll, h.tables]
  · rw [cancelAll_partition]
    exact h.known p q (hkept hp).2
  · have hlane : s.lanes q = {} := h.fresh q hle
    have hne : q ∉ (s.workers partition).toList := fun hmem => by
      have := (h.known _ _ (Option.mem_toList.mp hmem)).1
      exact absurd hle (Nat.not_le.mpr this)
    simp only [cancelAll, hne, if_false, hlane]
  · rw [cancelAll_item]
    exact h.item q
  · rw [cancelAll_partition] at hp
    obtain ⟨hpp, hp⟩ := hkept hp
    -- The lane is not the one that was cancelled now, since it is under another name.
    have hne : q ∉ (s.workers partition).toList := fun hmem =>
      hpp (h.known _ _ (Option.mem_toList.mp hmem)).2
    simp only [cancelAll, hne, if_false] at hcancel
    exact h.cancelled q hcancel hp
  · have hne : q ∉ (s.workers partition).toList := fun hmem => by
      simp only [cancelAll, hmem, if_true] at hcancel
      cases hcancel
    simp only [cancelAll, hne, if_false] at hcancel ⊢
    have hkept := h.kept q hlt hcancel
    have hpp : (s.lanes q).partition ≠ partition := fun heq =>
      hne (Option.mem_toList.mpr (heq ▸ hkept))
    rw [Function.update_of_ne hpp, hkept]

/-- A step that ends in the loop was made there, and keeps the invariant. -/
theorem Loop.step (hinv : s.looping = true → s.Loop) {a : DispatcherAct}
    (h : s.perform svc a = some (s', os)) (hloop : s'.looping = true) :
    s.looping = true ∧ s'.Loop := by
  cases a with
  | receive d =>
    simp only [perform] at h
    split at h
    · rename_i hrun
      have hinv := hinv (by rw [looping, hrun])
      obtain ⟨hensured, hname⟩ := hinv.ensureWorker d.partition
      have hlt := (hensured.known _ _ hname).1
      refine ⟨by rw [looping, hrun], ?_⟩
      split_ifs at h with hroom
      · cases h
        exact hensured.setLane hlt rfl rfl (by simp)
      · cases h
        refine hensured.withRun fun q d hrun => ?_
        cases hrun
        exact hlt
    · cases h
  | put =>
    simp only [perform] at h
    split at h
    · rename_i q d hrun
      have hinv := hinv (by rw [looping, hrun])
      refine ⟨by rw [looping, hrun], ?_⟩
      split_ifs at h with hroom
      cases h
      have hset : (s.setLane q { s.lanes q with item := some (some d) }).Loop :=
        hinv.setLane (hinv.target q d hrun) rfl rfl (by simp)
      exact hset.withRun fun _ _ hreading => nomatch hreading
    · cases h
  | get q =>
    simp only [perform] at h
    split at h
    · rename_i d htask hitem
      cases h
      have hinv := hinv hloop
      exact ⟨hloop, hinv.setLane (hinv.lt_count fun hlane => by simp [hlane] at hitem) rfl rfl
        (by simp)⟩
    · rename_i htask hitem
      cases h
      exact absurd hitem ((hinv hloop).item q)
    · cases h
  | acquire q =>
    simp only [perform] at h
    split at h
    · rename_i d htask
      split_ifs at h
      cases h
      have hinv := hinv hloop
      exact ⟨hloop, hinv.setLane (hinv.lt_count fun hlane => by simp [hlane] at htask) rfl rfl
        (hinv.item q)⟩
    · cases h
  | finish q | fail q =>
    simp only [perform] at h
    split at h
    · rename_i d htask
      cases h
      have hinv := hinv hloop
      exact ⟨hloop, hinv.setLane (hinv.lt_count fun hlane => by simp [hlane] at htask) rfl rfl
        (hinv.item q)⟩
    · cases h
  | cancelled q =>
    simp only [perform] at h
    split_ifs at h with hcancel
    cases h
    have hinv := hinv hloop
    exact ⟨hloop, hinv.setLane (hinv.lt_count fun hlane => by simp [hlane] at hcancel) rfl rfl
      (hinv.item q)⟩
  | revoke partition =>
    cases h
    exact ⟨hloop, (hinv hloop).revoke partition⟩
  | exhaust =>
    simp only [perform] at h
    split at h
    · split_ifs at h <;> cases h <;> cases hloop
    · cases h
  | sentinel q =>
    simp only [perform] at h
    split at h
    · split_ifs at h
      cases h
      cases hloop
    · cases h
  | gather =>
    simp only [perform] at h
    split at h
    · split_ifs at h <;> cases h <;> cases hloop
    · cases h
  | signal =>
    simp only [perform] at h
    split at h <;> cases h <;> cases hloop
  | unwound =>
    simp only [perform] at h
    split at h
    · split_ifs at h
      cases h
      cases hloop
    · cases h

/-! ### Blocked puts -/

@[simp] theorem ensureWorker_run : (s.ensureWorker partition).1.run = s.run := by
  unfold ensureWorker
  split <;> rfl

/-- A queue that is full was there before. -/
theorem ensureWorker_full
    (hfull : ((s.ensureWorker partition).1.lanes (s.ensureWorker partition).2).item ≠ none) :
    ∃ q, s.queues partition = some q ∧ s.ensureWorker partition = (s, q) := by
  unfold ensureWorker at hfull ⊢
  split at hfull
  · rename_i q hq
    exact ⟨q, hq, rfl⟩
  · simp [setLane] at hfull

/-- After a change of a lane, `run` is stuck only if it was, or if it is so on that lane. -/
theorem Stuck.of_setLane (h : (s.setLane q lane).Stuck)
    (hpartition : lane.partition = (s.lanes q).partition)
    (hlane : ∀ d, s.run = .putting q d → lane.item ≠ none → (s.lanes q).item ≠ none ∧
      (lane.task.ended = true →
        (s.lanes q).task.ended = true ∨ s.workers (s.lanes q).partition ≠ some q)) : s.Stuck := by
  obtain ⟨q', d, hrun, hitem, hworker⟩ := h
  refine ⟨q', d, hrun, ?_⟩
  by_cases hqq : q' = q
  · subst hqq
    rw [setLane_self] at hitem hworker
    obtain ⟨hfull, hended⟩ := hlane d hrun hitem
    exact ⟨hfull, hworker.elim hended fun hout => .inr (hpartition ▸ hout)⟩
  · rw [setLane_of_ne hqq] at hitem hworker
    exact ⟨hitem, hworker⟩

/-- After a revocation, `run` is stuck only if it was, or if it is blocked on the revoked queue. -/
theorem Stuck.of_revoke (h : (({ s with
      queues := Function.update s.queues partition none
      workers := Function.update s.workers partition none } : Dispatcher).cancelAll
        (s.workers partition).toList).Stuck) :
    s.Stuck ∨ ∃ q, s.workers partition = some q ∧ s.BlockedOn q := by
  obtain ⟨q, d, hrun, hitem, hworker⟩ := h
  rw [cancelAll_item] at hitem
  rw [cancelAll_task, cancelAll_partition] at hworker
  by_cases hout : s.workers (s.lanes q).partition = some q
  · rcases hworker with hended | hworker
    · exact .inl ⟨q, d, hrun, hitem, .inl hended⟩
    · -- It is out of the table now, so it is the revoked one.
      refine .inr ⟨q, ?_, d, hrun, hitem⟩
      have hname : (s.lanes q).partition = partition := by
        by_contra hne
        exact hworker ((Function.update_of_ne hne ..).trans hout)
      rw [← hname, hout]
  · exact .inl ⟨q, d, hrun, hitem, .inr hout⟩

/-- A step does not get `run` stuck exactly when it leaves it unblocked. -/
theorem step_unstuck_iff (hinv : s.looping = true → s.Loop) (hs : ¬ s.Stuck) {a : DispatcherAct}
    (h : s.perform svc a = some (s', os)) : s.Unblocks a ↔ ¬ s'.Stuck := by
  cases a with
  | receive d =>
    simp only [perform] at h
    split at h
    · rename_i hrun
      have hinv := hinv (by rw [looping, hrun])
      split_ifs at h with hroom
      · cases h
        refine iff_of_true (fun q hq hfull => ?_) ?_
        · rw [ensureWorker, hq] at hroom
          exact absurd hroom hfull
        · rintro ⟨_, _, hputting, _⟩
          have hreading : (s.ensureWorker d.partition).1.run = .reading := by
            rw [ensureWorker_run, hrun]
          cases hreading.symm.trans hputting
      · cases h
        obtain ⟨q, hq, hensured⟩ := ensureWorker_full hroom
        rw [hensured] at hroom ⊢
        have hworker : s.workers d.partition = some q := hinv.tables ▸ hq
        have hname : (s.lanes q).partition = d.partition := (hinv.known _ _ hworker).2
        constructor
        · rintro hproceeds ⟨_, _, hputting, hfull, hended | hout⟩
          · cases hputting
            rw [hproceeds q hq hfull] at hended
            cases hended
          · cases hputting
            exact hout (hname ▸ hworker)
        · intro hstuck q' hq' hfull
          cases hq.symm.trans hq'
          by_contra hended
          exact hstuck ⟨q, d, rfl, hfull, .inl (by simpa using hended)⟩
    · cases h
  | put =>
    simp only [perform] at h
    split at h
    · split_ifs at h
      cases h
      exact iff_of_true trivial fun ⟨_, _, hrun, _⟩ => nomatch hrun
    · cases h
  | get q =>
    refine iff_of_true trivial fun hstuck => hs ?_
    simp only [perform] at h
    split at h
    · cases h
      exact hstuck.of_setLane rfl fun _ _ hitem => absurd rfl hitem
    · cases h
      exact hstuck.of_setLane rfl fun _ _ hitem => absurd rfl hitem
    · cases h
  | acquire q =>
    refine iff_of_true trivial fun hstuck => hs ?_
    simp only [perform] at h
    split at h
    · split_ifs at h
      cases h
      exact hstuck.of_setLane rfl fun _ _ hitem => ⟨hitem, by simp [WorkerTask.ended]⟩
    · cases h
  | finish q =>
    refine iff_of_true trivial fun hstuck => hs ?_
    simp only [perform] at h
    split at h
    · cases h
      exact hstuck.of_setLane rfl fun _ _ hitem => ⟨hitem, by simp [WorkerTask.ended]⟩
    · cases h
  | fail q =>
    simp only [perform] at h
    split at h
    · cases h
      constructor
      · intro hproceeds hstuck
        exact hs (hstuck.of_setLane rfl fun d hrun hitem => absurd ⟨d, hrun, hitem⟩ hproceeds)
      · rintro hstuck ⟨d, hrun, hfull⟩
        exact hstuck ⟨q, d, hrun, by simpa using hfull, .inl (by simp [WorkerTask.ended])⟩
    · cases h
  | cancelled q =>
    refine iff_of_true trivial fun hstuck => hs ?_
    simp only [perform] at h
    split_ifs at h with hcancel
    cases h
    -- A worker whose cancellation was requested is out of the table.
    refine hstuck.of_setLane rfl fun d hrun hitem => ⟨hitem, fun _ => .inr ?_⟩
    rw [Bool.and_eq_true] at hcancel
    exact (hinv (by rw [looping, hrun])).cancelled q hcancel.1
  | revoke partition =>
    cases h
    constructor
    · intro hproceeds hstuck
      rcases hstuck.of_revoke with hbefore | ⟨q, hq, hblocked⟩
      · exact hs hbefore
      · exact hproceeds q hq hblocked
    · rintro hstuck q hq ⟨d, hrun, hfull⟩
      have hname := ((hinv (by rw [looping, hrun])).known _ _ hq).2
      refine hstuck ⟨q, d, hrun, by rwa [cancelAll_item], .inr ?_⟩
      rw [cancelAll_partition, hname]
      simp [cancelAll]
  | exhaust =>
    simp only [perform] at h
    split at h
    · split_ifs at h <;> cases h <;>
        exact iff_of_true trivial fun ⟨_, _, hrun, _⟩ => nomatch hrun
    · cases h
  | sentinel q =>
    simp only [perform] at h
    split at h
    · split_ifs at h
      cases h
      exact iff_of_true trivial fun ⟨_, _, hrun, _⟩ => nomatch hrun
    · cases h
  | gather =>
    simp only [perform] at h
    split at h
    · split_ifs at h <;> cases h <;>
        exact iff_of_true trivial fun ⟨_, _, hrun, _⟩ => nomatch hrun
    · cases h
  | signal =>
    simp only [perform] at h
    split at h <;> cases h <;>
      exact iff_of_true trivial fun ⟨_, _, hrun, _⟩ => nomatch hrun
  | unwound =>
    simp only [perform] at h
    split at h
    · split_ifs at h
      cases h
      exact iff_of_true trivial fun ⟨_, _, hrun, _⟩ => nomatch hrun
    · cases h

/-! ### After the loop -/

/-- When `run` has left its loop, the table is empty. While it drains, it waits for the workers that
were not cancelled; while it stops, for workers that are; and when it has returned, the workers that
were not cancelled have returned. -/
structure Closed (s : Dispatcher) : Prop where
  workers : ∀ p, s.workers p = none
  fresh : ∀ q, s.count ≤ q → s.lanes q = {}
  draining : ∀ ws sentinels, s.run = .draining ws sentinels →
    ∀ q, q ∈ ws ↔ q < s.count ∧ (s.lanes q).cancelRequested = false
  sentinels : ∀ ws sentinels, s.run = .draining ws sentinels → ∀ q ∈ sentinels, q < s.count
  stopping : ∀ ws, s.run = .stopping ws → ∀ q ∈ ws, (s.lanes q).cancelRequested = true
  returned : s.run = .returned → ∀ q, q < s.count → (s.lanes q).cancelRequested = false →
    (s.lanes q).task = .returned

theorem Closed.lt_count (h : s.Closed) (hq : s.lanes q ≠ {}) : q < s.count :=
  Nat.lt_of_not_le fun hle => hq (h.fresh q hle)

/-- A change of a lane that leaves its cancellation alone, and does not undo its return. -/
theorem Closed.setLane (h : s.Closed) (hq : q < s.count)
    (hcancel : lane.cancelRequested = (s.lanes q).cancelRequested)
    (htask : (s.lanes q).task ≠ .returned ∨ lane.task = .returned) :
    (s.setLane q lane).Closed := by
  have hrequested (q' : ℕ) :
      ((s.setLane q lane).lanes q').cancelRequested = (s.lanes q').cancelRequested := by
    by_cases hqq : q' = q
    · subst hqq
      rw [setLane_self, hcancel]
    · rw [setLane_of_ne hqq]
  refine ⟨h.workers, fun q' hle => ?_, fun ws sentinels hrun q' => ?_, h.sentinels,
    fun ws hrun q' hmem => ?_, fun hrun q' hlt hnot => ?_⟩
  · have hqq : q' ≠ q := fun heq => absurd hq (Nat.not_lt.mpr (heq ▸ hle))
    rw [setLane_of_ne hqq]
    exact h.fresh q' hle
  · rw [hrequested]
    exact h.draining ws sentinels hrun q'
  · rw [hrequested]
    exact h.stopping ws hrun q' hmem
  · rw [hrequested] at hnot
    have hreturned := h.returned hrun q' hlt hnot
    by_cases hqq : q' = q
    · subst hqq
      rw [setLane_self]
      exact htask.resolve_left (not_not.mpr hreturned)
    · rwa [setLane_of_ne hqq]

/-- `run` cancels the workers that it waits for, to raise then. -/
theorem Closed.stop {ws : List ℕ} (hfresh : ∀ q, s.count ≤ q → s.lanes q = {})
    (hws : ∀ q ∈ ws, q < s.count) (queues : String → Option ℕ) :
    ({ s.cancelAll ws with
        queues := queues, workers := fun _ => none, run := .stopping ws } : Dispatcher).Closed := by
  refine ⟨fun _ => rfl, fun q hle => ?_, nofun, nofun, fun ws' hrun q hmem => ?_, nofun⟩
  · have hne : q ∉ ws := fun hmem => absurd hle (Nat.not_le.mpr (hws q hmem))
    simp only [cancelAll, hne, if_false]
    exact hfresh q hle
  · cases hrun
    simp only [cancelAll, hmem, if_true]

/-- The workers in the table are the workers that were not cancelled. -/
theorem Loop.mem_tableValues (h : s.Loop) :
    q ∈ s.tableValues s.workers ↔ q < s.count ∧ (s.lanes q).cancelRequested = false := by
  rw [tableValues, List.mem_filter, List.mem_range, decide_eq_true_eq]
  refine and_congr_right fun hlt => ⟨fun hworker => ?_, h.kept q hlt⟩
  by_contra hcancelled
  exact h.cancelled q (Bool.not_eq_false _ ▸ hcancelled) hworker

/-- A step that ends outside the loop keeps what holds there. -/
theorem Closed.step (hinv : s.looping = true → s.Loop) (hclosed : s.looping = false → s.Closed)
    {a : DispatcherAct} (h : s.perform svc a = some (s', os)) (hnot : s'.looping = false) :
    s'.Closed := by
  cases a with
  | receive d =>
    simp only [perform] at h
    split at h
    · rename_i hrun
      split_ifs at h <;> cases h
      · rw [looping, show ((s.ensureWorker d.partition).1.setLane _ _).run = _ from
          ensureWorker_run.trans hrun] at hnot
        cases hnot
      · cases hnot
    · cases h
  | put =>
    simp only [perform] at h
    split at h
    · split_ifs at h
      cases h
      cases hnot
    · cases h
  | get q =>
    simp only [perform] at h
    split at h
    · rename_i htask hitem
      cases h
      have hc := hclosed hnot
      exact hc.setLane (hc.lt_count fun hlane => by simp [hlane] at hitem) rfl
        (.inl (by simp [htask]))
    · rename_i htask hitem
      cases h
      have hc := hclosed hnot
      exact hc.setLane (hc.lt_count fun hlane => by simp [hlane] at hitem) rfl
        (.inl (by simp [htask]))
    · cases h
  | acquire q =>
    simp only [perform] at h
    split at h
    · rename_i htask
      split_ifs at h
      cases h
      have hc := hclosed hnot
      exact hc.setLane (hc.lt_count fun hlane => by simp [hlane] at htask) rfl
        (.inl (by simp [htask]))
    · cases h
  | finish q | fail q =>
    simp only [perform] at h
    split at h
    · rename_i htask
      cases h
      have hc := hclosed hnot
      exact hc.setLane (hc.lt_count fun hlane => by simp [hlane] at htask) rfl
        (.inl (by simp [htask]))
    · cases h
  | cancelled q =>
    simp only [perform] at h
    split_ifs at h with hcancel
    cases h
    rw [Bool.and_eq_true] at hcancel
    have hc := hclosed hnot
    refine hc.setLane (hc.lt_count fun hlane => by simp [hlane] at hcancel) rfl
      (.inl fun htask => ?_)
    simp [htask, WorkerTask.ended] at hcancel
  | revoke partition =>
    cases h
    have hc := hclosed hnot
    have hnone : s.workers partition = none := hc.workers partition
    rw [hnone]
    refine ⟨fun p => ?_, hc.fresh, hc.draining, hc.sentinels, hc.stopping, hc.returned⟩
    by_cases hpp : p = partition
    · subst hpp
      exact Function.update_self ..
    · exact (Function.update_of_ne hpp ..).trans (hc.workers p)
  | exhaust =>
    simp only [perform] at h
    split at h
    · rename_i hrun
      have hloop := hinv (by rw [looping, hrun])
      split_ifs at h with hnone
      · cases h
        refine ⟨fun _ => rfl, hloop.fresh, nofun, nofun, nofun, fun _ q hlt hkept => ?_⟩
        have hmem : q ∈ s.tableValues s.workers := hloop.mem_tableValues.mpr ⟨hlt, hkept⟩
        simp [hnone] at hmem
      · cases h
        refine ⟨fun _ => rfl, hloop.fresh, fun ws sentinels hdraining q => ?_,
          fun ws sentinels hdraining q hmem => ?_, nofun, nofun⟩
        · cases hdraining
          exact hloop.mem_tableValues
        · cases hdraining
          exact List.mem_range.mp (List.mem_filter.mp hmem).1
    · cases h
  | sentinel q =>
    simp only [perform] at h
    split at h
    · rename_i ws sentinels hrun
      split_ifs at h with hroom
      cases h
      have hc := hclosed (by rw [looping, hrun])
      have hset : (s.setLane q { s.lanes q with item := some none }).Closed :=
        hc.setLane (hc.sentinels ws sentinels hrun q hroom.1) rfl (Decidable.not_or_of_imp id)
      refine ⟨hset.workers, hset.fresh, fun ws' sentinels' hdraining => ?_,
        fun ws' sentinels' hdraining q' hmem => ?_, nofun, nofun⟩
      · cases hdraining
        exact hset.draining ws sentinels hrun
      · cases hdraining
        exact hc.sentinels ws sentinels hrun q' (List.mem_of_mem_erase hmem)
    · cases h
  | gather =>
    simp only [perform] at h
    split at h
    · rename_i ws sentinels hrun
      have hc := hclosed (by rw [looping, hrun])
      have hws := hc.draining ws sentinels hrun
      split_ifs at h with hfailed hended
      · cases h
        have hstop := Closed.stop hc.fresh (fun q hq => ((hws q).mp hq).1) s.queues
        have htable : s.workers = fun _ => none := funext hc.workers
        rwa [← htable] at hstop
      · cases h
        refine ⟨hc.workers, hc.fresh, nofun, nofun, nofun, fun _ q hlt hkept => ?_⟩
        have hmem : q ∈ ws := (hws q).mpr ⟨hlt, hkept⟩
        have htask := List.all_eq_true.mp hended q hmem
        have hother : ¬ ((s.lanes q).task = .failed ∨ (s.lanes q).task = .cancelled) := fun hor =>
          hfailed (List.any_eq_true.mpr ⟨q, hmem, by simpa using hor⟩)
        cases hcase : (s.lanes q).task <;> simp_all [WorkerTask.ended]
    · cases h
  | signal =>
    simp only [perform] at h
    have habort (hloop : s.Loop) : s.abort.Closed :=
      .stop hloop.fresh (fun q hq => (hloop.mem_tableValues.mp hq).1) _
    split at h
    · rename_i hrun
      cases h
      exact habort (hinv (by rw [looping, hrun]))
    · rename_i hrun
      cases h
      exact habort (hinv (by rw [looping, hrun]))
    · rename_i ws sentinels hrun
      cases h
      have hc := hclosed (by rw [looping, hrun])
      have hstop := Closed.stop hc.fresh
        (fun q hq => ((hc.draining ws sentinels hrun q).mp hq).1) s.queues
      have htable : s.workers = fun _ => none := funext hc.workers
      rwa [← htable] at hstop
    · cases h
  | unwound =>
    simp only [perform] at h
    split at h
    · rename_i ws hrun
      split_ifs at h
      cases h
      have hc := hclosed (by rw [looping, hrun])
      exact ⟨hc.workers, hc.fresh, nofun, nofun, nofun, nofun⟩
    · cases h

/-! ### Failures that are waited for -/

theorem ensureWorker_lane (partition : String) (q : ℕ) :
    (s.ensureWorker partition).1.lanes q = s.lanes q ∨
      (s.ensureWorker partition).1.lanes q = { partition := partition } := by
  unfold ensureWorker
  split
  · exact .inl rfl
  · by_cases hqq : q = s.count
    · subst hqq
      exact .inr setLane_self
    · exact .inl (setLane_of_ne hqq)

/-- What a step may do to a lane: only `process` makes its worker fail, and only a revocation
requests its cancellation, unless `run` is going to raise. -/
structure LaneStep (s : Dispatcher) (a : DispatcherAct) (s' : Dispatcher) (q : ℕ) : Prop where
  failed : (s'.lanes q).task = .failed → (s.lanes q).task = .failed ∨ a = .fail q
  cancelled : (s'.lanes q).cancelRequested = true → (s.lanes q).cancelRequested = true ∨
    s'.raising = true ∨ ∃ p, a = .revoke p ∧ s.workers p = some q

theorem perform_lane {a : DispatcherAct} (h : s.perform svc a = some (s', os)) (q : ℕ) :
    LaneStep s a s' q := by
  have hset {t : Dispatcher} {q' : ℕ} {lane : Lane} (hlanes : s'.lanes = (t.setLane q' lane).lanes)
      (ht : t.lanes q = s.lanes q ∨ ∃ partition, t.lanes q = { partition := partition })
      (hcancel : lane.cancelRequested = (t.lanes q').cancelRequested)
      (htask : lane.task = .failed → (t.lanes q').task = .failed ∨ a = .fail q') :
      LaneStep s a s' q := by
    by_cases hqq : q = q'
    · subst hqq
      have hlane : s'.lanes q = lane := by rw [hlanes, setLane_self]
      rcases ht with ht | ⟨partition, ht⟩
      · rw [ht] at hcancel htask
        exact ⟨by rwa [hlane], by rw [hlane, hcancel]; exact .inl⟩
      · rw [ht] at hcancel htask
        refine ⟨fun hfailed => .inr ((htask (hlane ▸ hfailed)).resolve_left nofun), ?_⟩
        rw [hlane, hcancel]
        exact nofun
    · have hlane : s'.lanes q = t.lanes q := by rw [hlanes, setLane_of_ne hqq]
      rcases ht with ht | ⟨partition, ht⟩
      · rw [ht] at hlane
        exact ⟨by rw [hlane]; exact .inl, by rw [hlane]; exact .inl⟩
      · rw [ht] at hlane
        exact ⟨by rw [hlane]; exact nofun, by rw [hlane]; exact nofun⟩
  have hraises (htask : (s'.lanes q).task = (s.lanes q).task) (hraising : s'.raising = true) :
      LaneStep s a s' q :=
    ⟨fun hfailed => .inl (htask ▸ hfailed), fun _ => .inr (.inl hraising)⟩
  cases a with
  | receive d =>
    have hensured : (s.ensureWorker d.partition).1.lanes q = s.lanes q ∨
        ∃ partition, (s.ensureWorker d.partition).1.lanes q = { partition := partition } :=
      (ensureWorker_lane d.partition q).imp_right fun hnew => ⟨_, hnew⟩
    simp only [perform] at h
    split at h
    · split_ifs at h
      · cases h
        exact hset rfl hensured rfl .inl
      · cases h
        rcases hensured with hsame | ⟨partition, hnew⟩
        · exact ⟨fun hfailed => .inl (hsame ▸ hfailed), fun hcancel => .inl (hsame ▸ hcancel)⟩
        · exact ⟨by simp only [hnew]; exact nofun, by simp only [hnew]; exact nofun⟩
    · cases h
  | put =>
    simp only [perform] at h
    split at h
    · split_ifs at h
      cases h
      exact hset rfl (.inl rfl) rfl .inl
    · cases h
  | get q' =>
    simp only [perform] at h
    split at h <;> cases h <;> exact hset rfl (.inl rfl) rfl nofun
  | acquire q' =>
    simp only [perform] at h
    split at h
    · split_ifs at h
      cases h
      exact hset rfl (.inl rfl) rfl nofun
    · cases h
  | finish q' =>
    simp only [perform] at h
    split at h <;> cases h
    exact hset rfl (.inl rfl) rfl nofun
  | fail q' =>
    simp only [perform] at h
    split at h <;> cases h
    exact hset rfl (.inl rfl) rfl fun _ => .inr rfl
  | cancelled q' =>
    simp only [perform] at h
    split_ifs at h
    cases h
    exact hset rfl (.inl rfl) rfl nofun
  | revoke p =>
    cases h
    refine ⟨fun hfailed => .inl (by rwa [cancelAll_task] at hfailed), fun hcancel => ?_⟩
    by_cases hmem : q ∈ (s.workers p).toList
    · exact .inr (.inr ⟨p, rfl, Option.mem_toList.mp hmem⟩)
    · simp only [cancelAll, hmem, if_false] at hcancel
      exact .inl hcancel
  | exhaust =>
    simp only [perform] at h
    split at h
    · split_ifs at h <;> cases h <;> exact ⟨.inl, .inl⟩
    · cases h
  | sentinel q' =>
    simp only [perform] at h
    split at h
    · split_ifs at h
      cases h
      exact hset rfl (.inl rfl) rfl .inl
    · cases h
  | gather =>
    simp only [perform] at h
    split at h
    · split_ifs at h
      · cases h
        exact hraises cancelAll_task rfl
      · cases h
        exact ⟨.inl, .inl⟩
    · cases h
  | signal =>
    simp only [perform] at h
    split at h
    · cases h
      exact hraises cancelAll_task rfl
    · cases h
      exact hraises cancelAll_task rfl
    · cases h
      exact hraises cancelAll_task rfl
    · cases h
  | unwound =>
    simp only [perform] at h
    split at h
    · split_ifs at h
      cases h
      exact ⟨.inl, .inl⟩
    · cases h

/-- Once `run` is going to raise, it is. -/
theorem perform_raising {a : DispatcherAct} (h : s.perform svc a = some (s', os))
    (hraising : s.raising = true) : s'.raising = true := by
  have hrun : (∃ ws, s.run = .stopping ws) ∨ s.run = .raised := by
    unfold raising at hraising
    cases hrun : s.run <;> simp_all
  have hsame (heq : s'.run = s.run) : s'.raising = true := by
    rw [raising, heq]
    exact hraising
  cases a with
  | receive | put | exhaust | sentinel | gather | signal =>
    rcases hrun with ⟨ws, hrun⟩ | hrun <;> simp [perform, hrun] at h
  | get q | finish q | fail q =>
    simp only [perform] at h
    split at h <;> cases h <;> exact hsame rfl
  | acquire q =>
    simp only [perform] at h
    split at h
    · split_ifs at h
      cases h
      exact hsame rfl
    · cases h
  | cancelled q =>
    simp only [perform] at h
    split_ifs at h
    cases h
    exact hsame rfl
  | revoke p =>
    cases h
    exact hsame rfl
  | unwound =>
    simp only [perform] at h
    split at h
    · split_ifs at h
      cases h
      rfl
    · cases h

/-- What holds in every state: the invariant of the loop, or that of what comes after it. -/
structure Attended (s : Dispatcher) : Prop where
  loop : s.looping = true → s.Loop
  closed : s.looping = false → s.Closed

theorem Attended.step (h : s.Attended) {a : DispatcherAct}
    (hstep : s.perform svc a = some (s', os)) : s'.Attended :=
  ⟨fun hloop => (Loop.step h.loop hstep hloop).2, fun hnot => .step h.loop h.closed hstep hnot⟩

theorem Attended.lt_count (h : s.Attended) (hq : s.lanes q ≠ {}) : q < s.count := by
  cases hloop : s.looping with
  | true => exact (h.loop hloop).lt_count hq
  | false => exact (h.closed hloop).lt_count hq

/-- `run` waits for a worker that has failed, unless it was cancelled and `run` does not raise. -/
theorem Attended.awaits_iff (h : s.Attended) (hfailed : (s.lanes q).task = .failed) :
    s.Awaits q ↔ ((s.lanes q).cancelRequested = true → s.raising = true) := by
  have hlt : q < s.count := h.lt_count fun hlane => by simp [hlane] at hfailed
  have hloop (hloop : s.Loop) :
      s.workers (s.lanes q).partition = some q ↔ ¬ (s.lanes q).cancelRequested = true :=
    ⟨fun hworker hcancel => hloop.cancelled q hcancel hworker,
      fun hnot => hloop.kept q hlt (Bool.not_eq_true _ ▸ hnot)⟩
  unfold Awaits raising
  cases hrun : s.run with
  | reading | putting => simpa using hloop (h.loop (by rw [looping, hrun]))
  | draining ws sentinels =>
    have hc := h.closed (by rw [looping, hrun])
    simpa [hlt] using hc.draining ws sentinels hrun q
  | stopping | raised => simp
  | returned =>
    have hc := h.closed (by rw [looping, hrun])
    simp only [false_iff]
    intro hcancel
    cases hrequested : (s.lanes q).cancelRequested with
    | true => exact absurd (hcancel hrequested) (by simp)
    | false => simp [hc.returned hrun q hlt hrequested] at hfailed

/-- `run` waits for every worker that has failed. -/
def AwaitsFailed (s : Dispatcher) : Prop := ∀ q, (s.lanes q).task = .failed → s.Awaits q

/-- A step leaves no failed worker alone exactly when it hides no failure. -/
theorem step_awaitsFailed_iff (hinv : s.Attended) (hs : s.AwaitsFailed) {a : DispatcherAct}
    (h : s.perform svc a = some (s', os)) : s.Shows a ↔ s'.AwaitsFailed := by
  have hinv' := hinv.step h
  constructor
  · intro hshows q hfailed
    rw [hinv'.awaits_iff hfailed]
    intro hcancel
    have hlane := perform_lane h q
    have hwaited (hfailed : (s.lanes q).task = .failed) :
        (s.lanes q).cancelRequested = true → s.raising = true :=
      (hinv.awaits_iff hfailed).mp (hs q hfailed)
    rcases hlane.cancelled hcancel with hcancelled | hraising | ⟨p, rfl, hworker⟩
    · rcases hlane.failed hfailed with hfailed | rfl
      · exact perform_raising h (hwaited hfailed hcancelled)
      · exact perform_raising h (hshows hcancelled)
    · exact hraising
    · exact absurd ((hlane.failed hfailed).resolve_right nofun) (hshows q hworker)
  · intro hall
    cases a with
    | fail q =>
      intro hcancel
      simp only [perform] at h
      split at h <;> cases h
      have hawaits := hall q (by rw [setLane_self])
      exact (hinv'.awaits_iff (by rw [setLane_self])).mp hawaits (by rwa [setLane_self])
    | revoke p =>
      intro q hworker hfailed
      cases h
      have hsame : ((s.cancelAll (s.workers p).toList).lanes q).task = (s.lanes q).task :=
        cancelAll_task
      have hfailed' := hsame.trans hfailed
      have hraising := (hinv'.awaits_iff hfailed').mp (hall q hfailed')
        (by simp [cancelAll, hworker])
      have hnot : s.looping = false := by
        unfold looping
        unfold raising at hraising
        cases hrun : s.run <;> simp_all [cancelAll]
      rw [(hinv.closed hnot).workers] at hworker
      cases hworker
    | _ => trivial

/-! ### Failures that surface -/

/-- The steps that nobody has to stop `run` for, without a further failure or a revocation. -/
def unaided (svc : EffectorService) : Machine Dispatcher DispatcherAct RunOutcome :=
  (machine svc).guarded fun _ a => a ≠ .signal ∧ (∀ q, a ≠ .fail q) ∧ ∀ p, a ≠ .revoke p

/-- A failure can surface: `run` has raised, or can get there by itself. -/
def Surfaces (svc : EffectorService) (s : Dispatcher) : Prop :=
  s.run = .raised ∨ ∃ acts s', (unaided svc).Run s acts [.raised] s'

/-- The table is as it was, and the workers that failed are as they were. -/
structure Keeps (s s' : Dispatcher) : Prop where
  workers : s'.workers = s.workers
  failed : ∀ q, (s.lanes q).task = .failed → (s'.lanes q).task = .failed

theorem Keeps.refl : Keeps s s := ⟨rfl, fun _ => id⟩

theorem Keeps.trans {s'' : Dispatcher} (h : Keeps s s') (h' : Keeps s' s'') : Keeps s s'' :=
  ⟨h'.workers.trans h.workers, fun q hq => h'.failed q (h.failed q hq)⟩

theorem keeps_setLane (h : (s.lanes q).task ≠ .failed) : Keeps s (s.setLane q lane) := by
  refine ⟨rfl, fun q' hq => ?_⟩
  have hne : q' ≠ q := fun heq => h (heq ▸ hq)
  rwa [setLane_of_ne hne]

/-- A worker that leaves `process` hands back its permit. -/
theorem processing_lt (hq : q < s.count) (hbusy : (s.lanes q).task.isProcessing = true)
    (hlane : lane.task.isProcessing = false) : (s.setLane q lane).processing < s.processing := by
  refine Finset.card_lt_card (Finset.ssubset_iff_of_subset ?_ |>.mpr ⟨q, ?_, ?_⟩)
  · intro q' hq'
    rw [Finset.mem_filter] at hq' ⊢
    have hne : q' ≠ q := fun heq => by
      subst heq
      rw [setLane_self, hlane] at hq'
      exact absurd hq'.2 (by simp)
    rw [setLane_of_ne hne] at hq'
    exact hq'
  · exact Finset.mem_filter.mpr ⟨Finset.mem_range.mpr hq, hbusy⟩
  · rw [Finset.mem_filter, setLane_self, hlane]
    simp

/-! The steps of a worker on its way back to its queue, and of `run`. -/

theorem finish_step (svc : EffectorService) {d : Delivered} (h : (s.lanes q).task = .processing d) :
    (unaided svc).step s (.finish q)
      (s.setLane q { s.lanes q with task := .waiting }) [] :=
  ⟨by simp, by simp [machine, perform, h]⟩

theorem acquire_step (svc : EffectorService) {d : Delivered} (h : (s.lanes q).task = .acquiring d)
    (hfree : s.processing < svc.maxConcurrentPartitions) :
    (unaided svc).step s (.acquire q)
      (s.setLane q { s.lanes q with task := .processing d }) [] :=
  ⟨by simp, by simp [machine, perform, h, hfree]⟩

theorem get_step (svc : EffectorService) {d : Delivered} (h : (s.lanes q).task = .waiting)
    (hitem : (s.lanes q).item = some (some d)) :
    (unaided svc).step s (.get q)
      (s.setLane q { s.lanes q with item := none, task := .acquiring d }) [] :=
  ⟨by simp, by simp [machine, perform, h, hitem]⟩

theorem put_step (svc : EffectorService) {d : Delivered} (h : s.run = .putting q d)
    (hroom : (s.lanes q).item = none) :
    (unaided svc).step s .put
      { s.setLane q { s.lanes q with item := some (some d) } with run := .reading } [] :=
  ⟨by simp, by simp [machine, perform, h, hroom]⟩

/-- A permit can become free, with the queues and the other workers as they are. -/
theorem exists_permit (svc : EffectorService) (s : Dispatcher) :
    ∃ acts s', (unaided svc).Run s acts [] s' ∧ s'.processing < svc.maxConcurrentPartitions ∧
      Keeps s s' ∧ s'.run = s.run ∧ (∀ q, (s'.lanes q).item = (s.lanes q).item) ∧
      ∀ q, (s.lanes q).task.isProcessing = false → (s'.lanes q).task = (s.lanes q).task := by
  induction hcount : s.processing using Nat.strong_induction_on generalizing s with
  | _ k ih =>
    by_cases hfree : s.processing < svc.maxConcurrentPartitions
    · exact ⟨[], s, .refl, hfree, .refl, rfl, fun _ => rfl, fun _ _ => rfl⟩
    · -- All permits are taken, so there is a worker that can hand back one.
      have hbusy : 0 < s.processing := by
        have := svc.maxConcurrentPartitions_pos
        omega
      obtain ⟨q, hq⟩ := Finset.card_pos.mp hbusy
      rw [Finset.mem_filter, Finset.mem_range] at hq
      obtain ⟨hlt, hprocessing⟩ := hq
      obtain ⟨d, htask⟩ : ∃ d, (s.lanes q).task = .processing d := by
        cases htask : (s.lanes q).task <;> simp_all [WorkerTask.isProcessing]
      have hless : (s.setLane q { s.lanes q with task := .waiting }).processing < s.processing :=
        processing_lt hlt hprocessing rfl
      obtain ⟨acts, s', hrun, hpermit, hkeeps, hphase, hitems, htasks⟩ :=
        ih _ (hcount ▸ hless) _ rfl
      refine ⟨.finish q :: acts, s', ?_, hpermit, (keeps_setLane (by simp [htask])).trans hkeeps,
        hphase, fun q' => ?_, fun q' hq' => ?_⟩
      · exact (Machine.Run.single (finish_step svc htask)).append hrun
      · rw [hitems]
        by_cases hqq : q' = q
        · subst hqq
          rw [setLane_self]
        · rw [setLane_of_ne hqq]
      · have hqq : q' ≠ q := fun heq => by
          subst heq
          rw [hprocessing] at hq'
          cases hq'
        have hsame : (s.setLane q { s.lanes q with task := .waiting }).lanes q' = s.lanes q' :=
          setLane_of_ne hqq
        rw [htasks q' (hsame ▸ hq'), hsame]

/-- A worker at its full queue takes the item, and `run` goes on. -/
theorem unblock_waiting (svc : EffectorService) {d : Delivered} (hrun : s.run = .putting q d)
    (htask : (s.lanes q).task = .waiting) {x : Delivered}
    (hitem : (s.lanes q).item = some (some x)) :
    ∃ acts s', (unaided svc).Run s acts [] s' ∧ s'.run = .reading ∧ Keeps s s' := by
  let s₁ := s.setLane q { s.lanes q with item := none, task := .acquiring x }
  have hrun₁ : s₁.run = .putting q d := hrun
  have hroom : (s₁.lanes q).item = none := by simp [s₁]
  refine ⟨_, _, (Machine.Run.single (get_step svc htask hitem)).append
    (.single (put_step svc hrun₁ hroom)), rfl, ?_⟩
  have hgot : Keeps s s₁ := keeps_setLane (by simp [htask])
  exact hgot.trans ⟨rfl, (keeps_setLane (by simp [s₁])).failed⟩

/-- A worker in `process` gets back to its full queue. -/
theorem unblock_processing (svc : EffectorService) {d : Delivered} (hrun : s.run = .putting q d)
    {d' : Delivered}
    (htask : (s.lanes q).task = .processing d') {x : Delivered}
    (hitem : (s.lanes q).item = some (some x)) :
    ∃ acts s', (unaided svc).Run s acts [] s' ∧ s'.run = .reading ∧ Keeps s s' := by
  let s₁ := s.setLane q { s.lanes q with task := .waiting }
  have hrun₁ : s₁.run = .putting q d := hrun
  obtain ⟨acts, s', hrest, hreading, hkeeps⟩ :=
    unblock_waiting svc hrun₁ (by simp [s₁]) (by simpa [s₁] using hitem)
  have hfinished : Keeps s s₁ := keeps_setLane (by simp [htask])
  exact ⟨_, s', (Machine.Run.single (finish_step svc htask)).append hrest, hreading,
    hfinished.trans hkeeps⟩

/-- **A put that is not stuck can go through**: the worker gets back to its queue. -/
theorem exists_unblocked (svc : EffectorService) (hinv : s.Loop) (hloop : s.looping = true)
    (hs : ¬ s.Stuck) :
    ∃ acts s', (unaided svc).Run s acts [] s' ∧ s'.run = .reading ∧ Keeps s s' := by
  cases hrun : s.run with
  | reading => exact ⟨[], s, .refl, hrun, .refl⟩
  | putting q d =>
    cases hitem : (s.lanes q).item with
    | none => exact ⟨_, _, .single (put_step svc hrun hitem), rfl, ⟨rfl, fun q' hq' => by
        by_cases hqq : q' = q
        · subst hqq
          simpa using hq'
        · simpa [setLane_of_ne hqq] using hq'⟩⟩
    | some item =>
      obtain ⟨x, rfl⟩ : ∃ x, item = some x := by
        cases item with
        | none => exact absurd hitem (hinv.item q)
        | some x => exact ⟨x, rfl⟩
      have halive : (s.lanes q).task.ended = false := by
        by_contra hended
        exact hs ⟨q, d, hrun, by simp [hitem], .inl (by simpa using hended)⟩
      cases htask : (s.lanes q).task with
      | waiting => exact unblock_waiting svc hrun htask hitem
      | processing d' => exact unblock_processing svc hrun htask hitem
      | acquiring d' =>
        obtain ⟨acts, s₁, hpermit, hfree, hkeeps, hphase, hitems, htasks⟩ := exists_permit svc s
        have htask₁ : (s₁.lanes q).task = .acquiring d' := by
          rw [htasks q (by rw [htask]; rfl), htask]
        let s₂ := s₁.setLane q { s₁.lanes q with task := .processing d' }
        have hrun₂ : s₂.run = .putting q d := hphase.trans hrun
        have htask₂ : (s₂.lanes q).task = .processing d' := by simp [s₂]
        have hitem₂ : (s₂.lanes q).item = some (some x) := by
          simpa [s₂] using (hitems q).trans hitem
        obtain ⟨acts', s', hrest, hreading, hkeeps'⟩ := unblock_processing svc hrun₂ htask₂ hitem₂
        have hacquired : Keeps s₁ s₂ := keeps_setLane (by simp [htask₁])
        exact ⟨_, s', (hpermit.append (.single (acquire_step svc htask₁ hfree))).append hrest,
          hreading, (hkeeps.trans hacquired).trans hkeeps'⟩
      | returned | failed | cancelled => simp [htask, WorkerTask.ended] at halive
  | _ => simp [looping, hrun] at hloop

/-- Workers whose cancellation was requested can all end. -/
theorem exists_cancelled (svc : EffectorService) (ws : List ℕ) (s : Dispatcher)
    (hws : ∀ q ∈ ws, (s.lanes q).cancelRequested = true) :
    ∃ acts s', (unaided svc).Run s acts [] s' ∧ s'.run = s.run ∧
      (∀ q ∈ ws, (s'.lanes q).task.ended = true) ∧
      ∀ q, (s.lanes q).task.ended = true → (s'.lanes q).task.ended = true := by
  induction ws generalizing s with
  | nil => exact ⟨[], s, .refl, rfl, by simp, fun _ => id⟩
  | cons q ws ih =>
    cases hended : (s.lanes q).task.ended with
    | true =>
      obtain ⟨acts, s', hrun, hphase, hall, hkeep⟩ :=
        ih s fun q' hq' => hws q' (List.mem_cons_of_mem _ hq')
      refine ⟨acts, s', hrun, hphase, fun q' hq' => ?_, hkeep⟩
      rcases List.mem_cons.mp hq' with rfl | hq'
      · exact hkeep q' hended
      · exact hall q' hq'
    | false =>
      have hstep : (unaided svc).step s (.cancelled q)
          (s.setLane q { s.lanes q with task := .cancelled }) [] :=
        ⟨by simp, by simp [machine, perform, hws q List.mem_cons_self, hended]⟩
      have hlane (q' : ℕ) : ((s.setLane q { s.lanes q with task := .cancelled }).lanes q') =
          if q' = q then { s.lanes q with task := .cancelled } else s.lanes q' := by
        split_ifs with hqq
        · subst hqq
          exact setLane_self
        · exact setLane_of_ne hqq
      obtain ⟨acts, s', hrun, hphase, hall, hkeep⟩ :=
        ih (s.setLane q { s.lanes q with task := .cancelled }) fun q' hq' => by
          have hrequested := hws q' (List.mem_cons_of_mem _ hq')
          rw [hlane]
          split_ifs with hqq
          · exact hqq ▸ hrequested
          · exact hrequested
      refine ⟨_, s', (Machine.Run.single hstep).append hrun, hphase, fun q' hq' => ?_,
        fun q' hq' => hkeep q' ?_⟩
      · rcases List.mem_cons.mp hq' with rfl | hq'
        · exact hkeep q' (by rw [hlane, if_pos rfl]; rfl)
        · exact hall q' hq'
      · rw [hlane]
        split_ifs
        · rfl
        · exact hq'

/-- Every run keeps the invariant of the loop. -/
theorem run_loop {acts : List DispatcherAct} (h : (machine svc).Run s acts os s')
    (hinv : s.looping = true → s.Loop) (hloop : s'.looping = true) : s'.Loop :=
  h.stateInvariant (I := fun t => t.looping = true → t.Loop) hinv
    (fun ht hstep hloop => (Loop.step ht hstep hloop).2) hloop

/-- Workers whose cancellation was requested end, and `run` raises. -/
theorem exists_unwound (svc : EffectorService) {ws : List ℕ} (hrun : s.run = .stopping ws)
    (hws : ∀ q ∈ ws, (s.lanes q).cancelRequested = true) :
    ∃ acts s', (unaided svc).Run s acts [.raised] s' := by
  obtain ⟨acts, s₁, hcancelled, hphase, hended, -⟩ := exists_cancelled svc ws s hws
  have hunwound : (unaided svc).step s₁ .unwound { s₁ with run := .raised } [.raised] := by
    have hstopping : s₁.run = .stopping ws := hphase.trans hrun
    refine ⟨by simp, ?_⟩
    simp only [machine, perform, hstopping]
    rw [if_pos (List.all_eq_true.mpr hended)]
  exact ⟨_, _, hcancelled.append (.single hunwound)⟩

/-- The wait for a worker that has failed raises. -/
theorem exists_gathered (svc : EffectorService) {ws sentinels : List ℕ}
    (hrun : s.run = .draining ws sentinels) (hmem : q ∈ ws) (hfailed : (s.lanes q).task = .failed) :
    ∃ acts s', (unaided svc).Run s acts [.raised] s' := by
  let s₁ : Dispatcher := { s.cancelAll ws with run := .stopping ws }
  have hgather : (unaided svc).step s .gather s₁ [] := by
    refine ⟨by simp, ?_⟩
    have hany : ws.any fun q => (s.lanes q).task = .failed ∨ (s.lanes q).task = .cancelled :=
      List.any_eq_true.mpr ⟨q, hmem, by simp [hfailed]⟩
    simp only [machine, perform, hrun]
    rw [if_pos hany]
  obtain ⟨acts, s', hraised⟩ := exists_unwound svc (s := s₁) rfl fun q' hq' => by
    simp [s₁, cancelAll, hq']
  exact ⟨_, s', (Machine.Run.single hgather).append hraised⟩

/-- **The failure of a worker can surface** whenever `run` is in its loop and not stuck: it gets
back to the source, the source ends, and the wait for the workers raises. -/
theorem exists_raised (svc : EffectorService) (hinv : s.Loop) (hloop : s.looping = true)
    (hs : ¬ s.Stuck) (hq : s.workers partition = some q) (hfailed : (s.lanes q).task = .failed) :
    ∃ acts s', (unaided svc).Run s acts [.raised] s' := by
  obtain ⟨acts, s₁, hrun₁, hreading, hkeeps⟩ := exists_unblocked svc hinv hloop hs
  have hloop₁ : s₁.looping = true := by rw [looping, hreading]
  obtain ⟨hlt, hname⟩ :=
    (run_loop hrun₁.of_guarded (fun _ => hinv) hloop₁).known _ _ (hkeeps.workers ▸ hq)
  have hmem : q ∈ s₁.tableValues s₁.workers := by
    refine List.mem_filter.mpr ⟨List.mem_range.mpr hlt, ?_⟩
    simp [hname, hkeeps.workers, hq]
  -- The source ends, and the failed worker is among those that are waited for.
  let ws := s₁.tableValues s₁.workers
  let s₂ : Dispatcher := { s₁ with
    queues := fun _ => none
    workers := fun _ => none
    run := .draining ws (s₁.tableValues s₁.queues) }
  have hexhaust : (unaided svc).step s₁ .exhaust s₂ [] :=
    ⟨by simp, by simp [machine, perform, hreading, List.ne_nil_of_mem hmem, s₂, ws]⟩
  obtain ⟨acts', s', hraised⟩ := exists_gathered svc (s := s₂) rfl hmem (hkeeps.failed q hfailed)
  exact ⟨_, s', (hrun₁.append (.single hexhaust)).append hraised⟩

/-- A failure that `run` waits for can surface. -/
theorem surfaces_of_awaits (svc : EffectorService) (hinv : s.Attended) (hs : ¬ s.Stuck)
    (hawaits : s.Awaits q) (hfailed : (s.lanes q).task = .failed) : s.Surfaces svc := by
  unfold Awaits at hawaits
  cases hrun : s.run with
  | reading | putting =>
    simp only [hrun] at hawaits
    have hloop : s.looping = true := by rw [looping, hrun]
    exact .inr (exists_raised svc (hinv.loop hloop) hloop hs hawaits hfailed)
  | draining ws sentinels =>
    simp only [hrun] at hawaits
    exact .inr (exists_gathered svc hrun hawaits hfailed)
  | stopping ws =>
    have hc := hinv.closed (by rw [looping, hrun])
    exact .inr (exists_unwound svc hrun (hc.stopping ws hrun))
  | raised => exact .inl hrun
  | returned => simp [hrun] at hawaits

/-! ### Runs -/

theorem Attended.start : ({} : Dispatcher).Attended :=
  ⟨fun _ => ⟨rfl, by simp, by simp, by simp, by simp, by simp, by simp⟩, nofun⟩

/-- A step keeps `run` unblocked, with every failed worker waited for, exactly when it lets the
dispatcher proceed. -/
theorem step_proceeds_iff (hinv : s.Attended) (hs : ¬ s.Stuck ∧ s.AwaitsFailed) {a : DispatcherAct}
    (h : s.perform svc a = some (s', os)) :
    s.Proceeds a ↔ ¬ s'.Stuck ∧ s'.AwaitsFailed :=
  and_congr (step_unstuck_iff hinv.loop hs.1 h) (step_awaitsFailed_iff hinv hs.2 h)

/-- **The dispatcher cannot deadlock on a dead partition, unless it is blocked on it when it dies.**
The runs in which `run` is never stuck and waits for every worker that has failed are the runs in
which no worker fails and no partition is revoked while the dispatcher is blocked on its queue, no
delivery arrives for a worker that has ended with a full queue, no partition of a failed worker is
revoked, and no revoked worker fails before `run` raises. In every state of such a run, every
failure can surface. -/
theorem run_unstuck_iff (svc : EffectorService) {acts : List DispatcherAct} {os : List RunOutcome}
    {s : Dispatcher} :
    (((machine svc).guarded Proceeds).Run {} acts os s ↔
      ((machine svc).restrict fun _ _ s' _ => ¬ s'.Stuck ∧ s'.AwaitsFailed).Run {} acts os s) ∧
    (((machine svc).guarded Proceeds).Run {} acts os s → ¬ s.Stuck ∧
      ∀ q, (s.lanes q).task = .failed → s.Surfaces svc) := by
  have hstart : ¬ ({} : Dispatcher).Stuck ∧ ({} : Dispatcher).AwaitsFailed :=
    ⟨fun ⟨_, _, hrun, _⟩ => (nomatch hrun), nofun⟩
  have hiff : ((machine svc).guarded Proceeds).Run {} acts os s ↔
      ((machine svc).restrict fun _ _ s' _ => ¬ s'.Stuck ∧ s'.AwaitsFailed).Run {} acts os s :=
    Machine.Run.guarded_iff_restrict
      (I := fun s => s.Attended ∧ ¬ s.Stuck ∧ s.AwaitsFailed) ⟨.start, hstart⟩
      (fun hI hproceeds hstep => ⟨hI.1.step hstep, hproceeds⟩)
      (fun hI hstep => step_proceeds_iff hI.1 hI.2 hstep)
  refine ⟨hiff, fun h => ?_⟩
  have hinv : s.Attended ∧ ¬ s.Stuck ∧ s.AwaitsFailed :=
    (hiff.mp h).stateInvariant (I := fun s => s.Attended ∧ ¬ s.Stuck ∧ s.AwaitsFailed)
      ⟨.start, hstart⟩ fun hI hstep => ⟨hI.1.step hstep.2, hstep.1⟩
  exact ⟨hinv.2.1, fun q hfailed => surfaces_of_awaits svc hinv.1 hinv.2.1 (hinv.2.2 q hfailed)
    hfailed⟩

/-! ### A dead partition -/

/-- `run` is blocked on the full queue of a worker that has ended. -/
def Dead (s : Dispatcher) : Prop := ∃ q, s.BlockedOn q ∧ (s.lanes q).task.ended = true

theorem Dead.stuck (h : s.Dead) : s.Stuck := by
  obtain ⟨q, ⟨d, hrun, hfull⟩, hended⟩ := h
  exact ⟨q, d, hrun, hfull, .inl hended⟩

theorem Dead.setLane (h : s.Dead) (hq : (s.lanes q).task.ended = false) :
    (s.setLane q lane).Dead := by
  obtain ⟨q', ⟨d, hrun, hfull⟩, hended⟩ := h
  have hne : q' ≠ q := fun heq => by
    rw [heq, hq] at hended
    cases hended
  refine ⟨q', ⟨d, hrun, ?_⟩, ?_⟩ <;> rw [setLane_of_ne hne]
  · exact hfull
  · exact hended

/-- The steps that nobody has to stop `run` for. -/
def unsignalled (svc : EffectorService) : Machine Dispatcher DispatcherAct RunOutcome :=
  (machine svc).guarded fun _ a => a ≠ .signal

/-- Only a signal gets `run` away from a dead partition. -/
theorem Dead.step (h : s.Dead) {a : DispatcherAct} (ha : a ≠ .signal)
    (hstep : s.perform svc a = some (s', os)) : s'.Dead := by
  have hcopy := h
  obtain ⟨q', ⟨d', hrun, hfull⟩, hended⟩ := hcopy
  cases a with
  | receive | exhaust | sentinel | gather | unwound => simp [perform, hrun] at hstep
  | put => simp [perform, hrun, hfull] at hstep
  | get q | finish q | fail q =>
    simp only [perform] at hstep
    split at hstep <;> cases hstep <;> exact h.setLane (by simp_all [WorkerTask.ended])
  | acquire q =>
    simp only [perform] at hstep
    split at hstep
    · split_ifs at hstep
      cases hstep
      exact h.setLane (by simp_all [WorkerTask.ended])
    · cases hstep
  | cancelled q =>
    simp only [perform] at hstep
    split_ifs at hstep with hcancel
    cases hstep
    exact h.setLane (by simp_all)
  | revoke partition =>
    cases hstep
    exact ⟨q', ⟨d', hrun, by rwa [cancelAll_item]⟩, by rwa [cancelAll_task]⟩
  | signal => exact absurd rfl ha

/-- `run` stays at a dead partition until it is signalled. -/
theorem Dead.run {acts : List DispatcherAct} (h : s.Dead)
    (hrun : (unsignalled svc).Run s acts os s') : s'.Dead :=
  hrun.stateInvariant (I := Dead) h fun ht hstep => ht.step hstep.1 hstep.2

/-- A delivery of one partition. -/
def queued (offset : ℕ) : Delivered := { EffectorService.charge with handle := offset }

/-- Three deliveries of one partition arrive, and the worker fails at the first one. -/
def failureRun : List DispatcherAct :=
  [.receive (queued 0), .get 0, .acquire 0, .receive (queued 1), .receive (queued 2), .fail 0]

/-- The third delivery waits for room on the queue of the dead worker, until `run` is signalled. -/
theorem failure_blocks : ∃ s, (machine EffectorService.charging).Run {} failureRun [] s ∧ s.Stuck ∧
    ∀ acts os s', (unsignalled EffectorService.charging).Run s acts os s' → s'.Stuck := by
  have hexec : (Machine.exec (perform EffectorService.charging) {} failureRun).map (fun r =>
        (r.1, r.2.run, r.2.lanes 0)) =
      some ([], .putting 0 (queued 2), ⟨"p", some (some (queued 1)), .failed, false⟩) := by decide
  obtain ⟨⟨os, s⟩, hr, heq⟩ := Option.map_eq_some_iff.mp hexec
  simp only [Prod.mk.injEq] at heq
  obtain ⟨rfl, hrun, hlane⟩ := heq
  have hdead : s.Dead := ⟨0, ⟨queued 2, hrun, by simp [hlane]⟩, by simp [hlane, WorkerTask.ended]⟩
  exact ⟨s, .of_exec (fun _ _ => id) hr, hdead.stuck, fun _ _ _ h => (hdead.run h).stuck⟩

end Dispatcher

end BeamAgents
