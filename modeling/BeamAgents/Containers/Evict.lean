import Mathlib.Algebra.BigOperators.Group.List.Basic
import Mathlib.Algebra.GroupWithZero.Nat
import Mathlib.Algebra.Order.Group.Nat
import Mathlib.Data.List.Infix
import Mathlib.Data.List.Nodup

/-!
# Eviction to a target

A list of sized items with a running total is walked from the front. As long as the total is over a
target, each item that may go is dropped and the total loses its size; items that must stay are
passed over, and the walk ends where the target is met. What is dropped is the shortest beginning of
the items that may go which brings the total to the target, or all of these items when none does.

## Main definitions

* `Containers.evict`, `Containers.evicted`: what stays and what is dropped.

## Main results

* `Containers.evict_eq_filter`: the items that are not dropped stay, in their order.
* `Containers.evicted_prefix_filter`, `Containers.evicted_enough`, `Containers.evicted_shortest`:
  what is dropped.
* `Containers.mem_evicted_iff`: when a given item is dropped.
-/

namespace Containers

variable {α : Type*} (target : ℕ) (size : α → ℕ) (may : α → Bool)

/-- What stays once the items that may go are dropped until the total is within the target. -/
def evict : (total : ℕ) → List α → List α
  | _, [] => []
  | total, a :: l =>
    if total ≤ target then a :: l
    else if may a then evict (total - size a) l
    else a :: evict total l

/-- What is dropped on the same walk. -/
def evicted : (total : ℕ) → List α → List α
  | _, [] => []
  | total, a :: l =>
    if total ≤ target then []
    else if may a then a :: evicted (total - size a) l
    else evicted total l

variable {target size may} {total : ℕ} {l : List α} {a : α}

theorem evict_sublist : (evict target size may total l).Sublist l := by
  induction l generalizing total with
  | nil => exact List.Sublist.refl _
  | cons a l ih =>
    rw [evict]
    split_ifs
    · exact List.Sublist.refl _
    · exact ih.cons _
    · exact ih.cons_cons _

/-- What is dropped are the first items that may go. -/
theorem evicted_prefix_filter : evicted target size may total l <+: l.filter may := by
  induction l generalizing total with
  | nil => exact List.prefix_refl _
  | cons a l ih =>
    rw [evicted]
    split_ifs with htarget hmay
    · exact List.nil_prefix
    · rw [List.filter_cons_of_pos hmay]
      exact (List.prefix_cons_inj a).mpr ih
    · rw [List.filter_cons_of_neg hmay]
      exact ih

theorem may_of_mem_evicted (h : a ∈ evicted target size may total l) : a ∈ l ∧ may a :=
  List.mem_filter.mp (evicted_prefix_filter.subset h)

/-- The target is met in the end, or everything that may go is gone. -/
theorem evicted_enough :
    total - ((evicted target size may total l).map size).sum ≤ target ∨
      evicted target size may total l = l.filter may := by
  induction l generalizing total with
  | nil => exact .inr rfl
  | cons a l ih =>
    rw [evicted]
    split_ifs with htarget hmay
    · exact .inl (by simpa using htarget)
    · rw [List.filter_cons_of_pos hmay, List.map_cons, List.sum_cons, ← Nat.sub_sub]
      exact ih.imp_right (congrArg (a :: ·))
    · rw [List.filter_cons_of_neg hmay]
      exact ih

/-- **Fewer items would not have been enough.** -/
theorem evicted_shortest {n : ℕ} (h : n < (evicted target size may total l).length) :
    target < total - (((l.filter may).take n).map size).sum := by
  induction l generalizing total n with
  | nil => exact absurd h (Nat.not_lt_zero n)
  | cons a l ih =>
    rw [evicted] at h
    split_ifs at h with htarget hmay
    · exact absurd h (Nat.not_lt_zero n)
    · rw [List.filter_cons_of_pos hmay]
      cases n with
      | zero => simpa using htarget
      | succ n =>
        rw [List.take_succ_cons, List.map_cons, List.sum_cons, ← Nat.sub_sub]
        exact ih (Nat.lt_of_succ_lt_succ h)
    · rw [List.filter_cons_of_neg hmay]
      exact ih h

/-- **An item is dropped** exactly when those before it that may go do not bring the total to the
target. -/
theorem mem_evicted_iff {before after : List α} (h : l.filter may = before ++ a :: after)
    (ha : a ∉ before) :
    a ∈ evicted target size may total l ↔ target < total - (before.map size).sum := by
  have hprefix : evicted target size may total l <+: before ++ a :: after :=
    h ▸ evicted_prefix_filter
  have htake := List.prefix_iff_eq_take.mp hprefix
  constructor
  · intro hmem
    have hlong : before.length < (evicted target size may total l).length := by
      by_contra hshort
      rw [htake, List.take_append_of_le_length (Nat.le_of_not_lt hshort)] at hmem
      exact ha (List.mem_of_mem_take hmem)
    have hshortest := evicted_shortest hlong
    rwa [h, List.take_left] at hshortest
  · intro hover
    by_contra hmem
    have hshort : (evicted target size may total l).length ≤ before.length := by
      by_contra hlong
      refine hmem ?_
      rw [htake, List.take_append, List.take_of_length_le (Nat.le_of_not_le hlong)]
      obtain ⟨n, hn⟩ : ∃ n, (evicted target size may total l).length - before.length = n + 1 :=
        ⟨_, (Nat.succ_pred_eq_of_pos (by omega)).symm⟩
      rw [hn, List.take_succ_cons]
      exact List.mem_append_right _ List.mem_cons_self
    rw [List.take_append_of_le_length hshort] at htake
    have hle : ((evicted target size may total l).map size).sum ≤ (before.map size).sum := by
      have hsplit := congrArg (fun l => (l.map size).sum)
        (List.take_append_drop (evicted target size may total l).length before)
      simp only [List.map_append, List.sum_append] at hsplit
      rw [← htake] at hsplit
      omega
    have henough : total - ((evicted target size may total l).map size).sum ≤ target ∨
        evicted target size may total l = l.filter may := evicted_enough
    rcases henough with hmet | hall
    · omega
    · refine hmem ?_
      rw [hall, h]
      exact List.mem_append_right _ List.mem_cons_self

/-- **What is not dropped stays, in its order.** -/
theorem evict_eq_filter [DecidableEq α] (h : l.Nodup) :
    evict target size may total l = l.filter (· ∉ evicted target size may total l) := by
  induction l generalizing total with
  | nil => rfl
  | cons a l ih =>
    obtain ⟨ha, hl⟩ := List.nodup_cons.mp h
    rw [evict, evicted]
    split_ifs with htarget hmay
    · simp
    · rw [List.filter_cons_of_neg (by simp), ih hl]
      refine List.filter_congr fun b hb => ?_
      have hne : b ≠ a := fun hba => ha (hba ▸ hb)
      simp [hne]
    · have hstay : a ∉ evicted target size may total l := fun hmem =>
        ha (may_of_mem_evicted hmem).1
      rw [List.filter_cons_of_pos (by simpa using hstay), ih hl]

end Containers
