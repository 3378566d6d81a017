import Mathlib.Algebra.GroupWithZero.Nat
import Mathlib.Data.List.Basic
import Mathlib.Data.List.Pairwise
import Mathlib.Data.List.Perm.Basic
import Mathlib.Data.List.Range
import Mathlib.Data.List.Nodup
import Mathlib.Order.Basic

/-!
# Ledgers

A ledger books items that arrive one after the other at a buffer. An item is named by its place in
the order of arrival. It is refused when it arrives, or buffered; what is buffered is later handed
over as one delivery, or dropped. The ledger carries with it that its three columns (buffered,
delivered, dropped) partition the arrivals, and that deliveries are in the order of arrival, so
that no operation can lose an item, book it twice or reorder it.

## Main definitions

* `Transition.Ledger`, with `arrive`, `refuse`, `deliver`, `drop`.
* `Transition.Ledger.contents`: the items in the buffer, in the order of arrival.
* `Transition.Ledger.places`: how often an item is booked.

## Main results

* `Transition.Ledger.places_eq_one`: every arrival is booked exactly once.
-/

namespace Transition

/-- The arrivals so far, and where each of them is. -/
structure Ledger (ε : Type*) where
  /-- The items that arrived, in order. -/
  arrived : List ε
  /-- The items in the buffer. -/
  buffered : List ℕ
  /-- The deliveries, each with its items. -/
  delivered : List (List ℕ)
  /-- The items refused or dropped. -/
  dropped : List ℕ
  /-- Every arrival is in one column. -/
  balanced : (delivered.flatten ++ (dropped ++ buffered)).Perm (List.range arrived.length)
  /-- Deliveries are in the order of arrival, and what is buffered came after what was delivered. -/
  ordered : (delivered.flatten ++ buffered).Pairwise (· < ·)

namespace Ledger

variable {ε : Type*} (L : Ledger ε) (e : ε)

/-- No arrivals. -/
def empty : Ledger ε where
  arrived := []
  buffered := []
  delivered := []
  dropped := []
  balanced := .refl _
  ordered := .nil

theorem lt_of_mem {n : ℕ} (h : n ∈ L.delivered.flatten ++ (L.dropped ++ L.buffered)) :
    n < L.arrived.length :=
  List.mem_range.mp (L.balanced.mem_iff.mp h)

theorem lt_of_ordered {n : ℕ} (h : n ∈ L.delivered.flatten ++ L.buffered) :
    n < L.arrived.length := by
  refine L.lt_of_mem ?_
  simp only [List.mem_append] at h ⊢
  exact h.imp_right .inr

/-- The item arrives and is buffered. -/
def arrive : Ledger ε where
  arrived := L.arrived ++ [e]
  buffered := L.buffered ++ [L.arrived.length]
  delivered := L.delivered
  dropped := L.dropped
  balanced := by
    have h := L.balanced.append_right [L.arrived.length]
    simpa [List.range_succ, List.append_assoc] using h
  ordered := by
    rw [← List.append_assoc]
    refine List.pairwise_append.mpr ⟨L.ordered, List.pairwise_singleton _ _, fun n hn m hm => ?_⟩
    rw [List.mem_singleton.mp hm]
    exact L.lt_of_ordered hn

/-- The item arrives and is refused. -/
def refuse : Ledger ε where
  arrived := L.arrived ++ [e]
  buffered := L.buffered
  delivered := L.delivered
  dropped := L.dropped ++ [L.arrived.length]
  balanced := by
    have hmove : (L.delivered.flatten ++ ((L.dropped ++ [L.arrived.length]) ++ L.buffered)).Perm
        ((L.delivered.flatten ++ (L.dropped ++ L.buffered)) ++ [L.arrived.length]) := by
      simp only [List.append_assoc]
      exact (List.perm_append_comm.append_left _).append_left _
    rw [List.length_append, List.length_singleton, List.range_succ]
    exact hmove.trans (L.balanced.append_right _)
  ordered := L.ordered

/-- The buffer is handed over. -/
def deliver : Ledger ε where
  arrived := L.arrived
  buffered := []
  delivered := L.delivered ++ [L.buffered]
  dropped := L.dropped
  balanced := by
    have hmove : ((L.delivered ++ [L.buffered]).flatten ++ (L.dropped ++ [])).Perm
        (L.delivered.flatten ++ (L.dropped ++ L.buffered)) := by
      simp only [List.flatten_append, List.flatten_singleton, List.append_nil, List.append_assoc]
      exact List.perm_append_comm.append_left _
    exact hmove.trans L.balanced
  ordered := by simpa using L.ordered

/-- The buffer is dropped. -/
def drop : Ledger ε where
  arrived := L.arrived
  buffered := []
  delivered := L.delivered
  dropped := L.dropped ++ L.buffered
  balanced := by simpa using L.balanced
  ordered := by
    rw [List.append_nil]
    exact (List.pairwise_append.mp L.ordered).1

/-- The items with these names. -/
def items (ns : List ℕ) : List ε := ns.filterMap (L.arrived[·]?)

/-- The items in the buffer. -/
def contents : List ε := L.items L.buffered

/-- How often an item is booked. -/
def places (n : ℕ) : ℕ :=
  L.buffered.count n + (L.delivered.map (List.count n)).sum + L.dropped.count n

/-- **Conservation.** Every arrival is booked exactly once: it is in the buffer, in one delivery, or
dropped. -/
theorem places_eq_one {n : ℕ} (h : n < L.arrived.length) : L.places n = 1 := by
  have hcount := L.balanced.count_eq n
  have hone : (List.range L.arrived.length).count n = 1 :=
    List.count_eq_one_of_mem List.nodup_range (List.mem_range.mpr h)
  rw [hone, List.count_append, List.count_append, List.count_flatten] at hcount
  unfold places
  omega

/-- Items named below the number of arrivals are still those items after another arrival. -/
theorem items_concat {L' : Ledger ε} {ns : List ℕ} (harrived : L'.arrived = L.arrived ++ [e])
    (h : ∀ n ∈ ns, n < L.arrived.length) : L'.items ns = L.items ns := by
  refine List.filterMap_congr fun n hn => ?_
  rw [harrived, List.getElem?_append_left (h n hn)]

theorem buffered_lt : ∀ n ∈ L.buffered, n < L.arrived.length :=
  fun _ hn => L.lt_of_ordered (List.mem_append_right _ hn)

@[simp] theorem contents_empty : (empty : Ledger ε).contents = [] := rfl

/-- An arrival goes to the end of the buffer. -/
@[simp] theorem contents_arrive : (L.arrive e).contents = L.contents ++ [e] := by
  have hold : (L.arrive e).items L.buffered = L.items L.buffered :=
    L.items_concat e rfl L.buffered_lt
  have hnew : (L.arrive e).items [L.arrived.length] = [e] := by
    simp [items, arrive]
  show (L.arrive e).items (L.buffered ++ [L.arrived.length]) = _
  rw [items, List.filterMap_append]
  exact congrArg₂ (· ++ ·) hold hnew

@[simp] theorem contents_refuse : (L.refuse e).contents = L.contents :=
  L.items_concat e rfl L.buffered_lt

@[simp] theorem contents_deliver : L.deliver.contents = [] := rfl

@[simp] theorem contents_drop : L.drop.contents = [] := rfl

@[simp] theorem length_contents : L.contents.length = L.buffered.length := by
  have hall : ∀ n ∈ L.buffered, (L.arrived[n]?).isSome := fun n hn => by
    simpa using L.buffered_lt n hn
  exact List.filterMap_length_eq_length.mpr hall

end Ledger

end Transition
