import Mathlib.Data.List.Basic
import Mathlib.Data.List.Induction
import Mathlib.Order.Defs.LinearOrder
import Mathlib.Order.Lattice

/-!
# Maps by their sorted entries

A map without an order of its own, listed in the order of its keys. Maps with the same entries are
equal, and a map is built again from its entries.

## Main definitions

* `Containers.SortedMap` with `get?`, `set`, `ofList`.

## Main results

* `Containers.SortedMap.ofList_entries`: a map is rebuilt from what it lists.
-/

namespace Containers

/-- A map: its entries in the order of their keys, each key once. -/
@[ext]
structure SortedMap (κ ν : Type*) [LT κ] where
  entries : List (κ × ν)
  sorted : entries.Pairwise fun a b => a.1 < b.1
  deriving DecidableEq

namespace SortedMap

variable {κ ν : Type*}

/-- The map without entries. -/
def empty [LT κ] : SortedMap κ ν := ⟨[], List.Pairwise.nil⟩

instance [LT κ] : Inhabited (SortedMap κ ν) := ⟨empty⟩

variable [LinearOrder κ] (m : SortedMap κ ν)

/-- The value stored under a key. -/
def get? (k : κ) : Option ν := m.entries.lookup k

/-- Store a value in the place of its key. -/
def set (k : κ) (v : ν) : SortedMap κ ν where
  entries := m.entries.filter (fun p => p.1 < k) ++ (k, v) :: m.entries.filter fun p => k < p.1
  sorted := by
    refine List.pairwise_append.mpr ⟨m.sorted.filter _,
      List.pairwise_cons.mpr ⟨?_, m.sorted.filter _⟩, ?_⟩
    · intro p hp
      exact of_decide_eq_true (List.mem_filter.mp hp).2
    · intro p hp q hq
      have hpk : p.1 < k := of_decide_eq_true (List.mem_filter.mp hp).2
      rcases List.mem_cons.mp hq with rfl | hq
      · exact hpk
      · exact hpk.trans (of_decide_eq_true (List.mem_filter.mp hq).2)

/-- Store entries one after another; of several with one key the last remains. -/
def ofList (l : List (κ × ν)) : SortedMap κ ν := l.foldl (fun m p => m.set p.1 p.2) empty

/-- A key above all others is stored at the end. -/
theorem entries_set_last {k : κ} (v : ν) (h : ∀ p ∈ m.entries, p.1 < k) :
    (m.set k v).entries = m.entries ++ [(k, v)] := by
  have hbelow : m.entries.filter (fun p => p.1 < k) = m.entries :=
    List.filter_eq_self.mpr fun p hp => decide_eq_true (h p hp)
  have habove : (m.entries.filter fun p => k < p.1) = [] :=
    List.filter_eq_nil_iff.mpr fun p hp => by simpa using (h p hp).le
  exact (congrArg (fun l => l ++ (k, v) :: m.entries.filter fun p => k < p.1) hbelow).trans
    (congrArg (fun l => m.entries ++ (k, v) :: l) habove)

private theorem entries_ofList {l : List (κ × ν)} (h : l.Pairwise fun a b => a.1 < b.1) :
    (ofList l).entries = l := by
  induction l using List.reverseRecOn with
  | nil => rfl
  | append_singleton l p ih =>
    obtain ⟨hfront, -, hlast⟩ := List.pairwise_append.mp h
    have hentries := ih hfront
    rw [ofList, List.foldl_append, List.foldl_cons, List.foldl_nil, ← ofList, entries_set_last,
      hentries]
    intro q hq
    rw [hentries] at hq
    exact hlast q hq p (List.mem_singleton_self p)

/-- **A map is rebuilt from its entries.** -/
@[simp] theorem ofList_entries : ofList m.entries = m := SortedMap.ext (entries_ofList m.sorted)

end SortedMap

end Containers
