import Mathlib.Data.List.Nodup
import Mathlib.Data.List.Basic

/-!
# Insertion-ordered dictionaries

A dictionary lists its items in insertion order, each key once. Setting a present key keeps its
place; setting an absent one appends. Erasing and setting again moves a key to the end, which is
how a least-recently-used order is kept in one.

## Main definitions

* `Containers.Dict` with `get?`, `set`, `erase`, `keys`, `values` and `ofList`.

## Main results

* `Containers.Dict.get?_set`: what is found after a store.
-/

namespace Containers

/-- An insertion-ordered dictionary: its items in order, no key twice. -/
@[ext]
structure Dict (κ ν : Type*) where
  items : List (κ × ν)
  nodup : (items.map Prod.fst).Nodup

namespace Dict

variable {κ ν : Type*}

/-- The dictionary without items. -/
def empty : Dict κ ν := ⟨[], List.nodup_nil⟩

instance : Inhabited (Dict κ ν) := ⟨empty⟩

variable (d : Dict κ ν)

/-- The keys in insertion order. -/
def keys : List κ := d.items.map Prod.fst

/-- The values in insertion order. -/
def values : List ν := d.items.map Prod.snd

/-- The number of items. -/
def size : ℕ := d.items.length

variable [DecidableEq κ]

/-- The value stored under a key. -/
def get? (k : κ) : Option ν := d.items.lookup k

/-- Drop a key; nothing happens when it is absent. -/
def erase (k : κ) : Dict κ ν where
  items := d.items.filter fun p => p.1 ≠ k
  nodup := d.nodup.sublist (List.filter_sublist.map _)

private theorem map_fst_replace (l : List (κ × ν)) (k : κ) (v : ν) :
    (l.map fun p => if p.1 = k then (k, v) else p).map Prod.fst = l.map Prod.fst := by
  rw [List.map_map]
  refine List.map_congr_left fun p _ => ?_
  simp only [Function.comp_apply]
  split_ifs with h
  · exact h.symm
  · rfl

/-- Store a value: in place when the key is present, at the end otherwise. -/
def set (k : κ) (v : ν) : Dict κ ν where
  items := if k ∈ d.items.map Prod.fst then d.items.map fun p => if p.1 = k then (k, v) else p
    else d.items ++ [(k, v)]
  nodup := by
    split_ifs with h
    · rw [map_fst_replace]
      exact d.nodup
    · rw [List.map_append, List.map_singleton]
      refine List.nodup_append.mpr ⟨d.nodup, List.nodup_singleton _, fun a ha b hb hab => h ?_⟩
      have hak : a = k := hab.trans (List.mem_singleton.mp hb)
      exact hak ▸ ha

@[simp] theorem get?_empty (k : κ) : (empty : Dict κ ν).get? k = none := rfl

private theorem lookup_replace (l : List (κ × ν)) (k k' : κ) (v : ν) :
    (l.map fun p => if p.1 = k then (k, v) else p).lookup k' =
      if k' = k ∧ k ∈ l.map Prod.fst then some v else l.lookup k' := by
  induction l with
  | nil => simp
  | cons p l ih =>
    obtain ⟨a, b⟩ := p
    by_cases ha : a = k
    · by_cases hk : k' = k
      · simp [ha, hk]
      · simp [List.lookup_cons, ha, hk, beq_eq_false_iff_ne.mpr hk, ih]
    · by_cases hk : k' = a
      · have hne : k' ≠ k := fun h => ha (hk.symm.trans h)
        simp [ha, hk]
      · have hkeys : k ∈ ((a, b) :: l).map Prod.fst ↔ k ∈ l.map Prod.fst := by
          simp [Ne.symm ha]
        rw [List.map_cons, if_neg ha, List.lookup_cons, List.lookup_cons,
          beq_eq_false_iff_ne.mpr hk, ih]
        simp only [hkeys]

private theorem lookup_eq_none (l : List (κ × ν)) {k : κ} (h : k ∉ l.map Prod.fst) :
    l.lookup k = none := by
  induction l with
  | nil => rfl
  | cons p l ih =>
    obtain ⟨a, b⟩ := p
    have hne : k ≠ a := fun heq => h (by simp [heq])
    have hrest : k ∉ l.map Prod.fst := fun hmem => h (List.mem_cons_of_mem _ hmem)
    simp [List.lookup_cons, beq_eq_false_iff_ne.mpr hne, ih hrest]

/-- A store changes what is found under its key, and under no other. -/
theorem get?_set (k k' : κ) (v : ν) :
    (d.set k v).get? k' = if k' = k then some v else d.get? k' := by
  by_cases hmem : k ∈ d.items.map Prod.fst
  · simp only [get?, set, hmem, if_true, lookup_replace, and_true]
  · simp only [get?, set, if_neg hmem, List.lookup_append]
    by_cases hk : k' = k
    · subst hk
      simp [lookup_eq_none d.items hmem]
    · simp [hk, List.lookup_cons, beq_eq_false_iff_ne.mpr hk]

theorem get?_set_self (k : κ) (v : ν) : (d.set k v).get? k = some v := by
  rw [get?_set, if_pos rfl]

theorem get?_set_of_ne {k k' : κ} (h : k' ≠ k) (v : ν) : (d.set k v).get? k' = d.get? k' := by
  rw [get?_set, if_neg h]

/-- An erased key is not found any more, and the others are. -/
theorem get?_erase (k k' : κ) :
    (d.erase k).get? k' = if k' = k then none else d.get? k' := by
  have hlookup (l : List (κ × ν)) :
      (l.filter fun p => p.1 ≠ k).lookup k' = if k' = k then none else l.lookup k' := by
    induction l with
    | nil => simp
    | cons p l ih =>
      obtain ⟨a, b⟩ := p
      by_cases ha : a = k
      · subst ha
        rw [List.filter_cons_of_neg (by simp), ih]
        by_cases hk : k' = a
        · simp [hk]
        · simp [hk, List.lookup_cons, beq_eq_false_iff_ne.mpr hk]
      · rw [List.filter_cons_of_pos (by simpa using ha), List.lookup_cons, List.lookup_cons, ih]
        by_cases hk : k' = a
        · simp [hk, ha]
        · simp [beq_eq_false_iff_ne.mpr hk]
  exact hlookup d.items

/-- A store adds no other item. -/
theorem mem_set {k : κ} {v : ν} {p : κ × ν} (h : p ∈ (d.set k v).items) :
    p = (k, v) ∨ p ∈ d.items := by
  by_cases hmem : k ∈ d.items.map Prod.fst
  · simp only [set, hmem, if_true] at h
    obtain ⟨q, hq, rfl⟩ := List.mem_map.mp h
    split_ifs
    · exact .inl rfl
    · exact .inr hq
  · simp only [set, hmem, if_false, List.mem_append, List.mem_singleton] at h
    exact h.symm

/-- Load items in order; a repeated key keeps its first place and its last value. -/
def ofList (l : List (κ × ν)) : Dict κ ν := l.foldl (fun d p => d.set p.1 p.2) empty

end Dict

end Containers
