import BeamAgents.Containers.Recency
import BeamAgents.Containers.SortedMap
import Mathlib.Data.List.Nodup

/-!
# Tables by primary key

A table holds one row for each key. Rows are stored in the place of old ones, and deleted by a test.
A table that is derived from other data says for each key what a specification says; when the data
change, it is brought up to date key by key, or group by group.

## Main definitions

* `Containers.SortedMap.restrict`: the rows that pass a test.
* `Containers.SortedMap.filterMap`: what a reader makes of the rows.
* `Containers.SortedMap.enter`, `Containers.SortedMap.replaceGroup`: the row of a key, or the rows
  of a group, are brought up to date.

## Main results

* `Containers.SortedMap.ext_get?`: tables with the same rows are the same.
* `Containers.SortedMap.get?_set`, `Containers.SortedMap.get?_restrict`,
  `Containers.SortedMap.get?_filterMap`.
* `Containers.SortedMap.get?_replaceGroup`: what is in a table of which a group was replaced.
* `Containers.Dict.filter_values_set`: a store that a test does not see.
-/

namespace Containers

namespace SortedMap

variable {κ ν : Type*} [LinearOrder κ] {m m' : SortedMap κ ν} {k k' : κ} {v w : ν}

/-! ### Rows -/

theorem nodup_keys (m : SortedMap κ ν) : (m.entries.map Prod.fst).Nodup :=
  List.pairwise_map.mpr (m.sorted.imp ne_of_lt)

theorem get?_eq_some_iff : m.get? k = some v ↔ (k, v) ∈ m.entries := by
  rw [get?, List.lookup_eq_some_iff]
  constructor
  · rintro ⟨l, l', hl, -⟩
    rw [hl]
    exact List.mem_append_right _ List.mem_cons_self
  · intro hmem
    obtain ⟨l, l', hl⟩ := List.append_of_mem hmem
    refine ⟨l, l', hl, fun p hp => bne_iff_ne.mpr ?_⟩
    have hsorted := m.sorted
    rw [hl, List.pairwise_append] at hsorted
    exact (hsorted.2.2 p hp _ List.mem_cons_self).ne'

/-- **Tables with the same rows are the same.** -/
theorem ext_get? (h : ∀ k, m.get? k = m'.get? k) : m = m' := by
  have hmem (p : κ × ν) : p ∈ m.entries ↔ p ∈ m'.entries := by
    rw [← get?_eq_some_iff, ← get?_eq_some_iff, h]
  have hperm := (List.perm_ext_iff_of_nodup (List.Nodup.of_map _ m.nodup_keys)
    (List.Nodup.of_map _ m'.nodup_keys)).mpr hmem
  refine SortedMap.ext (hperm.eq_of_pairwise ?_ m.sorted m'.sorted)
  exact fun p q _ _ hpq hqp => absurd (hpq.trans hqp) (lt_irrefl p.1)

@[simp] theorem get?_empty (k : κ) : (empty : SortedMap κ ν).get? k = none := rfl

/-- A row that is stored takes the place of the old one. -/
theorem get?_set (k k' : κ) (v : ν) :
    (m.set k v).get? k' = if k' = k then some v else m.get? k' := by
  refine Option.ext fun w => ?_
  have hmem : (k', w) ∈ (m.set k v).entries ↔
      (k', w) ∈ m.entries ∧ k' < k ∨ k' = k ∧ w = v ∨ (k', w) ∈ m.entries ∧ k < k' := by
    simp [set]
  rw [get?_eq_some_iff, hmem]
  split_ifs with hk
  · simp [hk, eq_comm]
  · rw [get?_eq_some_iff]
    rcases lt_or_gt_of_ne hk with hlt | hgt
    · simp [hk, hlt, hlt.not_gt]
    · simp [hk, hgt, hgt.not_gt]

/-- A table whose only key is `k` is one row. -/
theorem eq_set_empty (h : m.get? k = some v) (hall : ∀ k', (m.get? k').isSome → k' = k) :
    m = empty.set k v := by
  refine ext_get? fun k' => ?_
  rw [get?_set, get?_empty]
  split_ifs with hk
  · rw [hk, h]
  · exact Option.not_isSome_iff_eq_none.mp fun hsome => hk (hall k' hsome)

/-- The rows that pass a test. -/
def restrict (m : SortedMap κ ν) (p : κ → ν → Bool) : SortedMap κ ν where
  entries := m.entries.filter fun e => p e.1 e.2
  sorted := m.sorted.filter _

theorem get?_restrict (p : κ → ν → Bool) (k : κ) :
    (m.restrict p).get? k = (m.get? k).filter (p k) := by
  refine Option.ext fun v => ?_
  have hmem : (k, v) ∈ (m.restrict p).entries ↔ (k, v) ∈ m.entries ∧ p k v = true :=
    List.mem_filter
  rw [get?_eq_some_iff, hmem, Option.filter_eq_some_iff, get?_eq_some_iff]

/-- What a reader makes of the rows; it may make nothing of a row. -/
def filterMap {μ : Type*} (m : SortedMap κ ν) (g : ν → Option μ) : SortedMap κ μ where
  entries := m.entries.filterMap fun e => (g e.2).map fun w => (e.1, w)
  sorted := by
    refine List.Pairwise.filterMap _ (fun p q hpq p' hp' q' hq' => ?_) m.sorted
    obtain ⟨_, -, rfl⟩ := Option.map_eq_some_iff.mp hp'
    obtain ⟨_, -, rfl⟩ := Option.map_eq_some_iff.mp hq'
    exact hpq

theorem get?_filterMap {μ : Type*} (g : ν → Option μ) (k : κ) :
    (m.filterMap g).get? k = (m.get? k).bind g := by
  refine Option.ext fun w => ?_
  have hmem : (k, w) ∈ (m.filterMap g).entries ↔ ∃ v, (k, v) ∈ m.entries ∧ g v = some w := by
    refine List.mem_filterMap.trans ⟨?_, ?_⟩
    · rintro ⟨⟨k', v⟩, hv, hg⟩
      obtain ⟨w', hw', heq⟩ := Option.map_eq_some_iff.mp hg
      obtain ⟨rfl, rfl⟩ := Prod.mk.inj heq
      exact ⟨v, hv, hw'⟩
    · rintro ⟨v, hv, hg⟩
      exact ⟨(k, v), hv, Option.map_eq_some_iff.mpr ⟨w, hg, rfl⟩⟩
  rw [get?_eq_some_iff, hmem, Option.bind_eq_some_iff]
  exact exists_congr fun v => and_congr_left fun _ => get?_eq_some_iff.symm

/-! ### Derived tables -/

/-- What is said of a key: a row, or that it has none. -/
def enter (m : SortedMap κ ν) (k : κ) : Option ν → SortedMap κ ν
  | some v => m.set k v
  | none => m.restrict fun k' _ => k' ≠ k

theorem get?_enter (k k' : κ) (row : Option ν) :
    (m.enter k row).get? k' = if k' = k then row else m.get? k' := by
  cases row with
  | some v => exact get?_set k k' v
  | none =>
    rw [enter, get?_restrict]
    by_cases hk : k' = k
    · rw [if_pos hk]
      cases m.get? k' <;> simp [hk]
    · rw [if_neg hk]
      cases m.get? k' <;> simp [hk]

theorem get?_foldl_set {rows : List (κ × ν)} (h : (rows.map Prod.fst).Nodup) (k : κ) :
    (rows.foldl (fun m p => m.set p.1 p.2) m).get? k = (rows.lookup k).or (m.get? k) := by
  induction rows generalizing m with
  | nil => rfl
  | cons p rows ih =>
    obtain ⟨hp, hrows⟩ := List.nodup_cons.mp h
    rw [List.foldl_cons, ih hrows, get?_set, List.lookup_cons]
    by_cases hk : k = p.1
    · have hnone : rows.lookup k = none := List.lookup_eq_none_iff.mpr fun q hq =>
        bne_iff_ne.mpr fun heq => hp (hk ▸ heq ▸ List.mem_map_of_mem hq)
      rw [hnone, if_pos hk, beq_iff_eq.mpr hk]
      rfl
    · have hne : (k == p.1) = false := beq_eq_false_iff_ne.mpr hk
      rw [if_neg hk, hne]

/-- The rows of a group: they are stored, and the other rows of the group are deleted. -/
def replaceGroup (m : SortedMap κ ν) (group : κ → Bool) (rows : List (κ × ν)) : SortedMap κ ν :=
  (rows.foldl (fun m p => m.set p.1 p.2) m).restrict fun k _ =>
    !group k || k ∈ rows.map Prod.fst

theorem get?_replaceGroup {group : κ → Bool} {rows : List (κ × ν)}
    (hnodup : (rows.map Prod.fst).Nodup) (hgroup : ∀ p ∈ rows, group p.1 = true) (k : κ) :
    (m.replaceGroup group rows).get? k = if group k then rows.lookup k else m.get? k := by
  rw [replaceGroup, get?_restrict, get?_foldl_set hnodup]
  cases hlookup : rows.lookup k with
  | some v =>
    obtain ⟨l, l', hl, -⟩ := List.lookup_eq_some_iff.mp hlookup
    have hmem : (k, v) ∈ rows := hl ▸ List.mem_append_right _ List.mem_cons_self
    have hkey : k ∈ rows.map Prod.fst := List.mem_map_of_mem hmem
    rw [Option.some_or, hgroup _ hmem]
    simp [hkey]
  | none =>
    have hkey : k ∉ rows.map Prod.fst := by
      intro hmem
      obtain ⟨p, hp, rfl⟩ := List.mem_map.mp hmem
      exact bne_iff_ne.mp (List.lookup_eq_none_iff.mp hlookup p hp) rfl
    rw [Option.none_or]
    cases hk : group k with
    | true => cases m.get? k <;> simp [hkey]
    | false => cases m.get? k <;> simp

end SortedMap

/-! ### Tables in order of insertion -/

theorem filter_map_congr {α β : Type*} {l : List α} {f g : α → β} {p : β → Bool}
    (h : ∀ a ∈ l, f a = g a ∨ p (f a) = false ∧ p (g a) = false) :
    (l.map f).filter p = (l.map g).filter p := by
  induction l with
  | nil => rfl
  | cons a l ih =>
    have hrest := ih fun b hb => h b (List.mem_cons_of_mem _ hb)
    rw [List.map_cons, List.map_cons, List.filter_cons, List.filter_cons, hrest]
    rcases h a List.mem_cons_self with heq | ⟨hf, hg⟩
    · rw [heq]
    · rw [if_neg (by simp [hf]), if_neg (by simp [hg])]

/-- A store is not seen by a test that neither its value nor the old one passes. -/
theorem Dict.filter_values_set {κ ν : Type*} [DecidableEq κ] {d : Dict κ ν} {k : κ} {v : ν}
    {p : ν → Bool} (hv : p v = false) (hold : ∀ w ∈ d.get? k, p w = false) :
    (d.set k v).values.filter p = d.values.filter p := by
  by_cases hmem : k ∈ d.items.map Prod.fst
  · simp only [values, set, hmem, if_true, List.map_map]
    refine filter_map_congr fun q hq => ?_
    by_cases hk : q.1 = k
    · have hget : d.get? k = some q.2 := d.get?_eq_some_iff.mpr (hk ▸ hq)
      simp only [Function.comp_apply, hk, if_true]
      exact .inr ⟨hv, hold q.2 hget⟩
    · exact .inl (by simp only [Function.comp_apply, hk, if_false])
  · rw [values, items_set_of_notMem _ hmem, List.map_append, List.filter_append,
      List.map_singleton, List.filter_cons_of_neg (by simp [hv]), List.filter_nil, List.append_nil]
    rfl

end Containers
