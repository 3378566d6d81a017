import BeamAgents.Containers.Dict
import Mathlib.Algebra.GroupWithZero.Nat
import Mathlib.Algebra.BigOperators.Group.List.Basic
import Mathlib.Data.List.Infix

/-!
# Least-recently-used order

A dictionary whose users move a key to the end when they use it lists its items least recently used
first. Two operations on such a list are all that a bounded cache does with it: `refresh` stores an
item at the end, and `shed` drops items from the front as long as the list is over a bound. Whatever
was used since some moment is a suffix of the list, and a suffix that is within the bound is never
shed.

## Main definitions

* `Containers.refresh`, `Containers.shed`; `Containers.moveToEnd`, on an order of keys.

## Main results

* `Containers.suffix_refresh`, `Containers.suffix_shed`: what was used recently stays a suffix.
* `Containers.Dict.items_touch`: erasing a key and setting it again refreshes its item.
* `Containers.Dict.sum_erase`, `Containers.Dict.sum_set`: a total over the items, when one of them
  is erased or stored.
-/

namespace Containers

section Lists

variable {κ ν α : Type*} [DecidableEq κ]

/-- Store an item at the end. -/
def refresh (l : List (κ × ν)) (k : κ) (v : ν) : List (κ × ν) :=
  (l.filter fun p => p.1 ≠ k) ++ [(k, v)]

/-- Drop items from the front as long as the list is over its bound. -/
def shed (excess : List α → Bool) : List α → List α
  | [] => []
  | a :: l => if excess (a :: l) then shed excess l else a :: l

/-- What was refreshed recently stays the end of the list. -/
theorem suffix_refresh {recent l : List (κ × ν)} (h : recent <:+ l) (k : κ) (v : ν) :
    refresh recent k v <:+ refresh l k v := by
  obtain ⟨before, rfl⟩ := h
  exact ⟨before.filter fun p => p.1 ≠ k, by simp only [refresh, List.filter_append,
    List.append_assoc]⟩

theorem mem_refresh {l : List (κ × ν)} {k : κ} {v : ν} {p : κ × ν} :
    p ∈ refresh l k v ↔ (p ∈ l ∧ p.1 ≠ k) ∨ p = (k, v) := by
  simp [refresh, List.mem_filter]

/-- Refreshing keeps the keys apart. -/
theorem nodup_refresh {l : List (κ × ν)} (h : (l.map Prod.fst).Nodup) (k : κ) (v : ν) :
    ((refresh l k v).map Prod.fst).Nodup := by
  rw [refresh, List.map_append, List.nodup_append]
  refine ⟨h.sublist (List.filter_sublist.map _), List.nodup_singleton _, fun a ha b hb hab => ?_⟩
  obtain ⟨p, hp, rfl⟩ := List.mem_map.mp ha
  have hpk : p.1 = k := hab.trans (List.mem_singleton.mp hb)
  exact of_decide_eq_true (List.mem_filter.mp hp).2 hpk

/-- Move a key to the end of an order of keys. -/
def moveToEnd (l : List κ) (k : κ) : List κ := (l.filter fun k' => k' ≠ k) ++ [k]

/-- Refreshing an item moves its key to the end. -/
theorem map_refresh (l : List (κ × ν)) (k : κ) (v : ν) :
    (refresh l k v).map Prod.fst = moveToEnd (l.map Prod.fst) k := by
  rw [refresh, moveToEnd, List.map_append, List.filter_map]
  rfl

theorem mem_moveToEnd {l : List κ} {k k' : κ} : k' ∈ moveToEnd l k ↔ k' ∈ l ∨ k' = k := by
  by_cases h : k' = k <;> simp [moveToEnd, h]

theorem nodup_moveToEnd {l : List κ} (h : l.Nodup) (k : κ) : (moveToEnd l k).Nodup := by
  rw [moveToEnd, List.nodup_append]
  refine ⟨h.filter _, List.nodup_singleton _, fun a ha b hb hab => ?_⟩
  exact of_decide_eq_true (List.mem_filter.mp ha).2 (hab.trans (List.mem_singleton.mp hb))

/-- Moving a key to the end keeps a suborder. -/
theorem moveToEnd_sublist {l l' : List κ} (h : l.Sublist l') (k : κ) :
    (moveToEnd l k).Sublist (moveToEnd l' k) :=
  (h.filter _).append (List.Sublist.refl _)

omit [DecidableEq κ] in
/-- A suborder is what is left of the order when only its members are kept. -/
theorem filter_eq_of_sublist {l l' : List κ} (h : l.Sublist l') (hnodup : l'.Nodup) {p : κ → Bool}
    (hp : ∀ k ∈ l', p k = true ↔ k ∈ l) : l'.filter p = l := by
  induction h with
  | slnil => rfl
  | cons a h ih =>
    obtain ⟨ha, hnodup⟩ := List.nodup_cons.mp hnodup
    have hgone : ¬ p a = true := fun hpa => ha (h.subset ((hp a List.mem_cons_self).mp hpa))
    rw [List.filter_cons_of_neg hgone, ih hnodup fun k hk => hp k (List.mem_cons_of_mem a hk)]
  | cons_cons a h ih =>
    obtain ⟨ha, hnodup⟩ := List.nodup_cons.mp hnodup
    rw [List.filter_cons_of_pos ((hp a List.mem_cons_self).mpr List.mem_cons_self),
      ih hnodup fun k hk => ?_]
    rw [hp k (List.mem_cons_of_mem a hk), List.mem_cons]
    exact or_iff_right fun hka => ha (hka ▸ hk)

/-- The members outside an end of a list stand before it. -/
theorem filter_append_of_suffix {l l' : List κ} (h : l' <:+ l) (hnodup : l.Nodup) :
    (l.filter fun k => k ∉ l') ++ l' = l := by
  obtain ⟨before, rfl⟩ := h
  have hdisjoint := (List.nodup_append.mp hnodup).2.2
  have hbefore : (before.filter fun k => k ∉ l') = before :=
    List.filter_eq_self.mpr fun k hk => decide_eq_true fun hk' => hdisjoint k hk k hk' rfl
  have hend : (l'.filter fun k => k ∉ l') = [] :=
    List.filter_eq_nil_iff.mpr fun k hk => by simpa using hk
  rw [List.filter_append, hbefore, hend, List.append_nil]

/-- An end of the list that is within the bound is not shed. -/
theorem suffix_shed {excess : List α → Bool} {recent l : List α} (h : recent <:+ l)
    (hrecent : excess recent = false) : recent <:+ shed excess l := by
  induction l with
  | nil => exact h
  | cons a l ih =>
    rw [shed]
    split_ifs with hover
    · -- The list is over the bound, so the end is a proper one.
      rcases List.suffix_cons_iff.mp h with rfl | htail
      · rw [hrecent] at hover
        exact absurd hover (by decide)
      · exact ih htail
    · exact h

/-- What is left is an end of the list. -/
theorem shed_suffix (excess : List α → Bool) (l : List α) : shed excess l <:+ l := by
  induction l with
  | nil => exact List.suffix_rfl
  | cons a l ih =>
    rw [shed]
    split_ifs
    · exact ih.trans (List.suffix_cons a l)
    · exact List.suffix_rfl

/-- No more is shed than needed: with one more item the list is over the bound. -/
theorem excess_of_suffix {excess : List α → Bool} {l l' : List α} (h : l' <:+ l)
    (hlength : (shed excess l).length < l'.length) : excess l' = true := by
  induction l with
  | nil =>
    rw [List.suffix_nil.mp h] at hlength
    exact absurd hlength (Nat.lt_irrefl 0)
  | cons a l ih =>
    rw [shed] at hlength
    split_ifs at hlength with hover
    · rcases List.suffix_cons_iff.mp h with rfl | htail
      · exact hover
      · exact ih htail hlength
    · exact absurd h.length_le (not_le.mpr hlength)

/-- What is left is within the bound. -/
theorem excess_shed {excess : List α → Bool} (hnil : excess [] = false) (l : List α) :
    excess (shed excess l) = false := by
  induction l with
  | nil => exact hnil
  | cons a l ih =>
    rw [shed]
    split_ifs with h
    · exact ih
    · exact eq_false_of_ne_true h

end Lists

namespace Dict

variable {κ ν : Type*} [DecidableEq κ] (d : Dict κ ν) {k : κ} {v w : ν}

@[simp] theorem items_erase (k : κ) : (d.erase k).items = d.items.filter fun p => p.1 ≠ k := rfl

theorem items_set_of_notMem (h : k ∉ d.items.map Prod.fst) (v : ν) :
    (d.set k v).items = d.items ++ [(k, v)] := if_neg h

/-- Erasing a key and setting it again moves it to the end. -/
theorem items_touch (k : κ) (v : ν) : ((d.erase k).set k v).items = refresh d.items k v := by
  refine items_set_of_notMem _ (fun hmem => ?_) v
  obtain ⟨p, hp, hpk⟩ := List.mem_map.mp hmem
  exact of_decide_eq_true (List.mem_filter.mp hp).2 hpk

theorem get?_eq_some_iff : d.get? k = some v ↔ (k, v) ∈ d.items := by
  rw [get?, List.lookup_eq_some_iff]
  constructor
  · rintro ⟨l, l', hl, -⟩
    rw [hl]
    exact List.mem_append_right _ List.mem_cons_self
  · intro hmem
    obtain ⟨l, l', hl⟩ := List.append_of_mem hmem
    refine ⟨l, l', hl, fun p hp => ?_⟩
    have hnodup := d.nodup
    rw [hl, List.map_append, List.map_cons, List.nodup_append] at hnodup
    have hne := hnodup.2.2 _ (List.mem_map_of_mem hp) _ List.mem_cons_self
    exact bne_iff_ne.mpr hne.symm

/-- A list without repeated keys is loaded as it is. -/
theorem items_ofList {l : List (κ × ν)} (h : (l.map Prod.fst).Nodup) : (ofList l).items = l := by
  induction l using List.reverseRecOn with
  | nil => rfl
  | append_singleton l p ih =>
    rw [List.map_append, List.nodup_append] at h
    have hitems := ih h.1
    have hnew : p.1 ∉ (ofList l).items.map Prod.fst := by
      rw [hitems]
      exact fun hmem => h.2.2 _ hmem _ (List.mem_singleton_self _) rfl
    rw [ofList, List.foldl_append]
    exact (items_set_of_notMem _ hnew _).trans (by rw [hitems])

theorem get?_eq_none_iff : d.get? k = none ↔ k ∉ d.items.map Prod.fst := by
  constructor
  · intro h hmem
    obtain ⟨⟨k', v⟩, hp, rfl⟩ := List.mem_map.mp hmem
    rw [d.get?_eq_some_iff.mpr hp] at h
    cases h
  · intro h
    by_contra hget
    obtain ⟨v, hv⟩ := Option.ne_none_iff_exists'.mp hget
    exact h (List.mem_map_of_mem (d.get?_eq_some_iff.mp hv))

/-- What is found in the items whose keys pass a test. -/
theorem lookup_filter_fst (test : κ → Bool) (l : List (κ × ν)) (k : κ) :
    (l.filter fun p => test p.1).lookup k = if test k then l.lookup k else none := by
  induction l with
  | nil => simp
  | cons p l ih =>
    obtain ⟨k', v⟩ := p
    rw [List.filter_cons, List.lookup_cons]
    by_cases hk : k = k'
    · subst hk
      cases htest : test k <;> simp [htest, ih]
    · have hne : (k == k') = false := beq_eq_false_iff_ne.mpr hk
      cases htest : test k' <;> simp [List.lookup_cons, hne, ih]

/-- Items of different keys that are set one after the other. -/
theorem get?_foldl_set {l : List (κ × ν)} (h : (l.map Prod.fst).Nodup) (k : κ) :
    (l.foldl (fun d p => d.set p.1 p.2) d).get? k = (l.lookup k).or (d.get? k) := by
  induction l generalizing d with
  | nil => rfl
  | cons p l ih =>
    obtain ⟨hp, hl⟩ := List.nodup_cons.mp h
    rw [List.foldl_cons, ih _ hl, get?_set, List.lookup_cons]
    by_cases hk : k = p.1
    · have hnone : l.lookup k = none := List.lookup_eq_none_iff.mpr fun q hq =>
        bne_iff_ne.mpr fun heq => hp (hk ▸ heq ▸ List.mem_map_of_mem hq)
      rw [hnone, if_pos hk, beq_iff_eq.mpr hk]
      rfl
    · have hne : (k == p.1) = false := beq_eq_false_iff_ne.mpr hk
      rw [if_neg hk, hne]

/-- What is found in a loaded list without repeated keys. -/
theorem get?_ofList {l : List (κ × ν)} (h : (l.map Prod.fst).Nodup) (k : κ) :
    (ofList l).get? k = l.lookup k := by
  rw [ofList, get?_foldl_set _ h, get?_empty, Option.or_none]

omit [DecidableEq κ] in
/-- The item of a key stands between items of other keys. -/
theorem exists_split (h : (k, v) ∈ d.items) : ∃ l l', d.items = l ++ (k, v) :: l' ∧
    (∀ p ∈ l, p.1 ≠ k) ∧ ∀ p ∈ l', p.1 ≠ k := by
  obtain ⟨l, l', hl⟩ := List.append_of_mem h
  have hnodup := d.nodup
  rw [hl, List.map_append, List.map_cons, List.nodup_append, List.nodup_cons] at hnodup
  refine ⟨l, l', hl, fun p hp hpk => ?_, fun p hp hpk => ?_⟩
  · exact hnodup.2.2 _ (List.mem_map_of_mem hp) _ List.mem_cons_self hpk
  · exact hnodup.2.1.1 (List.mem_map.mpr ⟨p, hp, hpk⟩)

/-- A total over the items loses what the erased item counted for. -/
theorem sum_erase (f : κ × ν → ℕ) (h : (k, v) ∈ d.items) :
    (((d.erase k).items.map f).sum) + f (k, v) = (d.items.map f).sum := by
  obtain ⟨l, l', hl, hbefore, hafter⟩ := d.exists_split h
  have hkeep (m : List (κ × ν)) (hm : ∀ p ∈ m, p.1 ≠ k) : (m.filter fun p => p.1 ≠ k) = m :=
    List.filter_eq_self.mpr fun p hp => decide_eq_true (hm p hp)
  rw [items_erase, hl, List.filter_append, List.filter_cons_of_neg (by simp), hkeep l hbefore,
    hkeep l' hafter]
  simp only [List.map_append, List.map_cons, List.sum_append, List.sum_cons]
  omega

/-- Erasing a key, present or not, in a total over the items. -/
theorem sum_erase_add (f : κ × ν → ℕ) (k : κ) :
    ((d.erase k).items.map f).sum + ((d.get? k).map fun w => f (k, w)).getD 0 =
      (d.items.map f).sum := by
  cases hget : d.get? k with
  | none =>
    have hkeep : (d.erase k).items = d.items := by
      rw [items_erase]
      exact List.filter_eq_self.mpr fun p hp =>
        decide_eq_true fun hpk => d.get?_eq_none_iff.mp hget (hpk ▸ List.mem_map_of_mem hp)
    rw [hkeep]
    rfl
  | some w => exact d.sum_erase f (d.get?_eq_some_iff.mp hget)

/-- Storing a key in a total over the items: its old item stops counting. -/
theorem sum_set (f : κ × ν → ℕ) (k : κ) (v : ν) :
    ((d.set k v).items.map f).sum + ((d.get? k).map fun w => f (k, w)).getD 0 =
      (d.items.map f).sum + f (k, v) := by
  cases hget : d.get? k with
  | none =>
    rw [d.items_set_of_notMem (d.get?_eq_none_iff.mp hget), List.map_append, List.sum_append]
    rfl
  | some w =>
    obtain ⟨l, l', hl, hbefore, hafter⟩ := d.exists_split (d.get?_eq_some_iff.mp hget)
    have hkeep (m : List (κ × ν)) (hm : ∀ p ∈ m, p.1 ≠ k) :
        (m.map fun p => if p.1 = k then (k, v) else p) = m := by
      rw [List.map_congr_left fun p hp => if_neg (hm p hp), List.map_id']
    have hmem : k ∈ d.items.map Prod.fst := by
      rw [hl, List.map_append, List.map_cons]
      exact List.mem_append_right _ List.mem_cons_self
    have hset : (d.set k v).items = l ++ (k, v) :: l' := by
      show (if _ then _ else _) = _
      rw [if_pos hmem, hl, List.map_append, List.map_cons, hkeep l hbefore, hkeep l' hafter,
        if_pos rfl]
    rw [hset, hl]
    simp only [List.map_append, List.map_cons, List.sum_append, List.sum_cons, Option.map_some,
      Option.getD_some]
    omega

end Dict

end Containers
