import BeamAgents.Containers.Recency
import Mathlib.Data.Finset.Sort

/-!
# The smallest elements of a set

The first elements of a set in order. An element is among the `n` smallest exactly when fewer than
`n` elements are before it. The smallest elements of a union are found among the smallest elements
of one part and all of the other, so that a limited result can be merged with further elements and
limited again.

## Main definitions

* `Containers.smallest`.

## Main results

* `Containers.mem_smallest_iff`: the elements with fewer than `n` before them.
* `Containers.smallest_union`: a limited part of a union is wide enough.
* `Containers.smallest_eq_iff`: when two sets have the same smallest elements.
* `Containers.take_sorted_iff`: when repetitions in a sorted list do not show among its first
  elements.
* `Containers.take_mergeSort_values`: the first values of a dictionary in the order of their keys.
-/

namespace Containers

variable {κ : Type*} [LinearOrder κ] {n : ℕ} {s t : Finset κ} {a : κ}

/-- The `n` smallest elements, in order. -/
def smallest (n : ℕ) (s : Finset κ) : List κ := s.sort.take n

theorem smallest_subset : (smallest n s).toFinset ⊆ s := fun _ ha =>
  (Finset.mem_sort _).mp (List.mem_of_mem_take (List.mem_toFinset.mp ha))

private theorem mem_take_iff {l : List κ} (h : l.Pairwise (· < ·)) :
    a ∈ l.take n ↔ a ∈ l ∧ (l.filter (· < a)).length < n := by
  induction l generalizing n with
  | nil => simp
  | cons b l ih =>
    obtain ⟨hb, hl⟩ := List.pairwise_cons.mp h
    cases n with
    | zero => simp
    | succ n =>
      rw [List.take_succ_cons, List.mem_cons, List.mem_cons, ih hl]
      by_cases hab : a = b
      · subst hab
        have hfirst : (a :: l).filter (· < a) = [] :=
          List.filter_eq_nil_iff.mpr fun c hc => by
            rcases List.mem_cons.mp hc with rfl | hc
            · simp
            · simpa using (hb c hc).le
        simp [hfirst]
      · rw [or_iff_right hab, or_iff_right hab]
        refine and_congr_right fun ha => ?_
        rw [List.filter_cons_of_pos (by simpa using hb a ha), List.length_cons,
          Nat.add_lt_add_iff_right]

/-- **The smallest elements** are those with fewer than `n` elements before them. -/
theorem mem_smallest_iff : a ∈ smallest n s ↔ a ∈ s ∧ (s.filter (· < a)).card < n := by
  rw [smallest, mem_take_iff s.sortedLT_sort.pairwise, Finset.mem_sort]
  have hcard : (s.sort.filter (· < a)).length = (s.filter (· < a)).card := by
    rw [← List.toFinset_card_of_nodup ((s.sort_nodup _).filter _), List.toFinset_filter,
      Finset.sort_toFinset]
    simp
  rw [hcard]

theorem nodup_smallest (n : ℕ) (s : Finset κ) : (smallest n s).Nodup :=
  (s.sort_nodup _).sublist (List.take_sublist n _)

/-- An element that is cut off comes after `n` elements that are not. -/
theorem card_before_cut (ha : a ∈ s) (hcut : a ∉ smallest n s) :
    (smallest n s).toFinset ⊆ s.filter (· < a) ∧ (smallest n s).toFinset.card = n := by
  have hmany : n ≤ (s.filter (· < a)).card := by
    by_contra hfew
    exact hcut (mem_smallest_iff.mpr ⟨ha, Nat.lt_of_not_le hfew⟩)
  constructor
  · intro b hb
    obtain ⟨hbs, hbfew⟩ := mem_smallest_iff.mp (List.mem_toFinset.mp hb)
    refine Finset.mem_filter.mpr ⟨hbs, lt_of_not_ge fun hab => ?_⟩
    have hle : (s.filter (· < a)).card ≤ (s.filter (· < b)).card :=
      Finset.card_le_card fun c hc => by
        obtain ⟨hcs, hca⟩ := Finset.mem_filter.mp hc
        exact Finset.mem_filter.mpr ⟨hcs, lt_of_lt_of_le hca hab⟩
    omega
  · have hcard : (s.filter (· < a)).card ≤ s.card := Finset.card_filter_le _ _
    rw [List.toFinset_card_of_nodup (nodup_smallest n s), smallest, List.length_take,
      Finset.length_sort]
    omega

/-- Two sets with the same smallest elements have them in the same order. -/
theorem smallest_congr {m : ℕ} (h : ∀ a, a ∈ smallest n s ↔ a ∈ smallest m t) :
    smallest n s = smallest m t := by
  have hsorted (n : ℕ) (s : Finset κ) : (smallest n s).toFinset.sort = smallest n s :=
    (List.toFinset_sort _ (nodup_smallest n s)).mpr
      ((s.pairwise_sort _).sublist (List.take_sublist n _))
  have hset : (smallest n s).toFinset = (smallest m t).toFinset := by
    ext a
    rw [List.mem_toFinset, List.mem_toFinset, h a]
  rw [← hsorted n s, ← hsorted m t, hset]

/-- The elements up to one of them. -/
theorem card_filter_le (ha : a ∈ s) :
    (s.filter (· ≤ a)).card = (s.filter (· < a)).card + 1 := by
  have hset : s.filter (· ≤ a) = insert a (s.filter (· < a)) := by
    ext b
    simp only [Finset.mem_filter, Finset.mem_insert, le_iff_eq_or_lt]
    constructor
    · rintro ⟨hb, rfl | hlt⟩
      · exact .inl rfl
      · exact .inr ⟨hb, hlt⟩
    · rintro (rfl | ⟨hb, hlt⟩)
      · exact ⟨ha, .inl rfl⟩
      · exact ⟨hb, .inr hlt⟩
  rw [hset, Finset.card_insert_of_notMem (by simp)]

/-- One of two sets that agree before an element has as many elements before it as the other. -/
private theorem filter_lt_congr (h : ∀ b < a, b ∈ s ↔ b ∈ t) :
    s.filter (· < a) = t.filter (· < a) := by
  ext b
  simp only [Finset.mem_filter]
  exact and_congr_left fun hb => h b hb

/-- **Two sets have the same smallest elements** exactly when every element of only one of them
comes after `n` elements. -/
theorem smallest_eq_iff : smallest n s = smallest n t ↔
    ∀ a, ¬ (a ∈ s ↔ a ∈ t) → n ≤ (s.filter (· < a)).card := by
  constructor
  · intro heq a hdiff
    by_contra hfew
    push Not at hfew
    by_cases ha : a ∈ s
    · have hmem : a ∈ smallest n t := heq ▸ mem_smallest_iff.mpr ⟨ha, hfew⟩
      exact hdiff (iff_of_true ha (mem_smallest_iff.mp hmem).1)
    · have hat : a ∈ t := by
        by_contra hat
        exact hdiff (iff_of_false ha hat)
      have hcut : a ∉ smallest n t := heq ▸ fun hmem => ha (mem_smallest_iff.mp hmem).1
      obtain ⟨hbefore, hcard⟩ := card_before_cut hat hcut
      have hsub : (smallest n t).toFinset ⊆ s.filter (· < a) := fun b hb =>
        Finset.mem_filter.mpr ⟨smallest_subset (heq ▸ hb), (Finset.mem_filter.mp (hbefore hb)).2⟩
      have := Finset.card_le_card hsub
      omega
  · intro h
    -- Before an element with fewer than `n` elements before it, the sets agree.
    have hagree {a : κ} (hfew : (s.filter (· < a)).card < n) : ∀ b ≤ a, b ∈ s ↔ b ∈ t := by
      intro b hb
      by_contra hdiff
      have hle : (s.filter (· < b)).card ≤ (s.filter (· < a)).card :=
        Finset.card_le_card fun c hc =>
          Finset.mem_filter.mpr
            ⟨(Finset.mem_filter.mp hc).1, (Finset.mem_filter.mp hc).2.trans_le hb⟩
      have := h b hdiff
      omega
    refine smallest_congr fun a => ?_
    rw [mem_smallest_iff, mem_smallest_iff]
    by_cases hfew : (s.filter (· < a)).card < n
    · have hset : s.filter (· < a) = t.filter (· < a) :=
        filter_lt_congr fun b hb => hagree hfew b hb.le
      rw [hagree hfew a le_rfl, hset]
    · refine iff_of_false (fun h => hfew h.2) fun ⟨_, htfew⟩ => ?_
      have hsub : (smallest n s).toFinset ⊆ t.filter (· < a) := by
        intro b hb
        obtain ⟨hbs, hbfew⟩ := mem_smallest_iff.mp (List.mem_toFinset.mp hb)
        refine Finset.mem_filter.mpr ⟨(hagree hbfew b le_rfl).mp hbs, lt_of_not_ge fun hab => ?_⟩
        have hle : (s.filter (· < a)).card ≤ (s.filter (· < b)).card :=
          Finset.card_le_card fun c hc =>
            Finset.mem_filter.mpr
              ⟨(Finset.mem_filter.mp hc).1, (Finset.mem_filter.mp hc).2.trans_le hab⟩
        omega
      have hmany : (s.filter (· < a)).card ≤ s.card := Finset.card_filter_le _ _
      have hcard : (smallest n s).toFinset.card = n := by
        rw [List.toFinset_card_of_nodup (nodup_smallest n s), smallest, List.length_take,
          Finset.length_sort]
        omega
      have := Finset.card_le_card hsub
      omega

theorem smallest_insert (h : ∀ b ∈ s, a < b) (n : ℕ) :
    smallest (n + 1) (insert a s) = a :: smallest n s := by
  rw [smallest, Finset.sort_insert _ (fun b hb => (h b hb).le) fun ha => lt_irrefl a (h a ha),
    List.take_succ_cons, smallest]

/-- **A limited part is wide enough**: the smallest elements of a union are the smallest of one
part's smallest elements and the other part. -/
theorem smallest_union (n : ℕ) (s t : Finset κ) :
    smallest n ((smallest n s).toFinset ∪ t) = smallest n (s ∪ t) := by
  have hsub : (smallest n s).toFinset ∪ t ⊆ s ∪ t := Finset.union_subset_union_left smallest_subset
  refine smallest_congr fun a => ?_
  rw [mem_smallest_iff, mem_smallest_iff]
  constructor
  · rintro ⟨ha, hfew⟩
    refine ⟨hsub ha, lt_of_le_of_lt (Finset.card_le_card fun b hb => ?_) hfew⟩
    obtain ⟨hb, hba⟩ := Finset.mem_filter.mp hb
    refine Finset.mem_filter.mpr ⟨?_, hba⟩
    rcases Finset.mem_union.mp hb with hs | ht
    · by_contra hcut
      obtain ⟨hbefore, hcard⟩ := card_before_cut hs fun h =>
        hcut (Finset.mem_union_left _ (List.mem_toFinset.mpr h))
      have hmany := Finset.card_le_card (s := (smallest n s).toFinset)
        (t := ((smallest n s).toFinset ∪ t).filter (· < a)) fun c hc =>
          Finset.mem_filter.mpr ⟨Finset.mem_union_left _ hc,
            (Finset.mem_filter.mp (hbefore hc)).2.trans hba⟩
      omega
    · exact Finset.mem_union_right _ ht
  · rintro ⟨ha, hfew⟩
    refine ⟨?_, lt_of_le_of_lt (Finset.card_le_card (Finset.filter_subset_filter _ hsub)) hfew⟩
    rcases Finset.mem_union.mp ha with hs | ht
    · refine Finset.mem_union_left _ (List.mem_toFinset.mpr (mem_smallest_iff.mpr ⟨hs, ?_⟩))
      exact lt_of_le_of_lt
        (Finset.card_le_card (Finset.filter_subset_filter _ Finset.subset_union_left)) hfew
    · exact Finset.mem_union_right _ ht

/-! ### Sorted lists -/

/-- The first elements of a sorted list. -/
theorem take_mergeSort {l : List κ} (h : l.Nodup) (n : ℕ) :
    (l.mergeSort fun a b => decide (a ≤ b)).take n = smallest n l.toFinset := by
  have hperm := l.mergeSort_perm fun a b => decide (a ≤ b)
  have hset : (l.mergeSort fun a b => decide (a ≤ b)).toFinset = l.toFinset := by
    ext a
    rw [List.mem_toFinset, List.mem_toFinset, hperm.mem_iff]
  have hsort := (List.toFinset_sort (· ≤ ·) (hperm.nodup_iff.mpr h)).mpr
    (List.pairwise_mergeSort' (· ≤ ·) l)
  rw [smallest, ← hset, hsort]

/-- The first items in the order of their keys, when no two items have the same key. -/
theorem take_mergeSort_by {ι ν : Type*} {items : List ι} {key : ι → κ} {value : ι → ν}
    {find : κ → Option ν} (hnodup : (items.map key).Nodup)
    (hfind : ∀ i ∈ items, find (key i) = some (value i)) (n : ℕ) :
    ((items.mergeSort fun a b => decide (key a ≤ key b)).take n).map value =
      (smallest n (items.map key).toFinset).filterMap find := by
  have hkeys : (items.mergeSort fun a b => decide (key a ≤ key b)).map key =
      (items.map key).mergeSort fun a b => decide (a ≤ b) := List.map_mergeSort fun a _ b _ => rfl
  rw [← take_mergeSort hnodup, ← hkeys, ← List.map_take, List.filterMap_map]
  have hfound : ∀ i ∈ (items.mergeSort fun a b => decide (key a ≤ key b)).take n,
      (find ∘ key) i = some (value i) := fun i hi =>
    hfind i (List.mem_mergeSort.mp (List.mem_of_mem_take hi))
  rw [List.filterMap_congr hfound, ← List.filterMap_eq_map]
  rfl

/-- **The first values in the order of their keys**, when each value shows its key. -/
theorem take_mergeSort_values {ν : Type*} (d : Dict κ ν) (key : ν → κ)
    (hkey : ∀ p ∈ d.items, key p.2 = p.1) (n : ℕ) :
    (d.values.mergeSort fun a b => decide (key a ≤ key b)).take n =
      (smallest n d.keys.toFinset).filterMap d.get? := by
  have hkeys : d.values.map key = d.keys := by
    rw [Dict.values, Dict.keys, List.map_map]
    exact List.map_congr_left hkey
  have hnodup : (d.values.map key).Nodup := hkeys ▸ d.nodup
  have hfind : ∀ v ∈ d.values, d.get? (key v) = some (id v) := by
    intro v hv
    obtain ⟨p, hp, rfl⟩ := List.mem_map.mp hv
    rw [hkey p hp]
    exact d.get?_eq_some_iff.mpr hp
  have hfirst := take_mergeSort_by hnodup hfind n
  rwa [List.map_id, hkeys] at hfirst

/-- Of a repeated first element only one place is right. -/
private theorem take_repeated_iff {b : κ} {l : List κ} (h : (b :: l).Pairwise (· ≤ ·))
    (hrepeated : b ∈ l) (n : ℕ) : (b :: l).take n = smallest n (b :: l).toFinset ↔ n ≤ 1 := by
  obtain ⟨hb, hl⟩ := List.pairwise_cons.mp h
  constructor
  · intro heq
    by_contra hmany
    push Not at hmany
    obtain ⟨m, rfl⟩ := Nat.exists_eq_add_of_lt hmany
    obtain ⟨c, l, rfl⟩ := List.exists_cons_of_ne_nil (List.ne_nil_of_mem hrepeated)
    have hc : b = c := le_antisymm (hb c List.mem_cons_self) <| by
      rcases List.mem_cons.mp hrepeated with rfl | hmem
      · exact le_rfl
      · exact (List.pairwise_cons.mp hl).1 b hmem
    have hnodup := nodup_smallest (1 + m + 1) (b :: c :: l).toFinset
    rw [← heq, hc, Nat.add_comm 1 m] at hnodup
    simp at hnodup
  · intro hn
    rcases Nat.le_one_iff_eq_zero_or_eq_one.mp hn with rfl | rfl
    · rfl
    · have hset : (b :: l).toFinset = insert b (l.toFinset.erase b) := by
        ext a
        by_cases ha : a = b <;> simp [ha]
      have hlt : ∀ c ∈ l.toFinset.erase b, b < c := by
        intro c hc
        obtain ⟨hne, hmem⟩ := Finset.mem_erase.mp hc
        exact lt_of_le_of_ne (hb c (List.mem_toFinset.mp hmem)) hne.symm
      rw [hset, smallest_insert hlt]
      rfl

/-- **Repetitions among the first elements.** The first elements of a sorted list are the smallest
of its set exactly when no repetition of an element has a place among them. -/
theorem take_sorted_iff {l : List κ} (h : l.Pairwise (· ≤ ·)) (n : ℕ) :
    l.take n = smallest n l.toFinset ↔
      ∀ a, 1 < l.count a → n ≤ (l.toFinset.filter (· ≤ a)).card := by
  induction l generalizing n with
  | nil => simp [smallest]
  | cons b l ih =>
    obtain ⟨hb, hl⟩ := List.pairwise_cons.mp h
    by_cases hrepeated : b ∈ l
    · rw [take_repeated_iff h hrepeated]
      constructor
      · intro hn a ha
        have hmem : a ∈ (b :: l).toFinset.filter (· ≤ a) := by
          have hpos : 0 < (b :: l).count a := by omega
          simpa using List.count_pos_iff.mp hpos
        have := Finset.card_pos.mpr ⟨a, hmem⟩
        omega
      · intro hall
        have hcount : 1 < (b :: l).count b := by
          rw [List.count_cons_self]
          have := List.count_pos_iff.mpr hrepeated
          omega
        have hfirst : (b :: l).toFinset.filter (· ≤ b) = {b} := by
          ext a
          simp only [Finset.mem_filter, List.mem_toFinset, List.mem_cons, Finset.mem_singleton]
          refine ⟨fun ⟨ha, hab⟩ => ?_, fun ha => ⟨.inl ha, ha.le⟩⟩
          exact ha.elim id fun ha => le_antisymm hab (hb a ha)
        have hle := hall b hcount
        rwa [hfirst, Finset.card_singleton] at hle
    · have hlt : ∀ c ∈ l.toFinset, b < c := fun c hc =>
        lt_of_le_of_ne (hb c (List.mem_toFinset.mp hc)) fun h =>
          hrepeated (h ▸ List.mem_toFinset.mp hc)
      cases n with
      | zero => simp [smallest]
      | succ n =>
        rw [List.toFinset_cons, smallest_insert hlt, List.take_succ_cons, List.cons.injEq,
          and_iff_right rfl, ih hl]
        refine forall_congr' fun a => ?_
        by_cases ha : a = b
        · subst ha
          simp [List.count_eq_zero_of_not_mem hrepeated]
        · rw [List.count_cons_of_ne (Ne.symm ha)]
          refine imp_congr_right fun hcount => ?_
          have hmem : a ∈ l := List.count_pos_iff.mp (by omega)
          have hnew : b ∉ l.toFinset.filter (· ≤ a) := by simp [hrepeated]
          rw [Finset.filter_insert, if_pos (hb a hmem), Finset.card_insert_of_notMem hnew,
            Nat.add_le_add_iff_right]

end Containers
