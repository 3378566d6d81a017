import Mathlib.Data.List.Basic
import Mathlib.Data.List.Induction
import Mathlib.Data.List.Nodup
import Mathlib.Logic.Function.Basic
import Mathlib.Order.Lattice

/-!
# Rows guarded by a version

A table of rows in which a write carries a version and takes effect only where the row it finds is
not of a later one. The version of a row never decreases, a prefix of a list of writes is absorbed
by the whole list, and the last write that counts is the one a row holds as long as the guard lets
each such write through and no other write disturbs a row.

## Main definitions

* `Containers.Write`, `Containers.Rows`, `Containers.Rows.put`, `Containers.Rows.putAll`.
* `Containers.Rows.Admits`: the guard lets a write through.
* `Containers.Rows.HoldsLast`: every row holds the value of the last write to it in a list.
* `Containers.Rows.Sound`: of a list of writes, each one that counts is admitted when it is made,
  and no other one disturbs a row.

## Main results

* `Containers.Rows.putAll_eq_self_iff`: when writes to different rows leave the table as it is.
* `Containers.Rows.putAll_prefix`: writes that were made before, up to any point, are absorbed.
* `Containers.Rows.putAll_highest`: writes in any order leave a write of the highest version.
* `Containers.Rows.HoldsLast.putAll`: sound writes keep the last value that counts.
-/

namespace Containers

variable {κ ι ν β : Type*}

/-- A write: the row, the version and the value. -/
@[ext]
structure Write (κ ι ν : Type*) where
  key : κ
  version : ι
  value : ν

/-- A table: under each key a version and a value, or nothing. -/
abbrev Rows (κ ι ν : Type*) := κ → Option (ι × ν)

namespace Rows

variable [DecidableEq κ] [LinearOrder ι] {rows : Rows κ ι ν} {w : Write κ ι ν}
  {ws vs : List (Write κ ι ν)} {k : κ}

/-- The row that the write finds is not of a later version. -/
def Admits (rows : Rows κ ι ν) (w : Write κ ι ν) : Prop := ∀ row ∈ rows w.key, row.1 ≤ w.version

instance (rows : Rows κ ι ν) (w : Write κ ι ν) : Decidable (rows.Admits w) :=
  match h : rows w.key with
  | none => isTrue (by simp [Admits, h])
  | some row => decidable_of_iff (row.1 ≤ w.version) (by simp [Admits, h])

/-- Write where the guard lets it. -/
def put (rows : Rows κ ι ν) (w : Write κ ι ν) : Rows κ ι ν :=
  if rows.Admits w then Function.update rows w.key (some (w.version, w.value)) else rows

/-- The writes in order. -/
def putAll (rows : Rows κ ι ν) (ws : List (Write κ ι ν)) : Rows κ ι ν := ws.foldl put rows

@[simp] theorem putAll_nil : rows.putAll [] = rows := rfl

@[simp] theorem putAll_cons : rows.putAll (w :: ws) = (rows.put w).putAll ws := rfl

theorem putAll_append : rows.putAll (ws ++ vs) = (rows.putAll ws).putAll vs := List.foldl_append

theorem put_of_admits (h : rows.Admits w) :
    rows.put w = Function.update rows w.key (some (w.version, w.value)) := if_pos h

theorem put_of_not_admits (h : ¬ rows.Admits w) : rows.put w = rows := if_neg h

theorem put_self (h : rows.Admits w) : rows.put w w.key = some (w.version, w.value) := by
  rw [put_of_admits h, Function.update_self]

/-- The row of a write is not empty afterwards. -/
theorem put_key_ne_none : rows.put w w.key ≠ none := by
  by_cases h : rows.Admits w
  · rw [put_self h]
    exact Option.some_ne_none _
  · rw [put_of_not_admits h]
    intro hnone
    exact h fun row hrow => absurd hrow (hnone ▸ Option.not_mem_none row)

theorem put_of_ne (h : k ≠ w.key) : rows.put w k = rows k := by
  by_cases hadmits : rows.Admits w
  · rw [put_of_admits hadmits, Function.update_of_ne h]
  · rw [put_of_not_admits hadmits]

/-- A write leaves the table as it is when the guard refuses it or the row is there already. -/
theorem put_eq_self_iff :
    rows.put w = rows ↔ ¬ rows.Admits w ∨ rows w.key = some (w.version, w.value) := by
  by_cases h : rows.Admits w
  · rw [put_of_admits h, Function.update_eq_self_iff]
    simp [h, eq_comm]
  · simp [put_of_not_admits h, h]

/-- Writes to other rows do not touch this one. -/
theorem putAll_of_forall_ne (h : ∀ w ∈ ws, w.key ≠ k) : rows.putAll ws k = rows k := by
  induction ws generalizing rows with
  | nil => rfl
  | cons w ws ih =>
    rw [putAll_cons, ih fun v hv => h v (List.mem_cons_of_mem w hv)]
    exact put_of_ne (h w List.mem_cons_self).symm

/-- Of writes to different rows each one that the guard lets through is what its row holds. -/
theorem putAll_of_mem (hnodup : (ws.map Write.key).Nodup) (hw : w ∈ ws) (h : rows.Admits w) :
    rows.putAll ws w.key = some (w.version, w.value) := by
  obtain ⟨before, after, rfl⟩ := List.append_of_mem hw
  rw [List.map_append, List.map_cons, List.nodup_append, List.nodup_cons] at hnodup
  have hbefore : ∀ v ∈ before, v.key ≠ w.key := fun v hv heq =>
    hnodup.2.2 _ (List.mem_map_of_mem hv) _ List.mem_cons_self heq
  have hafter : ∀ v ∈ after, v.key ≠ w.key := fun v hv heq =>
    hnodup.2.1.1 (List.mem_map.mpr ⟨v, hv, heq⟩)
  have hrow : rows.putAll before w.key = rows w.key := putAll_of_forall_ne hbefore
  have hadmits : (rows.putAll before).Admits w := fun row hrow' => h row (hrow ▸ hrow')
  rw [putAll_append, putAll_cons, putAll_of_forall_ne hafter, put_self hadmits]

omit [DecidableEq κ] in
/-- Whether the guard lets a write through depends on its own row alone. -/
theorem admits_congr {rows' : Rows κ ι ν} (h : rows w.key = rows' w.key) :
    rows.Admits w ↔ rows'.Admits w := by
  rw [Admits, Admits, h]

/-- What a write leaves in a row depends on what was there. -/
theorem put_congr {rows' : Rows κ ι ν} (h : rows k = rows' k) : rows.put w k = rows'.put w k := by
  by_cases hk : k = w.key
  · subst hk
    by_cases hadmits : rows.Admits w
    · rw [put_self hadmits, put_self ((admits_congr h).mp hadmits)]
    · rw [put_of_not_admits hadmits,
        put_of_not_admits fun h' => hadmits ((admits_congr h).mpr h'), h]
  · rw [put_of_ne hk, put_of_ne hk, h]

theorem putAll_congr {rows' : Rows κ ι ν} (h : rows k = rows' k) :
    rows.putAll ws k = rows'.putAll ws k := by
  induction ws generalizing rows rows' with
  | nil => exact h
  | cons w ws ih => exact ih (put_congr h)

/-- **Writes to different rows leave the table as it is** exactly when each of them alone does. -/
theorem putAll_eq_self_iff (hnodup : (ws.map Write.key).Nodup) :
    rows.putAll ws = rows ↔ ∀ w ∈ ws, rows.put w = rows := by
  induction ws generalizing rows with
  | nil => simp
  | cons w ws ih =>
    obtain ⟨hw, hws⟩ := List.nodup_cons.mp hnodup
    have hother : ∀ v ∈ ws, v.key ≠ w.key := fun v hv heq =>
      hw (heq ▸ List.mem_map_of_mem hv)
    rw [List.forall_mem_cons, putAll_cons]
    constructor
    · intro h
      have hfirst : rows.put w = rows := by
        funext k
        by_cases hk : k = w.key
        · have hkept : (rows.put w).putAll ws w.key = rows.put w w.key :=
            putAll_of_forall_ne hother
          rw [hk, ← hkept, h]
        · exact put_of_ne hk
      rw [hfirst] at h
      exact ⟨hfirst, (ih hws).mp h⟩
    · rintro ⟨hfirst, hrest⟩
      rw [hfirst]
      exact (ih hws).mpr hrest

/-! ### Versions -/

/-- No row is of a later version than the write. -/
theorem admits_putAll (h : rows.Admits w) (hws : ∀ v ∈ ws, v.key = w.key → v.version ≤ w.version) :
    (rows.putAll ws).Admits w := by
  induction ws generalizing rows with
  | nil => exact h
  | cons v ws ih =>
    rw [putAll_cons]
    refine ih ?_ fun u hu => hws u (List.mem_cons_of_mem v hu)
    by_cases hk : w.key = v.key
    · by_cases hadmits : rows.Admits v
      · intro row hrow
        rw [hk, put_self hadmits] at hrow
        cases hrow
        exact hws v List.mem_cons_self hk.symm
      · rwa [put_of_not_admits hadmits]
    · exact (admits_congr (put_of_ne hk)).mpr h

/-- Writes never take a row back to an earlier version. -/
theorem version_putAll {row : ι × ν} (h : rows k = some row) :
    ∃ row', rows.putAll ws k = some row' ∧ row.1 ≤ row'.1 := by
  induction ws generalizing rows row with
  | nil => exact ⟨row, h, le_rfl⟩
  | cons w ws ih =>
    rw [putAll_cons]
    by_cases hk : k = w.key
    · subst hk
      by_cases hadmits : rows.Admits w
      · obtain ⟨row', hrow', hle⟩ := ih (put_self hadmits)
        exact ⟨row', hrow', le_trans (hadmits row h) hle⟩
      · rw [put_of_not_admits hadmits]
        exact ih h
    · exact ih ((put_of_ne hk).trans h)

/-- A write that the guard lets through leaves a row that admits all that were refused before. -/
theorem version_le_of_putAll (h : (rows.putAll ws).Admits w) {v : Write κ ι ν} (hv : v ∈ ws)
    (hk : v.key = w.key) : v.version ≤ w.version := by
  induction ws generalizing rows with
  | nil => cases hv
  | cons u ws ih =>
    rcases List.mem_cons.mp hv with rfl | hv
    · -- The row is of the version of `v`, or of a later one, from then on.
      by_cases hadmits : rows.Admits v
      · obtain ⟨row, hrow, hle⟩ : ∃ row, (rows.put v).putAll ws v.key = some row ∧
            v.version ≤ row.1 := version_putAll (put_self hadmits)
        exact le_trans hle (h row (hk ▸ hrow))
      · simp only [Admits, not_forall] at hadmits
        obtain ⟨row, hrow, hlater⟩ := hadmits
        obtain ⟨row', hrow', hle⟩ : ∃ row', rows.putAll (v :: ws) v.key = some row' ∧
            row.1 ≤ row'.1 := version_putAll hrow
        exact le_trans (le_trans (le_of_not_ge hlater) hle) (h row' (hk ▸ hrow'))
    · exact ih h hv

/-- **Repeated writes are absorbed.** Making the writes once more changes nothing. -/
theorem putAll_putAll : (rows.putAll ws).putAll ws = rows.putAll ws := by
  induction ws using List.reverseRecOn with
  | nil => rfl
  | append_singleton ws w ih =>
    rw [putAll_append, putAll_append, putAll_cons, putAll_nil]
    by_cases h : (rows.putAll ws).Admits w
    · -- All writes before `w` to its row are of no later version.
      have hself : ((rows.putAll ws).put w).Admits w := by
        intro row hrow
        rw [put_self h] at hrow
        cases hrow
        exact le_rfl
      have hagain : (((rows.putAll ws).put w).putAll ws).Admits w :=
        admits_putAll hself fun v hv hk => version_le_of_putAll h hv hk
      funext k
      by_cases hk : k = w.key
      · subst hk
        rw [putAll_cons, putAll_nil, put_self hagain, put_self h]
      · rw [putAll_cons, putAll_nil, put_of_ne hk, put_of_ne hk]
        have hrow : (rows.putAll ws).put w k = rows.putAll ws k := put_of_ne hk
        rw [← congrFun ih k]
        exact putAll_congr hrow
    · rw [putAll_cons, putAll_nil, put_of_not_admits h, ih, put_of_not_admits h]

/-- **A prefix is absorbed.** Writes of which some, from the first on, were made before leave what
they leave when none was. -/
theorem putAll_prefix (h : vs <+: ws) : (rows.putAll vs).putAll ws = rows.putAll ws := by
  obtain ⟨us, rfl⟩ := h
  rw [putAll_append, putAll_putAll, putAll_append]

/-- What the writes to a row leave in it: nothing without one, else a write of the highest
version. -/
def Highest (ws : List (Write κ ι ν)) (k : κ) (row : Option (ι × ν)) : Prop :=
  (row = none ∧ ∀ w ∈ ws, w.key ≠ k) ∨ ∃ w ∈ ws, w.key = k ∧ row = some (w.version, w.value) ∧
    ∀ v ∈ ws, v.key = k → v.version ≤ w.version

/-- **Writes in any order**, to a table that is empty at first, leave in each row a write of the
highest version. -/
theorem putAll_highest (ws : List (Write κ ι ν)) (k : κ) :
    Highest ws k (putAll (fun _ => none) ws k) := by
  induction ws using List.reverseRecOn with
  | nil => exact .inl ⟨rfl, List.forall_mem_nil _⟩
  | append_singleton ws w ih =>
    rw [putAll_append, putAll_cons, putAll_nil]
    by_cases hk : w.key = k
    · subst hk
      refine .inr ?_
      by_cases hadmits : (putAll (fun _ => none) ws).Admits w
      · refine ⟨w, by simp, rfl, put_self hadmits, fun v hv hvk => ?_⟩
        rcases List.mem_append.mp hv with hv | hv
        · exact version_le_of_putAll hadmits hv hvk
        · rw [List.mem_singleton.mp hv]
      · rw [put_of_not_admits hadmits]
        simp only [Admits, not_forall] at hadmits
        obtain ⟨row, hrow, hlater⟩ := hadmits
        rcases ih with ⟨hnone, -⟩ | ⟨top, htop, htopk, hvalue, hmax⟩
        · rw [hnone] at hrow
          cases hrow
        · rw [hvalue] at hrow
          cases hrow
          refine ⟨top, List.mem_append_left _ htop, htopk, hvalue, fun v hv hvk => ?_⟩
          rcases List.mem_append.mp hv with hv | hv
          · exact hmax v hv hvk
          · rw [List.mem_singleton.mp hv]
            exact le_of_not_ge hlater
    · rw [put_of_ne (Ne.symm hk)]
      rcases ih with ⟨hnone, hother⟩ | ⟨top, htop, htopk, hvalue, hmax⟩
      · refine .inl ⟨hnone, fun v hv => ?_⟩
        rcases List.mem_append.mp hv with hv | hv
        · exact hother v hv
        · rwa [List.mem_singleton.mp hv]
      · refine .inr ⟨top, List.mem_append_left _ htop, htopk, hvalue, fun v hv hvk => ?_⟩
        rcases List.mem_append.mp hv with hv | hv
        · exact hmax v hv hvk
        · exact absurd (List.mem_singleton.mp hv ▸ hvk) hk

/-- A table that holds the write where the guard let it, and else what was there. -/
theorem eq_put {rows' : Rows κ ι ν}
    (hself : rows.Admits w → rows' w.key = some (w.version, w.value))
    (hrefused : ¬ rows.Admits w → rows' w.key = rows w.key)
    (hother : ∀ k ≠ w.key, rows' k = rows k) : rows' = rows.put w := by
  funext k
  by_cases hk : k = w.key
  · subst hk
    by_cases hadmits : rows.Admits w
    · rw [hself hadmits, put_self hadmits]
    · rw [hrefused hadmits, put_of_not_admits hadmits]
  · rw [hother k hk, put_of_ne hk]

/-! ### The last write that counts -/

variable {f : ν → β}

/-- The last write to the row. -/
def lastTo (ws : List (Write κ ι ν)) (k : κ) : Option (Write κ ι ν) :=
  (ws.filter fun w => w.key = k).getLast?

/-- Every row that was written holds what `f` sees of the last write to it. -/
def HoldsLast (f : ν → β) (rows : Rows κ ι ν) (ws : List (Write κ ι ν)) : Prop :=
  ∀ k, ∀ w ∈ lastTo ws k, ∃ row ∈ rows k, f row.2 = f w.value

/-- A write that disturbs no row: the guard refuses it, or a row that is there holds its value. -/
def Harmless (f : ν → β) (rows : Rows κ ι ν) (w : Write κ ι ν) : Prop :=
  ¬ rows.Admits w ∨ ∀ row ∈ rows w.key, f row.2 = f w.value

/-- Of the writes, made one after the other, each one that counts is admitted, and each one that
does not is harmless. -/
def Sound (f : ν → β) : Rows κ ι ν → List (Bool × Write κ ι ν) → Prop
  | _, [] => True
  | rows, (true, w) :: ws => rows.Admits w ∧ Sound f (rows.put w) ws
  | rows, (false, w) :: ws => Harmless f rows w ∧ Sound f (rows.put w) ws

instance [DecidableEq β] (f : ν → β) (rows : Rows κ ι ν) (w : Write κ ι ν) :
    Decidable (Harmless f rows w) :=
  match h : rows w.key with
  | none => isTrue (by simp [Harmless, h])
  | some row => decidable_of_iff (¬ rows.Admits w ∨ f row.2 = f w.value) (by simp [Harmless, h])

instance soundDecidable [DecidableEq β] (f : ν → β) :
    (rows : Rows κ ι ν) → (ws : List (Bool × Write κ ι ν)) → Decidable (Sound f rows ws)
  | _, [] => isTrue trivial
  | rows, (true, w) :: ws =>
    have := soundDecidable f (rows.put w) ws
    inferInstanceAs (Decidable (rows.Admits w ∧ Sound f (rows.put w) ws))
  | rows, (false, w) :: ws =>
    have := soundDecidable f (rows.put w) ws
    inferInstanceAs (Decidable (Harmless f rows w ∧ Sound f (rows.put w) ws))

/-- The writes that count. -/
def counted (ws : List (Bool × Write κ ι ν)) : List (Write κ ι ν) :=
  (ws.filter Prod.fst).map Prod.snd

omit [LinearOrder ι] in
theorem lastTo_append_singleton :
    lastTo (ws ++ [w]) k = if w.key = k then some w else lastTo ws k := by
  by_cases h : w.key = k <;> simp [lastTo, List.filter_append, h]

omit [LinearOrder ι] in
theorem HoldsLast.nil : HoldsLast f rows [] := by
  intro k w hw
  cases hw

/-- An admitted write is the last one to its row, and is what the row holds. -/
theorem HoldsLast.put (h : HoldsLast f rows ws) (hw : rows.Admits w) :
    HoldsLast f (rows.put w) (ws ++ [w]) := by
  intro k v hv
  rw [lastTo_append_singleton] at hv
  by_cases hk : w.key = k
  · rw [if_pos hk] at hv
    cases hv
    subst hk
    exact ⟨_, put_self hw, rfl⟩
  · rw [if_neg hk] at hv
    rw [put_of_ne fun heq => hk heq.symm]
    exact h k v hv

/-- A harmless write keeps the last value of every row. -/
theorem HoldsLast.put_harmless (h : HoldsLast f rows ws) (hw : Harmless f rows w) :
    HoldsLast f (rows.put w) ws := by
  intro k v hv
  obtain ⟨row, hrow, hvalue⟩ := h k v hv
  by_cases hk : k = w.key
  · subst hk
    by_cases hadmits : rows.Admits w
    · rcases hw with hrefused | hsame
      · exact absurd hadmits hrefused
      · exact ⟨_, put_self hadmits, (hsame row hrow).symm.trans hvalue⟩
    · rw [put_of_not_admits hadmits]
      exact ⟨row, hrow, hvalue⟩
  · rw [put_of_ne hk]
    exact ⟨row, hrow, hvalue⟩

omit [LinearOrder ι] in
theorem mem_of_lastTo (h : w ∈ lastTo ws k) : w ∈ ws ∧ w.key = k := by
  have hmem := List.mem_filter.mp (List.mem_of_getLast? h)
  exact ⟨hmem.1, by simpa using hmem.2⟩

/-- A write to a row that no write in the list is to. -/
theorem HoldsLast.put_other (h : HoldsLast f rows ws) (hother : ∀ v ∈ ws, v.key ≠ w.key) :
    HoldsLast f (rows.put w) ws := by
  intro k v hv
  obtain ⟨hmem, rfl⟩ := mem_of_lastTo hv
  rw [put_of_ne (hother v hmem)]
  exact h v.key v hv

/-- **Sound writes keep the last value that counts.** -/
theorem HoldsLast.putAll {ms : List (Bool × Write κ ι ν)} (h : HoldsLast f rows ws)
    (hms : Sound f rows ms) :
    HoldsLast f (rows.putAll (ms.map Prod.snd)) (ws ++ counted ms) := by
  induction ms generalizing rows ws with
  | nil => simpa [counted] using h
  | cons m ms ih =>
    obtain ⟨counts, w⟩ := m
    cases counts with
    | true =>
      have hlist : ws ++ counted ((true, w) :: ms) = (ws ++ [w]) ++ counted ms := by
        simp [counted]
      rw [hlist]
      exact ih (h.put hms.1) hms.2
    | false => exact ih (h.put_harmless hms.1) hms.2

end Rows

end Containers
