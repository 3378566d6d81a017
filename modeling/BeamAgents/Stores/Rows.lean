import Mathlib.Data.List.Basic
import Mathlib.Order.Basic
import Mathlib.Logic.Function.Basic

/-!
# Rows of versioned cells

One row of a wide-column store: its cells are versioned by a timestamp, a column keeps every version
that is written to it, and a conditional mutation asks whether a filter lets any cell through and
applies the one or the other list of mutations, all at one instant. Filters match families and
columns by regular expressions, and values by an expression or a range of bytes; what an expression
matches is the parameter `regex`, the full match of a pattern.

## Main definitions

* `Stores.Cell`, `Stores.Row`, `Stores.Row.latest`.
* `Stores.RowFilter` with `familyName`, `columnQualifier`, `cellsColumnLimit`, `valueAbove`,
  `valueRegex`, `chain` and `union`.
* `Stores.Row.byQualifier`: the cells of a row by their columns.
* `Stores.Mutation`, `Stores.Row.checkAndMutate`.

## Main results

* `Stores.RowFilter.latest_chain`: the filters that look at the newest version of one column.
* `Stores.Row.byQualifier_newest`: the cells of a row that is read with one version of each column.
* `Stores.Row.latest_setCell`, `Stores.Row.latest_deleteColumn`: what a mutation does to the newest
  versions.
-/

namespace Stores

/-- One version of a cell. -/
structure Cell where
  family : List UInt8
  qualifier : List UInt8
  timestamp : Int
  value : List UInt8
  deriving DecidableEq, Repr

/-- The cells of a row, the newest first. -/
abbrev Row := List Cell

/-- A version of a cell in a column. -/
def Cell.inColumn (family qualifier : List UInt8) (c : Cell) : Bool :=
  c.family = family && c.qualifier = qualifier

/-- The newest value in a column. -/
def Row.latest (row : Row) (family qualifier : List UInt8) : Option (List UInt8) :=
  (row.find? (Cell.inColumn family qualifier)).map Cell.value

/-! ### Filters -/

/-- A filter: the cells that it lets through, in their order. -/
abbrev RowFilter := Row → Row

/-- A pattern that matches nothing but itself. -/
def Literal (regex : List UInt8 → List UInt8 → Bool) (pattern : List UInt8) : Prop :=
  ∀ text, regex pattern text = true ↔ text = pattern

namespace RowFilter

variable (regex : List UInt8 → List UInt8 → Bool)

/-- `FamilyNameRegexFilter`. -/
def familyName (pattern : List UInt8) : RowFilter := fun row =>
  row.filter fun c => regex pattern c.family

/-- `ColumnQualifierRegexFilter`. -/
def columnQualifier (pattern : List UInt8) : RowFilter := fun row =>
  row.filter fun c => regex pattern c.qualifier

/-- `ValueRegexFilter`. -/
def valueRegex (pattern : List UInt8) : RowFilter := fun row =>
  row.filter fun c => regex pattern c.value

/-- `ValueRangeFilter` from a start value that is not included. -/
def valueAbove (start : List UInt8) : RowFilter := fun row => row.filter fun c => start < c.value

/-- The versions of a column that are let through when `seen` come before them. -/
def limitAfter (n : ℕ) (seen : Row) : Row → Row
  | [] => []
  | c :: row =>
    if (seen.filter (Cell.inColumn c.family c.qualifier)).length < n then
      c :: limitAfter n (c :: seen) row
    else limitAfter n (c :: seen) row

/-- `CellsColumnLimitFilter`: the newest versions of each column. -/
def cellsColumnLimit (n : ℕ) : RowFilter := limitAfter n []

/-- `RowFilterChain`. -/
def chain (filters : List RowFilter) : RowFilter := fun row =>
  filters.foldl (fun row f => f row) row

/-- `RowFilterUnion`. -/
def union (filters : List RowFilter) : RowFilter := fun row => filters.flatMap fun f => f row

private theorem sublist_limitAfter (n : ℕ) (seen row : Row) :
    List.Sublist (limitAfter n seen row) row := by
  induction row generalizing seen with
  | nil => exact List.Sublist.refl _
  | cons c row ih =>
    rw [limitAfter]
    split_ifs
    · exact (ih _).cons_cons c
    · exact (ih _).cons c

/-- The versions of one column are let through without regard to the others. -/
private theorem filter_limitAfter {family qualifier : List UInt8} (n : ℕ) (row seen : Row) :
    (limitAfter n seen row).filter (Cell.inColumn family qualifier) =
      limitAfter n (seen.filter (Cell.inColumn family qualifier))
        (row.filter (Cell.inColumn family qualifier)) := by
  induction row generalizing seen with
  | nil => rfl
  | cons c row ih =>
    by_cases hc : c.inColumn family qualifier = true
    · have hcolumn : Cell.inColumn c.family c.qualifier = Cell.inColumn family qualifier := by
        simp only [Cell.inColumn, Bool.and_eq_true, decide_eq_true_eq] at hc
        rw [hc.1, hc.2]
      rw [limitAfter, List.filter_cons_of_pos hc, limitAfter, hcolumn, List.filter_filter]
      have hrest := ih (c :: seen)
      rw [List.filter_cons_of_pos hc] at hrest
      simp only [Bool.and_self]
      split_ifs
      · rw [List.filter_cons_of_pos hc, hrest]
      · exact hrest
    · have hrest := ih (c :: seen)
      rw [List.filter_cons_of_neg hc] at hrest
      rw [limitAfter, List.filter_cons_of_neg hc]
      split_ifs
      · rw [List.filter_cons_of_neg hc, hrest]
      · exact hrest

/-- Of cells of one column only the newest is let through. -/
private theorem limitAfter_column {family qualifier : List UInt8} (row seen : Row)
    (hrow : ∀ c ∈ row, c.inColumn family qualifier)
    (hseen : ∀ c ∈ seen, c.inColumn family qualifier) :
    limitAfter 1 seen row = if seen = [] then row.take 1 else [] := by
  induction row generalizing seen with
  | nil => simp [limitAfter]
  | cons c row ih =>
    have hc := hrow c List.mem_cons_self
    have hcolumn : Cell.inColumn c.family c.qualifier = Cell.inColumn family qualifier := by
      simp only [Cell.inColumn, Bool.and_eq_true, decide_eq_true_eq] at hc
      rw [hc.1, hc.2]
    have hrest := ih (c :: seen) (fun d hd => hrow d (List.mem_cons_of_mem _ hd))
      (List.forall_mem_cons.mpr ⟨hc, hseen⟩)
    rw [if_neg (List.cons_ne_nil _ _)] at hrest
    rw [limitAfter, hcolumn, List.filter_eq_self.mpr hseen, hrest]
    cases seen <;> simp

/-- Of a row that is limited to one version of each column, a column keeps the newest. -/
theorem filter_cellsColumnLimit (family qualifier : List UInt8) (row : Row) :
    (cellsColumnLimit 1 row).filter (Cell.inColumn family qualifier) =
      (row.find? (Cell.inColumn family qualifier)).toList := by
  rw [cellsColumnLimit, filter_limitAfter, List.filter_nil,
    limitAfter_column _ _ (fun c hc => (List.mem_filter.mp hc).2) (by simp), if_pos rfl,
    ← List.head?_filter]
  cases row.filter (Cell.inColumn family qualifier) <;> rfl

/-- **The newest version of one column.** A chain that picks a column, limits it to one version and
tests its value lets a cell through exactly when the newest value passes the test. -/
theorem latest_chain {regex : List UInt8 → List UInt8 → Bool} {family qualifier : List UInt8}
    (hfamily : Literal regex family) (hqualifier : Literal regex qualifier) (test : Cell → Bool)
    (row : Row) :
    chain [familyName regex family, columnQualifier regex qualifier, cellsColumnLimit 1,
        fun row => row.filter test] row =
      (row.find? (Cell.inColumn family qualifier)).toList.filter test := by
  have hcolumn : columnQualifier regex qualifier (familyName regex family row) =
      row.filter (Cell.inColumn family qualifier) := by
    rw [columnQualifier, familyName, List.filter_filter]
    refine List.filter_congr fun c _ => ?_
    rw [Cell.inColumn, Bool.and_comm]
    congr 1
    · rw [Bool.eq_iff_iff, hfamily, decide_eq_true_iff]
    · rw [Bool.eq_iff_iff, hqualifier, decide_eq_true_iff]
  have hlimit := filter_cellsColumnLimit family qualifier
    (row.filter (Cell.inColumn family qualifier))
  rw [List.filter_eq_self.mpr fun c hc => ?_, List.find?_filter] at hlimit
  · show (cellsColumnLimit 1 (columnQualifier regex qualifier
      (familyName regex family row))).filter test = _
    rw [hcolumn, hlimit]
    simp
  · exact (List.mem_filter.mp (sublist_limitAfter 1 [] _ |>.subset hc)).2

end RowFilter

/-! ### Reading -/

namespace Row

/-- The values of a row by the qualifiers of their columns; of several the last remains. -/
def byQualifier (row : Row) : List UInt8 → Option (List UInt8) :=
  row.foldl store fun _ => none
where
  store (cells : List UInt8 → Option (List UInt8)) (c : Cell) : List UInt8 → Option (List UInt8) :=
    Function.update cells c.qualifier (some c.value)

private theorem foldl_byQualifier (row : Row) (cells : List UInt8 → Option (List UInt8))
    (qualifier : List UInt8) :
    row.foldl byQualifier.store cells qualifier =
      (((row.filter fun c => c.qualifier = qualifier).getLast?).map Cell.value).or
        (cells qualifier) := by
  induction row generalizing cells with
  | nil => rfl
  | cons c row ih =>
    rw [List.foldl_cons, ih]
    by_cases hc : c.qualifier = qualifier
    · rw [List.filter_cons_of_pos (by simpa using hc), List.getLast?_cons, byQualifier.store, hc,
        Function.update_self]
      cases ((row.filter fun c => c.qualifier = qualifier).getLast?) <;> rfl
    · rw [List.filter_cons_of_neg (by simpa using hc), byQualifier.store,
        Function.update_of_ne (Ne.symm hc)]

/-- Of a row that is read with one version of each column, each column of the family keeps its
newest. -/
theorem filter_qualifier_newest {regex : List UInt8 → List UInt8 → Bool} {family : List UInt8}
    (hfamily : Literal regex family) (row : Row) (qualifier : List UInt8) :
    (RowFilter.chain [RowFilter.familyName regex family, RowFilter.cellsColumnLimit 1] row).filter
      (fun c => c.qualifier = qualifier) = (row.find? (Cell.inColumn family qualifier)).toList := by
  have hrow : RowFilter.familyName regex family row = row.filter fun c => c.family = family :=
    List.filter_congr fun c _ => by rw [Bool.eq_iff_iff, hfamily, decide_eq_true_iff]
  show (RowFilter.cellsColumnLimit 1 (RowFilter.familyName regex family row)).filter _ = _
  rw [hrow]
  have hnewest := RowFilter.filter_cellsColumnLimit family qualifier
    (row.filter fun c => c.family = family)
  rw [List.find?_filter] at hnewest
  have hcongr : (fun c : Cell => decide (decide (c.family = family) = true ∧
      c.inColumn family qualifier = true)) = Cell.inColumn family qualifier := by
    funext c
    simp [Cell.inColumn]
  rw [hcongr] at hnewest
  rw [← hnewest]
  refine List.filter_congr fun c hc => ?_
  have hfamily := (List.mem_filter.mp ((RowFilter.sublist_limitAfter 1 [] _).subset hc)).2
  simp [Cell.inColumn, of_decide_eq_true hfamily]

/-- **A row that is read with one version of each column.** Of the cells of a family, each column
has its newest. -/
theorem byQualifier_newest {regex : List UInt8 → List UInt8 → Bool} {family : List UInt8}
    (hfamily : Literal regex family) (row : Row) (qualifier : List UInt8) :
    byQualifier (RowFilter.chain [RowFilter.familyName regex family, RowFilter.cellsColumnLimit 1]
      row) qualifier = row.latest family qualifier := by
  rw [byQualifier, foldl_byQualifier, filter_qualifier_newest hfamily, latest]
  cases row.find? (Cell.inColumn family qualifier) <;> rfl

/-! ### Mutations -/

end Row

/-- `SetCell` at a timestamp and `DeleteRangeFromColumn` of a whole column. -/
inductive Mutation
  | setCell (family qualifier value : List UInt8)
  | deleteColumn (family qualifier : List UInt8)
  deriving DecidableEq, Repr

namespace Row

/-- Write a version of a cell: among the newer and the older ones, in place of one that has the same
timestamp. -/
def setCell (row : Row) (cell : Cell) : Row :=
  row.takeWhile (fun c => cell.timestamp < c.timestamp) ++ cell ::
    (row.dropWhile fun c => cell.timestamp < c.timestamp).filter fun c =>
      !(c.inColumn cell.family cell.qualifier && c.timestamp = cell.timestamp)

/-- Delete all versions of a column. -/
def deleteColumn (row : Row) (family qualifier : List UInt8) : Row :=
  row.filter fun c => !c.inColumn family qualifier

/-- Apply one mutation at a time. -/
def mutate (timestamp : Int) (row : Row) : Mutation → Row
  | .setCell family qualifier value => row.setCell ⟨family, qualifier, timestamp, value⟩
  | .deleteColumn family qualifier => row.deleteColumn family qualifier

/-- `CheckAndMutateRow`: whether the filter lets a cell through, and the row after the mutations
that are applied in this case. -/
def checkAndMutate (timestamp : Int) (row : Row) (predicate : RowFilter)
    (onTrue onFalse : List Mutation) : Row × Bool :=
  let taken := predicate row ≠ []
  ((if taken then onTrue else onFalse).foldl (mutate timestamp) row, taken)

theorem checkAndMutate_of_hit {timestamp : Int} {row : Row} {predicate : RowFilter}
    {onTrue onFalse : List Mutation} (h : predicate row ≠ []) :
    row.checkAndMutate timestamp predicate onTrue onFalse =
      (onTrue.foldl (mutate timestamp) row, true) := by
  simp [checkAndMutate, h]

theorem checkAndMutate_of_miss {timestamp : Int} {row : Row} {predicate : RowFilter}
    {onTrue onFalse : List Mutation} (h : predicate row = []) :
    row.checkAndMutate timestamp predicate onTrue onFalse =
      (onFalse.foldl (mutate timestamp) row, false) := by
  simp [checkAndMutate, h]

/-- No version of the row is newer than a time. -/
def Before (row : Row) (now : Int) : Prop := ∀ c ∈ row, c.timestamp ≤ now

variable {row : Row} {now later : Int} {family qualifier family' qualifier' value : List UInt8}

theorem Before.mono (h : row.Before now) (hnow : now ≤ later) : row.Before later :=
  fun c hc => Int.le_trans (h c hc) hnow

theorem Before.mutate (h : row.Before now) (m : Mutation) : (row.mutate now m).Before now := by
  intro c hc
  cases m with
  | setCell family qualifier value =>
    simp only [Row.mutate, setCell, List.mem_append, List.mem_cons, List.mem_filter] at hc
    rcases hc with hc | rfl | hc
    · exact h c (List.takeWhile_sublist _ |>.subset hc)
    · exact Int.le_refl now
    · exact h c (List.dropWhile_sublist _ |>.subset hc.1)
  | deleteColumn family qualifier => exact h c (List.mem_filter.mp hc).1

theorem Before.foldl (h : row.Before now) (ms : List Mutation) :
    Row.Before (ms.foldl (Row.mutate now) row) now := by
  induction ms generalizing row with
  | nil => exact h
  | cons m ms ih => exact ih (h.mutate m)

/-- A value that is written last is the newest of its column, and no other column changes. -/
theorem latest_setCell (h : row.Before now) :
    (row.mutate now (.setCell family qualifier value)).latest family' qualifier' =
      if family' = family ∧ qualifier' = qualifier then some value
      else row.latest family' qualifier' := by
  have hnewer : row.takeWhile (fun c => decide (now < c.timestamp)) = [] := by
    cases row with
    | nil => rfl
    | cons c row => exact List.takeWhile_cons_of_neg (by simpa using h c List.mem_cons_self)
  have hrest : row.dropWhile (fun c => decide (now < c.timestamp)) = row := by
    have hsplit := List.takeWhile_append_dropWhile (p := fun c : Cell => decide (now < c.timestamp))
      (l := row)
    rwa [hnewer, List.nil_append] at hsplit
  simp only [mutate, setCell, hnewer, hrest, List.nil_append, latest]
  by_cases hcolumn : family' = family ∧ qualifier' = qualifier
  · rw [if_pos hcolumn, List.find?_cons_of_pos (by simp [Cell.inColumn, hcolumn])]
    rfl
  · rw [if_neg hcolumn, List.find?_cons_of_neg (by
      simpa [Cell.inColumn, eq_comm (a := family), eq_comm (a := qualifier)] using hcolumn),
      List.find?_filter]
    congr 2
    funext c
    by_cases hc : c.inColumn family' qualifier' = true
    · have hother : c.inColumn family qualifier = false := by
        simp only [Cell.inColumn, Bool.and_eq_true, decide_eq_true_eq] at hc
        rw [Cell.inColumn, hc.1, hc.2]
        simpa using hcolumn
      simp [hc, hother]
    · simp [hc]

/-- Writing the newest value of a column once more changes nothing, at whatever time. -/
theorem latest_setCell_of_eq (h : row.latest family qualifier = some value) :
    (row.mutate now (.setCell family qualifier value)).latest family' qualifier' =
      row.latest family' qualifier' := by
  obtain ⟨newer, hnewer⟩ : ∃ newer, newer = row.takeWhile fun c => decide (now < c.timestamp) :=
    ⟨_, rfl⟩
  obtain ⟨older, holder⟩ : ∃ older, older = row.dropWhile fun c => decide (now < c.timestamp) :=
    ⟨_, rfl⟩
  have hsplit : row = newer ++ older := by rw [hnewer, holder, List.takeWhile_append_dropWhile]
  simp only [mutate, setCell, latest, ← hnewer, ← holder, List.find?_append] at h ⊢
  rw [hsplit, List.find?_append] at h ⊢
  cases hfind : newer.find? (Cell.inColumn family' qualifier') with
  | some c => rfl
  | none =>
    rw [Option.none_or, Option.none_or]
    by_cases hcolumn : family' = family ∧ qualifier' = qualifier
    · obtain ⟨rfl, rfl⟩ := hcolumn
      rw [hfind, Option.none_or] at h
      rw [List.find?_cons_of_pos (by simp [Cell.inColumn]), h]
      rfl
    · rw [List.find?_cons_of_neg (by
        simpa [Cell.inColumn, eq_comm (a := family), eq_comm (a := qualifier)] using hcolumn),
        List.find?_filter]
      congr 2
      funext c
      by_cases hc : c.inColumn family' qualifier' = true
      · have hother : c.inColumn family qualifier = false := by
          simp only [Cell.inColumn, Bool.and_eq_true, decide_eq_true_eq] at hc
          rw [Cell.inColumn, hc.1, hc.2]
          simpa using hcolumn
        simp [hc, hother]
      · simp [hc]

/-- Deleting a column leaves nothing in it, and no other column changes. -/
theorem latest_deleteColumn :
    (row.mutate now (.deleteColumn family qualifier)).latest family' qualifier' =
      if family' = family ∧ qualifier' = qualifier then none
      else row.latest family' qualifier' := by
  simp only [mutate, deleteColumn, latest, List.find?_filter]
  by_cases hcolumn : family' = family ∧ qualifier' = qualifier
  · rw [if_pos hcolumn, hcolumn.1, hcolumn.2, List.find?_eq_none.mpr (by simp)]
    rfl
  · rw [if_neg hcolumn]
    congr 2
    funext c
    by_cases hc : c.inColumn family' qualifier' = true
    · have hother : c.inColumn family qualifier = false := by
        simp only [Cell.inColumn, Bool.and_eq_true, decide_eq_true_eq] at hc
        rw [Cell.inColumn, hc.1, hc.2]
        simpa using hcolumn
      simp [hc, hother]
    · simp [hc]

end Row

end Stores
