import BeamAgents.Stores.Rows

/-!
# Guards over encoded values

A store that compares nothing but bytes can guard a mutation by a number when the bytes of the
numbers are ordered as the numbers are. A filter that lets through the values above a start value
then selects the cells whose number is the greater.

## Main definitions

* `Stores.ByteOrder`: values of a domain, written to bytes that are read back and that compare as
  the values do.
* `Stores.Carries`: the cells of a row hold the bytes of values of the domain.

## Main results

* `Stores.ByteOrder.mem_valueAbove`: a range of values with an excluded start.
* `Stores.ByteOrder.mem_newestAbove`: such a range over the newest version of one column.
-/

namespace Stores

variable {α : Type*}

/-- Bytes that are read back, and that compare as what they are written for. -/
structure ByteOrder [LT α] (dom : α → Prop) (encode : α → Option (List UInt8))
    (decode : List UInt8 → Option α) : Prop where
  decodes : ∀ {a}, dom a → ∃ x, encode a = some x ∧ decode x = some a
  injective : ∀ {a b}, dom a → dom b → encode a = encode b → a = b
  lt_iff : ∀ {a b x y}, dom a → dom b → encode a = some x → encode b = some y → (x < y ↔ a < b)

/-- Cells that hold the bytes of values of a domain. -/
def Carries (dom : α → Prop) (encode : α → Option (List UInt8)) (c : Cell) : Prop :=
  ∃ a, dom a ∧ encode a = some c.value

namespace ByteOrder

variable [LT α] {dom : α → Prop} {encode : α → Option (List UInt8)}
  {decode : List UInt8 → Option α} {a : α} {start : List UInt8} {row : Row}

/-- A value that is read back tells what was written. -/
theorem of_decodes (hdecodes : ∀ {a}, dom a → ∃ x, encode a = some x ∧ decode x = some a)
    (hlt : ∀ {a b x y}, dom a → dom b → encode a = some x → encode b = some y →
      (x < y ↔ a < b)) : ByteOrder dom encode decode := by
  refine ⟨hdecodes, fun ha hb heq => ?_, hlt⟩
  obtain ⟨x, hx, hread⟩ := hdecodes ha
  obtain ⟨y, hy, hread'⟩ := hdecodes hb
  rw [hx, hy, Option.some.injEq] at heq
  rw [heq, hread'] at hread
  exact (Option.some.inj hread).symm

/-- The bytes of a cell lie above those of a value when the cell's value does. -/
theorem start_lt_iff (h : ByteOrder dom encode decode) (ha : dom a) (hstart : encode a = some start)
    {c : Cell} (hc : Carries dom encode c) :
    start < c.value ↔ ∃ b, decode c.value = some b ∧ a < b := by
  obtain ⟨b, hb, hvalue⟩ := hc
  obtain ⟨x, hx, hread⟩ := h.decodes hb
  have heq : x = c.value := Option.some.inj (hx.symm.trans hvalue)
  subst heq
  rw [h.lt_iff ha hb hstart hvalue, hread]
  simp

/-- **A range with an excluded start** selects the cells of the greater values. -/
theorem mem_valueAbove (h : ByteOrder dom encode decode) (ha : dom a)
    (hstart : encode a = some start) (hrow : ∀ c ∈ row, Carries dom encode c) (c : Cell) :
    c ∈ RowFilter.valueAbove start row ↔ c ∈ row ∧ ∃ b, decode c.value = some b ∧ a < b := by
  rw [RowFilter.valueAbove, List.mem_filter, decide_eq_true_iff]
  exact and_congr_right fun hc => h.start_lt_iff ha hstart (hrow c hc)

/-- **The newest version above a value.** Over one version of one column the range selects the
newest cell, when its value is the greater. -/
theorem mem_newestAbove (h : ByteOrder dom encode decode)
    {regex : List UInt8 → List UInt8 → Bool} {family qualifier : List UInt8}
    (hfamily : Literal regex family) (hqualifier : Literal regex qualifier) (ha : dom a)
    (hstart : encode a = some start)
    (hrow : ∀ c ∈ row, c.inColumn family qualifier → Carries dom encode c) (c : Cell) :
    c ∈ RowFilter.chain [RowFilter.familyName regex family,
        RowFilter.columnQualifier regex qualifier, RowFilter.cellsColumnLimit 1,
        RowFilter.valueAbove start] row ↔
      row.find? (Cell.inColumn family qualifier) = some c ∧
        ∃ b, decode c.value = some b ∧ a < b := by
  have hchain := RowFilter.latest_chain hfamily hqualifier (fun c => start < c.value) row
  change c ∈ RowFilter.chain [RowFilter.familyName regex family,
    RowFilter.columnQualifier regex qualifier, RowFilter.cellsColumnLimit 1,
    fun row => row.filter fun c => start < c.value] row ↔ _
  rw [hchain, List.mem_filter, decide_eq_true_iff, Option.mem_toList]
  refine and_congr_right fun hfind => h.start_lt_iff ha hstart ?_
  exact hrow c (List.mem_of_find?_eq_some hfind) (List.find?_some hfind)

end ByteOrder

end Stores
