import BeamAgents.Wire.Varint
import Mathlib.Data.List.Infix
import Mathlib.Data.Nat.Find

/-!
# Streams of delimited items

Items one after another, each behind its length as a varint. The beginning of a stream is a stream
of its first items and a piece of a frame, which is shorter than the frame; a reader that knows
where its bytes end can tell, since the length of such a piece is cut short, or longer than what
follows.

## Main definitions

* `Wire.delimit`, `Wire.delimited`.
* `Wire.Piece`: less than a frame.
* `Wire.completeItems`: how many frames are complete in the first bytes.
* `Wire.undelimit`: the items of a stream.

## Main results

* `Wire.take_delimited`: the beginning of a stream.
* `Wire.undelimit_delimited`: a stream is read back.
* `Wire.Piece.readVarint`: what is read at a piece of a frame.
-/

namespace Wire

/-- An item behind its length. -/
def delimit (item : List UInt8) : List UInt8 := writeVarint item.length ++ item

/-- The items one after another. -/
def delimited (items : List (List UInt8)) : List UInt8 := items.flatMap delimit

variable {item pre tail : List UInt8} {items items' : List (List UInt8)} {n k : ℕ}

@[simp] theorem delimited_nil : delimited [] = [] := rfl

@[simp] theorem delimited_cons :
    delimited (item :: items) = delimit item ++ delimited items :=
  rfl

theorem delimited_append : delimited (items ++ items') = delimited items ++ delimited items' :=
  List.flatMap_append

theorem length_delimit (item : List UInt8) :
    (delimit item).length = (writeVarint item.length).length + item.length :=
  List.length_append

theorem length_delimit_pos (item : List UInt8) : 0 < (delimit item).length := by
  rw [length_delimit]
  have hpos := List.length_pos_iff.mpr (writeVarint_ne_nil item.length)
  omega

/-! ### Varints whose bytes may end -/

theorem lt_pow_length_writeVarint (n : ℕ) : n < 128 ^ (writeVarint n).length := by
  induction n using Nat.strong_induction_on with
  | _ n ih =>
    rw [writeVarint_eq]
    split_ifs with hn
    · simpa using hn
    · have hdiv := ih (n / 128) (by omega)
      rw [List.length_cons, pow_succ]
      omega

/-- A varint is read whatever follows it. -/
theorem readVarint_append (hk : (writeVarint n).length ≤ k) (rest : List UInt8) :
    readVarint k (writeVarint n ++ rest) = some (n, rest) :=
  readVarint_mono hk (readVarint_writeVarint (List.length_pos_iff.mpr (writeVarint_ne_nil n))
    (lt_pow_length_writeVarint n) rest)

/-- A varint that is cut short is not read. -/
theorem readVarint_cut (h : pre <+: writeVarint n) (hlt : pre.length < (writeVarint n).length) :
    readVarint k pre = none := by
  by_contra hread
  obtain ⟨⟨m, rest⟩, hread⟩ := Option.ne_none_iff_exists'.mp hread
  obtain ⟨raw, rfl, hraw⟩ := local_readVarint k hread
  obtain ⟨more, hmore⟩ := h
  -- read further, the whole varint would leave something
  have hwhole : readVarint (k + (writeVarint n).length) (writeVarint n) =
      some (m, rest ++ more) := by
    have hread' := readVarint_mono (Nat.le_add_right k (writeVarint n).length) (hraw (rest ++ more))
    rwa [← List.append_assoc, hmore] at hread'
  have hnothing := readVarint_append (Nat.le_add_left (writeVarint n).length k) []
  rw [List.append_nil, hwhole] at hnothing
  have hmore' : more = [] :=
    (List.append_eq_nil_iff.mp (Prod.mk.inj (Option.some.inj hnothing)).2).2
  rw [← hmore, hmore', List.append_nil] at hlt
  exact lt_irrefl _ hlt

/-! ### Pieces of frames -/

/-- Less than a frame. -/
def Piece (tail : List UInt8) : Prop :=
  ∃ item, tail <+: delimit item ∧ tail.length < (delimit item).length

theorem Piece.nil : Piece [] := ⟨[], List.nil_prefix, length_delimit_pos []⟩

/-- **At a piece of a frame** no length is read, or one that is longer than what follows. -/
theorem Piece.readVarint (h : Piece tail) :
    Wire.readVarint tail.length tail = none ∨
      ∃ m rest, Wire.readVarint tail.length tail = some (m, rest) ∧ rest.length < m := by
  obtain ⟨item, hpre, hlt⟩ := h
  rcases Nat.lt_or_ge tail.length (writeVarint item.length).length with hshort | hlong
  · have hcut : tail <+: writeVarint item.length :=
      List.prefix_of_prefix_length_le hpre (List.prefix_append _ _) hshort.le
    exact .inl (readVarint_cut hcut hshort)
  · obtain ⟨rest, rfl⟩ := List.prefix_of_prefix_length_le (List.prefix_append _ _) hpre hlong
    refine .inr ⟨item.length, rest, readVarint_append hlong rest, ?_⟩
    rw [length_delimit, List.length_append] at hlt
    omega

/-! ### The beginning of a stream -/

/-- How many frames are complete in the first `n` bytes. -/
def completeItems (items : List (List UInt8)) (n : ℕ) : ℕ :=
  Nat.findGreatest (fun k => (delimited (items.take k)).length ≤ n) items.length

/-- What is complete is there. -/
theorem length_complete_le (items : List (List UInt8)) (n : ℕ) :
    (delimited (items.take (completeItems items n))).length ≤ n :=
  Nat.findGreatest_spec (P := fun k => (delimited (items.take k)).length ≤ n) (Nat.zero_le _)
    (Nat.zero_le n)

/-- What is there is complete. -/
theorem lt_length_of_lt (hk : completeItems items n < k) (hle : k ≤ items.length) :
    n < (delimited (items.take k)).length :=
  Nat.lt_of_not_le
    (Nat.findGreatest_is_greatest (P := fun k => (delimited (items.take k)).length ≤ n) hk hle)

/-- **The beginning of a stream** is a stream of its complete frames and a piece of the next one. -/
theorem take_delimited (items : List (List UInt8)) (n : ℕ) :
    ∃ tail, (delimited items).take n =
      delimited (items.take (completeItems items n)) ++ tail ∧ Piece tail := by
  set k := completeItems items n with hk
  have hle : (delimited (items.take k)).length ≤ n := length_complete_le items n
  have hsplit : delimited items = delimited (items.take k) ++ delimited (items.drop k) := by
    rw [← delimited_append, List.take_append_drop]
  refine ⟨(delimited (items.drop k)).take (n - (delimited (items.take k)).length), ?_, ?_⟩
  · conv_lhs => rw [hsplit]
    rw [List.take_append, List.take_of_length_le hle]
  · cases hdrop : items.drop k with
    | nil =>
      rw [delimited_nil, List.take_nil]
      exact Piece.nil
    | cons item rest =>
      have hlt : k < items.length := by
        by_contra hge
        rw [List.drop_eq_nil_of_le (Nat.le_of_not_lt hge)] at hdrop
        cases hdrop
      have htake : items.take (k + 1) = items.take k ++ [item] := by
        rw [List.take_add_one, ← List.head?_drop, hdrop]
        rfl
      have hnext := lt_length_of_lt (k := k + 1) (Nat.lt_succ_self k) hlt
      rw [htake, delimited_append, List.length_append, delimited_cons, delimited_nil,
        List.append_nil] at hnext
      have hshort : n - (delimited (items.take k)).length ≤ (delimit item).length := by omega
      rw [delimited_cons, List.take_append_of_le_length hshort]
      refine ⟨item, List.take_prefix _ _, ?_⟩
      rw [List.length_take]
      omega

/-! ### A whole stream -/

/-- The frames that bytes consist of, with `fuel` for their number. -/
def readItems : (fuel : ℕ) → List UInt8 → Option (List (List UInt8))
  | _, [] => some []
  | 0, _ :: _ => none
  | fuel + 1, b :: bs =>
    match readVarint (b :: bs).length (b :: bs) with
    | none => none
    | some (length, rest) =>
      if rest.length < length then none
      else (readItems fuel (rest.drop length)).map (rest.take length :: ·)

/-- The items of a stream. -/
def undelimit (bs : List UInt8) : Option (List (List UInt8)) := readItems bs.length bs

theorem readItems_delimited (hfuel : items.length ≤ k) :
    readItems k (delimited items) = some items := by
  induction items generalizing k with
  | nil =>
    cases k <;> rfl
  | cons item items ih =>
    cases k with
    | zero => exact absurd hfuel (Nat.not_succ_le_zero _)
    | succ k =>
      have hread : readVarint (delimited (item :: items)).length (delimited (item :: items)) =
          some (item.length, item ++ delimited items) := by
        rw [delimited_cons, delimit, List.append_assoc]
        refine readVarint_append ?_ _
        rw [List.length_append]
        omega
      have hne : delimited (item :: items) ≠ [] := fun hnil => by
        have hpos := length_delimit_pos item
        rw [delimited_cons, List.append_eq_nil_iff] at hnil
        rw [hnil.1] at hpos
        exact absurd hpos (lt_irrefl 0)
      obtain ⟨b, bs, hcons⟩ := List.exists_cons_of_ne_nil hne
      rw [hcons] at hread ⊢
      simp only [readItems, hread, List.length_append]
      rw [if_neg (by omega), List.drop_left, List.take_left, ih (Nat.le_of_succ_le_succ hfuel)]
      rfl

/-- **A stream is read back.** -/
theorem undelimit_delimited (items : List (List UInt8)) :
    undelimit (delimited items) = some items := by
  refine readItems_delimited ?_
  induction items with
  | nil => exact Nat.le_refl _
  | cons item items ih =>
    have hpos := length_delimit_pos item
    rw [delimited_cons, List.length_append, List.length_cons]
    omega

end Wire
