import BeamAgents.Stores.BigEndian
import Mathlib.Data.List.Infix

/-!
# Length-prefixed frames

A list of byte strings as one byte string: before each item stands its length, as a big-endian
number of a fixed width. The reader takes a length and then as many bytes, and fails where the bytes
end inside a length or inside an item. Reading back what was written gives the items again; the
beginning of what was written is either that of fewer items or is refused.

## Main definitions

* `Wire.frame`, `Wire.frames`.
* `Wire.unframe`, `Wire.Cut`.

## Main results

* `Wire.unframe_frames`: the items are read back.
* `Wire.unframe_of_prefix`: a beginning of frames is whole frames or is refused.
* `Wire.frames_of_unframe`: what is read is what was framed.
-/

namespace Wire

open Stores

/-- One item behind its length. -/
def frame (width : ℕ) (item : List UInt8) : List UInt8 := bigEndian width item.length ++ item

/-- The items one after another, each behind its length. -/
def frames (width : ℕ) (items : List (List UInt8)) : List UInt8 := items.flatMap (frame width)

/-- Where the bytes ended too early. -/
inductive Cut
  | length
  | item
  deriving DecidableEq, Repr

/-- Read frames to the end of the bytes, at most `fuel` of them. -/
def unframe (width : ℕ) : (fuel : ℕ) → List UInt8 → Except Cut (List (List UInt8))
  | _, [] => .ok []
  | 0, _ => .ok []
  | fuel + 1, b =>
    if b.length < width then .error .length
    else
      let length := ofBigEndian (b.take width)
      let rest := b.drop width
      if rest.length < length then .error .item
      else (unframe width fuel (rest.drop length)).map (rest.take length :: ·)

variable {width fuel : ℕ} {item b : List UInt8} {items : List (List UInt8)}

@[simp] theorem length_frame : (frame width item).length = width + item.length := by
  rw [frame, List.length_append, length_bigEndian]

@[simp] theorem frames_nil : frames width [] = [] := rfl

@[simp] theorem frames_cons :
    frames width (item :: items) = frame width item ++ frames width items :=
  rfl

/-- The first frame is read whatever follows it. -/
theorem unframe_cons (hwidth : 0 < width) (hitem : item.length < 256 ^ width)
    (rest : List UInt8) :
    unframe width (fuel + 1) (frame width item ++ rest) =
      (unframe width fuel rest).map (item :: ·) := by
  obtain ⟨x, xs, hx⟩ : ∃ x xs, frame width item ++ rest = x :: xs := by
    refine List.exists_cons_of_ne_nil fun h => ?_
    have hlength := congrArg List.length h
    rw [List.length_append, length_frame, List.length_nil] at hlength
    omega
  have htake : (frame width item ++ rest).take width = bigEndian width item.length := by
    rw [frame, List.append_assoc, List.take_left' (length_bigEndian ..)]
  have hdrop : (frame width item ++ rest).drop width = item ++ rest := by
    rw [frame, List.append_assoc, List.drop_left' (length_bigEndian ..)]
  have hlong : ¬ (frame width item ++ rest).length < width := by
    rw [List.length_append, length_frame]
    omega
  rw [hx] at htake hdrop hlong ⊢
  have hshort : ¬ (item ++ rest).length < item.length := by
    rw [List.length_append]
    omega
  simp only [unframe, if_neg hlong, htake, hdrop, ofBigEndian_bigEndian hitem, if_neg hshort,
    List.drop_left, List.take_left]

/-- **What was framed is read back.** -/
theorem unframe_frames (hwidth : 0 < width) (hitems : ∀ item ∈ items, item.length < 256 ^ width)
    (hfuel : items.length ≤ fuel) : unframe width fuel (frames width items) = .ok items := by
  induction items generalizing fuel with
  | nil => cases fuel <;> rfl
  | cons item items ih =>
    obtain ⟨hitem, hitems⟩ := List.forall_mem_cons.mp hitems
    obtain ⟨fuel, rfl⟩ : ∃ f, fuel = f + 1 :=
      ⟨fuel - 1, by rw [List.length_cons] at hfuel; omega⟩
    rw [frames_cons, unframe_cons hwidth hitem, ih hitems (Nat.le_of_succ_le_succ hfuel)]
    rfl

/-- Bytes that end inside the first frame are refused. -/
theorem unframe_cut (hitem : item.length < 256 ^ width) (hb : b <+: frame width item)
    (hne : b ≠ []) (hlt : b.length < (frame width item).length) :
    ∃ cut, unframe width (fuel + 1) b = .error cut := by
  obtain ⟨x, xs, rfl⟩ := List.exists_cons_of_ne_nil hne
  by_cases hlong : (x :: xs).length < width
  · exact ⟨.length, by simp only [unframe, if_pos hlong]⟩
  · refine ⟨.item, ?_⟩
    have hpre : bigEndian width item.length <+: x :: xs := by
      refine List.prefix_of_prefix_length_le (List.prefix_append ..) hb ?_
      rw [length_bigEndian]
      exact Nat.le_of_not_lt hlong
    have htake : (x :: xs).take width = bigEndian width item.length := by
      rw [List.prefix_iff_eq_take.mp hpre, length_bigEndian]
    have hshort : ((x :: xs).drop width).length < item.length := by
      rw [length_frame] at hlt
      rw [List.length_drop]
      omega
    simp only [unframe, if_neg hlong, htake, ofBigEndian_bigEndian hitem, if_pos hshort]

/-- **A beginning of frames is whole frames or is refused.** -/
theorem unframe_of_prefix (hwidth : 0 < width)
    (hitems : ∀ item ∈ items, item.length < 256 ^ width) (hb : b <+: frames width items)
    (hfuel : b.length ≤ fuel) :
    (∃ n, b = frames width (items.take n)) ∨ ∃ cut, unframe width fuel b = .error cut := by
  induction items generalizing b fuel with
  | nil => exact .inl ⟨0, List.prefix_nil.mp hb⟩
  | cons item items ih =>
    obtain ⟨hitem, hitems⟩ := List.forall_mem_cons.mp hitems
    rcases eq_or_ne b [] with rfl | hne
    · exact .inl ⟨0, rfl⟩
    have hpos : 0 < b.length := List.length_pos_iff.mpr hne
    obtain ⟨fuel, rfl⟩ : ∃ f, fuel = f + 1 := ⟨fuel - 1, by omega⟩
    rcases Nat.lt_or_ge b.length (frame width item).length with hlt | hge
    · have hfirst : b <+: frame width item :=
        List.prefix_of_prefix_length_le hb (List.prefix_append ..) hlt.le
      exact .inr (unframe_cut hitem hfirst hne hlt)
    · obtain ⟨b', rfl⟩ := List.prefix_of_prefix_length_le (List.prefix_append ..) hb hge
      have hb' : b' <+: frames width items := (List.prefix_append_right_inj _).mp hb
      rw [List.length_append, length_frame] at hfuel
      rcases ih hitems hb' (by omega : b'.length ≤ fuel) with ⟨n, rfl⟩ | ⟨cut, hcut⟩
      · exact .inl ⟨n + 1, rfl⟩
      · refine .inr ⟨cut, ?_⟩
        rw [unframe_cons hwidth hitem, hcut]
        rfl

/-- **What is read is what was framed.** -/
theorem frames_of_unframe (hwidth : 0 < width) (hfuel : b.length ≤ fuel)
    (h : unframe width fuel b = .ok items) :
    b = frames width items ∧ ∀ item ∈ items, item.length < 256 ^ width := by
  induction fuel generalizing b items with
  | zero =>
    obtain rfl := List.length_eq_zero_iff.mp (Nat.le_zero.mp hfuel)
    cases h
    exact ⟨rfl, List.forall_mem_nil _⟩
  | succ fuel ih =>
    cases b with
    | nil =>
      cases h
      exact ⟨rfl, List.forall_mem_nil _⟩
    | cons x xs =>
      simp only [unframe] at h
      split_ifs at h with hshort hcut
      cases hrest : unframe width fuel
          (((x :: xs).drop width).drop (ofBigEndian ((x :: xs).take width))) with
      | error cut =>
        rw [hrest] at h
        cases h
      | ok rest =>
        rw [hrest] at h
        cases h
        have htake : ((x :: xs).take width).length = width :=
          List.length_take_of_le (Nat.le_of_not_lt hshort)
        have hitem : (((x :: xs).drop width).take (ofBigEndian ((x :: xs).take width))).length =
            ofBigEndian ((x :: xs).take width) := List.length_take_of_le (Nat.le_of_not_lt hcut)
        have hfits : ofBigEndian ((x :: xs).take width) < 256 ^ width := by
          have hlt := ofBigEndian_lt ((x :: xs).take width)
          rwa [htake] at hlt
        obtain ⟨hframes, hrestfits⟩ := ih (by simp only [List.length_drop]; omega) hrest
        refine ⟨?_, List.forall_mem_cons.mpr ⟨hitem.symm ▸ hfits, hrestfits⟩⟩
        have hlength := bigEndian_ofBigEndian ((x :: xs).take width)
        rw [htake] at hlength
        rw [frames_cons, frame, hitem, hlength, ← hframes, List.append_assoc, List.take_append_drop,
          List.take_append_drop]

end Wire
