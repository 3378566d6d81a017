import BeamAgents.Memory.Facade
import BeamAgents.Wire.Frames

/-!
# The ring encoding

A ring is stored as its kind tag and the frames of its items (`Wire.frames`), each behind a length
of four bytes. A length that does not fit is refused when the ring is encoded; what was encoded is
decoded to the same items, and a stored ring that was cut inside an item is refused.

## Main definitions

* `RingFits`, `ringBytes`: the items that can be encoded, and their encoding.

## Main results

* `encodeRing_eq_ok_iff`, `decodeRing_ringBytes`: encoding and decoding.
* `decodeRing_of_prefix`: a beginning of an encoding.
* `ringBytes_of_decodeRing`: what is decoded was encoded.
-/

namespace BeamAgents

open Wire

/-- Every item has a length that fits. -/
def RingFits (items : List Bytes) : Prop := ∀ item ∈ items, item.length < 256 ^ ringLenPrefix

/-- The encoding of items that fit. -/
def ringBytes (items : List Bytes) : Bytes := kindRing :: frames ringLenPrefix items

/-- The exception of `_decode_ring` where the bytes ended too early. -/
def truncatedRing (py : PyLib) : Cut → PyExn
  | .length => corruptRing py "length prefix"
  | .item => corruptRing py "item"

variable {py : PyLib} {items : List Bytes} {item b : Bytes} {e : PyExn}

/-! ### Encoding -/

theorem encodeRingItems_of_fits (h : RingFits items) :
    encodeRingItems py items = .ok (frames ringLenPrefix items) := by
  induction items with
  | nil => rfl
  | cons item items ih =>
    obtain ⟨hitem, hitems⟩ := List.forall_mem_cons.mp h
    have hlength : encodeLength py item.length = .ok (Stores.bigEndian ringLenPrefix item.length) :=
      if_pos hitem
    rw [encodeRingItems, hlength, ih hitems]
    rfl

theorem encodeRingItems_of_not_fits (h : ¬ RingFits items) :
    encodeRingItems py items = .error (lengthOverflow py) := by
  induction items with
  | nil => exact absurd (List.forall_mem_nil _) h
  | cons item items ih =>
    by_cases hitem : item.length < 256 ^ ringLenPrefix
    · have hitems : ¬ RingFits items := fun hitems => h (List.forall_mem_cons.mpr ⟨hitem, hitems⟩)
      have hlength : encodeLength py item.length =
          .ok (Stores.bigEndian ringLenPrefix item.length) := if_pos hitem
      rw [encodeRingItems, hlength, ih hitems]
      rfl
    · have hlength : encodeLength py item.length = .error (lengthOverflow py) := if_neg hitem
      rw [encodeRingItems, hlength]

theorem encodeRing_of_fits (h : RingFits items) : encodeRing py items = .ok (ringBytes items) := by
  rw [encodeRing, encodeRingItems_of_fits h]
  rfl

theorem encodeRing_of_not_fits (h : ¬ RingFits items) :
    encodeRing py items = .error (lengthOverflow py) := by
  rw [encodeRing, encodeRingItems_of_not_fits h]
  rfl

/-- A ring is encoded exactly when the lengths of its items fit. -/
theorem encodeRing_eq_ok_iff :
    encodeRing py items = .ok b ↔ RingFits items ∧ b = ringBytes items := by
  constructor
  · intro h
    by_cases hfits : RingFits items
    · rw [encodeRing_of_fits hfits] at h
      exact ⟨hfits, (Except.ok.inj h).symm⟩
    · rw [encodeRing_of_not_fits hfits] at h
      cases h
  · rintro ⟨hfits, rfl⟩
    exact encodeRing_of_fits hfits

theorem encodeRing_error (h : encodeRing py items = .error e) : e = lengthOverflow py := by
  by_cases hfits : RingFits items
  · rw [encodeRing_of_fits hfits] at h
    cases h
  · rw [encodeRing_of_not_fits hfits] at h
    exact (Except.error.inj h).symm

/-! ### Decoding -/

/-- The loop of `_decode_ring` reads frames. -/
theorem decodeRingItems_eq (py : PyLib) (fuel : ℕ) (b : Bytes) :
    decodeRingItems py fuel b =
      (unframe ringLenPrefix fuel b).mapError (truncatedRing py) := by
  induction fuel generalizing b with
  | zero => cases b <;> rfl
  | succ fuel ih =>
    cases b with
    | nil => rfl
    | cons x xs =>
      simp only [decodeRingItems, unframe, decodeLength, ih]
      split_ifs
      · rfl
      · rfl
      · cases unframe ringLenPrefix fuel _ <;> rfl

/-- Decoding fails only on a truncated ring. -/
theorem decodeRing_error (h : decodeRing py b = .error e) :
    ∃ cut, e = truncatedRing py cut := by
  rw [decodeRing, decodeRingItems_eq] at h
  cases hread : unframe ringLenPrefix b.length (b.drop 1) with
  | ok items =>
    rw [hread] at h
    cases h
  | error cut =>
    rw [hread] at h
    exact ⟨cut, (Except.error.inj h).symm⟩

theorem length_le_frames (items : List Bytes) :
    items.length ≤ (frames ringLenPrefix items).length := by
  induction items with
  | nil => exact Nat.le_refl 0
  | cons item items ih =>
    rw [frames_cons, List.length_append, length_frame, List.length_cons, ringLenPrefix] at *
    omega

/-- **What was encoded is decoded.** -/
theorem decodeRing_ringBytes (h : RingFits items) :
    decodeRing py (ringBytes items) = .ok items := by
  have hfuel : items.length ≤ (ringBytes items).length :=
    (length_le_frames items).trans (Nat.le_succ _)
  rw [decodeRing, decodeRingItems_eq]
  show (unframe ringLenPrefix _ (frames ringLenPrefix items)).mapError _ = _
  rw [unframe_frames (by decide) h hfuel]
  rfl

/-- Different items have different encodings. -/
theorem ringBytes_inj {items' : List Bytes} (h : RingFits items) (h' : RingFits items')
    (heq : ringBytes items = ringBytes items') : items = items' := by
  have hframes : frames ringLenPrefix items = frames ringLenPrefix items' := (List.cons.inj heq).2
  have hread := unframe_frames (by decide) h (Nat.le_add_right items.length items'.length)
  rw [hframes, unframe_frames (by decide) h' (Nat.le_add_left _ _)] at hread
  exact (Except.ok.inj hread).symm

/-- **A beginning of an encoding** that has its kind tag encodes fewer of the items, or is
refused. -/
theorem decodeRing_of_prefix (h : RingFits items) (hb : b <+: ringBytes items) (hne : b ≠ []) :
    (∃ n, b = ringBytes (items.take n)) ∨
      ∃ cut, decodeRing py b = .error (truncatedRing py cut) := by
  obtain ⟨x, xs, rfl⟩ := List.exists_cons_of_ne_nil hne
  obtain ⟨rfl, hxs⟩ := List.cons_prefix_cons.mp hb
  rcases unframe_of_prefix (by decide) h hxs (Nat.le_succ xs.length) with ⟨n, rfl⟩ | ⟨cut, hcut⟩
  · exact .inl ⟨n, rfl⟩
  · refine .inr ⟨cut, ?_⟩
    rw [decodeRing, decodeRingItems_eq]
    show (unframe ringLenPrefix (xs.length + 1) xs).mapError _ = _
    rw [hcut]
    rfl

/-- **What is decoded was encoded**, when it has the kind tag. -/
theorem ringBytes_of_decodeRing (hkind : b.head? = some kindRing)
    (h : decodeRing py b = .ok items) : b = ringBytes items ∧ RingFits items := by
  obtain ⟨xs, rfl⟩ := List.head?_eq_some_iff.mp hkind
  rw [decodeRing, decodeRingItems_eq] at h
  cases hread : unframe ringLenPrefix (kindRing :: xs).length ((kindRing :: xs).drop 1) with
  | error cut =>
    rw [hread] at h
    cases h
  | ok items' =>
    rw [hread] at h
    cases h
    obtain ⟨hframes, hfits⟩ := frames_of_unframe (by decide) (Nat.le_succ xs.length) hread
    exact ⟨congrArg (kindRing :: ·) hframes, hfits⟩

end BeamAgents
