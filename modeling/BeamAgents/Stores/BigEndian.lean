import Mathlib.Algebra.Order.Ring.Nat
import Mathlib.Data.List.Basic
import Mathlib.Data.Nat.Basic
import Mathlib.Tactic.Ring

/-!
# Fixed-width big-endian numbers

A number as a fixed count of bytes, the most significant first. Among the numbers that fit, the
order of the numbers is the lexicographic order of the bytes, so that a store that can compare bytes
only compares numbers.

## Main definitions

* `Stores.bigEndian`, `Stores.ofBigEndian`.

## Main results

* `Stores.bigEndian_lt_iff`: the two orders agree.
* `Stores.ofBigEndian_bigEndian`, `Stores.bigEndian_ofBigEndian`: the number and the bytes are read
  back.
-/

namespace Stores

/-- The `width` bytes of a number, the most significant first. -/
def bigEndian : (width : ℕ) → ℕ → List UInt8
  | 0, _ => []
  | width + 1, n => UInt8.ofNat (n / 256 ^ width) :: bigEndian width (n % 256 ^ width)

/-- The number that bytes spell. -/
def ofBigEndian (b : List UInt8) : ℕ := b.foldl (fun n x => n * 256 + x.toNat) 0

variable {width a b n : ℕ}

private theorem digit_lt (h : n < 256 ^ (width + 1)) : n / 256 ^ width < 256 := by
  refine Nat.div_lt_of_lt_mul ?_
  rwa [pow_succ] at h

private theorem toNat_digit (h : n < 256 ^ (width + 1)) :
    (UInt8.ofNat (n / 256 ^ width)).toNat = n / 256 ^ width :=
  Nat.mod_eq_of_lt (digit_lt h)

@[simp] theorem length_bigEndian (width n : ℕ) : (bigEndian width n).length = width := by
  induction width generalizing n with
  | zero => rfl
  | succ width ih => rw [bigEndian, List.length_cons, ih]

/-- **The order of the bytes is the order of the numbers.** -/
theorem bigEndian_lt_iff (ha : a < 256 ^ width) (hb : b < 256 ^ width) :
    bigEndian width a < bigEndian width b ↔ a < b := by
  induction width generalizing a b with
  | zero =>
    have ha' : a = 0 := by simpa using ha
    have hb' : b = 0 := by simpa using hb
    subst ha' hb'
    simp [bigEndian]
  | succ width ih =>
    have hpos : 0 < 256 ^ width := Nat.pow_pos (by decide)
    have htail := ih (Nat.mod_lt a hpos) (Nat.mod_lt b hpos)
    have hsplit_a := Nat.div_add_mod a (256 ^ width)
    have hsplit_b := Nat.div_add_mod b (256 ^ width)
    have hmod_a := Nat.mod_lt a hpos
    have hmod_b := Nat.mod_lt b hpos
    rw [bigEndian, bigEndian, List.cons_lt_cons_iff, htail, UInt8.lt_iff_toNat_lt,
      ← UInt8.toNat_inj, toNat_digit ha, toNat_digit hb]
    constructor
    · rintro (hdigit | ⟨hdigit, hrest⟩)
      · have hstep : 256 ^ width * (a / 256 ^ width + 1) ≤ 256 ^ width * (b / 256 ^ width) :=
          Nat.mul_le_mul_left _ hdigit
        rw [Nat.mul_add] at hstep
        omega
      · rw [hdigit] at hsplit_a
        omega
    · intro hlt
      rcases Nat.lt_or_ge (a / 256 ^ width) (b / 256 ^ width) with hdigit | hdigit
      · exact .inl hdigit
      · have heq : a / 256 ^ width = b / 256 ^ width :=
          Nat.le_antisymm (Nat.div_le_div_right hlt.le) hdigit
        refine .inr ⟨heq, ?_⟩
        rw [heq] at hsplit_a
        omega

private theorem foldl_bigEndian (h : n < 256 ^ width) (acc : ℕ) :
    (bigEndian width n).foldl (fun n x => n * 256 + x.toNat) acc = acc * 256 ^ width + n := by
  induction width generalizing n acc with
  | zero =>
    have hn : n = 0 := by simpa using h
    simp [bigEndian, hn]
  | succ width ih =>
    have hpos : 0 < 256 ^ width := Nat.pow_pos (by decide)
    rw [bigEndian, List.foldl_cons, ih (Nat.mod_lt n hpos), toNat_digit h]
    have hsplit := Nat.div_add_mod n (256 ^ width)
    calc (acc * 256 + n / 256 ^ width) * 256 ^ width + n % 256 ^ width
        = acc * 256 ^ (width + 1) + (256 ^ width * (n / 256 ^ width) + n % 256 ^ width) := by ring
      _ = acc * 256 ^ (width + 1) + n := by rw [hsplit]

/-- A number that fits is read back. -/
theorem ofBigEndian_bigEndian (h : n < 256 ^ width) : ofBigEndian (bigEndian width n) = n := by
  rw [ofBigEndian, foldl_bigEndian h]
  omega

private theorem foldl_bytes (bytes : List UInt8) (acc : ℕ) :
    bytes.foldl (fun n x => n * 256 + x.toNat) acc =
      acc * 256 ^ bytes.length + ofBigEndian bytes := by
  induction bytes generalizing acc with
  | nil => simp [ofBigEndian]
  | cons x xs ih =>
    rw [ofBigEndian, List.foldl_cons, List.foldl_cons, ih, ih (0 * 256 + x.toNat),
      List.length_cons]
    ring

/-- The number that some bytes spell fits in as many bytes. -/
theorem ofBigEndian_lt (bytes : List UInt8) : ofBigEndian bytes < 256 ^ bytes.length := by
  induction bytes with
  | nil => exact Nat.zero_lt_one
  | cons x xs ih =>
    have hx : x.toNat + 1 ≤ 256 := x.toNat_lt
    rw [ofBigEndian, List.foldl_cons, foldl_bytes, List.length_cons, pow_succ]
    calc (0 * 256 + x.toNat) * 256 ^ xs.length + ofBigEndian xs
        < (0 * 256 + x.toNat) * 256 ^ xs.length + 256 ^ xs.length := Nat.add_lt_add_left ih _
      _ = (x.toNat + 1) * 256 ^ xs.length := by ring
      _ ≤ 256 * 256 ^ xs.length := Nat.mul_le_mul_right _ hx
      _ = 256 ^ xs.length * 256 := Nat.mul_comm _ _

/-- Bytes are spelled again by the number that they spell. -/
theorem bigEndian_ofBigEndian (bytes : List UInt8) :
    bigEndian bytes.length (ofBigEndian bytes) = bytes := by
  induction bytes with
  | nil => rfl
  | cons x xs ih =>
    have hpos : 0 < 256 ^ xs.length := Nat.pow_pos (by decide)
    have hvalue : ofBigEndian (x :: xs) = 256 ^ xs.length * x.toNat + ofBigEndian xs := by
      rw [ofBigEndian, List.foldl_cons, foldl_bytes]
      ring
    have hhead : ofBigEndian (x :: xs) / 256 ^ xs.length = x.toNat := by
      rw [hvalue, Nat.mul_add_div hpos, Nat.div_eq_of_lt (ofBigEndian_lt xs), Nat.add_zero]
    have htail : ofBigEndian (x :: xs) % 256 ^ xs.length = ofBigEndian xs := by
      rw [hvalue, Nat.mul_add_mod, Nat.mod_eq_of_lt (ofBigEndian_lt xs)]
    rw [List.length_cons, bigEndian, hhead, htail, ih, UInt8.ofNat_toNat]

end Stores
