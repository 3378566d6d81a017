import Mathlib.Algebra.Order.Ring.Nat
import Mathlib.Data.List.Basic

/-!
# Variable-length integers, and readers of bytes

A natural number is written in base 128, least significant digit first, one digit a byte; every byte
but the last has its top bit set. A reader of a list of bytes returns what it read and what it left.
The readers here are local: what they read depends on the bytes that they take and on nothing after
them, so that whole pieces may be read one after another wherever they stand.

## Main definitions

* `Wire.writeVarint`, `Wire.readVarint`.
* `Wire.Local`: a reader takes a prefix, and reads it the same before any other bytes.

## Main results

* `Wire.readVarint_writeVarint`: what was written is read.
* `Wire.Local.bind`: one local reader after another is local.
-/

namespace Wire

variable {α β : Type*}

/-! ### Local readers -/

/-- A reader that takes a prefix of the bytes, and reads this prefix in the same way whatever
follows. -/
def Local (read : List UInt8 → Option (α × List UInt8)) : Prop :=
  ∀ ⦃bs a rest⦄, read bs = some (a, rest) →
    ∃ raw, bs = raw ++ rest ∧ ∀ rest', read (raw ++ rest') = some (a, rest')

/-- One reader after another. -/
theorem Local.bind {read : List UInt8 → Option (α × List UInt8)}
    {next : α → List UInt8 → Option (β × List UInt8)} (hread : Local read)
    (hnext : ∀ a, Local (next a)) : Local fun bs => (read bs).bind fun r => next r.1 r.2 := by
  intro bs b rest h
  obtain ⟨⟨a, mid⟩, ha, hb⟩ := Option.bind_eq_some_iff.mp h
  obtain ⟨raw, rfl, hraw⟩ := hread ha
  obtain ⟨raw', rfl, hraw'⟩ := hnext a hb
  refine ⟨raw ++ raw', (List.append_assoc ..).symm, fun rest' => ?_⟩
  show (read (raw ++ raw' ++ rest')).bind _ = _
  rw [List.append_assoc, hraw, Option.bind_some]
  exact hraw' rest'

/-- A reader that takes nothing. -/
theorem Local.pure (a : α) : Local fun bs => some (a, bs) := by
  intro bs a' rest h
  cases h
  exact ⟨[], rfl, fun _ => rfl⟩

theorem Local.fail : Local (fun _ => none : List UInt8 → Option (α × List UInt8)) :=
  fun _ _ _ h => by cases h

/-- A reader whose values are mapped. -/
theorem Local.map {read : List UInt8 → Option (α × List UInt8)} (h : Local read) (f : α → β) :
    Local fun bs => (read bs).map fun r => (f r.1, r.2) := by
  have heq : (fun bs => (read bs).map fun r => (f r.1, r.2)) =
      fun bs => (read bs).bind fun r => some (f r.1, r.2) := by
    funext bs
    rw [Option.map_eq_bind]
    rfl
  rw [heq]
  exact h.bind fun a => .pure (f a)

/-- A reader that a condition on its values may turn down. -/
theorem Local.ite {read : List UInt8 → Option (α × List UInt8)} {p : Prop} [Decidable p]
    (h : Local read) : Local fun bs => if p then read bs else none := by
  by_cases hp : p
  · simpa only [if_pos hp] using h
  · simpa only [if_neg hp] using Local.fail

/-- The next bytes. -/
def readBytes (n : ℕ) (bs : List UInt8) : Option (List UInt8 × List UInt8) :=
  if n ≤ bs.length then some (bs.take n, bs.drop n) else none

theorem readBytes_append {raw rest : List UInt8} {n : ℕ} (h : raw.length = n) :
    readBytes n (raw ++ rest) = some (raw, rest) := by
  rw [readBytes, if_pos (by rw [List.length_append]; omega), List.take_left' h, List.drop_left' h]

theorem local_readBytes (n : ℕ) : Local (readBytes n) := by
  intro bs a rest h
  rw [readBytes] at h
  split_ifs at h with hlen
  cases h
  exact ⟨bs.take n, (List.take_append_drop n bs).symm,
    fun rest' => readBytes_append (List.length_take_of_le hlen)⟩

/-! ### Varints -/

/-- The bytes of a number, with a bound on how many there are. -/
def varintBytes : ℕ → ℕ → List UInt8
  | 0, _ => []
  | fuel + 1, n =>
    if n < 128 then [UInt8.ofNat n]
    else UInt8.ofNat (n % 128 + 128) :: varintBytes fuel (n / 128)

/-- A number as a varint. -/
def writeVarint (n : ℕ) : List UInt8 := varintBytes (n + 1) n

theorem varintBytes_eq {fuel n : ℕ} (h : n < fuel) : varintBytes fuel n = writeVarint n := by
  suffices hfuel : ∀ fuel fuel' n, n < fuel → n < fuel' →
      varintBytes fuel n = varintBytes fuel' n from hfuel fuel (n + 1) n h n.lt_succ_self
  intro fuel
  induction fuel with
  | zero => exact fun _ _ h => absurd h (Nat.not_lt_zero _)
  | succ fuel ih =>
    intro fuel' n hfuel hfuel'
    cases fuel' with
    | zero => exact absurd hfuel' (Nat.not_lt_zero _)
    | succ fuel' =>
      rw [varintBytes, varintBytes]
      split_ifs with hn
      · rfl
      · rw [ih fuel' (n / 128) (by omega) (by omega)]

/-- The recursion of the writer. -/
theorem writeVarint_eq (n : ℕ) : writeVarint n =
    if n < 128 then [UInt8.ofNat n]
    else UInt8.ofNat (n % 128 + 128) :: writeVarint (n / 128) := by
  rw [writeVarint, varintBytes]
  split_ifs with hn
  · rfl
  · rw [varintBytes_eq (by omega)]

theorem writeVarint_ne_nil (n : ℕ) : writeVarint n ≠ [] := by
  rw [writeVarint_eq]
  split_ifs <;> simp

/-- The number that a varint of at most `k` bytes stands for. -/
def readVarint : ℕ → List UInt8 → Option (ℕ × List UInt8)
  | 0, _ => none
  | _ + 1, [] => none
  | k + 1, b :: bs =>
    if b.toNat < 128 then some (b.toNat, bs)
    else (readVarint k bs).map fun r => (b.toNat - 128 + 128 * r.1, r.2)

/-- **What was written is read**, where the bytes suffice. -/
theorem readVarint_writeVarint {k n : ℕ} (hk : 0 < k) (h : n < 128 ^ k) (rest : List UInt8) :
    readVarint k (writeVarint n ++ rest) = some (n, rest) := by
  induction k generalizing n with
  | zero => exact absurd hk (lt_irrefl 0)
  | succ k ih =>
    rw [writeVarint_eq]
    split_ifs with hn
    · have hbyte : (UInt8.ofNat n).toNat = n := by
        rw [UInt8.toNat_ofNat']
        omega
      rw [List.singleton_append, readVarint, hbyte, if_pos hn]
    · have hbyte : (UInt8.ofNat (n % 128 + 128)).toNat = n % 128 + 128 := by
        rw [UInt8.toNat_ofNat']
        omega
      have hdiv : n / 128 < 128 ^ k := by
        rw [pow_succ] at h
        omega
      have hk' : 0 < k := by
        rcases Nat.eq_zero_or_pos k with rfl | hk'
        · rw [pow_zero] at hdiv
          omega
        · exact hk'
      rw [List.cons_append, readVarint, hbyte, if_neg (by omega), ih hk' hdiv, Option.map_some]
      congr 2
      omega

theorem local_readVarint (k : ℕ) : Local (readVarint k) := by
  induction k with
  | zero => exact .fail
  | succ k ih =>
    intro bs n rest h
    cases bs with
    | nil => cases h
    | cons b bs =>
      rw [readVarint] at h
      split_ifs at h with hb
      · cases h
        exact ⟨[b], rfl, fun rest' => by rw [List.singleton_append, readVarint, if_pos hb]⟩
      · obtain ⟨raw, rfl, hraw⟩ := ih.map (fun m => b.toNat - 128 + 128 * m) h
        refine ⟨b :: raw, rfl, fun rest' => ?_⟩
        rw [List.cons_append, readVarint, if_neg hb]
        exact hraw rest'

/-- A reader that may take more bytes reads the same. -/
theorem readVarint_mono {k k' : ℕ} (hk : k ≤ k') {bs : List UInt8} {r : ℕ × List UInt8}
    (h : readVarint k bs = some r) : readVarint k' bs = some r := by
  induction k generalizing k' bs r with
  | zero => cases h
  | succ k ih =>
    obtain ⟨k', rfl⟩ := Nat.exists_eq_add_of_le' (Nat.one_le_of_lt hk)
    cases bs with
    | nil => cases h
    | cons b bs =>
      rw [readVarint] at h ⊢
      split_ifs at h ⊢ with hb
      · exact h
      · obtain ⟨r', hr', rfl⟩ := Option.map_eq_some_iff.mp h
        rw [ih (Nat.le_of_succ_le_succ hk) hr', Option.map_some]

/-- A varint takes at least one byte. -/
theorem length_of_readVarint {k n : ℕ} {bs rest : List UInt8}
    (h : readVarint k bs = some (n, rest)) : rest.length < bs.length := by
  cases k with
  | zero => cases h
  | succ k =>
    cases bs with
    | nil => cases h
    | cons b bs =>
      rw [readVarint] at h
      split_ifs at h with hb
      · cases h
        exact Nat.lt_succ_self _
      · obtain ⟨⟨m, rest'⟩, hr, heq⟩ := Option.map_eq_some_iff.mp h
        obtain ⟨raw, rfl, -⟩ := local_readVarint k hr
        cases heq
        simp only [List.length_cons, List.length_append]
        omega

end Wire
