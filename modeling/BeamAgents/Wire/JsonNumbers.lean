import Mathlib.Data.List.Basic
import Mathlib.Data.List.TakeWhile
import Mathlib.Data.Nat.Digits.Defs

/-!
# Numbers of JSON

An integer is written by its digits, and a float by the literal that `float.__repr__` makes of it,
which has a fraction, an exponent, or both. The reader takes an integer where neither follows the
digits. A float is here its literal, so that two literals of one float are two numbers; `NaN` and
the infinities, which Python writes as well, are left out.

## Main definitions

* `Wire.Json.dumpInt`, `Wire.Json.readInt`.
* `Wire.Json.Decimal`: the literal of a float.
* `Wire.Json.dumpDecimal`, `Wire.Json.readNumber`.

## Main results

* `Wire.Json.readNumber_dumpInt`, `Wire.Json.readNumber_dumpDecimal`: a number is read from what it
  was written as.
-/

namespace Wire.Json

/-! ### Integers -/

/-- The digits of an integer. -/
def dumpInt : Int → List Char
  | .ofNat n => Nat.toDigits 10 n
  | .negSucc n => '-' :: Nat.toDigits 10 (n + 1)

/-- A number without a sign, and what follows. -/
def readNat (text : List Char) : Option (ℕ × List Char) :=
  match text.takeWhile Char.isDigit with
  | [] => none
  | '0' :: _ :: _ => none
  | digits => some (Nat.ofDigitChars 10 digits 0, text.dropWhile Char.isDigit)

/-- An integer, and what follows. -/
def readInt : List Char → Option (Int × List Char)
  | '-' :: rest => (readNat rest).map fun p => (-(p.1 : Int), p.2)
  | text => (readNat text).map fun p => ((p.1 : Int), p.2)

section Integers

variable {rest : List Char}

/-- The digits of a positive number do not start with a zero. -/
theorem toDigits_head {n : ℕ} (h : 0 < n) :
    ∃ c digits, Nat.toDigits 10 n = c :: digits ∧ c ≠ '0' := by
  induction n using Nat.strong_induction_on with
  | _ n ih =>
    by_cases hlt : n < 10
    · have hall : ∀ m : Fin 10, 0 < m.val → Nat.digitChar m ≠ '0' := by decide
      exact ⟨_, [], Nat.toDigits_of_lt_base hlt, hall ⟨n, hlt⟩ h⟩
    · obtain ⟨c, digits, hdigits, hc⟩ := ih (n / 10) (by omega) (by omega)
      refine ⟨c, digits ++ [Nat.digitChar (n % 10)], ?_, hc⟩
      rw [Nat.toDigits_of_base_le (by decide) (not_lt.mp hlt), hdigits, List.cons_append]

/-- Digits end where something else follows. -/
theorem span_digits {digits : List Char} (hdigits : ∀ c ∈ digits, c.isDigit = true)
    (hrest : ∀ c ∈ rest.head?, ¬ c.isDigit) :
    (digits ++ rest).takeWhile Char.isDigit = digits ∧
      (digits ++ rest).dropWhile Char.isDigit = rest := by
  have hstop : rest.takeWhile Char.isDigit = [] ∧ rest.dropWhile Char.isDigit = rest := by
    cases rest with
    | nil => exact ⟨rfl, rfl⟩
    | cons c rest =>
      have hc := hrest c rfl
      exact ⟨List.takeWhile_cons_of_neg hc, List.dropWhile_cons_of_neg hc⟩
  rw [List.takeWhile_append_of_pos hdigits, List.dropWhile_append_of_pos hdigits, hstop.1, hstop.2,
    List.append_nil]
  exact ⟨rfl, rfl⟩

theorem readNat_toDigits (n : ℕ) (hrest : ∀ c ∈ rest.head?, ¬ c.isDigit) :
    readNat (Nat.toDigits 10 n ++ rest) = some (n, rest) := by
  have hdigits (c : Char) (hc : c ∈ Nat.toDigits 10 n) : c.isDigit = true :=
    Nat.isDigit_of_mem_toDigits (by decide) (by decide) hc
  obtain ⟨htake, hdrop⟩ := span_digits hdigits hrest
  rw [readNat, htake, hdrop]
  rcases Nat.eq_zero_or_pos n with rfl | hpos
  · rfl
  · obtain ⟨c, digits, hdigits, hc⟩ := toDigits_head hpos
    have hvalue := Nat.ofDigitChars_ten_toDigits (n := n)
    rw [hdigits] at hvalue ⊢
    split
    · contradiction
    · next heq => exact absurd (List.cons.inj heq).1 hc
    · rw [hvalue]

theorem dumpInt_head (n : Int) : ∃ c digits, dumpInt n = c :: digits ∧ (c = '-' ∨ c.isDigit) := by
  cases n with
  | ofNat n =>
    obtain ⟨c, digits, hdigits⟩ :=
      List.exists_cons_of_ne_nil (Nat.toDigits_ne_nil (n := n) (b := 10))
    have hc : c ∈ Nat.toDigits 10 n := hdigits ▸ List.mem_cons_self
    exact ⟨c, digits, hdigits, .inr (Nat.isDigit_of_mem_toDigits (by decide) (by decide) hc)⟩
  | negSucc n => exact ⟨'-', _, rfl, .inl rfl⟩

/-- **An integer is read from its digits.** -/
theorem readInt_dumpInt (n : Int) (hrest : ∀ c ∈ rest.head?, ¬ c.isDigit) :
    readInt (dumpInt n ++ rest) = some (n, rest) := by
  cases n with
  | ofNat n =>
    have hread : readInt (Nat.toDigits 10 n ++ rest) =
        (readNat (Nat.toDigits 10 n ++ rest)).map fun p => ((p.1 : Int), p.2) := by
      rw [readInt.eq_def]
      split
      · next rest' hminus =>
        obtain ⟨c, digits, hdigits⟩ :=
          List.exists_cons_of_ne_nil (Nat.toDigits_ne_nil (n := n) (b := 10))
        have hc : c ∈ Nat.toDigits 10 n := hdigits ▸ List.mem_cons_self
        have hdigit := Nat.isDigit_of_mem_toDigits (by decide) (by decide) hc
        rw [hdigits, List.cons_append] at hminus
        rw [(List.cons.inj hminus).1] at hdigit
        exact absurd hdigit (by decide)
      · rfl
    rw [dumpInt, hread, readNat_toDigits n hrest]
    rfl
  | negSucc n =>
    rw [dumpInt, List.cons_append, readInt, readNat_toDigits _ hrest]
    rfl

end Integers

/-! ### Fractions and exponents -/

/-- The digits behind a point, and what follows. -/
def readFraction : List Char → List Char × List Char
  | '.' :: rest =>
    if rest.takeWhile Char.isDigit = [] then ([], '.' :: rest)
    else (rest.takeWhile Char.isDigit, rest.dropWhile Char.isDigit)
  | text => ([], text)

/-- A sign, and what follows. -/
def readSign : List Char → List Char × List Char
  | '+' :: rest => (['+'], rest)
  | '-' :: rest => (['-'], rest)
  | text => ([], text)

/-- An exponent with its letter, and what follows. -/
def readExponent : List Char → List Char × List Char
  | [] => ([], [])
  | letter :: rest =>
    let signed := readSign rest
    if (letter = 'e' ∨ letter = 'E') ∧ signed.2.takeWhile Char.isDigit ≠ [] then
      (letter :: (signed.1 ++ signed.2.takeWhile Char.isDigit), signed.2.dropWhile Char.isDigit)
    else ([], letter :: rest)

/-- What may follow a number. -/
def EndsNumber (rest : List Char) : Prop :=
  ∀ c ∈ rest.head?, ¬ c.isDigit ∧ c ∉ ['.', 'e', 'E']

section Parts

variable {text rest : List Char}

theorem endsNumber_cons {c : Char} (h : ¬ c.isDigit ∧ c ∉ ['.', 'e', 'E']) (rest : List Char) :
    EndsNumber (c :: rest) := by
  intro d hd
  obtain rfl := Option.some.inj hd
  exact h

theorem EndsNumber.noDigit (h : EndsNumber rest) : ∀ c ∈ rest.head?, ¬ c.isDigit :=
  fun c hc => (h c hc).1

theorem readFraction_digits (text : List Char) : ∀ c ∈ (readFraction text).1, c.isDigit = true := by
  unfold readFraction
  split
  · split_ifs with hnone
    · exact fun c hc => absurd hc List.not_mem_nil
    · exact fun c hc => List.mem_takeWhile_imp hc
  · exact fun c hc => absurd hc List.not_mem_nil

theorem readFraction_append {fraction : List Char} (hdigits : ∀ c ∈ fraction, c.isDigit = true)
    (hne : fraction ≠ []) (hrest : ∀ c ∈ rest.head?, ¬ c.isDigit) :
    readFraction ('.' :: (fraction ++ rest)) = (fraction, rest) := by
  obtain ⟨htake, hdrop⟩ := span_digits hdigits hrest
  rw [readFraction, htake, hdrop, if_neg hne]

theorem readFraction_of_ne (h : ∀ c ∈ text.head?, c ≠ '.') : readFraction text = ([], text) := by
  unfold readFraction
  split
  · exact absurd rfl (h '.' rfl)
  · rfl

/-- A sign is one whatever follows the text. -/
theorem readSign_append (h : text ≠ []) (rest : List Char) :
    readSign (text ++ rest) = ((readSign text).1, (readSign text).2 ++ rest) := by
  obtain ⟨c, cs, rfl⟩ := List.exists_cons_of_ne_nil h
  rw [List.cons_append]
  by_cases hplus : c = '+'
  · subst hplus
    rfl
  · by_cases hminus : c = '-'
    · subst hminus
      rfl
    · have hnone (l : List Char) : readSign (c :: l) = ([], c :: l) := by
        unfold readSign
        split
        · next heq => exact absurd (List.cons.inj heq).1 hplus
        · next heq => exact absurd (List.cons.inj heq).1 hminus
        · rfl
      rw [hnone, hnone, List.cons_append]

theorem readSign_fst_append_snd (text : List Char) :
    (readSign text).1 ++ (readSign text).2 = text := by
  unfold readSign
  split <;> rfl

/-- **An exponent is read before what ends a number.** -/
theorem readExponent_append {exponent : List Char} (h : readExponent exponent = (exponent, []))
    (hrest : EndsNumber rest) : readExponent (exponent ++ rest) = (exponent, rest) := by
  cases exponent with
  | nil =>
    cases rest with
    | nil => rfl
    | cons c rest =>
      have hletter : ¬ (c = 'e' ∨ c = 'E') := by
        have hc := (hrest c rfl).2
        simp only [List.mem_cons, not_or] at hc
        exact not_or.mpr ⟨hc.2.1, hc.2.2.1⟩
      rw [List.nil_append, readExponent, if_neg fun hboth => hletter hboth.1]
  | cons letter text =>
    rw [readExponent] at h
    split_ifs at h with hboth
    swap
    · cases h
    obtain ⟨hread, hend⟩ := Prod.mk.inj h
    have hne : text ≠ [] := by
      rintro rfl
      exact hboth.2 rfl
    have hdigits : ∀ c ∈ (readSign text).2, c.isDigit = true := List.dropWhile_eq_nil_iff.mp hend
    obtain ⟨htake, hdrop⟩ := span_digits hdigits hrest.noDigit
    have hall : (readSign text).2.takeWhile Char.isDigit = (readSign text).2 :=
      List.takeWhile_eq_self_iff.mpr hdigits
    rw [List.cons_append, readExponent, readSign_append hne, htake, hdrop,
      if_pos ⟨hboth.1, hall ▸ hboth.2⟩, readSign_fst_append_snd]

/-- What was read as an exponent is one. -/
theorem readExponent_self (text : List Char) :
    readExponent (readExponent text).1 = ((readExponent text).1, []) := by
  cases text with
  | nil => rfl
  | cons letter text =>
    rw [readExponent]
    split_ifs with hboth
    · obtain ⟨hletter, hsome⟩ := hboth
      have hdigits : ∀ c ∈ (readSign text).2.takeWhile Char.isDigit, c.isDigit = true :=
        fun c hc => List.mem_takeWhile_imp hc
      have hsign : readSign ((readSign text).1 ++ (readSign text).2.takeWhile Char.isDigit) =
          ((readSign text).1, (readSign text).2.takeWhile Char.isDigit) := by
        have htext : (readSign text).1 ++ (readSign text).2.takeWhile Char.isDigit ++
            (readSign text).2.dropWhile Char.isDigit = text := by
          rw [List.append_assoc, List.takeWhile_append_dropWhile, readSign_fst_append_snd]
        have hread := readSign_append
          (List.append_ne_nil_of_right_ne_nil (readSign text).1 hsome)
          ((readSign text).2.dropWhile Char.isDigit)
        rw [htext] at hread
        obtain ⟨hfst, hsnd⟩ := Prod.ext_iff.mp hread
        have hdropped := (List.takeWhile_append_dropWhile (p := Char.isDigit)).trans hsnd
        exact Prod.ext hfst.symm (List.append_cancel_right hdropped).symm
      have htake := List.takeWhile_eq_self_iff.mpr hdigits
      have hdrop := List.dropWhile_eq_nil_iff.mpr hdigits
      simp only [readExponent, hsign, htake, hdrop, if_pos (⟨hletter, hsome⟩ : _ ∧ _)]
    · rfl

end Parts

/-! ### Numbers -/

/-- The literal of a float: a sign, the digits before the point and those behind it, and the
exponent with its letter. -/
structure Decimal where
  negative : Bool
  whole : ℕ
  fraction : List Char
  exponent : List Char
  digits : ∀ c ∈ fraction, c.isDigit = true
  scaled : readExponent exponent = (exponent, [])
  noInteger : fraction ≠ [] ∨ exponent ≠ []
  deriving DecidableEq, Repr

/-- The fraction and the exponent as they are written. -/
def Decimal.tail (d : Decimal) : List Char :=
  (if d.fraction = [] then [] else '.' :: d.fraction) ++ d.exponent

/-- A literal as it is written. -/
def dumpDecimal (d : Decimal) : List Char :=
  (if d.negative then ['-'] else []) ++ Nat.toDigits 10 d.whole ++ d.tail

/-- A number, and what follows: a float if a fraction or an exponent is behind the digits. -/
def readNumber (text : List Char) : Option ((Int ⊕ Decimal) × List Char) :=
  (readInt text).map fun p =>
    let fraction := readFraction p.2
    let exponent := readExponent fraction.2
    if h : fraction.1 ≠ [] ∨ exponent.1 ≠ [] then
      (.inr {
        negative := text.head? = some '-', whole := p.1.natAbs
        fraction := fraction.1, exponent := exponent.1
        digits := readFraction_digits _, scaled := readExponent_self _, noInteger := h },
      exponent.2)
    else (.inl p.1, p.2)

section Numbers

variable {rest : List Char}

/-- **An integer is read from what it was written as.** -/
theorem readNumber_dumpInt (n : Int) (h : EndsNumber rest) :
    readNumber (dumpInt n ++ rest) = some (.inl n, rest) := by
  have hfraction : readFraction rest = ([], rest) :=
    readFraction_of_ne fun c hc hdot => (h c hc).2 (hdot ▸ List.mem_cons_self)
  have hnone : readExponent [] = ([], []) := rfl
  have hexponent : readExponent rest = ([], rest) := readExponent_append hnone h
  simp only [readNumber, readInt_dumpInt n h.noDigit, Option.map_some, hfraction, hexponent]
  rfl

theorem dumpDecimal_head (d : Decimal) :
    ∃ c text, dumpDecimal d = c :: text ∧ (c = '-' ∨ c.isDigit) := by
  obtain ⟨c, digits, hwhole⟩ :=
    List.exists_cons_of_ne_nil (Nat.toDigits_ne_nil (n := d.whole) (b := 10))
  have hc : c.isDigit = true :=
    Nat.isDigit_of_mem_toDigits (by decide) (by decide) (hwhole ▸ List.mem_cons_self)
  cases hnegative : d.negative with
  | true => exact ⟨'-', _, by rw [dumpDecimal, hnegative]; rfl, .inl rfl⟩
  | false => exact ⟨c, _, by rw [dumpDecimal, hnegative, hwhole]; rfl, .inr hc⟩

/-- An exponent starts with its letter. -/
theorem exponent_head {letter : Char} {text : List Char}
    (h : readExponent (letter :: text) = (letter :: text, [])) : letter = 'e' ∨ letter = 'E' := by
  rw [readExponent] at h
  split_ifs at h with hboth
  · exact hboth.1
  · cases h

/-- No digit and no point is where an exponent may stand. -/
theorem Decimal.exponent_ends (d : Decimal) (h : EndsNumber rest) :
    ∀ c ∈ (d.exponent ++ rest).head?, ¬ c.isDigit ∧ c ≠ '.' := by
  intro c hc
  cases hexponent : d.exponent with
  | nil =>
    rw [hexponent, List.nil_append] at hc
    exact ⟨h.noDigit c hc, fun hdot => (h c hc).2 (hdot ▸ List.mem_cons_self)⟩
  | cons letter text =>
    rw [hexponent, List.cons_append, List.head?_cons] at hc
    obtain rfl := Option.some.inj hc
    rcases exponent_head (hexponent ▸ d.scaled) with rfl | rfl <;> decide

/-- The digits before the point end where the fraction or the exponent starts. -/
theorem Decimal.tail_noDigit (d : Decimal) (h : EndsNumber rest) :
    ∀ c ∈ (d.tail ++ rest).head?, ¬ c.isDigit := by
  rw [tail]
  split_ifs with hnone
  · exact fun c hc => (d.exponent_ends h c hc).1
  · intro c hc
    obtain rfl := Option.some.inj hc
    decide

/-- The fraction and the exponent are read one after the other. -/
theorem Decimal.readFraction_tail (d : Decimal) (h : EndsNumber rest) :
    readFraction (d.tail ++ rest) = (d.fraction, d.exponent ++ rest) := by
  rw [tail]
  split_ifs with hnone
  · rw [hnone]
    exact readFraction_of_ne fun c hc => (d.exponent_ends h c hc).2
  · rw [List.cons_append, List.cons_append, List.append_assoc]
    exact readFraction_append d.digits hnone fun c hc => (d.exponent_ends h c hc).1

theorem readInt_dumpDecimal (d : Decimal) (h : EndsNumber rest) :
    ∃ n : Int, readInt (dumpDecimal d ++ rest) = some (n, d.tail ++ rest) ∧ n.natAbs = d.whole ∧
      decide ((dumpDecimal d ++ rest).head? = some '-') = d.negative := by
  have hdigits := d.tail_noDigit h
  rw [dumpDecimal, List.append_assoc]
  cases d.negative with
  | true =>
    refine ⟨-(d.whole : Int), ?_, by omega, rfl⟩
    show (readNat (Nat.toDigits 10 d.whole ++ (d.tail ++ rest))).map _ = _
    rw [readNat_toDigits _ hdigits]
    rfl
  | false =>
    refine ⟨d.whole, readInt_dumpInt (.ofNat d.whole) hdigits, rfl, ?_⟩
    obtain ⟨c, digits, hwhole⟩ :=
      List.exists_cons_of_ne_nil (Nat.toDigits_ne_nil (n := d.whole) (b := 10))
    have hc : c.isDigit = true :=
      Nat.isDigit_of_mem_toDigits (by decide) (by decide) (hwhole ▸ List.mem_cons_self)
    refine decide_eq_false fun hminus => ?_
    rw [hwhole] at hminus
    rw [Option.some.inj hminus] at hc
    exact absurd hc (by decide)

/-- **A literal is read from what it was written as.** -/
theorem readNumber_dumpDecimal (d : Decimal) (h : EndsNumber rest) :
    readNumber (dumpDecimal d ++ rest) = some (.inr d, rest) := by
  obtain ⟨n, hread, hwhole, hnegative⟩ := readInt_dumpDecimal d h
  have hexponent := readExponent_append d.scaled h
  simp only [readNumber, hread, Option.map_some, d.readFraction_tail h, hexponent, hwhole,
    hnegative, dif_pos d.noInteger]

end Numbers

end Wire.Json
