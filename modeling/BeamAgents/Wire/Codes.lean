import Mathlib.Data.List.Basic
import Mathlib.Logic.Function.Basic

/-!
# Prefix codes

A code in which each symbol has a code word, and no code word begins another. A list of symbols is
encoded word by word, and is read back from its code; a separator that begins no code word ends the
list, so that what follows it is read back too.

## Main definitions

* `Wire.PrefixCode`.

## Main results

* `Wire.PrefixCode.flatMap_inj`: different lists have different codes.
* `Wire.PrefixCode.flatMap_append_inj`: and so have lists with what follows them.
-/

namespace Wire

variable {α β : Type*} {f : α → List β} {sep : β}

/-- No code word is empty, and what a code word begins tells the symbol. -/
structure PrefixCode (f : α → List β) : Prop where
  nonempty : ∀ a, f a ≠ []
  symbol : ∀ {a b s t}, f a ++ s = f b ++ t → a = b

/-- **Lists before a separator** are read back, with what follows it. -/
theorem PrefixCode.flatMap_append_inj (h : PrefixCode f) (hsep : ∀ a, (f a).head? ≠ some sep)
    {l l' : List α} {s t : List β} (heq : l.flatMap f ++ sep :: s = l'.flatMap f ++ sep :: t) :
    l = l' ∧ s = t := by
  have hstart {a : α} {u v : List β} (hword : sep :: u = f a ++ v) : False := by
    obtain ⟨x, xs, hx⟩ := List.exists_cons_of_ne_nil (h.nonempty a)
    rw [hx, List.cons_append] at hword
    exact hsep a (by rw [hx, (List.cons.inj hword).1]; rfl)
  induction l generalizing l' with
  | nil =>
    cases l' with
    | nil => exact ⟨rfl, (List.cons.inj heq).2⟩
    | cons b l' =>
      rw [List.flatMap_cons, List.append_assoc] at heq
      exact (hstart heq).elim
  | cons a l ih =>
    rw [List.flatMap_cons, List.append_assoc] at heq
    cases l' with
    | nil => exact (hstart heq.symm).elim
    | cons b l' =>
      rw [List.flatMap_cons, List.append_assoc] at heq
      obtain rfl := h.symbol heq
      obtain ⟨rfl, hrest⟩ := ih (List.append_cancel_left heq)
      exact ⟨rfl, hrest⟩

/-- **Different lists have different codes.** -/
theorem PrefixCode.flatMap_inj (h : PrefixCode f) {l l' : List α}
    (heq : l.flatMap f = l'.flatMap f) : l = l' := by
  induction l generalizing l' with
  | nil =>
    cases l' with
    | nil => rfl
    | cons b l' => exact absurd (List.append_eq_nil_iff.mp heq.symm).1 (h.nonempty b)
  | cons a l ih =>
    cases l' with
    | nil => exact absurd (List.append_eq_nil_iff.mp heq).1 (h.nonempty a)
    | cons b l' =>
      rw [List.flatMap_cons, List.flatMap_cons] at heq
      obtain rfl := h.symbol heq
      rw [ih (List.append_cancel_left heq)]

end Wire
