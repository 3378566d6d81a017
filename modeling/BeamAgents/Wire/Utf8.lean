import BeamAgents.Wire.Codes
import Mathlib.Data.Char
import Mathlib.Data.List.Lex
import Mathlib.Data.String.Basic

/-!
# The order of texts in UTF-8

A code whose words are in the order of their symbols, whatever follows them, keeps the order of
lists: encoded lists are in lexicographic order exactly when the lists are, and one begins another
exactly when it does so before they are encoded. UTF-8 is such a code, so that the bytes of texts
are in the order of their code points.

## Main definitions

* `Wire.OrderedCode`.

## Main results

* `Wire.OrderedCode.flatMap_lt_iff`, `Wire.OrderedCode.flatMap_prefix_iff`.
* `Wire.between_iff`: the range from a list to the same list with one more element.
* `Wire.utf8EncodeChar_orderedCode`: UTF-8 is an ordered code.
-/

namespace Wire

variable {α β : Type*} [LinearOrder α] [LT β] [Std.Irrefl (· < · : β → β → Prop)]
  {f : α → List β}

/-- The code words are in the order of the symbols, and none of them is empty. -/
structure OrderedCode (f : α → List β) : Prop where
  nonempty : ∀ a, f a ≠ []
  lt : ∀ {a b : α} (s t : List β), a < b → f a ++ s < f b ++ t

namespace OrderedCode

theorem append_lt_append_iff (l s t : List β) : l ++ s < l ++ t ↔ s < t := by
  induction l with
  | nil => rfl
  | cons a l ih => rw [List.cons_append, List.cons_append, List.cons_lt_cons_self, ih]

/-- What a code word begins tells the symbol. -/
theorem symbol (h : OrderedCode f) {a b : α} {s t : List β} (heq : f a ++ s = f b ++ t) :
    a = b := by
  rcases lt_trichotomy a b with hlt | rfl | hlt
  · exact absurd (h.lt s t hlt) (heq ▸ List.lt_irrefl _)
  · rfl
  · exact absurd (h.lt t s hlt) (heq ▸ List.lt_irrefl _)

/-- A list that comes before another does so in the code. -/
theorem flatMap_lt (h : OrderedCode f) {l l' : List α} (hlt : l < l') :
    l.flatMap f < l'.flatMap f := by
  induction l generalizing l' with
  | nil =>
    cases l' with
    | nil => exact absurd hlt (List.lt_irrefl _)
    | cons b l' =>
      obtain ⟨x, xs, hx⟩ := List.exists_cons_of_ne_nil (h.nonempty b)
      rw [List.flatMap_nil, List.flatMap_cons, hx, List.cons_append]
      exact List.nil_lt_cons x _
  | cons a l ih =>
    cases l' with
    | nil => exact absurd hlt (List.not_lt_nil _)
    | cons b l' =>
      rw [List.flatMap_cons, List.flatMap_cons]
      rcases List.cons_lt_cons_iff.mp hlt with hab | ⟨rfl, hrest⟩
      · exact h.lt _ _ hab
      · exact (append_lt_append_iff _ _ _).mpr (ih hrest)

/-- **Encoded lists are in the order of the lists.** -/
theorem flatMap_lt_iff [Std.Asymm (· < · : β → β → Prop)] (h : OrderedCode f) {l l' : List α} :
    l.flatMap f < l'.flatMap f ↔ l < l' := by
  refine ⟨fun hlt => ?_, h.flatMap_lt⟩
  rcases lt_trichotomy l l' with hl | rfl | hl
  · exact hl
  · exact absurd hlt (List.lt_irrefl _)
  · exact absurd hlt (List.lt_asymm (h.flatMap_lt hl))

/-- **An encoded list begins another** exactly when the list does. -/
theorem flatMap_prefix_iff (h : OrderedCode f) {l l' : List α} :
    l.flatMap f <+: l'.flatMap f ↔ l <+: l' := by
  constructor
  · intro hprefix
    induction l generalizing l' with
    | nil => exact List.nil_prefix
    | cons a l ih =>
      obtain ⟨t, ht⟩ := hprefix
      rw [List.flatMap_cons, List.append_assoc] at ht
      cases l' with
      | nil => exact absurd (List.append_eq_nil_iff.mp ht).1 (h.nonempty a)
      | cons b l' =>
        rw [List.flatMap_cons] at ht
        obtain rfl := h.symbol ht
        rw [List.cons_prefix_cons]
        exact ⟨rfl, ih ⟨t, List.append_cancel_left ht⟩⟩
  · rintro ⟨t, rfl⟩
    exact ⟨t.flatMap f, (List.flatMap_append ..).symm⟩

end OrderedCode

/-! ### Ranges -/

/-- **What lies between a list and the same list with one more element** starts with it, and goes on
with something that comes before this element. -/
theorem between_iff {α : Type*} [LinearOrder α] {l m : List α} {x : α} :
    ¬ m < l ∧ m < l ++ [x] ↔ ∃ rest, m = l ++ rest ∧ rest < [x] := by
  induction l generalizing m with
  | nil => simp
  | cons a l ih =>
    cases m with
    | nil => simp
    | cons b m =>
      rw [List.cons_append, List.cons_lt_cons_iff, List.cons_lt_cons_iff]
      constructor
      · rintro ⟨hnot, hba | ⟨rfl, hm⟩⟩
        · exact absurd (.inl hba) hnot
        · obtain ⟨rest, rfl, hrest⟩ := ih.mp ⟨fun hl => hnot (.inr ⟨rfl, hl⟩), hm⟩
          exact ⟨rest, rfl, hrest⟩
      · rintro ⟨rest, heq, hrest⟩
        obtain ⟨rfl, rfl⟩ := List.cons.inj heq
        obtain ⟨hl, hm⟩ := ih.mpr ⟨rest, rfl, hrest⟩
        exact ⟨fun h => h.elim (lt_irrefl _) fun h => hl h.2, .inr ⟨rfl, hm⟩⟩

theorem lt_singleton_iff {α : Type*} [LinearOrder α] {l : List α} {x : α} :
    l < [x] ↔ ∀ a ∈ l.head?, a < x := by
  cases l with
  | nil => simp
  | cons a l => simp [List.cons_lt_cons_iff]

/-! ### UTF-8 -/

/-- Bytes are in order when their first ones are, or these are equal and the others are in order. -/
private theorem cons_lt_cons {m n : ℕ} {s t : List UInt8} (hn : n < 256) (hle : m ≤ n)
    (hrest : m = n → s < t) : UInt8.ofNat m :: s < UInt8.ofNat n :: t := by
  rcases Nat.lt_or_eq_of_le hle with hlt | rfl
  · refine List.cons_lt_cons_iff.mpr (.inl ?_)
    rw [UInt8.lt_iff_toNat_lt, UInt8.toNat_ofNat', UInt8.toNat_ofNat', Nat.mod_eq_of_lt hn,
      Nat.mod_eq_of_lt (hlt.trans hn)]
    exact hlt
  · exact List.cons_lt_cons_self.mpr (hrest rfl)

/-- **UTF-8 is an ordered code.** -/
theorem utf8EncodeChar_orderedCode : OrderedCode String.utf8EncodeChar where
  nonempty _ := String.utf8EncodeChar_ne_nil
  lt {a b} s t h := by
    have hlt : a.val.toNat < b.val.toNat := h
    have hb : b.val.toNat < 0x110000 := b.valid.elim (fun h => h.trans (by decide)) And.right
    unfold String.utf8EncodeChar
    generalize a.val.toNat = m at hlt
    generalize b.val.toNat = n at hlt hb
    dsimp only
    -- A longer word starts with a greater byte; words of one length differ in some byte.
    split_ifs <;> simp only [List.cons_append, List.nil_append] <;>
      repeat first
        | omega
        | exact cons_lt_cons (by omega) (by omega) fun h => absurd h (by omega)
        | refine cons_lt_cons (by omega) (by omega) fun _ => ?_

/-- The bytes of a character: the character itself, or bytes that are not ASCII. -/
theorem mem_utf8EncodeChar {c : Char} {b : UInt8} (h : b ∈ String.utf8EncodeChar c) :
    b.toNat = c.toNat ∨ 128 ≤ b.toNat := by
  have hc : c.val.toNat < 0x110000 := c.valid.elim (fun h => h.trans (by decide)) And.right
  show b.toNat = c.val.toNat ∨ _
  unfold String.utf8EncodeChar at h
  generalize c.val.toNat = n at h hc
  dsimp only at h
  split_ifs at h <;> simp only [List.mem_cons, List.not_mem_nil, or_false] at h
  · subst h
    rw [UInt8.toNat_ofNat']
    omega
  · rcases h with rfl | rfl <;> rw [UInt8.toNat_ofNat'] <;> omega
  · rcases h with rfl | rfl | rfl <;> rw [UInt8.toNat_ofNat'] <;> omega
  · rcases h with rfl | rfl | rfl | rfl <;> rw [UInt8.toNat_ofNat'] <;> omega
end Wire
