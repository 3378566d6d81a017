import BeamAgents.Wire.Delimited
import BeamAgents.Wire.Message

/-!
# What is written is the shortest that is read

A reader also takes longer forms of a message than the one that is written: varints with more bytes
than they need, fields that are zero, and fields that a later one replaces. A longer varint has as
many digits as the shortest one, apart from zeros, so that the sum of its bytes grows by 128 with
every byte more. A field that could be left out takes at least two bytes.

From this follows that a message behind its own length is never read as that message: the length
would be one byte more than what is written, and lighter than 128.

## Main definitions

* `Wire.weight`, `Wire.Covers`.
* `Wire.Scalar.Exact`: values that are written as they were read.

## Main results

* `Wire.covers_of_readNumbered`: a field that is read covers the field that is written.
* `Wire.covers_parts`: what is read covers what is written, if it does so for each of the parts.
* `Wire.Scalar.covers_one`: it does for a singular field.
* `Wire.tag_of_lex_writeVarint`, `Wire.length_lt_of_lex_writeVarint`: the fields behind a varint.
* `Wire.not_covers_delimit`: a short item behind its length does not cover the item.
-/

namespace Wire

/-! ### Weights -/

/-- The sum of the bytes, with 128 off for each. -/
def weight : List UInt8 → ℤ
  | [] => 0
  | b :: bs => b.toNat - 128 + weight bs

@[simp] theorem weight_nil : weight [] = 0 := rfl

@[simp] theorem weight_cons (b : UInt8) (bs : List UInt8) :
    weight (b :: bs) = b.toNat - 128 + weight bs := rfl

@[simp] theorem weight_append (bs bs' : List UInt8) :
    weight (bs ++ bs') = weight bs + weight bs' := by
  induction bs with
  | nil => simp
  | cons b bs ih =>
    rw [List.cons_append, weight_cons, weight_cons, ih]
    omega

theorem weight_perm {bs bs' : List UInt8} (h : bs.Perm bs') : weight bs = weight bs' := by
  induction h with
  | nil => rfl
  | cons b _ ih => rw [weight_cons, weight_cons, ih]
  | swap b b' bs =>
    simp only [weight_cons]
    omega
  | trans _ _ ih ih' => exact ih.trans ih'

/-- Bytes that are read cover those that would be written: they are at least two more, or as many
and as heavy. -/
def Covers (read written : List UInt8) : Prop :=
  written.length + 2 ≤ read.length ∨
    (written.length ≤ read.length ∧ weight written ≤ weight read)

namespace Covers

variable {bs bs' read read' written written' : List UInt8}

theorem refl (bs : List UInt8) : Covers bs bs := .inr ⟨le_rfl, le_rfl⟩

theorem length_le (h : Covers read written) : written.length ≤ read.length := by
  rcases h with h | ⟨h, -⟩
  · omega
  · exact h

theorem append (h : Covers read written) (h' : Covers read' written') :
    Covers (read ++ read') (written ++ written') := by
  have hlength := h.length_le
  have hlength' := h'.length_le
  simp only [Covers, List.length_append, weight_append]
  rcases h with h | ⟨-, hweight⟩
  · exact .inl (by omega)
  · rcases h' with h' | ⟨-, hweight'⟩
    · exact .inl (by omega)
    · exact .inr ⟨by omega, by omega⟩

/-- Only the number of the bytes and their weight count. -/
theorem of_perm {fs gs : List Field} (h : fs.Perm gs)
    (hcovers : Covers (gs.flatMap Field.raw) written) : Covers (fs.flatMap Field.raw) written := by
  have hperm : (fs.flatMap Field.raw).Perm (gs.flatMap Field.raw) := h.flatMap_right Field.raw
  rw [Covers, hperm.length_eq, weight_perm hperm]
  exact hcovers

end Covers

/-- **A short item behind its length** is one byte more than the item, and too light. -/
theorem not_covers_delimit {item : List UInt8} (h : item.length < 128) :
    ¬ Covers (delimit item) item := by
  have hbyte : (UInt8.ofNat item.length).toNat = item.length := by
    rw [UInt8.toNat_ofNat']
    omega
  rw [delimit, writeVarint_eq, if_pos h, List.singleton_append, Covers, weight_cons, hbyte,
    List.length_cons]
  omega

/-! ### Varints -/

/-- **A varint that is read** has the weight of the one that is written, and is no shorter. -/
theorem weight_of_readVarint {k n : ℕ} {raw rest : List UInt8}
    (h : readVarint k (raw ++ rest) = some (n, rest)) :
    (writeVarint n).length ≤ raw.length ∧ weight (writeVarint n) = weight raw := by
  induction k generalizing n raw with
  | zero => cases h
  | succ k ih =>
    cases raw with
    | nil => exact absurd (length_of_readVarint h) (lt_irrefl _)
    | cons b raw =>
      have hb : b.toNat < 256 := b.toNat_lt
      rw [List.cons_append, readVarint] at h
      split_ifs at h with hlast
      · obtain ⟨rfl, hrest⟩ := Prod.mk.inj (Option.some.inj h)
        obtain rfl : raw = [] := List.append_left_eq_self.mp hrest
        rw [writeVarint_eq, if_pos hlast, UInt8.ofNat_toNat]
        exact ⟨le_rfl, rfl⟩
      · obtain ⟨⟨m, rest'⟩, hm, heq⟩ := Option.map_eq_some_iff.mp h
        obtain ⟨rfl, rfl⟩ := Prod.mk.inj heq
        obtain ⟨hlength, hweight⟩ := ih hm
        rw [List.length_cons, weight_cons, ← hweight, writeVarint_eq]
        split_ifs with hn
        · -- the digits that follow are all zero
          obtain rfl : m = 0 := by omega
          have hbyte : (UInt8.ofNat (b.toNat - 128 + 128 * 0)).toNat = b.toNat - 128 := by
            rw [UInt8.toNat_ofNat']
            omega
          rw [weight_cons, hbyte, writeVarint_eq, if_pos (by decide)]
          refine ⟨by simp, ?_⟩
          rw [weight_cons]
          simp only [weight_nil]
          have hzero : (UInt8.ofNat 0).toNat = 0 := rfl
          rw [hzero]
          omega
        · have hmod : (b.toNat - 128 + 128 * m) % 128 + 128 = b.toNat := by omega
          have hdiv : (b.toNat - 128 + 128 * m) / 128 = m := by omega
          rw [hmod, hdiv, UInt8.ofNat_toNat, List.length_cons, weight_cons]
          exact ⟨by omega, rfl⟩

theorem weight_writeVarint_of_lt {n : ℕ} (h : n < 128) : weight (writeVarint n) = n - 128 := by
  have hbyte : (UInt8.ofNat n).toNat = n := by
    rw [UInt8.toNat_ofNat']
    omega
  rw [writeVarint_eq, if_pos h, weight_cons, hbyte, weight_nil, add_zero]

theorem weight_writeVarint_of_le {n : ℕ} (h : 128 ≤ n) :
    weight (writeVarint n) = (n % 128 : ℕ) + weight (writeVarint (n / 128)) := by
  have hbyte : (UInt8.ofNat (n % 128 + 128)).toNat = n % 128 + 128 := by
    rw [UInt8.toNat_ofNat']
    omega
  rw [writeVarint_eq, if_neg (not_lt.mpr h), weight_cons, hbyte]
  omega

/-- A varint is as heavy as its lowest digit. -/
theorem le_weight_writeVarint (n : ℕ) : ((n % 128 : ℕ) : ℤ) - 128 ≤ weight (writeVarint n) := by
  induction n using Nat.strong_induction_on with
  | _ n ih =>
    rcases Nat.lt_or_ge n 128 with hn | hn
    · rw [weight_writeVarint_of_lt hn, Nat.mod_eq_of_lt hn]
    · have hrest := ih (n / 128) (by omega)
      rw [weight_writeVarint_of_le hn]
      omega

/-- The low bits of a number are written as no more than the number. -/
theorem writeVarint_mod_le (k n : ℕ) :
    (writeVarint (n % 2 ^ (7 * k + 1))).length ≤ (writeVarint n).length ∧
      weight (writeVarint (n % 2 ^ (7 * k + 1))) ≤ weight (writeVarint n) := by
  induction k generalizing n with
  | zero =>
    have hpos := List.length_pos_iff.mpr (writeVarint_ne_nil n)
    have hlow := le_weight_writeVarint n
    have hlt : n % 2 ^ (7 * 0 + 1) < 128 := by omega
    rw [weight_writeVarint_of_lt hlt, writeVarint_eq (n % _), if_pos hlt]
    exact ⟨hpos, by omega⟩
  | succ k ih =>
    have hpos := List.length_pos_iff.mpr (writeVarint_ne_nil n)
    have hlow := le_weight_writeVarint n
    have hpow : 2 ^ (7 * (k + 1) + 1) = 128 * 2 ^ (7 * k + 1) := by
      rw [show 7 * (k + 1) + 1 = 7 + (7 * k + 1) by omega, pow_add, show 2 ^ 7 = 128 by decide]
    have hsplit := Nat.mod_mul (x := n) (a := 128) (b := 2 ^ (7 * k + 1))
    rw [hpow, hsplit]
    rcases Nat.eq_zero_or_pos (n / 128 % 2 ^ (7 * k + 1)) with hzero | hhigh
    · have hlt : n % 128 + 128 * (n / 128 % 2 ^ (7 * k + 1)) < 128 := by omega
      rw [weight_writeVarint_of_lt hlt, writeVarint_eq (n % 128 + _), if_pos hlt, hzero]
      exact ⟨hpos, by omega⟩
    · obtain ⟨hlength, hweight⟩ := ih (n / 128)
      have hdiv : (n % 128 + 128 * (n / 128 % 2 ^ (7 * k + 1))) / 128 =
          n / 128 % 2 ^ (7 * k + 1) := by omega
      have hmod : (n % 128 + 128 * (n / 128 % 2 ^ (7 * k + 1))) % 128 = n % 128 := by omega
      have hn : 128 ≤ n := by
        by_contra hlt
        rw [Nat.div_eq_of_lt (not_le.mp hlt), Nat.zero_mod] at hhigh
        exact lt_irrefl 0 hhigh
      rw [weight_writeVarint_of_le (by omega), weight_writeVarint_of_le hn, hdiv, hmod,
        writeVarint_eq (_ + _), if_neg (by omega), hdiv, writeVarint_eq n, if_neg (by omega),
        List.length_cons, List.length_cons]
      exact ⟨by omega, by omega⟩

/-! ### Fields -/

section Fields

variable {lim : Limits} {bs : List UInt8} {fs : List Field} {f : Field}

/-- A field that is no group is one of the items. -/
theorem item_mem_of_gather {stack : List ℕ} {acc : List UInt8} {items : List Item}
    (h : gather stack acc items = some fs) (hf : f ∈ fs) (hgroup : f.value ≠ .group) :
    ⟨f.number, .value f.value, f.raw⟩ ∈ items := by
  fun_induction gather stack acc items generalizing fs with
  | case1 acc =>
    cases h
    cases hf
  | case2 => cases h
  | case3 acc number value raw items ih =>
    obtain ⟨gs, hgs, rfl⟩ := Option.map_eq_some_iff.mp h
    rcases List.mem_cons.mp hf with rfl | hf
    · exact List.mem_cons_self
    · exact List.mem_cons_of_mem _ (ih hgs hf)
  | case4 acc number raw items ih => exact List.mem_cons_of_mem _ (ih h hf)
  | case5 => cases h
  | case6 enclosing stack acc number value raw items ih => exact List.mem_cons_of_mem _ (ih h hf)
  | case7 enclosing stack acc number raw items ih => exact List.mem_cons_of_mem _ (ih h hf)
  | case8 acc enclosing raw items ih =>
    obtain ⟨gs, hgs, rfl⟩ := Option.map_eq_some_iff.mp h
    rcases List.mem_cons.mp hf with rfl | hf
    · exact absurd rfl hgroup
    · exact List.mem_cons_of_mem _ (ih hgs hf)
  | case9 => cases h
  | case10 next stack acc enclosing raw items ih => exact List.mem_cons_of_mem _ (ih h hf)
  | case11 => cases h

/-- Such a field is read from its own bytes. -/
theorem readNumbered_of_lex (h : lex lim bs = some fs) (hf : f ∈ fs) (hgroup : f.value ≠ .group) :
    readNumbered lim f.raw = some ((f.number, .value f.value), []) := by
  obtain ⟨items, hlexes, hgather⟩ := lex_eq_some_iff.mp h
  have hself := hlexes.single _ (item_mem_of_gather hgather hf hgroup)
  obtain ⟨number, value, raw⟩ := f
  cases hself with
  | cons hitem hrest =>
    cases hrest
    obtain ⟨⟨⟨number', kind⟩, rest⟩, hread, heq⟩ := Option.map_eq_some_iff.mp hitem
    obtain ⟨hitem', rfl⟩ := Prod.mk.inj heq
    simp only [Item.mk.injEq] at hitem'
    rw [hread, hitem'.1, hitem'.2.1]

/-- What follows a tag has its wire type. -/
theorem wireType_of_readKind {wireType : ℕ} {value : WireValue} {rest : List UInt8}
    (h : readKind lim wireType bs = some (.value value, rest)) : value.wireType = wireType := by
  match wireType with
  | 0 | 1 | 2 | 5 =>
    obtain ⟨r, -, heq⟩ := Option.map_eq_some_iff.mp h
    obtain ⟨hvalue, -⟩ := Prod.mk.inj heq
    cases hvalue
    rfl
  | 3 | 4 | _ + 6 => cases h

/-- **The bytes of a field**: those of a tag, and those of the value. -/
theorem raw_of_readNumbered (h : readNumbered lim f.raw = some ((f.number, .value f.value), [])) :
    ∃ tag body, f.raw = tag ++ body ∧
      readKind lim f.value.wireType body = some (.value f.value, []) ∧
      ∀ rest, readVarint 5 (tag ++ rest) = some (8 * f.number + f.value.wireType, rest) := by
  obtain ⟨⟨⟨number, wireType⟩, body⟩, htag, hkind⟩ := Option.bind_eq_some_iff.mp h
  obtain ⟨⟨kind, rest⟩, hkind, heq⟩ := Option.map_eq_some_iff.mp hkind
  obtain ⟨hfield, rfl⟩ := Prod.mk.inj heq
  obtain ⟨rfl, rfl⟩ := Prod.mk.inj hfield
  obtain ⟨⟨n, body'⟩, hread, hsome⟩ := Option.bind_eq_some_iff.mp htag
  split_ifs at hsome
  obtain ⟨htags, rfl⟩ := Prod.mk.inj (Option.some.inj hsome)
  obtain ⟨hdiv, rfl⟩ := Prod.mk.inj htags
  obtain ⟨tag, heq, hlocal⟩ := local_readVarint 5 hread
  have htype : f.value.wireType = n % 8 := wireType_of_readKind hkind
  refine ⟨tag, _, heq, htype ▸ hkind, fun rest => ?_⟩
  have hnumber : n / 8 = f.number := hdiv
  rw [hlocal rest, htype, ← hnumber, Nat.div_add_mod]

theorem readVarint_nil (k : ℕ) : readVarint k [] = none := by
  cases k <;> rfl

/-- A field takes at least two bytes. -/
theorem two_le_length_raw (hplain : f.value.Plain)
    (h : readNumbered lim f.raw = some ((f.number, .value f.value), [])) : 2 ≤ f.raw.length := by
  obtain ⟨tag, body, heq, hkind, htag⟩ := raw_of_readNumbered h
  have hpos : 0 < tag.length := by
    have hlt := length_of_readVarint (htag [])
    rwa [List.append_nil] at hlt
  have hbody : 0 < body.length := by
    rw [List.length_pos_iff]
    rintro rfl
    generalize f.value = value at hkind hplain
    cases value with
    | varint value => simp [WireValue.wireType, readKind, readVarint_nil] at hkind
    | len payload => simp [WireValue.wireType, readKind, readLen, readVarint_nil] at hkind
    | _ => exact hplain.elim
  rw [heq, List.length_append]
  omega

/-- A varint that is read covers the one that is written. -/
theorem Covers.of_readVarint {k n : ℕ} {raw rest : List UInt8}
    (h : readVarint k (raw ++ rest) = some (n, rest)) : Covers raw (writeVarint n) := by
  obtain ⟨hlength, hweight⟩ := weight_of_readVarint h
  exact .inr ⟨hlength, hweight.le⟩

/-- What a piece with its length is made of. -/
theorem eq_append_of_readLen {payload rest : List UInt8}
    (h : readLen lim bs = some (payload, rest)) :
    ∃ size, bs = size ++ (payload ++ rest) ∧ size ≠ [] ∧
      Covers size (writeVarint payload.length) := by
  obtain ⟨⟨n, more⟩, hn, hsome⟩ := Option.bind_eq_some_iff.mp h
  split_ifs at hsome
  obtain ⟨size, rfl, hlocal⟩ := local_readVarint _ hn
  rw [readBytes] at hsome
  split_ifs at hsome with hlong
  obtain ⟨rfl, rfl⟩ := Prod.mk.inj (Option.some.inj hsome)
  refine ⟨size, by rw [List.take_append_drop], ?_, ?_⟩
  · rintro rfl
    exact absurd (length_of_readVarint hn) (lt_irrefl _)
  · rw [List.length_take_of_le hlong]
    exact .of_readVarint (hlocal [])

/-- **A field** covers the field that is written. -/
theorem covers_of_readNumbered (hplain : f.value.Plain)
    (h : readNumbered lim f.raw = some ((f.number, .value f.value), [])) :
    Covers f.raw (Field.of f.number f.value).raw := by
  obtain ⟨tag, body, heq, hkind, htag⟩ := raw_of_readNumbered h
  have hcovers : Covers tag (writeTag f.number f.value.wireType) := .of_readVarint (htag [])
  rw [heq]
  generalize f.value = value at hkind hcovers hplain
  cases value with
  | varint value =>
    obtain ⟨⟨n, rest⟩, hn, hsome⟩ := Option.map_eq_some_iff.mp hkind
    simp only [Prod.mk.injEq, ItemKind.value.injEq, WireValue.varint.injEq] at hsome
    obtain ⟨rfl, rfl⟩ := hsome
    obtain ⟨hlength, hweight⟩ : (writeVarint n).length ≤ body.length ∧
        weight (writeVarint n) = weight body := by
      rw [← List.append_nil body] at hn
      exact weight_of_readVarint hn
    obtain ⟨hlow, hlight⟩ := writeVarint_mod_le 9 n
    have hvalue : (UInt64.ofNat n).toNat = n % 2 ^ (7 * 9 + 1) := UInt64.toNat_ofNat'
    refine hcovers.append (.inr ?_)
    rw [hvalue, ← hweight]
    exact ⟨hlow.trans hlength, hlight⟩
  | len payload =>
    obtain ⟨⟨payload', rest⟩, hread, hsome⟩ := Option.map_eq_some_iff.mp hkind
    simp only [Prod.mk.injEq, ItemKind.value.injEq, WireValue.len.injEq] at hsome
    obtain ⟨rfl, rfl⟩ := hsome
    obtain ⟨size, rfl, -, hsize⟩ := eq_append_of_readLen hread
    rw [List.append_nil]
    exact hcovers.append (hsize.append (.refl payload'))
  | _ => exact hplain.elim

/-- A piece is shorter than its field. -/
theorem length_lt_raw_len (number : ℕ) (payload : List UInt8) :
    payload.length < (Field.len number payload).raw.length := by
  have hpos := List.length_pos_iff.mpr (writeVarint_ne_nil payload.length)
  simp only [Field.len, List.length_append]
  omega

/-! ### Fields behind a varint -/

/-- Where bytes start with a varint, it is the tag of their first field. -/
theorem tag_of_lex_writeVarint {n : ℕ} {rest : List UInt8} (hn : n < 128 ^ 5)
    (h : lex lim (writeVarint n ++ rest) = some (f :: fs)) (hgroup : f.value ≠ .group) :
    8 * f.number + f.value.wireType = n := by
  obtain ⟨tag, body, heq, -, htag⟩ :=
    raw_of_readNumbered (readNumbered_of_lex h List.mem_cons_self hgroup)
  have hraw := (valid_of_lex h).2
  rw [List.flatMap_cons, heq, List.append_assoc] at hraw
  have hread := readVarint_writeVarint (k := 5) (by decide) hn rest
  rw [← hraw, htag] at hread
  exact (Prod.mk.inj (Option.some.inj hread)).1

/-- No piece among the fields is as long as what is behind the varint. -/
theorem length_lt_of_lex_writeVarint {n : ℕ} {rest payload : List UInt8} (hn : n < 128 ^ 5)
    (h : lex lim (writeVarint n ++ rest) = some fs) (hf : f ∈ fs)
    (hvalue : f.value = .len payload) :
    payload.length < rest.length := by
  have hpiece {bs rest : List UInt8}
      (hread : readKind lim 2 bs = some (.value (.len payload), rest)) :
      payload.length < bs.length := by
    obtain ⟨⟨payload', rest'⟩, hlen, hsome⟩ := Option.map_eq_some_iff.mp hread
    simp only [Prod.mk.injEq, ItemKind.value.injEq, WireValue.len.injEq] at hsome
    obtain ⟨rfl, rfl⟩ := hsome
    obtain ⟨size, rfl, hne, -⟩ := eq_append_of_readLen hlen
    have hpos := List.length_pos_iff.mpr hne
    simp only [List.length_append]
    omega
  obtain ⟨items, hlexes, hgather⟩ := lex_eq_some_iff.mp h
  have hmem := item_mem_of_gather hgather hf (by rw [hvalue]; simp)
  rw [hvalue] at hmem
  generalize hbs : writeVarint n ++ rest = bs at hlexes
  cases hlexes with
  | nil => cases hmem
  | @cons _ more item items hitem hrest =>
    obtain ⟨⟨⟨number, kind⟩, more'⟩, hread, heq⟩ := Option.map_eq_some_iff.mp hitem
    obtain ⟨rfl, rfl⟩ := Prod.mk.inj heq
    obtain ⟨⟨⟨number', wireType⟩, body⟩, htag, hmap⟩ := Option.bind_eq_some_iff.mp hread
    obtain ⟨⟨kind', more''⟩, hkind, heq'⟩ := Option.map_eq_some_iff.mp hmap
    obtain ⟨hfield, rfl⟩ := Prod.mk.inj heq'
    obtain ⟨rfl, rfl⟩ := Prod.mk.inj hfield
    obtain rfl : body = rest := by
      obtain ⟨r, hvarint, hsome⟩ := Option.bind_eq_some_iff.mp htag
      rw [← hbs, readVarint_writeVarint (by decide) hn] at hvarint
      split_ifs at hsome
      rw [← (Prod.mk.inj (Option.some.inj hsome)).2, ← Option.some.inj hvarint]
    rcases List.mem_cons.mp hmem with hfirst | hlater
    · -- the field starts where the bytes start
      simp only [Item.mk.injEq] at hfirst
      rw [← hfirst.2.1] at hkind
      obtain rfl : 2 = wireType := wireType_of_readKind hkind
      exact hpiece hkind
    · -- it is among the bytes behind the first field
      obtain ⟨tag, body', heq, hkind', -⟩ :=
        raw_of_readNumbered (readNumbered_of_lex h hf (by rw [hvalue]; simp))
      rw [hvalue] at hkind'
      have hshort := hpiece hkind'
      have hraw : f.raw.length ≤ (items.flatMap Item.raw).length := by
        obtain ⟨front, back, rfl⟩ := List.append_of_mem hlater
        simp only [List.flatMap_append, List.flatMap_cons, List.length_append]
        omega
      obtain ⟨raw, heq', -⟩ := local_readKind lim wireType hkind
      have hbehind : more''.length ≤ body.length := by
        have hlength := congrArg List.length heq'
        rw [List.length_append] at hlength
        exact hlength ▸ Nat.le_add_left _ _
      have hmore : (items.flatMap Item.raw).length = more''.length := congrArg List.length hrest.raw
      rw [hmore, heq, List.length_append] at hraw
      omega

end Fields

/-! ### Messages -/

/-- **What is read covers what is written** if it does so under each of the tags. -/
theorem covers_parts {parts : List Part} (hnodup : (parts.map Part.tag).Nodup) {fs : List Field}
    (hknown : ∀ f ∈ fs, f.tag ∈ parts.map Part.tag)
    (h : ∀ p ∈ parts, Covers ((fs.filter (·.tag = p.tag)).flatMap Field.raw)
      (p.fields.flatMap Field.raw)) :
    Covers (fs.flatMap Field.raw) ((parts.flatMap Part.fields).flatMap Field.raw) := by
  induction parts generalizing fs with
  | nil =>
    obtain rfl : fs = [] := List.eq_nil_iff_forall_not_mem.mpr fun f hf =>
      List.not_mem_nil (hknown f hf)
    exact .refl []
  | cons p parts ih =>
    obtain ⟨hp, hnodup⟩ := List.nodup_cons.mp hnodup
    have hperm :
        fs.Perm (fs.filter (·.tag = p.tag) ++ fs.filter fun f => !decide (f.tag = p.tag)) :=
      (List.filter_append_perm _ fs).symm
    refine .of_perm hperm ?_
    rw [List.flatMap_append, List.flatMap_cons, List.flatMap_append]
    refine (h p List.mem_cons_self).append (ih hnodup (fun f hf => ?_) fun q hq => ?_)
    · obtain ⟨hmem, hne⟩ := List.mem_filter.mp hf
      exact (List.mem_cons.mp (hknown f hmem)).resolve_left (by simpa using hne)
    · -- a tag of the others is not the first one
      have hne : q.tag ≠ p.tag := fun heq => hp (heq ▸ List.mem_map_of_mem hq)
      have hfilter : (fs.filter fun f => !decide (f.tag = p.tag)).filter (·.tag = q.tag) =
          fs.filter (·.tag = q.tag) := by
        rw [List.filter_filter]
        refine List.filter_congr fun f _ => ?_
        by_cases hq' : f.tag = q.tag
        · simp [hq', hne]
        · simp [hq']
      rw [hfilter]
      exact h q (List.mem_cons_of_mem _ hq)

/-- The bytes of a message cover the message as it is written, if they do under each tag. -/
theorem Schema.covers_serialize {M : Type} {c : Schema M} {m : M} {lim : Limits} {bs : List UInt8}
    {fs : List Field} (hlex : lex lim bs = some fs) (hknown : ∀ f ∈ fs, f.tag ∈ c.tags)
    (hunknown : (c.unknown m).fields = [])
    (h : ∀ p ∈ c.parts m, Covers ((fs.filter (·.tag = p.tag)).flatMap Field.raw)
      (p.fields.flatMap Field.raw)) :
    Covers bs (c.serialize m) := by
  rw [← (valid_of_lex hlex).2, Schema.serialize, Schema.fields, hunknown, List.append_nil]
  rw [← c.tags_parts m] at hknown
  exact covers_parts (c.tags_parts m ▸ c.nodup) hknown h

/-- Whether a value is plain goes by its wire type. -/
theorem WireValue.Plain.of_wireType {value value' : WireValue} (h : value.Plain)
    (htype : value'.wireType = value.wireType) : value'.Plain := by
  cases value <;> cases value' <;> first | trivial | exact h.elim | cases htype

namespace Scalar

variable {α : Type} {c : Scalar α}

/-- The values that are read are those of fields. -/
theorem exists_field_of_all {number : ℕ} {fs : List Field} {as : List α}
    (h : c.all number fs = some as) {a : α} (ha : a ∈ as) :
    ∃ f ∈ fs, c.decode f.value = some a := by
  rw [all, select] at h
  suffices hmem : ∀ (gs : List Field) (as : List α), (gs.map Field.value).mapM c.decode = some as →
      a ∈ as → ∃ f ∈ gs, c.decode f.value = some a by
    obtain ⟨f, hf, hvalue⟩ := hmem _ as h ha
    exact ⟨f, List.mem_of_mem_filter hf, hvalue⟩
  intro gs
  induction gs with
  | nil =>
    intro as h ha
    cases h
    cases ha
  | cons g gs ih =>
    intro as h ha
    rw [List.map_cons, List.mapM_cons] at h
    obtain ⟨b, hb, h⟩ := Option.bind_eq_some_iff.mp h
    obtain ⟨bs, hbs, h⟩ := Option.bind_eq_some_iff.mp h
    cases h
    rcases List.mem_cons.mp ha with rfl | ha
    · exact ⟨g, List.mem_cons_self, hb⟩
    · obtain ⟨f, hf, hvalue⟩ := ih bs hbs ha
      exact ⟨f, List.mem_cons_of_mem _ hf, hvalue⟩

/-- Values that are read are written as they were. -/
def Exact (c : Scalar α) : Prop := ∀ value a, c.decode value = some a → c.encode a = value

theorem exact_bytes : bytes.Exact := by
  intro value a h
  cases value with
  | len payload =>
    cases h
    rfl
  | _ => cases h

theorem exact_string : string.Exact := by
  intro value a h
  cases value with
  | len payload =>
    have hsome : String.fromUTF8? ⟨payload.toArray⟩ = some a := h
    rw [String.fromUTF8?] at hsome
    split_ifs at hsome with hvalid
    rw [← Option.some.inj hsome]
    exact congrArg WireValue.len List.toList_toArray
  | _ => cases h

theorem exact_int64 : int64.Exact := by
  intro value a h
  cases value with
  | varint value =>
    cases h
    exact congrArg WireValue.varint (by simp)
  | _ => cases h

/-- **A singular field** covers what is written of it. -/
theorem covers_one [DecidableEq α] (hc : c.Exact) {lim : Limits} {number : ℕ} {a : α}
    {fs : List Field}
    (hread : ∀ f ∈ fs, readNumbered lim f.raw = some ((f.number, .value f.value), []))
    (h : c.last number fs = some a) :
    Covers ((fs.filter (·.tag = (number, c.wireType))).flatMap Field.raw)
      ((c.one number a).fields.flatMap Field.raw) := by
  obtain ⟨as, has, rfl⟩ := Option.map_eq_some_iff.mp h
  rw [all, select] at has
  have hmem : ∀ f ∈ fs.filter (·.tag = (number, c.wireType)),
      readNumbered lim f.raw = some ((f.number, .value f.value), []) ∧ f.value.Plain ∧
        f.number = number := by
    intro f hf
    obtain ⟨hf, htag⟩ := List.mem_filter.mp hf
    obtain ⟨hnumber, htype⟩ := Prod.mk.inj (of_decide_eq_true htag)
    exact ⟨hread f hf,
      (c.plain_encode c.zero).of_wireType (htype.trans (c.wireType_encode _).symm), hnumber⟩
  generalize fs.filter (·.tag = (number, c.wireType)) = gs at has hmem
  rcases List.eq_nil_or_concat gs with rfl | ⟨front, g, rfl⟩
  · cases has
    have hnil : (c.one number c.zero).fields = [] := by simp [Part.fields, one]
    exact (congrArg (Covers []) (congrArg (List.flatMap Field.raw) hnil)).mpr (.refl [])
  · obtain ⟨bs, b, rfl, hb⟩ : ∃ bs b, as = bs ++ [b] ∧ c.decode g.value = some b := by
      rw [List.concat_eq_append, List.map_append, List.mapM_append] at has
      obtain ⟨bs, -, has⟩ := Option.bind_eq_some_iff.mp has
      obtain ⟨cs, hcs, has⟩ := Option.bind_eq_some_iff.mp has
      obtain ⟨b, hb, hcs⟩ := Option.bind_eq_some_iff.mp hcs
      cases hcs
      cases has
      exact ⟨bs, b, rfl, hb⟩
    have hvalue : c.encode b = g.value := hc _ _ hb
    obtain ⟨hg, hplain, rfl⟩ := hmem g (by simp)
    have hcovers := covers_of_readNumbered hplain hg
    have hlast : (bs ++ [b]).getLastD c.zero = b := by simp
    rw [hlast, List.concat_eq_append, List.flatMap_append, List.flatMap_singleton]
    by_cases hzero : b = c.zero
    · -- the field could be left out
      have hnil : (c.one g.number b).fields = [] := by simp [Part.fields, one, hzero]
      have htwo := two_le_length_raw hplain hg
      rw [hnil]
      refine .inl ?_
      simp only [List.flatMap_nil, List.length_nil, List.length_append]
      omega
    · have hone :
          (c.one g.number b).fields.flatMap Field.raw = (Field.of g.number g.value).raw := by
        simp [Part.fields, one, hzero, hvalue]
      rw [hone]
      rcases List.eq_nil_or_concat front with rfl | ⟨front, f, rfl⟩
      · exact hcovers
      · -- the fields before it are replaced
        obtain ⟨hf, hplain', -⟩ := hmem f (by simp)
        have htwo := two_le_length_raw hplain' hf
        have hlength := hcovers.length_le
        refine .inl ?_
        simp only [List.concat_eq_append, List.flatMap_append, List.flatMap_singleton,
          List.length_append]
        omega

end Scalar

end Wire
