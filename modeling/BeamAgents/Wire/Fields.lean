import BeamAgents.Wire.Varint
import Mathlib.Data.List.Basic

/-!
# The wire format of fields

A message on the wire is a sequence of fields: a tag, which holds the number of the field and the
kind of what follows, and the value. Values are varints, pieces of four or eight bytes, or pieces
whose length is given first; a group is a sequence of fields between a start tag and an end tag of
its number. A reader that does not know a field keeps its bytes.

A tag is a varint of at most five bytes and below `2 ^ 32`, a field number is not zero, and an
integer is a varint of at most ten bytes, of which 64 bits count. The largest length and the bytes
that it may be written in are a parameter.

## Main definitions

* `Wire.Limits`, `Wire.WireValue`, `Wire.Field`.
* `Wire.lex`: the fields of a sequence of bytes; `Wire.Field.Valid`: a field that is read as itself.
* `Wire.Field.varint`, `Wire.Field.len`: the fields that are written.

## Main results

* `Wire.lex_append`, `Wire.lex_flatMap`: valid fields are read one after another.
* `Wire.valid_of_lex`: what is read are valid fields, and all of the bytes.
* `Wire.Field.valid_varint`, `Wire.Field.valid_len`: written fields are valid.
-/

namespace Wire

/-- The largest length of a piece, and the bytes that it may be written in. -/
structure Limits where
  maxLength : ℕ
  lengthBytes : ℕ
  positive : 0 < lengthBytes := by decide
  fits : maxLength < 128 ^ lengthBytes := by decide

/-- Lengths are below `2 ^ 31`. -/
def Limits.standard : Limits where
  maxLength := 2 ^ 31 - 1
  lengthBytes := 5

/-- The value of a field. -/
inductive WireValue
  | varint (value : UInt64)
  | fixed64 (bytes : List UInt8)
  | len (payload : List UInt8)
  | group
  | fixed32 (bytes : List UInt8)
  deriving DecidableEq, Repr

/-- A field with the bytes that it was read from. -/
structure Field where
  number : ℕ
  value : WireValue
  raw : List UInt8
  deriving DecidableEq, Repr

/-! ### Reading -/

/-- What a tag stands before. -/
inductive ItemKind
  | value (value : WireValue)
  | startGroup
  | endGroup
  deriving DecidableEq, Repr

/-- A tag with what follows it. -/
structure Item where
  number : ℕ
  kind : ItemKind
  raw : List UInt8
  deriving DecidableEq, Repr

/-- A field number and a wire type. -/
def readTag (bs : List UInt8) : Option ((ℕ × ℕ) × List UInt8) :=
  (readVarint 5 bs).bind fun r =>
    if r.1 < 2 ^ 32 ∧ r.1 / 8 ≠ 0 then some ((r.1 / 8, r.1 % 8), r.2) else none

/-- A piece with its length before it. -/
def readLen (lim : Limits) (bs : List UInt8) : Option (List UInt8 × List UInt8) :=
  (readVarint lim.lengthBytes bs).bind fun r =>
    if r.1 ≤ lim.maxLength then readBytes r.1 r.2 else none

/-- What follows the tag of a wire type. -/
def readKind (lim : Limits) : ℕ → List UInt8 → Option (ItemKind × List UInt8)
  | 0, bs => (readVarint 10 bs).map fun r => (.value (.varint (UInt64.ofNat r.1)), r.2)
  | 1, bs => (readBytes 8 bs).map fun r => (.value (.fixed64 r.1), r.2)
  | 2, bs => (readLen lim bs).map fun r => (.value (.len r.1), r.2)
  | 3, bs => some (.startGroup, bs)
  | 4, bs => some (.endGroup, bs)
  | 5, bs => (readBytes 4 bs).map fun r => (.value (.fixed32 r.1), r.2)
  | _, _ => none

/-- A number and what stands under it. -/
def readNumbered (lim : Limits) (bs : List UInt8) : Option ((ℕ × ItemKind) × List UInt8) :=
  (readTag bs).bind fun r => (readKind lim r.1.2 r.2).map fun r' => ((r.1.1, r'.1), r'.2)

/-- A tag with what follows it, and its bytes. -/
def readItem (lim : Limits) (bs : List UInt8) : Option (Item × List UInt8) :=
  (readNumbered lim bs).map fun r =>
    (⟨r.1.1, r.1.2, bs.take (bs.length - r.2.length)⟩, r.2)

/-- All that there is to read, with a bound on how much. -/
def lexItems (lim : Limits) : ℕ → List UInt8 → Option (List Item)
  | _, [] => some []
  | 0, _ :: _ => none
  | fuel + 1, b :: bs =>
    (readItem lim (b :: bs)).bind fun r => (lexItems lim fuel r.2).map (r.1 :: ·)

/-- Groups are put together: the numbers of those that are open, innermost first, and the bytes read
of the outermost. -/
def gather : List ℕ → List UInt8 → List Item → Option (List Field)
  | [], _, [] => some []
  | _ :: _, _, [] => none
  | [], _, ⟨number, .value value, raw⟩ :: items =>
    (gather [] [] items).map (⟨number, value, raw⟩ :: ·)
  | [], _, ⟨number, .startGroup, raw⟩ :: items => gather [number] raw items
  | [], _, ⟨_, .endGroup, _⟩ :: _ => none
  | enclosing :: stack, acc, ⟨_, .value _, raw⟩ :: items =>
    gather (enclosing :: stack) (acc ++ raw) items
  | enclosing :: stack, acc, ⟨number, .startGroup, raw⟩ :: items =>
    gather (number :: enclosing :: stack) (acc ++ raw) items
  | [enclosing], acc, ⟨number, .endGroup, raw⟩ :: items =>
    if number = enclosing then
      (gather [] [] items).map (⟨number, .group, acc ++ raw⟩ :: ·)
    else none
  | enclosing :: next :: stack, acc, ⟨number, .endGroup, raw⟩ :: items =>
    if number = enclosing then gather (next :: stack) (acc ++ raw) items else none

/-- The fields of a sequence of bytes. -/
def lex (lim : Limits) (bs : List UInt8) : Option (List Field) :=
  (lexItems lim bs.length bs).bind (gather [] [])

/-- A field that is read as itself. -/
def Field.Valid (lim : Limits) (f : Field) : Prop := lex lim f.raw = some [f]

instance (lim : Limits) (f : Field) : Decidable (f.Valid lim) :=
  inferInstanceAs (Decidable (_ = _))

variable {lim : Limits}

/-! ### One tag after another -/

theorem local_readTag : Local readTag := by
  have hnext (tag : ℕ) : Local fun bs =>
      if tag < 2 ^ 32 ∧ tag / 8 ≠ 0 then some ((tag / 8, tag % 8), bs) else none :=
    (Local.pure (tag / 8, tag % 8)).ite
  exact (local_readVarint 5).bind hnext

theorem local_readLen (lim : Limits) : Local (readLen lim) := by
  have hnext (n : ℕ) : Local fun bs => if n ≤ lim.maxLength then readBytes n bs else none :=
    (local_readBytes n).ite
  exact (local_readVarint _).bind hnext

theorem local_readKind (lim : Limits) (wireType : ℕ) : Local (readKind lim wireType) := by
  match wireType with
  | 0 => exact (local_readVarint 10).map fun n => ItemKind.value (.varint (UInt64.ofNat n))
  | 1 => exact (local_readBytes 8).map fun bytes => ItemKind.value (.fixed64 bytes)
  | 2 => exact (local_readLen lim).map fun payload => ItemKind.value (.len payload)
  | 3 => exact .pure ItemKind.startGroup
  | 4 => exact .pure ItemKind.endGroup
  | 5 => exact (local_readBytes 4).map fun bytes => ItemKind.value (.fixed32 bytes)
  | _ + 6 => exact .fail

theorem local_readNumbered (lim : Limits) : Local (readNumbered lim) := by
  have hnext (tag : ℕ × ℕ) : Local fun bs =>
      (readKind lim tag.2 bs).map fun r => ((tag.1, r.1), r.2) :=
    (local_readKind lim tag.2).map fun kind => (tag.1, kind)
  exact local_readTag.bind hnext

/-- An item is read from its bytes, and in the same way wherever they stand. -/
theorem readItem_append {bs rest : List UInt8} {item : Item}
    (h : readItem lim bs = some (item, rest)) :
    bs = item.raw ++ rest ∧ item.raw ≠ [] ∧
      ∀ rest', readItem lim (item.raw ++ rest') = some (item, rest') := by
  obtain ⟨⟨⟨number, kind⟩, rest₁⟩, hr, heq⟩ := Option.map_eq_some_iff.mp h
  obtain ⟨raw, rfl, hraw⟩ := local_readNumbered lim hr
  have htake (more : List UInt8) :
      (raw ++ more).take ((raw ++ more).length - more.length) = raw := by
    rw [List.length_append, Nat.add_sub_cancel, List.take_left' rfl]
  obtain ⟨hitem, rfl⟩ := Prod.mk.inj heq
  rw [htake] at hitem
  subst hitem
  refine ⟨rfl, ?_, fun rest' => ?_⟩
  · rintro rfl
    -- Without a byte there is no tag.
    have hnil := hraw []
    simp [readNumbered, readTag, readVarint] at hnil
  · rw [readItem, hraw rest', Option.map_some, htake]

/-- The bytes are those of the items, one after another. -/
inductive Lexes (lim : Limits) : List UInt8 → List Item → Prop
  | nil : Lexes lim [] []
  | cons {bs rest item items} (h : readItem lim bs = some (item, rest))
      (hrest : Lexes lim rest items) : Lexes lim bs (item :: items)

theorem Lexes.append {bs bs' : List UInt8} {items items' : List Item} (h : Lexes lim bs items)
    (h' : Lexes lim bs' items') : Lexes lim (bs ++ bs') (items ++ items') := by
  induction h with
  | nil => exact h'
  | cons hitem _ ih =>
    obtain ⟨rfl, -, hraw⟩ := readItem_append hitem
    rw [List.append_assoc]
    exact .cons (hraw _) ih

theorem Lexes.raw {bs : List UInt8} {items : List Item} (h : Lexes lim bs items) :
    items.flatMap Item.raw = bs := by
  induction h with
  | nil => rfl
  | cons hitem _ ih =>
    obtain ⟨rfl, -, -⟩ := readItem_append hitem
    rw [List.flatMap_cons, ih]

/-- Each item is there by itself. -/
theorem Lexes.single {bs : List UInt8} {items : List Item} (h : Lexes lim bs items) :
    ∀ item ∈ items, Lexes lim item.raw [item] := by
  induction h with
  | nil => simp
  | @cons bs rest item items hitem _ ih =>
    obtain ⟨rfl, -, hraw⟩ := readItem_append hitem
    intro item' hmem
    rcases List.mem_cons.mp hmem with rfl | hmem
    · have hself := hraw []
      rw [List.append_nil] at hself
      exact .cons hself .nil
    · exact ih item' hmem

/-- Items that are there by themselves are there one after another. -/
theorem Lexes.flatMap {items : List Item} (h : ∀ item ∈ items, Lexes lim item.raw [item]) :
    Lexes lim (items.flatMap Item.raw) items := by
  induction items with
  | nil => exact .nil
  | cons item items ih =>
    rw [List.flatMap_cons, ← List.singleton_append]
    exact (h item List.mem_cons_self).append
      (ih fun item' hmem => h item' (List.mem_cons_of_mem _ hmem))

/-- The bound on the items is high enough. -/
theorem lexItems_eq_some_iff {fuel : ℕ} {bs : List UInt8} {items : List Item}
    (hfuel : bs.length ≤ fuel) : lexItems lim fuel bs = some items ↔ Lexes lim bs items := by
  induction fuel generalizing bs items with
  | zero =>
    cases List.eq_nil_of_length_eq_zero (Nat.le_zero.mp hfuel)
    constructor
    · intro h
      cases h
      exact .nil
    · intro h
      cases h with
      | nil => rfl
      | cons hitem _ => simp [readItem, readNumbered, readTag, readVarint] at hitem
  | succ fuel ih =>
    cases bs with
    | nil =>
      constructor
      · intro h
        cases h
        exact .nil
      · intro h
        cases h with
        | nil => rfl
        | cons hitem _ => simp [readItem, readNumbered, readTag, readVarint] at hitem
    | cons b bs =>
      have hlength {item : Item} {rest : List UInt8}
          (hitem : readItem lim (b :: bs) = some (item, rest)) : rest.length ≤ fuel := by
        obtain ⟨heq, hne, -⟩ := readItem_append hitem
        have hpos := List.length_pos_iff.mpr hne
        have hlen := congrArg List.length heq
        simp only [List.length_append, List.length_cons] at hlen hfuel
        omega
      rw [lexItems, Option.bind_eq_some_iff]
      constructor
      · rintro ⟨⟨item, rest⟩, hitem, hmap⟩
        obtain ⟨items', hitems', rfl⟩ := Option.map_eq_some_iff.mp hmap
        exact .cons hitem ((ih (hlength hitem)).mp hitems')
      · intro h
        cases h with
        | cons hitem hrest =>
          exact ⟨_, hitem, by rw [(ih (hlength hitem)).mpr hrest, Option.map_some]⟩

/-! ### One field after another -/

/-- Without an open group there are no bytes of one. -/
theorem gather_nil (acc : List UInt8) (items : List Item) :
    gather [] acc items = gather [] [] items := by
  cases items with
  | nil => rfl
  | cons item items =>
    obtain ⟨number, kind, raw⟩ := item
    cases kind <;> rfl

/-- When no group is open at the end, what comes after is read by itself. -/
theorem gather_append {stack : List ℕ} {acc : List UInt8} {items : List Item} {fs : List Field}
    (h : gather stack acc items = some fs) (more : List Item) :
    gather stack acc (items ++ more) = (gather [] [] more).map (fs ++ ·) := by
  fun_induction gather stack acc items generalizing fs with
  | case1 acc =>
    cases h
    rw [List.nil_append, gather_nil]
    exact Option.map_id'.symm
  | case2 => cases h
  | case3 acc number value raw items ih =>
    obtain ⟨gs, hgs, rfl⟩ := Option.map_eq_some_iff.mp h
    rw [List.cons_append, gather, ih hgs, Option.map_map]
    rfl
  | case4 acc number raw items ih =>
    rw [List.cons_append, gather, ih h]
  | case5 => cases h
  | case6 enclosing stack acc number value raw items ih =>
    rw [List.cons_append, gather, ih h]
  | case7 enclosing stack acc number raw items ih =>
    rw [List.cons_append, gather, ih h]
  | case8 acc enclosing raw items ih =>
    obtain ⟨gs, hgs, rfl⟩ := Option.map_eq_some_iff.mp h
    rw [List.cons_append, gather, if_pos rfl, ih hgs, Option.map_map]
    rfl
  | case9 => cases h
  | case10 next stack acc enclosing raw items ih =>
    rw [List.cons_append, gather, if_pos rfl, ih h]
  | case11 => cases h

/-- All of the bytes are in the fields. -/
theorem raw_of_gather {stack : List ℕ} {acc : List UInt8} {items : List Item} {fs : List Field}
    (h : gather stack acc items = some fs) (hacc : stack = [] → acc = []) :
    fs.flatMap Field.raw = acc ++ items.flatMap Item.raw := by
  fun_induction gather stack acc items generalizing fs with
  | case1 acc =>
    cases h
    rw [hacc rfl]
    rfl
  | case2 => cases h
  | case3 acc number value raw items ih =>
    obtain ⟨gs, hgs, rfl⟩ := Option.map_eq_some_iff.mp h
    rw [List.flatMap_cons, ih hgs fun _ => rfl, hacc rfl]
    rfl
  | case4 acc number raw items ih =>
    rw [ih h (by simp), hacc rfl]
    rfl
  | case5 => cases h
  | case6 enclosing stack acc number value raw items ih =>
    rw [ih h (by simp), List.flatMap_cons, List.append_assoc]
  | case7 enclosing stack acc number raw items ih =>
    rw [ih h (by simp), List.flatMap_cons, List.append_assoc]
  | case8 acc enclosing raw items ih =>
    obtain ⟨gs, hgs, rfl⟩ := Option.map_eq_some_iff.mp h
    rw [List.flatMap_cons, ih hgs fun _ => rfl, List.flatMap_cons, List.append_assoc]
    rfl
  | case9 => cases h
  | case10 next stack acc enclosing raw items ih =>
    rw [ih h (by simp), List.flatMap_cons, List.append_assoc]
  | case11 => cases h

/-- The items of a field. -/
def ItemsOf (items : List Item) (f : Field) : Prop :=
  items.flatMap Item.raw = f.raw ∧ gather [] [] items = some [f]

/-- Each field has items of its own. The items `opened` are those of the outermost group that is
still open. -/
theorem itemsOf_gather {stack : List ℕ} {acc : List UInt8} {items : List Item} {fs : List Field}
    (h : gather stack acc items = some fs) (opened : List Item)
    (hraw : stack ≠ [] → opened.flatMap Item.raw = acc)
    (hopened : stack ≠ [] → ∀ more, gather [] [] (opened ++ more) = gather stack acc more) :
    ∀ f ∈ fs, ∃ own, own ⊆ opened ++ items ∧ ItemsOf own f := by
  fun_induction gather stack acc items generalizing fs opened with
  | case1 acc =>
    cases h
    simp
  | case2 => cases h
  | case3 acc number value raw items ih =>
    obtain ⟨gs, hgs, rfl⟩ := Option.map_eq_some_iff.mp h
    intro f hf
    rcases List.mem_cons.mp hf with rfl | hf
    · exact ⟨[⟨number, .value value, raw⟩], by simp, by simp, rfl⟩
    · obtain ⟨own, hown, hitems⟩ := ih hgs [] (by simp) (by simp) f hf
      exact ⟨own, fun item hmem => List.mem_append_right _ (List.mem_cons_of_mem _ (hown hmem)),
        hitems⟩
  | case4 acc number raw items ih =>
    intro f hf
    obtain ⟨own, hown, hitems⟩ :=
      ih h [⟨number, .startGroup, raw⟩] (by simp) (fun _ more => rfl) f hf
    exact ⟨own, fun item hmem => List.mem_append_right _ (hown hmem), hitems⟩
  | case5 => cases h
  | case6 enclosing stack acc number value raw items ih =>
    intro f hf
    obtain ⟨own, hown, hitems⟩ := ih h (opened ++ [⟨number, .value value, raw⟩])
      (fun _ => by simp [hraw]) (fun _ more => by simp [hopened, gather]) f hf
    exact ⟨own, List.append_cons .. ▸ hown, hitems⟩
  | case7 enclosing stack acc number raw items ih =>
    intro f hf
    obtain ⟨own, hown, hitems⟩ := ih h (opened ++ [⟨number, .startGroup, raw⟩])
      (fun _ => by simp [hraw]) (fun _ more => by simp [hopened, gather]) f hf
    exact ⟨own, List.append_cons .. ▸ hown, hitems⟩
  | case8 acc enclosing raw items ih =>
    obtain ⟨gs, hgs, rfl⟩ := Option.map_eq_some_iff.mp h
    intro f hf
    rcases List.mem_cons.mp hf with rfl | hf
    · refine ⟨opened ++ [⟨enclosing, .endGroup, raw⟩], ?_, by simp [hraw],
        by simp [hopened, gather]⟩
      rw [List.append_cons opened _ items]
      exact List.subset_append_left _ _
    · obtain ⟨own, hown, hitems⟩ := ih hgs [] (by simp) (by simp) f hf
      exact ⟨own, fun item hmem => List.mem_append_right _ (List.mem_cons_of_mem _ (hown hmem)),
        hitems⟩
  | case9 => cases h
  | case10 next stack acc enclosing raw items ih =>
    intro f hf
    obtain ⟨own, hown, hitems⟩ := ih h (opened ++ [⟨enclosing, .endGroup, raw⟩])
      (fun _ => by simp [hraw]) (fun _ more => by simp [hopened, gather]) f hf
    exact ⟨own, List.append_cons .. ▸ hown, hitems⟩
  | case11 => cases h

theorem lex_eq_some_iff {bs : List UInt8} {fs : List Field} :
    lex lim bs = some fs ↔ ∃ items, Lexes lim bs items ∧ gather [] [] items = some fs := by
  simp only [lex, Option.bind_eq_some_iff, lexItems_eq_some_iff le_rfl]

/-- **Fields are read one after another.** -/
theorem lex_append {bs bs' : List UInt8} {fs fs' : List Field} (h : lex lim bs = some fs)
    (h' : lex lim bs' = some fs') : lex lim (bs ++ bs') = some (fs ++ fs') := by
  obtain ⟨items, hlexes, hgather⟩ := lex_eq_some_iff.mp h
  obtain ⟨items', hlexes', hgather'⟩ := lex_eq_some_iff.mp h'
  refine lex_eq_some_iff.mpr ⟨items ++ items', hlexes.append hlexes', ?_⟩
  rw [gather_append hgather, hgather', Option.map_some]

/-- Valid fields are read one after another. -/
theorem lex_flatMap {fs : List Field} (h : ∀ f ∈ fs, f.Valid lim) :
    lex lim (fs.flatMap Field.raw) = some fs := by
  induction fs with
  | nil => rfl
  | cons f fs ih =>
    rw [List.flatMap_cons, ← List.singleton_append]
    exact lex_append (h f List.mem_cons_self) (ih fun g hg => h g (List.mem_cons_of_mem _ hg))

/-- **What is read are valid fields**, and all of the bytes. -/
theorem valid_of_lex {bs : List UInt8} {fs : List Field} (h : lex lim bs = some fs) :
    (∀ f ∈ fs, f.Valid lim) ∧ fs.flatMap Field.raw = bs := by
  obtain ⟨items, hlexes, hgather⟩ := lex_eq_some_iff.mp h
  constructor
  · intro f hf
    obtain ⟨own, hown, hraw, hself⟩ := itemsOf_gather hgather [] (by simp) (by simp) f hf
    have hitems : ∀ item ∈ own, Lexes lim item.raw [item] := fun item hmem =>
      hlexes.single item (by simpa using hown hmem)
    exact lex_eq_some_iff.mpr ⟨own, hraw ▸ Lexes.flatMap hitems, hself⟩
  · rw [raw_of_gather hgather fun _ => rfl, List.nil_append, hlexes.raw]

/-! ### Writing -/

/-- The tag of a field. -/
def writeTag (number wireType : ℕ) : List UInt8 := writeVarint (8 * number + wireType)

/-- An integer field as it is written. -/
def Field.varint (number : ℕ) (value : UInt64) : Field where
  number := number
  value := .varint value
  raw := writeTag number 0 ++ writeVarint value.toNat

/-- A field with a length as it is written. -/
def Field.len (number : ℕ) (payload : List UInt8) : Field where
  number := number
  value := .len payload
  raw := writeTag number 2 ++ (writeVarint payload.length ++ payload)

/-- The numbers that a field may have. -/
def IsFieldNumber (number : ℕ) : Prop := 0 < number ∧ number < 2 ^ 29

instance (number : ℕ) : Decidable (IsFieldNumber number) :=
  inferInstanceAs (Decidable (_ ∧ _))

theorem readTag_writeTag {number wireType : ℕ} (hnumber : IsFieldNumber number)
    (htype : wireType < 8) (rest : List UInt8) :
    readTag (writeTag number wireType ++ rest) = some ((number, wireType), rest) := by
  obtain ⟨hpos, hlt⟩ := hnumber
  have hdiv : (8 * number + wireType) / 8 = number := by omega
  have hmod : (8 * number + wireType) % 8 = wireType := by omega
  rw [readTag, writeTag, readVarint_writeVarint (by decide) (by omega), Option.bind_some,
    if_pos ⟨by omega, by omega⟩, hdiv, hmod]

theorem readLen_writeLen {payload : List UInt8} (h : payload.length ≤ lim.maxLength)
    (rest : List UInt8) :
    readLen lim (writeVarint payload.length ++ (payload ++ rest)) = some (payload, rest) := by
  rw [readLen, readVarint_writeVarint lim.positive (h.trans_lt lim.fits), Option.bind_some,
    if_pos h, readBytes_append rfl]

/-- A field whose tag and value are read as one item is valid. -/
theorem Field.valid_of_readNumbered {number : ℕ} {value : WireValue} {raw : List UInt8}
    (h : readNumbered lim raw = some ((number, .value value), [])) :
    Field.Valid lim ⟨number, value, raw⟩ := by
  have hitem : readItem lim raw = some (⟨number, .value value, raw⟩, []) := by
    rw [readItem, h, Option.map_some, List.length_nil, Nat.sub_zero, List.take_length]
  exact lex_eq_some_iff.mpr ⟨[⟨number, .value value, raw⟩], .cons hitem .nil, rfl⟩

theorem Field.valid_varint {number : ℕ} (h : IsFieldNumber number) (value : UInt64) :
    (Field.varint number value).Valid lim := by
  refine valid_of_readNumbered ?_
  have hread := readVarint_writeVarint (k := 10) (n := value.toNat) (by decide)
    (lt_of_lt_of_le value.toNat_lt (by decide)) []
  rw [List.append_nil] at hread
  rw [readNumbered, readTag_writeTag h (by decide), Option.bind_some, readKind, hread,
    Option.map_some, Option.map_some, UInt64.ofNat_toNat]

theorem Field.valid_len {number : ℕ} (h : IsFieldNumber number) {payload : List UInt8}
    (hlength : payload.length ≤ lim.maxLength) : (Field.len number payload).Valid lim := by
  refine valid_of_readNumbered ?_
  have hread := readLen_writeLen hlength []
  rw [List.append_nil] at hread
  rw [readNumbered, readTag_writeTag h (by decide), Option.bind_some, readKind, hread,
    Option.map_some, Option.map_some]

/-! ### Larger limits -/

/-- A reader with larger limits. -/
def Limits.Within (lim lim' : Limits) : Prop :=
  lim.maxLength ≤ lim'.maxLength ∧ lim.lengthBytes ≤ lim'.lengthBytes

variable {lim' : Limits}

theorem readItem_mono (hlim : lim.Within lim') {bs rest : List UInt8} {item : Item}
    (h : readItem lim bs = some (item, rest)) : readItem lim' bs = some (item, rest) := by
  have hlen {bs : List UInt8} {r : List UInt8 × List UInt8} (h : readLen lim bs = some r) :
      readLen lim' bs = some r := by
    obtain ⟨n, hn, hr⟩ := Option.bind_eq_some_iff.mp h
    split_ifs at hr with hle
    rw [readLen, readVarint_mono hlim.2 hn, Option.bind_some, if_pos (hle.trans hlim.1), hr]
  obtain ⟨r, hr, rfl, rfl⟩ := Option.map_eq_some_iff.mp h
  obtain ⟨⟨⟨number, wireType⟩, bs'⟩, htag, hkind⟩ := Option.bind_eq_some_iff.mp hr
  obtain ⟨k, hk, rfl⟩ := Option.map_eq_some_iff.mp hkind
  have hk' : readKind lim' wireType bs' = some k := by
    match wireType with
    | 0 => exact hk
    | 1 => exact hk
    | 2 =>
      obtain ⟨payload, hpayload, rfl⟩ := Option.map_eq_some_iff.mp hk
      rw [readKind, hlen hpayload, Option.map_some]
    | 3 => exact hk
    | 4 => exact hk
    | 5 => exact hk
    | _ + 6 => cases hk
  rw [readItem, readNumbered, htag, Option.bind_some, hk', Option.map_some, Option.map_some]

/-- What a reader reads, one with larger limits reads. -/
theorem lex_mono (hlim : lim.Within lim') {bs : List UInt8} {fs : List Field}
    (h : lex lim bs = some fs) : lex lim' bs = some fs := by
  obtain ⟨items, hlexes, hgather⟩ := lex_eq_some_iff.mp h
  refine lex_eq_some_iff.mpr ⟨items, ?_, hgather⟩
  clear hgather h
  induction hlexes with
  | nil => exact .nil
  | cons hitem _ ih => exact .cons (readItem_mono hlim hitem) ih

theorem Field.Valid.mono {f : Field} (h : f.Valid lim) (hlim : lim.Within lim') : f.Valid lim' :=
  lex_mono hlim h

end Wire
