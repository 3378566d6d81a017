import BeamAgents.Wire.Message
import Mathlib.Data.List.DropRight
import Mathlib.Data.List.Basic

/-!
# Lines of a text

`strip`, `splitlines` and `partition` of Python's `str`, on the characters of a text, and `decode`
of bytes that may not be UTF-8.

## Main definitions

* `Wire.Text.isSpace`, `Wire.Text.isBoundary`.
* `Wire.Text.strip`, `Wire.Text.splitLines`, `Wire.Text.partition`.
* `Wire.Text.decodeReplace`.

## Main results

* `Wire.Text.splitLines_intercalate`: joined lines are split again.
* `Wire.Text.partition_eq_some_iff`: a text is parted at the first separator.
* `Wire.Text.decodeReplace_utf8`: what is UTF-8 is decoded as it is.
-/

namespace Wire.Text

/-- `str.isspace` of a character, which is the white space of a pattern too. -/
def isSpace (c : Char) : Bool :=
  (9 ≤ c.toNat && c.toNat ≤ 13) || (28 ≤ c.toNat && c.toNat ≤ 32) ||
    c.toNat ∈ [133, 160, 5760, 8232, 8233, 8239, 8287, 12288] ||
    (8192 ≤ c.toNat && c.toNat ≤ 8202)

/-- A character that ends a line. -/
def isBoundary (c : Char) : Bool :=
  (10 ≤ c.toNat && c.toNat ≤ 13) || (28 ≤ c.toNat && c.toNat ≤ 30) ||
    c.toNat ∈ [133, 8232, 8233]

/-- `str.strip()`. -/
def strip (text : List Char) : List Char := (text.dropWhile isSpace).rdropWhile isSpace

/-- `str.splitlines()`. -/
def splitLines : List Char → List (List Char)
  | [] => []
  | '\r' :: '\n' :: rest => [] :: splitLines rest
  | c :: rest =>
    if isBoundary c then [] :: splitLines rest
    else
      match splitLines rest with
      | [] => [[c]]
      | line :: lines => (c :: line) :: lines

/-- `str.partition` at a character; `none` when it does not occur. -/
def partition (sep : Char) : List Char → Option (List Char × List Char)
  | [] => none
  | c :: rest =>
    if c = sep then some ([], rest) else (partition sep rest).map fun p => (c :: p.1, p.2)

variable {sep : Char} {text before after line : List Char} {lines : List (List Char)}

/-! ### White space -/

/-- White space at the end is dropped. -/
theorem rdropWhile_append {right : List Char} (hright : ∀ c ∈ right, isSpace c) :
    (text ++ right).rdropWhile isSpace = text.rdropWhile isSpace := by
  have hreverse : (right.reverse ++ text.reverse).dropWhile isSpace =
      text.reverse.dropWhile isSpace :=
    List.dropWhile_append_of_pos fun c hc => hright c (List.mem_reverse.mp hc)
  rw [List.rdropWhile, List.reverse_append, hreverse, List.rdropWhile]

/-- What stands before a character that is no white space is not dropped. -/
theorem rdropWhile_append_cons {c : Char} (hc : isSpace c = false) :
    (before ++ c :: after).rdropWhile isSpace = before ++ c :: after.rdropWhile isSpace := by
  have hparts : after.rdropWhile isSpace ++ after.rtakeWhile isSpace = after :=
    List.rdropWhile_append_rtakeWhile
  have hsplit : before ++ c :: after =
      (before ++ c :: after.rdropWhile isSpace) ++ after.rtakeWhile isSpace := by
    rw [List.append_assoc, List.cons_append, hparts]
  rw [hsplit, rdropWhile_append fun c hc => List.mem_rtakeWhile_imp hc,
    List.rdropWhile_eq_self_iff]
  intro hne
  by_cases hnil : after.rdropWhile isSpace = []
  · simpa [hnil] using hc
  · rw [List.getLast_append_of_ne_nil _ (List.cons_ne_nil _ _), List.getLast_cons hnil]
    exact List.rdropWhile_last_not _ _ hnil

/-- White space after a text is stripped. -/
theorem strip_append_right {right : List Char} (hright : ∀ c ∈ right, isSpace c) :
    strip (text ++ right) = strip text := by
  rw [strip, strip, List.dropWhile_append]
  split_ifs with hspaces
  · rw [List.dropWhile_eq_nil_iff.mpr hright, List.isEmpty_iff.mp hspaces]
  · exact rdropWhile_append hright

theorem strip_rdropWhile : strip (text.rdropWhile isSpace) = strip text := by
  have hparts : text.rdropWhile isSpace ++ text.rtakeWhile isSpace = text :=
    List.rdropWhile_append_rtakeWhile
  have hstrip : strip (text.rdropWhile isSpace ++ text.rtakeWhile isSpace) =
      strip (text.rdropWhile isSpace) :=
    strip_append_right fun c hc => List.mem_rtakeWhile_imp hc
  rw [← hstrip, hparts]

/-- White space before a text is stripped. -/
theorem strip_append_left {left : List Char} (hleft : ∀ c ∈ left, isSpace c) :
    strip (left ++ text) = strip text := by
  have hdrop : (left ++ text).dropWhile isSpace = text.dropWhile isSpace :=
    List.dropWhile_append_of_pos hleft
  rw [strip, hdrop, strip]

/-- A text without white space at its ends is stripped already. -/
theorem strip_eq_self (hhead : ∀ c ∈ text.head?, isSpace c = false)
    (hlast : ∀ c ∈ text.getLast?, isSpace c = false) : strip text = text := by
  have hdrop : text.dropWhile isSpace = text := by
    cases text with
    | nil => rfl
    | cons c rest => exact List.dropWhile_cons_of_neg (by simpa using hhead c rfl)
  rw [strip, hdrop, List.rdropWhile_eq_self_iff]
  exact fun hne => by simpa using hlast _ (List.getLast?_eq_some_getLast hne)

/-! ### Lines -/

/-- A line that ends in a newline is the first one. -/
theorem splitLines_append (h : ∀ c ∈ line, isBoundary c = false) (rest : List Char) :
    splitLines (line ++ '\n' :: rest) = line :: splitLines rest := by
  induction line with
  | nil =>
    rw [List.nil_append, splitLines]
    · rfl
    · exact fun _ hr => absurd hr (by decide)
  | cons c line ih =>
    have hc := h c List.mem_cons_self
    have hr : c ≠ '\r' := by
      rintro rfl
      exact absurd hc (by decide)
    rw [List.cons_append, splitLines, hc, ih fun c hc => h c (List.mem_cons_of_mem _ hc)]
    · rfl
    · exact fun _ heq => absurd heq hr

/-- A line alone is the only one. -/
theorem splitLines_line (h : ∀ c ∈ line, isBoundary c = false) (hne : line ≠ []) :
    splitLines line = [line] := by
  induction line with
  | nil => exact absurd rfl hne
  | cons c line ih =>
    have hc := h c List.mem_cons_self
    have hr : c ≠ '\r' := by
      rintro rfl
      exact absurd hc (by decide)
    have hsplit : splitLines (c :: line) =
        match splitLines line with
        | [] => [[c]]
        | first :: lines => (c :: first) :: lines := by
      rw [splitLines, hc]
      · rfl
      · exact fun _ heq => absurd heq hr
    rw [hsplit]
    cases line with
    | nil => rfl
    | cons d rest =>
      rw [ih (fun c hc => h c (List.mem_cons_of_mem _ hc)) (List.cons_ne_nil _ _)]

/-- **Joined lines are split again**, unless the last one is empty. -/
theorem splitLines_intercalate (h : ∀ line ∈ lines, ∀ c ∈ line, isBoundary c = false)
    (hlast : [] ∉ lines.getLast?) : splitLines (['\n'].intercalate lines) = lines := by
  induction lines with
  | nil => rfl
  | cons line rest ih =>
    cases rest with
    | nil =>
      rw [List.intercalate_singleton]
      exact splitLines_line (h line List.mem_cons_self) fun hline => hlast (by simp [hline])
    | cons line' rest =>
      rw [List.intercalate_cons_cons, List.append_assoc, List.singleton_append,
        splitLines_append (h line List.mem_cons_self),
        ih (fun l hl => h l (List.mem_cons_of_mem _ hl)) (by simpa using hlast)]

/-! ### Parts -/

/-- A text is parted at the first separator. -/
theorem partition_eq_some_iff :
    partition sep text = some (before, after) ↔ text = before ++ sep :: after ∧ sep ∉ before := by
  induction text generalizing before with
  | nil => simp [partition]
  | cons c rest ih =>
    rw [partition]
    split_ifs with hc
    · subst hc
      constructor
      · rintro ⟨⟩
        exact ⟨rfl, List.not_mem_nil⟩
      · rintro ⟨hrest, hnot⟩
        cases before with
        | nil => simpa using hrest
        | cons d before => exact absurd ((List.cons.inj hrest).1 ▸ List.mem_cons_self) hnot
    · rw [Option.map_eq_some_iff]
      constructor
      · rintro ⟨⟨before', after'⟩, hrest, heq⟩
        cases heq
        obtain ⟨rfl, hnot⟩ := ih.mp hrest
        exact ⟨rfl, List.not_mem_cons_of_ne_of_not_mem (Ne.symm hc) hnot⟩
      · rintro ⟨hrest, hnot⟩
        cases before with
        | nil => exact absurd (List.cons.inj hrest).1 hc
        | cons d before =>
          obtain ⟨rfl, htail⟩ := List.cons.inj hrest
          exact ⟨(before, after),
            ih.mpr ⟨htail, fun hmem => hnot (List.mem_cons_of_mem _ hmem)⟩, rfl⟩

/-! ### Decoding -/

/-- The bytes behind the first one of a character: how many, and the bounds of the first of them. -/
def expected (b : ℕ) : ℕ × ℕ × ℕ :=
  if 0xC2 ≤ b ∧ b ≤ 0xDF then (1, 0x80, 0xBF)
  else if b = 0xE0 then (2, 0xA0, 0xBF)
  else if b = 0xED then (2, 0x80, 0x9F)
  else if 0xE1 ≤ b ∧ b ≤ 0xEF then (2, 0x80, 0xBF)
  else if b = 0xF0 then (3, 0x90, 0xBF)
  else if 0xF1 ≤ b ∧ b ≤ 0xF3 then (3, 0x80, 0xBF)
  else if b = 0xF4 then (3, 0x80, 0x8F)
  else (0, 0, 0)

/-- How many of the bytes behind the first one belong to a character that breaks off. -/
def followers : ℕ × ℕ × ℕ → List UInt8 → ℕ
  | (count + 1, low, high), b :: rest =>
    if low ≤ b.toNat ∧ b.toNat ≤ high then followers (count, 0x80, 0xBF) rest + 1 else 0
  | _, _ => 0

/-- The characters of bytes; each longest part that begins a character but is none counts as
U+FFFD. -/
def replaceFrom : ℕ → List UInt8 → List Char
  | fuel + 1, b :: rest =>
    match ByteArray.utf8DecodeChar? ⟨(b :: rest).toArray⟩ 0 with
    | some c => c :: replaceFrom fuel ((b :: rest).drop c.utf8Size)
    | none => '\ufffd' :: replaceFrom fuel (rest.drop (followers (expected b.toNat) rest))
  | _, _ => []

/-- `bytes.decode("utf-8", errors="replace")`. -/
def decodeReplace (bytes : List UInt8) : String :=
  String.ofList (replaceFrom bytes.length bytes)

theorem replaceFrom_encode (text : List Char) {fuel : ℕ}
    (h : (text.flatMap String.utf8EncodeChar).length ≤ fuel) :
    replaceFrom fuel (text.flatMap String.utf8EncodeChar) = text := by
  induction text generalizing fuel with
  | nil => cases fuel <;> rfl
  | cons c text ih =>
    obtain ⟨b, rest, hcode⟩ := List.exists_cons_of_ne_nil (String.utf8EncodeChar_ne_nil (c := c))
    have hsize : (String.utf8EncodeChar c).length = c.utf8Size := String.length_utf8EncodeChar c
    have hbytes : (⟨((c :: text).flatMap String.utf8EncodeChar).toArray⟩ : ByteArray) =
        (String.utf8EncodeChar c).toByteArray ++
          (text.flatMap String.utf8EncodeChar).toByteArray := by
      rw [List.flatMap_cons, ← List.toByteArray_append]
      exact ByteArray.ext (by simp)
    have hdecode : ByteArray.utf8DecodeChar?
        ⟨((c :: text).flatMap String.utf8EncodeChar).toArray⟩ 0 = some c := by
      rw [hbytes, ByteArray.utf8DecodeChar?_utf8EncodeChar_append]
    have hdrop : ((c :: text).flatMap String.utf8EncodeChar).drop c.utf8Size =
        text.flatMap String.utf8EncodeChar := by
      rw [List.flatMap_cons, ← hsize, List.drop_left]
    have hpos : 0 < c.utf8Size := c.utf8Size_pos
    rw [List.flatMap_cons, List.length_append, hsize] at h
    cases fuel with
    | zero => omega
    | succ fuel =>
      have hcons : (c :: text).flatMap String.utf8EncodeChar =
          b :: (rest ++ text.flatMap String.utf8EncodeChar) := by
        rw [List.flatMap_cons, hcode, List.cons_append]
      rw [hcons] at hdecode hdrop ⊢
      rw [replaceFrom, hdecode]
      simp only [hdrop]
      rw [ih (by omega)]

/-- **What is UTF-8 is decoded as it is.** -/
theorem decodeReplace_utf8 (s : String) : decodeReplace (Scalar.utf8 s) = s := by
  have hbytes : Scalar.utf8 s = s.toList.flatMap String.utf8EncodeChar := by
    rw [Scalar.utf8, ← String.utf8Encode_toList]
    simp [List.utf8Encode]
  rw [decodeReplace, hbytes, replaceFrom_encode _ le_rfl, String.ofList_toList]

end Wire.Text
