import BeamAgents.Wire.JsonNumbers
import BeamAgents.Wire.Message
import Mathlib.Data.List.Induction
import Mathlib.Data.List.Sort

/-!
# JSON

`json.dumps` and `json.loads`. A document is written compactly or with spaces, in ASCII or with the
characters as they are, and its objects may be sorted. In ASCII a character beyond the basic plane
is written as a pair of surrogates. The reader takes every escape of JSON and spaces between the
values; of members with one name the last counts. Texts with a surrogate that has no partner and
encodings other than UTF-8 are left out, and so is the limit on nesting.

## Main definitions

* `Wire.Json.Value` with `Valid` and `sorted`.
* `Wire.Json.Style`, `Wire.Json.dumps`, `Wire.Json.loads`.

## Main results

* `Wire.Json.loads_dumps`: a document is read from what it was written as.
-/

namespace Wire.Json

/-- A document. -/
inductive Value
  | null
  | bool (b : Bool)
  | int (n : Int)
  | decimal (d : Decimal)
  | text (s : String)
  | array (items : List Value)
  | object (members : List (String × Value))

/-- How a document is written. -/
structure Style where
  compact : Bool := false
  ensureAscii : Bool := true
  deriving DecidableEq, Repr

/-! ### Texts -/

/-- A UTF-16 unit as it is escaped. -/
def escapeUnit (n : ℕ) : List Char :=
  ['\x5c', 'u', Nat.digitChar (n / 4096 % 16), Nat.digitChar (n / 256 % 16),
    Nat.digitChar (n / 16 % 16), Nat.digitChar (n % 16)]

/-- A character of a text as it is written. -/
def escapeChar (ensureAscii : Bool) (c : Char) : List Char :=
  if c = '\x22' then ['\x5c', '\x22']
  else if c = '\x5c' then ['\x5c', '\x5c']
  else if c = '\n' then ['\x5c', 'n']
  else if c = '\r' then ['\x5c', 'r']
  else if c = '\t' then ['\x5c', 't']
  else if c = '\x0c' then ['\x5c', 'f']
  else if c = '\x08' then ['\x5c', 'b']
  else if 32 ≤ c.toNat ∧ (c.toNat ≤ 126 ∨ ensureAscii = false) then [c]
  else if c.toNat < 65536 then escapeUnit c.toNat
  else escapeUnit (55296 + (c.toNat - 65536) / 1024) ++
    escapeUnit (56320 + (c.toNat - 65536) % 1024)

/-- The number of a hexadecimal digit. -/
def hexValue (c : Char) : Option ℕ :=
  if '0' ≤ c ∧ c ≤ '9' then some (c.toNat - 48)
  else if 'a' ≤ c ∧ c ≤ 'f' then some (c.toNat - 87)
  else if 'A' ≤ c ∧ c ≤ 'F' then some (c.toNat - 55)
  else none

/-- The UTF-16 unit of four digits. -/
def unitOf (a b c d : Char) : Option ℕ := do
  let a ← hexValue a
  let b ← hexValue b
  let c ← hexValue c
  let d ← hexValue d
  return a * 4096 + b * 256 + c * 16 + d

/-- The character that a single letter stands for behind a backslash. -/
def escaped (c : Char) : Option Char :=
  if c = '\x22' ∨ c = '\x5c' ∨ c = '/' then some c
  else if c = 'n' then some '\n'
  else if c = 'r' then some '\r'
  else if c = 't' then some '\t'
  else if c = 'f' then some '\x0c'
  else if c = 'b' then some '\x08'
  else none

/-- A value before those that are read after it. -/
def push {α : Type*} (a : α) (found : Option (List α × List Char)) :
    Option (List α × List Char) :=
  found.map fun p => (a :: p.1, p.2)

/-- A text up to its closing quote, and what follows. -/
def readText : List Char → Option (List Char × List Char)
  | [] => none
  | c :: rest =>
    if c = '\x22' then some ([], rest)
    else if c = '\x5c' then
      match rest with
      | 'u' :: a :: b :: c :: d :: rest =>
        match unitOf a b c d with
        | none => none
        | some high =>
          if high / 1024 = 54 then
            match rest with
            | '\x5c' :: 'u' :: a :: b :: c :: d :: rest =>
              match unitOf a b c d with
              | none => none
              | some low =>
                if low / 1024 = 55 then
                  push (Char.ofNat (65536 + (high - 55296) * 1024 + (low - 56320))) (readText rest)
                else none
            | _ => none
          else if high / 1024 = 55 then none
          else push (Char.ofNat high) (readText rest)
      | c :: rest =>
        match escaped c with
        | none => none
        | some c => push c (readText rest)
      | [] => none
    else if c.toNat < 32 then none
    else push c (readText rest)

section Texts

variable {n : ℕ} {c : Char} {rest : List Char}

theorem hexValue_digitChar (h : n < 16) : hexValue (Nat.digitChar n) = some n := by
  have hall : ∀ n : Fin 16, hexValue (Nat.digitChar n) = some n.val := by decide
  exact hall ⟨n, h⟩

theorem unitOf_digits (h : n < 65536) : unitOf (Nat.digitChar (n / 4096 % 16))
    (Nat.digitChar (n / 256 % 16)) (Nat.digitChar (n / 16 % 16)) (Nat.digitChar (n % 16)) =
      some n := by
  have hdigit (m : ℕ) : hexValue (Nat.digitChar (m % 16)) = some (m % 16) :=
    hexValue_digitChar (Nat.mod_lt _ (by decide))
  have hsum : n / 4096 % 16 * 4096 + n / 256 % 16 * 256 + n / 16 % 16 * 16 + n % 16 = n := by omega
  rw [unitOf, hdigit, hdigit, hdigit, hdigit]
  exact congrArg some hsum

/-- A character has no number of a surrogate. -/
theorem toNat_not_surrogate (c : Char) : c.toNat / 1024 ≠ 54 ∧ c.toNat / 1024 ≠ 55 := by
  have hvalid : c.toNat < 55296 ∨ 57343 < c.toNat ∧ c.toNat < 1114112 := c.valid
  omega

theorem readText_unit (h : n < 65536) (hhigh : n / 1024 ≠ 54) (hlow : n / 1024 ≠ 55) :
    readText (escapeUnit n ++ rest) = push (Char.ofNat n) (readText rest) := by
  rw [escapeUnit, List.cons_append, readText.eq_def]
  simp only [List.cons_append, List.nil_append, unitOf_digits h, if_neg hhigh, if_neg hlow]
  rfl

theorem readText_pair (c : Char) (h : 65536 ≤ c.toNat) :
    readText (escapeUnit (55296 + (c.toNat - 65536) / 1024) ++
      escapeUnit (56320 + (c.toNat - 65536) % 1024) ++ rest) = push c (readText rest) := by
  have hvalid : c.toNat < 55296 ∨ 57343 < c.toNat ∧ c.toNat < 1114112 := c.valid
  have hhigh : (55296 + (c.toNat - 65536) / 1024) / 1024 = 54 := by omega
  have hlow : (56320 + (c.toNat - 65536) % 1024) / 1024 = 55 := by omega
  have hunits : 65536 + (55296 + (c.toNat - 65536) / 1024 - 55296) * 1024 +
      (56320 + (c.toNat - 65536) % 1024 - 56320) = c.toNat := by omega
  have hfirst := unitOf_digits (show 55296 + (c.toNat - 65536) / 1024 < 65536 by omega)
  have hsecond := unitOf_digits (show 56320 + (c.toNat - 65536) % 1024 < 65536 by omega)
  rw [escapeUnit, escapeUnit, List.cons_append, List.cons_append, readText.eq_def]
  simp only [List.cons_append, List.nil_append, hfirst, hsecond, if_pos hhigh, if_pos hlow, hunits,
    Char.ofNat_toNat]
  rfl

/-- **A character is read from what it was written as.** -/
theorem readText_escapeChar (ensureAscii : Bool) (c : Char) (rest : List Char) :
    readText (escapeChar ensureAscii c ++ rest) = push c (readText rest) := by
  rw [escapeChar]
  split_ifs with h₁ h₂ h₃ h₄ h₅ h₆ h₇ hplain hunit
  · rw [h₁]; rfl
  · rw [h₂]; rfl
  · rw [h₃]; rfl
  · rw [h₄]; rfl
  · rw [h₅]; rfl
  · rw [h₆]; rfl
  · rw [h₇]; rfl
  · rw [List.singleton_append, readText.eq_def]
    dsimp only
    rw [if_neg h₁, if_neg h₂, if_neg (by omega)]
  · obtain ⟨hhigh, hlow⟩ := toNat_not_surrogate c
    rw [readText_unit hunit hhigh hlow, Char.ofNat_toNat]
  · exact readText_pair c (by omega)

theorem readText_escaped (ensureAscii : Bool) (text rest : List Char) :
    readText (text.flatMap (escapeChar ensureAscii) ++ '\x22' :: rest) = some (text, rest) := by
  induction text with
  | nil =>
    rw [List.flatMap_nil, List.nil_append, readText.eq_def]
    exact if_pos rfl
  | cons c text ih => rw [List.flatMap_cons, List.append_assoc, readText_escapeChar, ih]; rfl

end Texts

/-! ### Documents -/

/-- What stands between values. -/
def Style.itemSeparator (style : Style) : List Char := if style.compact then [','] else [',', ' ']

/-- What stands between a name and its value. -/
def Style.keySeparator (style : Style) : List Char := if style.compact then [':'] else [':', ' ']

/-- A text as it is written. -/
def dumpString (style : Style) (s : String) : List Char :=
  '\x22' :: (s.toList.flatMap (escapeChar style.ensureAscii) ++ ['\x22'])

mutual

/-- A document as it is written. -/
def dumpText (style : Style) : Value → List Char
  | .null => ['n', 'u', 'l', 'l']
  | .bool true => ['t', 'r', 'u', 'e']
  | .bool false => ['f', 'a', 'l', 's', 'e']
  | .int n => dumpInt n
  | .decimal d => dumpDecimal d
  | .text s => dumpString style s
  | .array items => '[' :: (dumpItems style items ++ [']'])
  | .object members => '\x7b' :: (dumpMembers style members ++ ['\x7d'])
termination_by structural value => value

/-- The values of an array, separated. -/
def dumpItems (style : Style) : List Value → List Char
  | [] => []
  | [value] => dumpText style value
  | value :: next :: items =>
    dumpText style value ++ style.itemSeparator ++ dumpItems style (next :: items)
termination_by structural items => items

/-- The members of an object, separated. -/
def dumpMembers (style : Style) : List (String × Value) → List Char
  | [] => []
  | [(name, value)] => dumpString style name ++ style.keySeparator ++ dumpText style value
  | (name, value) :: next :: members =>
    dumpString style name ++ style.keySeparator ++ dumpText style value ++ style.itemSeparator ++
      dumpMembers style (next :: members)
termination_by structural members => members

end

/-- The spaces of JSON. -/
def spaces : List Char := [' ', '\t', '\n', '\r']

/-- What is behind spaces. -/
def skipSpace (text : List Char) : List Char := text.dropWhile (· ∈ spaces)

/-- A member in the place of the one that has its name, or after the others. -/
def setMember (members : List (String × Value)) (member : String × Value) :
    List (String × Value) :=
  if member.1 ∈ members.map Prod.fst then
    members.map fun m => if m.1 = member.1 then member else m
  else members ++ [member]

mutual

/-- A document, and what follows. -/
def readValue : ℕ → List Char → Option (Value × List Char)
  | 0, _ => none
  | fuel + 1, text =>
    match text with
    | 'n' :: 'u' :: 'l' :: 'l' :: rest => some (.null, rest)
    | 't' :: 'r' :: 'u' :: 'e' :: rest => some (.bool true, rest)
    | 'f' :: 'a' :: 'l' :: 's' :: 'e' :: rest => some (.bool false, rest)
    | '\x22' :: rest => (readText rest).map fun p => (.text (String.ofList p.1), p.2)
    | '[' :: rest =>
      match skipSpace rest with
      | ']' :: rest => some (.array [], rest)
      | rest => (readItems fuel rest).map fun p => (.array p.1, p.2)
    | '\x7b' :: rest =>
      match skipSpace rest with
      | '\x7d' :: rest => some (.object [], rest)
      | rest => (readMembers fuel rest).map fun p => (.object (p.1.foldl setMember []), p.2)
    | text => (readNumber text).map fun p => (Sum.elim .int .decimal p.1, p.2)

/-- The values up to the end of an array, and what follows. -/
def readItems : ℕ → List Char → Option (List Value × List Char)
  | 0, _ => none
  | fuel + 1, text =>
    match readValue fuel text with
    | none => none
    | some (value, rest) =>
      match skipSpace rest with
      | ',' :: rest => push value (readItems fuel (skipSpace rest))
      | ']' :: rest => some ([value], rest)
      | _ => none

/-- The members up to the end of an object, and what follows. -/
def readMembers : ℕ → List Char → Option (List (String × Value) × List Char)
  | 0, _ => none
  | fuel + 1, text =>
    match text with
    | '\x22' :: rest =>
      match readText rest with
      | none => none
      | some (name, rest) =>
        match skipSpace rest with
        | ':' :: rest =>
          match readValue fuel (skipSpace rest) with
          | none => none
          | some (value, rest) =>
            match skipSpace rest with
            | ',' :: rest =>
              push (String.ofList name, value) (readMembers fuel (skipSpace rest))
            | '\x7d' :: rest => some ([(String.ofList name, value)], rest)
            | _ => none
        | _ => none
    | _ => none

end

/-- The document that a text is. -/
def readDocument (text : List Char) : Option Value :=
  match readValue (2 * text.length + 1) (skipSpace text) with
  | some (value, rest) => if skipSpace rest = [] then some value else none
  | none => none

/-- `json.loads`; none when it raises, or when what is read is left out. -/
def loads (bytes : List UInt8) : Option Value :=
  (String.fromUTF8? ⟨bytes.toArray⟩).bind fun text => readDocument text.toList

/-- `json.dumps`, encoded. -/
def dumps (style : Style) (value : Value) : List UInt8 :=
  Scalar.utf8 (String.ofList (dumpText style value))

mutual

/-- A document whose objects are sorted by name. -/
def Value.sorted : Value → Value
  | .array items => .array (sortedItems items)
  | .object members => .object ((sortedMembers members).insertionSort fun a b => a.1 ≤ b.1)
  | value => value
termination_by structural value => value

def sortedItems : List Value → List Value
  | [] => []
  | value :: items => value.sorted :: sortedItems items
termination_by structural items => items

def sortedMembers : List (String × Value) → List (String × Value)
  | [] => []
  | (name, value) :: members => (name, value.sorted) :: sortedMembers members
termination_by structural members => members

end

mutual

/-- No object of a document has two members with one name. -/
def Value.Valid : Value → Prop
  | .array items => ValidItems items
  | .object members => (members.map Prod.fst).Nodup ∧ ValidMembers members
  | _ => True
termination_by structural value => value

def ValidItems : List Value → Prop
  | [] => True
  | value :: items => value.Valid ∧ ValidItems items
termination_by structural items => items

def ValidMembers : List (String × Value) → Prop
  | [] => True
  | (_, value) :: members => value.Valid ∧ ValidMembers members
termination_by structural members => members

end

theorem validMembers_iff {members : List (String × Value)} :
    ValidMembers members ↔ ∀ member ∈ members, member.2.Valid := by
  induction members with
  | nil => exact iff_of_true trivial nofun
  | cons member members ih => rw [ValidMembers, ih, List.forall_mem_cons]

theorem map_fst_sortedMembers (members : List (String × Value)) :
    (sortedMembers members).map Prod.fst = members.map Prod.fst := by
  induction members with
  | nil => rfl
  | cons member members ih => rw [sortedMembers, List.map_cons, List.map_cons, ih]

mutual

/-- A document stays valid when it is sorted. -/
theorem Value.Valid.sorted : ∀ {value : Value}, value.Valid → value.sorted.Valid
  | .null, _ => trivial
  | .bool _, _ => trivial
  | .int _, _ => trivial
  | .decimal _, _ => trivial
  | .text _, _ => trivial
  | .array _, h => validItems_sorted h
  | .object members, h => by
    have hperm := List.perm_insertionSort (fun a b => a.1 ≤ b.1) (sortedMembers members)
    refine ⟨(hperm.map Prod.fst).nodup_iff.mpr (map_fst_sortedMembers members ▸ h.1), ?_⟩
    exact validMembers_iff.mpr fun member hmember =>
      validMembers_iff.mp (validMembers_sorted h.2) member (hperm.mem_iff.mp hmember)

theorem validItems_sorted : ∀ {items : List Value}, ValidItems items →
    ValidItems (sortedItems items)
  | [], _ => trivial
  | _ :: _, h => ⟨h.1.sorted, validItems_sorted h.2⟩

theorem validMembers_sorted : ∀ {members : List (String × Value)}, ValidMembers members →
    ValidMembers (sortedMembers members)
  | [], _ => trivial
  | _ :: _, h => ⟨h.1.sorted, validMembers_sorted h.2⟩

end

/-! ### Round trip -/

section RoundTrip

variable {style : Style} {fuel : ℕ} {rest : List Char}

/-- A document starts with a letter, a quote, a bracket, a sign or a digit. -/
theorem dumpText_head (style : Style) (value : Value) : ∃ c cs, dumpText style value = c :: cs ∧
    (c ∈ ['n', 't', 'f', '\x22', '[', '\x7b', '-'] ∨ c.isDigit) := by
  cases value with
  | null => exact ⟨_, _, rfl, .inl (by decide)⟩
  | bool b => cases b <;> exact ⟨_, _, rfl, .inl (by decide)⟩
  | int n =>
    obtain ⟨c, digits, hdigits, hc⟩ := dumpInt_head n
    refine ⟨c, digits, hdigits, ?_⟩
    rcases hc with rfl | hdigit
    · exact .inl (by decide)
    · exact .inr hdigit
  | decimal d =>
    obtain ⟨c, text, htext, hc⟩ := dumpDecimal_head d
    refine ⟨c, text, htext, ?_⟩
    rcases hc with rfl | hdigit
    · exact .inl (by decide)
    · exact .inr hdigit
  | text s => exact ⟨_, _, rfl, .inl (by decide)⟩
  | array items => exact ⟨_, _, rfl, .inl (by decide)⟩
  | object members => exact ⟨_, _, rfl, .inl (by decide)⟩

/-- No space starts a document. -/
theorem not_space {c : Char} (h : c ∈ ['n', 't', 'f', '\x22', '[', '\x7b', '-'] ∨ c.isDigit) :
    c ∉ spaces := by
  intro hmem
  simp only [spaces, List.mem_cons, List.not_mem_nil, or_false] at hmem
  rcases hmem with rfl | rfl | rfl | rfl <;> exact absurd h (by decide)

theorem skipSpace_cons {c : Char} (h : c ∉ spaces) (rest : List Char) :
    skipSpace (c :: rest) = c :: rest :=
  List.dropWhile_cons_of_neg fun hspace => h (of_decide_eq_true hspace)

theorem skipSpace_dumpText (value : Value) (rest : List Char) :
    skipSpace (dumpText style value ++ rest) = dumpText style value ++ rest := by
  obtain ⟨c, cs, hvalue, hc⟩ := dumpText_head style value
  rw [hvalue, List.cons_append, skipSpace_cons (not_space hc)]

/-- Separated values start with the first of them. -/
theorem dumpItems_head (style : Style) (value : Value) (items : List Value) :
    ∃ rest, dumpItems style (value :: items) = dumpText style value ++ rest := by
  cases items with
  | nil => exact ⟨[], (List.append_nil _).symm⟩
  | cons next items => exact ⟨_, List.append_assoc _ _ _⟩

theorem skipSpace_dumpItems (value : Value) (items : List Value) (rest : List Char) :
    skipSpace (dumpItems style (value :: items) ++ rest) =
      dumpItems style (value :: items) ++ rest := by
  obtain ⟨others, hothers⟩ := dumpItems_head style value items
  rw [hothers, List.append_assoc, skipSpace_dumpText]

/-- Separated members start with a quote. -/
theorem dumpMembers_head (style : Style) (member : String × Value)
    (members : List (String × Value)) :
    ∃ rest, dumpMembers style (member :: members) = '\x22' :: rest := by
  obtain ⟨name, value⟩ := member
  cases members with
  | nil => exact ⟨_, rfl⟩
  | cons next members => exact ⟨_, rfl⟩

theorem skipSpace_dumpMembers (member : String × Value) (members : List (String × Value))
    (rest : List Char) : skipSpace (dumpMembers style (member :: members) ++ rest) =
      dumpMembers style (member :: members) ++ rest := by
  obtain ⟨others, hothers⟩ := dumpMembers_head style member members
  rw [hothers, List.cons_append, skipSpace_cons (by decide)]

/-- Behind a separator the next value is found, behind its comma. -/
theorem skipSpace_itemSeparator (style : Style) {c : Char} (h : c ∉ spaces)
    (rest : List Char) :
    ∃ rest', style.itemSeparator ++ c :: rest = ',' :: rest' ∧ skipSpace rest' = c :: rest := by
  cases hcompact : style.compact with
  | true =>
    refine ⟨c :: rest, ?_, skipSpace_cons h rest⟩
    rw [Style.itemSeparator, hcompact]
    rfl
  | false =>
    refine ⟨' ' :: c :: rest, ?_, skipSpace_cons h rest⟩
    rw [Style.itemSeparator, hcompact]
    rfl

theorem skipSpace_keySeparator (style : Style) {c : Char} (h : c ∉ spaces)
    (rest : List Char) :
    ∃ rest', style.keySeparator ++ c :: rest = ':' :: rest' ∧ skipSpace rest' = c :: rest := by
  cases hcompact : style.compact with
  | true =>
    refine ⟨c :: rest, ?_, skipSpace_cons h rest⟩
    rw [Style.keySeparator, hcompact]
    rfl
  | false =>
    refine ⟨' ' :: c :: rest, ?_, skipSpace_cons h rest⟩
    rw [Style.keySeparator, hcompact]
    rfl

/-- Members with different names are kept as they come. -/
theorem foldl_setMember {members : List (String × Value)} (h : (members.map Prod.fst).Nodup) :
    members.foldl setMember [] = members := by
  induction members using List.reverseRecOn with
  | nil => rfl
  | append_singleton members member ih =>
    rw [List.map_append, List.nodup_append] at h
    rw [List.foldl_append, ih h.1, List.foldl_cons, List.foldl_nil, setMember, if_neg]
    exact fun hmem => h.2.2 _ hmem _ List.mem_cons_self rfl

/-- What is written is read, with some fuel. -/
structure ReadsBack (style : Style) (fuel : ℕ) : Prop where
  value : ∀ (value : Value) rest, value.Valid → 2 * (dumpText style value).length + 1 ≤ fuel →
    EndsNumber rest → readValue fuel (dumpText style value ++ rest) = some (value, rest)
  items : ∀ first items rest, ValidItems (first :: items) →
    2 * (dumpItems style (first :: items)).length + 2 ≤ fuel →
    readItems fuel (dumpItems style (first :: items) ++ ']' :: rest) = some (first :: items, rest)
  members : ∀ first members rest, ValidMembers (first :: members) →
    2 * (dumpMembers style (first :: members)).length + 2 ≤ fuel →
    readMembers fuel (dumpMembers style (first :: members) ++ '\x7d' :: rest) =
      some (first :: members, rest)

/-- A text that starts with a sign or a digit is read as a number. -/
theorem readValue_number {c : Char} (hc : c = '-' ∨ c.isDigit) (text : List Char) :
    readValue (fuel + 1) (c :: text) =
      (readNumber (c :: text)).map fun p => (Sum.elim .int .decimal p.1, p.2) := by
  rw [readValue.eq_def]
  dsimp only
  split
  case h_7 => rfl
  all_goals
    next heq =>
    rw [(List.cons.inj heq).1] at hc
    exact absurd hc (by decide)

theorem readValue_int (n : Int) (h : EndsNumber rest) :
    readValue (fuel + 1) (dumpInt n ++ rest) = some (.int n, rest) := by
  obtain ⟨c, digits, hdigits, hc⟩ := dumpInt_head n
  have hread := readNumber_dumpInt n h
  rw [hdigits, List.cons_append] at hread ⊢
  rw [readValue_number hc, hread]
  rfl

theorem readValue_decimal (d : Decimal) (h : EndsNumber rest) :
    readValue (fuel + 1) (dumpDecimal d ++ rest) = some (.decimal d, rest) := by
  obtain ⟨c, text, htext, hc⟩ := dumpDecimal_head d
  have hread := readNumber_dumpDecimal d h
  rw [htext, List.cons_append] at hread ⊢
  rw [readValue_number hc, hread]
  rfl

theorem ReadsBack.value_succ (h : ReadsBack style fuel) (value : Value) (rest : List Char)
    (hvalid : value.Valid) (hfuel : 2 * (dumpText style value).length + 1 ≤ fuel + 1)
    (hrest : EndsNumber rest) :
    readValue (fuel + 1) (dumpText style value ++ rest) = some (value, rest) := by
  cases value with
  | null => rfl
  | bool b => cases b <;> rfl
  | int n => exact readValue_int n hrest
  | decimal d => exact readValue_decimal d hrest
  | text s =>
    rw [dumpText, dumpString, List.cons_append, List.append_assoc, List.singleton_append, readValue,
      readText_escaped, Option.map_some, String.ofList_toList]
  | array items =>
    cases items with
    | nil => rfl
    | cons first items =>
      have hitems := h.items first items rest hvalid (by
        rw [dumpText, List.length_cons, List.length_append, List.length_singleton] at hfuel
        omega)
      obtain ⟨others, hothers⟩ := dumpItems_head style first items
      obtain ⟨c, cs, hfirst, hc⟩ := dumpText_head style first
      rw [dumpText, List.cons_append, List.append_assoc, List.singleton_append, readValue,
        skipSpace_dumpItems]
      split
      · next hclosed =>
        rw [hothers, hfirst, List.cons_append, List.cons_append] at hclosed
        rw [(List.cons.inj hclosed).1] at hc
        exact absurd hc (by decide)
      · rw [hitems]
        rfl
  | object members =>
    cases members with
    | nil => rfl
    | cons first members =>
      have hmembers := h.members first members rest hvalid.2 (by
        rw [dumpText, List.length_cons, List.length_append, List.length_singleton] at hfuel
        omega)
      obtain ⟨others, hothers⟩ := dumpMembers_head style first members
      rw [dumpText, List.cons_append, List.append_assoc, List.singleton_append, readValue,
        skipSpace_dumpMembers]
      split
      · next hclosed =>
        rw [hothers, List.cons_append] at hclosed
        exact absurd (List.cons.inj hclosed).1 (by decide)
      · rw [hmembers, Option.map_some, foldl_setMember hvalid.1]

theorem ReadsBack.items_succ (h : ReadsBack style fuel) (first : Value) (items : List Value)
    (rest : List Char) (hvalid : ValidItems (first :: items))
    (hfuel : 2 * (dumpItems style (first :: items)).length + 2 ≤ fuel + 1) :
    readItems (fuel + 1) (dumpItems style (first :: items) ++ ']' :: rest) =
      some (first :: items, rest) := by
  cases items with
  | nil =>
    have hvalue := h.value first (']' :: rest) hvalid.1 (by rw [dumpItems] at hfuel; omega)
      (endsNumber_cons (by decide) rest)
    rw [dumpItems, readItems, hvalue]
    rfl
  | cons next items =>
    obtain ⟨others, hothers⟩ := dumpItems_head style next items
    obtain ⟨c, cs, hnext, hc⟩ := dumpText_head style next
    have hitems : dumpItems style (next :: items) ++ ']' :: rest =
        c :: (cs ++ (others ++ ']' :: rest)) := by
      rw [hothers, hnext, List.append_assoc, List.cons_append]
    obtain ⟨rest', hseparator, hskip⟩ := skipSpace_itemSeparator style (not_space hc)
      (cs ++ (others ++ ']' :: rest))
    have hlength := congrArg List.length hseparator
    rw [dumpItems, List.length_append, List.length_append] at hfuel
    have hcomma : 0 < style.itemSeparator.length := by
      rw [Style.itemSeparator]
      split <;> simp
    have hvalue := h.value first (',' :: rest') hvalid.1 (by omega)
      (endsNumber_cons (by decide) rest')
    have hothers' := h.items next items rest hvalid.2 (by omega)
    rw [dumpItems, List.append_assoc, List.append_assoc, hitems, hseparator, readItems, hvalue]
    dsimp only
    rw [skipSpace_cons (by decide)]
    change push first (readItems fuel (skipSpace rest')) = _
    rw [hskip, ← hitems, hothers']
    rfl

/-- A name and its value are read up to what follows the value. -/
theorem ReadsBack.member (h : ReadsBack style fuel) (name : String) (value : Value)
    (hvalid : value.Valid) (hfuel : 2 * (dumpText style value).length + 1 ≤ fuel)
    (hrest : EndsNumber rest) :
    readMembers (fuel + 1) (dumpString style name ++ style.keySeparator ++ dumpText style value ++
        rest) =
      match skipSpace rest with
      | ',' :: rest => push (name, value) (readMembers fuel (skipSpace rest))
      | '\x7d' :: rest => some ([(name, value)], rest)
      | _ => none := by
  obtain ⟨c, cs, hvalue, hc⟩ := dumpText_head style value
  obtain ⟨rest', hseparator, hskip⟩ := skipSpace_keySeparator style (not_space hc) (cs ++ rest)
  have hread := h.value value rest hvalid hfuel hrest
  have htext : dumpString style name ++ style.keySeparator ++ dumpText style value ++ rest =
      '\x22' :: (name.toList.flatMap (escapeChar style.ensureAscii) ++ '\x22' :: ':' :: rest') := by
    rw [List.append_assoc, List.append_assoc, hvalue, List.cons_append, hseparator, dumpString,
      List.cons_append, List.append_assoc, List.singleton_append]
  have hcolon : skipSpace (':' :: rest') = ':' :: rest' := skipSpace_cons (by decide) rest'
  rw [hvalue, List.cons_append] at hread
  simp only [htext, readMembers, readText_escaped, hcolon, hskip, hread, String.ofList_toList]

theorem ReadsBack.members_succ (h : ReadsBack style fuel) (first : String × Value)
    (members : List (String × Value)) (rest : List Char) (hvalid : ValidMembers (first :: members))
    (hfuel : 2 * (dumpMembers style (first :: members)).length + 2 ≤ fuel + 1) :
    readMembers (fuel + 1) (dumpMembers style (first :: members) ++ '\x7d' :: rest) =
      some (first :: members, rest) := by
  obtain ⟨name, value⟩ := first
  cases members with
  | nil =>
    rw [dumpMembers, List.length_append] at hfuel
    rw [dumpMembers, h.member name value hvalid.1 (by omega) (endsNumber_cons (by decide) rest),
      skipSpace_cons (by decide)]
    rfl
  | cons next members =>
    obtain ⟨others, hothers⟩ := dumpMembers_head style next members
    have hmembers : dumpMembers style (next :: members) ++ '\x7d' :: rest =
        '\x22' :: (others ++ '\x7d' :: rest) := by
      rw [hothers, List.cons_append]
    obtain ⟨rest', hseparator, hskip⟩ := skipSpace_itemSeparator style
      (show '\x22' ∉ spaces by decide) (others ++ '\x7d' :: rest)
    have hcomma : 0 < style.itemSeparator.length := by
      rw [Style.itemSeparator]
      split <;> simp
    rw [dumpMembers, List.length_append, List.length_append, List.length_append] at hfuel
    have hothers' := h.members next members rest hvalid.2 (by omega)
    rw [dumpMembers, List.append_assoc _ _ ('\x7d' :: rest), List.append_assoc, hmembers,
      hseparator, h.member name value hvalid.1 (by omega) (endsNumber_cons (by decide) rest'),
      skipSpace_cons (by decide)]
    change push (name, value) (readMembers fuel (skipSpace rest')) = _
    rw [hskip, ← hmembers, hothers']
    rfl

/-- **What is written is read**, with any fuel. -/
theorem readsBack (style : Style) (fuel : ℕ) : ReadsBack style fuel := by
  induction fuel with
  | zero =>
    exact ⟨fun value rest _ hfuel _ => absurd hfuel (by omega),
      fun first items rest _ hfuel => absurd hfuel (by omega),
      fun first members rest _ hfuel => absurd hfuel (by omega)⟩
  | succ fuel ih => exact ⟨ih.value_succ, ih.items_succ, ih.members_succ⟩

theorem readDocument_dumpText (style : Style) {value : Value} (h : value.Valid) :
    readDocument (dumpText style value) = some value := by
  have hskip : skipSpace (dumpText style value ++ []) = dumpText style value ++ [] :=
    skipSpace_dumpText value []
  have hread := (readsBack style (2 * (dumpText style value).length + 1)).value value [] h le_rfl
    (fun c hc => by cases hc)
  rw [List.append_nil] at hskip hread
  rw [readDocument, hskip, hread]
  rfl

/-- **A document is read from what it was written as.** -/
theorem loads_dumps (style : Style) {value : Value} (h : value.Valid) :
    loads (dumps style value) = some value := by
  have hbytes : (⟨(dumps style value).toArray⟩ : ByteArray) =
      (String.ofList (dumpText style value)).toByteArray := by simp [dumps, Scalar.utf8]
  have htext : (String.fromUTF8 (String.ofList (dumpText style value)).toByteArray
      (String.isValidUTF8 _)).toList = dumpText style value := String.toList_ofList
  rw [loads, hbytes, String.fromUTF8?, dif_pos (String.isValidUTF8 _), Option.bind_some, htext,
    readDocument_dumpText style h]

end RoundTrip

end Wire.Json
