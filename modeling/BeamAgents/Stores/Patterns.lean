import Mathlib.Data.List.Infix
import Mathlib.Data.Char
import Mathlib.Tactic.SplitIfs

/-!
# Patterns of texts

The patterns of `LIKE` in SQL and of `MATCH` in Redis. Both are read as pieces, each of which stands
for one symbol or for any number of symbols. A pattern in which every special character is escaped
and a last piece stands for any symbols describes the texts that start with a given one, as far as
the server tells symbols apart.

## Main definitions

* `Stores.Piece` with `Stores.Piece.accept`.
* `Stores.LikeDialect`, `Stores.likePieces`, `Stores.LikeDialect.like`.
* `Stores.globPieces`, `Stores.glob`.

## Main results

* `Stores.Piece.accept_ones`, `Stores.Piece.accept_ones_many`: literal patterns.
* `Stores.likePieces_escaped`, `Stores.globPieces_escaped`: escaped characters are literal.
-/

namespace Stores

/-- A piece of a pattern: one symbol that passes a test, or any symbols. -/
inductive Piece (α : Type*)
  | one (test : α → Bool)
  | many

namespace Piece

variable {α β : Type*}

/-- Whether a text is made of what the pieces of a pattern stand for. -/
def accept : List (Piece α) → List α → Bool
  | [], text => text.isEmpty
  | .one _ :: _, [] => false
  | .one test :: pieces, a :: text => test a && accept pieces text
  | .many :: pieces, text => text.tails.any (accept pieces)

variable [DecidableEq β] (fold : α → β)

/-- The piece that stands for a symbol and those that are folded alike. -/
def like (a : α) : Piece α := .one fun b => fold a = fold b

/-- **A literal pattern.** -/
theorem accept_ones (symbols text : List α) :
    accept (symbols.map (like fold)) text = true ↔ symbols.map fold = text.map fold := by
  induction symbols generalizing text with
  | nil => cases text <;> simp [accept]
  | cons a symbols ih => cases text <;> simp [accept, like, ih]

/-- **A literal pattern that anything may follow.** -/
theorem accept_ones_many (symbols text : List α) :
    accept (symbols.map (like fold) ++ [.many]) text = true ↔
      symbols.map fold <+: text.map fold := by
  induction symbols generalizing text with
  | nil =>
    have hempty : accept [.many] text = true := by
      rw [accept, List.any_eq_true]
      exact ⟨[], (List.mem_tails _ _).mpr (List.nil_suffix), rfl⟩
    simp [hempty]
  | cons a symbols ih =>
    cases text with
    | nil => simp [accept, like]
    | cons b text => simp [accept, like, ih, List.cons_prefix_cons]

end Piece

/-! ### LIKE -/

/-- What `LIKE` tells apart in a SQL database: whether it folds the case of ASCII letters, and
whether a text ends at its first NUL. -/
structure LikeDialect where
  foldsCase : Bool
  nulEnds : Bool
  deriving DecidableEq, Repr

/-- SQLite. -/
def sqlite : LikeDialect := ⟨true, true⟩

/-- A database that takes a text as it is. -/
def exactLike : LikeDialect := ⟨false, false⟩

/-- The pieces of a pattern of `LIKE` with an escape character; one that ends the pattern matches
nothing. -/
def likePieces (fold : Char → Char) (escape : Char) : List Char → List (Piece Char)
  | [] => []
  | c :: pattern =>
    if c = escape then
      match pattern with
      | [] => [.one fun _ => false]
      | d :: pattern => .like fold d :: likePieces fold escape pattern
    else if c = '%' then .many :: likePieces fold escape pattern
    else if c = '_' then .one (fun _ => true) :: likePieces fold escape pattern
    else .like fold c :: likePieces fold escape pattern

namespace LikeDialect

variable (dialect : LikeDialect)

/-- The folded character. -/
def fold (c : Char) : Char := if dialect.foldsCase then c.toLower else c

/-- The part of a text that is read. -/
def seen (text : List Char) : List Char :=
  if dialect.nulEnds then text.takeWhile (· ≠ '\x00') else text

/-- `text LIKE pattern ESCAPE escape`. -/
def like (escape : Char) (pattern text : List Char) : Bool :=
  Piece.accept (likePieces dialect.fold escape (dialect.seen pattern)) (dialect.seen text)

end LikeDialect

/-- A character behind the escape character if a pattern of `LIKE` would not take it as it is. -/
def likeEscaped (escape c : Char) : List Char :=
  if c = escape ∨ c = '%' ∨ c = '_' then [escape, c] else [c]

/-- **Escaped characters are literal** in a pattern of `LIKE`. -/
theorem likePieces_escaped (fold : Char → Char) (escape : Char) (text pattern : List Char) :
    likePieces fold escape (text.flatMap (likeEscaped escape) ++ pattern) =
      text.map (.like fold) ++ likePieces fold escape pattern := by
  induction text with
  | nil => rfl
  | cons c text ih =>
    rw [List.flatMap_cons, List.append_assoc, List.map_cons, List.cons_append, ← ih, likeEscaped]
    split_ifs with hspecial
    · exact if_pos rfl
    · push Not at hspecial
      obtain ⟨hescape, hmany, hone⟩ := hspecial
      show likePieces fold escape (c :: _) = _
      rw [likePieces.eq_def]
      dsimp only
      rw [if_neg hescape, if_neg hmany, if_neg hone]
      rfl

namespace LikeDialect

variable {dialect : LikeDialect}

variable (dialect) in
/-- What the dialect reads of a text. -/
def folded (text : List Char) : List Char := (dialect.seen text).map dialect.fold

variable (dialect) in
/-- Whether a text starts with another as far as the dialect tells texts apart. Where a text ends at
its first NUL, nothing follows a start that has one. -/
def StartsWith (start text : List Char) : Prop :=
  if dialect.nulEnds ∧ '\x00' ∈ start then dialect.folded start = dialect.folded text
  else dialect.folded start <+: dialect.folded text

instance (start text : List Char) : Decidable (dialect.StartsWith start text) := by
  unfold StartsWith
  infer_instance

/-- What is read of a text in two parts. -/
theorem seen_append (start rest : List Char) : dialect.seen (start ++ rest) =
    dialect.seen start ++ if dialect.nulEnds ∧ '\x00' ∈ start then [] else dialect.seen rest := by
  rw [seen, seen, seen]
  cases dialect.nulEnds with
  | false => simp
  | true =>
    simp only [if_true, true_and]
    induction start with
    | nil => rfl
    | cons c start ih =>
      by_cases hc : c = '\x00'
      · simp [hc]
      · have htake (text : List Char) : (c :: text).takeWhile (· ≠ '\x00') =
            c :: text.takeWhile (· ≠ '\x00') :=
          List.takeWhile_cons_of_pos (decide_eq_true hc)
        rw [List.cons_append, htake, htake, ih, List.cons_append]
        simp [Ne.symm hc]

private theorem nul_mem_likeEscaped {escape c : Char} (hescape : escape ≠ '\x00') :
    '\x00' ∈ likeEscaped escape c ↔ '\x00' ∈ [c] := by
  rw [likeEscaped]
  split_ifs <;> simp [hescape.symm]

/-- What is read of an escaped text. -/
theorem seen_escaped {escape : Char} (hescape : escape ≠ '\x00') (start : List Char) :
    dialect.seen (start.flatMap (likeEscaped escape)) =
      (dialect.seen start).flatMap (likeEscaped escape) := by
  induction start with
  | nil =>
    have hnil : dialect.seen [] = [] := ite_self _
    rw [List.flatMap_nil, hnil, List.flatMap_nil]
  | cons c start ih =>
    have hword : dialect.seen (likeEscaped escape c) =
        (dialect.seen [c]).flatMap (likeEscaped escape) := by
      rw [seen, seen]
      split_ifs
      · by_cases hc : c = '\x00'
        · subst hc
          rw [likeEscaped, if_neg (by simp [hescape.symm])]
          rfl
        · have hkept : ∀ d ∈ likeEscaped escape c, decide (d ≠ '\x00') = true := by
            rintro d hd
            refine decide_eq_true fun hzero => hc ?_
            exact (List.mem_singleton.mp ((nul_mem_likeEscaped hescape).mp (hzero ▸ hd))).symm
          have htake : (likeEscaped escape c ++ []).takeWhile (· ≠ '\x00') =
              likeEscaped escape c ++ [] := List.takeWhile_append_of_pos hkept
          have hone : [c].takeWhile (· ≠ '\x00') = [c] :=
            List.takeWhile_cons_of_pos (decide_eq_true hc)
          rw [List.append_nil] at htake
          rw [htake, hone, List.flatMap_singleton]
      · simp
    show _ = (dialect.seen ([c] ++ start)).flatMap _
    rw [List.flatMap_cons, seen_append, ih, hword, seen_append, List.flatMap_append]
    simp only [nul_mem_likeEscaped hescape]
    split_ifs <;> rfl

/-- **A start with its special characters escaped**, and any characters after it. -/
theorem like_escaped {escape : Char} (hescape : escape ≠ '\x00') (hmany : escape ≠ '%')
    (start text : List Char) :
    dialect.like escape (start.flatMap (likeEscaped escape) ++ ['%']) text = true ↔
      dialect.StartsWith start text := by
  have hnul : '\x00' ∈ start.flatMap (likeEscaped escape) ↔ '\x00' ∈ start := by
    simp only [List.mem_flatMap, nul_mem_likeEscaped hescape, List.mem_singleton]
    exact ⟨fun ⟨c, hc, hnul⟩ => hnul ▸ hc, fun h => ⟨_, h, rfl⟩⟩
  have hany : dialect.seen ['%'] = ['%'] := by
    rw [seen]
    split_ifs <;> rfl
  rw [like, seen_append, seen_escaped hescape, hany, likePieces_escaped, StartsWith]
  simp only [hnul]
  split_ifs
  · rw [likePieces, List.append_nil, Piece.accept_ones]
    rfl
  · have hpieces : likePieces dialect.fold escape ['%'] = [.many] := by
      simp [likePieces, hmany.symm]
    rw [hpieces, Piece.accept_ones_many]
    rfl

/-- A text that starts with another does so in every dialect. -/
theorem startsWith_of_prefix {start text : List Char} (h : start <+: text) :
    dialect.StartsWith start text := by
  obtain ⟨rest, rfl⟩ := h
  rw [StartsWith, folded, folded, seen_append, List.map_append]
  split_ifs
  · simp
  · exact List.prefix_append _ _

/-- A database that takes texts as they are finds what starts with a text. -/
theorem exactLike_startsWith {start text : List Char} :
    exactLike.StartsWith start text ↔ start <+: text := by
  have hfolded (text : List Char) : exactLike.folded text = text := text.map_id
  rw [StartsWith, if_neg (by simp [exactLike]), hfolded, hfolded]

end LikeDialect

/-! ### MATCH -/

/-- The bytes of a class in a pattern of `MATCH`, up to its bracket, and the rest of the pattern. -/
def globClass : List UInt8 → (UInt8 → Bool) × List UInt8
  | [] => (fun _ => false, [])
  | 92 :: c :: pattern => (fun b => b = c || (globClass pattern).1 b, (globClass pattern).2)
  | 93 :: pattern => (fun _ => false, pattern)
  | c :: 45 :: d :: pattern =>
    (fun b => (min c d ≤ b && b ≤ max c d) || (globClass pattern).1 b, (globClass pattern).2)
  | c :: pattern => (fun b => b = c || (globClass pattern).1 b, (globClass pattern).2)

theorem length_globClass_le (pattern : List UInt8) :
    (globClass pattern).2.length ≤ pattern.length := by
  fun_induction globClass pattern <;> grind

/-- The pieces of a pattern of `MATCH`. -/
def globPieces : List UInt8 → List (Piece UInt8)
  | [] => []
  | 42 :: pattern => .many :: globPieces pattern
  | 63 :: pattern => .one (fun _ => true) :: globPieces pattern
  | 91 :: 94 :: pattern =>
    .one (fun b => !(globClass pattern).1 b) :: globPieces (globClass pattern).2
  | 91 :: pattern => .one (globClass pattern).1 :: globPieces (globClass pattern).2
  | 92 :: c :: pattern => .like id c :: globPieces pattern
  | c :: pattern => .like id c :: globPieces pattern
termination_by pattern => pattern.length
decreasing_by
  all_goals
    simp only [List.length_cons]
    grind [length_globClass_le]

/-- Whether a text matches a pattern of `MATCH`. -/
def glob (pattern text : List UInt8) : Bool := Piece.accept (globPieces pattern) text

/-- The bytes that a pattern of `MATCH` does not take as they are: the backslash, the question mark,
the asterisk and the opening bracket. -/
def globSpecial (c : UInt8) : Prop := c = 92 ∨ c = 63 ∨ c = 42 ∨ c = 91

instance : DecidablePred globSpecial := fun _ => inferInstanceAs (Decidable (_ ∨ _))

/-- A byte that is not special is literal. -/
theorem globPieces_cons {c : UInt8} (h : ¬ globSpecial c) (pattern : List UInt8) :
    globPieces (c :: pattern) = .like id c :: globPieces pattern := by
  simp only [globSpecial, not_or] at h
  rw [globPieces.eq_def]
  split <;> simp_all

/-- **Escaped bytes are literal** in a pattern of `MATCH`. -/
theorem globPieces_escaped (c : UInt8) (pattern : List UInt8) :
    globPieces (92 :: c :: pattern) = .like id c :: globPieces pattern := by
  simp [globPieces]

end Stores
