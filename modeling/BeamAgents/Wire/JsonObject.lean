import BeamAgents.Containers.SortedMap
import BeamAgents.Wire.Json
import Mathlib.Data.String.Basic

/-!
# Maps as objects of JSON

A map with names for keys is an object whose members stand in the order of their names, as
`json.dumps` writes it with `sort_keys=True`.

## Main definitions

* `Wire.Json.ofMap`, `Wire.Json.toMap`.
* `Wire.Json.Scalar`: a value without parts.
* `Wire.Json.dumpsSorted`.

## Main results

* `Wire.Json.toMap_ofMap`: a map is read from its object.
* `Wire.Json.loads_dumpsSorted`: a document in order is read from what it is written as.
-/

namespace Wire.Json

open Containers

variable {α : Type} {dump : α → Value} {read : Value → Option α}

/-- A map as an object. -/
def ofMap (dump : α → Value) (m : SortedMap String α) : Value :=
  .object (m.entries.map fun p => (p.1, dump p.2))

/-- An object as a map. -/
def toMap (read : Value → Option α) : Value → Option (SortedMap String α)
  | .object members => (members.mapM fun p => (read p.2).map (p.1, ·)).map SortedMap.ofList
  | _ => none

/-- **A map is read from its object.** -/
theorem toMap_ofMap (h : ∀ a, read (dump a) = some a) (m : SortedMap String α) :
    toMap read (ofMap dump m) = some m := by
  have hmembers (entries : List (String × α)) : (entries.map fun p => (p.1, dump p.2)).mapM
      (fun p => (read p.2).map (p.1, ·)) = some entries := by
    induction entries with
    | nil => rfl
    | cons p entries ih => simp [List.mapM_cons, h, ih]
  rw [ofMap, toMap, hmembers, Option.map_some, SortedMap.ofList_entries]

theorem valid_ofMap (h : ∀ a, (dump a).Valid) (m : SortedMap String α) : (ofMap dump m).Valid := by
  have hnames : (m.entries.map fun p => (p.1, dump p.2)).map Prod.fst = m.entries.map Prod.fst := by
    rw [List.map_map]
    rfl
  refine ⟨?_, validMembers_iff.mpr (List.forall_mem_map.mpr fun p _ => h p.2)⟩
  rw [hnames]
  exact List.pairwise_map.mpr (m.sorted.imp ne_of_lt)

/-- The members of a map stand in order. -/
theorem sorted_ofMap (h : ∀ a, (dump a).sorted = dump a) (m : SortedMap String α) :
    (ofMap dump m).sorted = ofMap dump m := by
  have hmembers (entries : List (String × α)) :
      sortedMembers (entries.map fun p => (p.1, dump p.2)) =
        entries.map fun p => (p.1, dump p.2) := by
    induction entries with
    | nil => rfl
    | cons p entries ih => rw [List.map_cons, sortedMembers, h, ih]
  have hsorted : (m.entries.map fun p => (p.1, dump p.2)).Pairwise fun a b => a.1 ≤ b.1 :=
    List.pairwise_map.mpr (m.sorted.imp le_of_lt)
  rw [ofMap, Value.sorted, hmembers, hsorted.insertionSort_eq]

/-! ### Scalars -/

/-- A value without parts. -/
inductive Scalar
  | text (s : String)
  | bool (b : Bool)
  | int (n : Int)
  | decimal (d : Decimal)
  deriving DecidableEq, Repr

namespace Scalar

/-- The value. -/
def value : Scalar → Value
  | .text s => .text s
  | .bool b => .bool b
  | .int n => .int n
  | .decimal d => .decimal d

/-- A value that is a scalar. -/
def ofValue : Value → Option Scalar
  | .text s => some (.text s)
  | .bool b => some (.bool b)
  | .int n => some (.int n)
  | .decimal d => some (.decimal d)
  | _ => none

@[simp] theorem ofValue_value (a : Scalar) : ofValue a.value = some a := by cases a <;> rfl

@[simp] theorem sorted_value (a : Scalar) : a.value.sorted = a.value := by cases a <;> rfl

theorem valid_value (a : Scalar) : a.value.Valid := by cases a <;> exact trivial

end Scalar

/-! ### Writing -/

/-- `json.dumps` with `sort_keys=True`, encoded. -/
def dumpsSorted (style : Style) (value : Value) : List UInt8 := dumps style value.sorted

/-- **A valid document that stands in order** is read from what it is written as. -/
theorem loads_dumpsSorted (style : Style) {value : Value} (hvalid : value.Valid)
    (hsorted : value.sorted = value) : loads (dumpsSorted style value) = some value := by
  rw [dumpsSorted, hsorted, loads_dumps style hvalid]

end Wire.Json
