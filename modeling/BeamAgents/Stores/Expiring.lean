import Mathlib.Algebra.Ring.Int.Defs
import Mathlib.Data.Option.Basic
import Mathlib.Logic.Function.Basic

/-!
# A key-value server with expiring keys

Entries carry the instant at which they expire, in the milliseconds of the server's clock. An entry
is served before that instant and not after it. Whether it is still served at the instant itself is
the server's own affair, so that it is a part of the rule that the server follows.

## Main definitions

* `Stores.ExpiryRule`, `Stores.ExpiringDb`.
* `Stores.ExpiringDb.get`, `Stores.ExpiringDb.setPx`, `Stores.ExpiringDb.setNxPx`,
  `Stores.ExpiringDb.del`.

## Main results

* `Stores.ExpiringDb.get_eq_unexpired`: what is served away from the instant of expiry.
-/

namespace Stores

/-- When a server counts an entry as expired. -/
structure ExpiryRule where
  expired (now expiresAt : Int) : Bool
  expired_of_lt {now expiresAt : Int} : expiresAt < now → expired now expiresAt = true
  served_of_lt {now expiresAt : Int} : now < expiresAt → expired now expiresAt = false

/-- The values under their keys, and when they expire. -/
abbrev ExpiringDb := String → Option (List UInt8 × Int)

/-- A relative expiry that a server accepts: it is positive, and the instant fits its clock. -/
def PxValid (now px : Int) : Prop := 0 < px ∧ px < 2 ^ 63 ∧ 0 < now + px ∧ now + px < 2 ^ 63

instance (now px : Int) : Decidable (PxValid now px) :=
  inferInstanceAs (Decidable (_ ∧ _ ∧ _ ∧ _))

namespace ExpiringDb

variable (rule : ExpiryRule) (db : ExpiringDb) (now : Int) (key : String)

/-- `GET`. -/
def get : Option (List UInt8) :=
  ((db key).filter fun entry => !rule.expired now entry.2).map Prod.fst

/-- `SET key value PX px`; an invalid expiry is an error. -/
def setPx (value : List UInt8) (px : Int) : Option ExpiringDb :=
  if PxValid now px then some (Function.update db key (some (value, now + px))) else none

/-- `SET key value NX PX px`: whether the key was free, so that the value is stored. -/
def setNxPx (value : List UInt8) (px : Int) : Option (ExpiringDb × Bool) :=
  if PxValid now px then
    match get rule db now key with
    | none => some (Function.update db key (some (value, now + px)), true)
    | some _ => some (db, false)
  else none

/-- `DEL`. -/
def del : ExpiringDb := Function.update db key none

/-- The entry under a key, if it expires after a time. -/
def unexpired : Option (List UInt8 × Int) := (db key).filter fun entry => now < entry.2

variable {rule db now key}

theorem unexpired_mono {later : Int} (h : now ≤ later) :
    (unexpired db now key).filter (fun entry => later < entry.2) = unexpired db later key := by
  rw [unexpired, unexpired, Option.filter_filter]
  congr 1
  funext entry
  by_cases hlater : later < entry.2
  · simp [hlater, Int.lt_of_le_of_lt h hlater]
  · simp [hlater]

/-- What is served is what has not expired, unless the entry expires just now. -/
theorem get_eq_unexpired
    (h : ∀ value, db key = some (value, now) → rule.expired now now = true) :
    get rule db now key = (unexpired db now key).map Prod.fst := by
  rw [get, unexpired]
  cases hentry : db key with
  | none => rfl
  | some entry =>
    obtain ⟨value, expiresAt⟩ := entry
    rcases Int.lt_trichotomy now expiresAt with hlt | rfl | hlt
    · simp [Option.filter, rule.served_of_lt hlt, hlt]
    · simp [Option.filter, h value hentry]
    · simp [Option.filter, rule.expired_of_lt hlt, Int.not_lt.mpr (Int.le_of_lt hlt)]

/-- Just when it expires, an entry is served or not, as the rule has it. -/
theorem get_of_expiring {value : List UInt8} (h : db key = some (value, now)) :
    get rule db now key = if rule.expired now now then none else some value := by
  rw [get, h]
  cases hexpired : rule.expired now now <;> simp [Option.filter, hexpired]

end ExpiringDb

end Stores
