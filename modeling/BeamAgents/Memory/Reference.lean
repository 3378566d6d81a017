import BeamAgents.Memory.Accounting

/-!
# Working memory as a map

What working memory is for: a map from keys to scalars and bounded queues. The map keeps the values
themselves; a call of the wrong kind is refused, and so is a write after which the encoded values
would add up to more than the hard cap. Without a compactor, the facade answers every call as the
map does, although it decodes and encodes a ring again at each append and although its store holds
tagged bytes only.

## Main definitions

* `MemoryValue`, `ReferenceMap` with `perform` and `machine`.
* `Memory.Represents`: the memory stores the encodings of the map's values.

## Main results

* `Memory.Represents.step`: a call keeps the representation and returns the same.
* `Memory.run_refines`: every run does.
-/

namespace BeamAgents

open Containers Transition

/-- What a key holds. -/
inductive MemoryValue
  | scalar (value : Bytes)
  | queue (items : List Bytes)
  deriving DecidableEq

/-- The bytes that store a value. -/
def MemoryValue.encoded : MemoryValue → Bytes
  | .scalar value => encodeScalar value
  | .queue items => ringBytes items

/-- The newest items. -/
def keepLast (n : ℕ) (items : List Bytes) : List Bytes := items.drop (items.length - n)

instance (items : List Bytes) : Decidable (RingFits items) :=
  inferInstanceAs (Decidable (∀ item ∈ items, _))

/-- A map of scalars and queues. -/
abbrev ReferenceMap := Dict String MemoryValue

namespace ReferenceMap

/-- What the encoded values add up to. -/
def bytes (r : ReferenceMap) : ℕ := (r.items.map fun p => p.2.encoded.length).sum

/-- Store a value, unless that takes the map over the cap. -/
def store (r : ReferenceMap) (key : String) (value : MemoryValue) :
    ReferenceMap × Except String MemoryAnswer :=
  if bytes (r.set key value) ≤ hardCapBytes then (r.set key value, .ok .done)
  else (r, .error "MemoryOverflow")

/-- Append to a queue and keep its newest items. -/
def push (r : ReferenceMap) (key : String) (items : List Bytes) (item : Bytes) (maxItems : ℕ) :
    ReferenceMap × Except String MemoryAnswer :=
  let items := keepLast maxItems (items ++ [item])
  if RingFits items then store r key (.queue items) else (r, .error "OverflowError")

/-- Perform a call; a refusal is the name of its exception. -/
def perform (r : ReferenceMap) : MemoryOp → ReferenceMap × Except String MemoryAnswer
  | .get key =>
    match r.get? key with
    | none => (r, .ok (.scalar none))
    | some (.scalar value) => (r, .ok (.scalar (some value)))
    | some (.queue _) => (r, .error "TypeError")
  | .ring key =>
    match r.get? key with
    | none => (r, .ok (.items []))
    | some (.scalar _) => (r, .error "TypeError")
    | some (.queue items) => (r, .ok (.items items))
  | .write (.set key value) => store r key (.scalar value)
  | .write (.append key item maxItems) =>
    match r.get? key with
    | none => push r key [] item maxItems.toNat
    | some (.scalar _) => (r, .error "TypeError")
    | some (.queue items) => push r key items item maxItems.toNat
  | .delete key => (r.erase key, .ok .done)
  | .reload _ _ => (r, .ok .done)

/-- The map as a machine that logs each call with its answer. -/
def machine : Machine ReferenceMap MemoryOp (MemoryOp × Except String MemoryAnswer) where
  step r op r' log := r' = (perform r op).1 ∧ log = [(op, (perform r op).2)]

end ReferenceMap

/-- An answer with the name of the exception in place of the exception. -/
def classed {α : Type} (answer : Except PyExn α) : Except String α := answer.mapError PyExn.typeName

namespace Memory

/-- **The memory stores the map**: under each key the encoding of its value, with queues that can be
encoded, and the total counts the encodings. -/
structure Represents (m : Memory) (r : ReferenceMap) : Prop where
  find : ∀ key, (m.entries.get? key).map MemEntry.value = (r.get? key).map MemoryValue.encoded
  fits : ∀ {key items}, r.get? key = some (.queue items) → RingFits items
  total : m.total = ReferenceMap.bytes r

variable {py : PyLib} {m : Memory} {r : ReferenceMap} {key : String} {value : MemoryValue}

/-! ### What is found -/

theorem Represents.get?_none (h : m.Represents r) (hr : r.get? key = none) :
    m.entries.get? key = none := by
  have hfind := h.find key
  rw [hr] at hfind
  exact Option.map_eq_none_iff.mp hfind

theorem Represents.get?_some (h : m.Represents r) (hr : r.get? key = some value) :
    ∃ entry, m.entries.get? key = some entry ∧ entry.value = value.encoded := by
  have hfind := h.find key
  rw [hr] at hfind
  exact Option.map_eq_some_iff.mp hfind

theorem get?_touched (d : Dict String MemEntry) (key key' : String) (entry : MemEntry) :
    ((d.erase key).set key entry).get? key' = if key' = key then some entry else d.get? key' := by
  rw [Dict.get?_set, Dict.get?_erase]
  split_ifs <;> rfl

theorem Represents.touch (h : m.Represents r) {entry : MemEntry}
    (hget : m.entries.get? key = some entry) : (m.touch key entry).Represents r where
  find key' := by
    rw [Memory.touch, get?_touched, ← h.find key']
    split_ifs with hkey
    · rw [hkey, hget]
      rfl
    · rfl
  fits := h.fits
  total := h.total

/-! ### What is stored -/

theorem guardedWrite_none {compute : Memory → Except PyExn Bytes} {encoded : Bytes}
    (h : compute m = .ok encoded) :
    m.guardedWrite py none key compute =
      if m.prospectiveTotal key encoded ≤ hardCapBytes
      then ((m.commitEntry key encoded).settled none, none)
      else (m, some (memoryOverflow py key (m.prospectiveTotal key encoded))) := by
  have hsettled : ((m.commitEntry key encoded).maybeSoftCap none) =
      ((m.commitEntry key encoded).settled none, none) :=
    maybeSoftCap_eq none (m.commitEntry key encoded)
  simp only [guardedWrite, h, finishWrite, hsettled]

theorem Represents.bytes_set (h : m.Represents r) (key : String) (value : MemoryValue) :
    m.prospectiveTotal key value.encoded = ReferenceMap.bytes (r.set key value) := by
  have hsum := r.sum_set (fun p => p.2.encoded.length) key value
  have hold : ((m.entries.get? key).map fun e => e.value.length).getD 0 =
      ((r.get? key).map fun w => w.encoded.length).getD 0 := by
    have hfind := congrArg (fun o : Option Bytes => (o.map List.length).getD 0) (h.find key)
    simpa only [Option.map_map, Function.comp_def] using hfind
  rw [prospectiveTotal, hold, h.total, ReferenceMap.bytes, ReferenceMap.bytes]
  simp only at hsum
  omega

/-- An admitted value is stored, in the memory and in the map. -/
theorem Represents.commitEntry (h : m.Represents r)
    (hfits : ∀ items, value = .queue items → RingFits items) :
    ((m.commitEntry key value.encoded).settled none).Represents (r.set key value) := by
  have hcommitted : (m.commitEntry key value.encoded).Represents (r.set key value) := by
    refine ⟨fun key' => ?_, fun {key' items} hget => ?_, h.bytes_set key value⟩
    · rw [Memory.commitEntry, get?_touched, Dict.get?_set]
      split_ifs
      · rfl
      · exact h.find key'
    · rw [Dict.get?_set] at hget
      split_ifs at hget
      · exact hfits items (Option.some.inj hget)
      · exact h.fits hget
  rw [settled]
  split_ifs
  · exact hcommitted
  · exact ⟨hcommitted.find, hcommitted.fits, hcommitted.total⟩

/-- A guarded write of a value that the map stores does what the map does. -/
theorem Represents.store (h : m.Represents r) {compute : Memory → Except PyExn Bytes}
    (hcompute : compute m = .ok value.encoded)
    (hfits : ∀ items, value = .queue items → RingFits items) :
    (answered (m.guardedWrite py none key compute)).1.Represents
        (ReferenceMap.store r key value).1 ∧
      classed (answered (m.guardedWrite py none key compute)).2 =
        (ReferenceMap.store r key value).2 := by
  rw [guardedWrite_none hcompute, h.bytes_set key value, ReferenceMap.store]
  split_ifs
  · exact ⟨h.commitEntry hfits, rfl⟩
  · exact ⟨h, rfl⟩

/-- An append to a queue that the map has, or to an absent key. -/
theorem Represents.push (h : m.Represents r) {items : List Bytes} {item : Bytes} {maxItems : Int}
    (happended : m.appended py key item maxItems =
      encodeRing py (keepLast maxItems.toNat (items ++ [item]))) :
    (answered (m.guardedWrite py none key fun m => m.appended py key item maxItems)).1.Represents
        (ReferenceMap.push r key items item maxItems.toNat).1 ∧
      classed (answered (m.guardedWrite py none key fun m => m.appended py key item maxItems)).2 =
        (ReferenceMap.push r key items item maxItems.toNat).2 := by
  rw [ReferenceMap.push]
  split_ifs with hfits
  · have hqueue : m.appended py key item maxItems =
        .ok (MemoryValue.queue (keepLast maxItems.toNat (items ++ [item]))).encoded :=
      happended.trans (encodeRing_of_fits hfits)
    exact h.store hqueue fun _ hq => MemoryValue.queue.inj hq ▸ hfits
  · rw [encodeRing_of_not_fits hfits] at happended
    rw [guardedWrite, happended]
    exact ⟨h, rfl⟩

/-- The slice of `append` keeps the newest items. -/
theorem encodeRing_keepLast (items : List Bytes) (maxItems : Int) :
    encodeRing py (if 0 < maxItems then items.drop (items.length - maxItems.toNat) else []) =
      encodeRing py (keepLast maxItems.toNat items) := by
  split_ifs with hpos
  · rfl
  · rw [keepLast, Int.toNat_of_nonpos (Int.not_lt.mp hpos), Nat.sub_zero, List.drop_length]

/-- The kind of a stored value is its first byte. -/
theorem checkKind_of_cons {entry : MemEntry} {tag kind : UInt8} {rest : Bytes} {message : String}
    (hvalue : entry.value = tag :: rest) :
    checkKind py entry kind message =
      if tag ≠ kind then .error (kindMismatch py message) else .ok () := by
  rw [checkKind, hvalue]
  rfl

theorem Represents.get (h : m.Represents r) (key : String) :
    (m.perform py none (.get key)).1.Represents (r.perform (.get key)).1 ∧
      classed (m.perform py none (.get key)).2 = (r.perform (.get key)).2 := by
  cases hr : r.get? key with
  | none =>
    have hget : m.get py key = (m, .ok none) := by rw [Memory.get, h.get?_none hr]
    simp only [perform, ReferenceMap.perform, hr, hget]
    exact ⟨h, rfl⟩
  | some value =>
    obtain ⟨entry, hentry, hvalue⟩ := h.get?_some hr
    cases value with
    | scalar value =>
      have hget : m.get py key = (m.touch key entry, .ok (some value)) := by
        simp only [Memory.get, hentry, checkKind_of_cons hvalue, hvalue]
        rfl
      simp only [perform, ReferenceMap.perform, hr, hget]
      exact ⟨h.touch hentry, rfl⟩
    | queue items =>
      have hget : m.get py key = (m, .error (kindMismatch py
          s!"key {py.reprStr key} holds a ring; use ring() instead of get()")) := by
        simp only [Memory.get, hentry, checkKind_of_cons hvalue]
        rfl
      simp only [perform, ReferenceMap.perform, hr, hget]
      exact ⟨h, rfl⟩

theorem Represents.ring (h : m.Represents r) (key : String) :
    (m.perform py none (.ring key)).1.Represents (r.perform (.ring key)).1 ∧
      classed (m.perform py none (.ring key)).2 = (r.perform (.ring key)).2 := by
  cases hr : r.get? key with
  | none =>
    have hring : m.ring py key = (m, .ok []) := by rw [Memory.ring, h.get?_none hr]
    simp only [perform, ReferenceMap.perform, hr, hring]
    exact ⟨h, rfl⟩
  | some value =>
    obtain ⟨entry, hentry, hvalue⟩ := h.get?_some hr
    cases value with
    | scalar value =>
      have hring : m.ring py key = (m, .error (kindMismatch py
          s!"key {py.reprStr key} holds a scalar; use get() instead of ring()")) := by
        simp only [Memory.ring, hentry, checkKind_of_cons hvalue]
        rfl
      simp only [perform, ReferenceMap.perform, hr, hring]
      exact ⟨h, rfl⟩
    | queue items =>
      have hdecode : decodeRing py entry.value = .ok items := by
        rw [hvalue]
        exact decodeRing_ringBytes (h.fits hr)
      have hring : m.ring py key = (m.touch key entry, .ok items) := by
        simp only [Memory.ring, hentry, checkKind_of_cons hvalue, hdecode]
        rfl
      simp only [perform, ReferenceMap.perform, hr, hring]
      exact ⟨h.touch hentry, rfl⟩

theorem Represents.append (h : m.Represents r) (key : String) (item : Bytes) (maxItems : Int) :
    (m.perform py none (.write (.append key item maxItems))).1.Represents
        (r.perform (.write (.append key item maxItems))).1 ∧
      classed (m.perform py none (.write (.append key item maxItems))).2 =
        (r.perform (.write (.append key item maxItems))).2 := by
  cases hr : r.get? key with
  | none =>
    have hget := h.get?_none hr
    have happended : m.appended py key item maxItems =
        encodeRing py (keepLast maxItems.toNat ([] ++ [item])) := by
      rw [appended, hget]
      exact encodeRing_keepLast _ _
    have happend : m.append py none key item maxItems =
        m.guardedWrite py none key fun m => m.appended py key item maxItems := by
      rw [Memory.append, hget]
    simp only [perform, performWrite, Option.map_none, ReferenceMap.perform, hr, happend]
    exact h.push happended
  | some value =>
    obtain ⟨entry, hentry, hvalue⟩ := h.get?_some hr
    cases value with
    | scalar value =>
      have happend : m.append py none key item maxItems = (m, some (kindMismatch py
          s!"key {py.reprStr key} holds a scalar; append() requires a ring")) := by
        simp only [Memory.append, hentry, checkKind_of_cons hvalue]
        rfl
      simp only [perform, performWrite, Option.map_none, ReferenceMap.perform, hr, happend]
      exact ⟨h, rfl⟩
    | queue items =>
      have hdecode : decodeRing py entry.value = .ok items := by
        rw [hvalue]
        exact decodeRing_ringBytes (h.fits hr)
      have happended : m.appended py key item maxItems =
          encodeRing py (keepLast maxItems.toNat (items ++ [item])) := by
        simp only [appended, hentry, hdecode]
        exact encodeRing_keepLast _ _
      have happend : m.append py none key item maxItems =
          m.guardedWrite py none key fun m => m.appended py key item maxItems := by
        simp only [Memory.append, hentry, checkKind_of_cons hvalue]
        rfl
      simp only [perform, performWrite, Option.map_none, ReferenceMap.perform, hr, happend]
      exact h.push happended

theorem Represents.delete (h : m.Represents r) (key : String) :
    (m.delete key).Represents (r.erase key) := by
  have hentries (key' : String) : ((m.delete key).entries.get? key').map MemEntry.value =
      ((r.erase key).get? key').map MemoryValue.encoded := by
    rw [Dict.get?_erase, Memory.delete]
    cases hget : m.entries.get? key with
    | none =>
      split_ifs with hkey
      · rw [hkey]
        exact congrArg (Option.map MemEntry.value) hget
      · exact h.find key'
    | some entry =>
      rw [Dict.get?_erase]
      split_ifs
      · rfl
      · exact h.find key'
  refine ⟨hentries, fun {key' items} hget => ?_, ?_⟩
  · rw [Dict.get?_erase] at hget
    split_ifs at hget
    exact h.fits hget
  · have hsum := r.sum_erase_add (fun p => p.2.encoded.length) key
    have htotal := h.total
    rw [ReferenceMap.bytes] at htotal ⊢
    cases hr : r.get? key with
    | none =>
      rw [Memory.delete, h.get?_none hr]
      rw [hr] at hsum
      simp only [Option.map_none, Option.getD_none] at hsum
      show m.total = _
      omega
    | some value =>
      obtain ⟨entry, hentry, hvalue⟩ := h.get?_some hr
      rw [Memory.delete, hentry]
      rw [hr] at hsum
      simp only [Option.map_some, Option.getD_some] at hsum
      simp only [hvalue]
      omega

theorem Represents.reload (h : m.Represents r) (haccounted : m.Accounted) (version : ℕ)
    (nowMs : Int) : (ofBlob (some (m.toBlob version)) nowMs).Represents r := by
  obtain ⟨hentries, htotal⟩ := m.ofBlob_toBlob version nowMs
  refine ⟨fun key => ?_, h.fits, ?_⟩
  · rw [hentries]
    exact h.find key
  · rw [htotal, ← haccounted]
    exact h.total

variable (py) in
/-- **A call keeps the representation, and returns what the map returns.** -/
theorem Represents.step (h : m.Represents r) (haccounted : m.Accounted) (op : MemoryOp) :
    (m.perform py none op).1.Represents (r.perform op).1 ∧
      classed (m.perform py none op).2 = (r.perform op).2 := by
  cases op with
  | get key => exact h.get key
  | ring key => exact h.ring key
  | write w =>
    cases w with
    | set key value =>
      have hscalar : (fun _ : Memory => (.ok (encodeScalar value) : Except PyExn Bytes)) m =
          .ok (MemoryValue.scalar value).encoded := rfl
      exact h.store hscalar nofun
    | append key item maxItems => exact h.append key item maxItems
  | delete key => exact ⟨h.delete key, rfl⟩
  | reload version nowMs => exact ⟨h.reload haccounted version nowMs, rfl⟩

/-! ### Runs -/

theorem represents_fresh (nowMs : Int) : (ofBlob none nowMs).Represents Dict.empty :=
  ⟨fun _ => rfl, nofun, rfl⟩

/-- **Every run answers as the map does.** -/
theorem run_represents {nowMs : Int} {ops : List MemoryOp}
    {log : List (MemoryOp × Except PyExn MemoryAnswer)}
    (h : (machine py none).Run (ofBlob none nowMs) ops log m) :
    ∃ r, ReferenceMap.machine.Run Dict.empty ops (log.map fun p => (p.1, classed p.2)) r ∧
      m.Represents r ∧ m.Accounted := by
  refine h.invariant (I := fun ops log m => ∃ r, ReferenceMap.machine.Run Dict.empty ops
    (log.map fun p => (p.1, classed p.2)) r ∧ m.Represents r ∧ m.Accounted) ?_ ?_
  · exact ⟨Dict.empty, .refl, represents_fresh nowMs, rfl⟩
  · rintro ops log m op m' _ - ⟨r, hrun, hrep, hacc⟩ ⟨hperform, rfl⟩
    obtain ⟨hrep', hanswer⟩ := hrep.step py hacc op
    obtain ⟨hacc', -⟩ := perform_kept py none hacc (Recent.keys m) op
    rw [hperform] at hrep' hacc'
    refine ⟨(r.perform op).1, ?_, hrep', hacc'⟩
    rw [List.map_append]
    exact hrun.tail ⟨rfl, by rw [List.map_singleton, hanswer]⟩

/-- **Working memory refines a map of scalars and bounded queues.** Without a compactor, every call
of a run from a fresh memory returns what the map returns, refusals included, and the memory stores
the map. The ring decoder gives back exactly the items that were encoded, and refuses every
beginning of an encoding that keeps the kind tag and is not the encoding of the first items. -/
theorem run_refines (py : PyLib) {nowMs : Int} {ops : List MemoryOp}
    {log : List (MemoryOp × Except PyExn MemoryAnswer)}
    (h : (machine py none).Run (ofBlob none nowMs) ops log m) :
    (∃ r, ReferenceMap.machine.Run Dict.empty ops (log.map fun p => (p.1, classed p.2)) r ∧
        m.Represents r) ∧
      (∀ items encoded, encodeRing py items = .ok encoded → decodeRing py encoded = .ok items) ∧
      ∀ items encoded cut, encodeRing py items = .ok encoded → cut <+: encoded → cut ≠ [] →
        (∀ n, encodeRing py (items.take n) ≠ .ok cut) →
        ∃ e, decodeRing py cut = .error e := by
  obtain ⟨r, hrun, hrep, -⟩ := run_represents h
  refine ⟨⟨r, hrun, hrep⟩, fun items encoded hencode => ?_,
    fun items encoded cut hencode hcut hne hboundary => ?_⟩
  · obtain ⟨hfits, rfl⟩ := encodeRing_eq_ok_iff.mp hencode
    exact decodeRing_ringBytes hfits
  · obtain ⟨hfits, rfl⟩ := encodeRing_eq_ok_iff.mp hencode
    have hread : (∃ n, cut = ringBytes (items.take n)) ∨
        ∃ c, decodeRing py cut = .error (truncatedRing py c) := decodeRing_of_prefix hfits hcut hne
    rcases hread with ⟨n, rfl⟩ | ⟨c, hrefused⟩
    · have htake : RingFits (items.take n) := fun item hitem =>
        hfits item (List.mem_of_mem_take hitem)
      exact absurd (encodeRing_of_fits htake) (hboundary n)
    · exact ⟨_, hrefused⟩

/-- An append, and a read of the wrong kind, on a fresh memory. -/
theorem run_refines_append : ∃ log m,
    (machine quotingPy none).Run (ofBlob none 7) [.write (.append "log" [1, 2] 3), .get "log"]
        log m ∧
      log.map (fun p => classed p.2) = [.ok .done, .error "TypeError"] ∧
      ∃ r, ReferenceMap.machine.Run Dict.empty [.write (.append "log" [1, 2] 3), .get "log"]
        (log.map fun p => (p.1, classed p.2)) r ∧ m.Represents r := by
  have hstep := run_perform quotingPy none
  have hrun := (hstep (ofBlob none 7) (.write (.append "log" [1, 2] 3))).append
    (hstep _ (.get "log"))
  exact ⟨_, _, hrun, rfl, (run_refines quotingPy hrun).1⟩

/-- The beginning of an encoding that has lost its kind tag as well is no encoding of the first
items, and yet it is decoded, to no items. -/
theorem decodeRing_untagged :
    encodeRing quotingPy [[5]] = .ok [1, 0, 0, 0, 1, 5] ∧ [] <+: ([1, 0, 0, 0, 1, 5] : Bytes) ∧
      (∀ n, encodeRing quotingPy ([[5]].take n) ≠ .ok []) ∧ decodeRing quotingPy [] = .ok [] := by
  refine ⟨rfl, List.nil_prefix, fun n hn => ?_, rfl⟩
  obtain ⟨-, hbytes⟩ := encodeRing_eq_ok_iff.mp hn
  cases hbytes

end Memory

end BeamAgents
