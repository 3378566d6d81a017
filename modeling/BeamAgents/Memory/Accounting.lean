import BeamAgents.Memory.Writes
import Mathlib.Data.List.Dedup

/-!
# Byte accounting and recency

The total that the facade keeps is the sum of the sizes of the stored values after every call,
whatever the calls, and the keys are in the order in which they were last used. The order is stated
against the history: the keys are a sublist of all the keys ever used, each at its last place.

## Main definitions

* `Memory.Accounted`: the total is the sum of the sizes.
* `Memory.Loaded`: a memory at the start of an activation.
* `Memory.accessed`: the key that a call uses.

## Main results

* `Memory.run_accounting`: accounting, recency, the cap and reloading, over every run.
-/

namespace BeamAgents

open Containers Transition

namespace Memory

/-- The sizes of the stored values, added up. -/
def contentBytes (m : Memory) : ℕ := (m.entries.items.map entryBytes).sum

/-- The total is what the stored values add up to. -/
def Accounted (m : Memory) : Prop := m.total = m.contentBytes

/-- A memory as an activation starts with it: fresh, or loaded from what a memory was written to. -/
def Loaded (m : Memory) : Prop :=
  ∃ nowMs, m = ofBlob none nowMs ∨
    ∃ (written : Memory) (version : ℕ), m = ofBlob (some (written.toBlob version)) nowMs

/-- The key that a call uses. A call that raises uses none. -/
def accessed : MemoryOp × Except PyExn MemoryAnswer → Option String
  | (.get key, .ok _) => some key
  | (.ring key, .ok _) => some key
  | (.write w, .ok _) => some w.key
  | _ => none

/-- Each key of a history at its last place, and no key that was not used. -/
def Recent (m : Memory) (history : List String) : Prop := m.keys.Sublist history.dedup

variable {py : PyLib} {compaction : Compaction} {m m' : Memory} {key : String}
  {history : List String}

/-! ### Accounting -/

theorem accounted_delete (h : m.Accounted) (key : String) : (m.delete key).Accounted := by
  rw [delete]
  cases hget : m.entries.get? key with
  | none => exact h
  | some entry =>
    have hsum := m.entries.sum_erase entryBytes (m.entries.get?_eq_some_iff.mp hget)
    have hentry : entryBytes (key, entry) = entry.value.length := rfl
    rw [Accounted, contentBytes] at h
    show m.total - entry.value.length = ((m.entries.erase key).items.map entryBytes).sum
    omega

theorem delete_sublist (m : Memory) (key : String) :
    (m.delete key).entries.items.Sublist m.entries.items := by
  rw [delete]
  cases m.entries.get? key with
  | none => exact List.Sublist.refl _
  | some entry => exact List.filter_sublist

theorem accounted_compacted (h : m.Accounted) : (m.compacted compaction).Accounted := by
  cases compaction with
  | none => exact h
  | some c =>
    have hloop (keys : List String) : (c.compactLoop keys m).Accounted := by
      induction keys generalizing m with
      | nil => exact h
      | cons key keys ih =>
        rw [DropOldestCompactor.compactLoop]
        split_ifs
        · exact h
        · exact ih h
        · exact ih (accounted_delete h key)
    exact hloop m.keys

theorem total_compacted_le (m : Memory) : (m.compacted compaction).total ≤ m.total := by
  cases compaction with
  | none => exact Nat.le_refl _
  | some c =>
    rw [compacted, DropOldestCompactor.total_compact]
    exact Nat.sub_le _ _

/-- What is stored under a key counts among the contents. -/
theorem contentBytes_erase (m : Memory) (key : String) :
    ((m.entries.erase key).items.map entryBytes).sum +
        ((m.entries.get? key).map fun e => e.value.length).getD 0 = m.contentBytes :=
  m.entries.sum_erase_add entryBytes key

theorem accounted_commitEntry (h : m.Accounted) (key : String) (encoded : Bytes) :
    (m.commitEntry key encoded).Accounted := by
  have hsum := m.contentBytes_erase key
  rw [Dict.items_erase] at hsum
  have hentry : entryBytes (key, ⟨encoded, m.nowMs⟩) = encoded.length := rfl
  have htotal : (m.commitEntry key encoded).total = m.prospectiveTotal key encoded := rfl
  rw [Accounted] at h
  rw [Accounted, htotal, contentBytes, commitEntry, Dict.items_touch, refresh, List.map_append,
    List.sum_append, List.map_singleton, List.sum_singleton, hentry, prospectiveTotal]
  omega

theorem accounted_touch (h : m.Accounted) {entry : MemEntry}
    (hget : m.entries.get? key = some entry) : (m.touch key entry).Accounted := by
  have hsum := m.contentBytes_erase key
  rw [Dict.items_erase, hget] at hsum
  have hentry (now : Int) : entryBytes (key, { entry with lastAccessMs := now }) =
      entry.value.length := rfl
  have htotal : (m.touch key entry).total = m.total := rfl
  rw [Accounted] at h
  rw [Accounted, htotal, contentBytes, touch, Dict.items_touch, refresh, List.map_append,
    List.sum_append, List.map_singleton, List.sum_singleton, hentry]
  simp only [Option.map_some, Option.getD_some] at hsum
  omega

theorem accounted_settled (h : m.Accounted) : (m.settled compaction).Accounted := by
  rw [settled]
  split_ifs
  · exact h
  · have hwarned : ({ m with softCapWarned := true } : Memory).Accounted := h
    exact accounted_compacted hwarned

theorem accounted_roomFor (h : m.Accounted) (key : String) (encoded : Bytes) :
    (m.roomFor compaction key encoded).Accounted := by
  rw [roomFor]
  split_ifs
  · exact h
  · exact accounted_compacted h

/-! ### Recency -/

theorem dedup_concat (l : List String) (key : String) :
    (l ++ [key]).dedup = (l.dedup.filter fun k => k ≠ key) ++ [key] := by
  induction l with
  | nil => rfl
  | cons a l ih =>
    by_cases ha : a ∈ l
    · rw [List.cons_append, List.dedup_cons_of_mem (List.mem_append_left _ ha), ih,
        List.dedup_cons_of_mem ha]
    · rw [List.dedup_cons_of_notMem ha]
      by_cases hak : a = key
      · subst hak
        rw [List.cons_append, List.dedup_cons_of_mem (by simp), ih,
          List.filter_cons_of_neg (by simp)]
      · rw [List.cons_append, List.dedup_cons_of_notMem (by simp [ha, hak]), ih,
          List.filter_cons_of_pos (by simpa using hak), List.cons_append]

/-- Entries may go without the order of the others being lost. -/
theorem Recent.mono (h : m.Recent history) (hm : m'.entries.items.Sublist m.entries.items) :
    m'.Recent history := (hm.map Prod.fst).trans h

/-- Using a key moves it to the end. -/
theorem Recent.refresh (h : m.Recent history) {entry : MemEntry}
    (hm : m'.entries.items = refresh m.entries.items key entry) : m'.Recent (history ++ [key]) := by
  have hkeys : m'.keys = (m.keys.filter fun k => k ≠ key) ++ [key] := by
    rw [keys, Dict.keys, hm, Containers.refresh, List.map_append, keys, Dict.keys, List.filter_map]
    rfl
  rw [Recent, hkeys, dedup_concat]
  exact (h.filter _).append (List.Sublist.refl _)

/-- A key that is not stored may be recorded. -/
theorem Recent.absent (h : m.Recent history) (hget : m.entries.get? key = none) :
    m.Recent (history ++ [key]) := by
  have hkeep : (m.keys.filter fun k => k ≠ key) = m.keys := by
    refine List.filter_eq_self.mpr fun k hk => decide_eq_true fun hkk => ?_
    obtain ⟨p, hp, rfl⟩ := List.mem_map.mp hk
    rw [m.entries.get?_eq_some_iff.mpr (hkk ▸ hp : (key, p.2) ∈ m.entries.items)] at hget
    cases hget
  rw [Recent, dedup_concat, ← hkeep]
  exact (h.filter _).trans (List.sublist_append_left _ _)

theorem settled_sublist (m : Memory) :
    (m.settled compaction).entries.items.Sublist m.entries.items := by
  rw [settled]
  split_ifs
  · exact List.Sublist.refl _
  · exact compacted_sublist _

theorem roomFor_sublist (m : Memory) (key : String) (encoded : Bytes) :
    (m.roomFor compaction key encoded).entries.items.Sublist m.entries.items := by
  rw [roomFor]
  split_ifs
  · exact List.Sublist.refl _
  · exact compacted_sublist _

theorem total_settled_le (m : Memory) : (m.settled compaction).total ≤ m.total := by
  rw [settled]
  split_ifs
  · exact Nat.le_refl _
  · have hle : (({ m with softCapWarned := true } : Memory).compacted compaction).total ≤ m.total :=
      total_compacted_le _
    exact hle

/-! ### Calls -/

/-- What was written to a blob is loaded as it is, and added up again. -/
theorem ofBlob_toBlob (m : Memory) (version : ℕ) (nowMs : Int) :
    (ofBlob (some (m.toBlob version)) nowMs).entries = m.entries ∧
      (ofBlob (some (m.toBlob version)) nowMs).total = m.contentBytes := by
  have hpairs : ((m.toBlob version).entries.map fun e => (e.key, (⟨e.value, e.lastAccessMs⟩ :
      MemEntry))) = m.entries.items := by
    rw [toBlob, List.map_map]
    exact List.map_id _
  refine ⟨?_, ?_⟩
  · show Dict.ofList ((m.toBlob version).entries.map _) = m.entries
    rw [hpairs]
    exact Dict.ext (Dict.items_ofList m.entries.nodup)
  · show (((m.toBlob version).entries.map fun e => e.value.length)).sum = m.contentBytes
    rw [toBlob, List.map_map]
    rfl

/-- A guarded write keeps the accounts, uses its key when it is admitted, and is admitted only
within the cap. -/
theorem Written.kept {compute : Memory → Except PyExn Bytes} {r : Memory × Option PyExn}
    (hw : m.Written py compaction key compute r) (haccounted : m.Accounted)
    (hrecent : m.Recent history) :
    r.1.Accounted ∧ r.1.Recent (history ++ if r.2 = none then [key] else []) ∧
      (r.2 = none → r.1.total ≤ hardCapBytes) := by
  cases hw with
  | admitted first encoded hfirst hencoded hfits =>
    refine ⟨accounted_settled (accounted_commitEntry (accounted_roomFor haccounted key first) _ _),
      ?_, fun _ => (total_settled_le _).trans hfits⟩
    have hcommitted : ((m.roomFor compaction key first).commitEntry key encoded).Recent
        (history ++ [key]) :=
      (hrecent.mono (roomFor_sublist m key first)).refresh (Dict.items_touch _ _ _)
    exact hcommitted.mono (settled_sublist _)
  | refused first encoded hfirst hfull hencoded hstill =>
    exact ⟨accounted_compacted haccounted, by simpa using hrecent.mono (compacted_sublist m), nofun⟩
  | failed e h => exact ⟨haccounted, by simpa using hrecent, nofun⟩
  | failedAgain first e hfirst hfull h =>
    exact ⟨accounted_compacted haccounted, by simpa using hrecent.mono (compacted_sublist m), nofun⟩

variable (py compaction) in
/-- A write keeps the accounts, whether it is admitted or raises. -/
theorem performWrite_kept (haccounted : m.Accounted) (hrecent : m.Recent history)
    (w : MemoryWrite) :
    (m.performWrite py compaction w).1.Accounted ∧
      (m.performWrite py compaction w).1.Recent
        (history ++ if (m.performWrite py compaction w).2 = none then [w.key] else []) ∧
      ((m.performWrite py compaction w).2 = none →
        (m.performWrite py compaction w).1.total ≤ hardCapBytes) := by
  rcases performWrite_written m w with ⟨e, hraised, -⟩ | hwritten
  · rw [hraised]
    exact ⟨haccounted, by simpa using hrecent, nofun⟩
  · exact hwritten.kept haccounted hrecent

/-- A read keeps the accounts, and uses its key when it returns. -/
theorem Read.kept {α : Type} {r : Memory × Except PyExn α} (hr : m.Read key r)
    (haccounted : m.Accounted) (hrecent : m.Recent history) :
    r.1.Accounted ∧ r.1.Recent (history ++ if r.2.isOk then [key] else []) := by
  cases hr with
  | failed e => exact ⟨haccounted, by simpa [Except.isOk, Except.toBool] using hrecent⟩
  | absent h a => exact ⟨haccounted, hrecent.absent h⟩
  | used entry h a => exact ⟨accounted_touch haccounted h, hrecent.refresh (Dict.items_touch _ _ _)⟩

variable (py compaction) in
/-- **A call keeps the accounts and the recency.** -/
theorem perform_kept (haccounted : m.Accounted) (hrecent : m.Recent history) (op : MemoryOp) :
    (m.perform py compaction op).1.Accounted ∧
      (m.perform py compaction op).1.Recent
        (history ++ (accessed (op, (m.perform py compaction op).2)).toList) := by
  have hread {α : Type} (f : α → MemoryAnswer) (r : Memory × Except PyExn α) (key : String)
      (hr : m.Read key r)
      (haccessed : accessed (op, r.2.map f) = if r.2.isOk then some key else none) :
      r.1.Accounted ∧ r.1.Recent (history ++ (accessed (op, r.2.map f)).toList) := by
    obtain ⟨hacc, hrec⟩ := hr.kept haccounted hrecent
    refine ⟨hacc, ?_⟩
    rw [haccessed]
    split_ifs at hrec ⊢ <;> exact hrec
  cases op with
  | get key =>
    obtain ⟨hacc, hrec⟩ := hread .scalar (m.get py key) key (get_read m key)
      (by cases (m.get py key).2 <;> rfl)
    exact ⟨hacc, hrec⟩
  | ring key =>
    obtain ⟨hacc, hrec⟩ := hread .items (m.ring py key) key (ring_read m key)
      (by cases (m.ring py key).2 <;> rfl)
    exact ⟨hacc, hrec⟩
  | write w =>
    obtain ⟨hacc, hrec, -⟩ := performWrite_kept py compaction haccounted hrecent w
    refine ⟨hacc, ?_⟩
    simp only [perform, answered]
    cases hraised : (m.performWrite py compaction w).2 <;> simpa [hraised, accessed] using hrec
  | delete key =>
    refine ⟨accounted_delete haccounted key, ?_⟩
    simpa [accessed, perform] using hrecent.mono (delete_sublist m key)
  | reload version nowMs =>
    obtain ⟨hentries, htotal⟩ := m.ofBlob_toBlob version nowMs
    refine ⟨?_, ?_⟩
    · show (ofBlob (some (m.toBlob version)) nowMs).Accounted
      rw [Accounted, htotal, contentBytes, contentBytes, hentries]
    · have hitems : (m.perform py compaction (.reload version nowMs)).1.entries.items =
          m.entries.items := congrArg Dict.items hentries
      simpa [accessed] using hrecent.mono (hitems ▸ List.Sublist.refl _)

/-! ### Runs -/

theorem accounted_ofBlob_none (nowMs : Int) : (ofBlob none nowMs).Accounted := rfl

theorem Loaded.accounted (h : m.Loaded) : m.Accounted := by
  obtain ⟨nowMs, rfl | ⟨written, version, rfl⟩⟩ := h
  · exact accounted_ofBlob_none nowMs
  · obtain ⟨hentries, htotal⟩ := written.ofBlob_toBlob version nowMs
    rw [Accounted, htotal, contentBytes, contentBytes, hentries]

theorem filterMap_singleton {α β : Type} (f : α → Option β) (a : α) :
    [a].filterMap f = (f a).toList := by
  cases h : f a <;> simp [h]

theorem Recent.keys (m : Memory) : m.Recent m.keys := by
  have hnodup : m.keys.Nodup := m.entries.nodup
  rw [Recent, hnodup.dedup]

/-- **Byte accounting and representation.** After any calls on a memory that an activation starts
with, raising ones included, the total is the sum of the sizes of the stored values and what
`to_blob` writes; the keys are different and in the order in which they were last used; an admitted
write leaves the total within the hard cap; and loading the blob gives the same entries in the same
order, with the same total. -/
theorem run_accounting (py : PyLib) (compaction : Compaction) {start : Memory}
    {ops : List MemoryOp} {log : List (MemoryOp × Except PyExn MemoryAnswer)}
    (hstart : start.Loaded) (h : (machine py compaction).Run start ops log m) :
    m.total = m.contentBytes ∧
      (∀ version, (m.toBlob version).totalValueBytes = m.contentBytes) ∧
      m.keys.Nodup ∧
      m.keys.Sublist (start.keys ++ log.filterMap accessed).dedup ∧
      (∀ w m', m.performWrite py compaction w = (m', none) → m'.total ≤ hardCapBytes) ∧
      ∀ version nowMs, (ofBlob (some (m.toBlob version)) nowMs).entries = m.entries ∧
        (ofBlob (some (m.toBlob version)) nowMs).total = m.total := by
  have hkept : m.Accounted ∧ m.Recent (start.keys ++ log.filterMap accessed) := by
    refine h.invariant (I := fun _ log m =>
      m.Accounted ∧ m.Recent (start.keys ++ log.filterMap accessed)) ?_ ?_
    · exact ⟨hstart.accounted, by simpa using Recent.keys start⟩
    · rintro as log m op m' _ - ⟨hacc, hrec⟩ ⟨hperform, rfl⟩
      obtain ⟨hacc', hrec'⟩ := perform_kept py compaction hacc hrec op
      rw [hperform] at hacc' hrec'
      refine ⟨hacc', ?_⟩
      rw [List.filterMap_append, ← List.append_assoc, filterMap_singleton]
      exact hrec'
  obtain ⟨hacc, hrec⟩ := hkept
  refine ⟨hacc, fun _ => hacc, m.entries.nodup, hrec, fun w m' hw => ?_, fun version nowMs => ?_⟩
  · obtain ⟨-, -, hcap⟩ := performWrite_kept py compaction hacc hrec w
    rw [hw] at hcap
    exact hcap rfl
  · obtain ⟨hentries, htotal⟩ := m.ofBlob_toBlob version nowMs
    exact ⟨hentries, htotal.trans hacc.symm⟩

/-- Two appends to a fresh memory, the second of which moves the ring behind the scalar. -/
theorem run_accounting_ring : ∃ log m,
    (machine quotingPy (some .ofDefaults)).Run (ofBlob none 7)
        [.write (.append "log" [1, 2] 3), .write (.set "a" [9]), .ring "log"] log m ∧
      m.total = 9 ∧ m.keys = ["a", "log"] ∧
      m.keys.Sublist (([] : List String) ++ log.filterMap accessed).dedup ∧
      log.filterMap accessed = ["log", "a", "log"] := by
  have hstep := run_perform quotingPy (some .ofDefaults)
  have hrun := ((hstep (ofBlob none 7) (.write (.append "log" [1, 2] 3))).append
    (hstep _ (.write (.set "a" [9])))).append (hstep _ (.ring "log"))
  have hkept := run_accounting quotingPy (some .ofDefaults) ⟨7, .inl rfl⟩ hrun
  exact ⟨_, _, hrun, rfl, rfl, hkept.2.2.2.1, rfl⟩

end Memory

end BeamAgents
