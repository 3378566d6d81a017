import Mathlib.Data.List.Basic
import Mathlib.Logic.Function.Basic
import Mathlib.Order.Basic

/-!
# Histories of leased records

A table holds, for each key, nothing, a claim under a token, or a terminal value; claims and values
have an expiry. The history of a table is the list of its changes: a claim is granted, completed
into a value or released, and an expired record is forgotten. What a table holds is determined by
its history, so that a fact about the order of the changes is a fact about one fold. The tokens,
the keys and the values are arbitrary, and so is the clock.

## Main definitions

* `Lease.Entry`, `Lease.Table`, `Lease.Mark`.
* `Lease.Valid`: the marks that can follow each other from a table.
* `Lease.Table.applyAll`: the table that a history leaves.

## Main results

* `Lease.Valid.keeps_or_ends`: an entry stays until a mark ends it.
* `Lease.Valid.grants_separated`: what lies between two grants of one key.
* `Lease.Valid.retained`: a terminal value stays until its expiry.
-/

namespace Lease

/-- A record: a claim under a token, or a terminal value, each until its expiry. -/
inductive Entry (τ β : Type*)
  | held (token : τ) (expiresAt : Int)
  | done (value : β) (expiresAt : Int)
  deriving DecidableEq, Repr

/-- When a record expires. -/
def Entry.expiresAt {τ β : Type*} : Entry τ β → Int
  | .held _ expiresAt => expiresAt
  | .done _ expiresAt => expiresAt

/-- A table of records. -/
abbrev Table (κ τ β : Type*) := κ → Option (Entry τ β)

/-- One change of a table. `forgot` drops an expired record, at a time. -/
inductive Mark (κ τ β : Type*)
  | granted (key : κ) (token : τ) (expiresAt : Int)
  | completed (key : κ) (token : τ) (value : β) (expiresAt : Int)
  | released (key : κ) (token : τ)
  | forgot (key : κ) (entry : Entry τ β) (now : Int)
  deriving DecidableEq, Repr

variable {κ τ β : Type*}

/-- The key that a mark is about. -/
@[simp] def Mark.key : Mark κ τ β → κ
  | .granted key .. => key
  | .completed key .. => key
  | .released key _ => key
  | .forgot key .. => key

/-- The record that a mark leaves under its key. -/
@[simp] def Mark.entry : Mark κ τ β → Option (Entry τ β)
  | .granted _ token expiresAt => some (.held token expiresAt)
  | .completed _ _ value expiresAt => some (.done value expiresAt)
  | .released .. | .forgot .. => none

/-- A mark is enabled in the tables in which the change can be made: a claim needs a key without a
record, its end needs the claim, and only an expired record is forgotten. -/
def Mark.Enabled (t : Table κ τ β) : Mark κ τ β → Prop
  | .granted key .. => t key = none
  | .completed key token .. => ∃ e, t key = some (.held token e)
  | .released key token => ∃ e, t key = some (.held token e)
  | .forgot key entry now => t key = some entry ∧ entry.expiresAt ≤ now

/-- The marks that end a record. -/
inductive Mark.Ends (key : κ) : Entry τ β → Mark κ τ β → Prop
  | completed {token e value e'} : Ends key (.held token e) (.completed key token value e')
  | released {token e} : Ends key (.held token e) (.released key token)
  | forgot {entry now} (h : entry.expiresAt ≤ now) : Ends key entry (.forgot key entry now)

variable [DecidableEq κ]

namespace Table

/-- The table after a change. -/
def apply (t : Table κ τ β) (m : Mark κ τ β) : Table κ τ β := Function.update t m.key m.entry

/-- The table after a history. -/
def applyAll (t : Table κ τ β) (ms : List (Mark κ τ β)) : Table κ τ β := ms.foldl apply t

variable {t : Table κ τ β} {m : Mark κ τ β} {ms ns : List (Mark κ τ β)} {k : κ}

@[simp] theorem applyAll_nil : t.applyAll [] = t := rfl

@[simp] theorem applyAll_cons : t.applyAll (m :: ms) = (t.apply m).applyAll ms := rfl

theorem applyAll_append : t.applyAll (ms ++ ns) = (t.applyAll ms).applyAll ns := List.foldl_append

@[simp] theorem apply_self : t.apply m m.key = m.entry := Function.update_self ..

theorem apply_of_ne (h : m.key ≠ k) : t.apply m k = t k := Function.update_of_ne (Ne.symm h) ..

end Table

/-- The histories of marks each of which is enabled when it is made. -/
def Valid (t : Table κ τ β) : List (Mark κ τ β) → Prop
  | [] => True
  | m :: ms => m.Enabled t ∧ Valid (t.apply m) ms

section Valid

variable {t : Table κ τ β} {m : Mark κ τ β} {ms ns pre mid post : List (Mark κ τ β)} {k : κ}
  {entry : Entry τ β} {a b : τ} {v : β} {e e' now : Int}

theorem Valid.nil : Valid t [] := trivial

theorem valid_append : Valid t (ms ++ ns) ↔ Valid t ms ∧ Valid (t.applyAll ms) ns := by
  induction ms generalizing t with
  | nil => simp [Valid]
  | cons m ms ih => simp [Valid, ih, and_assoc]

/-- A change either leaves a record as it is, or ends it. -/
theorem Mark.Enabled.keeps_or_ends (h : m.Enabled t) (hk : t k = some entry) :
    t.apply m k = some entry ∨ m.Ends k entry := by
  by_cases hkey : m.key = k
  · subst hkey
    refine .inr ?_
    cases m with
    | granted key token expiresAt =>
      have hnone : t key = none := h
      exact absurd (hnone.symm.trans hk) (by simp)
    | completed key token value expiresAt =>
      obtain ⟨e, he⟩ := h
      obtain rfl : Entry.held token e = entry := Option.some.inj (he.symm.trans hk)
      exact .completed
    | released key token =>
      obtain ⟨e, he⟩ := h
      obtain rfl : Entry.held token e = entry := Option.some.inj (he.symm.trans hk)
      exact .released
    | forgot key entry' now =>
      obtain ⟨he, hexpired⟩ := h
      obtain rfl : entry' = entry := Option.some.inj (he.symm.trans hk)
      exact .forgot hexpired
  · exact .inl ((Table.apply_of_ne hkey).trans hk)

/-- **A record stays until a mark ends it.** -/
theorem Valid.keeps_or_ends (h : Valid t ms) (hk : t k = some entry) :
    t.applyAll ms k = some entry ∨ ∃ pre m post, ms = pre ++ m :: post ∧ m.Ends k entry := by
  induction ms generalizing t with
  | nil => exact .inl hk
  | cons m ms ih =>
    rcases h.1.keeps_or_ends hk with hkept | hends
    · rcases ih h.2 hkept with hkept | ⟨pre, m', post, rfl, hends⟩
      · exact .inl hkept
      · exact .inr ⟨m :: pre, m', post, rfl, hends⟩
    · exact .inr ⟨[], m, ms, rfl, hends⟩

/-- A mark of a valid history is enabled where it is made. -/
theorem Valid.enabled (h : Valid t (pre ++ m :: post)) : m.Enabled (t.applyAll pre) :=
  (valid_append.mp h).2.1

/-- What follows a mark of a valid history is valid from the table that the mark leaves. -/
theorem Valid.after (h : Valid t (pre ++ m :: post)) :
    Valid ((t.applyAll pre).apply m) post :=
  (valid_append.mp h).2.2

/-- A completed claim is granted anew only after its value has been forgotten at its expiry. -/
theorem Valid.completed_granted
    (h : Valid t (pre ++ .completed k a v e :: (mid ++ .granted k b e' :: post))) :
    ∃ now, e ≤ now ∧ .forgot k (.done v e) now ∈ mid := by
  have hafter := h.after
  rcases (valid_append.mp hafter).1.keeps_or_ends Table.apply_self with
    hkept | ⟨_, m, _, rfl, hends⟩
  · have hnone : _ = none := hafter.enabled
    exact absurd (hkept.symm.trans hnone) (by simp)
  · cases hends with
    | forgot hexpired => exact ⟨_, hexpired, by simp⟩

/-- **Two grants of one key are separated**: by the release of the earlier claim, by its expiry, or
by the expiry of the terminal value that it was completed into. -/
theorem Valid.grants_separated
    (h : Valid t (pre ++ .granted k a e :: (mid ++ .granted k b e' :: post))) :
    .released k a ∈ mid ∨ (∃ now, e ≤ now ∧ .forgot k (.held a e) now ∈ mid) ∨
      ∃ v u now, .completed k a v u ∈ mid ∧ u ≤ now ∧ .forgot k (.done v u) now ∈ mid := by
  have hafter := h.after
  rcases (valid_append.mp hafter).1.keeps_or_ends Table.apply_self with
    hkept | ⟨pre', m, post', rfl, hends⟩
  · have hnone : _ = none := hafter.enabled
    exact absurd (hkept.symm.trans hnone) (by simp)
  · cases hends with
    | released => exact .inl (by simp)
    | forgot hexpired => exact .inr (.inl ⟨_, hexpired, by simp⟩)
    | @completed _ _ v u =>
      rw [List.append_assoc, List.cons_append] at hafter
      obtain ⟨now, hnow, hforgot⟩ := hafter.completed_granted
      refine .inr (.inr ⟨v, u, now, by simp, hnow, ?_⟩)
      exact List.mem_append_right _ (List.mem_cons_of_mem _ hforgot)

/-- **A terminal value is retained until its expiry**: a value written by a valid history, all of
which happens up to some time, is in the table at that time if it has not expired. -/
theorem Valid.retained (h : Valid t ms) (hmem : .completed k a v e ∈ ms)
    (hnow : ∀ k' entry now', .forgot k' entry now' ∈ ms → now' ≤ now) (hlive : now < e) :
    t.applyAll ms k = some (.done v e) := by
  obtain ⟨pre, post, rfl⟩ := List.append_of_mem hmem
  rw [Table.applyAll_append, Table.applyAll_cons]
  rcases h.after.keeps_or_ends Table.apply_self with hkept | ⟨_, m, _, rfl, hends⟩
  · exact hkept
  · cases hends with
    | @forgot _ now' hexpired =>
      have hexpired : e ≤ now' := hexpired
      have hpast : now' ≤ now := hnow k (.done v e) now' (by simp)
      omega

/-- A table that a history leaves holds what it held before or what a mark of the history wrote. -/
theorem applyAll_eq_some (hk : t.applyAll ms k = some entry) :
    t k = some entry ∨ ∃ m ∈ ms, m.key = k ∧ m.entry = some entry := by
  induction ms generalizing t with
  | nil => exact .inl hk
  | cons m ms ih =>
    rcases ih hk with hbefore | ⟨m', hm', hkey⟩
    · by_cases hkey : m.key = k
      · subst hkey
        exact .inr ⟨m, List.mem_cons_self, rfl, Table.apply_self.symm.trans hbefore⟩
      · exact .inl ((Table.apply_of_ne hkey).symm.trans hbefore)
    · exact .inr ⟨m', List.mem_cons_of_mem m hm', hkey⟩

/-- A terminal value that a history leaves was there before, or was written by it. -/
theorem applyAll_eq_done (hk : t.applyAll ms k = some (.done v e)) :
    t k = some (.done v e) ∨ ∃ a, .completed k a v e ∈ ms := by
  rcases applyAll_eq_some hk with hbefore | ⟨m, hm, hkey, hentry⟩
  · exact .inl hbefore
  · cases m with
    | completed key token value expiresAt =>
      cases hkey
      cases hentry
      exact .inr ⟨token, hm⟩
    | granted => cases hentry
    | released => cases hentry
    | forgot => cases hentry

/-- A claim that a history leaves was there before, or was granted by it. -/
theorem applyAll_eq_held (hk : t.applyAll ms k = some (.held a e)) :
    t k = some (.held a e) ∨ .granted k a e ∈ ms := by
  rcases applyAll_eq_some hk with hbefore | ⟨m, hm, hkey, hentry⟩
  · exact .inl hbefore
  · cases m with
    | granted key token expiresAt =>
      cases hkey
      cases hentry
      exact .inr hm
    | completed => cases hentry
    | released => cases hentry
    | forgot => cases hentry

/-- What is completed was granted. -/
theorem Valid.granted_of_completed (h : Valid t ms) (hmem : .completed k a v e ∈ ms)
    (hnone : t k = none) : ∃ e', .granted k a e' ∈ ms := by
  obtain ⟨pre, post, rfl⟩ := List.append_of_mem hmem
  obtain ⟨e', hheld⟩ := h.enabled
  rcases applyAll_eq_held hheld with hbefore | hgranted
  · cases hnone.symm.trans hbefore
  · exact ⟨e', List.mem_append_left _ hgranted⟩

end Valid

end Lease
