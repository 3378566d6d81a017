import BeamAgents.Lease.History
import Mathlib.Data.List.Induction
import Mathlib.Data.List.Pairwise

/-!
# The claim protocol

The history of the answers of a store of leased records, with the times at which they were given.
A claim is granted, found busy, or answered with a terminal value; the owner of a claim completes or
releases it, and anyone else is refused. Unlike in a history of marks, nothing is forgotten here: a
record that has expired is only overwritten by the next grant. The laws of the protocol are facts
about every history whose answers are each allowed by those before. What a terminal value reads as,
once it has been written, is a parameter.

## Main definitions

* `Lease.Event`, `Lease.Event.Allowed`, `Lease.Lawful`.

## Main results

* `Lease.Lawful.owner`: only the owner of a live claim completes or releases it.
* `Lease.Lawful.stale`: under tokens that are granted once, no token does so past its lease.
* `Lease.Lawful.separated`: what lies between two grants of one key.
* `Lease.Lawful.retained`: until it expires, a terminal value is what claims are answered with.
-/

namespace Lease

/-- An answer of the store, and when it was given. -/
inductive Event (κ τ β : Type*)
  | claimed (key : κ) (now : Int) (token : τ) (expiresAt : Int)
  | busy (key : κ) (now : Int)
  | found (key : κ) (now : Int) (value : β)
  | completed (key : κ) (now : Int) (token : τ) (value : β) (expiresAt : Int)
  | released (key : κ) (now : Int) (token : τ)
  | refused (key : κ) (now : Int) (token : τ)
  deriving DecidableEq, Repr

namespace Event

variable {κ τ β : Type*}

/-- When the answer was given. -/
@[simp] def now : Event κ τ β → Int
  | .claimed _ now .. | .busy _ now | .found _ now _ | .completed _ now .. | .released _ now _
  | .refused _ now _ => now

/-- The change behind the answer, if there is one. -/
def mark : Event κ τ β → Option (Mark κ τ β)
  | .claimed key _ token expiresAt => some (.granted key token expiresAt)
  | .completed key _ token value expiresAt => some (.completed key token value expiresAt)
  | .released key _ token => some (.released key token)
  | .busy .. | .found .. | .refused .. => none

/-- The token that the answer grants. -/
def grant : Event κ τ β → Option τ
  | .claimed _ _ token _ => some token
  | _ => none

/-- The answer to a claim on this key. -/
def AnswersClaim (key : κ) : Event κ τ β → Prop
  | .claimed key' .. | .busy key' _ | .found key' .. => key' = key
  | _ => False

/-- Whether the answer may be given when the records are `t`. A value that was written as `v` reads
as `reads v`. -/
def Allowed (reads : β → β) (t : Table κ τ β) : Event κ τ β → Prop
  | .claimed key now .. => ∀ entry ∈ t key, entry.expiresAt ≤ now
  | .busy key now => ∃ a e, t key = some (.held a e) ∧ now < e
  | .found key now value => ∃ v e, t key = some (.done v e) ∧ now < e ∧ value = reads v
  | .completed key now token .. => ∃ e, t key = some (.held token e) ∧ now < e
  | .released key now token => ∃ e, t key = some (.held token e) ∧ now < e
  | .refused key now token => ∀ e, t key = some (.held token e) → e ≤ now

/-- The answers that end a record. -/
inductive Ends (key : κ) : Entry τ β → Event κ τ β → Prop
  | claimed {entry now token e} (h : entry.expiresAt ≤ now) :
    Ends key entry (.claimed key now token e)
  | completed {a e now value e'} (h : now < e) :
      Ends key (.held a e) (.completed key now a value e')
  | released {a e now} (h : now < e) : Ends key (.held a e) (.released key now a)

end Event

section Histories

variable {κ τ β : Type*} [DecidableEq κ]

/-- The records after an answer. -/
def Table.after (t : Table κ τ β) (ev : Event κ τ β) : Table κ τ β :=
  match ev.mark with
  | some m => t.apply m
  | none => t

/-- The records that a history leaves, the expired ones among them. -/
def Table.afterAll (t : Table κ τ β) (evs : List (Event κ τ β)) : Table κ τ β :=
  evs.foldl Table.after t

/-- The histories of answers each of which is allowed by those before. -/
def Lawful (reads : β → β) (t : Table κ τ β) : List (Event κ τ β) → Prop
  | [] => True
  | ev :: evs => ev.Allowed reads t ∧ Lawful reads (t.after ev) evs

variable {reads : β → β} {t : Table κ τ β} {ev : Event κ τ β}
  {evs fvs pre mid post : List (Event κ τ β)} {k : κ} {entry : Entry τ β} {a b : τ} {v : β}
  {e e' u now now' : Int}

theorem Table.afterAll_append :
    t.afterAll (evs ++ fvs) = (t.afterAll evs).afterAll fvs := List.foldl_append

theorem lawful_append :
    Lawful reads t (evs ++ fvs) ↔ Lawful reads t evs ∧ Lawful reads (t.afterAll evs) fvs := by
  induction evs generalizing t with
  | nil => simp [Lawful, Table.afterAll]
  | cons ev evs ih => simp [Lawful, Table.afterAll, ih, and_assoc]

/-- An answer of a lawful history is allowed where it is given. -/
theorem Lawful.allowed (h : Lawful reads t (pre ++ ev :: post)) :
    ev.Allowed reads (t.afterAll pre) :=
  (lawful_append.mp h).2.1

/-- What follows an answer is lawful from the records that it leaves. -/
theorem Lawful.rest (h : Lawful reads t (pre ++ ev :: post)) :
    Lawful reads ((t.afterAll pre).after ev) post :=
  (lawful_append.mp h).2.2

/-- An answer leaves a record as it is, or ends it. -/
theorem Event.Allowed.keeps_or_ends (h : ev.Allowed reads t) (hk : t k = some entry) :
    t.after ev k = some entry ∨ ev.Ends k entry := by
  cases hmark : ev.mark with
  | none => exact .inl (by simpa only [Table.after, hmark] using hk)
  | some m =>
    by_cases hkey : m.key = k
    · subst hkey
      refine .inr ?_
      cases ev with
      | busy | found | refused => cases hmark
      | claimed key now token e =>
        cases hmark
        exact .claimed (h entry hk)
      | completed key now token value e =>
        cases hmark
        obtain ⟨e', he', hnow⟩ := h
        obtain rfl : Entry.held token e' = entry := Option.some.inj (he'.symm.trans hk)
        exact .completed hnow
      | released key now token =>
        cases hmark
        obtain ⟨e', he', hnow⟩ := h
        obtain rfl : Entry.held token e' = entry := Option.some.inj (he'.symm.trans hk)
        exact .released hnow
    · refine .inl ?_
      simp only [Table.after, hmark]
      exact (Table.apply_of_ne hkey).trans hk

/-- **A record stays until an answer ends it.** -/
theorem Lawful.keeps_or_ends (h : Lawful reads t evs) (hk : t k = some entry) :
    t.afterAll evs k = some entry ∨ ∃ pre ev post, evs = pre ++ ev :: post ∧ ev.Ends k entry := by
  induction evs generalizing t with
  | nil => exact .inl hk
  | cons ev evs ih =>
    rcases h.1.keeps_or_ends hk with hkept | hends
    · rcases ih h.2 hkept with hkept | ⟨pre, ev', post, rfl, hends⟩
      · exact .inl hkept
      · exact .inr ⟨ev :: pre, ev', post, rfl, hends⟩
    · exact .inr ⟨[], ev, evs, rfl, hends⟩

/-- A claim that stands was granted, and nothing has changed the record since. -/
theorem exists_claimed (hk : t.afterAll evs k = some (.held a e)) (hnone : t k = none) :
    ∃ pre now post, evs = pre ++ .claimed k now a e :: post ∧
      ∀ ev ∈ post, ∀ m ∈ ev.mark, m.key ≠ k := by
  induction evs using List.reverseRecOn with
  | nil => exact absurd (hk.symm.trans hnone) (by simp)
  | append_singleton evs ev ih =>
    rw [Table.afterAll_append] at hk
    have hlast : (t.afterAll evs).after ev k = some (.held a e) := hk
    have hkept (hafter : (t.afterAll evs).after ev k = t.afterAll evs k)
        (hmark : ∀ m ∈ ev.mark, m.key ≠ k) : ∃ pre now post,
        evs ++ [ev] = pre ++ .claimed k now a e :: post ∧ ∀ ev ∈ post, ∀ m ∈ ev.mark,
          m.key ≠ k := by
      obtain ⟨pre, now, post, rfl, hpost⟩ := ih (hafter ▸ hlast)
      refine ⟨pre, now, post ++ [ev], by simp, fun ev' hev' => ?_⟩
      rcases List.mem_append.mp hev' with hev' | hev'
      · exact hpost ev' hev'
      · rwa [List.mem_singleton.mp hev']
    cases hmark : ev.mark with
    | none => exact hkept (by simp only [Table.after, hmark]) (by simp [hmark])
    | some m =>
      by_cases hkey : m.key = k
      · simp only [Table.after, hmark] at hlast
        rw [← hkey, Table.apply_self] at hlast
        cases ev with
        | claimed key now token expiresAt =>
          cases hmark
          cases hlast
          exact ⟨evs, now, [], by rw [← hkey]; rfl, by simp⟩
        | completed | released => cases hmark; cases hlast
        | busy | found | refused => cases hmark
      · refine hkept ?_ fun m' hm' => ?_
        · simp only [Table.after, hmark]
          exact Table.apply_of_ne hkey
        · cases hmark.symm.trans hm'
          exact hkey

/-- No records. -/
def Table.empty : Table κ τ β := fun _ => none

/-- **Only the owner of a live claim completes or releases it**: its token was granted for the key
under a lease that has not expired, and nothing has been granted, completed or released for the key
since. -/
theorem Lawful.owner (h : Lawful reads Table.empty (pre ++ ev :: post))
    (hev : (∃ v u, ev = .completed k now a v u) ∨ ev = .released k now a) :
    ∃ older now₀ e since, pre = older ++ .claimed k now₀ a e :: since ∧ now < e ∧
      ∀ ev ∈ since, ∀ m ∈ ev.mark, m.key ≠ k := by
  have hheld : ∃ e, Table.empty.afterAll pre k = some (.held a e) ∧ now < e := by
    rcases hev with ⟨v, u, rfl⟩ | rfl <;> exact h.allowed
  obtain ⟨e, he, hnow⟩ := hheld
  obtain ⟨older, now₀, since, rfl, hsince⟩ := exists_claimed he rfl
  exact ⟨older, now₀, e, since, rfl, hnow, hsince⟩

/-- Every token is granted once. -/
def Fresh (evs : List (Event κ τ β)) : Prop :=
  evs.Pairwise fun ev ev' => ∀ a ∈ ev.grant, a ∉ ev'.grant

omit [DecidableEq κ] in
/-- Where tokens are granted once, two grants of a token are one. -/
theorem Fresh.grant_eq (h : Fresh evs) {ev' : Event κ τ β} (hev : ev ∈ evs) (hev' : ev' ∈ evs)
    (ha : a ∈ ev.grant) (ha' : a ∈ ev'.grant) : ev = ev' := by
  by_contra hne
  have : Std.Symm fun ev ev' : Event κ τ β => ∀ a ∈ ev.grant, a ∉ ev'.grant :=
    ⟨fun _ _ hR b hb hb' => hR b hb' hb⟩
  exact h.forall hev hev' hne a ha ha'

/-- **No token is used past its lease**, whether or not another claim was granted since: where
tokens are granted once, one that was granted until `e` completes or releases before `e` only, and
only under its own key. -/
theorem Lawful.stale (h : Lawful reads Table.empty evs) (hfresh : Fresh evs) {now₀ : Int}
    (hgrant : .claimed k now₀ a e ∈ evs) {k' : κ} (hev : ev ∈ evs)
    (hused : (∃ v u, ev = .completed k' now a v u) ∨ ev = .released k' now a) :
    k' = k ∧ now < e := by
  obtain ⟨pre, post, rfl⟩ := List.append_of_mem hev
  obtain ⟨older, now₁, e', since, rfl, hnow, -⟩ := h.owner hused
  have hone : Event.claimed k' now₁ a e' = .claimed k now₀ a e :=
    hfresh.grant_eq (by simp) hgrant rfl rfl
  cases hone
  exact ⟨rfl, hnow⟩

/-- A terminal value is overwritten after its expiry only. -/
theorem Lawful.done_ends (h : Lawful reads t (mid ++ .claimed k now b e' :: post))
    (hk : t k = some (.done v u)) :
    ∃ now' ∈ (mid.map Event.now) ++ [now], u ≤ now' := by
  rcases (lawful_append.mp h).1.keeps_or_ends hk with hkept | ⟨pre', ev, post', rfl, hends⟩
  · exact ⟨now, by simp, h.allowed _ hkept⟩
  · cases hends with
    | @claimed _ now' _ _ hexpired => exact ⟨now', by simp, hexpired⟩

/-- **Two grants of one key are separated**: by the release of the earlier claim, by the expiry of
its lease, or by the expiry of the terminal value that it was completed into. -/
theorem Lawful.separated
    (h : Lawful reads t (pre ++ .claimed k now a e :: (mid ++ .claimed k now' b e' :: post)))
    (hclock : ∀ ev ∈ mid, ev.now ≤ now') :
    (∃ now₁, .released k now₁ a ∈ mid) ∨ e ≤ now' ∨
      ∃ now₁ v u, .completed k now₁ a v u ∈ mid ∧ u ≤ now' := by
  have hrest := h.rest
  have hk : (t.afterAll pre).after (.claimed k now a e) k = some (.held a e) := Table.apply_self
  rcases (lawful_append.mp hrest).1.keeps_or_ends hk with hkept | ⟨pre', ev, post', rfl, hends⟩
  · exact .inr (.inl (hrest.allowed _ hkept))
  · cases hends with
    | @claimed _ now₁ c e₁ hexpired =>
      have hpast : now₁ ≤ now' := hclock (.claimed k now₁ c e₁) (by simp)
      exact .inr (.inl (Int.le_trans hexpired hpast))
    | @released _ _ now₁ hlive => exact .inl ⟨now₁, by simp⟩
    | @completed _ _ now₁ v u hlive =>
      rw [List.append_assoc, List.cons_append] at hrest
      obtain ⟨now₂, hnow₂, hexpired⟩ := hrest.rest.done_ends Table.apply_self
      refine .inr (.inr ⟨now₁, v, u, by simp, Int.le_trans hexpired ?_⟩)
      rcases List.mem_append.mp hnow₂ with hnow₂ | hnow₂
      · obtain ⟨ev, hev, rfl⟩ := List.mem_map.mp hnow₂
        exact hclock ev (by simp [hev])
      · exact Int.le_of_eq (List.mem_singleton.mp hnow₂)

/-- **Until it expires, a terminal value is what claims are answered with.** -/
theorem Lawful.retained
    (h : Lawful reads t (pre ++ .completed k now a v u :: (mid ++ ev :: post)))
    (hclaim : ev.AnswersClaim k) (hclock : ∀ ev' ∈ mid, ev'.now ≤ ev.now) (hlive : ev.now < u) :
    ev = .found k ev.now (reads v) := by
  have hrest := h.rest
  have hk : (t.afterAll pre).after (.completed k now a v u) k = some (.done v u) :=
    Table.apply_self
  have hkept : ((t.afterAll pre).after (.completed k now a v u)).afterAll mid k =
      some (.done v u) := by
    rcases (lawful_append.mp hrest).1.keeps_or_ends hk with hkept | ⟨pre', ev', post', rfl, hends⟩
    · exact hkept
    · cases hends with
      | @claimed _ now₁ b e₁ hexpired =>
        have hpast : now₁ ≤ ev.now := hclock (.claimed k now₁ b e₁) (by simp)
        have hexpired : u ≤ now₁ := hexpired
        omega
  have hallowed := hrest.allowed
  cases ev with
  | claimed key now₁ token e₁ =>
    obtain rfl : key = k := hclaim
    have hexpired : u ≤ now₁ := hallowed _ hkept
    exact absurd hlive (Int.not_lt.mpr hexpired)
  | busy key now₁ =>
    obtain rfl : key = k := hclaim
    obtain ⟨b, e₁, hheld, -⟩ := hallowed
    cases hkept.symm.trans hheld
  | found key now₁ value =>
    obtain rfl : key = k := hclaim
    obtain ⟨v', e₁, hdone, -, rfl⟩ := hallowed
    cases hkept.symm.trans hdone
    rfl
  | completed | released | refused => exact hclaim.elim

end Histories

end Lease
