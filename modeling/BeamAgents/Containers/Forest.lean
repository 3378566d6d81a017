import Mathlib.Data.List.Nodup
import Mathlib.Data.List.Basic

/-!
# Walking through a forest

Keys are roots or below other keys, each in one place at most; keys that are below each other in a
circle are in no tree. A walk visits the roots and, after each key, what is below it, with a stack
of what is still to be visited. It needs no set of visited keys: no key comes onto the stack twice.

## Main definitions

* `Containers.Forest`, `Containers.Forest.Rooted`.
* `Containers.Forest.Placed`: a key with the depth that its parent gives it.
* `Containers.Forest.Walk`: what has been visited, and what is on the stack.

## Main results

* `Containers.Forest.Walk.visit`: a visit keeps the invariant.
* `Containers.Forest.Walk.mem_iff_rooted`: when the stack is empty, the rooted keys have been
  visited.
-/

namespace Containers

/-- The roots, and what is directly below each key. -/
structure Forest (κ : Type*) where
  roots : List κ
  below : κ → List κ
  nodup_roots : roots.Nodup
  nodup_below : ∀ p, (below p).Nodup
  below_inj : ∀ {c p q}, c ∈ below p → c ∈ below q → p = q
  not_below : ∀ {c p}, c ∈ below p → c ∉ roots

namespace Forest

variable {κ : Type*} (F : Forest κ)

/-- A key that is a root or below a rooted key. -/
inductive Rooted : κ → Prop
  | root {c : κ} (h : c ∈ F.roots) : Rooted c
  | under {c p : κ} (hp : Rooted p) (h : c ∈ F.below p) : Rooted c

/-- A root at depth zero, or a key one deeper than its parent, which is among those before it. -/
def Placed (before : List (κ × ℕ)) (x : κ × ℕ) : Prop :=
  (x.1 ∈ F.roots ∧ x.2 = 0) ∨ ∃ p ∈ before, x.1 ∈ F.below p.1 ∧ x.2 = p.2 + 1

/-- What has been visited, in order and with its depth, and what is on the stack, its top first. -/
structure Walk (done stack : List (κ × ℕ)) : Prop where
  nodup : ((done ++ stack).map Prod.fst).Nodup
  placed : ∀ before x after, done = before ++ x :: after → F.Placed before x
  pending : ∀ x ∈ stack, F.Placed done x
  roots : ∀ c ∈ F.roots, c ∈ (done ++ stack).map Prod.fst
  below : ∀ p ∈ done, ∀ c ∈ F.below p.1, c ∈ (done ++ stack).map Prod.fst

variable {F}

theorem Placed.mono {before more : List (κ × ℕ)} {x : κ × ℕ} (h : F.Placed before x)
    (hsub : before ⊆ more) : F.Placed more x :=
  h.imp id fun ⟨p, hp, hbelow, hdepth⟩ => ⟨p, hsub hp, hbelow, hdepth⟩

/-- The walk starts with the roots. -/
theorem Walk.start : F.Walk [] (F.roots.map fun c => (c, 0)) where
  nodup := by
    have hkeys : (([] ++ F.roots.map fun c => (c, 0)).map Prod.fst) = F.roots := by
      rw [List.nil_append, List.map_map]
      exact List.map_id _
    rw [hkeys]
    exact F.nodup_roots
  placed before x after h := absurd h (by simp)
  pending x hx := by
    obtain ⟨c, hc, rfl⟩ := List.mem_map.mp hx
    exact .inl ⟨hc, rfl⟩
  roots c hc := List.mem_map.mpr ⟨(c, 0), List.mem_map.mpr ⟨c, hc, rfl⟩, rfl⟩
  below p hp := absurd hp List.not_mem_nil

namespace Walk

variable {done stack : List (κ × ℕ)} {x : κ × ℕ}

/-- The top of the stack has not been visited. -/
theorem fresh (h : F.Walk done (x :: stack)) : x.1 ∉ done.map Prod.fst := by
  intro hx
  have hnodup := h.nodup
  rw [List.map_append] at hnodup
  exact List.disjoint_of_nodup_append hnodup hx List.mem_cons_self

/-- Whatever is visited or on the stack is in its place. -/
theorem placed_of_mem (h : F.Walk done stack) {y : κ × ℕ} (hy : y ∈ done ++ stack) :
    F.Placed done y := by
  rcases List.mem_append.mp hy with hy | hy
  · obtain ⟨before, after, rfl⟩ := List.append_of_mem hy
    exact (h.placed before y after rfl).mono (List.subset_append_left _ _)
  · exact h.pending y hy

/-- What is below the top of the stack is neither visited nor on the stack. -/
theorem below_fresh (h : F.Walk done (x :: stack)) {c : κ} (hc : c ∈ F.below x.1) :
    c ∉ (done ++ x :: stack).map Prod.fst := by
  intro hmem
  obtain ⟨y, hy, rfl⟩ := List.mem_map.mp hmem
  rcases h.placed_of_mem hy with ⟨hroot, -⟩ | ⟨p, hp, hbelow, -⟩
  · exact F.not_below hc hroot
  · refine h.fresh (List.mem_map.mpr ⟨p, hp, ?_⟩)
    exact F.below_inj hbelow hc

/-- **A visit keeps the invariant.** The top of the stack is visited, and what is below it comes
onto the stack. -/
theorem visit (h : F.Walk done (x :: stack)) :
    F.Walk (done ++ [x]) ((F.below x.1).map (fun c => (c, x.2 + 1)) ++ stack) := by
  have hkeys : ((F.below x.1).map fun c => (c, x.2 + 1)).map Prod.fst = F.below x.1 := by
    rw [List.map_map]
    exact List.map_id _
  have hmono {y : κ × ℕ} (hy : F.Placed done y) : F.Placed (done ++ [x]) y :=
    hy.mono (List.subset_append_left _ _)
  have hkept {c : κ} (hc : c ∈ (done ++ x :: stack).map Prod.fst) : c ∈ ((done ++ [x]) ++
      ((F.below x.1).map (fun c => (c, x.2 + 1)) ++ stack)).map Prod.fst := by
    simp only [List.map_append, List.map_cons, List.mem_append, List.mem_cons] at hc ⊢
    tauto
  refine ⟨?_, fun before y after heq => ?_, fun y hy => ?_, fun c hc => hkept (h.roots c hc),
    fun p hp c hc => ?_⟩
  · have hperm : (((done ++ [x]) ++ ((F.below x.1).map (fun c => (c, x.2 + 1)) ++ stack)).map
        Prod.fst).Perm (F.below x.1 ++ (done ++ x :: stack).map Prod.fst) := by
      simp only [List.map_append, hkeys, List.map_cons, List.map_nil]
      refine List.perm_append_comm_assoc _ _ _ |>.trans (List.Perm.append_left _ ?_)
      simp
    exact hperm.nodup_iff.mpr (List.nodup_append.mpr ⟨F.nodup_below _, h.nodup,
      fun c hc c' hc' heq => h.below_fresh hc (heq ▸ hc')⟩)
  · rcases List.eq_nil_or_concat after with rfl | ⟨after, z, rfl⟩
    · obtain ⟨rfl, hlast⟩ := List.append_inj' heq rfl
      obtain rfl := List.singleton_inj.mp hlast
      exact h.pending x List.mem_cons_self
    · rw [List.concat_eq_append, ← List.cons_append, ← List.append_assoc] at heq
      exact h.placed before y after (List.append_inj' heq rfl).1
  · rcases List.mem_append.mp hy with hy | hy
    · obtain ⟨c, hc, rfl⟩ := List.mem_map.mp hy
      exact .inr ⟨x, List.mem_append_right _ List.mem_cons_self, hc, rfl⟩
    · exact hmono (h.pending y (List.mem_cons_of_mem _ hy))
  · rcases List.mem_append.mp hp with hp | hp
    · exact hkept (h.below p hp c hc)
    · obtain rfl := List.mem_singleton.mp hp
      simp only [List.map_append, hkeys, List.mem_append]
      exact .inr (.inl hc)

/-- What is visited is rooted: the parent of a key is visited before it. -/
theorem rooted_of_split (h : F.Walk done stack) (before : List (κ × ℕ)) (y : κ × ℕ)
    (after : List (κ × ℕ)) (heq : done = before ++ y :: after) : F.Rooted y.1 := by
  rcases h.placed before y after heq with ⟨hroot, -⟩ | ⟨p, hp, hbelow, -⟩
  · exact .root hroot
  · obtain ⟨first, rest, hbefore⟩ := List.append_of_mem hp
    have hshorter : first.length < before.length := by
      rw [hbefore, List.length_append, List.length_cons]
      omega
    refine .under (rooted_of_split h first p (rest ++ y :: after) ?_) hbelow
    rw [heq, hbefore, List.append_assoc, List.cons_append]
termination_by before.length

/-- **The rooted keys are visited**, and no others. -/
theorem mem_iff_rooted (h : F.Walk done []) {c : κ} : c ∈ done.map Prod.fst ↔ F.Rooted c := by
  constructor
  · intro hc
    obtain ⟨y, hy, rfl⟩ := List.mem_map.mp hc
    obtain ⟨before, after, heq⟩ := List.append_of_mem hy
    exact h.rooted_of_split before y after heq
  · intro hc
    induction hc with
    | root hroot => simpa using h.roots _ hroot
    | under _ hbelow ih =>
      obtain ⟨p, hp, rfl⟩ := List.mem_map.mp ih
      simpa using h.below p hp _ hbelow

end Walk

end Forest

end Containers
