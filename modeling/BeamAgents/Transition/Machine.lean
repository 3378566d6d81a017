import Mathlib.Data.List.Basic
import Mathlib.Logic.Relation

/-!
# Labelled machines with outputs

A machine moves from state to state performing labelled actions, and every step emits a list of
outputs. A run is a finite sequence of steps with its labels and its outputs, both in order. The
facts here are the induction rules of runs: an invariant that may speak of the whole history, runs
whose steps all meet a condition, and simulations, which carry the outputs of one machine to
those of another.

## Main definitions

* `Transition.Machine`, `Transition.Machine.Run`, `Transition.Machine.Reachable`.
* `Transition.Machine.guarded`: the steps that meet a condition on the state before the step and
  the action.
* `Transition.Machine.restrict`: the steps that satisfy a property of the whole step.
* `Transition.Machine.logged`, `Transition.Machine.tracked`, `Transition.Machine.recorded`: the
  machine with its outputs so far, or with another history variable, as part of the state.
* `Transition.Machine.exec`: the runs of a step function.
* `Transition.Machine.Simulation`.

## Main results

* `Transition.Machine.Run.invariant`: what one step preserves, a run preserves.
* `Transition.Machine.Run.guarded_iff_restrict`: a condition that decides a property of each step
  decides it for all steps of a run.
* `Transition.Machine.Simulation.run`: a simulated run is a run, with the outputs translated.
-/

namespace Transition

/-- A machine: `step s a s' os` says that performing `a` in `s` may lead to `s'` and emits the
outputs `os`, in order. -/
structure Machine (σ α ω : Type*) where
  /-- The steps of the machine. -/
  step : σ → α → σ → List ω → Prop

namespace Machine

variable {σ α ω τ β ν : Type*}

/-- The finite runs from `s`: the actions performed, the outputs emitted and the state reached. -/
inductive Run (M : Machine σ α ω) (s : σ) : List α → List ω → σ → Prop
  | refl : M.Run s [] [] s
  | tail {as os t a u o} (h : M.Run s as os t) (hs : M.step t a u o) :
      M.Run s (as ++ [a]) (os ++ o) u

/-- A state is reachable when some run ends in it. -/
def Reachable (M : Machine σ α ω) (s t : σ) : Prop := ∃ as os, M.Run s as os t

/-- The machine that takes only the steps whose action meets `C` in the state before it. -/
def guarded (M : Machine σ α ω) (C : σ → α → Prop) : Machine σ α ω where
  step s a s' os := C s a ∧ M.step s a s' os

/-- The machine that takes only the steps that satisfy `P`. -/
def restrict (M : Machine σ α ω) (P : σ → α → σ → List ω → Prop) : Machine σ α ω where
  step s a s' os := P s a s' os ∧ M.step s a s' os

variable {M : Machine σ α ω} {s t u : σ} {as bs : List α} {os ps : List ω}

/-- **Invariants over runs.** A property of the history and the state that holds of the empty run
and is kept by every step holds of every run. -/
theorem Run.invariant {I : List α → List ω → σ → Prop} (h : M.Run s as os t) (h₀ : I [] [] s)
    (hstep : ∀ {as os t a u o}, M.Run s as os t → I as os t → M.step t a u o →
      I (as ++ [a]) (os ++ o) u) : I as os t := by
  induction h with
  | refl => exact h₀
  | tail h hs ih => exact hstep h ih hs

/-- An invariant of the state alone. -/
theorem Run.stateInvariant {I : σ → Prop} (h : M.Run s as os t) (h₀ : I s)
    (hstep : ∀ {t a u o}, I t → M.step t a u o → I u) : I t :=
  h.invariant (I := fun _ _ t => I t) h₀ fun _ ih hs => hstep ih hs

theorem Run.single {a : α} (h : M.step s a t os) : M.Run s [a] os t := by
  simpa only [List.nil_append] using (Run.refl (M := M) (s := s)).tail h

theorem Run.append (h : M.Run s as os t) (h' : M.Run t bs ps u) :
    M.Run s (as ++ bs) (os ++ ps) u := by
  induction h' with
  | refl => simpa only [List.append_nil] using h
  | tail _ hs ih => simpa only [List.append_assoc] using ih.tail hs

/-- A run of steps that meet the condition is a run. -/
theorem Run.of_guarded {C : σ → α → Prop} (h : (M.guarded C).Run s as os t) : M.Run s as os t := by
  induction h with
  | refl => exact .refl
  | tail _ hs ih => exact ih.tail hs.2

/-- **Conditions on steps decide properties of runs.** Let `I` hold at the start and be kept by the
steps that satisfy `P`, and let the condition `C` on a state and an action decide, for every step
from a state with `I`, whether the step satisfies `P`. Then the runs whose steps all meet `C` are
the runs whose steps all satisfy `P`. -/
theorem Run.guarded_iff_restrict {I : σ → Prop} {C : σ → α → Prop}
    {P : σ → α → σ → List ω → Prop} (h₀ : I s)
    (hI : ∀ {t a u o}, I t → P t a u o → M.step t a u o → I u)
    (hC : ∀ {t a u o}, I t → M.step t a u o → (C t a ↔ P t a u o)) :
    (M.guarded C).Run s as os t ↔ (M.restrict P).Run s as os t := by
  have hinv {as : List α} {os : List ω} {t : σ} (h : (M.restrict P).Run s as os t) : I t :=
    h.stateInvariant h₀ fun ht hs => hI ht hs.1 hs.2
  constructor
  · intro h
    induction h with
    | refl => exact .refl
    | tail _ hs ih => exact ih.tail ⟨(hC (hinv ih) hs.2).mp hs.1, hs.2⟩
  · intro h
    induction h with
    | refl => exact .refl
    | tail h hs ih => exact ih.tail ⟨(hC (hinv h) hs.2).mpr hs.1, hs.2⟩

/-- **A condition on steps that is enough.** Let `I` hold at the start and be kept by the steps that
meet `C`, and let these steps satisfy `P` where `I` holds. Then the runs whose steps all meet `C`
are runs whose steps all satisfy `P`. -/
theorem Run.restrict_of_guarded {I : σ → Prop} {C : σ → α → Prop} {P : σ → α → σ → List ω → Prop}
    (h : (M.guarded C).Run s as os t) (h₀ : I s)
    (hI : ∀ {t a u o}, I t → C t a → M.step t a u o → I u)
    (hC : ∀ {t a u o}, I t → C t a → M.step t a u o → P t a u o) :
    (M.restrict P).Run s as os t := by
  induction h with
  | refl => exact .refl
  | @tail as os t a u o h hs ih =>
    have ht : I t := h.stateInvariant h₀ fun ht hs => hI ht hs.1 hs.2
    exact ih.tail ⟨hC ht hs.1 hs.2, hs.2⟩

/-- The machine with a history variable: what it has output so far is part of the state, so that
conditions on steps may speak of it. -/
def logged (M : Machine σ α ω) : Machine (σ × List ω) α ω where
  step x a y os := M.step x.1 a y.1 os ∧ y.2 = x.2 ++ os

/-- A run is a run with history. -/
theorem Run.logged (h : M.Run s as os t) : M.logged.Run (s, []) as os (t, os) := by
  induction h with
  | refl => exact .refl
  | tail _ hs ih => exact ih.tail ⟨hs, rfl⟩

/-- A run with history is a run, and the history grows by what it outputs. -/
theorem Run.of_logged {x y : σ × List ω} (h : M.logged.Run x as os y) :
    M.Run x.1 as os y.1 ∧ y.2 = x.2 ++ os := by
  induction h with
  | refl => exact ⟨.refl, by simp⟩
  | tail _ hs ih => exact ⟨ih.1.tail hs.1, by rw [hs.2, ih.2, List.append_assoc]⟩

/-- The machine with a history variable that each step updates by `f`, from the action it performs
and what it outputs. -/
def tracked (M : Machine σ α ω) (f : ν → α → List ω → ν) : Machine (σ × ν) α ω where
  step x a y os := M.step x.1 a y.1 os ∧ y.2 = f x.2 a os

/-- A history variable gets in the way of no run. -/
theorem Run.tracked {f : ν → α → List ω → ν} {n : ν} (h : M.Run s as os t) :
    ∃ m, (M.tracked f).Run (s, n) as os (t, m) := by
  induction h with
  | refl => exact ⟨n, .refl⟩
  | tail _ hs ih =>
    obtain ⟨m, hm⟩ := ih
    exact ⟨_, hm.tail ⟨hs, rfl⟩⟩

/-- The machine with a record: each step adds to it what `f` says of the state that the step finds
and the action it performs. -/
def recorded (M : Machine σ α ω) (f : σ → α → List ν) : Machine (σ × List ν) α ω where
  step x a y os := M.step x.1 a y.1 os ∧ y.2 = x.2 ++ f x.1 a

/-- Perform actions one after the other with a step function: the outputs and the state reached. -/
def exec (f : σ → α → Option (σ × List ω)) : σ → List α → Option (List ω × σ)
  | s, [] => some ([], s)
  | s, a :: as =>
    match f s a with
    | none => none
    | some (s', os) => (exec f s' as).map fun r => (os ++ r.1, r.2)

/-- What a step function performs is a run of a machine that has these steps. -/
theorem Run.of_exec {f : σ → α → Option (σ × List ω)}
    (hf : ∀ {s s' os}, ∀ a ∈ as, f s a = some (s', os) → M.step s a s' os)
    (h : exec f s as = some (os, t)) : M.Run s as os t := by
  induction as generalizing s os with
  | nil =>
    cases h
    exact .refl
  | cons a as ih =>
    simp only [exec] at h
    split at h
    · cases h
    · rename_i s' ps hstep
      obtain ⟨⟨qs, u⟩, hr, heq⟩ := Option.map_eq_some_iff.mp h
      cases heq
      have hfirst : M.Run s [a] ps s' := .single (hf a List.mem_cons_self hstep)
      exact hfirst.append (ih (fun b hb => hf b (List.mem_cons_of_mem a hb)) hr)

/-- A step function with the history as part of the state, for the actions that meet a condition. -/
def withHistory (f : σ → α → Option (σ × List ω)) (C : σ × List ω → α → Prop)
    [∀ x a, Decidable (C x a)] (x : σ × List ω) (a : α) : Option ((σ × List ω) × List ω) :=
  if C x a then (f x.1 a).map fun r => ((r.1, x.2 ++ r.2), r.2) else none

/-- What a step function performs under a condition is a run with history that meets it. -/
theorem Run.of_withHistory {f : σ → α → Option (σ × List ω)} {C : σ × List ω → α → Prop}
    [∀ x a, Decidable (C x a)] {x y : σ × List ω}
    (hf : ∀ {s s' os} a, f s a = some (s', os) → M.step s a s' os)
    (h : exec (withHistory f C) x as = some (os, y)) : (M.logged.guarded C).Run x as os y := by
  refine .of_exec (fun {z z' ps} a _ hstep => ?_) h
  unfold withHistory at hstep
  split_ifs at hstep with hC
  obtain ⟨⟨t, qs⟩, hperform, heq⟩ := Option.map_eq_some_iff.mp hstep
  cases heq
  exact ⟨hC, hf a hperform, rfl⟩

theorem Reachable.refl (s : σ) : M.Reachable s s := ⟨[], [], .refl⟩

theorem Reachable.tail {a : α} {o : List ω} (h : M.Reachable s t) (hs : M.step t a u o) :
    M.Reachable s u := by
  obtain ⟨as, os, h⟩ := h
  exact ⟨_, _, h.tail hs⟩

/-- Reachable states satisfy every inductive invariant. -/
theorem Reachable.invariant {I : σ → Prop} (h : M.Reachable s t) (h₀ : I s)
    (hstep : ∀ {t a u o}, I t → M.step t a u o → I u) : I t := by
  obtain ⟨as, os, h⟩ := h
  exact h.stateInvariant h₀ hstep

/-- **Lockstep.** Where each step of `M` is matched by a step of `A` with the same action and the
same outputs, each run is matched by such a run. -/
theorem Run.lockstep {A : Machine τ α ω} {R : σ → τ → Prop} {x : τ} (hR : R s x)
    (hstep : ∀ {t a u o x}, R t x → M.step t a u o → ∃ y, A.step x a y o ∧ R u y)
    (h : M.Run s as os t) : ∃ y, A.Run x as os y ∧ R t y := by
  induction h with
  | refl => exact ⟨x, .refl, hR⟩
  | tail _ hs ih =>
    obtain ⟨y, hrun, hy⟩ := ih
    obtain ⟨z, hz, hR'⟩ := hstep hy hs
    exact ⟨z, hrun.tail hz, hR'⟩

/-- `A` simulates `M` along `R` when each step of `M` is matched by a run of `A` that emits the
outputs of the step which `f` keeps. -/
structure Simulation (M : Machine σ α ω) (A : Machine τ β ν) (R : σ → τ → Prop)
    (f : ω → Option ν) : Prop where
  step : ∀ {s x a s' os}, R s x → M.step s a s' os →
    ∃ bs x', A.Run x bs (os.filterMap f) x' ∧ R s' x'

/-- **Simulations carry runs to runs**, and the outputs to the outputs that `f` keeps. -/
theorem Simulation.run {A : Machine τ β ν} {R : σ → τ → Prop} {f : ω → Option ν}
    (S : Simulation M A R f) {x : τ} (hR : R s x) (h : M.Run s as os t) :
    ∃ bs x', A.Run x bs (os.filterMap f) x' ∧ R t x' := by
  induction h with
  | refl => exact ⟨[], x, .refl, hR⟩
  | tail _ hs ih =>
    obtain ⟨bs, y, hrun, hy⟩ := ih
    obtain ⟨cs, z, hrun', hz⟩ := S.step hy hs
    refine ⟨bs ++ cs, z, ?_, hz⟩
    simpa only [List.filterMap_append] using hrun.append hrun'

end Machine

end Transition
