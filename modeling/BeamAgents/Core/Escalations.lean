import BeamAgents.Core.Suspensions

/-!
# Escalation is bounded

A suspension is escalated at most `max_escalations` times: the continuation counts its escalations,
a commit stores it with the count `0`, and a policy that escalates past the bound, or raises, ends
the wait. A fire before the deadline does nothing. Each escalation rewrites the deadline; it is
later than the one it replaces exactly when the policy asks for more time than the fire was late,
which nothing in the transform checks.

## Main definitions

* `AgentDoFn.counted`: the transform with the number of escalations since the last commit.
* `AgentDoFn.Bounded`: what the law asks of a step.
* `AgentDoFn.EscalatesBack`: a due escalation that does not move the deadline to a later time.

## Main results

* `AgentDoFn.run_bounded_iff`.
-/

namespace BeamAgents

open Transition

/-- An output that ends a wait: the bytes of a `Deny`, or the record of a `Drop`. -/
def Output.ends : Output → Bool
  | .main _ | .errors _ => true
  | _ => false

namespace AgentDoFn

/-! ### The law -/

/-- What the policy is asked about a suspension that timed out. -/
def fallback (key : Bytes) (cont : Continuation) (firedAtMs : Int) : FallbackContext where
  entityKey := key
  seq := cont.seq
  snapshot := cont.snapshot
  kind := "timer"
  deadlineMs := cont.deadlineMs
  firedAtMs := firedAtMs
  pendingIntentIds := cont.pendingIntentIds

/-- The number of intents emitted since the last commit: a commit starts the count again. -/
def countEscalations (n : ℕ) (_ : KeyCall) (os : List Effect) : ℕ :=
  if activationsOf os = 0 then n + (intentsOf os).length else 0

/-- The transform with the number of escalations since the last commit. -/
def counted (d : AgentDoFn) (py : PyLib) (key : Bytes) : Machine (KeyState × ℕ) KeyCall Effect :=
  (d.machine py key).tracked countEscalations

/-- What the law asks of a step. -/
structure Bounded (d : AgentDoFn) (key : Bytes) (x : KeyState × ℕ) (c : KeyCall)
    (y : KeyState × ℕ) (os : List Effect) : Prop where
  /-- No more than `max_escalations` since the last commit. -/
  count : y.2 ≤ d.policy.maxEscalations
  /-- A fire before the deadline, or while nothing is suspended, changes and emits nothing. -/
  early : ∀ micros w, c = .onHitl micros w →
    (∀ cont ∈ x.1.continuation, firedAtMs micros < cont.deadlineMs) → y.1 = x.1 ∧ os = []
  /-- Short of a commit, the continuation that is left is the one found, or the fire escalated it,
  to a later deadline. -/
  rewritten : ∀ cont ∈ x.1.continuation, ∀ cont' ∈ y.1.continuation, activationsOf os = 0 →
    cont' = cont ∧ intentsOf os = [] ∨
      ∃ micros w intent, c = .onHitl micros w ∧ intentsOf os = [intent] ∧
        cont' = escalated cont intent ∧ cont.deadlineMs < cont'.deadlineMs
  /-- A due fire ends the suspension once the bound is reached or when the policy raises. -/
  ended : ∀ micros w, c = .onHitl micros w → ∀ cont ∈ x.1.continuation,
    cont.deadlineMs ≤ firedAtMs micros →
    (d.policy.maxEscalations ≤ cont.escalations ∨
      ∃ e, d.policy.onTimeout (fallback key cont (firedAtMs micros)) = .error e) →
    y.1.continuation = none ∧ y.1.pending = [] ∧
      ∃ o t, outputsOf os = [o, .traces t] ∧ o.ends

/-- The call is a due fire on which the policy escalates, below the bound, and asks for no more time
than the fire was late. -/
def EscalatesBack (d : AgentDoFn) (key : Bytes) (s : KeyState) : KeyCall → Prop
  | .onHitl micros _ => ∃ cont toolName argsJson timeoutMs, s.continuation = some cont ∧
      cont.deadlineMs ≤ firedAtMs micros ∧ cont.escalations < d.policy.maxEscalations ∧
      d.policy.onTimeout (fallback key cont (firedAtMs micros)) =
        .ok (.escalate toolName argsJson timeoutMs) ∧
      firedAtMs micros + timeoutMs ≤ cont.deadlineMs
  | _ => False

/-- A policy that only escalates for a positive time meets the condition at every step. -/
theorem not_escalatesBack {d : AgentDoFn} {key : Bytes} {s : KeyState} {c : KeyCall}
    (hpolicy : ∀ f toolName argsJson timeoutMs,
      d.policy.onTimeout f = .ok (.escalate toolName argsJson timeoutMs) → 0 < timeoutMs) :
    ¬ d.EscalatesBack key s c := by
  cases c with
  | onHitl micros w =>
    rintro ⟨cont, toolName, argsJson, timeoutMs, -, hdue, -, hroute, hback⟩
    have hpos := hpolicy _ _ _ _ hroute
    omega
  | process | onTtl | onFlush => exact id

section Steps

variable {d : AgentDoFn} {py : PyLib} {key : Bytes} {s s' : KeyState} {c : KeyCall}
  {es os : List Effect} {n m : ℕ} {cont : Continuation} {micros : Int} {w : World}

/-! ### The fire of the timer -/

/-- The policy is asked, and the bound is checked only when it escalates. -/
theorem routeTimeout_escalate {fired timeoutMs : Int} {toolName argsJson detail : String}
    (h : d.routeTimeout key cont fired = (.escalate toolName argsJson timeoutMs, detail)) :
    d.policy.onTimeout (fallback key cont fired) = .ok (.escalate toolName argsJson timeoutMs) ∧
      cont.escalations < d.policy.maxEscalations := by
  unfold routeTimeout at h
  dsimp only at h
  split at h
  · cases h
  · rename_i hroute
    split_ifs at h with hbound
    · cases h
    · cases h
      exact ⟨hroute, Nat.not_le.mp hbound⟩
  · rename_i hnot hroute
    cases h
    exact absurd rfl (hnot _ _ _)

/-- Past the bound, or when the policy raises, the route ends the suspension. -/
theorem routeTimeout_ends {fired : Int}
    (h : d.policy.maxEscalations ≤ cont.escalations ∨
      ∃ e, d.policy.onTimeout (fallback key cont fired) = .error e) :
    (d.routeTimeout key cont fired).1.ends := by
  cases hroute : d.routeTimeout key cont fired with
  | mk route detail =>
    cases route with
    | deny output => rfl
    | drop reason => rfl
    | escalate toolName argsJson timeoutMs =>
      obtain ⟨hpolicy, hbelow⟩ := routeTimeout_escalate hroute
      rcases h with hbound | ⟨e, hraised⟩
      · exact absurd hbelow (Nat.not_lt.mpr hbound)
      · rw [hraised] at hpolicy
        cases hpolicy

/-- A fire before the deadline, or while nothing is suspended, is stale. -/
theorem onHitl_stale (hcurrent : d.Current s)
    (h : ∀ cont ∈ s.continuation, firedAtMs micros < cont.deadlineMs) :
    d.call py key s (.onHitl micros w) = ⟨[], none⟩ := by
  cases hcont : s.continuation with
  | none => simp [call, onHitl, hcont, StateSchema.migrateContinuation]
  | some cont =>
    simp only [call, onHitl, hcurrent.read hcont, if_pos (h cont hcont)]

variable (py w) in
/-- A due fire past the bound, or on which the policy raises, ends the suspension. -/
theorem onHitl_ends (hcurrent : d.Current s) (hcont : s.continuation = some cont)
    (hdue : cont.deadlineMs ≤ firedAtMs micros)
    (hend : d.policy.maxEscalations ≤ cont.escalations ∨
      ∃ e, d.policy.onTimeout (fallback key cont (firedAtMs micros)) = .error e) :
    ∃ route detail, route.ends ∧ d.call py key s (.onHitl micros w) =
      ⟨d.endSuspension py key cont (firedAtMs micros) route detail s w, none⟩ := by
  have hends : (d.routeTimeout key cont (firedAtMs micros)).1.ends := routeTimeout_ends hend
  cases hroute : d.routeTimeout key cont (firedAtMs micros) with
  | mk route detail =>
    rw [hroute] at hends
    refine ⟨route, detail, hends, ?_⟩
    simp only [call, onHitl, hcurrent.read hcont, if_neg (Int.not_lt.mpr hdue), hroute]
    cases route with
    | escalate => cases hends
    | deny output => rfl
    | drop reason => rfl

/-- The end of a suspension emits the output or the record of its route, and one trace. -/
theorem outputsOf_endSuspension {fired : Int} {route : Route} {detail : String}
    (hends : route.ends) :
    ∃ o t, outputsOf (d.endSuspension py key cont fired route detail s w) = [o, .traces t] ∧
      o.ends := by
  have hrearm : outputsOf (d.rearmFlush s w) = [] := by
    unfold rearmFlush
    split_ifs <;> rfl
  have hemits : outputsOf (d.endSuspension py key cont fired route detail s w) =
      outputsOf (timeoutRecord key fired route detail) ++
        outputsOf [errorTrace py key cont.seq fired reasonHitlTimeout "" (some roleTimer)] := by
    simp only [endSuspension, outputsOf_append, hrearm, List.append_nil]
    rfl
  rw [hemits]
  cases route with
  | escalate => cases hends
  | deny output => exact ⟨_, _, rfl, rfl⟩
  | drop reason => exact ⟨_, _, rfl, rfl⟩

/-! ### The count -/

/-- The count is that of the stored continuation, and within the bound. -/
structure Counts (d : AgentDoFn) (s : KeyState) (n : ℕ) : Prop where
  current : d.Current s
  count : ∀ cont ∈ s.continuation, cont.escalations = n
  le : n ≤ d.policy.maxEscalations

/-- A commit stores a continuation that was never escalated. -/
theorem activate_escalations {input : ActivationInput} {result : ActivationResult}
    (h : d.activate py w input = .ok result) :
    ∀ cont ∈ result.continuation, cont.escalations = 0 := by
  unfold activate bridgeRun at h
  split_ifs at h
  intro cont hcont
  obtain ⟨ctx, snapshot, adapter, deadlineMs, rfl⟩ := runActivation_continuation h cont hcont
  rfl

theorem Counts.of_core (h : d.Counts s n) (hcore : s'.core = s.core) : d.Counts s' n := by
  have hcont : s'.continuation = s.continuation := congrArg KeyCore.continuation hcore
  exact ⟨h.current.of_core hcore, by simpa only [hcont] using h.count, h.le⟩

theorem countEscalations_of_issue (h : es.filterMap Effect.issue = []) :
    countEscalations n c es = n := by
  rw [countEscalations, if_pos (activationsOf_of_issue h), intentsOf_of_issue h]
  rfl

/-- Each call keeps the count: a commit starts it again, and only an escalation below the bound adds
to it. -/
theorem Counts.shape (h : d.Counts s n) (hs : d.Shape py key s c es) :
    d.Counts (s.applyAll es) (countEscalations n c es) := by
  have hcurrent := h.current.shape hs
  cases hs with
  | quiet hq =>
    rw [countEscalations_of_issue hq.issue]
    exact h.of_core hq.applyAll.1
  | @commit _ w caller input result _ hact hresult hes =>
    have hcount : countEscalations n c es = 0 := by
      rw [countEscalations, if_neg]
      rw [hes, activationsOf_commit _ caller hresult]
      exact Nat.one_ne_zero
    rw [hcount]
    refine ⟨hcurrent, ?_, Nat.zero_le _⟩
    rw [hes, applyAll_sampleActivation, applyAll_commit]
    exact activate_escalations hresult
  | @escalate micros w cont toolName argsJson timeoutMs detail hcont hdue hroute =>
    have hcount : countEscalations n (.onHitl micros w)
        (d.escalate py key cont (firedAtMs micros) toolName argsJson timeoutMs) = n + 1 := rfl
    obtain rfl : cont.escalations = n := h.count cont (h.current.stored hcont)
    rw [hcount]
    refine ⟨hcurrent, ?_, (routeTimeout_escalate hroute).2⟩
    rintro cont' hcont'
    cases hcont'
    rfl
  | @ended micros w cont route detail hcont hdue hroute hends =>
    rw [countEscalations_of_issue (issue_endSuspension _ _ _ _ _)]
    refine ⟨hcurrent, ?_, h.le⟩
    rw [applyAll_endSuspension]
    simp
  | @wiped micros w cont hcont =>
    rw [countEscalations_of_issue (issue_wiped _ _)]
    refine ⟨hcurrent, ?_, h.le⟩
    rw [KeyState.applyAll_append, KeyState.applyAll_append, applyAll_wipe]
    simp

/-- Short of a commit, what a call leaves is the suspension it found, or its escalation. -/
theorem Shape.rewritten (hcurrent : d.Current s) (hback : ¬ d.EscalatesBack key s c)
    (hs : d.Shape py key s c es) (hcont : s.continuation = some cont) {cont' : Continuation}
    (hcont' : (s.applyAll es).continuation = some cont') (hnone : activationsOf es = 0) :
    cont' = cont ∧ intentsOf es = [] ∨
      ∃ micros w intent, c = .onHitl micros w ∧ intentsOf es = [intent] ∧
        cont' = escalated cont intent ∧ cont.deadlineMs < cont'.deadlineMs := by
  cases hs with
  | quiet hq =>
    have hkept : (s.applyAll es).continuation = s.continuation :=
      congrArg KeyCore.continuation hq.applyAll.1
    rw [hkept, hcont] at hcont'
    exact .inl ⟨(Option.some.inj hcont').symm, hq.intentsOf⟩
  | commit hact hresult hes =>
    rw [hes, activationsOf_commit _ _ hresult] at hnone
    cases hnone
  | @escalate micros w cont₀ toolName argsJson timeoutMs detail hread hdue hroute =>
    obtain rfl : cont = cont₀ := Option.some.inj (hcont.symm.trans (hcurrent.stored hread))
    cases hcont'
    obtain ⟨hpolicy, hbelow⟩ := routeTimeout_escalate hroute
    refine .inr ⟨micros, w, _, rfl, rfl, rfl, ?_⟩
    refine Int.not_le.mp fun hle => hback ?_
    exact ⟨cont, toolName, argsJson, timeoutMs, hcont, hdue, hbelow, hpolicy, hle⟩
  | ended hread hdue hroute hends =>
    rw [applyAll_endSuspension] at hcont'
    cases hcont'
  | wiped hread =>
    rw [KeyState.applyAll_append, KeyState.applyAll_append, applyAll_wipe] at hcont'
    cases hcont'

/-- Each call keeps the count. -/
theorem Counts.call (h : d.Counts s n) (hcall : d.call py key s c = ⟨os, none⟩) :
    d.Counts (s.applyAll os) (countEscalations n c os) := by
  obtain ⟨pre, es, rfl, hpre, hshape⟩ := call_shape hcall
  have hcount : countEscalations n c (pre ++ es) = countEscalations n c es := by
    simp only [countEscalations, intentsOf_append, intentsOf_of_issue hpre.issue, List.nil_append,
      activationsOf_append, activationsOf_of_issue hpre.issue, Nat.zero_add]
  rw [KeyState.applyAll_append, hcount]
  exact (h.of_core hpre.core).shape hshape

/-- A due fire escalates when the policy does, below the bound. -/
theorem onHitl_escalates (hcurrent : d.Current s) (hcont : s.continuation = some cont)
    (hdue : cont.deadlineMs ≤ firedAtMs micros)
    (hbelow : cont.escalations < d.policy.maxEscalations) {toolName argsJson : String}
    {timeoutMs : Int} (hpolicy : d.policy.onTimeout (fallback key cont (firedAtMs micros)) =
      .ok (.escalate toolName argsJson timeoutMs)) :
    d.call py key s (.onHitl micros w) =
      ⟨d.escalate py key cont (firedAtMs micros) toolName argsJson timeoutMs, none⟩ := by
  have hroute : d.routeTimeout key cont (firedAtMs micros) =
      (.escalate toolName argsJson timeoutMs, s!"seq={cont.seq}") := by
    unfold routeTimeout
    unfold fallback at hpolicy
    simp only [hpolicy, if_neg (Nat.not_le.mpr hbelow)]
  simp only [call, onHitl, hcurrent.read hcont, if_neg (Int.not_lt.mpr hdue), hroute]

/-- A step obeys the law exactly when it is not an escalation that fails to move the deadline to a
later time. -/
theorem step_bounded_iff (h : d.Counts s n) (hstep : (d.counted py key).step (s, n) c (s', m) os) :
    ¬ d.EscalatesBack key s c ↔ d.Bounded key (s, n) c (s', m) os := by
  obtain ⟨⟨hcall, hs'⟩, hm⟩ := hstep
  dsimp only at hcall hs' hm
  subst hs' hm
  constructor
  · intro hback
    refine ⟨(h.call hcall).le, ?_, ?_, ?_⟩
    · rintro micros w rfl hearly
      rw [onHitl_stale h.current hearly] at hcall
      cases hcall
      exact ⟨rfl, rfl⟩
    · intro cont hcont cont' hcont' hnone
      obtain ⟨pre, es, rfl, hpre, hshape⟩ := call_shape hcall
      have hissue := intentsOf_of_issue hpre.issue
      have hcore := hpre.core
      cases hpre with
      | no => exact hshape.rewritten h.current hback hcont hcont' hnone
      | yes hbatch hevent hroom =>
        have hkept := congrArg KeyCore.continuation hcore
        rw [KeyState.applyAll_append] at hcont'
        rw [activationsOf_append, Nat.add_eq_zero_iff] at hnone
        rw [intentsOf_append, hissue, List.nil_append]
        exact hshape.rewritten (h.current.of_core hcore) id (hkept.trans hcont) hcont' hnone.2
    · rintro micros w rfl cont hcont hdue hend
      obtain ⟨route, detail, hends, hended⟩ := onHitl_ends py w h.current hcont hdue hend
      rw [hended] at hcall
      cases hcall
      rw [applyAll_endSuspension]
      exact ⟨rfl, rfl, outputsOf_endSuspension hends⟩
  · intro hlaw hback
    cases c with
    | process | onTtl | onFlush => exact hback
    | onHitl micros w =>
      obtain ⟨cont, toolName, argsJson, timeoutMs, hcont, hdue, hbelow, hpolicy, hle⟩ := hback
      rw [onHitl_escalates h.current hcont hdue hbelow hpolicy] at hcall
      cases hcall
      rcases hlaw.rewritten cont hcont _ rfl rfl with ⟨-, hnone⟩ | ⟨_, _, _, -, -, -, hlater⟩
      · cases hnone
      · exact absurd hle (Int.not_le.mpr hlater)

end Steps

/-- **Escalation is bounded, and moves the deadline on when the policy asks for enough time.** The
runs of one key in which every step obeys the law, that is, at most `max_escalations` intents are
emitted between a commit and the next, an early fire does nothing, only an escalation rewrites the
deadline, to a later one, and a due fire past the bound or on which the policy raises ends the
suspension, are the runs in which no due escalation below the bound asks for less time than it takes
to get past the deadline it replaces. -/
theorem run_bounded_iff (d : AgentDoFn) (py : PyLib) (key : Bytes) {calls : List KeyCall}
    {effects : List Effect} {x : KeyState × ℕ} :
    ((d.counted py key).guarded fun x c => ¬ d.EscalatesBack key x.1 c).Run ({}, 0) calls effects
        x ↔
      ((d.counted py key).restrict (d.Bounded key)).Run ({}, 0) calls effects x := by
  refine Machine.Run.guarded_iff_restrict (I := fun x => d.Counts x.1 x.2)
    ⟨.empty, by simp, Nat.zero_le _⟩ ?_ ?_
  · rintro ⟨s, n⟩ c ⟨s', m⟩ os h - ⟨⟨hcall, rfl⟩, rfl⟩
    exact h.call hcall
  · rintro ⟨s, n⟩ c ⟨s', m⟩ os h hstep
    exact step_bounded_iff h hstep

/-- A pipeline whose policy escalates without asking for more time. -/
def stallingAgent : AgentDoFn where
  agent := .perform (.act "ask" "{}") fun _ => .ret .suspend
  policy := {
    timeoutMs := 1500, maxEscalations := 1, onTimeout := fun _ => .ok (.escalate "pager" "{}" 0) }

/-- The escalation leaves the deadline where it was, and the next fire denies. -/
theorem escalation_stalls :
    let M := stallingAgent.counted (.ofTable identityTable) [107]
    ∃ x cont y effects, M.Reachable ({}, 0) x ∧ x.1.continuation = some cont ∧
      cont.deadlineMs = 2500 ∧ M.step x (.onHitl 2500000 quietWorld) y effects ∧
      y.1.continuation.map Continuation.deadlineMs = some 2500 ∧
      ¬ stallingAgent.Bounded [107] x (.onHitl 2500000 quietWorld) y effects := by
  intro M
  refine ⟨(_, _), _, (_, _), _,
    (Machine.Reachable.refl _).tail (a := eventAt 1000 1) (u := (_, _)) ⟨call_step ?_, rfl⟩, rfl,
      ?_,
    ⟨call_step ?_, rfl⟩, ?_, ?_⟩
  any_goals decide
  intro h
  rcases h.rewritten _ rfl _ rfl (by decide) with ⟨-, hnone⟩ | ⟨_, _, _, -, -, -, hlater⟩
  · exact absurd hnone (by decide)
  · exact absurd hlater (by decide)

end AgentDoFn

end BeamAgents
