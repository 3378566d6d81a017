import BeamAgents.Effector.Tasks
import BeamAgents.Observability.Traces

/-!
# Which claims are released

The claims that revocations and closings hand back. Only a registered claim is released, a release
takes it out of the registry first, and no claim is registered twice. Whether a claim is executing
is settled in the step in which it is granted, before anybody else can look at it: a claim that is
not executing then never will be. So a claim whose tool has been invoked, or whose approval request
may have been sent, is never released, and the others are released at most once.

## Main definitions

* `LoopState.Executing`, `RegistryStep`: what one step does to the claims.
* `EffectorLoop.Accounted`: the history of the claims and the registry.

## Main results

* `EffectorLoop.registryStep`, `EffectorLoop.Accounted.step`.
* `EffectorLoop.run_releases`: the releases of a run.
-/

namespace BeamAgents

open Transition Containers

namespace LoopState

variable {δ : Type} {s s' : LoopState δ} {c : ℕ}

/-- A claim that was made and is marked as executing. -/
def Executing (s : LoopState δ) (c : ℕ) : Prop :=
  ∃ active, s.made[c]? = some active ∧ active.executing = true

/-- A claim stays executing when others are made. -/
theorem Executing.mono (h : s.Executing c) (hmade : s.made <+: s'.made) : s'.Executing c := by
  obtain ⟨active, hactive, hexecuting⟩ := h
  obtain ⟨more, hmore⟩ := hmade
  refine ⟨active, ?_, hexecuting⟩
  rw [← hmore, List.getElem?_append_left (List.getElem?_eq_some_iff.mp hactive).1]
  exact hactive

/-- The registry has lost claims at most. -/
def Shrinks (s s' : LoopState δ) : Prop :=
  ∀ partition c, s'.claims.get? partition = some c → s.claims.get? partition = some c

theorem Shrinks.refl (s : LoopState δ) : s.Shrinks s := fun _ _ h => h

theorem Shrinks.erase (s : LoopState δ) (partition : String) :
    s.Shrinks { s with claims := s.claims.erase partition } := by
  intro other c h
  rw [Dict.get?_erase] at h
  split_ifs at h
  exact h

/-- What `_release_claim` does up to the call of the store. -/
theorem releaseClaim_cases (s : LoopState δ) (partition : String) :
    (∃ s', s.releaseClaim partition = (s', none) ∧ s'.made = s.made ∧ s'.tasks = s.tasks ∧
        s.Shrinks s') ∨
      ∃ c active, s.releaseClaim partition =
          ({ s with claims := s.claims.erase partition }, some (c, active)) ∧
        s.claims.get? partition = some c ∧ s.made[c]? = some active ∧
        active.executing = false := by
  unfold releaseClaim
  cases hclaim : s.claims.get? partition with
  | none => exact .inl ⟨s, rfl, rfl, rfl, .refl s⟩
  | some c =>
    simp only
    cases hmade : s.made[c]? with
    | none => exact .inl ⟨_, rfl, rfl, rfl, .erase s partition⟩
    | some active =>
      simp only
      cases hexecuting : active.executing with
      | true => exact .inl ⟨_, rfl, rfl, rfl, .erase s partition⟩
      | false => exact .inr ⟨c, active, rfl, rfl, hmade, hexecuting⟩

/-- What `_release_claim` does for one partition after the other: it calls the store for at most one
claim, which was registered and is not any more. -/
theorem releaseClaims_cases (s : LoopState δ) (partitions : List String) :
    ∃ s' task es, s.releaseClaims partitions = (s', task, es) ∧ s'.made = s.made ∧
      s'.tasks = s.tasks ∧ s.Shrinks s' ∧
      (∀ d await worker, task ≠ .processing d await worker) ∧
      (es = [] ∨ ∃ partition c active, s.claims.get? partition = some c ∧
        s'.claims.get? partition = none ∧ s.made[c]? = some active ∧ active.executing = false ∧
        es = [.released c active.intentId active.token]) := by
  induction partitions generalizing s with
  | nil => exact ⟨s, _, _, rfl, rfl, rfl, .refl s, fun _ _ _ h => (by cases h), .inl rfl⟩
  | cons partition rest ih =>
    rw [releaseClaims]
    rcases s.releaseClaim_cases partition with
      ⟨s₁, hrelease, hmade, htasks, hshrinks⟩ | ⟨c, active, hrelease, hclaim, hactive, hnot⟩
    · rw [hrelease]
      obtain ⟨s', task, es, heq, hmade', htasks', hshrinks', htask, hes⟩ := ih s₁
      refine ⟨s', task, es, heq, hmade'.trans hmade, htasks'.trans htasks,
        fun p c h => hshrinks p c (hshrinks' p c h), htask, ?_⟩
      rcases hes with hnone | ⟨p, c, active, hclaim, hgone, hactive, hnot, hes⟩
      · exact .inl hnone
      · exact .inr ⟨p, c, active, hshrinks p c hclaim, hgone, hmade ▸ hactive, hnot, hes⟩
    · rw [hrelease]
      refine ⟨_, _, _, rfl, rfl, rfl, .erase s partition, fun _ _ _ h => (by cases h),
        .inr ⟨partition, c, active, hclaim, ?_, hactive, hnot, rfl⟩⟩
      rw [Dict.get?_erase, if_pos rfl]

end LoopState

/-- The events that say nothing of a claim's execution or release. -/
def LoopEvent.Quiet {δ : Type} : LoopEvent δ → Prop
  | .granted .. | .invoked .. | .notified .. | .released .. => False
  | _ => True

/-- What a step does to the claims: it makes none and drops some, it makes one and settles whether
it is executing, or it calls the store for one that is not. -/
inductive RegistryStep {δ : Type} (T : EffectorLoop δ) (s s' : LoopState δ) :
    List (LoopEvent δ) → Prop
  | quiet {es} (hmade : s'.made = s.made) (hclaims : s.Shrinks s')
      (hes : ∀ e ∈ es, e.Quiet ∨ ∃ c d, e = .notified c d ∧ s.Executing c) :
      RegistryStep T s s' es
  | granted {d active rest} (hmade : s'.made = s.made ++ [active])
      (hclaims : s'.claims = s.claims.set (T.partition d) s.made.length)
      (hintent : active.intentId = (T.intent d).intentId)
      (hrest : ∀ e ∈ rest, e.Quiet ∨ active.executing = true ∧
        (e = .invoked s.made.length d ∨ e = .notified s.made.length d)) :
      RegistryStep T s s' (.granted s.made.length d active.token :: rest)
  | released {partition c active} (hmade : s'.made = s.made) (hclaims : s.Shrinks s')
      (hclaim : s.claims.get? partition = some c) (hgone : s'.claims.get? partition = none)
      (hactive : s.made[c]? = some active) (hnot : active.executing = false) :
      RegistryStep T s s' [.released c active.intentId active.token]

/-- The claims that were made stay. -/
theorem RegistryStep.made_prefix {δ : Type} {T : EffectorLoop δ} {s s' : LoopState δ}
    {es : List (LoopEvent δ)} (h : RegistryStep T s s' es) : s.made <+: s'.made := by
  cases h with
  | quiet hmade => exact hmade ▸ List.prefix_rfl
  | granted hmade => exact hmade ▸ List.prefix_append _ _
  | released hmade => exact hmade ▸ List.prefix_rfl

/-- The tasks that wait for the approval sink have marked their claims. -/
def LoopState.Notifying {δ : Type} (s : LoopState δ) : Prop :=
  ∀ (t : ℕ) (d : δ) (c : ℕ) (worker : Bool),
    s.tasks[t]? = some (.processing d (.notifying c) worker) → s.Executing c

namespace EffectorLoop

variable {δ : Type} {T : EffectorLoop δ} {py : PyLib} {s s' s'' : LoopState δ}
  {es : List (LoopEvent δ)}

theorem settle_made (t : ℕ) (d : δ) (worker : Bool) (stop : ProcessEnd) :
    (T.settle s t d worker stop).made = s.made := by
  cases stop with
  | await next => rfl
  | returned claim =>
    show (T.dropped s d claim).made = s.made
    unfold dropped
    split_ifs <;> rfl
  | raised => rfl

theorem shrinks_settle (t : ℕ) (d : δ) (worker : Bool) (stop : ProcessEnd) :
    s.Shrinks (T.settle s t d worker stop) := by
  cases stop with
  | await next => exact .refl s
  | returned claim =>
    show s.Shrinks (T.dropped s d claim)
    unfold dropped
    split_ifs
    · exact .erase s (T.partition d)
    · exact .refl s
  | raised => exact .refl s

/-- Nothing but the task itself changes among the tasks, and it waits for the approval sink only
when `process` does. -/
theorem settle_tasks (t : ℕ) (d : δ) (worker : Bool) (stop : ProcessEnd) :
    ∃ task, (T.settle s t d worker stop).tasks = s.tasks.set t task ∧
      ∀ d' c worker',
        task = .processing d' (.notifying c) worker' → stop = .await (.notifying c) := by
  cases stop with
  | await next =>
    refine ⟨_, rfl, fun d' c worker' h => ?_⟩
    cases h
    rfl
  | returned claim =>
    refine ⟨if worker then .receiving (T.partition d) else .ended .returned, ?_,
      fun d' c worker' h => ?_⟩
    · show ((T.dropped s d claim).setTask t _).tasks = _
      unfold dropped
      split_ifs <;> rfl
    · cases worker <;> cases h
  | raised => exact ⟨_, rfl, fun d' c worker' h => (by cases h)⟩

/-- From a granted claim to the next await: the claim is marked when its tool is invoked or its
approval request sent, and never otherwise. -/
theorem granted_cases {d : δ} {token : ℕ} {now : Int} {stop : ProcessEnd}
    (h : T.granted py s d token now = (s', stop, es)) :
    ∃ active rest, s'.made = s.made ++ [active] ∧
      s'.claims = s.claims.set (T.partition d) s.made.length ∧ s'.tasks = s.tasks ∧
      es = .granted s.made.length d active.token :: rest ∧
      active.intentId = (T.intent d).intentId ∧ (∀ claim, stop ≠ .returned claim) ∧
      (∀ c, stop = .await (.notifying c) → c = s.made.length ∧ active.executing = true) ∧
      ∀ e ∈ rest, e.Quiet ∨ active.executing = true ∧
        (e = .invoked s.made.length d ∨ e = .notified s.made.length d) := by
  unfold granted at h
  by_cases hkind : (T.intent d).kind = .approval
  · rw [if_pos hkind] at h
    cases h
    refine ⟨⟨(T.intent d).intentId, token, true⟩, _, rfl, rfl, rfl, rfl, rfl,
      fun _ h => (by cases h), fun c h => ?_, fun e he => ?_⟩
    · cases h
      exact ⟨rfl, rfl⟩
    · rw [List.mem_singleton] at he
      exact .inr ⟨rfl, .inr he⟩
  · rw [if_neg hkind] at h
    cases hadmission : T.svc.runner.admission py (T.intent d) now with
    | invoke =>
      rw [hadmission] at h
      cases h
      refine ⟨⟨(T.intent d).intentId, token, true⟩, _, rfl, rfl, rfl, rfl, rfl,
        fun _ h => (by cases h), fun c h => (by cases h), fun e he => ?_⟩
      rw [List.mem_singleton] at he
      exact .inr ⟨rfl, .inl he⟩
    | answered result =>
      rw [hadmission] at h
      cases h
      refine ⟨⟨(T.intent d).intentId, token, false⟩, _, rfl, rfl, rfl, rfl, rfl,
        fun _ h => (by cases h), fun c h => (by cases h), fun e he => ?_⟩
      rw [List.mem_singleton] at he
      exact .inl (he ▸ trivial)
    | escapes =>
      rw [hadmission] at h
      cases h
      exact ⟨⟨(T.intent d).intentId, token, false⟩, _, rfl, rfl, rfl, rfl, rfl,
        fun _ h => (by cases h), fun c h => (by cases h), fun e he => (by cases he)⟩

/-- What an answer makes `process` do: it grants a claim, or it touches none. -/
theorem answered_cases {d : δ} {now : Int} {await : ProcessAwait} {answer : AwaitAnswer}
    {stop : ProcessEnd} (h : T.answered py s d now await answer = some (s', stop, es)) :
    (∃ token, T.granted py s d token now = (s', stop, es)) ∨
      (s' = s ∧ (∀ c, stop = .await (.notifying c) → await = .notifying c) ∧
        ∀ e ∈ es, e.Quiet ∨ ∃ c, e = .notified c d ∧ await = .notifying c) := by
  unfold answered at h
  split at h
  case h_5 token => exact .inl ⟨token, Option.some.inj h⟩
  -- No other answer touches a claim, and the approval sink is only called again.
  all_goals right
  all_goals try split at h
  all_goals cases h
  all_goals refine ⟨rfl, ?_, ?_⟩
  all_goals simp [LoopEvent.Quiet]

theorem received_cases (d : δ) (now : Int) :
    (∀ c, (T.received d now).1 ≠ .notifying c) ∧ ∀ e ∈ (T.received d now).2, e.Quiet := by
  unfold received
  cases T.verified d with
  | some reason => cases T.svc.deadLetterSink <;> simp [LoopEvent.Quiet]
  | none => cases refuseExpired (T.intent d) now <;> simp [LoopEvent.Quiet]

/-- The tasks that wait for the approval sink, when one task goes on. -/
theorem notifying_set {t : ℕ} {task : LoopTask δ} (h : s.Notifying) (hmade : s.made <+: s'.made)
    (htasks : s'.tasks = s.tasks.set t task)
    (htask : ∀ d c worker, task = .processing d (.notifying c) worker → s'.Executing c) :
    s'.Notifying := by
  intro u d c worker hu
  rw [htasks, List.getElem?_set] at hu
  split_ifs at hu with htu hlt
  · exact htask d c worker (Option.some.inj hu)
  · exact (h u d c worker hu).mono hmade

/-- The tasks that wait for the approval sink, when a task starts. -/
theorem notifying_spawn {task : LoopTask δ} (h : s.Notifying) (hmade : s.made <+: s'.made)
    (htasks : s'.tasks = s.tasks ++ [task])
    (htask : ∀ d c worker, task ≠ .processing d (.notifying c) worker) : s'.Notifying := by
  intro u d c worker hu
  rw [htasks] at hu
  rcases List.mem_append.mp (List.mem_of_getElem? hu) with hmem | hmem
  · obtain ⟨v, hv⟩ := List.mem_iff_getElem?.mp hmem
    exact (h v d c worker hv).mono hmade
  · exact absurd (List.mem_singleton.mp hmem).symm (htask d c worker)

/-- A release of one partition after the other is a step on the claims. -/
theorem registryStep_releaseClaims {partitions : List String} {task : LoopTask δ}
    (h : s.releaseClaims partitions = (s', task, es)) (hmade : s''.made = s'.made)
    (hclaims : s''.claims = s'.claims) : RegistryStep T s s'' es := by
  obtain ⟨_, _, _, heq, hmade', -, hshrinks, -, hes⟩ := s.releaseClaims_cases partitions
  rw [h] at heq
  cases heq
  have hshrinks' : s.Shrinks s'' := fun p c hp => hshrinks p c (hclaims ▸ hp)
  rcases hes with rfl | ⟨p, c, active, hclaim, hgone, hactive, hnot, rfl⟩
  · exact .quiet (hmade.trans hmade') hshrinks' (by simp)
  · exact .released (hmade.trans hmade') hshrinks' hclaim (by rw [hclaims, hgone]) hactive hnot

/-- A task that goes on with the release of partitions. -/
theorem registryStep_release {partitions : List String} {t : ℕ} {task : LoopTask δ}
    (hnotifying : s.Notifying) (h : s.releaseClaims partitions = (s', task, es)) :
    RegistryStep T s (s'.setTask t task) es ∧ (s'.setTask t task).Notifying := by
  obtain ⟨_, _, _, heq, hmade, htasks, -, htask, -⟩ := s.releaseClaims_cases partitions
  have h' := h
  rw [heq] at h'
  cases h'
  refine ⟨registryStep_releaseClaims h rfl rfl, notifying_set hnotifying (hmade ▸ List.prefix_rfl)
    (by rw [LoopState.setTask, htasks]) fun d c worker h => absurd h (htask d _ worker)⟩

/-- A new task that begins with the release of partitions. -/
theorem registryStep_spawn_release {partitions : List String} {task : LoopTask δ}
    (hnotifying : s.Notifying) (h : s.releaseClaims partitions = (s', task, es)) :
    RegistryStep T s (s'.spawn task) es ∧ (s'.spawn task).Notifying := by
  obtain ⟨_, _, _, heq, hmade, htasks, -, htask, -⟩ := s.releaseClaims_cases partitions
  have h' := h
  rw [heq] at h'
  cases h'
  exact ⟨registryStep_releaseClaims h rfl rfl, notifying_spawn hnotifying
    (hmade ▸ List.prefix_rfl) (by rw [LoopState.spawn, htasks]) fun d c worker => htask d _ worker⟩

/-- **What a step does to the claims.** -/
theorem registryStep (hnotifying : s.Notifying) {a : LoopAct δ}
    (h : T.perform py s a = some (s', es)) : RegistryStep T s s' es ∧ s'.Notifying := by
  cases a with
  | ensureWorker partition =>
    simp only [perform] at h
    split at h
    · cases h
      exact ⟨.quiet rfl (.refl s) (by simp), hnotifying⟩
    · cases h
      exact ⟨.quiet rfl (.refl s) (by simp),
        notifying_spawn hnotifying List.prefix_rfl rfl (by simp)⟩
  | deliver t d now =>
    simp only [perform] at h
    split at h
    · split_ifs at h
      cases h
      obtain ⟨hawait, hquiet⟩ := T.received_cases d now
      exact ⟨.quiet rfl (.refl s) fun e he => .inl (hquiet e he),
        notifying_set hnotifying List.prefix_rfl rfl fun d' c worker heq =>
          absurd (LoopTask.processing.inj heq).2.1 (hawait c)⟩
    · cases h
  | finish t =>
    simp only [perform] at h
    split at h
    · cases h
      exact ⟨.quiet rfl (.refl s) (by simp), notifying_set hnotifying List.prefix_rfl rfl (by simp)⟩
    · cases h
  | process d now =>
    simp only [perform] at h
    cases h
    obtain ⟨hawait, hquiet⟩ := T.received_cases d now
    exact ⟨.quiet rfl (.refl s) fun e he => .inl (hquiet e he),
      notifying_spawn hnotifying List.prefix_rfl rfl fun d' c worker heq =>
        hawait c (LoopTask.processing.inj heq).2.1⟩
  | resume t now answer =>
    simp only [perform] at h
    split at h
    · rename_i d await worker htask
      obtain ⟨⟨s₁, stop, es₁⟩, hanswered, heq⟩ := Option.map_eq_some_iff.mp h
      cases heq
      obtain ⟨task, htasks, hstop⟩ := T.settle_tasks (s := s₁) t d worker stop
      rcases answered_cases hanswered with ⟨token, hgranted⟩ | ⟨rfl, hawait, hes⟩
      · obtain ⟨active, rest, hmade, hclaims, htasks', rfl, hintent, hreturned, hnotify, hrest⟩ :=
          granted_cases hgranted
        have hstep : RegistryStep T s (T.settle s₁ t d worker stop)
            (.granted s.made.length d active.token :: rest) := by
          refine .granted (d := d) ?_ ?_ hintent hrest
          · rw [settle_made, hmade]
          · rw [← hclaims]
            cases stop with
            | await next => rfl
            | returned claim => exact absurd rfl (hreturned claim)
            | raised => rfl
        refine ⟨hstep, notifying_set hnotifying hstep.made_prefix (htasks'.symm ▸ htasks)
          fun d' c worker' heq => ?_⟩
        obtain ⟨rfl, hexecuting⟩ := hnotify c (hstop d' c worker' heq)
        exact ⟨active, by simp [settle_made, hmade], hexecuting⟩
      · have hexecuting (c : ℕ) (h : await = .notifying c) : s₁.Executing c :=
          hnotifying t d c worker (h ▸ htask)
        refine ⟨.quiet (settle_made ..) (shrinks_settle t d worker stop) fun e he => ?_, ?_⟩
        · rcases hes e he with hquiet | ⟨c, rfl, hc⟩
          · exact .inl hquiet
          · exact .inr ⟨c, d, rfl, hexecuting c hc⟩
        · have hmade : s₁.made <+: (T.settle s₁ t d worker stop).made :=
            (settle_made t d worker stop).symm ▸ List.prefix_rfl
          exact notifying_set hnotifying hmade htasks fun d' c worker' heq =>
            (hexecuting c (hawait c (hstop d' c worker' heq))).mono hmade
    · cases h
  | cancel t =>
    obtain ⟨task, htask, h⟩ := Option.bind_eq_some_iff.mp h
    cases task with
    | ended how => cases h
    | joining partition worker =>
      rcases hrelease : s.releaseClaims [partition] with ⟨s₁, next, es₁⟩
      rw [cancelled, hrelease] at h
      cases h
      exact registryStep_release hnotifying hrelease
    | _ =>
      cases h
      exact ⟨.quiet rfl (.refl s) (by simp), notifying_set hnotifying List.prefix_rfl rfl (by simp)⟩
  | revoke partition =>
    simp only [perform] at h
    split at h
    · cases h
      exact ⟨.quiet rfl (.refl s) (by simp),
        notifying_spawn hnotifying List.prefix_rfl rfl (by simp)⟩
    · rcases hrelease : s.releaseClaims [partition] with ⟨s₁, next, es₁⟩
      rw [hrelease] at h
      cases h
      exact registryStep_spawn_release hnotifying hrelease
  | stop =>
    simp only [perform] at h
    cases h
    exact ⟨.quiet rfl (.refl s) (by simp),
      notifying_spawn hnotifying List.prefix_rfl rfl (by simp)⟩
  | close =>
    rcases hrelease : s.releaseClaims s.claims.keys with ⟨s₁, next, es₁⟩
    rw [perform, hrelease] at h
    cases h
    exact registryStep_spawn_release hnotifying hrelease
  | joined t =>
    obtain ⟨task, htask, h⟩ := Option.bind_eq_some_iff.mp h
    cases task with
    | joining partition worker =>
      simp only [joined] at h
      split at h
      · cases h
        exact ⟨.quiet rfl (.refl s) (by simp),
          notifying_set hnotifying List.prefix_rfl rfl (by simp)⟩
      · rcases hrelease : s.releaseClaims [partition] with ⟨s₁, next, es₁⟩
        rw [hrelease] at h
        cases h
        exact registryStep_release hnotifying hrelease
      · cases h
    | gathering workers =>
      simp only [joined] at h
      split_ifs at h
      cases h
      exact ⟨.quiet rfl (.refl s) (by simp), notifying_set hnotifying List.prefix_rfl rfl (by simp)⟩
    | _ => cases h
  | released t raises =>
    simp only [perform] at h
    split at h
    · split_ifs at h
      · cases h
        exact ⟨.quiet rfl (.refl s) (by simp),
          notifying_set hnotifying List.prefix_rfl rfl (by simp)⟩
      · rename_i rest _ _
        rcases hrelease : s.releaseClaims rest with ⟨s₁, next, es₁⟩
        rw [hrelease] at h
        cases h
        exact registryStep_release hnotifying hrelease
    · cases h

/-- The registry and the history of the claims. -/
structure Accounted (T : EffectorLoop δ) (es : List (LoopEvent δ)) (s : LoopState δ) : Prop where
  /-- A claim that was made has been granted. -/
  granted {c active} : s.made[c]? = some active →
    ∃ d, .granted c d active.token ∈ es ∧ (T.intent d).intentId = active.intentId
  /-- A claim whose effect may have happened is marked as executing. -/
  executing {c d} : .invoked c d ∈ es ∨ .notified c d ∈ es → s.Executing c
  /-- A registered claim is registered once. -/
  registered {p q c} : s.claims.get? p = some c → s.claims.get? q = some c → p = q
  made {p c} : s.claims.get? p = some c → c < s.made.length
  /-- A claim that has been released is not registered, and will not be executing. -/
  released {c i token} : .released c i token ∈ es →
    (∃ active, s.made[c]? = some active ∧ active.executing = false) ∧
      ∀ p, s.claims.get? p ≠ some c
  /-- A release follows the grant, and no other release of the claim. -/
  ordered {before after c i token} : es = before ++ .released c i token :: after →
    (∃ d, .granted c d token ∈ before ∧ (T.intent d).intentId = i) ∧
      ∀ i' token', .released c i' token' ∉ before ++ after

theorem accounted_empty : Accounted T [] {} where
  granted h := by cases h
  executing h := by simp at h
  registered h := by cases h
  made h := by cases h
  released h := by cases h
  ordered h := by simp at h

/-- The places of an event in two lists of events after one another. -/
theorem append_eq_append_cons {es₀ es before after : List (LoopEvent δ)} {e : LoopEvent δ}
    (h : es₀ ++ es = before ++ e :: after) :
    (∃ more, es₀ = before ++ e :: more ∧ after = more ++ es) ∨
      ∃ more, before = es₀ ++ more ∧ es = more ++ e :: after := by
  rcases List.append_eq_append_iff.mp h with ⟨more, hbefore, hes⟩ | ⟨more, hes₀, hafter⟩
  · exact .inr ⟨more, hbefore, hes⟩
  · cases more with
    | nil =>
      refine .inr ⟨[], ?_, hafter.symm⟩
      simpa using hes₀.symm
    | cons e' more =>
      obtain ⟨rfl, rfl⟩ := List.cons.inj hafter
      exact .inl ⟨more, hes₀, rfl⟩

/-- A step that releases nothing keeps the order of the releases. -/
theorem Accounted.ordered_append {es₀ : List (LoopEvent δ)} (h : Accounted T es₀ s)
    (hes : ∀ c i token, .released c i token ∉ es) {before after : List (LoopEvent δ)}
    {c : ℕ} {i : String} {token : ℕ} (heq : es₀ ++ es = before ++ .released c i token :: after) :
    (∃ d, .granted c d token ∈ before ∧ (T.intent d).intentId = i) ∧
      ∀ i' token', .released c i' token' ∉ before ++ after := by
  rcases append_eq_append_cons heq with ⟨more, hes₀, rfl⟩ | ⟨more, -, hmore⟩
  · obtain ⟨hgranted, honce⟩ := h.ordered hes₀
    refine ⟨hgranted, fun i' token' hmem => ?_⟩
    rw [← List.append_assoc] at hmem
    rcases List.mem_append.mp hmem with hmem | hmem
    · exact honce i' token' hmem
    · exact hes c i' token' hmem
  · exact absurd (hmore ▸ List.mem_append_right more List.mem_cons_self) (hes c i token)

/-- A released claim stays not executing and not registered. -/
theorem Accounted.released_mono {es₀ : List (LoopEvent δ)} (h : Accounted T es₀ s)
    (hmade : s.made <+: s'.made)
    (hclaims : ∀ p c, s'.claims.get? p = some c → s.claims.get? p = some c ∨ c = s.made.length)
    {c : ℕ} {i : String} {token : ℕ} (hc : .released c i token ∈ es₀) :
    (∃ active, s'.made[c]? = some active ∧ active.executing = false) ∧
      ∀ p, s'.claims.get? p ≠ some c := by
  obtain ⟨⟨active, hactive, hnot⟩, hgone⟩ := h.released hc
  have hlt : c < s.made.length := (List.getElem?_eq_some_iff.mp hactive).1
  obtain ⟨more, hmore⟩ := hmade
  refine ⟨⟨active, ?_, hnot⟩, fun p hp => ?_⟩
  · rw [← hmore, List.getElem?_append_left hlt]
    exact hactive
  · rcases hclaims p c hp with hold | rfl
    · exact hgone p hold
    · exact lt_irrefl _ hlt

/-- One step keeps the account. -/
theorem Accounted.step {es₀ : List (LoopEvent δ)} (h : Accounted T es₀ s)
    (hstep : RegistryStep T s s' es) : Accounted T (es₀ ++ es) s' := by
  have hprefix := hstep.made_prefix
  cases hstep with
  | quiet hmade hclaims hes =>
    have hnone (c : ℕ) (i : String) (token : ℕ) : .released c i token ∉ es := by
      intro hmem
      rcases hes _ hmem with hquiet | ⟨c', d, heq, -⟩
      · exact hquiet
      · cases heq
    refine ⟨fun {c active} hc => ?_, fun {c d} hc => ?_, fun {p q c} hp hq => ?_,
      fun {p c} hp => ?_, fun {c i token} hc => ?_, h.ordered_append hnone⟩
    · obtain ⟨d, hd, hintent⟩ := h.granted (hmade ▸ hc)
      exact ⟨d, List.mem_append_left es hd, hintent⟩
    · simp only [List.mem_append] at hc
      rcases hc with (hc | hc) | (hc | hc)
      · exact (h.executing (.inl hc)).mono hprefix
      · rcases hes _ hc with hquiet | ⟨c', d', heq, -⟩
        · exact hquiet.elim
        · cases heq
      · exact (h.executing (.inr hc)).mono hprefix
      · rcases hes _ hc with hquiet | ⟨c', d', heq, hexecuting⟩
        · exact hquiet.elim
        · cases heq
          exact hexecuting.mono hprefix
    · exact h.registered (hclaims p c hp) (hclaims q c hq)
    · rw [hmade]
      exact h.made (hclaims p c hp)
    · rcases List.mem_append.mp hc with hc | hc
      · exact h.released_mono hprefix (fun p c hp => .inl (hclaims p c hp)) hc
      · exact absurd hc (hnone c i token)
  | @granted d active rest hmade hclaims hintent hrest =>
    have hnone (c : ℕ) (i : String) (token : ℕ) :
        .released c i token ∉ LoopEvent.granted s.made.length d active.token :: rest := by
      intro hmem
      rcases List.mem_cons.mp hmem with heq | hmem
      · cases heq
      · rcases hrest _ hmem with hquiet | ⟨-, heq | heq⟩
        · exact hquiet
        · cases heq
        · cases heq
    have hregistered (p : String) (c : ℕ) (hp : s'.claims.get? p = some c) :
        (p = T.partition d ∧ c = s.made.length) ∨ s.claims.get? p = some c := by
      rw [hclaims, Dict.get?_set] at hp
      split_ifs at hp with heq
      · exact .inl ⟨heq, (Option.some.inj hp).symm⟩
      · exact .inr hp
    have hnew (p : String) : s.claims.get? p ≠ some s.made.length :=
      fun hp => lt_irrefl _ (h.made hp)
    have hexecutes (c : ℕ) (d' : δ) (hc : .invoked c d' ∈ rest ∨ .notified c d' ∈ rest) :
        s'.Executing c := by
      rcases hc with hc | hc <;> rcases hrest _ hc with hquiet | ⟨hexecuting, heq | heq⟩
      · exact hquiet.elim
      · cases heq
        exact ⟨active, by simp [hmade], hexecuting⟩
      · cases heq
      · exact hquiet.elim
      · cases heq
      · cases heq
        exact ⟨active, by simp [hmade], hexecuting⟩
    refine ⟨fun {c active'} hc => ?_, fun {c d'} hc => ?_, fun {p q c} hp hq => ?_,
      fun {p c} hp => ?_, fun {c i token} hc => ?_, h.ordered_append hnone⟩
    · rw [hmade, List.getElem?_append] at hc
      split_ifs at hc with hlt
      · obtain ⟨d', hd', hintent'⟩ := h.granted hc
        exact ⟨d', List.mem_append_left _ hd', hintent'⟩
      · obtain ⟨hidx, hget⟩ := List.getElem?_eq_some_iff.mp hc
        have hc' : c = s.made.length := by
          simp only [List.length_singleton] at hidx
          omega
        have hactive : active = active' := by simpa using hget
        subst hc' hactive
        exact ⟨d, by simp, hintent.symm⟩
    · simp only [List.mem_append, List.mem_cons, reduceCtorEq, false_or] at hc
      rcases hc with (hc | hc) | (hc | hc)
      · exact (h.executing (.inl hc)).mono hprefix
      · exact hexecutes c d' (.inl hc)
      · exact (h.executing (.inr hc)).mono hprefix
      · exact hexecutes c d' (.inr hc)
    · rcases hregistered p c hp with ⟨rfl, rfl⟩ | hp <;>
        rcases hregistered q _ hq with ⟨rfl, heq⟩ | hq
      · rfl
      · exact absurd hq (hnew q)
      · exact absurd (heq ▸ hp) (hnew p)
      · exact h.registered hp hq
    · rw [hmade, List.length_append, List.length_singleton]
      rcases hregistered p c hp with ⟨-, rfl⟩ | hp
      · omega
      · exact lt_of_lt_of_le (h.made hp) (Nat.le_succ _)
    · rcases List.mem_append.mp hc with hc | hc
      · exact h.released_mono hprefix
          (fun p c hp => (hregistered p c hp).symm.imp_right And.right) hc
      · exact absurd hc (hnone c i token)
  | @released partition c active hmade hclaims hclaim hgone hactive hnot =>
    have hfresh (i : String) (token : ℕ) : .released c i token ∉ es₀ :=
      fun hmem => (h.released hmem).2 partition hclaim
    refine ⟨fun {c' active'} hc => ?_, fun {c' d} hc => ?_, fun {p q c'} hp hq => ?_,
      fun {p c'} hp => ?_, fun {c' i token} hc => ?_, fun {before after c' i token} heq => ?_⟩
    · obtain ⟨d, hd, hintent⟩ := h.granted (hmade ▸ hc)
      exact ⟨d, List.mem_append_left _ hd, hintent⟩
    · simp only [List.mem_append, List.mem_singleton, reduceCtorEq, or_false] at hc
      exact (h.executing hc).mono hprefix
    · exact h.registered (hclaims p c' hp) (hclaims q c' hq)
    · rw [hmade]
      exact h.made (hclaims p c' hp)
    · rcases List.mem_append.mp hc with hc | hc
      · exact h.released_mono hprefix (fun p c hp => .inl (hclaims p c hp)) hc
      · cases List.mem_singleton.mp hc
        refine ⟨⟨active, hmade.symm ▸ hactive, hnot⟩, fun p hp => ?_⟩
        have heq : p = partition := h.registered (hclaims p c hp) hclaim
        rw [heq, hgone] at hp
        cases hp
    · rcases append_eq_append_cons heq with ⟨more, hes₀, rfl⟩ | ⟨more, rfl, hmore⟩
      · obtain ⟨hgranted, honce⟩ := h.ordered hes₀
        refine ⟨hgranted, fun i' token' hmem => ?_⟩
        rw [← List.append_assoc] at hmem
        rcases List.mem_append.mp hmem with hmem | hmem
        · exact honce i' token' hmem
        · cases List.mem_singleton.mp hmem
          exact hfresh i token (hes₀ ▸ by simp)
      · obtain ⟨rfl, heq', rfl⟩ : more = [] ∧
            (LoopEvent.released c active.intentId active.token : LoopEvent δ) =
              .released c' i token ∧
            after = [] := by
          cases more with
          | nil => simpa using hmore
          | cons e more => simp at hmore
        cases heq'
        obtain ⟨d, hd, hintent⟩ := h.granted hactive
        simp only [List.append_nil]
        exact ⟨⟨d, hd, hintent⟩, hfresh⟩

/-- **A run accounts for its claims.** -/
theorem accounted_run {acts : List (LoopAct δ)} (h : (T.machine py).Run {} acts es s) :
    Accounted T es s :=
  (h.invariant (I := fun _ es s => s.Notifying ∧ Accounted T es s)
    ⟨fun t d c worker h => (by simp at h), accounted_empty⟩
    fun _ ⟨hnotifying, haccounted⟩ hstep =>
      let ⟨hregistry, hnotifying'⟩ := registryStep hnotifying hstep
      ⟨hnotifying', haccounted.step hregistry⟩).2

/-- **Only claims that have not been executed are released.** A claim that a run releases has been
granted before, with the token that it is released with; in the whole run its tool is not invoked,
its approval request not sent, and it is not released again. -/
theorem run_releases {acts : List (LoopAct δ)} {before after : List (LoopEvent δ)} {c : ℕ}
    {i : String} {token : ℕ}
    (h : (T.machine py).Run {} acts (before ++ .released c i token :: after) s) :
    (∃ d, .granted c d token ∈ before ∧ (T.intent d).intentId = i) ∧
      (∀ d, .invoked c d ∉ before ++ after ∧ .notified c d ∉ before ++ after) ∧
      ∀ i' token', .released c i' token' ∉ before ++ after := by
  have haccounted := accounted_run h
  obtain ⟨hgranted, honce⟩ := haccounted.ordered rfl
  have hreleased : .released c i token ∈ before ++ .released c i token :: after := by simp
  obtain ⟨⟨active, hactive, hnot⟩, -⟩ := haccounted.released hreleased
  have hidle : ¬ s.Executing c := by
    rintro ⟨active', hactive', hexecuting⟩
    rw [hactive] at hactive'
    cases hactive'
    simp [hnot] at hexecuting
  refine ⟨hgranted, fun d => ⟨fun hmem => hidle ?_, fun hmem => hidle ?_⟩, honce⟩
  · refine haccounted.executing (d := d) (.inl ?_)
    simp only [List.mem_append, List.mem_cons, reduceCtorEq, false_or] at hmem ⊢
    exact hmem
  · refine haccounted.executing (d := d) (.inr ?_)
    simp only [List.mem_append, List.mem_cons, reduceCtorEq, false_or] at hmem ⊢
    exact hmem

/-- The service without a tool, over deliveries that are intents of the partition `"p"`. -/
def toolless : EffectorLoop ToolIntent where
  svc := { leaseMs := 170, resultTtlMs := 1700, runner := { toolTimeoutMs := 70 } }
  intent := id
  partition _ := "p"
  verify _ := .ok

/-- A worker is granted a claim and revoked while the rejection of the call is being stored. -/
def revokedWhileStoring : List (LoopAct ToolIntent) :=
  [.ensureWorker "p", .deliver 0 { intentId := "a", expiresAtMs := 1000 } 5,
    .resume 0 5 (.claimed (.claimed 7)), .revoke "p", .cancel 0, .joined 1, .released 1 false]

/-- The revocation releases the claim with its token. -/
theorem run_releases_revoked : ∃ before s,
    (toolless.machine (.ofTable [])).Run {} revokedWhileStoring
      (before ++ .released 0 "a" 7 :: []) s ∧
    ∀ d, .invoked 0 d ∉ before ++ [] ∧ .notified 0 d ∉ before ++ [] := by
  have hexec : ∃ before s, Machine.exec (toolless.perform (.ofTable [])) {} revokedWhileStoring =
      some (before ++ [.released 0 "a" 7], s) := ⟨[_, _, _], _, rfl⟩
  obtain ⟨before, s, hr⟩ := hexec
  have hrun : (toolless.machine (.ofTable [])).Run {} revokedWhileStoring _ s :=
    .of_exec (fun _ _ => id) hr
  exact ⟨before, s, hrun, (run_releases hrun).2.1⟩

end EffectorLoop

end BeamAgents
