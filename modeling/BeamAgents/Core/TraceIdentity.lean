import BeamAgents.Core.Attempts
import BeamAgents.Core.Escalations
import BeamAgents.Core.Staging

/-!
# Trace event identity

Observers collapse the trace events of a key under their trace, span and type. Spans are named by
the `seq`, a role and an index, so that events are filed apart as long as no index comes back under
the same `seq`. The steps of an activation and of the escalations of its suspension go on from the
stored continuation, and do not come back. Four indices do: the counter of inline tools starts at
zero with every attempt under one `seq`; every failure and refusal is an error event of index zero;
a resume may suspend again with the cursor where it was; and after a wipe the counter starts again
at zero.

## Main definitions

* `AgentDoFn.Unrepeated`: the condition on a step.
* `AgentDoFn.Traced`: what the events emitted so far stand for.

## Main results

* `AgentDoFn.run_dedupKeys`.
-/

namespace BeamAgents

open Transition

/-- None of these events is of this type and `seq`. -/
def NoneUnder (events : List TraceEvent) (eventType : EventType) (seq : ℕ) : Prop :=
  ∀ event ∈ events, event.eventType = eventType → event.seq ≠ seq

instance (events : List TraceEvent) (eventType : EventType) (seq : ℕ) :
    Decidable (NoneUnder events eventType seq) :=
  inferInstanceAs (Decidable (∀ event ∈ events, event.eventType = eventType → event.seq ≠ seq))

/-- An occurrence of a session whose next attempt enters at `entry`, after `escalations`
escalations; an attempt that leaves the session open moves its cursor on. -/
def Mark.Before (entry escalations : ℕ) (resumable : Prop) : Mark → Prop
  | .start n | .finish n => n ≤ entry ∧ (resumable → n < entry)
  | .llm step | .intent step => step < entry
  | .suspended step => step + escalations ≤ entry
  | .tool _ | .error => True
  | .timer => False

namespace AgentDoFn

variable (d : AgentDoFn) (py : PyLib) (key : Bytes)

/-- A commit repeats no occurrence of the events that were emitted: a fresh one is the first to
begin under its `seq`, one that ran tools inline is the first to do so under its `seq`, and a resume
that suspends again has moved the cursor, or resumed an escalated suspension. -/
def CommitsNew (x : KeyState × List Effect) (c : KeyCall) (input : ActivationInput)
    (result : ActivationResult) (ctx : ActivationContext) : Prop :=
  (c.answers = none → NoneUnder (tracesOf x.2) .activationStart input.seq) ∧
  (0 < ctx.toolIndex → NoneUnder (tracesOf x.2) .toolCall input.seq) ∧
  ∀ cont ∈ x.1.continuation, c.answers.isSome → cont.escalations = 0 →
    result.continuation.isSome → cont.stepIndex < ctx.stepIndex

/-- The step repeats no occurrence: a failure or a refusal is the first error event under its `seq`,
and a commit is new. -/
def Unrepeated (x : KeyState × List Effect) (c : KeyCall) : Prop :=
  (∀ seq ∈ d.failsAt py key x.1 c, NoneUnder (tracesOf x.2) .error seq) ∧
  ∀ p ∈ d.attempt key x.1 c, ∀ result ∈ (d.activate py p.1 p.2).toOption,
    ∀ ctx ∈ d.commitTail py p.1 p.2, CommitsNew x c p.2 result ctx

instance (x : KeyState × List Effect) (c : KeyCall) (input : ActivationInput)
    (result : ActivationResult) (ctx : ActivationContext) :
    Decidable (CommitsNew x c input result ctx) :=
  inferInstanceAs (Decidable (
    (c.answers = none → NoneUnder (tracesOf x.2) .activationStart input.seq) ∧
    (0 < ctx.toolIndex → NoneUnder (tracesOf x.2) .toolCall input.seq) ∧
    ∀ cont ∈ x.1.continuation, c.answers.isSome → cont.escalations = 0 →
      result.continuation.isSome → cont.stepIndex < ctx.stepIndex))

instance (x : KeyState × List Effect) (c : KeyCall) : Decidable (d.Unrepeated py key x c) :=
  inferInstanceAs (Decidable (
    (∀ seq ∈ d.failsAt py key x.1 c, NoneUnder (tracesOf x.2) .error seq) ∧
    ∀ p ∈ d.attempt key x.1 c, ∀ result ∈ (d.activate py p.1 p.2).toOption,
      ∀ ctx ∈ d.commitTail py p.1 p.2, CommitsNew x c p.2 result ctx))

/-- What the events emitted so far stand for, while the counter has not been set back: sessions
before the open one are over, but for the failures and refusals at the counter itself. -/
structure Ongoing (s : KeyState) (marks : List (ℕ × Mark)) : Prop where
  below : ∀ p ∈ marks, p.1 < s.seq ∨ p = (s.seq, .error)
  older : ∀ cont ∈ s.continuation, cont.seq < s.seq
  session : ∀ cont ∈ s.continuation, ∀ m, (cont.seq, m) ∈ marks →
    m.Before cont.stepIndex cont.escalations (cont.pendingIntentIds ≠ [])
  begun : 0 < s.seq → (0, .start 0) ∈ marks

/-- The counter was set back to zero, where the first activation had begun. -/
structure SetBack (s : KeyState) (marks : List (ℕ × Mark)) : Prop where
  seq : s.seq = 0
  continuation : s.continuation = none
  begun : (0, .start 0) ∈ marks

/-- The events emitted so far stand for pairwise distinct occurrences. -/
structure Traced (s : KeyState) (marks : List (ℕ × Mark)) : Prop where
  current : d.Current s
  nodup : marks.Nodup
  phase : Ongoing s marks ∨ SetBack s marks

section Run

variable {d py key} {s s' : KeyState} {marks : List (ℕ × Mark)} {events : List TraceEvent}
  {c : KeyCall} {w : World} {input : ActivationInput} {result : ActivationResult}
  {effects : List Effect} {seq : ℕ}

theorem Traced.empty : d.Traced {} [] :=
  ⟨.empty, List.nodup_nil, .inl ⟨by simp, by simp, by simp, by simp⟩⟩

/-- An occurrence of which there is an event has its type and its `seq`. -/
theorem notMem_of_noneUnder (h : List.Forall₂ (Marked py key) marks events) {m : Mark}
    (hnone : NoneUnder events m.eventType seq) : (seq, m) ∉ marks := by
  intro hm
  induction h with
  | nil => cases hm
  | cons hmarked _ ih =>
    rcases List.mem_cons.mp hm with rfl | hm
    · exact hnone _ List.mem_cons_self hmarked.eventType hmarked.seq
    · exact ih (fun e he => hnone e (List.mem_cons_of_mem _ he)) hm

/-! ### Steps that commit nothing -/

theorem Traced.of_core (h : d.Traced s marks) (hcore : s'.core = s.core) : d.Traced s' marks := by
  have hseq : s'.seq = s.seq := congrArg KeyCore.seq hcore
  have hcont : s'.continuation = s.continuation := congrArg KeyCore.continuation hcore
  refine ⟨h.current.of_core hcore, h.nodup, ?_⟩
  rcases h.phase with ⟨hbelow, holder, hsession, hbegun⟩ | ⟨hzero, hnone, hbegun⟩
  · exact .inl ⟨hseq ▸ hbelow, by rw [hcont, hseq]; exact holder, hcont ▸ hsession, hseq ▸ hbegun⟩
  · exact .inr ⟨hseq.trans hzero, hcont.trans hnone, hbegun⟩

/-- A failure or a refusal is under the counter, or under the `seq` of the stored continuation. -/
theorem failsAt_scope (hcurrent : d.Current s) (h : d.failsAt py key s c = some seq) :
    seq = s.seq ∨ ∃ cont, s.continuation = some cont ∧ seq = cont.seq := by
  unfold failsAt at h
  split at h
  · rename_i w input hattempt
    split at h
    · cases h
    · cases h
      obtain ⟨-, hscope⟩ := attempt_scope hattempt
      cases hscope with
      | fresh hanswers hseq hstep => exact .inl hseq
      | resume hanswers hcont hpends hseq hstep => exact .inr ⟨_, hcurrent.stored hcont, hseq⟩
  · split at h
    · rename_i cont _ hcont
      cases h
      cases cont with
      | none => exact .inl rfl
      | some cont => exact .inr ⟨cont, hcurrent.stored hcont, rfl⟩
    · cases h

/-- New occurrences. -/
theorem nodup_append_new {new : List (ℕ × Mark)} (h : marks.Nodup) (hnodup : new.Nodup)
    (hnew : ∀ p ∈ new, p ∉ marks) : (marks ++ new).Nodup :=
  List.nodup_append.mpr ⟨h, hnodup, fun _ ha b hb hab => hnew b hb (hab ▸ ha)⟩

/-- An error event that is the first under its `seq`. -/
theorem Traced.report (h : d.Traced s marks) (hfails : d.failsAt py key s c = some seq)
    (hnew : (seq, .error) ∉ marks) : d.Traced s (marks ++ [(seq, .error)]) := by
  refine ⟨h.current, nodup_append_new h.nodup (List.nodup_singleton _) (by simpa using hnew), ?_⟩
  rcases h.phase with ⟨hbelow, holder, hsession, hbegun⟩ | ⟨hzero, hnone, hbegun⟩
  · refine .inl ⟨fun p hp => ?_, holder, fun cont hcont m hm => ?_,
      fun hpos => List.mem_append_left _ (hbegun hpos)⟩
    · rcases List.mem_append.mp hp with hp | hp
      · exact hbelow p hp
      · rw [List.mem_singleton.mp hp]
        rcases failsAt_scope h.current hfails with rfl | ⟨cont, hcont, rfl⟩
        · exact .inr rfl
        · exact .inl (holder cont hcont)
    · rcases List.mem_append.mp hm with hm | hm
      · exact hsession cont hcont m hm
      · rw [(Prod.mk.inj (List.mem_singleton.mp hm)).2]
        trivial
  · exact .inr ⟨hzero, hnone, List.mem_append_left _ hbegun⟩

/-- What a report stands for. -/
theorem Reported.marked (h : Reported py key s seq effects) :
    List.Forall₂ (Marked py key) [(seq, .error)] (tracesOf effects) := by
  obtain ⟨-, -, now, reason, errorType, position, htraces⟩ := h
  have hspan : (ActivationTrace.new py key seq now).spanId =
      spanIdFor py key seq roleActivation 0 := rfl
  have hmarked : Marked py key (seq, .error)
      ((ActivationTrace.new py key seq now).error py reason errorType none position) :=
    marked_stamp hspan ⟨rfl, rfl⟩ rfl rfl rfl rfl
  rw [htraces]
  exact .cons hmarked .nil

/-! ### Steps that commit -/

/-- A commit that leaves a session open with intents to answer has moved the cursor. -/
theorem activate_moves (hresult : d.activate py w input = .ok result) :
    ∀ cont ∈ result.continuation, cont.seq = input.seq ∧
      (cont.pendingIntentIds ≠ [] → input.stepIndex < cont.stepIndex) := by
  obtain ⟨cursor, hv⟩ := activate_valid hresult
  intro cont hcont
  refine ⟨hv.contSeq cont hcont, fun hpends => ?_⟩
  rw [hv.contPending cont hcont, Ne, List.map_eq_nil_iff] at hpends
  obtain ⟨i, hi⟩ := List.exists_mem_of_ne_nil _ hpends
  rw [hv.contStep cont hcont]
  exact (hv.minted.lower i hi).trans_lt (hv.minted.upper i hi)

/-- The session of an activation whose commit is new: what it had before precedes the step that the
activation enters at. -/
structure Session (s : KeyState) (marks : List (ℕ × Mark)) (input : ActivationInput)
    (result : ActivationResult) (ctx : ActivationContext) (escalations : ℕ) : Prop where
  ongoing : Ongoing s marks
  seq : input.seq ≤ s.seq
  begun : 0 < s.seq ∨ input.seq = 0 ∧ input.stepIndex = 0
  before : ∀ m, (input.seq, m) ∈ marks → m.Before input.stepIndex escalations True
  moved : result.continuation.isSome → input.stepIndex < ctx.stepIndex + escalations

theorem Traced.commitSession (h : d.Traced s marks)
    (hlog : List.Forall₂ (Marked py key) marks (tracesOf effects))
    (hattempt : d.attempt key s c = some (w, input)) {ctx : ActivationContext}
    (hbegun : input.stepIndex ≤ ctx.stepIndex)
    (hnew : CommitsNew (s, effects) c input result ctx) :
    ∃ escalations, Session s marks input result ctx escalations := by
  obtain ⟨hfirst, -, hmoved⟩ := hnew
  obtain ⟨-, hscope⟩ := attempt_scope hattempt
  cases hscope with
  | fresh hanswers hseq hstep =>
    rcases h.phase with hongoing | ⟨hzero, -, hstart⟩
    · -- Under the counter there are at most failures and refusals.
      refine ⟨1, hongoing, hseq.le, ?_, fun m hm => ?_, fun _ => Nat.lt_succ_of_le hbegun⟩
      · rcases Nat.eq_zero_or_pos s.seq with hzero | hpos
        · exact .inr ⟨hseq.trans hzero, hstep⟩
        · exact .inl hpos
      · rw [hseq] at hm
        rcases hongoing.below _ hm with hlt | heq
        · exact absurd hlt (lt_irrefl _)
        · rw [(Prod.mk.inj heq).2]
          trivial
    · have hnone := hfirst hanswers
      rw [hseq, hzero] at hnone
      exact absurd hstart (notMem_of_noneUnder (m := .start 0) hlog hnone)
  | @resume cont intentId hanswers hcont hpends hseq hstep =>
    have hstored := h.current.stored hcont
    rcases h.phase with hongoing | ⟨-, hnone, -⟩
    · have holder := hongoing.older cont hstored
      refine ⟨cont.escalations, hongoing, hseq ▸ holder.le, .inl (Nat.zero_lt_of_lt holder),
        fun m hm => ?_, fun hsuspends => ?_⟩
      · have hbefore := hongoing.session cont hstored m (hseq ▸ hm)
        have hpends' : cont.pendingIntentIds ≠ [] := List.ne_nil_of_mem hpends
        rw [hstep]
        simpa only [Mark.Before, hpends', ne_eq, not_false_eq_true] using hbefore
      · rcases Nat.eq_zero_or_pos cont.escalations with hzero | hpos
        · have := hmoved cont hstored (by rw [hanswers]; rfl) hzero hsuspends
          omega
        · omega
    · rw [hstored] at hnone
      cases hnone

/-- The occurrences of the commit are new. -/
theorem Session.new {escalations : ℕ} {ctx : ActivationContext} {new : List Mark}
    (h : Session s marks input result ctx escalations)
    (hlog : List.Forall₂ (Marked py key) marks (tracesOf effects))
    (hnew : CommitsNew (s, effects) c input result ctx)
    (hoccur : Occurrences py input result ctx new) :
    ∀ p ∈ new.map (input.seq, ·), p ∉ marks := by
  intro p hp hmem
  obtain ⟨m, hm, rfl⟩ := List.mem_map.mp hp
  have hbefore := h.before m hmem
  have hof := hoccur.within m hm
  cases m with
  | tool index =>
    exact notMem_of_noneUnder (m := .tool index) hlog (hnew.2.1 (Nat.zero_lt_of_lt hof)) hmem
  | suspended step =>
    have := h.moved hof.2
    simp only [Mark.Before, hof.1] at hbefore
    omega
  | start n | finish n | llm n | intent n =>
    simp only [Mark.Before, Mark.Of, forall_const] at hbefore hof
    omega
  | error | timer => exact hof

/-- What the session has had by the end of the commit precedes the step it resumes from. -/
theorem Session.before_continuation {escalations : ℕ} {ctx : ActivationContext} {new : List Mark}
    (h : Session s marks input result ctx escalations)
    (hresult : d.activate py w input = .ok result)
    (hoccur : Occurrences py input result ctx new) {cont : Continuation}
    (hcont : cont ∈ result.continuation) {m : Mark}
    (hm : (input.seq, m) ∈ marks ++ new.map (input.seq, ·)) :
    m.Before cont.stepIndex cont.escalations (cont.pendingIntentIds ≠ []) := by
  have hcursor := hoccur.continuation cont hcont
  have hbegun := hoccur.begun
  have hmoves := (activate_moves hresult cont hcont).2
  rw [activate_escalations hresult cont hcont]
  rcases List.mem_append.mp hm with hm | hm
  · have hbefore := h.before m hm
    cases m <;> simp only [Mark.Before, forall_const] at hbefore ⊢ <;> omega
  · obtain ⟨m', hm', heq⟩ := List.mem_map.mp hm
    obtain rfl := (Prod.mk.inj heq).2
    have hof := hoccur.within m' hm'
    cases m' with
    | start n | finish n =>
      simp only [Mark.Of] at hof
      exact ⟨by omega, fun hpends => hof ▸ hmoves hpends⟩
    | llm n | intent n => exact hcursor ▸ hof.2
    | tool n => trivial
    | suspended n => exact (hof.1.trans hcursor.symm).le
    | error => trivial
    | timer => exact hof

/-- A new commit keeps the occurrences distinct. -/
theorem Traced.commit (h : d.Traced s marks)
    (hlog : List.Forall₂ (Marked py key) marks (tracesOf effects))
    (hattempt : d.attempt key s c = some (w, input))
    (hresult : d.activate py w input = .ok result) {ctx : ActivationContext} {new : List Mark}
    (hoccur : Occurrences py input result ctx new)
    (hnew : CommitsNew (s, effects) c input result ctx) (hcurrent : d.Current s')
    (hseq : s'.seq = s.seq + 1) (hcont : s'.continuation = result.continuation) :
    d.Traced s' (marks ++ new.map (input.seq, ·)) := by
  obtain ⟨escalations, hsession⟩ := h.commitSession hlog hattempt hoccur.begun hnew
  have hnodup : (new.map (input.seq, ·)).Nodup := by
    have hinj : Function.Injective fun m : Mark => (input.seq, m) := fun _ _ hmm =>
      (Prod.mk.inj hmm).2
    exact hoccur.nodup.map hinj
  refine ⟨hcurrent, nodup_append_new h.nodup hnodup (hsession.new hlog hnew hoccur),
    .inl ⟨fun p hp => .inl ?_, fun cont hmem => ?_, fun cont hmem m hm => ?_, fun _ => ?_⟩⟩
  · rw [hseq]
    rcases List.mem_append.mp hp with hp | hp
    · rcases hsession.ongoing.below p hp with hlt | rfl
      · exact hlt.trans (Nat.lt_succ_self _)
      · exact Nat.lt_succ_self _
    · obtain ⟨m, -, rfl⟩ := List.mem_map.mp hp
      exact Nat.lt_succ_of_le hsession.seq
  · rw [hcont] at hmem
    rw [hseq, (activate_moves hresult cont hmem).1]
    exact Nat.lt_succ_of_le hsession.seq
  · rw [hcont] at hmem
    rw [(activate_moves hresult cont hmem).1] at hm
    exact hsession.before_continuation hresult hoccur hmem hm
  · rcases hsession.begun with hpos | ⟨hzero, hstep⟩
    · exact List.mem_append_left _ (hsession.ongoing.begun hpos)
    · refine List.mem_append_right _ (List.mem_map.mpr ⟨_, hoccur.started, ?_⟩)
      rw [hzero, hstep]

/-! ### Timers -/

/-- A stored continuation is that of an open session. -/
theorem Traced.open (h : d.Traced s marks) {cont : Continuation}
    (hcont : d.schema.migrateContinuation s.continuation = .ok (some cont)) :
    s.continuation = some cont ∧ Ongoing s marks := by
  have hstored := h.current.stored hcont
  refine ⟨hstored, h.phase.resolve_right fun hback => ?_⟩
  rw [hback.continuation] at hstored
  cases hstored

/-- An occurrence that no session has before it resumes is new. -/
theorem Traced.append_new (h : d.Traced s marks) {cont : Continuation}
    (hcont : d.schema.migrateContinuation s.continuation = .ok (some cont)) {m : Mark}
    (hnew : ¬ m.Before cont.stepIndex cont.escalations (cont.pendingIntentIds ≠ [])) :
    (marks ++ [(cont.seq, m)]).Nodup := by
  obtain ⟨hstored, hongoing⟩ := h.open hcont
  refine nodup_append_new h.nodup (List.nodup_singleton _) ?_
  rw [List.forall_mem_singleton]
  exact fun hmem => hnew (hongoing.session cont hstored m hmem)

/-- A new occurrence of the open session is below the counter, and the first attempt stays. -/
theorem Ongoing.append {cont : Continuation} {m : Mark} (h : Ongoing s marks)
    (hstored : s.continuation = some cont) :
    (∀ p ∈ marks ++ [(cont.seq, m)], p.1 < s.seq ∨ p = (s.seq, .error)) ∧
      (0 < s.seq → (0, .start 0) ∈ marks ++ [(cont.seq, m)]) := by
  refine ⟨fun p hp => ?_, fun hpos => List.mem_append_left _ (h.begun hpos)⟩
  rcases List.mem_append.mp hp with hp | hp
  · exact h.below p hp
  · rw [List.mem_singleton.mp hp]
    exact .inl (h.older cont hstored)

/-- An escalation stages its intent at the step of the continuation, and moves it on. -/
theorem Traced.escalate (h : d.Traced s marks) {cont : Continuation}
    (hcont : d.schema.migrateContinuation s.continuation = .ok (some cont)) {fired : Int}
    {toolName argsJson : String} {timeoutMs : Int} :
    d.Traced (s.applyAll (d.escalate py key cont fired toolName argsJson timeoutMs))
      (marks ++ [(cont.seq, .intent cont.stepIndex)]) := by
  obtain ⟨hstored, hongoing⟩ := h.open hcont
  obtain ⟨hbelow, hbegun⟩ := hongoing.append (m := .intent cont.stepIndex) hstored
  rw [applyAll_escalate]
  refine ⟨?_, h.append_new hcont (lt_irrefl _), .inl ⟨hbelow, ?_, ?_, hbegun⟩⟩
  · rintro cont' hcont'
    cases hcont'
    exact h.current cont hstored
  · rintro cont' hcont'
    cases hcont'
    exact hongoing.older cont hstored
  · rintro cont' hcont' m hm
    cases hcont'
    rcases List.mem_append.mp hm with hm | hm
    · have hbefore := hongoing.session cont hstored m hm
      cases m <;> simp only [Mark.Before, escalated] at hbefore ⊢ <;> omega
    · rw [(Prod.mk.inj (List.mem_singleton.mp hm)).2]
      exact Nat.lt_succ_self _

/-- The end of a suspension. -/
theorem Traced.ended (h : d.Traced s marks) {cont : Continuation}
    (hcont : d.schema.migrateContinuation s.continuation = .ok (some cont)) {fired : Int}
    {route : Route} {detail : String} {w : World} :
    d.Traced (s.applyAll (d.endSuspension py key cont fired route detail s w))
      (marks ++ [(cont.seq, .timer)]) := by
  obtain ⟨hstored, hongoing⟩ := h.open hcont
  obtain ⟨hbelow, hbegun⟩ := hongoing.append (m := .timer) hstored
  rw [applyAll_endSuspension]
  exact ⟨by simp [Current], h.append_new hcont id, .inl ⟨hbelow, by simp, by simp, hbegun⟩⟩

/-- A wipe sets the counter back. -/
theorem Traced.wiped (h : d.Traced s marks) {new : List (ℕ × Mark)}
    (hnodup : (marks ++ new).Nodup) (hnew : s.seq = 0 → new = [])
    (hseq : s'.seq = 0) (hnone : s'.continuation = none) : d.Traced s' (marks ++ new) := by
  refine ⟨by simp [Current, hnone], hnodup, ?_⟩
  rcases Nat.eq_zero_or_pos s.seq with hzero | hpos
  · rw [hnew hzero, List.append_nil]
    rcases h.phase with hongoing | hback
    · refine .inl ⟨?_, by simp [hnone], by simp [hnone], by simp [hseq]⟩
      rw [hseq, ← hzero]
      exact hongoing.below
    · exact .inr ⟨hseq, hnone, hback.begun⟩
  · rcases h.phase with hongoing | hback
    · exact .inr ⟨hseq, hnone, List.mem_append_left _ (hongoing.begun hpos)⟩
    · exact .inr ⟨hseq, hnone, List.mem_append_left _ hback.begun⟩

/-- The error event of a timer. -/
theorem marked_timer (now : Int) (reason : String) :
    Marked py key (seq, .timer)
      ((ActivationTrace.new py key seq now).error py reason "" (some roleTimer)) := by
  have hspan : (ActivationTrace.new py key seq now).spanId =
      spanIdFor py key seq roleActivation 0 := rfl
  exact marked_stamp hspan ⟨rfl, rfl⟩ rfl rfl rfl rfl

/-- The end of a suspension emits one event, of an error. -/
theorem tracesOf_endSuspension (cont : Continuation) (fired : Int) (route : Route)
    (detail : String) :
    tracesOf (d.endSuspension py key cont fired route detail s w) =
      [(ActivationTrace.new py key cont.seq fired).error py reasonHitlTimeout ""
        (some roleTimer)] := by
  have hflush : tracesOf (d.rearmFlush s w) = [] := by
    unfold rearmFlush
    split_ifs <;> rfl
  have hrecord : tracesOf (timeoutRecord key fired route detail) = [] := by
    cases route <;> rfl
  simp only [endSuspension, tracesOf_append, hflush, hrecord]
  rfl

theorem marked_endSuspension (cont : Continuation) (fired : Int) (route : Route) (detail : String) :
    List.Forall₂ (Marked py key) [(cont.seq, .timer)]
      (tracesOf (d.endSuspension py key cont fired route detail s w)) := by
  rw [tracesOf_endSuspension]
  exact .cons (marked_timer fired _) .nil

theorem tracesOf_wiped (cont : Option Continuation) (fired : Int) :
    tracesOf (wipedSuspension py key fired cont ++ (d.wipedBatch key fired s ++ d.wipe)) =
      cont.toList.map fun cont => (ActivationTrace.new py key cont.seq fired).error py
        reasonTtlWipedSuspension "" (some roleTimer) := by
  have hbatch : tracesOf (d.wipedBatch key fired s) = [] := by
    unfold wipedBatch
    split_ifs
    · rfl
    · generalize List.range s.batch.length = indices
      induction indices with
      | nil => rfl
      | cons index indices ih =>
        rw [List.flatMap_cons, tracesOf_append, ih, List.append_nil]
        rfl
  have hwipe : tracesOf d.wipe = [] := by
    unfold wipe
    split_ifs <;> rfl
  rw [tracesOf_append, tracesOf_append, hbatch, hwipe]
  cases cont <;> rfl

/-! ### Runs -/

/-- A step that meets the condition emits events of new occurrences. -/
theorem Traced.step (horderly : d.Orderly) {log : List Effect} (h : d.Traced s marks)
    (hlog : List.Forall₂ (Marked py key) marks (tracesOf log))
    (hnew : d.Unrepeated py key (s, log) c) (hcall : d.call py key s c = ⟨effects, none⟩) :
    ∃ new, List.Forall₂ (Marked py key) new (tracesOf effects) ∧
      d.Traced (s.applyAll effects) (marks ++ new) := by
  obtain ⟨hreports, hcommits⟩ := hnew
  have reported {seq : ℕ} {effects : List Effect} (hfails : d.failsAt py key s c = some seq)
      (hreported : Reported py key s seq effects) : ∃ new,
        List.Forall₂ (Marked py key) new (tracesOf effects) ∧
          d.Traced (s.applyAll effects) (marks ++ new) :=
    ⟨_, hreported.marked, (h.report hfails (notMem_of_noneUnder (m := .error) hlog
      (hreports seq hfails))).of_core hreported.core⟩
  cases call_ran hcall with
  | idle hattempt hidle =>
    refine ⟨[], ?_, ?_⟩
    · rw [hidle.traces]
      exact .nil
    · rw [List.append_nil]
      exact h.of_core hidle.core
  | refused hattempt hfails hreported => exact reported hfails hreported
  | @concluded _ _ w input hattempt hconcluded =>
    cases hactivate : d.activate py w input with
    | error failure =>
      exact reported (failsAt_of_failed hattempt hactivate) (hconcluded.reported hactivate)
    | ok result =>
      have hcommitted := hconcluded.committed hactivate
      obtain ⟨ctx, new, htail, hoccur⟩ := activate_occurrences horderly hactivate
      have hcommit := hcommits _ hattempt result (by rw [hactivate]; rfl) ctx htail
      refine ⟨new.map (input.seq, ·), ?_, h.commit hlog hattempt hactivate hoccur hcommit
        (h.current.call hcall) hcommitted.seq hcommitted.continuation⟩
      rw [hcommitted.traces, ← (attempt_scope hattempt).1]
      exact hoccur.events
  | @escalated micros w cont toolName argsJson timeoutMs hcont =>
    refine ⟨_, .cons ?_ .nil, h.escalate hcont⟩
    have hspan : (escalationTrace py key cont (firedAtMs micros)).spanId =
      spanIdFor py key cont.seq roleActivation cont.stepIndex := rfl
    exact marked_stamp hspan ⟨rfl, rfl⟩ rfl rfl rfl rfl
  | @ended micros w cont route detail hcont hends =>
    exact ⟨_, marked_endSuspension _ _ _ _, h.ended hcont⟩
  | @wiped micros w cont hcont =>
    rw [tracesOf_wiped]
    have hseq : (s.applyAll (wipedSuspension py key (firedAtMs micros) cont ++
        (d.wipedBatch key (firedAtMs micros) s ++ d.wipe))).seq = 0 := by
      rw [KeyState.applyAll_append, KeyState.applyAll_append, applyAll_wipe]
    have hnone : (s.applyAll (wipedSuspension py key (firedAtMs micros) cont ++
        (d.wipedBatch key (firedAtMs micros) s ++ d.wipe))).continuation = none := by
      rw [KeyState.applyAll_append, KeyState.applyAll_append, applyAll_wipe]
    cases cont with
    | none => exact ⟨[], .nil, h.wiped (by simpa using h.nodup) (fun _ => rfl) hseq hnone⟩
    | some cont =>
      obtain ⟨hstored, hongoing⟩ := h.open hcont
      refine ⟨_, .cons (marked_timer _ _) .nil, h.wiped (h.append_new hcont id) ?_ hseq hnone⟩
      intro hzero
      have := hongoing.older cont hstored
      omega

/-- **Trace event identity.** Let the agent and the summarizer leave the trace events to the
context. In every run of one key whose steps repeat no occurrence (a failure or a refusal is the
first error event under its `seq`, a fresh commit is the first to begin under its `seq`, a commit
that ran tools inline is the first to do so under its `seq`, and a resume that suspends again has
moved the cursor, or resumed an escalated suspension), no two of the emitted events have both the
same span name and the same type; so no two are filed under the same key, as long as the hash tells
the span names of the run apart. -/
theorem run_dedupKeys (d : AgentDoFn) (py : PyLib) (key : Bytes) (horderly : d.Orderly)
    {calls : List KeyCall} {effects : List Effect} {x : KeyState × List Effect}
    (h : ((d.machine py key).logged.guarded (d.Unrepeated py key)).Run ({}, []) calls effects x) :
    ∃ names, NamedApart py names (tracesOf effects) ∧
      (Set.InjOn (spanOf py) {name | name ∈ names} →
        ((tracesOf effects).map TraceEvent.dedupKey).Nodup) := by
  obtain ⟨marks, hmarked, htraced⟩ : ∃ marks,
      List.Forall₂ (Marked py key) marks (tracesOf x.2) ∧ d.Traced x.1 marks := by
    refine h.stateInvariant (I := fun x => ∃ marks,
      List.Forall₂ (Marked py key) marks (tracesOf x.2) ∧ d.Traced x.1 marks)
      ⟨[], .nil, .empty⟩ ?_
    rintro ⟨s, log⟩ c ⟨s', log'⟩ effects ⟨marks, hlog, ht⟩ ⟨hnew, ⟨hcall, rfl⟩, rfl⟩
    obtain ⟨new, hmarked, ht'⟩ := ht.step horderly hlog hnew hcall
    refine ⟨marks ++ new, ?_, ht'⟩
    rw [tracesOf_append]
    exact List.rel_append hlog hmarked
  have hlog : x.2 = effects := by simpa using h.of_guarded.of_logged.2
  rw [hlog] at hmarked
  obtain ⟨names, hnames⟩ := NamedApart.of_marked hmarked htraced.nodup
  exact ⟨names, hnames, hnames.dedupKeys⟩

end Run

/-- An agent that looks something up, asks and suspends, and looks it up again when it is
resumed. -/
def lookingAgent : AgentDoFn where
  agent := runTool "look" "{}" fun _ => .read fun ctx =>
    if ctx.isResume then .ret .complete
    else .perform (.act "ask" "{}") fun _ => .ret .suspend
  tools := fun _ => some ⟨false⟩
  policy := { timeoutMs := 2500 }

theorem lookingAgent_orderly : lookingAgent.Orderly := by
  have hagent : lookingAgent.agent = runTool "look" "{}" fun _ => .read fun ctx =>
      if ctx.isResume then .ret .complete
      else .perform (.act "ask" "{}") fun _ => .ret .suspend := rfl
  refine ⟨hagent ▸ .runTool fun answer ctx => ?_, by simp [lookingAgent]⟩
  dsimp only
  split_ifs
  · trivial
  · exact ⟨trivial, fun _ => trivial⟩

/-- A world in which tools answer. -/
def toolWorld : World where
  answers
    | _, .tool .. => ⟨.ok [1], 0⟩
    | _, .model _ | _, .other _ => ⟨.ok [], 0⟩
    | _, .storeLoad _ => ⟨.ok none, 0⟩
    | _, .storeSearch .. => ⟨.ok [], 0⟩

/-- The `uuid5` values behind the runs below. -/
def spanTable : List (String × String) :=
  [("6b|0|0", "6509fb29-9e35-5f25-bf85-b7860d49a026"),
    ("6b|1|0", "47e43342-f1c8-5b81-b864-1636a3f2de1f"),
    ("6b|0", "2bf05d87-d332-5171-8085-abe0727ad51a"),
    ("6b|0|activation|0", "7b312788-5df6-577e-9862-a217d85e4c83"),
    ("6b|0|TOOL_CALL|0", "04792d4b-fa0b-5844-afa6-adbd83dc00b7"),
    ("6b|0|INTENT_EMITTED|0", "4cbba867-ec24-5d41-8e3d-eaddea1fe5bf"),
    ("6b|0|SUSPENDED|1", "a206662f-4f01-5b73-9665-3e84035ff8b0"),
    ("6b|0|timer|0", "36ed932d-3e21-5e7f-a7d4-cd24a581d045"),
    ("6b|0|activation|1", "7d08bfec-5c19-5863-ae6b-f723ed6e5ce6"),
    ("6b|1", "c28646ae-e09d-5329-a66a-53b0d0a71880"),
    ("6b|1|activation|0", "c182bb80-834a-5bb3-80f7-ade01798940b"),
    ("6b|1|TOOL_CALL|0", "82ac8689-e6ec-5b3c-910a-a6aea7ec1c4b"),
    ("6b|1|INTENT_EMITTED|0", "ed68e8cf-58a6-56ce-a5e1-d521efa14b10"),
    ("6b|1|SUSPENDED|1", "226515e2-9103-57da-8b3c-d4f0331be31f"),
    ("6b|1|ERROR|0", "442730a1-1bce-5cac-814d-ccaf270b79c2")]

/-- The event that the first attempt of the runs below is about. -/
def firstEvent : KeyCall := .process ⟨[107], 1000, .externalEvent [1]⟩ toolWorld

/-- The answer to the intent of that attempt. -/
def answerToFirst (ms : Int) : KeyCall :=
  .process ⟨[107], ms, .toolResult { intentId := "6509fb29-9e35-5f25-bf85-b7860d49a026" }⟩ toolWorld

/-- The two attempts under one `seq` each run a tool, and their events are filed under one key,
though they differ. -/
theorem tool_spans_collide : lookingAgent.Orderly ∧ ∃ effects s,
    (lookingAgent.machine (.ofTable spanTable) [107]).Run {} [firstEvent, answerToFirst 1500]
      effects s ∧
    ∃ e ∈ tracesOf effects, ∃ e' ∈ tracesOf effects, e.eventType = .toolCall ∧
      e.dedupKey = e'.dedupKey ∧ e ≠ e' := by
  have hexec : ((lookingAgent.exec (.ofTable spanTable) [107] {}
      [firstEvent, answerToFirst 1500]).map fun r : List Effect × KeyState =>
        decide (∃ e ∈ tracesOf r.1, ∃ e' ∈ tracesOf r.1, e.eventType = .toolCall ∧
          e.dedupKey = e'.dedupKey ∧ e ≠ e')) = some true := by decide
  obtain ⟨⟨effects, s⟩, hr, heq⟩ := Option.map_eq_some_iff.mp hexec
  have hrun := (exec_run (C := fun _ _ => True) hr fun _ _ _ => trivial).of_guarded
  exact ⟨lookingAgent_orderly, effects, s, hrun, of_decide_eq_true heq⟩

/-- A step that meets the condition, as a function. -/
def newStep (d : AgentDoFn) (py : PyLib) (key : Bytes) (x : KeyState × List Effect) (c : KeyCall) :
    Option ((KeyState × List Effect) × List Effect) :=
  let exit := d.call py key x.1 c
  if exit.raised.isNone ∧ d.Unrepeated py key x c then
    some ((x.1.applyAll exit.effects, x.2 ++ exit.effects), exit.effects)
  else none

theorem newStep_step {d : AgentDoFn} {py : PyLib} {key : Bytes} {x y : KeyState × List Effect}
    {c : KeyCall} {effects : List Effect} (h : newStep d py key x c = some (y, effects)) :
    ((d.machine py key).logged.guarded (d.Unrepeated py key)).step x c y effects := by
  unfold newStep at h
  dsimp only at h
  split_ifs at h with hnew
  cases h
  exact ⟨hnew.2, call_step (by simpa using hnew.1), rfl⟩

/-- A lookup, a suspension that times out, another lookup under the next `seq`, and a late answer to
the first one: twelve events, filed under twelve keys. -/
theorem run_dedupKeys_timeout : ∃ effects x,
    ((lookingAgent.machine (.ofTable spanTable) [107]).logged.guarded
      (lookingAgent.Unrepeated (.ofTable spanTable) [107])).Run ({}, [])
      [firstEvent, .onHitl 4000000 toolWorld,
        .process ⟨[107], 5000, .externalEvent [2]⟩ toolWorld, answerToFirst 5500] effects x ∧
    ((tracesOf effects).length = 12 ∧ ((tracesOf effects).map TraceEvent.dedupKey).Nodup) ∧
    ∃ names, NamedApart (.ofTable spanTable) names (tracesOf effects) := by
  have hexec : (Machine.exec (newStep lookingAgent (.ofTable spanTable) [107]) ({}, [])
      [firstEvent, .onHitl 4000000 toolWorld,
        .process ⟨[107], 5000, .externalEvent [2]⟩ toolWorld, answerToFirst 5500]).map
      (fun r : List Effect × KeyState × List Effect => decide ((tracesOf r.1).length = 12 ∧
        ((tracesOf r.1).map TraceEvent.dedupKey).Nodup)) = some true := by decide
  obtain ⟨⟨effects, x⟩, hr, hfiled⟩ := Option.map_eq_some_iff.mp hexec
  have hrun := Machine.Run.of_exec
    (M := (lookingAgent.machine (.ofTable spanTable) [107]).logged.guarded
      (lookingAgent.Unrepeated (.ofTable spanTable) [107]))
    (fun _ _ => newStep_step) hr
  obtain ⟨names, hnames, -⟩ := run_dedupKeys _ _ _ lookingAgent_orderly hrun
  exact ⟨effects, x, hrun, of_decide_eq_true hfiled, names, hnames⟩

end AgentDoFn

end BeamAgents
