import BeamAgents.Core.Suspensions

/-!
# Admission fails closed

An answer resumes an activation only while it is wanted: a continuation is stored, the answered
intent is pending, and neither the deadline nor the expiry that this intent was issued with has
passed. The pending intents are kept twice, as the ids in the continuation and as the bag, and the
two agree; the bag is the tail of the intents issued so far, so that what admission reads from it is
what was issued. A committed resume replaces the bag by newer intents: no issued intent is answered
by two of them.

## Main definitions

* `lastIndex`: where the intent last issued under an id is among those issued.
* `Answered`, `AgentDoFn.answering`: the transform with the intents issued and those consumed.
* `AgentDoFn.Admission`: what the law asks of a step.

## Main results

* `AgentDoFn.run_admission`.
-/

namespace BeamAgents

open Transition

/-! ### The last element with a property -/

section LastIndex

variable {α : Type} (p : α → Bool)

/-- The index of the last element that satisfies `p`. -/
def lastIndex : List α → Option ℕ
  | [] => none
  | a :: as =>
    match lastIndex as with
    | some n => some (n + 1)
    | none => if p a then some 0 else none

variable {p} {as bs : List α} {n : ℕ}

theorem lastIndex_eq_some (h : lastIndex p as = some n) : ∃ a, as[n]? = some a ∧ p a := by
  induction as generalizing n with
  | nil => cases h
  | cons a as ih =>
    simp only [lastIndex] at h
    split at h
    · rename_i m hm
      cases h
      exact ih hm
    · split_ifs at h with hp
      cases h
      exact ⟨a, rfl, hp⟩

theorem lastIndex_eq_none (h : lastIndex p as = none) : ∀ a ∈ as, p a = false := by
  induction as with
  | nil => simp
  | cons a as ih =>
    simp only [lastIndex] at h
    split at h
    · cases h
    · rename_i hnone
      split_ifs at h with hp
      exact List.forall_mem_cons.mpr ⟨Bool.eq_false_iff.mpr hp, ih hnone⟩

/-- Elements before do not matter to it. -/
theorem lastIndex_append (h : lastIndex p bs = some n) :
    lastIndex p (as ++ bs) = some (as.length + n) := by
  induction as with
  | nil => simpa using h
  | cons a as ih =>
    simp only [List.cons_append, lastIndex, ih, List.length_cons]
    congr 1
    omega

end LastIndex

/-! ### The law -/

/-- The event time of the element that a call hands over. -/
def KeyCall.timeMs : KeyCall → Int
  | .process envelope _ => envelope.eventTimeMs
  | .onTtl .. | .onFlush _ | .onHitl .. => 0

/-- Whether the call started an activation: its duration is sampled however it ends. -/
def activated (os : List Effect) : Bool :=
  os.any fun
    | .observe .activationMs _ => true
    | _ => false

/-- The intents issued so far, in order, and the places of those that committed resumes consumed. -/
structure Answered where
  issued : List ToolIntent := []
  consumed : List ℕ := []

namespace Answered

/-- The place of the intent last issued under this id. -/
def lastIssued (h : Answered) (intentId : String) : Option ℕ :=
  lastIndex (fun i => i.intentId = intentId) h.issued

/-- A committed resume consumes the intent last issued under the id that it answers. -/
def record (h : Answered) (c : KeyCall) (os : List Effect) : Answered where
  issued := h.issued ++ intentsOf os
  consumed := h.consumed ++
    (if activationsOf os = 0 then none else c.answers.bind h.lastIssued).toList

end Answered

namespace AgentDoFn

/-- The transform with the intents issued and those consumed. -/
def answering (d : AgentDoFn) (py : PyLib) (key : Bytes) :
    Machine (KeyState × Answered) KeyCall Effect :=
  (d.machine py key).tracked Answered.record

/-- The ids in a stored continuation are those in the bag. -/
def PendingAgrees (s : KeyState) : Prop :=
  ∀ cont ∈ s.continuation, cont.pendingIntentIds = s.pending.map ToolIntent.intentId

/-- What the law asks of a step. -/
structure Admission (key : Bytes) (x : KeyState × Answered) (c : KeyCall) (y : KeyState × Answered)
    (os : List Effect) : Prop where
  /-- The pending intents are the same in both places. -/
  agrees : PendingAgrees y.1
  /-- An activation is started only for an answer that is wanted and in time, also by the expiry of
  the intent as it was issued. -/
  started : ∀ intentId ∈ c.answers, activated os → ∃ cont ∈ x.1.continuation,
    intentId ∈ cont.pendingIntentIds ∧ c.timeMs < cont.deadlineMs ∧
      ∃ n i, x.2.lastIssued intentId = some n ∧ x.2.issued[n]? = some i ∧
        i.intentId = intentId ∧ c.timeMs < i.expiresAtMs
  /-- Any other answer is refused: one record, and nothing else happens to the key. -/
  refused : ∀ intentId ∈ c.answers, activated os = false → y.1 = x.1 ∧
    activationsOf os = 0 ∧ ∃ detail, errorsOf os = [⟨key, reasonOrphaned, detail, c.timeMs⟩]
  /-- A committed resume consumes an intent, and only an intent that no earlier one consumed. -/
  once : ∀ intentId ∈ c.answers, activationsOf os ≠ 0 →
    ∃ n, x.2.lastIssued intentId = some n ∧ y.2.consumed = x.2.consumed ++ [n] ∧
      n ∉ x.2.consumed

section Steps

variable {d : AgentDoFn} {py : PyLib} {key : Bytes} {s s' : KeyState} {c : KeyCall}
  {es os : List Effect} {h : Answered} {w : World}

/-! ### Answers -/

/-- An element that answers an intent goes to `_resume`. -/
theorem call_answer {envelope : AgentEnvelope} {intentId : String}
    (hanswers : envelope.answers = some intentId) :
    d.call py key s (.process envelope w) = d.resume py key envelope.eventTimeMs intentId
      envelope.answerResult envelope.answerApproval s w := by
  cases hp : envelope.payload <;>
    simp_all [call, process, AgentEnvelope.answers, AgentEnvelope.answerResult,
      AgentEnvelope.answerApproval]

/-- What becomes of an answer: it is refused, or it is admitted and starts an activation. -/
inductive Heard (py : PyLib) (key : Bytes) (s : KeyState) (intentId : String) (now : Int) :
    List Effect → Prop
  | refused {cont detail} :
      Heard py key s intentId now (refusedResume py key now intentId cont detail s)
  | admitted {cont os} (hcont : s.continuation = some cont)
      (hadmission : admissionFailure (some cont) s.pending intentId now = none)
      (hactivated : activated os) : Heard py key s intentId now os

theorem call_heard (hcurrent : d.Current s) {intentId : String} (hanswers : intentId ∈ c.answers)
    (hcall : d.call py key s c = ⟨os, none⟩) : Heard py key s intentId c.timeMs os := by
  cases c with
  | onTtl | onFlush | onHitl => cases hanswers
  | process envelope w =>
    rw [call_answer hanswers] at hcall
    unfold resume at hcall
    split at hcall
    · cases hcall
    · cases hcall
      exact .refused
    rename_i cont hcont
    split at hcall
    · cases hcall
      exact .refused
    rename_i hadmission
    refine .admitted (hcurrent.stored hcont) hadmission ?_
    unfold resumeAdmitted at hcall
    split at hcall
    · cases hcall
    split at hcall
    · cases hcall
    split at hcall <;> cases hcall <;> rfl

variable (py key s) in
/-- A refusal starts no activation, leaves the key as it is, and is recorded once. -/
theorem refusedResume_spec (now : Int) (intentId : String) (cont : Option Continuation)
    (detail : AdmissionDetail) :
    let os := refusedResume py key now intentId cont detail s
    activated os = false ∧ s.applyAll os = s ∧ activationsOf os = 0 ∧
      errorsOf os = [⟨key, reasonOrphaned, s!"{detail.text}:{intentId}", now⟩] :=
  ⟨rfl, rfl, (quiet_refusedResume py key now intentId cont detail s).activationsOf, rfl⟩

/-! ### The bag is the tail of what was issued -/

/-- The bag of a suspension holds the intents issued last, and what resumes consumed was issued
before them. -/
structure Issued (d : AgentDoFn) (s : KeyState) (h : Answered) : Prop where
  current : d.Current s
  agrees : PendingAgrees s
  tail : ∀ cont ∈ s.continuation, ∃ older, h.issued = older ++ s.pending ∧
    ∀ n ∈ h.consumed, n < older.length
  consumed : ∀ n ∈ h.consumed, n < h.issued.length

theorem Issued.empty : d.Issued {} {} := ⟨.empty, by simp [PendingAgrees], by simp, by simp⟩

theorem lastIssued_lt {intentId : String} {n : ℕ} (hn : h.lastIssued intentId = some n) :
    n < h.issued.length := by
  obtain ⟨i, hi, -⟩ := lastIndex_eq_some hn
  exact (List.getElem?_eq_some_iff.mp hi).1

/-- A call that neither commits nor emits an intent leaves the history as it was. -/
theorem record_of_issue (hissue : es.filterMap Effect.issue = []) : h.record c es = h := by
  simp [Answered.record, activationsOf_of_issue hissue, intentsOf_of_issue hissue]

theorem Issued.of_core (hs : d.Issued s h) (hcore : s'.core = s.core) : d.Issued s' h := by
  have hcont : s'.continuation = s.continuation := congrArg KeyCore.continuation hcore
  have hpending : s'.pending = s.pending := congrArg KeyCore.pending hcore
  refine ⟨hs.current.of_core hcore, ?_, ?_, hs.consumed⟩
  · simpa only [PendingAgrees, hcont, hpending] using hs.agrees
  · simpa only [hcont, hpending] using hs.tail

/-- Where nothing is suspended there is nothing to keep. -/
theorem Issued.of_none (hs : d.Issued s h) (hnone : s'.continuation = none) : d.Issued s' h :=
  ⟨by simp [Current, hnone], by simp [PendingAgrees, hnone], by simp [hnone], hs.consumed⟩

/-- A commit or an escalation issues the end of the bag; what is consumed was issued before. -/
theorem Issued.shape (hs : d.Issued s h) (hshape : d.Shape py key s c es) :
    d.Issued (s.applyAll es) (h.record c es) := by
  have hcurrent := hs.current.shape hshape
  cases hshape with
  | quiet hq =>
    rw [record_of_issue hq.issue]
    exact hs.of_core hq.applyAll.1
  | @commit _ w caller input result _ hact hresult hes =>
    obtain ⟨cursor, hv⟩ := activate_valid hresult
    have hissued : (h.record c es).issued = h.issued ++ result.intents := by
      rw [hes, Answered.record, intentsOf_commit]
    have hconsumed : ∀ n ∈ (h.record c es).consumed, n < h.issued.length := by
      intro n hn
      rcases List.mem_append.mp hn with hn | hn
      · exact hs.consumed n hn
      · split_ifs at hn
        · cases hn
        · obtain ⟨intentId, -, hlast⟩ := Option.bind_eq_some_iff.mp (Option.mem_toList.mp hn)
          exact lastIssued_lt hlast
    refine ⟨hcurrent, ?_, ?_, fun n hn => ?_⟩
    · rw [hes, applyAll_sampleActivation, applyAll_commit]
      exact hv.contPending
    · intro cont hcont
      refine ⟨h.issued, ?_, hconsumed⟩
      rw [hissued, hes, applyAll_sampleActivation, applyAll_commit]
    · rw [hissued, List.length_append]
      exact Nat.lt_add_right _ (hconsumed n hn)
  | @escalate micros w cont toolName argsJson timeoutMs detail hcont hdue hroute =>
    have hstored := hs.current.stored hcont
    obtain ⟨older, hissued, hconsumed⟩ := hs.tail cont hstored
    have hrecord : h.record (.onHitl micros w)
        (d.escalate py key cont (firedAtMs micros) toolName argsJson timeoutMs) =
        ⟨h.issued ++ [escalationIntent py key cont (firedAtMs micros) toolName argsJson timeoutMs],
          h.consumed⟩ := by
      simp only [Answered.record]
      exact congrArg₂ Answered.mk rfl (List.append_nil _)
    rw [hrecord]
    refine ⟨hcurrent, ?_, ?_, fun n hn => ?_⟩
    · rintro cont' hcont'
      cases hcont'
      show cont.pendingIntentIds ++ [_] = (s.pending ++ [_]).map ToolIntent.intentId
      rw [hs.agrees cont hstored, List.map_append]
      rfl
    · rintro cont' -
      refine ⟨older, ?_, hconsumed⟩
      rw [hissued, List.append_assoc]
      rfl
    · rw [List.length_append]
      exact Nat.lt_add_right _ (hs.consumed n hn)
  | ended hcont hdue hroute hends =>
    rw [record_of_issue (issue_endSuspension _ _ _ _ _)]
    refine hs.of_none ?_
    rw [applyAll_endSuspension]
  | @wiped micros w cont hcont =>
    rw [record_of_issue (issue_wiped _ _)]
    refine hs.of_none ?_
    rw [KeyState.applyAll_append, KeyState.applyAll_append, applyAll_wipe]

theorem Issued.call (hs : d.Issued s h) (hcall : d.call py key s c = ⟨os, none⟩) :
    d.Issued (s.applyAll os) (h.record c os) := by
  obtain ⟨pre, es, rfl, hpre, hshape⟩ := call_shape hcall
  have hrecord : h.record c (pre ++ es) = h.record c es := by
    simp only [Answered.record, intentsOf_append, activationsOf_append,
      intentsOf_of_issue hpre.issue, activationsOf_of_issue hpre.issue, List.nil_append,
      Nat.zero_add]
  rw [KeyState.applyAll_append, hrecord]
  exact (hs.of_core hpre.core).shape hshape

/-- An intent that is pending is in the bag as it was issued, and no resume has consumed it. -/
theorem Issued.wanted (hs : d.Issued s h) {cont : Continuation} (hcont : s.continuation = some cont)
    {intentId : String} (hid : intentId ∈ cont.pendingIntentIds) :
    ∃ n i, h.lastIssued intentId = some n ∧ h.issued[n]? = some i ∧ i ∈ s.pending ∧
      i.intentId = intentId ∧ n ∉ h.consumed := by
  obtain ⟨older, hissued, hconsumed⟩ := hs.tail cont hcont
  rw [hs.agrees cont hcont] at hid
  obtain ⟨j, hj, hjid⟩ := List.mem_map.mp hid
  cases hlast : lastIndex (fun i => i.intentId = intentId) s.pending with
  | none => exact absurd (lastIndex_eq_none hlast j hj) (by simp [hjid])
  | some n =>
    obtain ⟨i, hi, hiid⟩ := lastIndex_eq_some hlast
    refine ⟨older.length + n, i, ?_, ?_, List.mem_of_getElem? hi, by simpa using hiid, fun hn => ?_⟩
    · rw [Answered.lastIssued, hissued]
      exact lastIndex_append hlast
    · rw [hissued, List.getElem?_append_right (Nat.le_add_right _ _), Nat.add_sub_cancel_left]
      exact hi
    · exact absurd (hconsumed _ hn) (Nat.not_lt.mpr (Nat.le_add_right _ _))

/-- Every step obeys the law. -/
theorem step_admission (hs : d.Issued s h) (hcall : d.call py key s c = ⟨os, none⟩) :
    Admission key (s, h) c (s.applyAll os, h.record c os) os := by
  refine ⟨(hs.call hcall).agrees, ?_, ?_, ?_⟩
  · intro intentId hanswers hactivated
    cases call_heard hs.current hanswers hcall with
    | refused =>
      rw [(refusedResume_spec py key s _ _ _ _).1] at hactivated
      cases hactivated
    | @admitted cont _ hcont hadmission _ =>
      obtain ⟨hid, -, hdeadline, hlive⟩ := admissionFailure_eq_none.mp hadmission
      obtain ⟨n, i, hn, hi, hmem, hiid, -⟩ := hs.wanted hcont hid
      have hexpiry := hlive i hmem hiid
      simp only [intentExpired, Bool.or_eq_false_iff, decide_eq_false_iff_not] at hexpiry
      exact ⟨cont, hcont, hid, hdeadline, n, i, hn, hi, hiid, Int.not_le.mp hexpiry.2⟩
  · intro intentId hanswers hactivated
    cases call_heard hs.current hanswers hcall with
    | refused =>
      obtain ⟨-, hkept, hactivations, hrecord⟩ :=
        refusedResume_spec py key s _ _ _ _
      exact ⟨hkept, hactivations, _, hrecord⟩
    | admitted _ _ hactivated' =>
      rw [hactivated] at hactivated'
      cases hactivated'
  · intro intentId hanswers hcommit
    cases call_heard hs.current hanswers hcall with
    | refused => exact absurd (refusedResume_spec py key s _ _ _ _).2.2.1 hcommit
    | @admitted cont _ hcont hadmission _ =>
      obtain ⟨n, i, hn, -, -, -, hfresh⟩ :=
        hs.wanted hcont (admissionFailure_eq_none.mp hadmission).1
      refine ⟨n, hn, ?_, hfresh⟩
      simp only [Answered.record, if_neg hcommit, Option.mem_def.mp hanswers, Option.bind_some, hn]
      rfl

/-- A call that answers nothing, or commits nothing, consumes nothing. -/
theorem record_consumed (hnone : c.answers = none ∨ activationsOf os = 0) :
    (h.record c os).consumed = h.consumed := by
  rcases hnone with hnone | hnone <;> simp [Answered.record, hnone]

end Steps

/-- **Admission fails closed.** In every run of one key, from the empty state and with the intents
issued and consumed on record, each step obeys the law: the ids in a stored continuation are those
in the bag; an answer starts an activation only while a continuation is stored, the intent is
pending, and neither the deadline nor the expiry that the intent was last issued with has passed;
every other answer is recorded once and changes nothing; and a committed resume consumes an intent
that no other one consumes. -/
theorem run_admission (d : AgentDoFn) (py : PyLib) (key : Bytes) {calls : List KeyCall}
    {effects : List Effect} {x : KeyState × Answered}
    (hrun : (d.answering py key).Run ({}, {}) calls effects x) :
    ((d.answering py key).restrict (Admission key)).Run ({}, {}) calls effects x ∧
      x.2.consumed.Nodup := by
  have hall : ((d.answering py key).restrict (Admission key)).Run ({}, {}) calls effects x ∧
      d.Issued x.1 x.2 ∧ x.2.consumed.Nodup := by
    refine hrun.invariant (I := fun calls effects x =>
      ((d.answering py key).restrict (Admission key)).Run ({}, {}) calls effects x ∧
        d.Issued x.1 x.2 ∧ x.2.consumed.Nodup) ⟨.refl, .empty, List.nodup_nil⟩ ?_
    rintro calls effects ⟨s, h⟩ c ⟨s', h'⟩ os - ⟨hlaw, hs, hnodup⟩ ⟨⟨hcall, rfl⟩, rfl⟩
    have hstep := step_admission hs hcall
    refine ⟨hlaw.tail ⟨hstep, ⟨hcall, rfl⟩, rfl⟩, hs.call hcall, ?_⟩
    cases hanswers : c.answers with
    | none => rwa [record_consumed (.inl hanswers)]
    | some intentId =>
      by_cases hcommit : activationsOf os = 0
      · rwa [record_consumed (.inr hcommit)]
      · obtain ⟨n, -, hconsumed, hfresh⟩ := hstep.once intentId hanswers hcommit
        rw [hconsumed]
        exact List.nodup_append.mpr ⟨hnodup, List.nodup_singleton n, by
          rintro a ha b hb rfl
          exact hfresh (List.mem_singleton.mp hb ▸ ha)⟩
  exact ⟨hall.1, hall.2.2⟩

/-- Perform a call and keep the record. -/
def answerStep (d : AgentDoFn) (py : PyLib) (key : Bytes) (x : KeyState × Answered) (c : KeyCall) :
    Option ((KeyState × Answered) × List Effect) :=
  let exit := d.call py key x.1 c
  if exit.raised.isSome then none
  else some ((x.1.applyAll exit.effects, x.2.record c exit.effects), exit.effects)

theorem answerStep_step {d : AgentDoFn} {py : PyLib} {key : Bytes} {x y : KeyState × Answered}
    {c : KeyCall} {os : List Effect} (h : d.answerStep py key x c = some (y, os)) :
    (d.answering py key).step x c y os := by
  simp only [answerStep] at h
  split_ifs at h with hraised
  cases h
  exact ⟨call_step (Option.not_isSome_iff_eq_none.mp hraised), rfl⟩

/-- An escalated suspension is resumed by the answer to its first intent, which is consumed. -/
theorem run_admission_answered : ∃ effects x,
    ((askingAgent.answering (.ofTable identityTable) [107]).restrict (Admission [107])).Run
      ({}, {}) identityCalls effects x ∧ x.2.consumed = [0] ∧ x.2.consumed.Nodup := by
  have hexec : (Machine.exec (askingAgent.answerStep (.ofTable identityTable) [107]) ({}, {})
      identityCalls).map (fun r => r.2.2.consumed) = some [0] := by decide
  obtain ⟨⟨effects, x⟩, hx, hconsumed⟩ := Option.map_eq_some_iff.mp hexec
  have hrun := Machine.Run.of_exec (fun _ _ => answerStep_step) hx
  exact ⟨effects, x, (run_admission _ _ _ hrun).1, hconsumed, (run_admission _ _ _ hrun).2⟩

end AgentDoFn

end BeamAgents
