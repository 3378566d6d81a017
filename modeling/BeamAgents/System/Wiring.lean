import BeamAgents.Core.Suspensions
import BeamAgents.System.Composition

/-!
# Which outcome answers which intent

An intent id may be emitted more than once in the life of a key, since a wipe clears the counter
from which ids are made. The outcomes of the effector are kept and sent under ids, so that what is
left of an earlier intent can be taken for the outcome of a later one with the same id. If nothing
is left of the earlier one when the later one is staged, no outcome is ever taken for that of
another intent.

## Main definitions

* `Latest`: the last message with an id.
* `System.Fresh`: nothing is left of the intents with an id.
* `Deployment.StagesFresh`: the intents that a step stages are fresh.
* `Deployment.Wires`: the outcomes that a step takes are those of the right intent.
* `Wired`: the invariant.
* `Deployment.StagesFreshAmong`: a sufficient condition that can be evaluated.

## Main results

* `Deployment.run_wires`: in a run that stages fresh intents, no outcome is taken for that of
  another intent.
* `Deployment.run_stagesFresh`: a run that meets the sufficient condition stages fresh intents.
* `Deployment.wiped_key_reuses_outcome`: a run in which an outcome is.
-/

namespace BeamAgents

open Transition

/-! ### The last message with an id -/

/-- The message at an offset is the last one with an id. -/
def Latest (topic : List ToolIntent) (intentId : String) (offset : ℕ) : Prop :=
  (∃ i, topic[offset]? = some i ∧ i.intentId = intentId) ∧
    ∀ offset' i, offset < offset' → topic[offset']? = some i → i.intentId ≠ intentId

section Latest

variable {topic intents : List ToolIntent} {intentId : String} {offset offset' : ℕ}

theorem Latest.unique (h : Latest topic intentId offset) (h' : Latest topic intentId offset') :
    offset = offset' := by
  obtain ⟨⟨i, hi, hid⟩, hlast⟩ := h
  obtain ⟨⟨i', hi', hid'⟩, hlast'⟩ := h'
  rcases Nat.lt_trichotomy offset offset' with hlt | heq | hlt
  · exact absurd hid' (hlast offset' i' hlt hi')
  · exact heq
  · exact absurd hid (hlast' offset i hlt hi)

/-- Later messages with other ids leave it the last one. -/
theorem Latest.append (h : Latest topic intentId offset)
    (hother : ∀ i ∈ intents, i.intentId ≠ intentId) :
    Latest (topic ++ intents) intentId offset := by
  obtain ⟨⟨i, hi, hid⟩, hlast⟩ := h
  have hlt : offset < topic.length := (List.getElem?_eq_some_iff.mp hi).1
  refine ⟨⟨i, by rw [List.getElem?_append_left hlt, hi], hid⟩, fun offset' i' hlater hi' => ?_⟩
  rcases Nat.lt_or_ge offset' topic.length with hin | hout
  · rw [List.getElem?_append_left hin] at hi'
    exact hlast offset' i' hlater hi'
  · rw [List.getElem?_append_right hout] at hi'
    exact hother i' (List.mem_of_getElem? hi')

/-- Of intents with different ids, each is the last one with its id once they are appended. -/
theorem latest_append {n : ℕ} {i : ToolIntent}
    (hdistinct : intents.Pairwise (·.intentId ≠ ·.intentId))
    (hi : intents[n]? = some i) : Latest (topic ++ intents) i.intentId (topic.length + n) := by
  refine ⟨⟨i, ?_, rfl⟩, fun offset' i' hlater hi' => ?_⟩
  · rw [List.getElem?_append_right (Nat.le_add_right ..), Nat.add_sub_cancel_left, hi]
  · rw [List.getElem?_append_right (by omega)] at hi'
    obtain ⟨hn, hget⟩ := List.getElem?_eq_some_iff.mp hi
    obtain ⟨hn', hget'⟩ := List.getElem?_eq_some_iff.mp hi'
    have hne := List.pairwise_iff_getElem.mp hdistinct n (offset' - topic.length) hn hn' (by omega)
    rw [hget, hget'] at hne
    exact hne.symm

end Latest

/-! ### The invariant -/

/-- Nothing is left of the intents with an id: no message in flight, no worker at one, no posted
request, no reply in flight, and no terminal record that lives. -/
structure System.Fresh (s : System) (intentId : String) : Prop where
  inFlight : ∀ o ∈ s.inFlight, ∀ i, s.topic[o]? = some i → i.intentId ≠ intentId
  workers : ∀ w d, (s.effector.phases w).delivery = some d → d.intentId ≠ intentId
  records : ∀ value e, s.effector.records intentId = some (.done value e) → e ≤ s.effector.now
  requests : ∀ d ∈ s.requests, d.intentId ≠ intentId
  replies : ∀ reply ∈ s.replies, reply.intentId ≠ intentId

/-- Whatever is left of an intent is left of the last one with its id. -/
structure Wired (s : System) : Prop where
  inFlight : ∀ o ∈ s.inFlight, ∃ i, s.topic[o]? = some i ∧ Latest s.topic i.intentId o
  workers : ∀ w d, (s.effector.phases w).delivery = some d → Latest s.topic d.intentId d.handle
  records : ∀ k value e, s.effector.records k = some (.done value e) → s.effector.now < e →
    ∃ o, s.origin k = some o ∧ Latest s.topic k o
  requests : ∀ d ∈ s.requests, Latest s.topic d.intentId d.handle
  replies : ∀ reply ∈ s.replies, Latest s.topic reply.intentId reply.offset

theorem Wired.start : Wired {} :=
  ⟨by simp, by simp [Phase.delivery], by simp, by simp, by simp⟩

variable {s s' : System}

/-- Staging fresh intents keeps the invariant. -/
theorem Wired.afterCall (h : Wired s) {effects : List Effect}
    (hdistinct : (intentsOf effects).Pairwise (·.intentId ≠ ·.intentId))
    (hfresh : ∀ i ∈ intentsOf effects, s.Fresh i.intentId) : Wired (s.afterCall effects) := by
  -- What is left of an id is left of an id that is not staged now.
  have hkeep {k : String} {o : ℕ} (ho : Latest s.topic k o) (hk : ¬ s.Fresh k) :
      Latest (s.topic ++ intentsOf effects) k o :=
    ho.append fun i hi heq => hk (heq ▸ hfresh i hi)
  refine ⟨fun o ho => ?_, fun w d hd => ?_, fun k value e hdone hlive => ?_, fun d hd => ?_,
    fun reply hreply => ?_⟩
  · rcases List.mem_append.mp ho with ho | ho
    · obtain ⟨i, hi, hlatest⟩ := h.inFlight o ho
      have hlt : o < s.topic.length := (List.getElem?_eq_some_iff.mp hi).1
      refine ⟨i, (List.getElem?_append_left hlt).trans hi, hkeep hlatest fun hfresh => ?_⟩
      exact hfresh.inFlight o ho i hi rfl
    · obtain ⟨n, hn, rfl⟩ := List.mem_map.mp ho
      have hlt : n < (intentsOf effects).length := List.mem_range.mp hn
      have hget : (intentsOf effects)[n]? = some (intentsOf effects)[n] :=
        List.getElem?_eq_getElem hlt
      refine ⟨_, ?_, latest_append hdistinct hget⟩
      exact (List.getElem?_append_right (Nat.le_add_right ..)).trans
        (by rw [Nat.add_sub_cancel_left, hget])
  · exact hkeep (h.workers w d hd) fun hfresh => hfresh.workers w d hd rfl
  · obtain ⟨o, horigin, hlatest⟩ := h.records k value e hdone hlive
    exact ⟨o, horigin, hkeep hlatest fun hfresh =>
      absurd (hfresh.records value e hdone) (Int.not_le.mpr hlive)⟩
  · exact hkeep (h.requests d hd) fun hfresh => hfresh.requests d hd rfl
  · exact hkeep (h.replies reply hreply) fun hfresh => hfresh.replies reply hreply rfl

/-! ### Steps of the effector -/

namespace EffectorService

open Lease

variable {svc : EffectorService} {py : PyLib} {e e' : EffectorState} {b : EffectorAct}
  {es : List EffectorEvent} {w : ℕ} {d : Delivered}

/-- A terminal record is written in a step of its own, for the delivery that its worker is at. -/
theorem perform_completed (h : svc.perform py e b = some (e', es)) {k : String} {token : ℕ}
    {value : Option ToolResult} {u : Int} (hmem : .completed k token value u ∈ marksOf es) :
    marksOf es = [.completed k token value u] ∧
      ∃ w a d, b = .work w a ∧ (e.phases w).delivery = some d ∧ d.intentId = k := by
  rcases perform_cases h with ⟨ms, -, -, rfl⟩ | ⟨w, a, phase, claim, rfl, -, hmoves, -⟩ |
    ⟨w, -, -, -, rfl, -⟩ | ⟨w, claim, ms, -, -, -, -, rfl, -, hms⟩
  · cases hmem
  · cases hmoves with
    | @completed d _ _ _ hphase | @routed d _ _ hphase =>
      obtain ⟨⟩ := List.mem_singleton.mp hmem
      exact ⟨rfl, w, _, d, rfl, by rw [hphase]; rfl, rfl⟩
    | granted _ hforgets | lost _ hforgets | unrouted _ hforgets =>
      rw [mem_marksOf] at hmem
      rcases hforgets with rfl | ⟨record, -, -, rfl⟩ <;> simp at hmem
    | _ => simp [mem_marksOf] at hmem
  · cases hmem
  · rw [marksOf_map] at hmem
    rcases hms with ⟨rfl, -⟩ | rfl | ⟨record, -, -, rfl⟩ <;> simp at hmem

/-- A terminal record in the store was there before the step, which then wrote none under its key,
or the step wrote it. -/
theorem perform_done (h : svc.perform py e b = some (e', es)) {k : String}
    {value : Option ToolResult} {u : Int} (hdone : e'.records k = some (.done value u)) :
    (e.records k = some (.done value u) ∧
        ∀ token value' u', marksOf es ≠ [.completed k token value' u']) ∨
      ∃ token, .completed k token value u ∈ marksOf es := by
  rw [(perform_marks h).2.1] at hdone
  by_cases hwritten : ∃ token, .completed k token value u ∈ marksOf es
  · exact .inr hwritten
  · refine .inl ⟨(applyAll_eq_done hdone).resolve_right hwritten, fun token value' u' hmarks => ?_⟩
    rw [hmarks] at hdone hwritten
    have happly : Table.applyAll e.records [.completed k token value' u'] k =
        some (.done value' u') := by simp [Table.apply]
    cases happly.symm.trans hdone
    exact hwritten ⟨token, List.mem_cons_self⟩

/-- A worker is at a delivery that it was at before, or it is handed the delivery in this step. -/
theorem perform_delivery (h : svc.perform py e b = some (e', es))
    (hd : (e'.phases w).delivery = some d) :
    (e.phases w).delivery = some d ∨ b = .work w (.deliver d) := by
  rcases perform_cases h with ⟨ms, -, rfl, -⟩ | ⟨w', a, phase, claim, rfl, -, hmoves, rfl⟩ |
    ⟨w', -, -, rfl, -, -⟩ | ⟨w', claim, ms, -, -, -, -, -, rfl, -⟩
  · exact .inl hd
  · by_cases hw : w = w'
    · subst hw
      rw [EffectorState.after_phases_self] at hd
      rcases hmoves.progress.current hd with hcurrent | hdelivered
      · exact .inl hcurrent
      · cases hmoves with
        | delivered =>
          cases List.mem_singleton.mp hdelivered
          exact .inr rfl
        | granted | lost | unrouted => simp at hdelivered
        | _ => simp at hdelivered
    · rw [EffectorState.after_phases_of_ne hw] at hd
      exact .inl hd
  · exact .inl hd
  · exact .inl hd

/-- A request is posted for the delivery that its worker is at. -/
theorem perform_notified (h : svc.perform py e b = some (e', es)) {acked : Bool}
    (hmem : .notified w d acked ∈ es) : (e.phases w).delivery = some d := by
  rcases perform_cases h with ⟨ms, -, -, rfl⟩ | ⟨w', a, phase, claim, -, -, hmoves, -⟩ |
    ⟨w', -, -, -, rfl, -⟩ | ⟨w', claim, ms, -, -, -, -, rfl, -, -⟩
  · cases hmem
  · cases hmoves with
    | notified hphase =>
      cases List.mem_singleton.mp hmem
      rw [hphase]
      rfl
    | granted | lost | unrouted => simp at hmem
    | _ => simp at hmem
  · cases hmem
  · simp at hmem

/-- A claim that finds a terminal record finds one that lives, for the delivery of its worker. -/
theorem perform_deduped (h : svc.perform py e b = some (e', es)) {value : Option ToolResult}
    (hmem : .deduped w d value ∈ es) : (e.phases w).delivery = some d ∧ ∃ u,
      e.records d.intentId = some (.done value u) ∧ e.now < u := by
  rcases perform_cases h with ⟨ms, -, -, rfl⟩ | ⟨w', a, phase, claim, -, -, hmoves, -⟩ |
    ⟨w', -, -, -, rfl, -⟩ | ⟨w', claim, ms, -, -, -, -, rfl, -, -⟩
  · cases hmem
  · cases hmoves with
    | deduped hphase hdone hlive =>
      cases List.mem_singleton.mp hmem
      exact ⟨by rcases hphase with hphase | hphase <;> rw [hphase] <;> rfl, _, hdone, hlive⟩
    | granted | lost | unrouted => simp at hmem
    | _ => simp at hmem
  · cases hmem
  · simp at hmem

/-- The results that workers are about to publish answer the intents of their deliveries. -/
theorem run_answered {acts : List EffectorAct} (h : (svc.machine py).Run {} acts es e) :
    Answered es e :=
  h.invariant (I := fun _ es e => Answered es e) .start
    fun hrun ha hstep => ha.step (run_stored hrun) hstep

end EffectorService

/-! ### Steps of the system -/

section Effector

variable {svc : EffectorService} {py : PyLib} {e : EffectorState} {b : EffectorAct}
  {es events : List EffectorEvent}

/-- A reply in flight after a step of the effector was there before, or the step published it for
the delivery that its worker is at. -/
theorem mem_repliesOf {reply : Reply} (h : reply ∈ repliesOf es) :
    ∃ w d result now acked, .published w d result now acked ∈ es ∧
      reply = .outcome d.handle result := by
  obtain ⟨event, hmem, hreply⟩ := List.mem_filterMap.mp h
  cases event with
  | published w d result now acked =>
    cases hreply
    exact ⟨w, d, result, now, acked, hmem, rfl⟩
  | _ => cases hreply

theorem mem_requestsOf {d : Delivered} (h : d ∈ requestsOf es) :
    ∃ w acked, .notified w d acked ∈ es := by
  obtain ⟨event, hmem, hrequest⟩ := List.mem_filterMap.mp h
  cases event with
  | notified w d acked =>
    cases hrequest
    exact ⟨w, acked, hmem⟩
  | _ => cases hrequest

/-- The message behind a terminal record changes only when the record is completed. -/
theorem originAfter_of_other {k : String}
    (h : ∀ token value u, marksOf es ≠ [.completed k token value u]) :
    s.originAfter b es k = s.origin k := by
  unfold System.originAfter
  generalize marksOf es = ms at h
  rcases b with _ | ⟨w, a⟩ | _
  · rfl
  · rcases ms with _ | ⟨m, _ | _⟩
    · rfl
    · cases m with
      | completed k' token value u =>
        have hne : k ≠ k' := fun heq => h token value u (heq ▸ rfl)
        exact Function.update_of_ne hne ..
      | _ => rfl
    · cases m <;> rfl
  · rfl

theorem originAfter_completed {w : ℕ} {a : Work} {d : Delivered} {token : ℕ}
    {value : Option ToolResult} {u : Int}
      (hmarks : marksOf es = [.completed d.intentId token value u])
    (hd : (s.effector.phases w).delivery = some d) :
    s.originAfter (.work w a) es d.intentId = some d.handle := by
  simp [System.originAfter, hmarks, hd]

/-- A step of the effector keeps the invariant. -/
theorem Wired.afterEffector (h : Wired s) (ha : EffectorService.Answered events s.effector)
    (hdeliverable : s.deliverable b = true)
    (hstep : svc.perform py s.effector b = some (e, es)) : Wired (s.afterEffector b e es) := by
  have hnow : s.effector.now ≤ e.now := (EffectorService.perform_marks hstep).2.2.1
  refine ⟨h.inFlight, fun w d hd => ?_, fun k value u hdone hlive => ?_, fun d hd => ?_,
    fun reply hreply => ?_⟩
  · rcases EffectorService.perform_delivery hstep hd with hbefore | rfl
    · exact h.workers w d hbefore
    · -- The delivery is a message in flight.
      simp only [System.deliverable, Bool.and_eq_true, decide_eq_true_eq] at hdeliverable
      obtain ⟨i, hi, hlatest⟩ := h.inFlight d.handle hdeliverable.1
      cases hi.symm.trans hdeliverable.2
      exact hlatest
  · rcases EffectorService.perform_done hstep hdone with ⟨hbefore, hother⟩ | ⟨token, hwritten⟩
    · obtain ⟨o, horigin, hlatest⟩ := h.records k value u hbefore (Int.lt_of_le_of_lt hnow hlive)
      exact ⟨o, (originAfter_of_other hother).trans horigin, hlatest⟩
    · obtain ⟨hmarks, w, a, d, rfl, hd, rfl⟩ := EffectorService.perform_completed hstep hwritten
      exact ⟨d.handle, originAfter_completed hmarks hd, h.workers w d hd⟩
  · rcases List.mem_append.mp hd with hd | hd
    · exact h.requests d hd
    · obtain ⟨w, acked, hmem⟩ := mem_requestsOf hd
      exact h.workers w d (EffectorService.perform_notified hstep hmem)
  · rcases List.mem_append.mp hreply with hreply | hreply
    · exact h.replies reply hreply
    · obtain ⟨w, d, result, now, acked, hmem, rfl⟩ := mem_repliesOf hreply
      obtain ⟨-, -, hphase | hphase⟩ := EffectorService.perform_published hstep hmem
      all_goals
        obtain ⟨hid, -⟩ := (hphase ▸ ha.phases w : EffectorService.PhaseAnswers _)
        have hlatest : Latest s.topic d.intentId d.handle := h.workers w d (by rw [hphase]; rfl)
        rw [← hid] at hlatest
        exact hlatest

end Effector

namespace Deployment

variable {D : Deployment} {a : SystemAct} {os : List SystemEvent}

/-- The effects of the call that a step makes. -/
def effectsOf (D : Deployment) (s : System) (a : SystemAct) : List Effect :=
  match D.callOf a with
  | some c => (D.agent.call D.py D.key s.key c).effects
  | none => []

/-- A step stages fresh intents only: nothing is left of an earlier intent with the id of one of
them. -/
def StagesFresh (D : Deployment) (s : System) (a : SystemAct) : Prop :=
  (intentsOf (D.effectsOf s a)).Pairwise (·.intentId ≠ ·.intentId) ∧
    ∀ i ∈ intentsOf (D.effectsOf s a), s.Fresh i.intentId

/-- A step takes no outcome for that of another intent: a terminal record that a claim finds was
completed for the message that is delivered, and a reply that the key admits was sent for the last
intent with its id. -/
def Wires (D : Deployment) (s : System) (a : SystemAct) (_ : System) (os : List SystemEvent) :
    Prop :=
  (∀ w d value, .effector (.deduped w d value) ∈ os → s.origin d.intentId = some d.handle) ∧
    ∀ reply eventTimeMs w, a = .reply reply eventTimeMs w → ∀ cont,
      D.agent.schema.migrateContinuation s.key.continuation = .ok (some cont) →
      admissionFailure (some cont) s.key.pending reply.intentId eventTimeMs = none →
      Latest s.topic reply.intentId reply.offset

/-- Every step that stages fresh intents keeps the invariant, and takes no outcome for that of
another intent. -/
theorem wired_step {events : List EffectorEvent} (h : Wired s)
    (ha : EffectorService.Answered events s.effector) (hfresh : D.StagesFresh s a)
    (hstep : D.perform s a = some (s', os)) : Wired s' ∧ D.Wires s a s' os := by
  have hreplies : ∀ reply eventTimeMs w, a = .reply reply eventTimeMs w →
      Latest s.topic reply.intentId reply.offset := by
    rintro reply eventTimeMs w rfl
    exact h.replies reply (reply_mem hstep)
  rcases perform_cases hstep with ⟨c, effects, hcallOf, hcall, rfl, rfl⟩ |
    ⟨b, e, es, rfl, hdeliverable, hperform, rfl, rfl⟩ |
    ⟨-, heffector, htopic, horigin, rfl, hinFlight, hrequests, hnew⟩
  · have heffects : D.effectsOf s a = effects := by simp only [effectsOf, hcallOf, hcall]
    rw [StagesFresh, heffects] at hfresh
    exact ⟨h.afterCall hfresh.1 hfresh.2, by simp, fun reply t w heq _ _ _ =>
      hreplies reply t w heq⟩
  · refine ⟨h.afterEffector ha hdeliverable hperform, fun w d value hmem => ?_, by simp⟩
    -- What the claim found and what the worker is at are left of the same message.
    have hdeduped : .deduped w d value ∈ es := by simpa using hmem
    obtain ⟨hd, u, hdone, hlive⟩ := EffectorService.perform_deduped hperform hdeduped
    obtain ⟨o, ho, hlatest⟩ := h.records d.intentId value u hdone hlive
    rw [ho, hlatest.unique (h.workers w d hd)]
  · refine ⟨⟨?_, ?_, ?_, ?_, ?_⟩, by simp, fun reply t w heq _ _ _ => hreplies reply t w heq⟩
    · rw [htopic]
      exact fun o ho => h.inFlight o (hinFlight ho)
    · rw [htopic, heffector]
      exact h.workers
    · rw [htopic, heffector, horigin]
      exact h.records
    · rw [htopic]
      exact fun d hd => h.requests d (hrequests hd)
    · rw [htopic]
      intro reply hreply
      rcases hnew reply hreply with hbefore | ⟨d, hd, hid, hoffset⟩
      · exact h.replies reply hbefore
      · rw [hid, hoffset]
        exact h.requests d hd

/-- **No cross-wiring, if nothing is left of an earlier intent when one is staged with its id.** In
every run of a key and its effector in which, whenever a call emits an intent, nothing is left of an
earlier intent with the same id, every terminal record that a claim finds was completed for the
message that is delivered, and every reply that the key admits was sent for the last intent with its
id. -/
theorem run_wires (D : Deployment) {acts : List SystemAct}
    (h : (D.machine.guarded D.StagesFresh).Run {} acts os s) :
    (D.machine.restrict D.Wires).Run {} acts os s := by
  have hinv : Wired s ∧ (D.machine.restrict D.Wires).Run {} acts os s :=
    h.invariant (I := fun acts os s => Wired s ∧ (D.machine.restrict D.Wires).Run {} acts os s)
      ⟨.start, .refl⟩ fun hrun ih hstep => by
        obtain ⟨acts', e, heffector, rfl⟩ := D.effector_simulation.run rfl hrun.of_guarded
        obtain ⟨hwired, hwires⟩ :=
          wired_step ih.1 (EffectorService.run_answered heffector) hstep.1 hstep.2
        exact ⟨hwired, ih.2.tail ⟨hwires, hstep.2⟩⟩
  exact hinv.2

/-! ### Checking a run -/

/-- The worker that a step belongs to. -/
def workerOf : SystemAct → Option ℕ
  | .effector (.work w _) => some w
  | _ => none

/-- Nothing is left of the intents with an id, not even a claim, if no worker but these is at a
delivery. -/
def FreshAmong (workers : List ℕ) (s : System) (intentId : String) : Prop :=
  (∀ o ∈ s.inFlight, ∀ i ∈ s.topic[o]?, i.intentId ≠ intentId) ∧
    (∀ w ∈ workers, ∀ d ∈ (s.effector.phases w).delivery, d.intentId ≠ intentId) ∧
    (∀ entry ∈ s.effector.records intentId, entry.expiresAt ≤ s.effector.now) ∧
    (∀ d ∈ s.requests, d.intentId ≠ intentId) ∧ ∀ reply ∈ s.replies, reply.intentId ≠ intentId

instance (workers : List ℕ) (s : System) (intentId : String) :
    Decidable (FreshAmong workers s intentId) :=
  inferInstanceAs (Decidable (_ ∧ _ ∧ _ ∧ _ ∧ _))

/-- A step belongs to one of these workers or to none, and stages fresh intents only. -/
def StagesFreshAmong (D : Deployment) (workers : List ℕ) (s : System) (a : SystemAct) : Prop :=
  (∀ w ∈ workerOf a, w ∈ workers) ∧
    (intentsOf (D.effectsOf s a)).Pairwise (·.intentId ≠ ·.intentId) ∧
    ∀ i ∈ intentsOf (D.effectsOf s a), FreshAmong workers s i.intentId

instance (D : Deployment) (workers : List ℕ) (s : System) (a : SystemAct) :
    Decidable (D.StagesFreshAmong workers s a) :=
  inferInstanceAs (Decidable (_ ∧ _ ∧ _))

/-- Only these workers are at deliveries. -/
def BusyAmong (workers : List ℕ) (s : System) : Prop :=
  ∀ w d, (s.effector.phases w).delivery = some d → w ∈ workers

variable {workers : List ℕ}

theorem BusyAmong.fresh (h : BusyAmong workers s) {intentId : String}
    (hfresh : FreshAmong workers s intentId) : s.Fresh intentId := by
  obtain ⟨hinFlight, hworkers, hrecords, hrequests, hreplies⟩ := hfresh
  exact ⟨hinFlight, fun w d hd => hworkers w (h w d hd) d hd,
    fun _ _ hdone => hrecords _ hdone, hrequests, hreplies⟩

/-- A step of one of the workers or of none keeps it so. -/
theorem BusyAmong.step (h : BusyAmong workers s) (ha : ∀ w ∈ workerOf a, w ∈ workers)
    (hstep : D.perform s a = some (s', os)) : BusyAmong workers s' := by
  rcases perform_cases hstep with ⟨c, effects, -, -, rfl, -⟩ |
    ⟨b, e, es, rfl, -, hperform, rfl, -⟩ | ⟨-, heffector, -⟩
  · exact h
  · intro w d hd
    rcases EffectorService.perform_delivery hperform hd with hbefore | rfl
    · exact h w d hbefore
    · exact ha w rfl
  · rw [BusyAmong, heffector]
    exact h

/-- **A run that is checked** as it goes is one whose steps stage fresh intents. -/
theorem run_stagesFresh {acts : List SystemAct}
    (h : Machine.exec (fun s a => if D.StagesFreshAmong workers s a then D.perform s a else none)
      {} acts = some (os, s)) : (D.machine.guarded D.StagesFresh).Run {} acts os s := by
  have hchecked : (D.machine.guarded (D.StagesFreshAmong workers)).Run {} acts os s :=
    .of_exec (fun a _ hstep => by split_ifs at hstep with ha; exact ⟨ha, hstep⟩) h
  have hinv : BusyAmong workers s ∧ (D.machine.guarded D.StagesFresh).Run {} acts os s :=
    hchecked.invariant (I := fun acts os s => BusyAmong workers s ∧
      (D.machine.guarded D.StagesFresh).Run {} acts os s)
      ⟨by simp [BusyAmong, Phase.delivery], .refl⟩ fun _ ih hstep => by
        obtain ⟨⟨hworker, hdistinct, hfresh⟩, hperform⟩ := hstep
        exact ⟨ih.1.step hworker hperform,
          ih.2.tail ⟨⟨hdistinct, fun i hi => ih.1.fresh (hfresh i hi)⟩, hperform⟩⟩
  exact hinv.2

/-! ### A wiped key -/

/-- An agent that charges on the first event and refunds on the others, with an effector. -/
def paying : Deployment where
  agent := {
    agent := .read fun ctx =>
      .perform (.act (if ctx.event = .inl [1] then "charge" else "refund") "{}") fun _ =>
        .ret .complete }
  key := [107]
  effector := {
    leaseMs := 300000
    resultTtlMs := 86400000
    runner := EffectorService.charging.runner }
  py := .ofTable AgentDoFn.identityTable

/-- The message that the agent emits at a time, as delivered. -/
def paid (offset : ℕ) (toolName : String) (ms : Int) : Delivered where
  intent := {
    intentId := "6509fb29-9e35-5f25-bf85-b7860d49a026", entityKey := [107], toolName := toolName
    argsJson := "{}", createdAtMs := ms, expiresAtMs := ms + 3600000, kind := .tool
    traceId := [107, 0] }
  partition := "p"
  handle := offset

/-- What the tool of the charge returned. -/
def chargeResult : ToolResult := intentResult (paid 0 "charge" 1000).intent .ok 1000 [1]

/-- Steps of the effector alone. -/
def effectorSteps (acts : List EffectorAct) : List SystemAct := acts.map .effector

/-- The agent that asks and suspends, with the same effector. -/
def asking : Deployment := { paying with agent := AgentDoFn.askingAgent }

/-- A message of that agent, as delivered. -/
def asked (offset : ℕ) (intentId : String) (stepIndex : ℕ) (ms : Int) : Delivered where
  intent := {
    intentId, entityKey := [107], stepIndex, toolName := "ask", argsJson := "{}", createdAtMs := ms
    expiresAtMs := ms + 3600000, kind := .tool, traceId := [107, 0] }
  partition := "p"
  handle := offset

/-- The messages of the run below: the first and the last one have one id. -/
def firstAsked : Delivered := asked 0 "6509fb29-9e35-5f25-bf85-b7860d49a026" 0 1000
def nextAsked : Delivered := asked 1 "2e047468-1bb8-5717-8cb0-d8e98f15a767" 1 1500
def lastAsked : Delivered := asked 2 "6509fb29-9e35-5f25-bf85-b7860d49a026" 0 90000000

/-- The outcome of a message. -/
def outcome (d : Delivered) (nowMs : Int) : ToolResult := intentResult d.intent .ok nowMs [1]

/-- A message is executed and its outcome is published. -/
def executed (w : ℕ) (d : Delivered) : List EffectorAct :=
  EffectorService.attempt w d ++
    [.work w (.finish (.returned [1])), .work w .complete, .work w .publish, .work w .commit]

/-- A message is delivered once more. -/
def redelivered (w : ℕ) (d : Delivered) : List EffectorAct :=
  [.work w (.deliver d), .work w .check, .work w .claim, .work w .publish, .work w .commit]

/-- The first message is executed, redelivered and answered, and so is the one that the resumed
agent emits. Nothing is in flight any longer and the records have expired when the TTL of the key
strikes and an event makes the agent emit an intent with the id of the first one. -/
def outlivedRun : List SystemAct :=
  [.call (AgentDoFn.eventAt 1000 1)] ++
    effectorSteps ([.tick 1000] ++ executed 0 firstAsked ++ redelivered 1 firstAsked) ++
    [.reply (.outcome 0 (outcome firstAsked 1000)) 1500 quietWorld] ++
    effectorSteps ([.tick 600] ++ executed 1 nextAsked) ++
    [.retireMessage 0, .retireMessage 1, .retireReply (.outcome 0 (outcome firstAsked 1000)),
      .retireReply (.outcome 0 (outcome firstAsked 1000)),
      .retireReply (.outcome 1 (outcome nextAsked 1600)), .call (.onTtl 3601500000 quietWorld),
      .effector (.tick 86400000), .call (AgentDoFn.eventAt 90000000 2)] ++
    effectorSteps (executed 0 lastAsked ++ redelivered 1 lastAsked)

/-- Each redelivery finds the record of its own message. -/
theorem run_wires_outlived : ∃ os s,
    (asking.machine.restrict asking.Wires).Run {} outlivedRun os s ∧
      s.topic = [firstAsked.intent, nextAsked.intent, lastAsked.intent] ∧
      firstAsked.intentId = lastAsked.intentId ∧
      .effector (.deduped 1 firstAsked (some (outcome firstAsked 1000))) ∈ os ∧
      .effector (.deduped 1 lastAsked (some (outcome lastAsked 86401600))) ∈ os := by
  have hexec : (Machine.exec
      (fun s a => if asking.StagesFreshAmong [0, 1] s a then asking.perform s a else none)
        {} outlivedRun).map (fun r => (r.2.topic,
          decide (.effector (.deduped 1 firstAsked (some (outcome firstAsked 1000))) ∈ r.1),
          decide (.effector (.deduped 1 lastAsked (some (outcome lastAsked 86401600))) ∈ r.1))) =
      some ([firstAsked.intent, nextAsked.intent, lastAsked.intent], true, true) := by
    decide +kernel
  obtain ⟨⟨os, s⟩, hr, heq⟩ := Option.map_eq_some_iff.mp hexec
  simp only [Prod.mk.injEq, decide_eq_true_eq] at heq
  obtain ⟨htopic, hfirst, hlast⟩ := heq
  exact ⟨os, s, run_wires asking (run_stagesFresh hr), htopic, rfl, hfirst, hlast⟩

/-- The charge is executed and published. The TTL of the key strikes, and a second event makes the
agent emit a refund under the same id, which is delivered and has not expired. -/
def wipedRun : List SystemAct :=
  [.call (AgentDoFn.eventAt 1000 1)] ++
    effectorSteps ([.tick 1000] ++ EffectorService.attempt 0 (paid 0 "charge" 1000) ++
      [.work 0 (.finish (.returned [1])), .work 0 .complete, .work 0 .publish, .work 0 .commit]) ++
    [.call (.onTtl 3601000000 quietWorld), .call (AgentDoFn.eventAt 3700000 2)] ++
    effectorSteps [.tick 3699000, .work 0 (.deliver (paid 1 "refund" 3700000)), .work 0 .check]

/-- The refund is answered with the outcome of the charge. -/
theorem wiped_key_reuses_outcome :
    let deduped : List SystemEvent :=
      [.effector (.deduped 0 (paid 1 "refund" 3700000) (some chargeResult))]
    ∃ os s s', paying.machine.Run {} wipedRun os s ∧
      s.topic = [(paid 0 "charge" 1000).intent, (paid 1 "refund" 3700000).intent] ∧
      paying.machine.step s (.effector (.work 0 .claim)) s' deduped ∧
      ¬ paying.Wires s (.effector (.work 0 .claim)) s' deduped := by
  intro deduped
  have hexec : (Machine.exec paying.perform {} wipedRun).map (fun r =>
        (r.2.topic, r.2.origin "6509fb29-9e35-5f25-bf85-b7860d49a026",
          (paying.perform r.2 (.effector (.work 0 .claim))).map (·.2))) =
      some ([(paid 0 "charge" 1000).intent, (paid 1 "refund" 3700000).intent], some 0,
        some deduped) := by rfl
  obtain ⟨⟨os, s⟩, hr, heq⟩ := Option.map_eq_some_iff.mp hexec
  simp only [Prod.mk.injEq] at heq
  obtain ⟨htopic, horigin, hstep⟩ := heq
  obtain ⟨⟨s', es⟩, hperform, rfl⟩ := Option.map_eq_some_iff.mp hstep
  refine ⟨os, s, s', .of_exec (fun _ _ => id) hr, htopic, hperform, fun hwires => ?_⟩
  have hsame := hwires.1 _ _ _ List.mem_cons_self
  cases horigin.symm.trans hsame

end Deployment

end BeamAgents
