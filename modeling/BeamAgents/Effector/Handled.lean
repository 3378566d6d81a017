import BeamAgents.Effector.Exclusive

/-!
# The commits of a partition

A commit of `KafkaIntentSource` is cumulative: it covers every delivery up to its own. A worker
commits each delivery that it has handled. It goes on to the next one without a commit in one case,
when a completion finds the claim lost; the next commit then covers that delivery as well, whatever
has become of it. And it commits one delivery without handling it, that which is refused where no
dead-letter sink is configured.

## Main definitions

* `Handled`: the terminal handlings of a delivery.
* `EffectorService.PrefixHandled`: a commit covers handled deliveries only.
* `EffectorService.Settled`: what a commit may cover.

## Main results

* `EffectorService.run_prefixHandled`: in a run whose commits are settled, every commit covers
  handled deliveries only.
* `EffectorService.commit_covers_lost`: a run that commits past an unhandled delivery.
-/

namespace BeamAgents

open Transition Lease

/-- `KafkaIntentSource.commit`: the offset that it commits, which is the next one to read. -/
def Delivered.committedOffset (d : Delivered) : ℕ := d.handle + 1

/-- A delivery of a worker has reached a terminal handling: the result or the approval request of
its intent was published, by whatever worker, or it was dead-lettered. A call that its sink does not
acknowledge does not count. -/
def Handled (log : List EffectorEvent) (w : ℕ) (d : Delivered) : Prop :=
  (∃ w' d' result now, .published w' d' result now true ∈ log ∧ d'.intentId = d.intentId) ∨
    (∃ w' d', .notified w' d' true ∈ log ∧ d'.intentId = d.intentId) ∨
    ∃ reason, .deadLettered w d reason true ∈ log

theorem Handled.mono {log log' : List EffectorEvent} {w : ℕ} {d : Delivered}
    (h : Handled log w d) (hsub : log ⊆ log') : Handled log' w d := by
  rcases h with ⟨w', d', result, now, hmem, hid⟩ | ⟨w', d', hmem, hid⟩ | ⟨reason, hmem⟩
  · exact .inl ⟨w', d', result, now, hsub hmem, hid⟩
  · exact .inr (.inl ⟨w', d', hsub hmem, hid⟩)
  · exact .inr (.inr ⟨reason, hsub hmem⟩)

/-- The delivery that a worker is at. -/
def Phase.delivery : Phase → Option Delivered
  | .idle | .stopped => none
  | .deadLettering d _ | .checking d | .refusing d _ | .claiming d | .waiting d | .claimed d _
  | .running d _ _ | .completing d _ _ | .publishing d _ | .notifying d _ | .routed d _
  | .committing d => some d

/-- The deliveries that the events hand to a worker, in order. -/
def deliveriesTo (w : ℕ) (events : List EffectorEvent) : List Delivered :=
  events.filterMap fun
    | .delivered w' d => if w' = w then some d else none
    | _ => none

theorem mem_deliveriesTo {w : ℕ} {events : List EffectorEvent} {d : Delivered} :
    d ∈ deliveriesTo w events ↔ .delivered w d ∈ events := by
  rw [deliveriesTo, List.mem_filterMap]
  constructor
  · rintro ⟨e, he, heq⟩
    cases e <;> simp_all
  · exact fun h => ⟨_, h, by simp⟩

/-- The deliveries that the events commit, in order. -/
def commitsOf (events : List EffectorEvent) : List Delivered :=
  events.filterMap fun
    | .committed _ d => some d
    | _ => none

@[simp] theorem commitsOf_append (es fs : List EffectorEvent) :
    commitsOf (es ++ fs) = commitsOf es ++ commitsOf fs := List.filterMap_append

theorem mem_commitsOf {events : List EffectorEvent} {d : Delivered} :
    d ∈ commitsOf events ↔ ∃ w, .committed w d ∈ events := by
  rw [commitsOf, List.mem_filterMap]
  constructor
  · rintro ⟨e, he, heq⟩
    cases e <;> simp_all
    exact ⟨_, he⟩
  · rintro ⟨w, h⟩
    exact ⟨_, h, rfl⟩

@[simp] theorem commitsOf_store (ms : List DedupMark) : commitsOf (ms.map .store) = [] := by
  rw [commitsOf, List.filterMap_map, List.filterMap_eq_nil_iff]
  intro m hm
  rfl

namespace EffectorService

/-- A delivery is kept if it is refused: it is dead-lettered, and not only logged. -/
def Retains (svc : EffectorService) (d : Delivered) : Prop :=
  svc.verified d = none ∨ svc.deadLetterSink = true

/-- A delivery is done with: it is handled, or it was refused and logged. -/
def Finished (svc : EffectorService) (events : List EffectorEvent) (w : ℕ) (d : Delivered) : Prop :=
  Handled events w d ∨ ¬ svc.Retains d

/-- What the phase of a worker says about the handling of its current delivery. -/
def PhaseHandled (svc : EffectorService) (events : List EffectorEvent) (w : ℕ) : Phase → Prop
  | .routed d _ => .notified w d true ∈ events
  | .committing d => svc.Finished events w d
  | _ => True

/-- What the phase of a worker says about the verification of its delivery. -/
def Verified (svc : EffectorService) : Phase → Prop
  | .idle | .stopped | .committing _ => True
  | .deadLettering d reason => svc.verified d = some reason
  | .checking d | .refusing d _ | .claiming d | .waiting d | .claimed d _ | .running d _ _
  | .completing d _ _ | .publishing d _ | .notifying d _ | .routed d _ => svc.verified d = none

/-- Every delivery of a worker that is not stopped is accounted for: the worker is at it, or it is
done with, or its claim was lost. -/
structure Accounted (svc : EffectorService) (events : List EffectorEvent) (s : EffectorState) :
    Prop where
  deliveries : ∀ w, s.phases w ≠ .stopped → ∀ d, .delivered w d ∈ events →
    (s.phases w).delivery = some d ∨ svc.Finished events w d ∨ .lost w d ∈ events
  handling : ∀ w, svc.PhaseHandled events w (s.phases w)
  verified : ∀ w, svc.Verified (s.phases w)
  current : ∀ w d, (s.phases w).delivery = some d → .delivered w d ∈ events
  lost : ∀ w d, .lost w d ∈ events → svc.verified d = none
  refused : ∀ w d reason acked, .deadLettered w d reason acked ∈ events →
    svc.verified d = some reason
  committed : ∀ w d, .committed w d ∈ events → svc.Finished events w d
  /-- A terminal record without a result is that of a routed approval. -/
  routed : ∀ k token e, .store (.completed k token none e) ∈ events →
    ∃ w d, .notified w d true ∈ events ∧ d.intentId = k

variable {svc : EffectorService} {py : PyLib} {s s' : EffectorState} {w : ℕ} {a : Work}
  {es events : List EffectorEvent} {phase : Phase} {claim : Option ActiveClaim}

theorem Accounted.start : Accounted svc [] {} :=
  ⟨by simp, fun _ => trivial, fun _ => trivial, fun _ _ h => (by cases h), by simp, by simp,
    by simp, by simp⟩

theorem Finished.mono {d : Delivered} (h : svc.Finished events w d) {events' : List EffectorEvent}
    (hsub : events ⊆ events') : svc.Finished events' w d := h.imp_left (·.mono hsub)

theorem PhaseHandled.mono (h : svc.PhaseHandled events w phase) {events' : List EffectorEvent}
    (hsub : events ⊆ events') : svc.PhaseHandled events' w phase := by
  cases phase with
  | routed d token => exact hsub h
  | committing d => exact Finished.mono h hsub
  | _ => trivial

/-- How a step of worker `w` goes on with its deliveries: it stays at one, takes the next one, ends
one by a commit, gives one up whose claim is lost, or stops. -/
inductive Progress (s : EffectorState) (w : ℕ) : Phase → List EffectorEvent → Prop
  | stays {next fs} (hlive : s.phases w ≠ .stopped)
      (hdelivery : next.delivery = (s.phases w).delivery)
      (hquiet : ∀ w' d, .delivered w' d ∉ fs ∧ .lost w' d ∉ fs) : Progress s w next fs
  | takes {d next} (h : s.phases w = .idle) (hdelivery : next.delivery = some d) :
      Progress s w next [.delivered w d]
  | commits {d} (h : s.phases w = .committing d) : Progress s w .idle [.committed w d]
  | loses {d} {ms : List DedupMark} (h : (s.phases w).delivery = some d) :
      Progress s w .idle (ms.map .store ++ [.lost w d])
  | stops : Progress s w .stopped [.stopped w]

theorem Moves.progress (h : Moves svc py s w a phase claim es) : Progress s w phase es := by
  cases h with
  | delivered h =>
    refine .takes h ?_
    unfold received
    split
    · split_ifs <;> rfl
    · rfl
  | @deadLettered _ _ acked h | @refused _ _ acked h | @published _ _ acked h
  | @notified _ _ acked h => exact .stays (by simp [h]) (by rw [h]; cases acked <;> rfl) (by simp)
  | granted h hforgets | inFlight h =>
    rcases h with h | h <;> exact .stays (by simp [h]) (by simp [h, Phase.delivery]) (by simp)
  | @deduped _ result _ h =>
    rcases h with h | h <;> exact .stays (by simp [h]) (by rw [h]; cases result <;> rfl) (by simp)
  | committed h => exact .commits h
  | lost h hforgets | unrouted h hforgets => exact .loses (by rw [h]; rfl)
  | stopped | escaped | raised => exact .stops
  | expired h | current h | notifies h | invoked h | answered h | finished h | completed h
  | routed h => exact .stays (by simp [h]) (by rw [h]; rfl) (by simp)

/-- A step takes or gives up deliveries of its own worker only. -/
theorem Progress.delivered_mem (h : Progress s w phase es) {w' : ℕ} {d : Delivered}
    (hmem : .delivered w' d ∈ es) : w' = w ∧ phase.delivery = some d := by
  cases h with
  | stays _ _ hquiet => exact absurd hmem (hquiet w' d).1
  | takes _ hdelivery =>
    cases List.mem_singleton.mp hmem
    exact ⟨rfl, hdelivery⟩
  | _ => simp at hmem

/-- A worker is at a delivery that it was at before, or that it is handed now. -/
theorem Progress.current (h : Progress s w phase es) {d : Delivered}
    (hphase : phase.delivery = some d) : (s.phases w).delivery = some d ∨ .delivered w d ∈ es := by
  cases h with
  | stays _ hdelivery _ => exact .inl (hdelivery ▸ hphase)
  | takes _ hdelivery =>
    cases hdelivery.symm.trans hphase
    exact .inr List.mem_cons_self
  | _ => cases hphase

/-- A worker that is about to commit is done with its delivery. -/
theorem Moves.handling (hs : Stored events s) (ha : Accounted svc events s)
    (h : Moves svc py s w a phase claim es) : svc.PhaseHandled (events ++ es) w phase := by
  have hbefore {p : Phase} (hp : s.phases w = p) : svc.PhaseHandled (events ++ es) w p :=
    (hp ▸ ha.handling w : svc.PhaseHandled events w p).mono (List.subset_append_left ..)
  cases h with
  | @delivered d =>
    unfold received
    split
    · rename_i reason hrefused
      split_ifs with hsink
      · trivial
      · exact .inr fun hretains => hretains.elim (fun hnone => by cases hnone.symm.trans hrefused)
          hsink
    · trivial
  | @deadLettered d reason acked =>
    cases acked
    · trivial
    · exact .inl (.inr (.inr ⟨reason, by simp⟩))
  | @refused d result acked | @published d result acked =>
    cases acked
    · trivial
    · exact .inl (.inl ⟨w, d, result, s.now, by simp, rfl⟩)
  | @notified d token acked =>
    cases acked
    · trivial
    · show EffectorEvent.notified w d true ∈ events ++ [.notified w d true]
      simp
  | @deduped d result e _ hdone =>
    cases result with
    | some result => trivial
    | none =>
      obtain ⟨token, hwritten⟩ := hs.written hdone
      obtain ⟨w', d', hnotified, hid⟩ := ha.routed _ _ _ hwritten
      exact .inl (.inr (.inl ⟨w', d', List.mem_append_left _ hnotified, hid⟩))
  | @routed d token e h => exact .inl (.inr (.inl ⟨w, d, hbefore h, rfl⟩))
  | _ => trivial

theorem verified_received (svc : EffectorService) (d : Delivered) :
    svc.Verified (svc.received d) := by
  unfold received
  split
  · rename_i reason hrefused
    split_ifs
    · exact hrefused
    · trivial
  · rename_i hnone
    exact hnone

/-- The phase of a worker goes on telling what the verification said. -/
theorem Moves.verified (h : Moves svc py s w a phase claim es) (hs : svc.Verified (s.phases w)) :
    svc.Verified phase := by
  have hbefore {p : Phase} (hp : s.phases w = p) : svc.Verified p := hp ▸ hs
  cases h with
  | delivered => exact verified_received ..
  | @deadLettered _ _ acked h | @refused _ _ acked h | @published _ _ acked h =>
    cases acked
    · exact hbefore h
    · trivial
  | @notified _ _ acked h =>
    cases acked
    · exact hbefore h
    · exact (hbefore h : svc.Verified (.notifying _ _))
  | expired h | current h => exact (hbefore h : svc.Verified (.checking _))
  | granted h | inFlight h =>
    rcases h with h | h
    · exact (hbefore h : svc.Verified (.claiming _))
    · exact (hbefore h : svc.Verified (.waiting _))
  | @deduped _ result _ h =>
    cases result with
    | none => trivial
    | some result =>
      rcases h with h | h
      · exact (hbefore h : svc.Verified (.claiming _))
      · exact (hbefore h : svc.Verified (.waiting _))
  | notifies h | invoked h | answered h => exact (hbefore h : svc.Verified (.claimed _ _))
  | finished h => exact (hbefore h : svc.Verified (.running _ _ _))
  | completed h => exact (hbefore h : svc.Verified (.completing _ _ _))
  | routed | lost | unrouted | committed | stopped | escaped | raised => trivial

/-- A delivery whose claim is lost passed the verification. -/
theorem Moves.verified_lost (h : Moves svc py s w a phase claim es)
    (hs : svc.Verified (s.phases w)) {w' : ℕ} {d : Delivered} (hmem : .lost w' d ∈ es) :
    svc.verified d = none := by
  cases h with
  | lost h =>
    obtain ⟨-, rfl⟩ : w' = w ∧ d = _ := by simpa using hmem
    rwa [h] at hs
  | unrouted h =>
    obtain ⟨-, rfl⟩ : w' = w ∧ d = _ := by simpa using hmem
    rwa [h] at hs
  | _ => simp at hmem

/-- A delivery that is dead-lettered was refused. -/
theorem Moves.verified_refused (h : Moves svc py s w a phase claim es)
    (hs : svc.Verified (s.phases w)) {w' : ℕ} {d : Delivered} {reason : VerificationResult}
    {acked : Bool} (hmem : .deadLettered w' d reason acked ∈ es) :
    svc.verified d = some reason := by
  cases h with
  | deadLettered h =>
    cases List.mem_singleton.mp hmem
    rwa [h] at hs
  | _ => simp at hmem

/-- A commit is that of the delivery the worker was at. -/
theorem Moves.committed_mem (h : Moves svc py s w a phase claim es) {w' : ℕ} {d : Delivered}
    (hmem : .committed w' d ∈ es) : w' = w ∧ s.phases w = .committing d := by
  cases h with
  | committed h =>
    cases List.mem_singleton.mp hmem
    exact ⟨rfl, h⟩
  | _ => simp at hmem

/-- The terminal record of a routed approval is written after the request was published. -/
theorem Moves.routed_mark (ha : Accounted svc events s) (h : Moves svc py s w a phase claim es)
    {k : String} {token : ℕ} {e : Int} (hmem : .store (.completed k token none e) ∈ es) :
    ∃ w' d, .notified w' d true ∈ events ∧ d.intentId = k := by
  cases h with
  | @routed d token' e' h =>
    cases List.mem_singleton.mp hmem
    exact ⟨w, d, (h ▸ ha.handling w : svc.PhaseHandled events w (.routed d token)), rfl⟩
  | granted _ hforgets | lost _ hforgets | unrouted _ hforgets =>
    rcases hforgets with rfl | ⟨record, -, -, rfl⟩ <;> simp at hmem
  | _ => simp at hmem

/-- A step of a worker keeps its deliveries accounted for. -/
theorem Accounted.moves (hs : Stored events s) (ha : Accounted svc events s)
    (h : Moves svc py s w a phase claim es) :
    Accounted svc (events ++ es) (s.after w phase claim es) := by
  have hsub : events ⊆ events ++ es := List.subset_append_left ..
  -- What is accounted for stays so.
  have hkeep {w' : ℕ} {d : Delivered} (hd : svc.Finished events w' d ∨ .lost w' d ∈ events) :
      svc.Finished (events ++ es) w' d ∨ .lost w' d ∈ events ++ es :=
    hd.imp (·.mono hsub) fun hlost => hsub hlost
  have hprogress := h.progress
  refine ⟨fun w' hstopped d hmem => ?_, fun w' => ?_, fun w' => ?_, fun w' d hphase => ?_,
    fun w' d hmem => ?_, fun w' d reason acked hmem => ?_, fun w' d hmem => ?_,
    fun k token e hmem => ?_⟩
  · by_cases hw : w' = w
    · subst hw
      rw [EffectorState.after_phases_self] at hstopped ⊢
      have hold := ha.deliveries w'
      cases hprogress with
      | stays hlive hdelivery hquiet =>
        have hmem : .delivered w' d ∈ events := by simpa [(hquiet w' d).1] using hmem
        exact hdelivery ▸ (hold hlive d hmem).imp_right hkeep
      | @takes d' _ hidle hdelivery =>
        rcases List.mem_append.mp hmem with hmem | hmem
        · have hprior := hold (by simp [hidle]) d hmem
          rw [hidle] at hprior
          exact .inr (hkeep (hprior.resolve_left (by simp [Phase.delivery])))
        · cases List.mem_singleton.mp hmem
          exact .inl hdelivery
      | @commits d' hcommitting =>
        have hmem : .delivered w' d ∈ events := by simpa using hmem
        have hfinished : svc.PhaseHandled events w' (.committing d') := hcommitting ▸ ha.handling w'
        rcases hold (by simp [hcommitting]) d hmem with hcurrent | hprior
        · rw [hcommitting] at hcurrent
          cases hcurrent
          exact .inr (hkeep (.inl hfinished))
        · exact .inr (hkeep hprior)
      | @loses d' ms hdelivery =>
        have hmem : .delivered w' d ∈ events := by simpa using hmem
        have hlive : s.phases w' ≠ .stopped := fun hp => by simp [hp, Phase.delivery] at hdelivery
        rcases hold hlive d hmem with hcurrent | hprior
        · cases hdelivery.symm.trans hcurrent
          exact .inr (.inr (by simp))
        · exact .inr (hkeep hprior)
      | stops => exact absurd rfl hstopped
    · rw [EffectorState.after_phases_of_ne hw] at hstopped ⊢
      have hmem : .delivered w' d ∈ events :=
        (List.mem_append.mp hmem).resolve_right fun hnew => hw (hprogress.delivered_mem hnew).1
      exact (ha.deliveries w' hstopped d hmem).imp_right hkeep
  · by_cases hw : w' = w
    · subst hw
      rw [EffectorState.after_phases_self]
      exact h.handling hs ha
    · rw [EffectorState.after_phases_of_ne hw]
      exact (ha.handling w').mono hsub
  · by_cases hw : w' = w
    · subst hw
      rw [EffectorState.after_phases_self]
      exact h.verified (ha.verified w')
    · rw [EffectorState.after_phases_of_ne hw]
      exact ha.verified w'
  · by_cases hw : w' = w
    · subst hw
      rw [EffectorState.after_phases_self] at hphase
      rcases hprogress.current hphase with hcurrent | hnew
      · exact hsub (ha.current w' d hcurrent)
      · exact List.mem_append_right _ hnew
    · rw [EffectorState.after_phases_of_ne hw] at hphase
      exact hsub (ha.current w' d hphase)
  · rcases List.mem_append.mp hmem with hmem | hmem
    · exact ha.lost w' d hmem
    · exact h.verified_lost (ha.verified w) hmem
  · rcases List.mem_append.mp hmem with hmem | hmem
    · exact ha.refused w' d reason acked hmem
    · exact h.verified_refused (ha.verified w) hmem
  · rcases List.mem_append.mp hmem with hmem | hmem
    · exact (ha.committed w' d hmem).mono hsub
    · obtain ⟨rfl, hphase⟩ := h.committed_mem hmem
      have hfinished : svc.PhaseHandled events w' (.committing d) := hphase ▸ ha.handling w'
      exact Finished.mono hfinished hsub
  · rcases List.mem_append.mp hmem with hmem | hmem
    · obtain ⟨w', d, hnotified, hid⟩ := ha.routed k token e hmem
      exact ⟨w', d, hsub hnotified, hid⟩
    · obtain ⟨w', d, hnotified, hid⟩ := h.routed_mark ha hmem
      exact ⟨w', d, hsub hnotified, hid⟩

/-- A step that makes changes of the store only keeps the deliveries accounted for. -/
theorem Accounted.changes (ha : Accounted svc events s) (hphases : s'.phases = s.phases)
    {ms : List DedupMark} (hes : es = ms.map .store)
    (hms : ∀ k token e, .completed k token none e ∉ ms) : Accounted svc (events ++ es) s' := by
  subst hes
  have hsub : events ⊆ events ++ ms.map .store := List.subset_append_left ..
  refine ⟨fun w hstopped d hmem => ?_, fun w => ?_, fun w => ?_, fun w d hphase => ?_,
    fun w d hmem => ?_, fun w d reason acked hmem => ?_, fun w d hmem => ?_,
    fun k token e hmem => ?_⟩
  · rw [hphases] at hstopped ⊢
    exact (ha.deliveries w hstopped d (by simpa using hmem)).imp_right
      (.imp (·.mono hsub) (hsub ·))
  · rw [hphases]
    exact (ha.handling w).mono hsub
  · rw [hphases]
    exact ha.verified w
  · rw [hphases] at hphase
    exact hsub (ha.current w d hphase)
  · exact ha.lost w d (by simpa using hmem)
  · exact ha.refused w d reason acked (by simpa using hmem)
  · exact (ha.committed w d (by simpa using hmem)).mono hsub
  · obtain ⟨w, d, hnotified, hid⟩ := ha.routed k token e (by simpa [hms] using hmem)
    exact ⟨w, d, hsub hnotified, hid⟩

/-- Every step keeps the deliveries accounted for. -/
theorem Accounted.step (hs : Stored events s) (ha : Accounted svc events s) {act : EffectorAct}
    (h : svc.perform py s act = some (s', es)) : Accounted svc (events ++ es) s' := by
  rcases perform_cases h with ⟨ms, -, rfl, rfl⟩ | ⟨w, a, phase, claim, -, -, hmoves, rfl⟩ |
    ⟨w, -, -, rfl, rfl, -⟩ | ⟨w, claim, ms, -, -, -, -, rfl, rfl, hms⟩
  · exact Accounted.changes ha (by rfl) (List.map_nil).symm (by simp)
  · exact ha.moves hs hmoves
  · exact Accounted.changes ha (by rfl) (List.map_nil).symm (by simp)
  · refine Accounted.changes ha (by rfl) rfl fun k token e hmem => ?_
    rcases hms with ⟨rfl, -⟩ | hforgets | ⟨record, -, -, rfl⟩ <;> simp_all

/-- What the commits of a step have to cover after a history: deliveries that are handled. -/
def PrefixHandled (log es : List EffectorEvent) : Prop :=
  ∀ w d, .committed w d ∈ es → ∀ d', .delivered w d' ∈ log → d'.handle < d.committedOffset →
    Handled log w d'

/-- A commit is settled when each delivery that it covers has passed the verification, or there is a
dead-letter sink, and when the intent of each of them that has lost its claim has been committed by
the worker that took the claim over. -/
def Settled (svc : EffectorService) (x : EffectorState × List EffectorEvent) : EffectorAct → Prop
  | .work w .commit =>
    match x.1.phases w with
    | .committing d => ∀ d' ∈ deliveriesTo w x.2, d'.handle < d.committedOffset →
        svc.Retains d' ∧ (.lost w d' ∈ x.2 → ∃ d'' ∈ commitsOf x.2, d''.intent = d'.intent)
    | _ => True
  | _ => True

instance (svc : EffectorService) (x : EffectorState × List EffectorEvent) (act : EffectorAct) :
    Decidable (svc.Settled x act) := by
  unfold Settled Retains
  split
  · split <;> infer_instance
  · infer_instance

/-- A commit happens in the phase for it. -/
theorem perform_committed {act : EffectorAct} (h : svc.perform py s act = some (s', es))
    {d : Delivered} (hmem : .committed w d ∈ es) :
    act = .work w .commit ∧ s.phases w = .committing d := by
  rcases perform_cases h with ⟨ms, -, -, rfl⟩ | ⟨w', a, phase, claim, rfl, -, hmoves, -⟩ |
    ⟨w', -, -, -, rfl, -⟩ | ⟨w', claim, ms, -, -, -, -, rfl, -, -⟩
  · cases hmem
  · cases hmoves with
    | committed hp =>
      cases List.mem_singleton.mp hmem
      exact ⟨rfl, hp⟩
    | _ => simp at hmem
  · cases hmem
  · simp at hmem

/-- A lost delivery is handled when another worker has committed its intent: the verification lets
the intent through, so that it was not dead-lettered there. -/
theorem Accounted.handled_of_committed (ha : Accounted svc events s) {w' : ℕ} {d d' : Delivered}
    (hlost : .lost w d ∈ events) (hcommitted : .committed w' d' ∈ events)
    (hintent : d'.intent = d.intent) : Handled events w d := by
  have hverified : svc.verified d' = none := by
    have hsame : svc.verified d' = svc.verified d := by
      simp only [EffectorService.verified, hintent]
    rw [hsame, ha.lost w d hlost]
  have hid : d'.intentId = d.intentId := congrArg ToolIntent.intentId hintent
  rcases (ha.committed w' d' hcommitted).resolve_right (not_not.mpr (.inl hverified)) with
    ⟨v, x, result, now, hmem, hx⟩ | ⟨v, x, hmem, hx⟩ | ⟨reason, hmem⟩
  · exact .inl ⟨v, x, result, now, hmem, hx.trans hid⟩
  · exact .inr (.inl ⟨v, x, hmem, hx.trans hid⟩)
  · cases hverified.symm.trans (ha.refused w' d' reason true hmem)

/-- A settled commit covers handled deliveries only. -/
theorem prefixHandled_of_settled (ha : Accounted svc events s) {act : EffectorAct}
    (h : svc.perform py s act = some (s', es)) (hsettled : svc.Settled (s, events) act) :
    PrefixHandled events es := by
  intro w d hmem d' hdelivered hcovered
  obtain ⟨rfl, hphase⟩ := perform_committed h hmem
  rw [Settled, hphase] at hsettled
  obtain ⟨hretains, howner⟩ := hsettled d' (mem_deliveriesTo.mpr hdelivered) hcovered
  have hdone : svc.Finished events w d' → Handled events w d' :=
    fun hfinished => hfinished.resolve_right (not_not.mpr hretains)
  rcases ha.deliveries w (by simp [hphase]) d' hdelivered with hcurrent | hfinished | hlost
  · rw [hphase] at hcurrent
    cases hcurrent
    exact hdone (hphase ▸ ha.handling w : svc.PhaseHandled events w (.committing d))
  · exact hdone hfinished
  · obtain ⟨d'', hmem, hintent⟩ := howner hlost
    obtain ⟨w', hcommitted⟩ := mem_commitsOf.mp hmem
    exact ha.handled_of_committed hlost hcommitted hintent

/-- **A committed prefix is a handled prefix, unless it covers a lost claim** (or a refusal that is
only logged). In every run in which a worker commits past a delivery that has lost its claim only
when another worker has committed the intent of that delivery, and past a delivery that the
verification refuses only with a dead-letter sink, every commit covers handled deliveries only. -/
theorem run_prefixHandled (svc : EffectorService) (py : PyLib) {acts : List EffectorAct}
    {es : List EffectorEvent} {x : EffectorState × List EffectorEvent}
    (h : ((svc.machine py).logged.guarded svc.Settled).Run ({}, []) acts es x) :
    ((svc.machine py).logged.restrict fun x _ _ es => PrefixHandled x.2 es).Run ({}, []) acts es
      x := by
  refine h.restrict_of_guarded (I := fun x => Stored x.2 x.1 ∧ Accounted svc x.2 x.1)
    ⟨.start, .start⟩ ?_ ?_
  · rintro ⟨s, log⟩ act ⟨s', log'⟩ os ⟨hs, ha⟩ - ⟨hstep, rfl⟩
    exact ⟨hs.step hstep, ha.step hs hstep⟩
  · rintro ⟨s, log⟩ act ⟨s', log'⟩ os ⟨hs, ha⟩ hsettled ⟨hstep, -⟩
    exact prefixHandled_of_settled ha hstep hsettled

/-- The next call in the partition. -/
def nextCharge : Delivered :=
  { charge with intent := { charge.intent with intentId := "b" }, handle := 1 }

/-- The lease of the first call expires while its tool runs. -/
def expiringRun : List EffectorAct :=
  attempt 0 charge ++ [.tick 100, .work 0 (.finish (.returned [1])), .work 0 .complete]

/-- A worker executes and publishes a call. -/
def publishingRun (w : ℕ) (d : Delivered) (payload : Bytes) : List EffectorAct :=
  attempt w d ++ [.work w (.finish (.returned payload)), .work w .complete, .work w .publish]

/-- The first call loses its claim, another worker takes it over and commits it, and then the next
call is committed as well. -/
theorem run_prefixHandled_taken : ∃ es x,
    ((charging.machine (.ofTable [])).logged.restrict fun x _ _ es => PrefixHandled x.2 es).Run
      ({}, []) (expiringRun ++ publishingRun 1 charge [1] ++ [.work 1 .commit] ++
        publishingRun 0 nextCharge [2] ++ [.work 0 .commit]) es x ∧
    .lost 0 charge ∈ x.2 ∧ .committed 0 nextCharge ∈ x.2 := by
  have hexec : (Machine.exec (Machine.withHistory (charging.perform (.ofTable []))
      charging.Settled) ({}, []) (expiringRun ++ publishingRun 1 charge [1] ++ [.work 1 .commit] ++
        publishingRun 0 nextCharge [2] ++ [.work 0 .commit])).map (fun r =>
          decide (.lost 0 charge ∈ r.2.2 ∧ .committed 0 nextCharge ∈ r.2.2)) = some true := by rfl
  obtain ⟨⟨es, x⟩, hr, hmem⟩ := Option.map_eq_some_iff.mp hexec
  exact ⟨es, x, run_prefixHandled charging _ (.of_withHistory (fun _ h => h) hr),
    of_decide_eq_true hmem⟩

/-- The history of the run. -/
def lostLog : List EffectorEvent :=
  [.delivered 0 charge, .store (.granted "a" 0 100), .invoked 0 charge 0,
    .store (.forgot "a" (.held 0 100) 100), .lost 0 charge, .delivered 0 nextCharge,
    .store (.granted "b" 1 200), .invoked 0 nextCharge 1,
    .store (.completed "b" 1 (some (intentResult nextCharge.intent .ok 100 [2])) 1100),
    .published 0 nextCharge (intentResult nextCharge.intent .ok 100 [2]) 100 true]

/-- The first call loses its claim, and the next one is executed and published. The commit of the
next call covers the first one, of which nothing was published. -/
theorem commit_covers_lost : ∃ s s',
    (charging.machine (.ofTable [])).logged.Run ({}, [])
      (expiringRun ++ publishingRun 0 nextCharge [2]) lostLog (s, lostLog) ∧
    (charging.machine (.ofTable [])).step s (.work 0 .commit) s' [.committed 0 nextCharge] ∧
    ¬ PrefixHandled lostLog [.committed 0 nextCharge] := by
  have hexec : (Machine.exec (charging.perform (.ofTable [])) {}
        (expiringRun ++ publishingRun 0 nextCharge [2])).map (fun r =>
          (r.1, (charging.perform (.ofTable []) r.2 (.work 0 .commit)).map (·.2))) =
      some (lostLog, some [.committed 0 nextCharge]) := by rfl
  obtain ⟨⟨log, s⟩, hr, heq⟩ := Option.map_eq_some_iff.mp hexec
  simp only [Prod.mk.injEq] at heq
  obtain ⟨rfl, hstep⟩ := heq
  obtain ⟨⟨s', os⟩, hperform, rfl⟩ := Option.map_eq_some_iff.mp hstep
  refine ⟨s, s', Machine.Run.logged (.of_exec (fun _ _ => id) hr), hperform, fun hprefix => ?_⟩
  have hdelivered : .delivered 0 charge ∈ lostLog := by decide
  have hhandled := hprefix _ _ List.mem_cons_self _ hdelivered (by decide)
  simp [Handled, lostLog, nextCharge, charge, Delivered.intentId] at hhandled

end EffectorService

end BeamAgents
