import BeamAgents.Effector.Handled

/-!
# A delivery can be taken through its phases

Whatever the store holds, a worker that has received a delivery can take it to its commit, as long
as the sinks answer, the clock goes on, and the execution of the intent does not raise: it
dead-letters the delivery or refuses it, or it waits out the lease of another owner, executes the
intent or routes it, and publishes. What is said here is that the phases have no dead end.

## Main definitions

* `EffectorService.worker`: the steps of one worker, and the clock.
* `EffectorService.CanCommit`: the worker can take its delivery to the commit.

## Main results

* `EffectorService.canCommit_received`.
-/

namespace BeamAgents

open Transition Lease

/-- The worker takes a delivery off its queue. -/
def Work.delivers : Work → Bool
  | .deliver _ => true
  | _ => false

namespace EffectorService

variable (svc : EffectorService) (py : PyLib) (w : ℕ)

/-- The steps of a worker between two deliveries, and those of the clock. -/
def worker : Machine EffectorState EffectorAct EffectorEvent where
  step s act s' es := ((∃ ms, act = .tick ms) ∨ ∃ a, act = .work w a ∧ a.delivers = false) ∧
    svc.perform py s act = some (s', es)

/-- The worker can take its delivery to the commit. -/
def CanCommit (d : Delivered) (s : EffectorState) : Prop :=
  ∃ acts es s', (svc.worker py w).Run s acts es s' ∧ s'.phases w = .idle ∧ s'.turn = none ∧
    commitsOf es = [d]

variable {svc py w} {s s' : EffectorState} {es : List EffectorEvent} {d : Delivered} {a : Work}
  {token : ℕ} {e : Int} {result : ToolResult}

/-- A step of the worker that commits nothing. -/
theorem CanCommit.work (h : svc.CanCommit py w d s') (ha : a.delivers = false)
    (hturn : s.turn = none ∨ s.turn = some w) (hstep : svc.work py s w a = some (s', es))
    (hes : commitsOf es = []) : svc.CanCommit py w d s := by
  obtain ⟨acts, fs, t, hrun, hidle, hnone, hcommits⟩ := h
  have hperform : svc.perform py s (.work w a) = some (s', es) := by
    rw [perform, if_pos hturn, hstep]
  have hfirst : (svc.worker py w).Run s [.work w a] es s' :=
    .single ⟨.inr ⟨a, rfl, ha⟩, hperform⟩
  refine ⟨_, _, t, hfirst.append hrun, hidle, hnone, ?_⟩
  rw [commitsOf_append, hes, hcommits, List.nil_append]

/-- The clock goes on. -/
theorem CanCommit.tick {ms : ℕ} (h : svc.CanCommit py w d { s with now := s.now + ms }) :
    svc.CanCommit py w d s := by
  obtain ⟨acts, fs, t, hrun, hidle, hnone, hcommits⟩ := h
  have hfirst : (svc.worker py w).Run s [.tick ms] [] { s with now := s.now + ms } :=
    .single ⟨.inl ⟨ms, rfl⟩, rfl⟩
  exact ⟨_, _, t, hfirst.append hrun, hidle, hnone, hcommits⟩

/-- A worker that moves keeps the event loop or parks. -/
theorem turn_moveTo (s : EffectorState) (w : ℕ) (phase : Phase) :
    (s.moveTo w phase).turn = none ∨ (s.moveTo w phase).turn = some w := by
  simp only [EffectorState.moveTo]
  split_ifs
  · exact .inl rfl
  · exact .inr rfl

@[simp] theorem phases_moveTo (s : EffectorState) (w : ℕ) (phase : Phase) :
    (s.moveTo w phase).phases w = phase := Function.update_self ..

theorem canCommit_committing (hphase : s.phases w = .committing d)
    (hturn : s.turn = none ∨ s.turn = some w) : svc.CanCommit py w d s := by
  have hperform : svc.perform py s (.work w .commit) =
      some ((s.moveTo w .idle).register w none, [.committed w d]) := by
    rw [perform, if_pos hturn]
    unfold EffectorService.work
    simp only [hphase]
  exact ⟨[.work w .commit], [.committed w d], _, .single ⟨.inr ⟨.commit, rfl, rfl⟩, hperform⟩,
    phases_moveTo .., rfl, rfl⟩

theorem canCommit_publishing (hphase : s.phases w = .publishing d result)
    (hturn : s.turn = none ∨ s.turn = some w) : svc.CanCommit py w d s := by
  have hstep : svc.work py s w (.publish true) =
      some (s.moveTo w (.committing d), [.published w d result s.now true]) := by
    unfold EffectorService.work
    simp only [hphase, if_true]
  exact (canCommit_committing (phases_moveTo ..) (turn_moveTo ..)).work rfl hturn hstep rfl

/-- A completion by the owner of the live claim is stored. -/
theorem completeStep_held (svc : EffectorService) (w : ℕ) (value : Option ToolResult) (next : Phase)
    (hheld : s.records d.intentId = some (.held token e)) (hlive : s.now < e) :
    ∃ (records : InMemoryDedupStore) (marks : List DedupMark),
      svc.completeStep s w d token value next =
        ({ s.moveTo w next with records := records }, marks.map .store) := by
  have hstored : (InMemoryDedupStore.complete s.records s.now d.intentId token value
      svc.resultTtlMs).2 = true := by
    rcases InMemoryDedupStore.complete_cases s.records s.now d.intentId token value
      svc.resultTtlMs with ⟨-, -, -, hstored, -⟩ | ⟨-, hnot, -⟩
    · exact hstored
    · exact absurd (hnot e hheld) (Int.not_le.mpr hlive)
  refine ⟨(InMemoryDedupStore.complete s.records s.now d.intentId token value svc.resultTtlMs).1,
    InMemoryDedupStore.completeMarks s.records s.now d.intentId token value svc.resultTtlMs, ?_⟩
  simp only [completeStep, hstored, if_true]

theorem canCommit_completing (hphase : s.phases w = .completing d token result)
    (hturn : s.turn = none ∨ s.turn = some w)
    (hheld : s.records d.intentId = some (.held token e)) (hlive : s.now < e) :
    svc.CanCommit py w d s := by
  obtain ⟨records, marks, hcomplete⟩ :=
    completeStep_held svc w (some result) (.publishing d result) hheld hlive
  have hstep : svc.work py s w .complete = some
      ({ s.moveTo w (.publishing d result) with records := records }, marks.map .store) := by
    unfold EffectorService.work
    simp only [hphase, hcomplete]
  have hnext : svc.CanCommit py w d
      { s.moveTo w (.publishing d result) with records := records } :=
    canCommit_publishing (phases_moveTo ..) (turn_moveTo s w (.publishing d result))
  exact hnext.work rfl hturn hstep (commitsOf_store marks)

theorem canCommit_routed (hphase : s.phases w = .routed d token)
    (hturn : s.turn = none ∨ s.turn = some w)
    (hheld : s.records d.intentId = some (.held token e)) (hlive : s.now < e) :
    svc.CanCommit py w d s := by
  obtain ⟨records, marks, hcomplete⟩ :=
    completeStep_held svc w none (.committing d) hheld hlive
  have hstep : svc.work py s w .route = some
      ({ s.moveTo w (.committing d) with records := records }, marks.map .store) := by
    unfold EffectorService.work
    simp only [hphase, hcomplete]
  have hnext : svc.CanCommit py w d { s.moveTo w (.committing d) with records := records } :=
    canCommit_committing (phases_moveTo ..) (turn_moveTo s w (.committing d))
  exact hnext.work rfl hturn hstep (commitsOf_store marks)

/-- The execution of the intent does not raise out of the runner. -/
def Executes (svc : EffectorService) (py : PyLib) (intent : ToolIntent) : Prop :=
  intent.kind ≠ .approval → ∀ now, svc.runner.admission py intent now ≠ .escapes ∧
    (svc.runner.admission py intent now = .invoke → svc.runner.mayEnd intent .escapes = false)

/-- From a live claim: the approval is routed, or the intent is executed. -/
theorem canCommit_claimed (hexecutes : svc.Executes py d.intent)
    (hphase : s.phases w = .claimed d token) (hturn : s.turn = none ∨ s.turn = some w)
    (hheld : s.records d.intentId = some (.held token e)) (hlive : s.now < e) :
    svc.CanCommit py w d s := by
  let executing : Option ActiveClaim :=
    some { intentId := d.intentId, token := token, executing := true }
  by_cases hkind : d.intent.kind = .approval
  · have hstep : svc.work py s w .begin =
        some ((s.moveTo w (.notifying d token)).register w executing, []) := by
      unfold EffectorService.work
      simp only [hphase, beginStep, if_pos hkind, executing]
    let t : EffectorState := (s.moveTo w (.notifying d token)).register w executing
    have ht : t.phases w = .notifying d token := phases_moveTo ..
    have hnotify : svc.work py t w (.notify true) =
        some (t.moveTo w (.routed d token), [.notified w d true]) := by
      unfold EffectorService.work
      simp only [ht, if_true]
    have hrouted : svc.CanCommit py w d (t.moveTo w (.routed d token)) :=
      canCommit_routed (phases_moveTo ..) (turn_moveTo ..) hheld hlive
    have hturn' : t.turn = none ∨ t.turn = some w := turn_moveTo s w (.notifying d token)
    have hnotifying : svc.CanCommit py w d t := hrouted.work rfl hturn' hnotify rfl
    exact hnotifying.work rfl hturn hstep rfl
  · cases hadmission : svc.runner.admission py d.intent s.now with
    | escapes => exact absurd hadmission (hexecutes hkind s.now).1
    | answered answer =>
      have hstep : svc.work py s w .begin =
          some (s.moveTo w (.completing d token answer), []) := by
        unfold EffectorService.work
        simp only [hphase, beginStep, if_neg hkind, hadmission]
      have hcompleting : svc.CanCommit py w d (s.moveTo w (.completing d token answer)) :=
        canCommit_completing (phases_moveTo ..) (turn_moveTo ..) hheld hlive
      exact hcompleting.work rfl hturn hstep rfl
    | invoke =>
      have hstep : svc.work py s w .begin = some
          ((s.moveTo w (.running d token s.now)).register w executing, [.invoked w d token]) := by
        unfold EffectorService.work
        simp only [hphase, beginStep, if_neg hkind, hadmission, executing]
      let t : EffectorState := (s.moveTo w (.running d token s.now)).register w executing
      have ht : t.phases w = .running d token s.now := phases_moveTo ..
      -- Whatever the tool does, the wait for it can end by the timeout.
      obtain ⟨answer, hanswer⟩ :
          ∃ answer, svc.runner.invocationResult py d.intent s.now .timedOut = some answer :=
        ⟨_, rfl⟩
      have hfinish : svc.work py t w (.finish .timedOut) =
          some (t.moveTo w (.completing d token answer), []) := by
        unfold EffectorService.work
        simp only [ht, EffectorToolRunner.mayEnd, if_true, finishStep, hanswer]
      have hcompleting : svc.CanCommit py w d (t.moveTo w (.completing d token answer)) :=
        canCommit_completing (phases_moveTo ..) (turn_moveTo ..) hheld hlive
      have hturn' : t.turn = none ∨ t.turn = some w := turn_moveTo s w (.running d token s.now)
      have hrunning : svc.CanCommit py w d t := hcompleting.work rfl hturn' hfinish rfl
      exact hrunning.work rfl hturn hstep rfl

/-- A worker that has moved keeps the event loop or parks. -/
theorem turn_after (s : EffectorState) (w : ℕ) (phase : Phase) (claim : Option ActiveClaim)
    (events : List EffectorEvent) :
    (s.after w phase claim events).turn = none ∨ (s.after w phase claim events).turn = some w :=
  turn_moveTo s w phase

/-- Before a claim that no live lease stands in the way of. -/
theorem canCommit_claim (hexecutes : svc.Executes py d.intent)
    (hphase : s.phases w = .claiming d ∨ s.phases w = .waiting d)
    (hturn : s.turn = none ∨ s.turn = some w)
    (hfree : ∀ token e, s.records d.intentId = some (.held token e) → e ≤ s.now) :
    svc.CanCommit py w d s := by
  have hstep : svc.work py s w .claim = some (svc.claimStep s w d) := by
    unfold EffectorService.work
    rcases hphase with hphase | hphase <;> simp only [hphase]
  have hlease : 0 < svc.leaseMs := Nat.zero_lt_of_lt svc.toolTimeout_lt
  have hsame {d' : Delivered} (h : s.phases w = .claiming d' ∨ s.phases w = .waiting d') :
      d' = d := by
    rcases h with h | h <;> rcases hphase with hp | hp <;> rw [hp] at h <;> cases h <;> rfl
  obtain ⟨s', es, hclaim⟩ : ∃ s' es, svc.claimStep s w d = (s', es) := ⟨_, _, rfl⟩
  rw [hclaim] at hstep
  have hmoved : ∃ phase claim, Moves svc py s w .claim phase claim es ∧
      s' = s.after w phase claim es := claimStep_moves hphase hclaim
  obtain ⟨phase, claim, hmoves, rfl⟩ := hmoved
  cases hmoves with
  | inFlight h hheld hlive =>
    cases hsame h
    exact absurd (hfree _ _ hheld) (Int.not_le.mpr hlive)
  | @deduped d' result _ h =>
    cases hsame h
    refine CanCommit.work ?_ rfl hturn hstep rfl
    cases result with
    | none => exact canCommit_committing EffectorState.after_phases_self (turn_after ..)
    | some result => exact canCommit_publishing EffectorState.after_phases_self (turn_after ..)
  | @granted d' ms h =>
    cases hsame h
    let grant : DedupMark := .granted d.intentId s.nextToken (s.now + svc.leaseMs)
    have hheld : (s.records.applyAll (ms ++ [grant])) d.intentId =
        some (.held s.nextToken (s.now + svc.leaseMs)) := by
      rw [Table.applyAll_append]
      exact Table.apply_self (m := grant)
    refine CanCommit.work ?_ rfl hturn hstep (commitsOf_store _)
    refine canCommit_claimed (e := s.now + svc.leaseMs) hexecutes
      EffectorState.after_phases_self (turn_after ..) ?_ ?_
    · simpa only [EffectorState.after, marksOf_map] using hheld
    · exact Int.lt_add_of_pos_right _ (Int.natCast_pos.mpr hlease)

/-- Before a claim. A live lease of another owner is waited out. -/
theorem canCommit_claiming (hexecutes : svc.Executes py d.intent)
    (hphase : s.phases w = .claiming d) (hturn : s.turn = none ∨ s.turn = some w) :
    svc.CanCommit py w d s := by
  cases hrecord : s.records d.intentId with
  | none =>
    exact canCommit_claim hexecutes (.inl hphase) hturn fun token e hheld => by
      rw [hrecord] at hheld
      cases hheld
  | some record =>
    -- The clock passes the deadline of the record, whatever the record is.
    let later : EffectorState := { s with now := s.now + (record.expiresAt - s.now).toNat }
    have hlater : svc.CanCommit py w d later :=
      canCommit_claim hexecutes (.inl hphase) hturn fun token e hheld => by
        cases hrecord.symm.trans hheld
        show e ≤ s.now + (e - s.now).toNat
        omega
    exact hlater.tick

/-- **A delivery that was received can be committed**, unless it passes the verification and the
check, and the execution of its intent raises. -/
theorem canCommit_received
    (hexecutes : svc.verified d = none → refuseExpired d.intent s.now = none →
      svc.Executes py d.intent)
    (hphase : s.phases w = svc.received d) (hturn : s.turn = none ∨ s.turn = some w) :
    svc.CanCommit py w d s := by
  unfold received at hphase
  split at hphase
  · rename_i reason hrefused
    split_ifs at hphase with hsink
    · have hstep : svc.work py s w (.deadLetter true) =
          some (s.moveTo w (.committing d), [.deadLettered w d reason true]) := by
        unfold EffectorService.work
        simp only [hphase, if_true]
      exact (canCommit_committing (phases_moveTo ..) (turn_moveTo ..)).work rfl hturn hstep rfl
    · exact canCommit_committing hphase hturn
  · rename_i hverified
    cases hexpired : refuseExpired d.intent s.now with
    | some refusal =>
      have hstep : svc.work py s w .check = some (s.moveTo w (.refusing d refusal), []) := by
        unfold EffectorService.work
        simp only [hphase, hexpired]
      have hrefuse : svc.work py (s.moveTo w (.refusing d refusal)) w (.refuse true) = some
          ((s.moveTo w (.refusing d refusal)).moveTo w (.committing d),
            [.published w d refusal s.now true]) := by
        unfold EffectorService.work
        simp only [phases_moveTo, if_true]
        rfl
      have hcommitting : svc.CanCommit py w d
          ((s.moveTo w (.refusing d refusal)).moveTo w (.committing d)) :=
        canCommit_committing (phases_moveTo ..) (turn_moveTo ..)
      have hrefusing : svc.CanCommit py w d (s.moveTo w (.refusing d refusal)) :=
        hcommitting.work rfl (turn_moveTo ..) hrefuse rfl
      exact hrefusing.work rfl hturn hstep rfl
    | none =>
      have hstep : svc.work py s w .check = some (s.moveTo w (.claiming d), []) := by
        unfold EffectorService.work
        simp only [hphase, hexpired]
      exact (canCommit_claiming (hexecutes hverified hexpired) (phases_moveTo ..)
        (turn_moveTo ..)).work
        rfl hturn hstep rfl

end EffectorService

end BeamAgents
