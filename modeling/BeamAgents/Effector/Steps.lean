import BeamAgents.Effector.Service

/-!
# What a step of the effector can do

One inversion for the steps of a worker: each goes from one phase to another, registers or drops a
claim, and emits events, among them the changes of the store. The records of the store are what
these changes leave, so that the history of the store can be read off the events of a run.

## Main definitions

* `marksOf`: the changes of the store among the events.
* `EffectorService.Moves`: what a step of a worker can do.
* `EffectorState.after`: the state that it leaves.
* `EffectorService.Stored`: the store is what its history leaves.

## Main results

* `EffectorService.work_moves`, `EffectorService.perform_cases`: the inversions.
* `EffectorService.run_stored`: every run keeps the store what its history leaves.
-/

namespace BeamAgents

open Transition Lease

/-- The changes of the store among the events, in order. -/
def marksOf (events : List EffectorEvent) : List DedupMark :=
  events.filterMap fun
    | .store mark => some mark
    | _ => none

@[simp] theorem marksOf_nil : marksOf [] = [] := rfl

@[simp] theorem marksOf_append (es fs : List EffectorEvent) :
    marksOf (es ++ fs) = marksOf es ++ marksOf fs := List.filterMap_append

@[simp] theorem marksOf_map (ms : List DedupMark) : marksOf (ms.map .store) = ms := by
  rw [marksOf, List.filterMap_map]
  exact List.filterMap_some

theorem mem_marksOf {events : List EffectorEvent} {mark : DedupMark} :
    mark ∈ marksOf events ↔ .store mark ∈ events := by
  rw [marksOf, List.mem_filterMap]
  constructor
  · rintro ⟨e, he, heq⟩
    cases e <;> simp_all
  · exact fun h => ⟨_, h, rfl⟩

/-- A worker enters `claimed` exactly when a token is minted. -/
def Phase.minted : Phase → ℕ
  | .claimed .. => 1
  | _ => 0

/-- The state after a step of worker `w` into a phase, with the claim it has registered then. -/
def EffectorState.after (s : EffectorState) (w : ℕ) (phase : Phase) (claim : Option ActiveClaim)
    (events : List EffectorEvent) : EffectorState where
  now := s.now
  records := Table.applyAll s.records (marksOf events)
  nextToken := s.nextToken + phase.minted
  phases := Function.update s.phases w phase
  claims := Function.update s.claims w claim
  turn := if phase.parked then none else some w

namespace EffectorState

variable {s : EffectorState} {w w' : ℕ} {phase : Phase} {claim : Option ActiveClaim}
  {events : List EffectorEvent}

@[simp] theorem after_phases_self : (s.after w phase claim events).phases w = phase :=
  Function.update_self ..

theorem after_phases_of_ne (h : w' ≠ w) :
    (s.after w phase claim events).phases w' = s.phases w' := Function.update_of_ne h ..

@[simp] theorem after_claims_self : (s.after w phase claim events).claims w = claim :=
  Function.update_self ..

theorem after_claims_of_ne (h : w' ≠ w) :
    (s.after w phase claim events).claims w' = s.claims w' := Function.update_of_ne h ..

end EffectorState

namespace EffectorService

/-- The changes of a lookup that finds no live record: none, or an expired one is forgotten. -/
def Forgets (s : EffectorState) (intentId : String) (ms : List DedupMark) : Prop :=
  ms = [] ∨ ∃ record, s.records intentId = some record ∧ record.expiresAt ≤ s.now ∧
    ms = [.forgot intentId record s.now]

/-- What a step of worker `w` can do: the phase it goes to, the claim it has registered then, and
the events. -/
inductive Moves (svc : EffectorService) (py : PyLib) (s : EffectorState) (w : ℕ) :
    Work → Phase → Option ActiveClaim → List EffectorEvent → Prop
  | delivered {d} (h : s.phases w = .idle) :
      Moves svc py s w (.deliver d) (svc.received d) (s.claims w) [.delivered w d]
  | deadLettered {d reason acked} (h : s.phases w = .deadLettering d reason) :
      Moves svc py s w (.deadLetter acked)
        (if acked then .committing d else .deadLettering d reason) (s.claims w)
        [.deadLettered w d reason acked]
  | expired {d refusal} (h : s.phases w = .checking d)
      (hexpired : refuseExpired d.intent s.now = some refusal) :
      Moves svc py s w .check (.refusing d refusal) (s.claims w) []
  | current {d} (h : s.phases w = .checking d) (hlive : refuseExpired d.intent s.now = none) :
      Moves svc py s w .check (.claiming d) (s.claims w) []
  | refused {d refusal acked} (h : s.phases w = .refusing d refusal) :
      Moves svc py s w (.refuse acked) (if acked then .committing d else .refusing d refusal)
        (s.claims w) [.published w d refusal s.now acked]
  | granted {d ms} (h : s.phases w = .claiming d ∨ s.phases w = .waiting d)
      (hforgets : Forgets s d.intentId ms)
      (hnone : Table.applyAll s.records ms d.intentId = none) :
      Moves svc py s w .claim (.claimed d s.nextToken)
        (some { intentId := d.intentId, token := s.nextToken })
        ((ms ++ [Mark.granted d.intentId s.nextToken (s.now + svc.leaseMs)]).map .store)
  | inFlight {d token e} (h : s.phases w = .claiming d ∨ s.phases w = .waiting d)
      (hheld : s.records d.intentId = some (.held token e)) (hlive : s.now < e) :
      Moves svc py s w .claim (.waiting d) (s.claims w) []
  | deduped {d result e} (h : s.phases w = .claiming d ∨ s.phases w = .waiting d)
      (hdone : s.records d.intentId = some (.done result e)) (hlive : s.now < e) :
      Moves svc py s w .claim (afterClaim d (.done result)) (s.claims w) [.deduped w d result]
  | notifies {d token} (h : s.phases w = .claimed d token) (hkind : d.intent.kind = .approval) :
      Moves svc py s w .begin (.notifying d token)
        (some { intentId := d.intentId, token := token, executing := true }) []
  | invoked {d token} (h : s.phases w = .claimed d token) (hkind : d.intent.kind ≠ .approval)
      (hadmission : svc.runner.admission py d.intent s.now = .invoke) :
      Moves svc py s w .begin (.running d token s.now)
        (some { intentId := d.intentId, token := token, executing := true }) [.invoked w d token]
  | answered {d token result} (h : s.phases w = .claimed d token)
      (hkind : d.intent.kind ≠ .approval)
      (hadmission : svc.runner.admission py d.intent s.now = .answered result) :
      Moves svc py s w .begin (.completing d token result) (s.claims w) []
  | escaped {d token} (h : s.phases w = .claimed d token) :
      Moves svc py s w .begin .stopped (s.claims w) [.stopped w]
  | finished {d token nowMs toolEnd result} (h : s.phases w = .running d token nowMs)
      (hend : svc.runner.mayEnd d.intent toolEnd = true)
      (hresult : svc.runner.invocationResult py d.intent nowMs toolEnd = some result) :
      Moves svc py s w (.finish toolEnd) (.completing d token result) (s.claims w) []
  | raised {d token nowMs toolEnd} (h : s.phases w = .running d token nowMs)
      (hend : svc.runner.mayEnd d.intent toolEnd = true)
      (hresult : svc.runner.invocationResult py d.intent nowMs toolEnd = none) :
      Moves svc py s w (.finish toolEnd) .stopped (s.claims w) [.stopped w]
  | completed {d token result e} (h : s.phases w = .completing d token result)
      (hheld : s.records d.intentId = some (.held token e)) (hlive : s.now < e) :
      Moves svc py s w .complete (.publishing d result) (s.claims w)
        [.store (.completed d.intentId token (some result) (s.now + svc.resultTtlMs))]
  | lost {d token result ms} (h : s.phases w = .completing d token result)
      (hforgets : Forgets s d.intentId ms) :
      Moves svc py s w .complete .idle none (ms.map .store ++ [.lost w d])
  | published {d result acked} (h : s.phases w = .publishing d result) :
      Moves svc py s w (.publish acked) (if acked then .committing d else .publishing d result)
        (s.claims w) [.published w d result s.now acked]
  | notified {d token acked} (h : s.phases w = .notifying d token) :
      Moves svc py s w (.notify acked) (if acked then .routed d token else .notifying d token)
        (s.claims w) [.notified w d acked]
  | routed {d token e} (h : s.phases w = .routed d token)
      (hheld : s.records d.intentId = some (.held token e)) (hlive : s.now < e) :
      Moves svc py s w .route (.committing d) (s.claims w)
        [.store (.completed d.intentId token none (s.now + svc.resultTtlMs))]
  | unrouted {d token ms} (h : s.phases w = .routed d token)
      (hforgets : Forgets s d.intentId ms) :
      Moves svc py s w .route .idle none (ms.map .store ++ [.lost w d])
  | committed {d} (h : s.phases w = .committing d) :
      Moves svc py s w .commit .idle none [.committed w d]
  | stopped : Moves svc py s w .stop .stopped (s.claims w) [.stopped w]

variable {svc : EffectorService} {py : PyLib} {s s' : EffectorState} {w : ℕ} {a : Work}
  {es : List EffectorEvent} {d : Delivered}

/-- A move without changes of the store that leaves the registered claim alone. -/
theorem moveTo_eq_after {phase : Phase} (hmarks : marksOf es = []) (hminted : phase.minted = 0) :
    s.moveTo w phase = s.after w phase (s.claims w) es := by
  simp [EffectorState.moveTo, EffectorState.after, hmarks, hminted]

theorem forgets_liveMarks (s : EffectorState) (intentId : String) :
    Forgets s intentId (InMemoryDedupStore.liveMarks s.records s.now intentId) := by
  rcases InMemoryDedupStore.live_cases s.records s.now intentId with
    ⟨-, -, hmarks⟩ | ⟨record, hsome, hexpired, -, hmarks⟩ | ⟨-, -, -, -, hmarks⟩
  · exact .inl hmarks
  · exact .inr ⟨record, hsome, hexpired, hmarks⟩
  · exact .inl hmarks

theorem claimStep_moves (hphase : s.phases w = .claiming d ∨ s.phases w = .waiting d)
    (h : svc.claimStep s w d = (s', es)) :
    ∃ phase claim, Moves svc py s w .claim phase claim es ∧ s' = s.after w phase claim es := by
  have hspec := (InMemoryDedupStore.claim_spec s.records s.now d.intentId svc.leaseMs
    s.nextToken).1
  rcases InMemoryDedupStore.claim_cases s.records s.now d.intentId svc.leaseMs
      s.nextToken with
    ⟨ms, hmarks, houtcome, hnone, hforgets⟩ | ⟨hmarks, token, e, hheld, hlive, houtcome⟩ |
    ⟨hmarks, result, e, hdone, hlive, houtcome⟩
  · simp only [claimStep, houtcome, hspec, hmarks, Prod.mk.injEq] at h
    obtain ⟨rfl, rfl⟩ := h
    refine ⟨_, _, .granted hphase hforgets hnone, ?_⟩
    simp only [EffectorState.after, EffectorState.register, EffectorState.moveTo, marksOf_map]
    rfl
  · simp only [claimStep, houtcome, hspec, hmarks, Prod.mk.injEq] at h
    obtain ⟨rfl, rfl⟩ := h
    have hmove : s.moveTo w (.waiting d) = s.after w (.waiting d) (s.claims w) [] :=
      moveTo_eq_after rfl rfl
    exact ⟨_, _, .inFlight hphase hheld hlive, hmove⟩
  · simp only [claimStep, houtcome, hspec, hmarks, Prod.mk.injEq] at h
    obtain ⟨rfl, rfl⟩ := h
    have hmove : s.moveTo w (afterClaim d (.done result)) =
        s.after w (afterClaim d (.done result)) (s.claims w) [.deduped w d result] :=
      moveTo_eq_after rfl (by cases result <;> rfl)
    exact ⟨_, _, .deduped hphase hdone hlive, hmove⟩

theorem beginStep_moves {token : ℕ} (hphase : s.phases w = .claimed d token)
    (h : svc.beginStep py s w d token = (s', es)) :
    ∃ phase claim, Moves svc py s w .begin phase claim es ∧ s' = s.after w phase claim es := by
  unfold beginStep at h
  dsimp only at h
  split_ifs at h with hkind
  · cases h
    exact ⟨_, _, .notifies hphase hkind, rfl⟩
  · split at h
    · rename_i hadmission
      cases h
      exact ⟨_, _, .invoked hphase hkind hadmission, rfl⟩
    · rename_i result hadmission
      cases h
      exact ⟨_, _, .answered hphase hkind hadmission, moveTo_eq_after rfl rfl⟩
    · cases h
      exact ⟨_, _, .escaped hphase, moveTo_eq_after rfl rfl⟩

/-- What a completion does, for either of the phases that complete. -/
theorem completeStep_cases {token : ℕ} {result : Option ToolResult} {next : Phase}
    (hminted : next.minted = 0)
    (h : svc.completeStep s w d token result next = (s', es)) :
    (∃ e, s.records d.intentId = some (.held token e) ∧ s.now < e ∧
        es = [.store (.completed d.intentId token result (s.now + svc.resultTtlMs))] ∧
        s' = s.after w next (s.claims w) es) ∨
      ∃ ms, Forgets s d.intentId ms ∧ es = ms.map .store ++ [.lost w d] ∧
        s' = s.after w .idle none es := by
  have hspec := (InMemoryDedupStore.complete_spec s.records s.now d.intentId token result
    svc.resultTtlMs).1
  rcases InMemoryDedupStore.complete_cases s.records s.now d.intentId token result
      svc.resultTtlMs with
    ⟨e, hheld, hlive, hstored, hmarks⟩ | ⟨hstored, -, hmarks⟩
  · simp only [completeStep, hstored, hspec, hmarks, if_true, Prod.mk.injEq] at h
    obtain ⟨rfl, rfl⟩ := h
    refine .inl ⟨e, hheld, hlive, rfl, ?_⟩
    simp only [EffectorState.after, EffectorState.moveTo, marksOf_map, Function.update_eq_self,
      hminted]
    rfl
  · simp only [completeStep, hstored, hspec, hmarks, Bool.false_eq_true, if_false,
      Prod.mk.injEq] at h
    obtain ⟨rfl, rfl⟩ := h
    refine .inr ⟨_, forgets_liveMarks s d.intentId, rfl, ?_⟩
    simp only [EffectorState.after, EffectorState.moveTo, EffectorState.register, marksOf_append,
      marksOf_map]
    simp [marksOf, Phase.minted]

/-- **What a step of a worker can do.** -/
theorem work_moves (h : svc.work py s w a = some (s', es)) :
    ∃ phase claim, Moves svc py s w a phase claim es ∧ s' = s.after w phase claim es := by
  unfold work at h
  split at h
  · rename_i d hphase
    cases h
    refine ⟨_, _, .delivered hphase, moveTo_eq_after rfl ?_⟩
    unfold received
    split
    · split_ifs <;> rfl
    · rfl
  · rename_i d reason acked hphase
    cases h
    exact ⟨_, _, .deadLettered hphase, moveTo_eq_after rfl (by cases acked <;> rfl)⟩
  · rename_i d hphase
    split at h
    · rename_i refusal hexpired
      cases h
      exact ⟨_, _, .expired hphase hexpired, moveTo_eq_after rfl rfl⟩
    · rename_i hlive
      cases h
      exact ⟨_, _, .current hphase hlive, moveTo_eq_after rfl rfl⟩
  · rename_i d refusal acked hphase
    cases h
    exact ⟨_, _, .refused hphase, moveTo_eq_after rfl (by cases acked <;> rfl)⟩
  · rename_i d hphase
    exact claimStep_moves (.inl hphase) (Option.some.inj h)
  · rename_i d hphase
    exact claimStep_moves (.inr hphase) (Option.some.inj h)
  · rename_i d token hphase
    exact beginStep_moves hphase (Option.some.inj h)
  · rename_i d token nowMs toolEnd hphase
    split_ifs at h with hend
    have hstep := Option.some.inj h
    unfold finishStep at hstep
    split at hstep
    · rename_i result hresult
      cases hstep
      exact ⟨_, _, .finished hphase hend hresult, moveTo_eq_after rfl rfl⟩
    · rename_i hresult
      cases hstep
      exact ⟨_, _, .raised hphase hend hresult, moveTo_eq_after rfl rfl⟩
  · rename_i d token result hphase
    rcases completeStep_cases rfl (Option.some.inj h) with
      ⟨e, hheld, hlive, rfl, hstate⟩ | ⟨ms, hforgets, rfl, hstate⟩
    · exact ⟨_, _, .completed hphase hheld hlive, hstate⟩
    · exact ⟨_, _, .lost hphase hforgets, hstate⟩
  · rename_i d result acked hphase
    cases h
    exact ⟨_, _, .published hphase, moveTo_eq_after rfl (by cases acked <;> rfl)⟩
  · rename_i d token acked hphase
    cases h
    exact ⟨_, _, .notified hphase, moveTo_eq_after rfl (by cases acked <;> rfl)⟩
  · rename_i d token hphase
    rcases completeStep_cases rfl (Option.some.inj h) with
      ⟨e, hheld, hlive, rfl, hstate⟩ | ⟨ms, hforgets, rfl, hstate⟩
    · exact ⟨_, _, .routed hphase hheld hlive, hstate⟩
    · exact ⟨_, _, .unrouted hphase hforgets, hstate⟩
  · rename_i d hphase
    cases h
    exact ⟨_, _, .committed hphase, rfl⟩
  · cases h
    exact ⟨_, _, .stopped, moveTo_eq_after rfl rfl⟩
  · cases h

/-! ### Releases -/

/-- **What a step of the effector can do**: the clock advances, a worker moves, a registered claim
is dropped while its tool may have run, or one is handed back. -/
theorem perform_cases {act : EffectorAct} (h : svc.perform py s act = some (s', es)) :
    (∃ ms, act = .tick ms ∧ s' = { s with now := s.now + ms } ∧ es = []) ∨
      (∃ w a phase claim, act = .work w a ∧ (s.turn = none ∨ s.turn = some w) ∧
        Moves svc py s w a phase claim es ∧ s' = s.after w phase claim es) ∨
      (∃ w, act = .release w ∧ s.turn = none ∧ s' = s.register w none ∧ es = [] ∧
        ∀ claim ∈ s.claims w, claim.executing = true) ∨
      ∃ w claim ms, act = .release w ∧ s.turn = none ∧ s.claims w = some claim ∧
        claim.executing = false ∧ es = ms.map .store ∧
        s' = { s.register w none with records := Table.applyAll s.records ms } ∧
        (ms = [.released claim.intentId claim.token] ∧
            (∃ e, s.records claim.intentId = some (.held claim.token e) ∧ s.now < e) ∨
          Forgets s claim.intentId ms) := by
  cases act with
  | tick ms =>
    cases h
    exact .inl ⟨ms, rfl, rfl, rfl⟩
  | work w a =>
    simp only [perform] at h
    split_ifs at h with hturn
    obtain ⟨phase, claim, hmoves, hstate⟩ := work_moves h
    exact .inr (.inl ⟨w, a, phase, claim, rfl, hturn, hmoves, hstate⟩)
  | release w =>
    simp only [perform] at h
    split_ifs at h with hturn
    have hrelease := Option.some.inj h
    unfold releaseClaim at hrelease
    split at hrelease
    · rename_i hnone
      cases hrelease
      refine .inr (.inr (.inl ⟨w, rfl, hturn, ?_, rfl, by simp [hnone]⟩))
      rw [EffectorState.register, ← hnone, Function.update_eq_self]
    · rename_i claim hclaim
      dsimp only at hrelease
      split_ifs at hrelease with hexecuting
      · cases hrelease
        refine .inr (.inr (.inl ⟨w, rfl, hturn, rfl, rfl, ?_⟩))
        intro claim' hclaim'
        rw [hclaim] at hclaim'
        cases hclaim'
        exact hexecuting
      · have hspec := (InMemoryDedupStore.release_spec s.records s.now claim.intentId
          claim.token).1
        cases hrelease
        refine .inr (.inr (.inr ⟨w, claim, _, rfl, hturn, hclaim, by simpa using hexecuting, rfl,
          ?_, ?_⟩))
        · simp only [EffectorState.register, hspec]
        · rcases InMemoryDedupStore.release_cases s.records s.now claim.intentId
              claim.token with ⟨hheld, hmarks⟩ | hmarks
          · exact .inl ⟨hmarks, hheld⟩
          · exact .inr (hmarks ▸ forgets_liveMarks s claim.intentId)

/-! ### The history of the store -/

/-- The store is what its history leaves: the changes among the events are valid, they leave the
records, and no record was forgotten at a time that is still to come. -/
structure Stored (events : List EffectorEvent) (s : EffectorState) : Prop where
  valid : Valid (fun _ => none) (marksOf events)
  records : s.records = Table.applyAll (fun _ => none) (marksOf events)
  past : ∀ k record now, .forgot k record now ∈ marksOf events → now ≤ s.now

theorem Forgets.valid {intentId : String} {ms : List DedupMark} (h : Forgets s intentId ms) :
    Valid s.records ms := by
  rcases h with rfl | ⟨record, hsome, hexpired, rfl⟩
  · exact .nil
  · exact ⟨⟨hsome, hexpired⟩, .nil⟩

/-- What is forgotten is forgotten now. -/
theorem Forgets.now {intentId : String} {ms : List DedupMark} (h : Forgets s intentId ms)
    {m : DedupMark} (hm : m ∈ ms) : ∃ record, m = .forgot intentId record s.now := by
  rcases h with rfl | ⟨record, -, -, rfl⟩
  · cases hm
  · exact ⟨record, List.mem_singleton.mp hm⟩

/-- The changes of a step are valid, and a record that it forgets is forgotten now. -/
theorem Moves.marks {phase : Phase} {claim : Option ActiveClaim}
    (h : Moves svc py s w a phase claim es) :
    Valid s.records (marksOf es) ∧
      ∀ k record now, .forgot k record now ∈ marksOf es → now = s.now := by
  cases h with
  | @granted d ms hphase hforgets hnone =>
    rw [marksOf_map]
    refine ⟨valid_append.mpr ⟨hforgets.valid, hnone, .nil⟩, fun k record now hmem => ?_⟩
    rcases List.mem_append.mp hmem with hmem | hmem
    · obtain ⟨record', heq⟩ := hforgets.now hmem
      cases heq
      rfl
    · simp at hmem
  | lost _ hforgets | unrouted _ hforgets =>
    rw [marksOf_append, marksOf_map]
    refine ⟨valid_append.mpr ⟨hforgets.valid, .nil⟩, fun k record now hmem => ?_⟩
    rcases List.mem_append.mp hmem with hmem | hmem
    · obtain ⟨record', heq⟩ := hforgets.now hmem
      cases heq
      rfl
    · simp [marksOf] at hmem
  | completed _ hheld _ | routed _ hheld _ =>
    exact ⟨⟨⟨_, hheld⟩, .nil⟩, by simp [marksOf]⟩
  | _ => exact ⟨.nil, by simp [marksOf]⟩

/-- The changes of any step: valid, and what they leave. -/
theorem perform_marks {act : EffectorAct} (h : svc.perform py s act = some (s', es)) :
    Valid s.records (marksOf es) ∧ s'.records = Table.applyAll s.records (marksOf es) ∧
      s.now ≤ s'.now ∧ ∀ k record now, .forgot k record now ∈ marksOf es → now = s.now := by
  rcases perform_cases h with ⟨ms, -, rfl, rfl⟩ | ⟨w, a, phase, claim, -, -, hmoves, rfl⟩ |
    ⟨w, -, -, rfl, rfl, -⟩ | ⟨w, claim, ms, -, -, -, -, rfl, rfl, hms⟩
  · exact ⟨.nil, rfl, Int.le_add_of_nonneg_right (Int.natCast_nonneg ms), by simp⟩
  · exact ⟨hmoves.marks.1, rfl, Int.le_refl _, hmoves.marks.2⟩
  · exact ⟨.nil, rfl, Int.le_refl _, by simp⟩
  · rw [marksOf_map]
    refine ⟨?_, rfl, Int.le_refl _, fun k record now hmem => ?_⟩
    · rcases hms with ⟨rfl, e, hheld, -⟩ | hforgets
      · exact ⟨⟨e, hheld⟩, .nil⟩
      · exact hforgets.valid
    · rcases hms with ⟨rfl, -⟩ | hforgets
      · simp at hmem
      · obtain ⟨record', heq⟩ := hforgets.now hmem
        cases heq
        rfl

theorem Stored.start : Stored [] {} := ⟨.nil, rfl, by simp⟩

theorem Stored.step {events : List EffectorEvent} (hs : Stored events s) {act : EffectorAct}
    (h : svc.perform py s act = some (s', es)) : Stored (events ++ es) s' := by
  obtain ⟨hvalid, hrecords, hnow, hpast⟩ := perform_marks h
  rw [hs.records] at hvalid hrecords
  refine ⟨?_, ?_, fun k record now hmem => ?_⟩
  · rw [marksOf_append]
    exact valid_append.mpr ⟨hs.valid, hvalid⟩
  · rw [marksOf_append, Table.applyAll_append, hrecords]
  · rw [marksOf_append] at hmem
    rcases List.mem_append.mp hmem with hmem | hmem
    · exact Int.le_trans (hs.past k record now hmem) hnow
    · exact hpast k record now hmem ▸ hnow

/-- **The store of a run is what its history leaves.** -/
theorem run_stored {acts : List EffectorAct} (h : (svc.machine py).Run {} acts es s) :
    Stored es s :=
  h.invariant (I := fun _ es s => Stored es s) .start fun _ hs hstep => hs.step hstep

/-- A terminal record that has been written and not expired is in the store. -/
theorem Stored.retained {events : List EffectorEvent} (hs : Stored events s) {k : String}
    {token : ℕ} {result : Option ToolResult} {e : Int}
    (hmem : .store (.completed k token result e) ∈ events) (hlive : s.now < e) :
    s.records k = some (.done result e) := by
  rw [hs.records]
  exact hs.valid.retained (mem_marksOf.mpr hmem) hs.past hlive

/-- A terminal record of the store has been written. -/
theorem Stored.written {events : List EffectorEvent} (hs : Stored events s) {k : String}
    {result : Option ToolResult} {e : Int} (hdone : s.records k = some (.done result e)) :
    ∃ token, .store (.completed k token result e) ∈ events := by
  rw [hs.records] at hdone
  rcases applyAll_eq_done hdone with hnone | ⟨token, hmem⟩
  · cases hnone
  · exact ⟨token, mem_marksOf.mp hmem⟩

end EffectorService

end BeamAgents
