import BeamAgents.Effector.Steps
import BeamAgents.Observability.Traces

/-!
# At most one execution per claim window

A worker invokes the tool of an intent right after its claim was granted, with nothing in between
but the clock: it holds the event loop. A claim whose tool was invoked is never released, since it
is marked as executing before anybody else runs. What lies between two invocations is therefore what
lies between two grants of a key, less a release: an expiry.

## Main definitions

* `EffectorService.ClaimMove`: what a step of a worker does to its registered claim.
* `EffectorService.Exclusive`: the invariant that ties the tokens, the registered claims, the phases
  and the history together.

## Main results

* `EffectorService.run_exclusive`: the invariant holds of every run.
* `EffectorService.invocations_separated`: at most one execution per claim window.
-/

namespace BeamAgents

open Transition Lease

namespace EffectorService

/-- What a step of worker `w` into a phase does to the claim registered for it: nothing, it drops
it, marks it as executing, or registers a fresh one. -/
inductive ClaimMove (s : EffectorState) (w : ℕ) : Phase → Option ActiveClaim → Prop
  | same {phase} : ClaimMove s w phase (s.claims w)
  | dropped {phase} : ClaimMove s w phase none
  | executing {phase claim} (h : s.claims w = some claim) :
      ClaimMove s w phase (some { claim with executing := true })
  | fresh {d} : ClaimMove s w (.claimed d s.nextToken)
      (some { intentId := d.intentId, token := s.nextToken })

/-- No release of a claim follows the invocation of its tool. -/
def KeepsClaim (e e' : EffectorEvent) : Prop :=
  ∀ w d token k, e = .invoked w d token → e' ≠ .store (.released k token)

/-- The invariant behind the exclusion. -/
structure Exclusive (events : List EffectorEvent) (s : EffectorState) : Prop where
  token_lt : ∀ w claim, s.claims w = some claim → claim.token < s.nextToken
  distinct : ∀ w w' claim claim', s.claims w = some claim → s.claims w' = some claim' →
    claim.token = claim'.token → w = w'
  /-- A worker with a granted claim holds the event loop, and the grant was the last event. -/
  claimed : ∀ w d token, s.phases w = .claimed d token → s.turn = some w ∧
    s.claims w = some { intentId := d.intentId, token := token } ∧
    ∃ pre e, events = pre ++ [.store (.granted d.intentId token e)]
  /-- The claim of an invoked tool is executing wherever it is registered. -/
  invoked : ∀ w d token, .invoked w d token ∈ events → token < s.nextToken ∧
    ∀ w' claim, s.claims w' = some claim → claim.token = token → claim.executing = true
  /-- A tool is invoked right after the grant of its claim. -/
  granted : ∀ pre w d token post, events = pre ++ .invoked w d token :: post →
    ∃ pre' e, pre = pre' ++ [.store (.granted d.intentId token e)]
  kept : events.Pairwise KeepsClaim

variable {svc : EffectorService} {py : PyLib} {s s' : EffectorState} {w : ℕ} {a : Work}
  {es events : List EffectorEvent} {phase : Phase} {claim : Option ActiveClaim}

theorem Moves.claimMove (h : Moves svc py s w a phase claim es) (hx : Exclusive events s) :
    ClaimMove s w phase claim := by
  cases h with
  | granted => exact .fresh
  | notifies hphase | invoked hphase => exact .executing (hx.claimed _ _ _ hphase).2.1
  | lost | unrouted | committed => exact .dropped
  | _ => exact .same

/-- A claim registered after a step has a fresh token, or that of the claim registered before. -/
theorem ClaimMove.token (h : ClaimMove s w phase claim) {claim' : ActiveClaim}
    (hclaim : claim = some claim') :
    claim'.token = s.nextToken ∧ phase.minted = 1 ∨
      ∃ c, s.claims w = some c ∧ claim'.token = c.token ∧
        (c.executing = true → claim'.executing = true) := by
  cases h with
  | same => exact .inr ⟨claim', hclaim, rfl, id⟩
  | dropped => cases hclaim
  | executing hc =>
    cases hclaim
    exact .inr ⟨_, hc, rfl, fun _ => rfl⟩
  | fresh =>
    cases hclaim
    exact .inl ⟨rfl, rfl⟩

/-- A worker enters `claimed` by a grant, which is the last event of the step. -/
theorem Moves.claimed_phase (h : Moves svc py s w a phase claim es) {d : Delivered} {token : ℕ}
    (hphase : phase = .claimed d token) :
    claim = some { intentId := d.intentId, token := token } ∧
      ∃ pre e, es = pre ++ [.store (.granted d.intentId token e)] := by
  cases h with
  | granted =>
    cases hphase
    exact ⟨rfl, _, _, by rw [List.map_append]; rfl⟩
  | delivered =>
    unfold received at hphase
    split at hphase
    · split_ifs at hphase
    · cases hphase
  | @deduped _ result => cases result <;> cases hphase
  | @deadLettered _ _ acked | @refused _ _ acked | @published _ _ acked | @notified _ _ acked =>
    cases acked <;> cases hphase
  | _ => cases hphase

/-- An invocation is a step of its own, out of `claimed`. -/
theorem Moves.invoked_mem (h : Moves svc py s w a phase claim es) {w' : ℕ} {d : Delivered}
    {token : ℕ} (hmem : .invoked w' d token ∈ es) :
    w' = w ∧ es = [.invoked w d token] ∧ s.phases w = .claimed d token ∧
      claim = some { intentId := d.intentId, token := token, executing := true } := by
  cases h with
  | invoked hphase =>
    cases List.mem_singleton.mp hmem
    exact ⟨rfl, rfl, hphase, rfl⟩
  | granted | lost | unrouted => simp at hmem
  | _ => simp at hmem

/-- A worker releases nothing. -/
theorem Moves.no_release (h : Moves svc py s w a phase claim es) (k : String) (token : ℕ) :
    .store (.released k token) ∉ es := by
  cases h with
  | granted _ hforgets | lost _ hforgets | unrouted _ hforgets =>
    rcases hforgets with rfl | ⟨record, -, -, rfl⟩ <;> simp
  | _ => simp

theorem Exclusive.start : Exclusive [] {} where
  token_lt := by simp
  distinct := by simp
  claimed := by simp
  invoked := by simp
  granted := by simp
  kept := .nil

/-- Where an invocation stands in a longer history: in the earlier part, or in what was added. -/
theorem Exclusive.granted_append (hx : Exclusive events s)
    (hes : ∀ w d token, .invoked w d token ∈ es → es = [.invoked w d token] ∧
      ∃ pre e, events = pre ++ [.store (.granted d.intentId token e)])
    {pre post : List EffectorEvent} {d : Delivered} {token : ℕ}
    (h : events ++ es = pre ++ .invoked w d token :: post) :
    ∃ pre' e, pre = pre' ++ [.store (.granted d.intentId token e)] := by
  rcases List.append_eq_append_iff.mp h with ⟨as, rfl, hes'⟩ | ⟨cs, hevents, hcs⟩
  · -- The invocation is in what was added, all of it.
    obtain ⟨hsingle, hlast⟩ := hes w d token (by simp [hes'])
    cases as with
    | nil => simpa using hlast
    | cons x as => simp [hsingle] at hes'
  · cases cs with
    | nil =>
      rw [List.nil_append] at hcs
      obtain ⟨-, hlast⟩ := hes w d token (hcs ▸ List.mem_cons_self)
      rwa [hevents, List.append_nil] at hlast
    | cons x cs =>
      cases hcs
      exact hx.granted pre w d token cs hevents

theorem Exclusive.tick (hx : Exclusive events s) (now : Int) :
    Exclusive events { s with now := now } :=
  ⟨hx.token_lt, hx.distinct, hx.claimed, hx.invoked, hx.granted, hx.kept⟩

/-- A registered claim is dropped, and released only if it was not executing. -/
theorem Exclusive.release (hx : Exclusive events s) (hturn : s.turn = none)
    {ms : List DedupMark} {records : InMemoryDedupStore}
    (hms : ∀ k token, .released k token ∈ ms →
      ∃ claim, s.claims w = some claim ∧ claim.token = token ∧ claim.executing = false) :
    Exclusive (events ++ ms.map .store) { s.register w none with records := records } := by
  have hclaims {w' : ℕ} {claim : ActiveClaim}
      (h : (s.register w none).claims w' = some claim) : s.claims w' = some claim := by
    by_cases hw : w' = w
    · subst hw
      simp [EffectorState.register] at h
    · simpa [EffectorState.register, hw] using h
  have hidle : ∀ w' d token, s.phases w' ≠ .claimed d token := by
    intro w' d token h
    rw [(hx.claimed w' d token h).1] at hturn
    cases hturn
  refine ⟨fun w' claim h => hx.token_lt w' claim (hclaims h),
    fun w₁ w₂ c₁ c₂ h₁ h₂ => hx.distinct w₁ w₂ c₁ c₂ (hclaims h₁) (hclaims h₂),
    fun w' d token h => absurd h (hidle w' d token), fun w' d token h => ?_,
    fun pre w' d token post h => hx.granted_append (by simp) h, ?_⟩
  · have hmem : .invoked w' d token ∈ events := by simpa using h
    obtain ⟨hlt, hexecuting⟩ := hx.invoked w' d token hmem
    exact ⟨hlt, fun w'' claim hclaim => hexecuting w'' claim (hclaims hclaim)⟩
  · refine List.pairwise_append.mpr ⟨hx.kept, ?_, ?_⟩
    · exact List.pairwise_iff_forall_sublist.mpr fun hsub w' d token k heq => by
        have hmem := hsub.subset (List.mem_cons_self)
        simp [heq] at hmem
    · rintro e he e' he' w' d token k rfl rfl
      obtain ⟨claim, hclaim, htoken, hidle'⟩ := hms k token (by simpa using he')
      rw [(hx.invoked w' d token he).2 w claim hclaim htoken] at hidle'
      cases hidle'

/-- A step of a worker keeps the invariant. -/
theorem Exclusive.moves (hx : Exclusive events s) (hturn : s.turn = none ∨ s.turn = some w)
    (h : Moves svc py s w a phase claim es) :
    Exclusive (events ++ es) (s.after w phase claim es) := by
  have hmove := h.claimMove hx
  -- A claim registered afterwards has a fresh token, or that of a claim registered before.
  have hbefore {w' : ℕ} {c' : ActiveClaim} (hc' : (s.after w phase claim es).claims w' = some c') :
      c'.token = s.nextToken ∧ phase.minted = 1 ∧ w' = w ∨
        ∃ c, s.claims w' = some c ∧ c'.token = c.token ∧
          (c.executing = true → c'.executing = true) := by
    by_cases hw : w' = w
    · subst hw
      rw [EffectorState.after_claims_self] at hc'
      rcases hmove.token hc' with ⟨hfresh, hminted⟩ | hold
      · exact .inl ⟨hfresh, hminted, rfl⟩
      · exact .inr hold
    · rw [EffectorState.after_claims_of_ne hw] at hc'
      exact .inr ⟨c', hc', rfl, id⟩
  have hlt {w' : ℕ} {c : ActiveClaim} (hc : s.claims w' = some c) : c.token < s.nextToken :=
    hx.token_lt w' c hc
  refine ⟨fun w' c' hc' => ?_, fun w₁ w₂ c₁ c₂ hc₁ hc₂ htoken => ?_, fun w' d token hphase => ?_,
    fun w' d token hmem => ?_, fun pre w' d token post hsplit => ?_, ?_⟩
  · -- Tokens stay below the next one.
    show c'.token < s.nextToken + phase.minted
    rcases hbefore hc' with ⟨hfresh, hminted, -⟩ | ⟨c, hc, heq, -⟩
    · omega
    · have := hlt hc
      omega
  · -- Tokens stay distinct.
    rcases hbefore hc₁ with ⟨hfresh₁, -, rfl⟩ | ⟨c, hc, heq, -⟩ <;>
      rcases hbefore hc₂ with ⟨hfresh₂, -, rfl⟩ | ⟨c', hc', heq', -⟩
    · rfl
    · have := hlt hc'
      omega
    · have := hlt hc
      omega
    · exact hx.distinct w₁ w₂ c c' hc hc' (by omega)
  · -- Only the worker that moves can be in `claimed`.
    by_cases hw : w' = w
    · subst hw
      rw [EffectorState.after_phases_self] at hphase
      obtain ⟨hclaim, pre, e, rfl⟩ := h.claimed_phase hphase
      refine ⟨?_, ?_, events ++ pre, e, by rw [List.append_assoc]⟩
      · rw [EffectorState.after, hphase]
        rfl
      · rw [EffectorState.after_claims_self, hclaim]
    · rw [EffectorState.after_phases_of_ne hw] at hphase
      rw [(hx.claimed w' d token hphase).1] at hturn
      simp [hw] at hturn
  · -- An invoked tool's claim is executing wherever it is registered.
    rcases List.mem_append.mp hmem with hmem | hmem
    · obtain ⟨htoken, hexecuting⟩ := hx.invoked w' d token hmem
      refine ⟨Nat.lt_add_right _ htoken, fun w'' c'' hc'' heq => ?_⟩
      rcases hbefore hc'' with ⟨hfresh, -, -⟩ | ⟨c, hc, heq', hkeep⟩
      · omega
      · exact hkeep (hexecuting w'' c hc (by omega))
    · obtain ⟨rfl, -, hphase, hclaim⟩ := h.invoked_mem hmem
      obtain ⟨-, hold, -⟩ := hx.claimed w' d token hphase
      refine ⟨Nat.lt_add_right _ (hlt hold), fun w'' c'' hc'' heq => ?_⟩
      by_cases hw : w'' = w'
      · subst hw
        rw [EffectorState.after_claims_self, hclaim] at hc''
        cases hc''
        rfl
      · rw [EffectorState.after_claims_of_ne hw] at hc''
        exact absurd (hx.distinct w'' w' c'' _ hc'' hold heq) hw
  · refine hx.granted_append (fun w'' d' token' hmem => ?_) hsplit
    obtain ⟨rfl, hes, hphase, -⟩ := h.invoked_mem hmem
    exact ⟨hes, (hx.claimed w'' d' token' hphase).2.2⟩
  · -- A worker releases nothing.
    refine List.pairwise_append.mpr ⟨hx.kept, ?_, ?_⟩
    · refine List.pairwise_iff_forall_sublist.mpr fun hsub w' d token k _ heq => ?_
      exact h.no_release k token (heq ▸ hsub.subset (by simp))
    · rintro e - e' he' w' d token k - rfl
      exact h.no_release k token he'

/-- Every step keeps the invariant. -/
theorem Exclusive.step (hx : Exclusive events s) {act : EffectorAct}
    (h : svc.perform py s act = some (s', es)) : Exclusive (events ++ es) s' := by
  rcases perform_cases h with ⟨ms, -, rfl, rfl⟩ | ⟨w, a, phase, claim, -, hturn, hmoves, rfl⟩ |
    ⟨w, -, hturn, rfl, rfl, -⟩ | ⟨w, claim, ms, -, hturn, hclaim, hidle, rfl, rfl, hms⟩
  · rw [List.append_nil]
    exact hx.tick _
  · exact hx.moves hturn hmoves
  · have hquiet : Exclusive (events ++ ([] : List DedupMark).map EffectorEvent.store)
        { s.register w none with records := s.records } := hx.release hturn (by simp)
    exact hquiet
  · refine hx.release hturn fun k token hmem => ?_
    rcases hms with ⟨rfl, -⟩ | hforgets
    · cases List.mem_singleton.mp hmem
      exact ⟨claim, hclaim, rfl, hidle⟩
    · obtain ⟨record, heq⟩ := hforgets.now hmem
      cases heq

/-- The invariant holds of every run. -/
theorem run_exclusive {acts : List EffectorAct} (h : (svc.machine py).Run {} acts es s) :
    Exclusive es s :=
  h.invariant (I := fun _ es s => Exclusive es s) .start fun _ hx hstep => hx.step hstep

/-! ### Between two invocations -/

/-- Somewhere in the events, the claim under a token was seen to have expired, uncompleted. -/
def LeaseExpired (k : String) (token : ℕ) (events : List EffectorEvent) : Prop :=
  ∃ e now, e ≤ now ∧ .store (.forgot k (.held token e) now) ∈ events

/-- Somewhere in the events, the terminal record with this result and expiry was seen to have
expired. -/
def RecordExpired (k : String) (result : Option ToolResult) (e : Int)
    (events : List EffectorEvent) : Prop :=
  ∃ now, e ≤ now ∧ .store (.forgot k (.done result e) now) ∈ events

/-- The grant right before an invocation, as the last event of what lies in between. -/
private theorem grant_last {pre mid pre' : List EffectorEvent} {x y : EffectorEvent}
    (h : pre ++ x :: mid = pre' ++ [y]) (hne : x ≠ y) : ∃ mid', mid = mid' ++ [y] := by
  rcases List.eq_nil_or_concat mid with rfl | ⟨mid', z, rfl⟩
  · exact absurd (List.append_inj' h rfl).2 (by simpa using hne)
  · rw [List.concat_eq_append, ← List.cons_append, ← List.append_assoc] at h
    rw [List.concat_eq_append, (List.append_inj' h rfl).2]
    exact ⟨mid', rfl⟩

/-- **At most one execution per claim window.** In every run of any number of workers over one
store, between two invocations for one intent the store has seen the lease of the earlier claim
expire uncompleted, or the terminal record that it was completed into expire; and after a completion
that succeeded, no tool is invoked for the intent until the terminal record has expired. -/
theorem invocations_separated (svc : EffectorService) (py : PyLib) {acts : List EffectorAct}
    {es : List EffectorEvent} {s : EffectorState} (h : (svc.machine py).Run {} acts es s) :
    (∀ pre mid post w w' d d' token token', d'.intentId = d.intentId →
      es = pre ++ .invoked w d token :: (mid ++ .invoked w' d' token' :: post) →
      LeaseExpired d.intentId token mid ∨ ∃ result e,
        .store (.completed d.intentId token result e) ∈ mid ∧
          RecordExpired d.intentId result e mid) ∧
    ∀ pre mid post w d token token' result e,
      es = pre ++ .store (.completed d.intentId token result e) ::
        (mid ++ .invoked w d token' :: post) →
      RecordExpired d.intentId result e mid := by
  have hx := run_exclusive h
  have hvalid := (run_stored h).valid
  constructor
  · intro pre mid post w w' d d' token token' hid hes
    -- Each invocation follows its grant, so what lies between holds the second grant.
    obtain ⟨pre₁, e₁, rfl⟩ := hx.granted pre w d token _ hes
    obtain ⟨pre₂, e₂, hpre₂⟩ := hx.granted
      (pre₁ ++ [.store (.granted d.intentId token e₁)] ++ .invoked w d token :: mid) w' d' token'
      post (by simp [hes])
    obtain ⟨mid', rfl⟩ := grant_last hpre₂ (by simp)
    have hkept : .store (.released d.intentId token) ∉ mid' := by
      have hpairwise := (List.pairwise_append.mp (hes ▸ hx.kept)).2.1
      intro hmem
      exact List.rel_of_pairwise_cons hpairwise
        (List.mem_append_left _ (List.mem_append_left _ hmem)) w d token d.intentId rfl rfl
    have hmarks : marksOf es = marksOf pre₁ ++ .granted d.intentId token e₁ ::
        (marksOf mid' ++ .granted d.intentId token' e₂ :: marksOf post) := by
      simp [hes, marksOf, hid]
    rw [hmarks] at hvalid
    rcases hvalid.grants_separated with hreleased | ⟨now, hnow, hforgot⟩ |
      ⟨result, e, now, hcompleted, hnow, hforgot⟩
    · exact absurd (mem_marksOf.mp hreleased) hkept
    · exact .inl ⟨e₁, now, hnow, List.mem_append_left _ (mem_marksOf.mp hforgot)⟩
    · exact .inr ⟨result, e, List.mem_append_left _ (mem_marksOf.mp hcompleted), now, hnow,
        List.mem_append_left _ (mem_marksOf.mp hforgot)⟩
  · intro pre mid post w d token token' result e hes
    obtain ⟨pre₂, e₂, hpre₂⟩ :=
      hx.granted (pre ++ .store (.completed d.intentId token result e) :: mid) w d token' post
        (by simp [hes])
    obtain ⟨mid', rfl⟩ := grant_last hpre₂ (by simp)
    have hmarks : marksOf es = marksOf pre ++ .completed d.intentId token result e ::
        (marksOf mid' ++ .granted d.intentId token' e₂ :: marksOf post) := by
      simp [hes, marksOf]
    rw [hmarks] at hvalid
    obtain ⟨now, hnow, hforgot⟩ := hvalid.completed_granted
    exact ⟨now, hnow, List.mem_append_left _ (mem_marksOf.mp hforgot)⟩

/-- A service with one tool, whose arguments are always valid. -/
def charging : EffectorService where
  leaseMs := 100
  resultTtlMs := 1000
  runner := { toolTimeoutMs := 50
              registry := fun _ => some { sideEffect := true, validate := fun _ => .valid } }

/-- A call of the tool, as delivered. -/
def charge : Delivered where
  intent := { intentId := "a", toolName := "charge", expiresAtMs := 10000 }
  partition := "p"
  handle := 0

/-- Deliver the call to a worker, up to the invocation of the tool. -/
def attempt (w : ℕ) (d : Delivered) : List EffectorAct :=
  [.work w (.deliver d), .work w .check, .work w .claim, .work w .begin]

/-- A worker that dies while the tool runs is followed by another one after the lease. -/
def leaseRuns : List EffectorAct :=
  attempt 0 charge ++ [.work 0 .stop, .tick 100] ++ attempt 1 charge

/-- The tool is invoked twice in the run, and the first lease has expired in between. -/
theorem invocations_separated_run : ∃ pre mid post s,
    (charging.machine (.ofTable [])).Run {} leaseRuns
      (pre ++ .invoked 0 charge 0 :: (mid ++ .invoked 1 charge 1 :: post)) s ∧
    (LeaseExpired "a" 0 mid ∨ ∃ result e,
      .store (.completed "a" 0 result e) ∈ mid ∧ RecordExpired "a" result e mid) := by
  have hexec : (Machine.exec (charging.perform (.ofTable [])) {} leaseRuns).map (·.1) =
      some ([.delivered 0 charge, .store (.granted "a" 0 100)] ++ .invoked 0 charge 0 ::
        ([.stopped 0, .delivered 1 charge, .store (.forgot "a" (.held 0 100) 100),
          .store (.granted "a" 1 200)] ++ .invoked 1 charge 1 :: [])) := by decide
  obtain ⟨⟨es, s⟩, hr, rfl⟩ := Option.map_eq_some_iff.mp hexec
  have hrun : (charging.machine (.ofTable [])).Run {} leaseRuns _ s := .of_exec (fun _ _ => id) hr
  exact ⟨_, _, _, s, hrun, (invocations_separated _ _ hrun).1 _ _ _ _ _ _ _ _ _ rfl rfl⟩

end EffectorService

end BeamAgents
