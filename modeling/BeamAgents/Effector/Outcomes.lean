import BeamAgents.Effector.Handled

/-!
# The status of an intent

A result is published in two phases: the refusal of an expired intent, before the store is looked
at, and the result of a terminal record. The second repeats the status of the record as long as the
record lives. The first does not look at the record, so that the outcome of an intent that was
executed and not published in time is contradicted by a refusal.

## Main definitions

* `EffectorService.OneStatus`: what a publication has to agree with.
* `EffectorService.SameStatus`: all publications under one retained record agree.
* `EffectorService.Timely`: an intent is refused only if nobody has claimed it, and published before
  its record expires.

## Main results

* `EffectorService.run_oneStatus`: timely runs publish one status for each intent.
* `EffectorService.refused_after_completion`: a run that publishes another one.
-/

namespace BeamAgents

open Transition Lease

namespace EffectorService

/-- A result answers the intent of an id, and is no refusal. -/
def Answers (intentId : String) (result : ToolResult) : Prop :=
  result.intentId = intentId ∧ result.status ≠ .expired

/-- The result that a worker is about to complete or to publish. -/
def PhaseAnswers : Phase → Prop
  | .refusing d refusal => refusal.intentId = d.intentId ∧ refusal.status = .expired
  | .completing d _ result | .publishing d result => Answers d.intentId result
  | _ => True

/-- Every result in the system answers the intent under whose id it is kept. -/
structure Answered (events : List EffectorEvent) (s : EffectorState) : Prop where
  phases : ∀ w, PhaseAnswers (s.phases w)
  recorded : ∀ k token result e, .store (.completed k token (some result) e) ∈ events →
    Answers k result

variable {svc : EffectorService} {py : PyLib} {s s' : EffectorState} {w : ℕ} {a : Work}
  {es events : List EffectorEvent} {phase : Phase} {claim : Option ActiveClaim}

theorem Answered.start : Answered [] {} := ⟨fun _ => trivial, by simp⟩

/-- The results that a step of a worker puts into its phase and into the store. -/
theorem Moves.answers (hs : Stored events s) (ha : Answered events s)
    (h : Moves svc py s w a phase claim es) :
    PhaseAnswers phase ∧ ∀ k token result e,
      .store (.completed k token (some result) e) ∈ es → Answers k result := by
  have hphase {p : Phase} (hp : s.phases w = p) : PhaseAnswers p := hp ▸ ha.phases w
  cases h with
  | delivered =>
    refine ⟨?_, by simp⟩
    unfold received
    split
    · split_ifs <;> trivial
    · trivial
  | @deadLettered _ _ acked | @notified _ _ acked => cases acked <;> exact ⟨trivial, by simp⟩
  | expired _ hexpired => exact ⟨(refuseExpired_eq_some hexpired).2, by simp⟩
  | @refused _ _ acked hp | @published _ _ acked hp =>
    cases acked
    · exact ⟨hphase hp, by simp⟩
    · exact ⟨trivial, by simp⟩
  | granted _ hforgets | unrouted _ hforgets | lost _ hforgets =>
    refine ⟨trivial, ?_⟩
    rcases hforgets with rfl | ⟨record, -, -, rfl⟩ <;> simp
  | @deduped d result e _ hdone hlive =>
    refine ⟨?_, by simp⟩
    cases result with
    | none => trivial
    | some result =>
      obtain ⟨token, hwritten⟩ := hs.written hdone
      exact ha.recorded _ _ _ _ hwritten
  | answered _ _ hadmission =>
    obtain ⟨hid, hstatus⟩ := EffectorToolRunner.admission_answered hadmission
    refine ⟨⟨hid, ?_⟩, by simp⟩
    rcases hstatus with hstatus | hstatus <;> simp [hstatus]
  | finished _ _ hresult =>
    exact ⟨EffectorToolRunner.invocationResult_spec hresult, by simp⟩
  | @completed d _ result _ hp =>
    have hresult : Answers d.intentId result := hphase hp
    refine ⟨hresult, fun k token result' e hmem => ?_⟩
    cases List.mem_singleton.mp hmem
    exact hresult
  | _ => exact ⟨trivial, by simp⟩

/-- Every step keeps the results where they belong. -/
theorem Answered.step (hs : Stored events s) (ha : Answered events s) {act : EffectorAct}
    (h : svc.perform py s act = some (s', es)) : Answered (events ++ es) s' := by
  rcases perform_cases h with ⟨ms, -, rfl, rfl⟩ | ⟨w, a, phase, claim, -, -, hmoves, rfl⟩ |
    ⟨w, -, -, rfl, rfl, -⟩ | ⟨w, claim, ms, -, -, -, -, rfl, rfl, hms⟩
  · exact ⟨ha.phases, by simpa using ha.recorded⟩
  · obtain ⟨hphase, hrecorded⟩ := hmoves.answers hs ha
    refine ⟨fun w' => ?_, fun k token result e hmem => ?_⟩
    · by_cases hw : w' = w
      · subst hw
        rwa [EffectorState.after_phases_self]
      · rw [EffectorState.after_phases_of_ne hw]
        exact ha.phases w'
    · exact (List.mem_append.mp hmem).elim (ha.recorded _ _ _ _) (hrecorded _ _ _ _)
  · exact ⟨ha.phases, by simpa using ha.recorded⟩
  · refine ⟨ha.phases, fun k token result e hmem => ?_⟩
    rcases List.mem_append.mp hmem with hmem | hmem
    · exact ha.recorded _ _ _ _ hmem
    · rcases hms with ⟨rfl, -⟩ | hforgets | ⟨record, -, -, rfl⟩ <;> simp_all

/-! ### Publications -/

/-- A publication happens in one of the two phases that publish a result. -/
theorem perform_published {act : EffectorAct} (h : svc.perform py s act = some (s', es))
    {d : Delivered} {result : ToolResult} {now : Int} {acked : Bool}
    (hmem : .published w d result now acked ∈ es) :
    es = [.published w d result s.now acked] ∧ now = s.now ∧
      (s.phases w = .refusing d result ∨ s.phases w = .publishing d result) := by
  rcases perform_cases h with ⟨ms, -, -, rfl⟩ | ⟨w', a, phase, claim, rfl, -, hmoves, -⟩ |
    ⟨w', -, -, -, rfl, -⟩ | ⟨w', claim, ms, -, -, -, -, rfl, -, -⟩
  · cases hmem
  · cases hmoves with
    | refused hp =>
      cases List.mem_singleton.mp hmem
      exact ⟨rfl, rfl, .inl hp⟩
    | published hp =>
      cases List.mem_singleton.mp hmem
      exact ⟨rfl, rfl, .inr hp⟩
    | _ => simp at hmem
  · cases hmem
  · simp at hmem

/-- What a step has to publish after a history: the status of the terminal record while it is
retained; and no refusal of an intent whose tool was invoked or whose record is retained. A call
that the sink does not acknowledge may have gone through, and counts. -/
def OneStatus (log es : List EffectorEvent) : Prop :=
  ∀ w d result now acked, .published w d result now acked ∈ es →
    (∀ token value e, .store (.completed result.intentId token value e) ∈ log → now < e →
      value.map (·.status) = some result.status) ∧
    (result.status = .expired →
      (∀ w' d' token, .invoked w' d' token ∈ log → d'.intentId ≠ result.intentId) ∧
      ∀ token value e, .store (.completed result.intentId token value e) ∈ log → e ≤ now)

/-- All results that are published for an intent between its completion and the expiry of the
terminal record carry the same status. -/
def SameStatus (log : List EffectorEvent) : Prop :=
  ∀ pre post k token value e, log = pre ++ .store (.completed k token value e) :: post →
    ∀ w d result now acked w' d' result' now' acked',
      .published w d result now acked ∈ post → result.intentId = k → now < e →
      .published w' d' result' now' acked' ∈ post → result'.intentId = k → now' < e →
      result.status = result'.status

/-! ### Timely runs -/

/-- The ids on which the events grant a claim, in order. -/
def grantedIds (events : List EffectorEvent) : List String :=
  (marksOf events).filterMap fun
    | .granted intentId _ _ => some intentId
    | _ => none

theorem mem_grantedIds {intentId : String} :
    intentId ∈ grantedIds events ↔ ∃ token e, .store (.granted intentId token e) ∈ events := by
  rw [grantedIds, List.mem_filterMap]
  constructor
  · rintro ⟨m, hm, heq⟩
    cases m <;> cases heq
    exact ⟨_, _, mem_marksOf.mp hm⟩
  · rintro ⟨token, e, hmem⟩
    exact ⟨_, mem_marksOf.mpr hmem, rfl⟩

/-- The deliveries of all workers, with the worker, in order. -/
def deliveriesOf (events : List EffectorEvent) : List (ℕ × Delivered) :=
  events.filterMap fun
    | .delivered w d => some (w, d)
    | _ => none

theorem mem_deliveriesOf {d : Delivered} :
    (w, d) ∈ deliveriesOf events ↔ .delivered w d ∈ events := by
  rw [deliveriesOf, List.mem_filterMap]
  constructor
  · rintro ⟨e, he, heq⟩
    cases e <;> simp_all
  · exact fun h => ⟨_, h, rfl⟩

/-- The id whose result a worker is publishing. -/
def publishedId : Phase → Option String
  | .publishing d _ => some d.intentId
  | _ => none

/-- The intent that a worker is checking. -/
def checkedIntent : Phase → Option ToolIntent
  | .checking d => some d.intent
  | _ => none

/-- Until when a terminal record lives. -/
def doneUntil : DedupRecord → Option Int
  | .done _ e => some e
  | .held .. => none

/-- Whether a worker publishes the result of a terminal record that has expired by a time. -/
def OutlastedBy (s : EffectorState) (now : Int) (w : ℕ) : Prop :=
  ∃ k ∈ publishedId (s.phases w), ∃ e ∈ (s.records k).bind doneUntil, e ≤ now

instance (s : EffectorState) (now : Int) (w : ℕ) : Decidable (OutlastedBy s now w) :=
  inferInstanceAs
    (Decidable (∃ k ∈ publishedId (s.phases w), ∃ e ∈ (s.records k).bind doneUntil, e ≤ now))

/-- A step is timely: one id stands for one intent; an expired intent comes to its refusal only if
no claim on it was ever granted; and the clock does not pass the expiry of a terminal record while
its result is being published. -/
def Timely (x : EffectorState × List EffectorEvent) : EffectorAct → Prop
  | .work _ (.deliver d) =>
    ∀ p ∈ deliveriesOf x.2, p.2.intentId = d.intentId → p.2.intent = d.intent
  | .work w .check =>
    ∀ intent ∈ checkedIntent (x.1.phases w),
      refuseExpired intent x.1.now = none ∨ intent.intentId ∉ grantedIds x.2
  | .tick ms => ∀ p ∈ deliveriesOf x.2, ¬ OutlastedBy x.1 (x.1.now + ms) p.1
  | _ => True

instance (x : EffectorState × List EffectorEvent) : (act : EffectorAct) → Decidable (Timely x act)
  | .work _ (.deliver d) => inferInstanceAs (Decidable
    (∀ p ∈ deliveriesOf x.2, p.2.intentId = d.intentId → p.2.intent = d.intent))
  | .work w .check => inferInstanceAs (Decidable (∀ intent ∈ checkedIntent (x.1.phases w),
    refuseExpired intent x.1.now = none ∨ intent.intentId ∉ grantedIds x.2))
  | .tick ms => inferInstanceAs (Decidable
    (∀ p ∈ deliveriesOf x.2, ¬ OutlastedBy x.1 (x.1.now + ms) p.1))
  | .work _ (.deadLetter _) | .work _ (.refuse _) | .work _ .claim | .work _ .begin
  | .work _ (.finish _) | .work _ .complete | .work _ (.publish _) | .work _ (.notify _)
  | .work _ .route | .work _ .commit | .work _ .stop | .release _ => isTrue trivial

/-- What timely steps keep: a worker publishes the result of a record that is live; an intent that
is being refused has expired and was never claimed, nor is it about to be; and one id stands for one
intent. -/
structure Undisputed (events : List EffectorEvent) (s : EffectorState) : Prop where
  publishing : ∀ w d result, s.phases w = .publishing d result →
    ∃ token e, .store (.completed d.intentId token (some result) e) ∈ events ∧ s.now < e
  refusing : ∀ w d refusal, s.phases w = .refusing d refusal →
    intentExpired d.intent s.now ∧ d.intentId ∉ grantedIds events ∧
      ∀ w' d', s.phases w' = .claiming d' ∨ s.phases w' = .waiting d' → d'.intentId ≠ d.intentId
  /-- Where a worker waits for a claim, another one was granted it. -/
  waiting : ∀ w d, s.phases w = .waiting d → d.intentId ∈ grantedIds events
  /-- A worker between its check and its claim holds the event loop. -/
  turn : ∀ w d, s.phases w = .claiming d → s.turn = some w
  intents : ∀ p ∈ deliveriesOf events, ∀ q ∈ deliveriesOf events,
    p.2.intentId = q.2.intentId → p.2.intent = q.2.intent

theorem Undisputed.start : Undisputed [] {} :=
  ⟨by simp, by simp, by simp, by simp, by simp [deliveriesOf]⟩

/-- What is invoked was granted. -/
theorem Exclusive.mem_grantedIds (hx : Exclusive events s) {d : Delivered} {token : ℕ}
    (hmem : .invoked w d token ∈ events) : d.intentId ∈ grantedIds events := by
  obtain ⟨pre, post, hsplit⟩ := List.append_of_mem hmem
  obtain ⟨pre', e, rfl⟩ := hx.granted pre w d token post hsplit
  exact EffectorService.mem_grantedIds.mpr ⟨token, e, by rw [hsplit]; simp⟩

/-- What is completed was granted. -/
theorem Stored.mem_grantedIds (hs : Stored events s) {k : String} {token : ℕ}
    {value : Option ToolResult} {e : Int}
    (hmem : .store (.completed k token value e) ∈ events) : k ∈ grantedIds events := by
  obtain ⟨e', hgranted⟩ := hs.valid.granted_of_completed (mem_marksOf.mpr hmem) rfl
  exact EffectorService.mem_grantedIds.mpr ⟨token, e', mem_marksOf.mp hgranted⟩

/-- A claim in the store was granted. -/
theorem Stored.mem_grantedIds_of_held (hs : Stored events s) {k : String} {token : ℕ} {e : Int}
    (hheld : s.records k = some (.held token e)) : k ∈ grantedIds events := by
  rw [hs.records] at hheld
  rcases applyAll_eq_held hheld with hnone | hgranted
  · cases hnone
  · exact EffectorService.mem_grantedIds.mpr ⟨token, e, mem_marksOf.mp hgranted⟩

/-- What a step of worker `w` grants: nothing, or a claim on the delivery it was about to claim. -/
theorem Moves.grantedIds (h : Moves svc py s w a phase claim es) :
    EffectorService.grantedIds es = [] ∨
      ∃ d, (s.phases w = .claiming d ∨ s.phases w = .waiting d) ∧
        EffectorService.grantedIds es = [d.intentId] := by
  have hforgets {k : String} {ms : List DedupMark} (hms : Forgets s k ms) :
      ms.filterMap (fun m => match m with
        | .granted intentId _ _ => some intentId
        | _ => none) = [] := by
    rcases hms with rfl | ⟨record, -, -, rfl⟩ <;> rfl
  cases h with
  | @granted d ms hphase hms =>
    refine .inr ⟨d, hphase, ?_⟩
    rw [EffectorService.grantedIds, marksOf_map, List.filterMap_append, hforgets hms]
    rfl
  | lost _ hms | unrouted _ hms =>
    refine .inl ?_
    rw [EffectorService.grantedIds, marksOf_append, marksOf_map, List.filterMap_append,
      hforgets hms]
    rfl
  | _ => exact .inl rfl

theorem grantedIds_append (es fs : List EffectorEvent) :
    grantedIds (es ++ fs) = grantedIds es ++ grantedIds fs := by
  rw [grantedIds, marksOf_append, List.filterMap_append]
  rfl

theorem deliveriesOf_append (es fs : List EffectorEvent) :
    deliveriesOf (es ++ fs) = deliveriesOf es ++ deliveriesOf fs := List.filterMap_append

/-- A step hands out nothing, or the delivery that its action names. -/
theorem Moves.deliveriesOf (h : Moves svc py s w a phase claim es) :
    EffectorService.deliveriesOf es = [] ∨
      ∃ d, a = .deliver d ∧ EffectorService.deliveriesOf es = [(w, d)] := by
  cases h with
  | delivered => exact .inr ⟨_, rfl, rfl⟩
  | granted => exact .inl (by simp [EffectorService.deliveriesOf, List.filterMap_map])
  | lost | unrouted => exact .inl (by simp [EffectorService.deliveriesOf, List.filterMap_map])
  | _ => exact .inl rfl

/-- A worker comes to publish a result when the record is written, or finds it live. -/
theorem Moves.publishing (hs : Stored events s) (hu : Undisputed events s)
    (h : Moves svc py s w a phase claim es) {d : Delivered} {result : ToolResult}
    (hphase : phase = .publishing d result) : ∃ token e,
      .store (.completed d.intentId token (some result) e) ∈ events ++ es ∧ s.now < e := by
  cases h with
  | delivered =>
    unfold received at hphase
    split at hphase
    · split_ifs at hphase
    · cases hphase
  | @published d' result' acked hp =>
    cases acked <;> cases hphase
    obtain ⟨token, e, hmem, hlive⟩ := hu.publishing w d result hp
    exact ⟨token, e, List.mem_append_left _ hmem, hlive⟩
  | @deduped d' value e hp hdone hlive =>
    cases value with
    | none => cases hphase
    | some result' =>
      cases hphase
      obtain ⟨token, hwritten⟩ := hs.written hdone
      exact ⟨token, e, List.mem_append_left _ hwritten, hlive⟩
  | @completed d' token result' e hp hheld hlive =>
    cases hphase
    have hpos := svc.resultTtl_pos
    exact ⟨token, s.now + svc.resultTtlMs, by simp, by omega⟩
  | @deadLettered _ _ acked | @refused _ _ acked | @notified _ _ acked =>
    cases acked <;> cases hphase
  | _ => cases hphase

/-- A worker comes to refuse a delivery at its check, or goes on refusing it. -/
theorem Moves.refusing (h : Moves svc py s w a phase claim es) {d : Delivered}
    {refusal : ToolResult} (hphase : phase = .refusing d refusal) :
    s.phases w = .refusing d refusal ∨
      a = .check ∧ s.phases w = .checking d ∧ refuseExpired d.intent s.now = some refusal := by
  cases h with
  | expired hp hexpired =>
    cases hphase
    exact .inr ⟨rfl, hp, hexpired⟩
  | @refused _ _ acked hp =>
    cases acked <;> cases hphase
    exact .inl hp
  | delivered =>
    unfold received at hphase
    split at hphase
    · split_ifs at hphase
    · cases hphase
  | @deduped _ value => cases value <;> cases hphase
  | @deadLettered _ _ acked | @published _ _ acked | @notified _ _ acked =>
    cases acked <;> cases hphase
  | _ => cases hphase

/-- A worker comes to claim a delivery when its check finds that it has not expired, or waits for a
claim that is held. -/
theorem Moves.claiming (h : Moves svc py s w a phase claim es) {d : Delivered}
    (hphase : phase = .claiming d ∨ phase = .waiting d) :
    (phase = .claiming d ∧ s.phases w = .checking d ∧ refuseExpired d.intent s.now = none) ∨
      (phase = .waiting d ∧ (s.phases w = .claiming d ∨ s.phases w = .waiting d) ∧
        ∃ token e, s.records d.intentId = some (.held token e)) := by
  cases h with
  | current hp hlive =>
    rcases hphase with hphase | hphase <;> cases hphase
    exact .inl ⟨rfl, hp, hlive⟩
  | inFlight hp hheld =>
    rcases hphase with hphase | hphase <;> cases hphase
    exact .inr ⟨rfl, hp, _, _, hheld⟩
  | delivered =>
    unfold received at hphase
    split at hphase
    · split_ifs at hphase <;> simp at hphase
    · simp at hphase
  | @deduped _ value => cases value <;> simp [afterClaim] at hphase
  | @deadLettered _ _ acked | @refused _ _ acked | @published _ _ acked | @notified _ _ acked =>
    cases acked <;> simp at hphase
  | _ => simp at hphase

/-- The clock goes on, and passes the expiry of no record whose result is being published. -/
theorem Undisputed.tick (hs : Stored events s) (ha : Accounted svc events s)
    (hu : Undisputed events s) {ms : ℕ} (htimely : Timely (s, events) (.tick ms)) :
    Undisputed events { s with now := s.now + ms } := by
  have hnow : s.now ≤ s.now + ms := Int.le_add_of_nonneg_right (Int.natCast_nonneg ms)
  refine ⟨fun w d result hphase => ?_, fun w d refusal hphase => ?_, hu.waiting, hu.turn,
    hu.intents⟩
  · obtain ⟨token, e, hmem, hlive⟩ := hu.publishing w d result hphase
    have hrecord : s.records d.intentId = some (.done (some result) e) := hs.retained hmem hlive
    have hdelivered : (w, d) ∈ deliveriesOf events := by
      refine mem_deliveriesOf.mpr (ha.current w d ?_)
      rw [show s.phases w = _ from hphase, Phase.delivery]
    have hpublished : publishedId (s.phases w) = some d.intentId := by rw [hphase]; rfl
    have huntil : (s.records d.intentId).bind doneUntil = some e := by rw [hrecord]; rfl
    exact ⟨token, e, hmem, Int.not_le.mp fun hle =>
      htimely _ hdelivered ⟨_, hpublished, _, huntil, hle⟩⟩
  · obtain ⟨hexpired, hrest⟩ := hu.refusing w d refusal hphase
    exact ⟨intentExpired_mono hnow hexpired, hrest⟩

/-- A timely step of a worker. -/
theorem Undisputed.moves (hs : Stored events s) (ha : Accounted svc events s)
    (hu : Undisputed events s) (hturn : s.turn = none ∨ s.turn = some w)
    (h : Moves svc py s w a phase claim es) (htimely : Timely (s, events) (.work w a)) :
    Undisputed (events ++ es) (s.after w phase claim es) := by
  have hdelivered {w' : ℕ} {d : Delivered} (hd : (s.phases w').delivery = some d) :
      (w', d) ∈ deliveriesOf events := mem_deliveriesOf.mpr (ha.current w' d hd)
  -- A worker that goes on to claim a delivery does so with no refusal of its intent under way.
  have hclaims {v : ℕ} {d' : Delivered}
      (hv : (s.after w phase claim es).phases v = .claiming d' ∨
        (s.after w phase claim es).phases v = .waiting d') {w' : ℕ} {d : Delivered}
      {refusal : ToolResult} (hw' : s.phases w' = .refusing d refusal) :
      d'.intentId ≠ d.intentId := by
    obtain ⟨hexpired, -, hothers⟩ := hu.refusing w' d refusal hw'
    by_cases hvw : v = w
    · subst hvw
      rw [EffectorState.after_phases_self] at hv
      rcases h.claiming hv with ⟨-, hchecking, hlive⟩ | ⟨-, hclaiming, -⟩
      · intro hid
        have hsame : d'.intent = d.intent :=
          hu.intents _ (hdelivered (by rw [hchecking, Phase.delivery])) _
            (hdelivered (by rw [hw', Phase.delivery])) hid
        rw [hsame, refuseExpired_eq_none_iff] at hlive
        rw [hlive] at hexpired
        cases hexpired
      · exact hothers v d' hclaiming
    · rw [EffectorState.after_phases_of_ne hvw] at hv
      exact hothers v d' hv
  refine ⟨fun w' d result hphase => ?_, fun w' d refusal hphase => ?_, fun w' d hphase => ?_,
    fun w' d hphase => ?_, fun p hp q hq hid => ?_⟩
  · by_cases hw : w' = w
    · subst hw
      rw [EffectorState.after_phases_self] at hphase
      exact h.publishing hs hu hphase
    · rw [EffectorState.after_phases_of_ne hw] at hphase
      obtain ⟨token, e, hmem, hlive⟩ := hu.publishing w' d result hphase
      exact ⟨token, e, List.mem_append_left _ hmem, hlive⟩
  · -- What was being refused before stays so; a refusal begins only where nothing was claimed.
    have hold (hw' : s.phases w' = .refusing d refusal) : intentExpired d.intent s.now ∧
        d.intentId ∉ EffectorService.grantedIds (events ++ es) ∧ ∀ v d',
          (s.after w phase claim es).phases v = .claiming d' ∨
            (s.after w phase claim es).phases v = .waiting d' → d'.intentId ≠ d.intentId := by
      obtain ⟨hexpired, hnone, hothers⟩ := hu.refusing w' d refusal hw'
      refine ⟨hexpired, ?_, fun v d' hv => hclaims hv hw'⟩
      rw [grantedIds_append]
      rcases h.grantedIds with hes | ⟨d', hclaiming, hes⟩
      · rwa [hes, List.append_nil]
      · rw [hes, List.mem_append, List.mem_singleton, not_or]
        exact ⟨hnone, fun hid => hothers w d' hclaiming hid.symm⟩
    by_cases hw : w' = w
    · subst hw
      rw [EffectorState.after_phases_self] at hphase
      rcases h.refusing hphase with hrefusing | ⟨rfl, hchecking, hexpired⟩
      · exact hold hrefusing
      · have hchecked : checkedIntent (s.phases w') = some d.intent := by rw [hchecking]; rfl
        have hnone : d.intentId ∉ EffectorService.grantedIds events :=
          (htimely _ hchecked).resolve_left fun hlive => by cases hlive.symm.trans hexpired
        have hes : EffectorService.grantedIds es = [] := by
          rcases h.grantedIds with hes | ⟨d', hclaiming, -⟩
          · exact hes
          · rcases hclaiming with hclaiming | hclaiming <;> cases hchecking.symm.trans hclaiming
        refine ⟨(refuseExpired_eq_some hexpired).1, ?_, fun v d' hv hid => ?_⟩
        · rwa [grantedIds_append, hes, List.append_nil]
        · by_cases hvw : v = w'
          · subst hvw
            rw [EffectorState.after_phases_self, hphase] at hv
            rcases hv with hv | hv <;> cases hv
          · rw [EffectorState.after_phases_of_ne hvw] at hv
            rcases hv with hv | hv
            · rw [hu.turn v d' hv] at hturn
              simp [hvw] at hturn
            · exact hnone (hid ▸ hu.waiting v d' hv)
    · rw [EffectorState.after_phases_of_ne hw] at hphase
      exact hold hphase
  · rw [grantedIds_append]
    refine List.mem_append_left _ ?_
    by_cases hw : w' = w
    · subst hw
      rw [EffectorState.after_phases_self] at hphase
      rcases h.claiming (.inr hphase) with ⟨hclaiming, -⟩ | ⟨-, -, token, e, hheld⟩
      · cases hphase.symm.trans hclaiming
      · exact hs.mem_grantedIds_of_held hheld
    · rw [EffectorState.after_phases_of_ne hw] at hphase
      exact hu.waiting w' d hphase
  · by_cases hw : w' = w
    · subst hw
      rw [EffectorState.after_phases_self] at hphase
      simp only [EffectorState.after, hphase]
      rfl
    · rw [EffectorState.after_phases_of_ne hw] at hphase
      rw [hu.turn w' d hphase] at hturn
      simp [hw] at hturn
  · rw [deliveriesOf_append] at hp hq
    rcases h.deliveriesOf with hes | ⟨d, rfl, hes⟩
    · rw [hes, List.append_nil] at hp hq
      exact hu.intents p hp q hq hid
    · rw [hes, List.mem_append, List.mem_singleton] at hp hq
      rcases hp with hp | rfl <;> rcases hq with hq | rfl
      · exact hu.intents p hp q hq hid
      · exact htimely p hp hid
      · exact (htimely q hq hid.symm).symm
      · rfl

/-- A timely step. -/
theorem Undisputed.step (hs : Stored events s) (ha : Accounted svc events s)
    (hu : Undisputed events s) {act : EffectorAct} (h : svc.perform py s act = some (s', es))
    (htimely : Timely (s, events) act) : Undisputed (events ++ es) s' := by
  have hchanges (ms : List DedupMark) (hms : ∀ k token e, .granted k token e ∉ ms)
      {records : InMemoryDedupStore} {w : ℕ} : Undisputed (events ++ ms.map .store)
        { s.register w none with records := records } := by
    have hnone : grantedIds (ms.map .store) = [] := by
      refine List.eq_nil_iff_forall_not_mem.mpr fun k hk => ?_
      obtain ⟨token, e, hmem⟩ := mem_grantedIds.mp hk
      exact hms k token e (by simpa using hmem)
    have hgranted : grantedIds (events ++ ms.map .store) = grantedIds events := by
      rw [grantedIds_append, hnone, List.append_nil]
    have hdeliveries : deliveriesOf (events ++ ms.map .store) = deliveriesOf events := by
      simp [deliveriesOf, List.filterMap_map]
    refine ⟨fun w d result hphase => ?_, ?_, ?_, hu.turn, hdeliveries ▸ hu.intents⟩
    · obtain ⟨token, e, hmem, hlive⟩ := hu.publishing w d result hphase
      exact ⟨token, e, List.mem_append_left _ hmem, hlive⟩
    · rw [hgranted]
      exact hu.refusing
    · rw [hgranted]
      exact hu.waiting
  rcases perform_cases h with ⟨ms, rfl, rfl, rfl⟩ | ⟨w, a, phase, claim, rfl, hturn, hmoves, rfl⟩ |
    ⟨w, rfl, -, rfl, rfl, -⟩ | ⟨w, claim, ms, rfl, -, -, -, rfl, rfl, hms⟩
  · rw [List.append_nil]
    exact hu.tick hs ha htimely
  · exact hu.moves hs ha hturn hmoves htimely
  · exact hchanges [] (by simp)
  · refine hchanges ms fun k token e hmem => ?_
    rcases hms with ⟨rfl, -⟩ | hforgets | ⟨record, -, -, rfl⟩ <;> simp_all

/-- Where nothing is disputed, a step publishes one status. -/
theorem oneStatus_of_undisputed (hs : Stored events s) (hx : Exclusive events s)
    (ha : Answered events s) (hu : Undisputed events s) {act : EffectorAct}
    (h : svc.perform py s act = some (s', es)) : OneStatus events es := by
  intro w d result now acked hmem
  obtain ⟨-, rfl, hphase | hphase⟩ := perform_published h hmem
  · obtain ⟨hid, -⟩ : PhaseAnswers (.refusing d result) := hphase ▸ ha.phases w
    obtain ⟨-, hnone, -⟩ := hu.refusing w d result hphase
    have hunwritten {token : ℕ} {value : Option ToolResult} {e : Int} :
        .store (.completed result.intentId token value e) ∉ events :=
      fun hwritten => hnone (hid ▸ hs.mem_grantedIds hwritten)
    refine ⟨fun token value e hwritten => absurd hwritten hunwritten, fun _ => ⟨?_, ?_⟩⟩
    · exact fun w' d' token hinvoked hsame => hnone (hid ▸ hsame ▸ hx.mem_grantedIds hinvoked)
    · exact fun token value e hwritten => absurd hwritten hunwritten
  · obtain ⟨hid, hstatus⟩ : PhaseAnswers (.publishing d result) := hphase ▸ ha.phases w
    refine ⟨fun token value e hwritten hlive => ?_, fun hexpired => absurd hexpired hstatus⟩
    obtain ⟨token', e', hcompleted, hlive'⟩ := hu.publishing w d result hphase
    have hrecord : s.records d.intentId = some (.done (some result) e') :=
      hs.retained hcompleted hlive'
    have hrecord' : s.records d.intentId = some (.done value e) := hid ▸ hs.retained hwritten hlive
    cases hrecord.symm.trans hrecord'
    rfl

/-! ### Runs -/

/-- A publication under a retained record carries its status. -/
def Repeats (x y : EffectorEvent) : Prop :=
  ∀ k token value e w d result now acked, x = .store (.completed k token value e) →
    y = .published w d result now acked → result.intentId = k → now < e →
    value.map (·.status) = some result.status

/-- Publications that each repeat the retained record agree with each other. -/
theorem sameStatus_of_repeats {log : List EffectorEvent} (h : log.Pairwise Repeats) :
    SameStatus log := by
  rintro pre post k token value e rfl w d result now acked w' d' result' now' acked' hmem hid hnow
    hmem' hid' hnow'
  have hafter := (List.pairwise_cons.mp (List.pairwise_append.mp h).2.1).1
  have hstatus := hafter _ hmem k token value e w d result now acked rfl rfl hid hnow
  have hstatus' := hafter _ hmem' k token value e w' d' result' now' acked' rfl rfl hid' hnow'
  exact Option.some.inj (hstatus.symm.trans hstatus')

/-- In a run that publishes one status, the publications repeat the records. -/
theorem run_repeats {acts : List EffectorAct} {x : EffectorState × List EffectorEvent}
    (h : ((svc.machine py).logged.restrict fun x _ _ es => OneStatus x.2 es).Run ({}, []) acts es
      x) : x.2.Pairwise Repeats := by
  refine h.stateInvariant (I := fun x => x.2.Pairwise Repeats) .nil ?_
  rintro ⟨s, log⟩ act ⟨s', log'⟩ os ih ⟨hone, hstep, rfl⟩
  refine List.pairwise_append.mpr ⟨ih, ?_, ?_⟩
  · -- A publication is a step of its own.
    refine List.pairwise_iff_forall_sublist.mpr ?_
    rintro x y hsub k token value e w d result now acked rfl rfl - -
    have hmem : .published w d result now acked ∈ os := hsub.subset (by simp)
    have hsingle := (perform_published hstep hmem).1
    have hlength := hsub.length_le
    simp [hsingle] at hlength
  · rintro x hx y hy k token value e w d result now acked rfl rfl rfl hnow
    exact (hone w d result now acked hy).1 token value e hx hnow

/-- **One terminal status for each intent, unless its redelivery straddles its expiry.** In every
run in which one id stands for one intent, an expired intent comes to its refusal only if no claim
on it was ever granted, and the clock does not pass the expiry of a terminal record while its result
is being published: each publication carries the status of the terminal record while it is retained;
no intent is refused whose tool was invoked or whose terminal record is live; and all the results
that are published for an intent while its record is retained carry the same status. -/
theorem run_oneStatus (svc : EffectorService) (py : PyLib) {acts : List EffectorAct}
    {es : List EffectorEvent} {x : EffectorState × List EffectorEvent}
    (h : ((svc.machine py).logged.guarded Timely).Run ({}, []) acts es x) :
    ((svc.machine py).logged.restrict fun x _ _ es => OneStatus x.2 es).Run ({}, []) acts es x ∧
      SameStatus x.2 := by
  have hone : ((svc.machine py).logged.restrict fun x _ _ es => OneStatus x.2 es).Run ({}, [])
      acts es x := by
    refine h.restrict_of_guarded (I := fun x => (Stored x.2 x.1 ∧ Exclusive x.2 x.1) ∧
      Answered x.2 x.1 ∧ Accounted svc x.2 x.1 ∧ Undisputed x.2 x.1)
      ⟨⟨.start, .start⟩, .start, .start, .start⟩ ?_ ?_
    · rintro ⟨s, log⟩ act ⟨s', log'⟩ os ⟨⟨hs, hx⟩, hanswered, ha, hu⟩ htimely ⟨hstep, rfl⟩
      exact ⟨⟨hs.step hstep, hx.step hstep⟩, hanswered.step hs hstep, ha.step hs hstep,
        hu.step hs ha hstep htimely⟩
    · rintro ⟨s, log⟩ act ⟨s', log'⟩ os ⟨⟨hs, hx⟩, hanswered, ha, hu⟩ - ⟨hstep, -⟩
      exact oneStatus_of_undisputed hs hx hanswered hu hstep
  exact ⟨hone, sameStatus_of_repeats (run_repeats hone)⟩

/-- A call that expires soon. -/
def shortCharge : Delivered := { charge with intent := { charge.intent with expiresAtMs := 200 } }

/-- A call that expires soon, under another id. -/
def staleCharge : Delivered :=
  { shortCharge with intent := { shortCharge.intent with intentId := "b" }, handle := 1 }

/-- A worker dies over its publication, which may have got through; another one publishes the result
again. Then it refuses a call that has expired. -/
def redeliveringRun : List EffectorAct :=
  [.tick 300] ++ attempt 0 charge ++
    [.work 0 (.finish (.returned [1])), .work 0 .complete, .work 0 (.publish false), .work 0 .stop,
      .work 1 (.deliver charge), .work 1 .check, .work 1 .claim, .work 1 .publish, .work 1 .commit,
      .work 1 (.deliver staleCharge), .work 1 .check, .work 1 .refuse, .work 1 .commit]

/-- Both publications of the executed call are `OK`, and the other call is refused. -/
theorem run_oneStatus_redelivered : ∃ es x,
    ((charging.machine (.ofTable [])).logged.restrict fun x _ _ es => OneStatus x.2 es).Run
      ({}, []) redeliveringRun es x ∧ SameStatus x.2 ∧
    .published 0 charge (intentResult charge.intent .ok 300 [1]) 300 false ∈ x.2 ∧
    .published 1 charge (intentResult charge.intent .ok 300 [1]) 300 true ∈ x.2 ∧
    .published 1 staleCharge (intentResult staleCharge.intent .expired 300 []
      "intent expired at 200") 300 true ∈ x.2 := by
  have hexec : (Machine.exec (Machine.withHistory (charging.perform (.ofTable [])) Timely) ({}, [])
      redeliveringRun).map (fun r =>
        decide (.published 0 charge (intentResult charge.intent .ok 300 [1]) 300 false ∈ r.2.2 ∧
          .published 1 charge (intentResult charge.intent .ok 300 [1]) 300 true ∈ r.2.2 ∧
          .published 1 staleCharge (intentResult staleCharge.intent .expired 300 []
            "intent expired at 200") 300 true ∈ r.2.2)) = some true := by rfl
  obtain ⟨⟨es, x⟩, hr, hmem⟩ := Option.map_eq_some_iff.mp hexec
  obtain ⟨hone, hsame⟩ := run_oneStatus charging _ (.of_withHistory (fun _ h => h) hr)
  exact ⟨es, x, hone, hsame, of_decide_eq_true hmem⟩

/-- A worker executes and completes the call and dies before it publishes. Another one is handed
the call after it has expired. -/
def unpublishedRun : List EffectorAct :=
  attempt 0 shortCharge ++
    [.work 0 (.finish (.returned [1])), .work 0 .complete, .work 0 .stop, .tick 200,
      .work 1 (.deliver shortCharge), .work 1 .check]

/-- The history of the run. -/
def unpublishedLog : List EffectorEvent :=
  [.delivered 0 shortCharge, .store (.granted "a" 0 100), .invoked 0 shortCharge 0,
    .store (.completed "a" 0 (some (intentResult shortCharge.intent .ok 0 [1])) 1000), .stopped 0,
    .delivered 1 shortCharge]

/-- The refusal that the other worker publishes: the intent was executed, and the terminal record
with its `OK` is live. -/
theorem refused_after_completion :
    let refusal := intentResult shortCharge.intent .expired 200 [] "intent expired at 200"
    ∃ s s',
      (charging.machine (.ofTable [])).logged.Run ({}, []) unpublishedRun unpublishedLog
        (s, unpublishedLog) ∧
      s.records "a" = some (.done (some (intentResult shortCharge.intent .ok 0 [1])) 1000) ∧
      s.now = 200 ∧
      (charging.machine (.ofTable [])).step s (.work 1 .refuse) s'
        [.published 1 shortCharge refusal 200 true] ∧
      ¬ OneStatus unpublishedLog [.published 1 shortCharge refusal 200 true] := by
  intro refusal
  have hexec : (Machine.exec (charging.perform (.ofTable [])) {} unpublishedRun).map (fun r =>
        (r.1, r.2.records "a", r.2.now,
          (charging.perform (.ofTable []) r.2 (.work 1 .refuse)).map (·.2))) =
      some (unpublishedLog, some (.done (some (intentResult shortCharge.intent .ok 0 [1])) 1000),
        200, some [.published 1 shortCharge refusal 200 true]) := by rfl
  obtain ⟨⟨log, s⟩, hr, heq⟩ := Option.map_eq_some_iff.mp hexec
  simp only [Prod.mk.injEq] at heq
  obtain ⟨rfl, hrecord, hnow, hstep⟩ := heq
  obtain ⟨⟨s', os⟩, hperform, rfl⟩ := Option.map_eq_some_iff.mp hstep
  refine ⟨s, s', Machine.Run.logged (.of_exec (fun _ _ => id) hr), hrecord, hnow, hperform,
    fun hone => ?_⟩
  have hinvoked : .invoked 0 shortCharge 0 ∈ unpublishedLog := by decide
  exact ((hone _ _ _ _ _ List.mem_cons_self).2 rfl).1 _ _ _ hinvoked rfl

end EffectorService

end BeamAgents
