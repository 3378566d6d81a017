import BeamAgents.Core.Identity
import BeamAgents.Effector.Handled
import BeamAgents.Effector.Outcomes

/-!
# A key and its effector

The transform on one key, composed with an effector over the messages between them. The intents that
the transform emits are appended to a topic, and an intent's offset is its place there. A message in
flight may be delivered to the effector any number of times; the results that the effector
publishes, and the decisions on the approval requests that it posts, are in flight to the key and
may be delivered there any number of times, as replies to the message for which they were published.
Messages, requests and replies may cease to be in flight at any time, and the two clocks have
nothing to do with each other.

For each id, the system remembers the message for which the terminal record was completed last. The
components do not see this.

## Main definitions

* `Reply`, `System`, `SystemAct`, `SystemEvent`.
* `Deployment` with `perform` and `machine`.

## Main results

* `Deployment.key_simulation`, `Deployment.effector_simulation`: a run of the system is a run of
  each of its components.
-/

namespace BeamAgents

open Transition

/-- A reply on its way to the key, with the offset of the message that it answers. -/
inductive Reply
  | outcome (offset : ℕ) (result : ToolResult)
  | decision (offset : ℕ) (approval : Approval)
  deriving DecidableEq, Repr

namespace Reply

/-- The message that is answered. -/
def offset : Reply → ℕ
  | .outcome offset _ | .decision offset _ => offset

/-- The id that is answered. -/
def intentId : Reply → String
  | .outcome _ result => result.intentId
  | .decision _ approval => approval.intentId

/-- What the envelope carries. -/
def payload : Reply → Payload
  | .outcome _ result => .toolResult result
  | .decision _ approval => .approval approval

end Reply

/-- The state of the components and what is in flight between them. -/
structure System where
  key : KeyState := {}
  effector : EffectorState := {}
  /-- Every intent that was emitted. -/
  topic : List ToolIntent := []
  /-- The offsets of the messages that may be delivered to the effector. -/
  inFlight : List ℕ := []
  /-- The posted approval requests that may be decided. -/
  requests : List Delivered := []
  /-- The replies that may be delivered to the key. -/
  replies : List Reply := []
  /-- The message for which the terminal record of an id was completed last. -/
  origin : String → Option ℕ := fun _ => none

/-- A step of the system. -/
inductive SystemAct
  /-- A call of the transform that does not deliver a reply. -/
  | call (c : KeyCall)
  | reply (reply : Reply) (eventTimeMs : Int) (w : World)
  | effector (a : EffectorAct)
  /-- A request is decided. -/
  | decide (d : Delivered) (approval : Approval)
  | retireMessage (offset : ℕ)
  | retireRequest (d : Delivered)
  | retireReply (reply : Reply)

/-- What can be seen of a step. -/
inductive SystemEvent
  | key (effect : Effect)
  | effector (event : EffectorEvent)
  deriving DecidableEq, Repr

namespace SystemEvent

/-- The effects of the transform. -/
def key? : SystemEvent → Option Effect
  | .key effect => some effect
  | .effector _ => none

/-- The events of the effector. -/
def effector? : SystemEvent → Option EffectorEvent
  | .key _ => none
  | .effector event => some event

end SystemEvent

/-- The results that the effector publishes, as replies. What the sink does not acknowledge may have
got through all the same. -/
def repliesOf (events : List EffectorEvent) : List Reply :=
  events.filterMap fun
    | .published _ d result _ _ => some (.outcome d.handle result)
    | _ => none

/-- The approval requests that the effector posts. -/
def requestsOf (events : List EffectorEvent) : List Delivered :=
  events.filterMap fun
    | .notified _ d _ => some d
    | _ => none

namespace System

variable (s : System)

/-- The state after a call of the transform with these effects. -/
def afterCall (effects : List Effect) : System :=
  { s with
    key := s.key.applyAll effects
    topic := s.topic ++ intentsOf effects
    inFlight := s.inFlight ++ (List.range (intentsOf effects).length).map (s.topic.length + ·) }

/-- Whether a step of the effector hands a worker a message only if it is in flight. -/
def deliverable : EffectorAct → Bool
  | .work _ (.deliver d) => d.handle ∈ s.inFlight && s.topic[d.handle]? = some d.intent
  | _ => true

/-- The messages behind the terminal records after a step of the effector: a completion is for the
delivery that its worker is at. -/
def originAfter (a : EffectorAct) (events : List EffectorEvent) : String → Option ℕ :=
  match a, marksOf events with
  | .work w _, [.completed k _ _ _] =>
    Function.update s.origin k ((s.effector.phases w).delivery.map Delivered.handle)
  | _, _ => s.origin

/-- The state after a step of the effector. -/
def afterEffector (a : EffectorAct) (effector : EffectorState) (events : List EffectorEvent) :
    System :=
  { s with
    effector := effector
    requests := s.requests ++ requestsOf events
    replies := s.replies ++ repliesOf events
    origin := s.originAfter a events }

end System

/-- A transform and an effector, each with its configuration, for one key. -/
structure Deployment where
  agent : AgentDoFn
  key : Bytes
  effector : EffectorService
  py : PyLib

namespace Deployment

variable (D : Deployment)

/-- A call of the transform, unless it raises. -/
def callKey (s : System) (c : KeyCall) : Option (System × List SystemEvent) :=
  let exit := D.agent.call D.py D.key s.key c
  if exit.raised.isSome then none
  else some (s.afterCall exit.effects, exit.effects.map .key)

/-- The call that delivers a reply. -/
def replyCall (reply : Reply) (eventTimeMs : Int) (w : World) : KeyCall :=
  .process ⟨D.key, eventTimeMs, reply.payload⟩ w

/-- One step of the system. -/
def perform (s : System) : SystemAct → Option (System × List SystemEvent)
  | .call c => if c.answers.isSome then none else D.callKey s c
  | .reply reply eventTimeMs w =>
    if reply ∈ s.replies then D.callKey s (D.replyCall reply eventTimeMs w) else none
  | .effector a =>
    if s.deliverable a then
      (D.effector.perform D.py s.effector a).map fun r =>
        (s.afterEffector a r.1 r.2, r.2.map .effector)
    else none
  | .decide d approval =>
    if d ∈ s.requests ∧ approval.intentId = d.intentId then
      some ({ s with replies := s.replies ++ [.decision d.handle approval] }, [])
    else none
  | .retireMessage offset => some ({ s with inFlight := s.inFlight.erase offset }, [])
  | .retireRequest d => some ({ s with requests := s.requests.erase d }, [])
  | .retireReply reply => some ({ s with replies := s.replies.erase reply }, [])

/-- The system as a machine. -/
def machine : Machine System SystemAct SystemEvent where
  step s a s' events := D.perform s a = some (s', events)

/-- The call of the transform that a step makes, if it makes one. -/
def callOf : SystemAct → Option KeyCall
  | .call c => some c
  | .reply reply eventTimeMs w => some (D.replyCall reply eventTimeMs w)
  | _ => none

variable {D} {s s' : System} {a : SystemAct} {os : List SystemEvent}

/-- **What a step of the system can do**: a call of the transform, a step of the effector, or a
change of what is in flight. -/
theorem perform_cases (h : D.perform s a = some (s', os)) :
    (∃ c effects, D.callOf a = some c ∧ D.agent.call D.py D.key s.key c = ⟨effects, none⟩ ∧
        s' = s.afterCall effects ∧ os = effects.map .key) ∨
      (∃ b e es, a = .effector b ∧ s.deliverable b = true ∧
        D.effector.perform D.py s.effector b = some (e, es) ∧ s' = s.afterEffector b e es ∧
        os = es.map .effector) ∨
      (s'.key = s.key ∧ s'.effector = s.effector ∧ s'.topic = s.topic ∧ s'.origin = s.origin ∧
        os = [] ∧ s'.inFlight ⊆ s.inFlight ∧ s'.requests ⊆ s.requests ∧
        ∀ reply ∈ s'.replies, reply ∈ s.replies ∨
          ∃ d ∈ s.requests, reply.intentId = d.intentId ∧ reply.offset = d.handle) := by
  have hcall {c : KeyCall} (h : D.callKey s c = some (s', os)) : ∃ effects,
      D.agent.call D.py D.key s.key c = ⟨effects, none⟩ ∧ s' = s.afterCall effects ∧
      os = effects.map .key := by
    unfold callKey at h
    dsimp only at h
    split_ifs at h with hraised
    cases h
    refine ⟨_, ?_, rfl, rfl⟩
    rw [← Option.not_isSome_iff_eq_none.mp hraised]
  cases a with
  | call c =>
    simp only [perform] at h
    split_ifs at h
    obtain ⟨effects, hstep, hs, hos⟩ := hcall h
    exact .inl ⟨c, effects, rfl, hstep, hs, hos⟩
  | reply reply eventTimeMs w =>
    simp only [perform] at h
    split_ifs at h
    obtain ⟨effects, hstep, hs, hos⟩ := hcall h
    exact .inl ⟨_, effects, rfl, hstep, hs, hos⟩
  | effector b =>
    simp only [perform] at h
    split_ifs at h with hdeliverable
    obtain ⟨⟨e, es⟩, hstep, heq⟩ := Option.map_eq_some_iff.mp h
    cases heq
    exact .inr (.inl ⟨b, e, es, rfl, hdeliverable, hstep, rfl, rfl⟩)
  | decide d approval =>
    simp only [perform] at h
    split_ifs at h with hmem
    cases h
    refine .inr (.inr ⟨rfl, rfl, rfl, rfl, rfl, List.Subset.refl _, List.Subset.refl _, ?_⟩)
    intro reply hreply
    rcases List.mem_append.mp hreply with hreply | hreply
    · exact .inl hreply
    · rw [List.mem_singleton.mp hreply]
      exact .inr ⟨d, hmem.1, hmem.2, rfl⟩
  | retireMessage offset =>
    cases h
    exact .inr (.inr ⟨rfl, rfl, rfl, rfl, rfl, List.erase_subset, List.Subset.refl _,
      fun _ => .inl⟩)
  | retireRequest d =>
    cases h
    exact .inr (.inr ⟨rfl, rfl, rfl, rfl, rfl, List.Subset.refl _, List.erase_subset,
      fun _ => .inl⟩)
  | retireReply reply =>
    cases h
    exact .inr (.inr ⟨rfl, rfl, rfl, rfl, rfl, List.Subset.refl _, List.Subset.refl _,
      fun _ hreply => .inl (List.erase_subset hreply)⟩)

/-- Only a reply in flight is delivered. -/
theorem reply_mem {reply : Reply} {eventTimeMs : Int} {w : World}
    (h : D.perform s (.reply reply eventTimeMs w) = some (s', os)) : reply ∈ s.replies := by
  simp only [perform] at h
  split_ifs at h with hmem
  exact hmem

/-- A run of the system is a run of the transform on its key. -/
theorem key_simulation (D : Deployment) :
    Machine.Simulation D.machine (D.agent.machine D.py D.key) (fun s k => s.key = k)
      SystemEvent.key? where
  step := by
    rintro s _ a s' os rfl h
    rcases perform_cases h with ⟨c, effects, -, hcall, rfl, rfl⟩ |
      ⟨b, e, es, -, -, -, rfl, rfl⟩ | ⟨hkey, -, -, -, rfl, -⟩
    · have heffects : (effects.map SystemEvent.key).filterMap SystemEvent.key? = effects := by
        simp [List.filterMap_map, Function.comp_def, SystemEvent.key?]
      rw [heffects]
      exact ⟨[c], _, .single ⟨hcall, rfl⟩, rfl⟩
    · have hnone : (es.map SystemEvent.effector).filterMap SystemEvent.key? = [] := by
        simp [List.filterMap_map, Function.comp_def, SystemEvent.key?]
      rw [hnone]
      exact ⟨[], _, .refl, rfl⟩
    · exact ⟨[], _, .refl, hkey⟩

/-- A run of the system is a run of the effector. -/
theorem effector_simulation (D : Deployment) :
    Machine.Simulation D.machine (D.effector.machine D.py) (fun s e => s.effector = e)
      SystemEvent.effector? where
  step := by
    rintro s _ a s' os rfl h
    rcases perform_cases h with ⟨c, effects, -, -, rfl, rfl⟩ |
      ⟨b, e, es, -, -, hstep, rfl, rfl⟩ | ⟨-, heffector, -, -, rfl, -⟩
    · have hnone : (effects.map SystemEvent.key).filterMap SystemEvent.effector? = [] := by
        simp [List.filterMap_map, Function.comp_def, SystemEvent.effector?]
      rw [hnone]
      exact ⟨[], _, .refl, rfl⟩
    · have hevents : (es.map SystemEvent.effector).filterMap SystemEvent.effector? = es := by
        simp [List.filterMap_map, Function.comp_def, SystemEvent.effector?]
      rw [hevents]
      exact ⟨[b], _, .single hstep, rfl⟩
    · exact ⟨[], _, .refl, heffector⟩

end Deployment

end BeamAgents
