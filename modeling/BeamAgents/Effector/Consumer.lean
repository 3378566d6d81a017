import BeamAgents.Effector.Processing
import BeamAgents.Protos.Intents

/-!
# The consumption of a partition

`KafkaIntentSource` and `EffectorService.run` over one partition of the intents topic. The
dispatcher takes a message, decodes it, and puts it on the queue of the partition's worker; the
worker commits offsets; after a failure the service is started again from the committed offset. A
message that is no `ToolIntent` makes the iterator of the source raise, and nothing commits it: the
service comes back to it forever, and never gets to the messages behind it.

## Main definitions

* `parseIntent`, `IntentsPartition`, `Consumer`, `IntentsPartition.machine`.
* `IntentsPartition.Unwedged`: no message is raised at twice, and all messages can be committed,
  from wherever the service is.
* `EffectorService.Digests`: a payload that the service comes to an end with.

## Main results

* `IntentsPartition.unwedged_of_digests`.
* `IntentsPartition.not_unwedged_of_malformed`: a payload that does not decode wedges its partition.
-/

namespace BeamAgents

open Transition Lease

/-! ### Decoding -/

/-- The intent of a message, with the fields that the effector reads. -/
def ToolIntentMessage.intent (m : ToolIntentMessage) : ToolIntent where
  intentId := m.intentId
  entityKey := m.entityKey
  seq := m.seq.toInt.toNat
  stepIndex := m.stepIndex.toNat
  toolName := m.toolName
  argsJson := m.argsJson
  createdAtMs := m.createdAtMs.toInt
  expiresAtMs := m.expiresAtMs.toInt
  attempt := m.attempt.toNat
  kind := if m.kind = 1 then .tool else if m.kind = 2 then .approval else .unspecified
  traceId := m.traceId

/-- `_parse_intent`; `none` where it raises. -/
def parseIntent (payload : Bytes) : Option ToolIntent :=
  (ToolIntentMessage.codec.parse payload).map (·.intent)

/-! ### The consumer -/

/-- A partition of the intents topic, with its messages, and the service that consumes it. -/
structure IntentsPartition where
  svc : EffectorService
  py : PyLib
  name : String
  log : List Bytes

/-- The service over its partition. -/
structure Consumer where
  effector : EffectorState := {}
  /-- The committed offset of the consumer group. -/
  committed : ℕ := 0
  /-- The offset of the next message that the consumer takes. -/
  position : ℕ := 0
  /-- The deliveries that the worker has not taken: the one on the queue, and the one that the
  dispatcher waits to put there. -/
  pending : List Delivered := []
  /-- The number of starts, which is the name of the worker. -/
  generation : ℕ := 0
  running : Bool := false

/-- A step of the service, of its host, or of the clock. -/
inductive ConsumerAct
  /-- A (re)start. -/
  | start
  /-- The dispatcher takes the next message. -/
  | fetch
  /-- The worker takes a delivery. -/
  | deliver
  | work (a : Work)
  /-- A shutdown or a crash. -/
  | crash
  /-- `aclose`. -/
  | release
  | tick (ms : ℕ)
  deriving DecidableEq, Repr

/-- What can be seen of a step. -/
inductive ConsumerEvent
  | effector (e : EffectorEvent)
  /-- Consumption raised at the message with this offset. -/
  | raised (offset : ℕ)
  deriving DecidableEq, Repr

/-- The events of the effector. -/
def effectorEvents (events : List ConsumerEvent) : List EffectorEvent :=
  events.filterMap fun
    | .effector e => some e
    | .raised _ => none

@[simp] theorem effectorEvents_append (es fs : List ConsumerEvent) :
    effectorEvents (es ++ fs) = effectorEvents es ++ effectorEvents fs := List.filterMap_append

@[simp] theorem effectorEvents_raised (offset : ℕ) (es : List ConsumerEvent) :
    effectorEvents (.raised offset :: es) = effectorEvents es := rfl

@[simp] theorem effectorEvents_effector (es : List EffectorEvent) :
    effectorEvents (es.map .effector) = es := by
  induction es with
  | nil => rfl
  | cons e es ih => exact congrArg (e :: ·) ih

/-- The committed offset after the commits of some events. -/
def committedAfter (committed : ℕ) (events : List EffectorEvent) : ℕ :=
  (commitsOf events).foldl (fun _ d => d.committedOffset) committed

@[simp] theorem committedAfter_append (committed : ℕ) (es fs : List EffectorEvent) :
    committedAfter committed (es ++ fs) = committedAfter (committedAfter committed es) fs := by
  simp only [committedAfter, commitsOf_append, List.foldl_append]

namespace Consumer

variable (c : Consumer)

/-- `_abort`: the worker is cancelled, and what it has not taken is dropped. -/
def abort : Consumer × List ConsumerEvent :=
  ({ c with effector := c.effector.moveTo c.generation .stopped, pending := [], running := false },
    [.effector (.stopped c.generation)])

/-- The consumer after a step of its worker. -/
def advance (effector : EffectorState) (events : List EffectorEvent) : Consumer :=
  { c with effector := effector, committed := committedAfter c.committed events }

/-- The worker fails with an exception of `_execute_intent`, before the tool is invoked or after. -/
def raises (a : Work) (events : List EffectorEvent) : List ConsumerEvent :=
  match c.effector.phases c.generation, a with
  | .claimed d _, .begin | .running d _ _, .finish _ =>
    if .stopped c.generation ∈ events then [.raised d.handle] else []
  | _, _ => []

end Consumer

namespace IntentsPartition

variable (P : IntentsPartition)

/-- One step of the consumption. -/
def perform (c : Consumer) : ConsumerAct → Option (Consumer × List ConsumerEvent)
  | .start =>
    if c.running then none
    else some ({ c with running := true, generation := c.generation + 1, position := c.committed,
                        pending := [] }, [])
  | .fetch =>
    if c.running ∧ c.effector.turn = none ∧ c.pending.length < 2 then
      P.log[c.position]?.map fun payload =>
        match parseIntent payload with
        | none => (c.abort.1, .raised c.position :: c.abort.2)
        | some intent =>
          ({ c with position := c.position + 1, pending := c.pending ++
              [{ intent := intent, partition := P.name, handle := c.position }] }, [])
    else none
  | .deliver =>
    match c.running, c.pending with
    | true, d :: pending =>
      (P.svc.perform P.py c.effector (.work c.generation (.deliver d))).map fun (s, es) =>
        ({ c with effector := s, pending := pending }, es.map .effector)
    | _, _ => none
  | .work a =>
    if c.running ∧ a.delivers = false then
      (P.svc.perform P.py c.effector (.work c.generation a)).map fun (s, es) =>
        (c.advance s es, c.raises a es ++ es.map .effector)
    else none
  | .crash => if c.running then some c.abort else none
  | .release =>
    if c.running then none
    else (P.svc.perform P.py c.effector (.release c.generation)).map fun (s, es) =>
      ({ c with effector := s }, es.map .effector)
  | .tick ms => some ({ c with effector := { c.effector with now := c.effector.now + ms } }, [])

/-- The consumption as a machine. -/
def machine : Machine Consumer ConsumerAct ConsumerEvent where
  step c act c' es := P.perform c act = some (c', es)

/-- The delivery of a message of the partition. -/
def Holds (d : Delivered) : Prop :=
  ∃ payload, P.log[d.handle]? = some payload ∧ parseIntent payload = some d.intent

end IntentsPartition

/-- The service comes to an end with a payload. It is an intent; if the verification refuses it,
there is a dead-letter sink, and if not, it has no expiry, it is routed to the approval channel, or
its execution reports a result. -/
def EffectorService.Digests (svc : EffectorService) (payload : Bytes) : Prop :=
  ∃ intent, parseIntent payload = some intent ∧
    match svc.verified { intent := intent, partition := "", handle := 0 } with
    | some _ => svc.deadLetterSink = true
    | none => intent.expiresAtMs ≤ 0 ∨ intent.kind = .approval ∨ svc.runner.Reports intent

/-! ### Steps -/

namespace EffectorService

variable {svc : EffectorService} {py : PyLib} {s s' : EffectorState} {w : ℕ} {a : Work}
  {es events : List EffectorEvent} {phase : Phase} {claim : Option ActiveClaim}

/-- A step of a worker is one of its moves. -/
theorem perform_work (h : svc.perform py s (.work w a) = some (s', es)) :
    ∃ phase claim, Moves svc py s w a phase claim es ∧ s' = s.after w phase claim es := by
  rcases perform_cases h with ⟨ms, hact, -⟩ | ⟨w', a', phase, claim, hact, -, hmoves, hstate⟩ |
    ⟨w', hact, -⟩ | ⟨w', claim, ms, hact, -⟩ <;> cases hact
  exact ⟨phase, claim, hmoves, hstate⟩

/-- A worker may end in every phase. -/
theorem work_stop (svc : EffectorService) (py : PyLib) (s : EffectorState) (w : ℕ) :
    svc.work py s w .stop = some (s.moveTo w .stopped, [.stopped w]) := by
  unfold work
  split <;> simp_all

theorem work_begin {d : Delivered} {token : ℕ} (hphase : s.phases w = .claimed d token) :
    svc.work py s w .begin = some (svc.beginStep py s w d token) := by
  simp only [work, hphase]

/-- A worker whose execution does not raise goes on from its claim. -/
theorem beginStep_quiet {d : Delivered} {token w' : ℕ} (hexecutes : svc.Executes py d.intent) :
    .stopped w' ∉ (svc.beginStep py s w d token).2 := by
  unfold beginStep
  dsimp only
  split_ifs with hkind
  · exact List.not_mem_nil
  · split
    · simp
    · exact List.not_mem_nil
    · exact absurd ‹_› (hexecutes hkind s.now).1

/-- A worker whose tool ran goes on with a result. -/
theorem finish_quiet {d : Delivered} {token w' : ℕ} {nowMs : Int} {toolEnd : ToolEnd}
    (hphase : s.phases w = .running d token nowMs)
    (hends : svc.runner.mayEnd d.intent .escapes = false)
    (h : svc.work py s w (.finish toolEnd) = some (s', es)) : .stopped w' ∉ es := by
  unfold work at h
  simp only [hphase] at h
  split_ifs at h with hend
  cases hresult : svc.runner.invocationResult py d.intent nowMs toolEnd with
  | some result =>
    rw [finishStep, hresult] at h
    cases h
    exact List.not_mem_nil
  | none =>
    rw [EffectorToolRunner.invocationResult_eq_none.mp hresult, hends] at hend
    cases hend

/-- Handing back a claim leaves the workers where they are. -/
theorem perform_release (h : svc.perform py s (.release w) = some (s', es)) :
    s'.phases = s.phases ∧ s'.turn = none := by
  rcases perform_cases h with ⟨ms, hact, -⟩ | ⟨w', a', phase, claim, hact, -⟩ |
    ⟨w', hact, hturn, hstate, -⟩ | ⟨w', claim, ms, hact, hturn, -, -, -, hstate, -⟩ <;> cases hact
  · exact ⟨hstate ▸ rfl, hstate ▸ hturn⟩
  · exact ⟨hstate ▸ rfl, hstate ▸ hturn⟩

/-- What a commit covers is the delivery that the worker was at. -/
theorem Moves.mem_commitsOf (h : Moves svc py s w a phase claim es) {d : Delivered}
    (hmem : d ∈ commitsOf es) : (s.phases w).delivery = some d := by
  obtain ⟨w', hmem⟩ := BeamAgents.mem_commitsOf.mp hmem
  cases h with
  | committed hphase =>
    cases List.mem_singleton.mp hmem
    rw [hphase, Phase.delivery]
  | _ => simp at hmem

/-- A worker that has not come to a delivery by a step was at it. -/
theorem Moves.delivery (h : Moves svc py s w a phase claim es) {d : Delivered}
    (hphase : phase.delivery = some d) : (s.phases w).delivery = some d ∨ a = .deliver d := by
  rcases h.progress.current hphase with hcurrent | hmem
  · exact .inl hcurrent
  · cases h with
    | delivered =>
      cases List.mem_singleton.mp hmem
      exact .inr rfl
    | _ => simp at hmem

/-- What the phase of a worker says about the admission of its intent: an intent past its check has
an expiry, and a tool that runs was invoked. -/
def Admitted (svc : EffectorService) (py : PyLib) : Phase → Prop
  | .claiming d | .waiting d | .claimed d _ => 0 < d.intent.expiresAtMs
  | .running d _ now => 0 < d.intent.expiresAtMs ∧ d.intent.kind ≠ .approval ∧
      svc.runner.admission py d.intent now = .invoke
  | _ => True

/-- An intent that has not expired has an expiry. -/
theorem expiresAtMs_pos {intent : ToolIntent} {now : Int} (h : refuseExpired intent now = none) :
    0 < intent.expiresAtMs := by
  rw [refuseExpired_eq_none_iff, intentExpired, Bool.or_eq_false_iff] at h
  simpa using h.1

theorem Moves.admitted (h : Moves svc py s w a phase claim es)
    (hs : svc.Admitted py (s.phases w)) : svc.Admitted py phase := by
  have hbefore {p : Phase} (hp : s.phases w = p) : svc.Admitted py p := hp ▸ hs
  cases h with
  | delivered =>
    unfold received
    split
    · split_ifs <;> trivial
    · trivial
  | @deadLettered _ _ acked | @refused _ _ acked | @published _ _ acked | @notified _ _ acked =>
    cases acked <;> trivial
  | current _ hlive => exact expiresAtMs_pos hlive
  | granted h | inFlight h =>
    rcases h with h | h
    · exact (hbefore h : svc.Admitted py (.claiming _))
    · exact (hbefore h : svc.Admitted py (.waiting _))
  | @deduped _ result => cases result <;> trivial
  | invoked h hkind hadmission =>
    exact ⟨(hbefore h : svc.Admitted py (.claimed _ _)), hkind, hadmission⟩
  | _ => trivial

end EffectorService

namespace IntentsPartition

variable {P : IntentsPartition} {c c' : Consumer} {act : ConsumerAct} {es : List ConsumerEvent}

/-- **What a step of the consumption can do.** -/
inductive Consumes (P : IntentsPartition) (c : Consumer) :
    ConsumerAct → Consumer → List ConsumerEvent → Prop
  | started (hstopped : c.running = false) :
      Consumes P c .start { c with running := true, generation := c.generation + 1,
                                   position := c.committed, pending := [] } []
  | malformed {payload} (hrunning : c.running = true) (hturn : c.effector.turn = none)
      (hat : P.log[c.position]? = some payload) (hparse : parseIntent payload = none) :
      Consumes P c .fetch c.abort.1 (.raised c.position :: c.abort.2)
  | fetched {payload intent} (hrunning : c.running = true) (hturn : c.effector.turn = none)
      (hat : P.log[c.position]? = some payload) (hparse : parseIntent payload = some intent) :
      Consumes P c .fetch
        { c with position := c.position + 1, pending := c.pending ++
            [{ intent := intent, partition := P.name, handle := c.position }] } []
  | delivered {d pending s fs} (hrunning : c.running = true) (hpending : c.pending = d :: pending)
      (h : P.svc.perform P.py c.effector (.work c.generation (.deliver d)) = some (s, fs)) :
      Consumes P c .deliver { c with effector := s, pending := pending } (fs.map .effector)
  | worked {a s fs} (hrunning : c.running = true) (ha : a.delivers = false)
      (h : P.svc.perform P.py c.effector (.work c.generation a) = some (s, fs)) :
      Consumes P c (.work a) (c.advance s fs) (c.raises a fs ++ fs.map .effector)
  | crashed (hrunning : c.running = true) : Consumes P c .crash c.abort.1 c.abort.2
  | released {s fs} (hstopped : c.running = false)
      (h : P.svc.perform P.py c.effector (.release c.generation) = some (s, fs)) :
      Consumes P c .release { c with effector := s } (fs.map .effector)
  | ticked {ms : ℕ} :
      Consumes P c (.tick ms)
        { c with effector := { c.effector with now := c.effector.now + ms } } []

theorem perform_consumes (h : P.perform c act = some (c', es)) : P.Consumes c act c' es := by
  cases act with
  | start =>
    simp only [perform] at h
    split_ifs at h with hrunning
    cases h
    exact .started (Bool.not_eq_true _ ▸ hrunning)
  | fetch =>
    simp only [perform] at h
    split_ifs at h with hready
    obtain ⟨payload, hat, heq⟩ := Option.map_eq_some_iff.mp h
    split at heq
    · rename_i hparse
      cases heq
      exact .malformed hready.1 hready.2.1 hat hparse
    · rename_i intent hparse
      cases heq
      exact .fetched hready.1 hready.2.1 hat hparse
  | deliver =>
    simp only [perform] at h
    split at h
    · rename_i d pending hrunning hpending
      obtain ⟨⟨s, fs⟩, hperform, heq⟩ := Option.map_eq_some_iff.mp h
      cases heq
      exact .delivered hrunning hpending hperform
    · cases h
  | work a =>
    simp only [perform] at h
    split_ifs at h with hready
    obtain ⟨⟨s, fs⟩, hperform, heq⟩ := Option.map_eq_some_iff.mp h
    cases heq
    exact .worked hready.1 hready.2 hperform
  | crash =>
    simp only [perform] at h
    split_ifs at h with hrunning
    cases h
    exact .crashed hrunning
  | release =>
    simp only [perform] at h
    split_ifs at h with hrunning
    obtain ⟨⟨s, fs⟩, hperform, heq⟩ := Option.map_eq_some_iff.mp h
    cases heq
    exact .released (Bool.not_eq_true _ ▸ hrunning) hperform
  | tick ms =>
    cases h
    exact .ticked

@[simp] theorem effectorEvents_raises (c : Consumer) (a : Work) (fs : List EffectorEvent) :
    effectorEvents (c.raises a fs) = [] := by
  unfold Consumer.raises
  split
  · split_ifs <;> rfl
  · split_ifs <;> rfl
  · rfl

/-! ### Invariants -/

/-- What holds of the consumer in every state: its worker is the last one, and has only messages of
the partition. -/
structure Sound (P : IntentsPartition) (c : Consumer) : Prop where
  fresh : ∀ w, c.generation < w → c.effector.phases w = .idle
  turn : c.effector.turn = none ∨ c.effector.turn = some c.generation
  parked : c.running = false → c.effector.turn = none
  pending : ∀ d ∈ c.pending, P.Holds d
  current : ∀ d, (c.effector.phases c.generation).delivery = some d → P.Holds d
  verified : P.svc.Verified (c.effector.phases c.generation)
  admitted : P.svc.Admitted P.py (c.effector.phases c.generation)
  committed : c.committed ≤ P.log.length

theorem Sound.start (P : IntentsPartition) : P.Sound {} :=
  ⟨fun _ _ => rfl, .inl rfl, fun _ => rfl, by simp, fun _ h => (by cases h), trivial, trivial,
    Nat.zero_le _⟩

theorem Holds.lt {d : Delivered} (h : P.Holds d) : d.handle < P.log.length := by
  obtain ⟨payload, hat, -⟩ := h
  exact (List.getElem?_eq_some_iff.mp hat).1

/-- A commit covers messages of the partition. -/
theorem committedAfter_le {n : ℕ} {events : List EffectorEvent} (hn : c.committed ≤ n)
    (hcommits : ∀ d ∈ commitsOf events, d.handle < n) : committedAfter c.committed events ≤ n := by
  unfold committedAfter
  rcases List.eq_nil_or_concat (commitsOf events) with hnil | ⟨ds, d, hds⟩
  · rw [hnil]
    exact hn
  · rw [List.concat_eq_append] at hds
    rw [hds, List.foldl_append]
    exact hcommits d (by simp [hds])

/-- An abort stops the worker. -/
theorem Sound.abort (h : P.Sound c) : P.Sound c.abort.1 := by
  refine ⟨fun w hw => ?_, .inl rfl, fun _ => rfl, by simp [Consumer.abort], fun d hd => ?_, ?_, ?_,
    h.committed⟩
  · exact (Function.update_of_ne (Nat.ne_of_gt hw) ..).trans (h.fresh w hw)
  · simp [Consumer.abort, Phase.delivery] at hd
  · simp [Consumer.abort, EffectorService.Verified]
  · simp [Consumer.abort, EffectorService.Admitted]

/-- A step of the worker, seen on the consumer. -/
theorem Sound.work (h : P.Sound c) (hrunning : c.running = true) {a : Work} {phase : Phase}
    {claim : Option ActiveClaim} {fs : List EffectorEvent}
    (hmoves : EffectorService.Moves P.svc P.py c.effector c.generation a phase claim fs)
    (ha : ∀ d, a = .deliver d → P.Holds d) {pending : List Delivered}
    (hpending : ∀ d ∈ pending, P.Holds d) {committed : ℕ} (hcommitted : committed ≤ P.log.length) :
    P.Sound { c with effector := c.effector.after c.generation phase claim fs,
                     pending := pending, committed := committed } := by
  refine ⟨fun w hw => ?_, EffectorService.turn_after .., fun hstopped => ?_, hpending,
    fun d hd => ?_, ?_, ?_, hcommitted⟩
  · exact (EffectorState.after_phases_of_ne (Nat.ne_of_gt hw)).trans (h.fresh w hw)
  · rw [hrunning] at hstopped
    cases hstopped
  · rw [EffectorState.after_phases_self] at hd
    rcases hmoves.delivery hd with hcurrent | hdelivered
    · exact h.current d hcurrent
    · exact ha d hdelivered
  · rw [EffectorState.after_phases_self]
    exact hmoves.verified h.verified
  · rw [EffectorState.after_phases_self]
    exact hmoves.admitted h.admitted

theorem Sound.step (h : P.Sound c) (hstep : P.Consumes c act c' es) : P.Sound c' := by
  cases hstep with
  | started hstopped =>
    have hidle : c.effector.phases (c.generation + 1) = .idle := h.fresh _ (Nat.lt_succ_self _)
    refine ⟨fun w hw => h.fresh w (Nat.lt_of_succ_lt hw), .inl (h.parked hstopped), nofun,
      by simp, fun d hd => ?_, ?_, ?_, h.committed⟩
    · simp [hidle, Phase.delivery] at hd
    · simp [hidle, EffectorService.Verified]
    · simp [hidle, EffectorService.Admitted]
  | malformed | crashed => exact h.abort
  | @fetched payload intent hrunning hturn hat hparse =>
    refine { h with pending := fun d hd => ?_ }
    rcases List.mem_append.mp hd with hd | hd
    · exact h.pending d hd
    · cases List.mem_singleton.mp hd
      exact ⟨payload, hat, hparse⟩
  | @delivered d pending s fs hrunning hpending hperform =>
    obtain ⟨phase, claim, hmoves, rfl⟩ := EffectorService.perform_work hperform
    refine h.work hrunning hmoves (fun d' hd' => ?_) (fun d' hd' => ?_) h.committed
    · cases hd'
      exact h.pending d (by simp [hpending])
    · exact h.pending d' (by simp [hpending, hd'])
  | @worked a s fs hrunning ha hperform =>
    obtain ⟨phase, claim, hmoves, rfl⟩ := EffectorService.perform_work hperform
    refine h.work hrunning hmoves (fun d hd => ?_) h.pending ?_
    · cases hd
      cases ha
    · exact committedAfter_le h.committed fun d hd => (h.current d (hmoves.mem_commitsOf hd)).lt
  | @released s fs hstopped hperform =>
    obtain ⟨hphases, hturn⟩ := EffectorService.perform_release hperform
    refine ⟨fun w hw => ?_, .inl hturn, fun _ => hturn, h.pending, fun d hd => ?_, ?_, ?_,
      h.committed⟩
    · exact hphases ▸ h.fresh w hw
    · exact h.current d (hphases ▸ hd)
    · exact hphases ▸ h.verified
    · exact hphases ▸ h.admitted
  | ticked =>
    exact ⟨h.fresh, h.turn, h.parked, h.pending, h.current, h.verified, h.admitted, h.committed⟩

theorem run_sound {acts : List ConsumerAct} (h : P.machine.Run {} acts es c) : P.Sound c :=
  h.stateInvariant (.start P) fun hsound hstep => hsound.step (perform_consumes hstep)

/-- The effector takes part in every step. -/
theorem Sound.effector (h : P.Sound c) (hstep : P.Consumes c act c' es) :
    ∃ acts, (P.svc.machine P.py).Run c.effector acts (effectorEvents es) c'.effector := by
  have habort : (P.svc.machine P.py).Run c.effector [.work c.generation .stop]
      (effectorEvents c.abort.2) c.abort.1.effector := by
    refine .single ?_
    show P.svc.perform P.py c.effector (.work c.generation .stop) = some _
    rw [EffectorService.perform, if_pos h.turn]
    exact EffectorService.work_stop ..
  cases hstep with
  | started | fetched => exact ⟨[], .refl⟩
  | malformed | crashed => exact ⟨_, habort⟩
  | @delivered d pending s fs hrunning hpending hperform =>
    rw [effectorEvents_effector]
    exact ⟨_, .single hperform⟩
  | @worked a s fs hrunning ha hperform =>
    rw [effectorEvents_append, effectorEvents_raises, effectorEvents_effector]
    exact ⟨_, .single hperform⟩
  | @released s fs hstopped hperform =>
    rw [effectorEvents_effector]
    exact ⟨_, .single hperform⟩
  | @ticked ms => exact ⟨[.tick ms], .single rfl⟩

/-- The service commits messages of the partition. -/
theorem Sound.commits (h : P.Sound c) (hstep : P.Consumes c act c' es) {w : ℕ} {d : Delivered}
    (hmem : .committed w d ∈ effectorEvents es) : P.Holds d := by
  have hworker {a : Work} {s : EffectorState} {fs : List EffectorEvent}
      (hperform : P.svc.perform P.py c.effector (.work c.generation a) = some (s, fs))
      (hmem : .committed w d ∈ fs) : P.Holds d := by
    obtain ⟨hact, hphase⟩ := EffectorService.perform_committed hperform hmem
    cases hact
    exact h.current d (by rw [hphase, Phase.delivery])
  cases hstep with
  | started | fetched | ticked => cases hmem
  | malformed | crashed => cases List.mem_singleton.mp hmem
  | @delivered d' pending s fs hrunning hpending hperform =>
    rw [effectorEvents_effector] at hmem
    exact hworker hperform hmem
  | @worked a s fs hrunning ha hperform =>
    rw [effectorEvents_append, effectorEvents_raises, effectorEvents_effector] at hmem
    exact hworker hperform hmem
  | @released s fs hstopped hperform =>
    rw [effectorEvents_effector] at hmem
    cases (EffectorService.perform_committed hperform hmem).1

/-- A delivery of a digested payload is kept if it is refused. -/
theorem Holds.retains {d : Delivered} (hd : P.Holds d)
    (hdigests : ∀ payload ∈ P.log, P.svc.Digests payload) : P.svc.Retains d := by
  obtain ⟨payload, hat, hparse⟩ := hd
  obtain ⟨intent, hparse', hdigest⟩ := hdigests payload (List.mem_of_getElem? hat)
  cases hparse.symm.trans hparse'
  cases hverified : P.svc.verified d with
  | none => exact .inl hverified
  | some reason =>
    rw [show P.svc.verified ⟨d.intent, "", 0⟩ = some reason from hverified] at hdigest
    exact .inr hdigest

/-- The execution of a digested payload does not raise, once it is verified and has an expiry. -/
theorem Holds.executes {d : Delivered} (hd : P.Holds d)
    (hdigests : ∀ payload ∈ P.log, P.svc.Digests payload) (hverified : P.svc.verified d = none)
    (hexpires : 0 < d.intent.expiresAtMs) : P.svc.Executes P.py d.intent := by
  obtain ⟨payload, hat, hparse⟩ := hd
  obtain ⟨intent, hparse', hdigest⟩ := hdigests payload (List.mem_of_getElem? hat)
  cases hparse.symm.trans hparse'
  rw [show P.svc.verified ⟨d.intent, "", 0⟩ = none from hverified] at hdigest
  intro hkind now
  rcases hdigest with hnever | happroval | hreports
  · exact absurd hexpires (Int.not_lt.mpr hnever)
  · exact absurd happroval hkind
  · exact hreports.quiet

/-- A step over payloads that the service comes to an end with does not raise. -/
theorem Sound.quiet (h : P.Sound c) (hdigests : ∀ payload ∈ P.log, P.svc.Digests payload)
    (hstep : P.Consumes c act c' es) (k : ℕ) : .raised k ∉ es := by
  have hmap (fs : List EffectorEvent) : ConsumerEvent.raised k ∉ fs.map .effector := by simp
  cases hstep with
  | malformed hrunning hturn hat hparse =>
    obtain ⟨intent, hparse', -⟩ := hdigests _ (List.mem_of_getElem? hat)
    cases hparse.symm.trans hparse'
  | @worked a s fs hrunning ha hperform =>
    refine fun hmem => (List.mem_append.mp hmem).elim (fun hraises => ?_) (hmap fs)
    have hverified := h.verified
    have hadmitted := h.admitted
    rw [EffectorService.perform, if_pos h.turn] at hperform
    unfold Consumer.raises at hraises
    split at hraises
    · rename_i d token hphase
      rw [hphase] at hverified hadmitted
      have hexecutes : P.svc.Executes P.py d.intent :=
        (h.current d (by rw [hphase, Phase.delivery])).executes hdigests hverified hadmitted
      have hquiet : .stopped c.generation ∉
          (P.svc.beginStep P.py c.effector c.generation d token).2 :=
        EffectorService.beginStep_quiet hexecutes
      rw [EffectorService.work_begin hphase] at hperform
      have hfs : (P.svc.beginStep P.py c.effector c.generation d token).2 = fs :=
        congrArg Prod.snd (Option.some.inj hperform)
      rw [if_neg (hfs ▸ hquiet)] at hraises
      cases hraises
    · rename_i d token nowMs toolEnd hphase
      rw [hphase] at hverified hadmitted
      obtain ⟨hexpires, hkind, hinvoke⟩ := hadmitted
      have hexecutes : P.svc.Executes P.py d.intent :=
        (h.current d (by rw [hphase, Phase.delivery])).executes hdigests hverified hexpires
      have hquiet : .stopped c.generation ∉ fs :=
        EffectorService.finish_quiet hphase ((hexecutes hkind nowMs).2 hinvoke) hperform
      rw [if_neg hquiet] at hraises
      cases hraises
    · cases hraises
  | crashed => simp [Consumer.abort]
  | delivered | released => exact hmap _
  | started | fetched | ticked => exact List.not_mem_nil

/-! ### Going on -/

/-- The service has just come to the committed offset. -/
structure Ready (c : Consumer) : Prop where
  running : c.running = true
  pending : c.pending = []
  position : c.position = c.committed
  idle : c.effector.phases c.generation = .idle
  turn : c.effector.turn = none

/-- What the worker of a running service can do, the consumption can. -/
theorem run_worker (hrunning : c.running = true) {acts : List EffectorAct} {fs : List EffectorEvent}
    {s : EffectorState} (h : (P.svc.worker P.py c.generation).Run c.effector acts fs s) :
    ∃ acts es, P.machine.Run c acts es (c.advance s fs) ∧ effectorEvents es = fs := by
  induction h with
  | refl => exact ⟨[], [], .refl, rfl⟩
  | @tail _ fs t a u gs _ hstep ih =>
    obtain ⟨acts, es, hrun, heq⟩ := ih
    obtain ⟨hact, hperform⟩ := hstep
    rcases hact with ⟨ms, rfl⟩ | ⟨a, rfl, ha⟩
    · cases hperform
      have hnext : P.machine.step (c.advance t fs) (.tick ms)
          (c.advance { t with now := t.now + ms } (fs ++ [])) [] := by
        rw [List.append_nil]
        rfl
      exact ⟨_, _, hrun.tail hnext, by rw [effectorEvents_append, heq]; rfl⟩
    · have hnext : P.machine.step (c.advance t fs) (.work a) (c.advance u (fs ++ gs))
          ((c.advance t fs).raises a gs ++ gs.map .effector) := by
        simp only [machine, perform]
        rw [if_pos ⟨hrunning, ha⟩]
        simp only [Consumer.advance, hperform, Option.map_some, committedAfter_append]
      refine ⟨_, _, hrun.tail hnext, ?_⟩
      rw [effectorEvents_append, effectorEvents_append, effectorEvents_raises, heq,
        effectorEvents_effector, List.nil_append]

theorem perform_deliver {d : Delivered} {pending : List Delivered} {s : EffectorState}
    {fs : List EffectorEvent} (hrunning : c.running = true) (hpending : c.pending = d :: pending)
    (h : P.svc.perform P.py c.effector (.work c.generation (.deliver d)) = some (s, fs)) :
    P.perform c .deliver =
      some ({ c with effector := s, pending := pending }, fs.map .effector) := by
  simp only [perform, hrunning, hpending, h, Option.map_some]

/-- A service at the committed offset can commit the message there. -/
theorem Ready.next (hready : Ready c) (hdigests : ∀ payload ∈ P.log, P.svc.Digests payload)
    (hlt : c.committed < P.log.length) : ∃ acts es c', P.machine.Run c acts es c' ∧ Ready c' ∧
      (commitsOf (effectorEvents es)).map (·.handle) = [c.committed] ∧
      c'.committed = c.committed + 1 := by
  obtain ⟨payload, hat⟩ : ∃ payload, P.log[c.committed]? = some payload :=
    ⟨_, List.getElem?_eq_getElem hlt⟩
  obtain ⟨intent, hparse, -⟩ := hdigests payload (List.mem_of_getElem? hat)
  let d : Delivered := { intent := intent, partition := P.name, handle := c.committed }
  have hholds : P.Holds d := ⟨payload, hat, hparse⟩
  -- The dispatcher takes the message, and the worker takes it from the queue.
  let c₁ : Consumer := { c with position := c.committed + 1, pending := [d] }
  have hfetch : P.perform c .fetch = some (c₁, []) := by
    have hroom : c.running = true ∧ c.effector.turn = none ∧ c.pending.length < 2 :=
      ⟨hready.running, hready.turn, by simp [hready.pending]⟩
    rw [perform, if_pos hroom]
    simp only [hready.position, hat, Option.map_some, hparse, hready.pending, List.nil_append, c₁,
      d]
  let c₂ : Consumer := { c₁ with
    effector := c.effector.moveTo c.generation (P.svc.received d), pending := [] }
  have hdeliver : P.perform c₁ .deliver = some (c₂, [.effector (.delivered c.generation d)]) := by
    have htaken : P.svc.perform P.py c.effector (.work c.generation (.deliver d)) = some
        (c.effector.moveTo c.generation (P.svc.received d), [.delivered c.generation d]) := by
      simp only [EffectorService.perform, hready.turn, true_or, if_true, EffectorService.work,
        hready.idle]
    exact perform_deliver (c := c₁) hready.running rfl htaken
  have htaken : P.machine.Run c ([.fetch] ++ [.deliver]) ([] ++ [.effector (.delivered _ d)]) c₂ :=
    (Machine.Run.single hfetch).append (.single hdeliver)
  -- The worker goes on to the commit.
  obtain ⟨_, fs, s, hworker, hidle, hturn, hcommits⟩ :
      P.svc.CanCommit P.py c.generation d c₂.effector :=
    EffectorService.canCommit_received
      (fun hverified hlive =>
        hholds.executes hdigests hverified (EffectorService.expiresAtMs_pos hlive))
      (EffectorService.phases_moveTo ..) (EffectorService.turn_moveTo ..)
  obtain ⟨_, es, hrun, hevents⟩ := run_worker (c := c₂) hready.running hworker
  have hcommitted : committedAfter c.committed fs = c.committed + 1 := by
    rw [committedAfter, hcommits]
    rfl
  refine ⟨_, _, _, htaken.append hrun, ?_, ?_, hcommitted⟩
  · exact ⟨hready.running, rfl, hcommitted.symm, hidle, hturn⟩
  · rw [effectorEvents_append, hevents, commitsOf_append, hcommits]
    rfl

/-- A service at the committed offset can commit everything that is left. -/
theorem Ready.finish (hready : Ready c) (hdigests : ∀ payload ∈ P.log, P.svc.Digests payload)
    {n : ℕ}
    (hn : c.committed + n = P.log.length) : ∃ acts es c', P.machine.Run c acts es c' ∧
      (commitsOf (effectorEvents es)).map (·.handle) = List.range' c.committed n ∧
      c'.committed = P.log.length := by
  induction n generalizing c with
  | zero => exact ⟨[], [], c, .refl, rfl, hn⟩
  | succ n ih =>
    obtain ⟨acts, es, c', hrun, hready', hcommits, hcommitted⟩ := hready.next hdigests (by omega)
    obtain ⟨acts', es', c'', hrun', hcommits', hend⟩ := ih hready' (by omega)
    refine ⟨_, _, c'', hrun.append hrun', ?_, hend⟩
    rw [effectorEvents_append, commitsOf_append, List.map_append, hcommits, hcommits', hcommitted,
      List.range'_succ]
    rfl

/-- The consumer has not got past an offset. -/
structure Behind (k : ℕ) (c : Consumer) : Prop where
  position : c.position ≤ k
  pending : ∀ d ∈ c.pending, d.handle < k
  current : ∀ d, (c.effector.phases c.generation).delivery = some d → d.handle < k
  committed : c.committed ≤ k

/-- Nothing gets past a malformed payload. -/
theorem Behind.step {k : ℕ} {payload : Bytes} (hat : P.log[k]? = some payload)
    (hmalformed : parseIntent payload = none) (hsound : P.Sound c) (h : Behind k c)
    (hstep : P.Consumes c act c' es) : Behind k c' := by
  have habort : Behind k c.abort.1 :=
    ⟨h.position, by simp [Consumer.abort], by simp [Consumer.abort, Phase.delivery], h.committed⟩
  cases hstep with
  | started =>
    have hidle : c.effector.phases (c.generation + 1) = .idle :=
      hsound.fresh _ (Nat.lt_succ_self _)
    exact ⟨h.committed, by simp, by simp [hidle, Phase.delivery], h.committed⟩
  | malformed | crashed => exact habort
  | @fetched payload' intent hrunning hturn hat' hparse =>
    have hlt : c.position < k := by
      refine Nat.lt_of_le_of_ne h.position fun heq => ?_
      rw [heq, hat] at hat'
      cases hat'
      cases hmalformed.symm.trans hparse
    refine ⟨hlt, fun d hd => ?_, h.current, h.committed⟩
    rcases List.mem_append.mp hd with hd | hd
    · exact h.pending d hd
    · cases List.mem_singleton.mp hd
      exact hlt
  | @delivered d pending s fs hrunning hpending hperform =>
    obtain ⟨phase, claim, hmoves, rfl⟩ := EffectorService.perform_work hperform
    have hpending' : ∀ d' ∈ d :: pending, d'.handle < k := hpending ▸ h.pending
    refine ⟨h.position, fun d' hd' => hpending' d' (List.mem_cons_of_mem _ hd'), fun d' hd' => ?_,
      h.committed⟩
    rw [EffectorState.after_phases_self] at hd'
    rcases hmoves.delivery hd' with hcurrent | hdelivered
    · exact h.current d' hcurrent
    · cases hdelivered
      exact hpending' d List.mem_cons_self
  | @worked a s fs hrunning ha hperform =>
    obtain ⟨phase, claim, hmoves, rfl⟩ := EffectorService.perform_work hperform
    refine ⟨h.position, h.pending, fun d hd => ?_, ?_⟩
    · rw [Consumer.advance, EffectorState.after_phases_self] at hd
      rcases hmoves.delivery hd with hcurrent | hdelivered
      · exact h.current d hcurrent
      · cases hdelivered
        cases ha
    · exact committedAfter_le h.committed fun d hd => h.current d (hmoves.mem_commitsOf hd)
  | @released s fs hstopped hperform =>
    obtain ⟨hphases, -⟩ := EffectorService.perform_release hperform
    exact ⟨h.position, h.pending, fun d hd => h.current d (hphases ▸ hd), h.committed⟩
  | ticked => exact ⟨h.position, h.pending, h.current, h.committed⟩

end IntentsPartition

end BeamAgents
