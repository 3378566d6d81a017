import BeamAgents.Core.Atomicity
import BeamAgents.Core.Buffer
import BeamAgents.Transition.Ledger

/-!
# Events are conserved under adaptive batching

A ledger is kept beside a run of one key. Each call that hands over an event enters it, as buffered
or as shed with its one record; a flush that commits hands the whole buffer to its activation; a
flush that fails and a wipe drop the buffer with one record for each event. No other call books
anything, and what a resume is handed is no event. The ledger then shows each event in exactly one
place at each point of the run.

## Main definitions

* `AgentDoFn.Booked`: what a call books, with the evidence for it in the outputs of the call.
* `AgentDoFn.booked`: the runs of the transform with their ledger.

## Main results

* `AgentDoFn.run_conserved`.
-/

namespace BeamAgents

open Transition

/-- The event that a call hands over. -/
def KeyCall.event : KeyCall → Option AgentEnvelope
  | .process envelope _ => if envelope.isEvent then some envelope else none
  | .onTtl .. | .onFlush _ | .onHitl .. => none

/-- The ledger once the event of a call, if it hands one over, is in the buffer. -/
def taking (L : Ledger AgentEnvelope) (c : KeyCall) : Ledger AgentEnvelope :=
  match c.event with
  | some envelope => L.arrive envelope
  | none => L

/-- What the world decides during a call. -/
def KeyCall.world : KeyCall → World
  | .process _ w | .onTtl _ w | .onFlush w | .onHitl _ w => w

namespace AgentDoFn

variable (d : AgentDoFn) (settings : BatchSettings) (py : PyLib) (key : Bytes)

/-- What a call books in the ledger, given what it emits. -/
inductive Booked (L : Ledger AgentEnvelope) :
    KeyCall → List Effect → Ledger AgentEnvelope → Prop
  /-- The buffer is full, and the event is shed with its one record. -/
  | shed {envelope w os detail} (hevent : envelope.isEvent)
      (hfull : settings.maxBufferedEvents ≤ L.contents.length) (hcommit : activationsOf os = 0)
      (hrecord : errorsOf os = [⟨key, reasonBatchOverflow, detail, envelope.eventTimeMs⟩]) :
      Booked L (.process envelope w) os (L.refuse envelope)
  /-- There is room, and the event is buffered. -/
  | buffered {envelope w os} (hevent : envelope.isEvent)
      (hroom : L.contents.length < settings.maxBufferedEvents) (hcommit : activationsOf os = 0)
      (hrecord : errorsOf os = []) : Booked L (.process envelope w) os (L.arrive envelope)
  /-- A committed flush: its activation was handed the whole buffer. -/
  | flushed {c input result os} (hresult : d.activate py c.world input = .ok result)
      (hinput : input.event = .inr ((taking L c).contents.map AgentEnvelope.externalEvent))
      (hcommit : activationsOf os = 1) (hrecord : errorsOf os = []) :
      Booked L c os (taking L c).deliver
  /-- A flush that fails, with one record for each event. -/
  | failed {c os reason detail t} (hcommit : activationsOf os = 0)
      (hrecords : errorsOf os =
        List.replicate (taking L c).contents.length ⟨key, reason, detail, t⟩) :
      Booked L c os (taking L c).drop
  /-- A wipe, with one record for each event, beside that of a suspension it ends. -/
  | wiped {micros w os} (hcommit : activationsOf os = 0)
      (hrecords : (errorsOf os).countP (fun error => error.reason ≠ reasonTtlWipedSuspension) =
        L.contents.length) : Booked L (.onTtl micros w) os L.drop
  /-- Nothing about events: what commits, if anything, is a resume, which is handed none. -/
  | aside {c os} (hevent : c.event = none)
      (hinput : activationsOf os = 0 ∨
        ∃ input result, d.activate py c.world input = .ok result ∧ input.event = .inl []) :
      Booked L c os L

/-- The runs of the transform, with what each call books. -/
def booked : Machine (KeyState × Ledger AgentEnvelope) KeyCall Effect where
  step x c y os :=
    (d.machine py key).step x.1 c y.1 os ∧ d.Booked settings py key x.2 c os y.2

section Booked

variable {d settings py key} {s s' : KeyState} {c : KeyCall} {os pre es : List Effect}
  {L L' : Ledger AgentEnvelope} {w : World}

theorem event_eq {envelope : AgentEnvelope} (hevent : envelope.isEvent) :
    (KeyCall.process envelope w).event = some envelope := by
  simp [KeyCall.event, hevent]

theorem event_eq_none (haside : c.aside = true) : c.event = none := by
  cases c with
  | process envelope w =>
    have hevent : envelope.isEvent = false := by simpa [KeyCall.aside] using haside
    simp [KeyCall.event, hevent]
  | onHitl micros w => rfl
  | onTtl | onFlush => cases haside

theorem Taken.world (h : d.Taken s c w pre) : c.world = w := by
  cases h <;> rfl

/-- The buffer once the event is taken is that of the ledger. -/
theorem Taken.contents (h : d.Taken s c w pre) (hL : s.batch = L.contents) :
    (s.applyAll pre).batch = (taking L c).contents := by
  cases h with
  | timer => exact hL
  | event hbatch hevent hroom =>
    rw [applyAll_bufferEffects, taking, event_eq hevent]
    simp [hL]

theorem outputsOf_bufferEffects (envelope : AgentEnvelope) :
    outputsOf (d.bufferEffects envelope settings s w) = [] := by
  unfold bufferEffects
  split_ifs <;> rfl

theorem Taken.errors (h : d.Taken s c w pre) : errorsOf pre = [] := by
  cases h with
  | timer => rfl
  | event => exact errorsOf_of_outputsOf (outputsOf_bufferEffects _)

theorem Taken.activations (h : d.Taken s c w pre) : activationsOf pre = 0 :=
  activationsOf_of_issue h.buffered.issue

theorem errorsOf_failedFlush (key : Bytes) (now : Int) (envelopes : List AgentEnvelope)
    (reason detail : String) : errorsOf (failedFlush key now envelopes reason detail) =
      List.replicate envelopes.length ⟨key, reason, detail, now⟩ := by
  rw [errorsOf, outputsOf_failedFlush]
  exact List.filterMap_replicate_of_some rfl

/-- A failed flush emits one record for each event, all of them alike. -/
theorem errorsOf_flushFailure (py : PyLib) (key : Bytes) (seq : ℕ) (now : Int)
    (envelopes : List AgentEnvelope) (batchDetail : String) (failure : ActivationFailure) :
    ∃ reason detail t, reason ≠ reasonTtlWipedSuspension ∧
      errorsOf (flushFailure py key seq now envelopes batchDetail failure) =
        List.replicate envelopes.length ⟨key, reason, detail, t⟩ := by
  cases failure with
  | timeout | failed context cause | raised e =>
    simp only [flushFailure, errorsOf_append, errorsOf_failedFlush]
    exact ⟨_, _, _, by decide, List.append_nil _⟩

/-- The record of one of the buffered events that a wipe drops. -/
def wipedRecord (key : Bytes) (firedAtMs : Int) (buffered index : ℕ) : ActivationError :=
  ⟨key, reasonTtlWipedBatch, s!"buffered={buffered},index={index}", firedAtMs⟩

/-- The record of the suspension that a wipe ends. -/
theorem errorsOf_wipedSuspension (fired : Int) (cont : Option Continuation) :
    ∀ error ∈ errorsOf (wipedSuspension py key fired cont),
      error.reason = reasonTtlWipedSuspension := by
  cases cont with
  | none => exact fun error herror => absurd herror List.not_mem_nil
  | some cont =>
    intro error herror
    have hone : errorsOf (wipedSuspension py key fired (some cont)) =
        [⟨key, reasonTtlWipedSuspension, s!"seq={cont.seq},deadline_ms={cont.deadlineMs}",
          fired⟩] :=
      rfl
    rw [hone, List.mem_singleton] at herror
    rw [herror]

/-- A wipe emits one record for each buffered event, by its place, after that of the suspension. -/
theorem errorsOf_wiped (hbatch : d.batch.isSome) (fired : Int) (cont : Option Continuation) :
    errorsOf (wipedSuspension py key fired cont ++ (d.wipedBatch key fired s ++ d.wipe)) =
      errorsOf (wipedSuspension py key fired cont) ++
        (List.range s.batch.length).map (wipedRecord key fired s.batch.length) := by
  have hwipe : errorsOf d.wipe = [] := by
    refine errorsOf_of_outputsOf (outputsOf_eq_nil fun e he o heq => ?_)
    subst heq
    cases hbatch : d.batch <;> simp [wipe, hbatch] at he
  have hrecords (indices : List ℕ) (detail : ℕ → String) : errorsOf (indices.flatMap fun index =>
      deadLetter key reasonTtlWipedBatch (detail index) fired) =
        indices.map fun index => ⟨key, reasonTtlWipedBatch, detail index, fired⟩ := by
    induction indices with
    | nil => rfl
    | cons index indices ih =>
      rw [List.flatMap_cons, errorsOf_append, errorsOf_deadLetter, ih]
      rfl
  rw [errorsOf_append, errorsOf_append, hwipe, List.append_nil, wipedBatch,
    if_neg (by simpa [← Option.isSome_iff_ne_none] using hbatch), hrecords]
  rfl

/-- A wipe emits one record for each buffered event, beside that of the suspension. -/
theorem wiped_records (hbatch : d.batch.isSome) (fired : Int) (cont : Option Continuation) :
    (errorsOf (wipedSuspension py key fired cont ++ (d.wipedBatch key fired s ++ d.wipe))).countP
      (fun error => error.reason ≠ reasonTtlWipedSuspension) = s.batch.length := by
  have hsuspension : (errorsOf (wipedSuspension py key fired cont)).countP
      (fun error => error.reason ≠ reasonTtlWipedSuspension) = 0 :=
    List.countP_eq_zero.mpr fun error herror => by
      simpa using errorsOf_wipedSuspension fired cont error herror
  have hall : ((List.range s.batch.length).map (wipedRecord key fired s.batch.length)).countP
      (fun error => error.reason ≠ reasonTtlWipedSuspension) =
        ((List.range s.batch.length).map (wipedRecord key fired s.batch.length)).length := by
    refine List.countP_eq_length.mpr fun error herror => ?_
    obtain ⟨index, -, rfl⟩ := List.mem_map.mp herror
    rfl
  rw [errorsOf_wiped hbatch, List.countP_append, hsuspension, hall, List.length_map,
    List.length_range, Nat.zero_add]

/-- What a call does to the buffer is booked, whatever the call. -/
theorem BufferShape.booked (hbatch : d.batch = some settings) (hL : s.batch = L.contents)
    (h : d.BufferShape py key s c os) :
    ∃ L', d.Booked settings py key L c os L' ∧ (s.applyAll os).batch = L'.contents := by
  have hsome : d.batch.isSome := by simp [hbatch]
  cases h with
  | @shed envelope settings' w hsettings hevent hfull =>
    obtain rfl : settings = settings' := Option.some.inj (hbatch.symm.trans hsettings)
    have hquiet := quiet_deadLetter key reasonBatchOverflow
      s!"buffered={s.batch.length},cap={settings.maxBufferedEvents}" envelope.eventTimeMs
    refine ⟨L.refuse envelope, .shed hevent ?_ hquiet.activationsOf rfl, ?_⟩
    · simpa [bufferIsFull, hL] using hfull
    · rw [((apart_deadLetter key reasonBatchOverflow _ _).applyAll (s := s)).1, L.contents_refuse,
        hL]
  | @deferred envelope settings' w hsettings hevent hroom =>
    obtain rfl : settings = settings' := Option.some.inj (hbatch.symm.trans hsettings)
    have htaken : d.Taken s _ w _ := .event hbatch hevent hroom
    refine ⟨L.arrive envelope, .buffered hevent ?_ htaken.activations htaken.errors, ?_⟩
    · simpa [bufferIsFull, hL] using hroom
    · have hbuffer := htaken.contents hL
      rwa [taking, event_eq hevent] at hbuffer
  | declined => exact ⟨L, .aside rfl (.inl rfl), hL⟩
  | @failed c w pre first rest seq now batchDetail failure htaken hbuffer =>
    have hquiet : Quiet (sampleActivation w ::
        flushFailure py key seq now (first :: rest) batchDetail failure) :=
      quiet_cons.mpr ⟨rfl, quiet_flushFailure py key _ _ _ _ _⟩
    obtain ⟨reason, detail, t, -, hrecords⟩ :=
      errorsOf_flushFailure py key seq now (first :: rest) batchDetail failure
    have hbooked : errorsOf (pre ++ sampleActivation w ::
          flushFailure py key seq now (first :: rest) batchDetail failure) =
        List.replicate (taking L c).contents.length ⟨key, reason, detail, t⟩ := by
      rw [errorsOf_append, htaken.errors, List.nil_append, ← htaken.contents hL, hbuffer]
      exact hrecords
    refine ⟨(taking L c).drop, .failed ?_ hbooked, ?_⟩
    · rw [activationsOf_append, htaken.activations, hquiet.activationsOf]
    · rw [KeyState.applyAll_append, applyAll_sampleActivation, Ledger.contents_drop]
      exact batch_flushFailure py key _ _ _ _ _ _
  | @flushed c w pre size trigger input result es htaken hact hresult hes =>
    subst hes
    refine ⟨(taking L c).deliver, .flushed (htaken.world ▸ hresult) ?_ ?_ ?_, ?_⟩
    · rw [← htaken.contents hL]
      cases hact with
      | flush hbatch hcont hmemory hcache hbuffer hcall =>
        rw [hbuffer]
        rfl
    · rw [activationsOf_append, htaken.activations, activationsOf_commit _ _ hresult]
    · rw [errorsOf_append, htaken.errors, errorsOf_commit]
      rfl
    · rw [KeyState.applyAll_append, applyAll_sampleActivation, applyAll_commit,
        Ledger.contents_deliver]
      rfl
  | @resumed envelope w input result es hact hresult hes =>
    subst hes
    cases hact with
    | resume hanswers hcont hadmission hmemory hcache =>
      refine ⟨L, .aside ?_ (.inr ⟨_, _, hresult, rfl⟩), ?_⟩
      · simp [KeyCall.event, AgentEnvelope.not_isEvent hanswers]
      · rw [applyAll_sampleActivation, applyAll_commit]
        exact hL
  | ended =>
    refine ⟨L, .aside rfl (.inl (activationsOf_of_issue (issue_endSuspension _ _ _ _ _))), ?_⟩
    rw [applyAll_endSuspension]
    exact hL
  | @wiped micros w cont =>
    refine ⟨L.drop, .wiped (activationsOf_of_issue (issue_wiped _ _)) ?_, ?_⟩
    · rw [wiped_records hsome, hL]
    · rw [KeyState.applyAll_append, KeyState.applyAll_append, applyAll_wipe, if_pos hsome]
      rfl
  | apart haside h =>
    refine ⟨L, .aside (event_eq_none haside) (.inl h.activationsOf), ?_⟩
    rw [h.applyAll.1]
    exact hL

/-- A call enters the event it hands over, and nothing else. -/
theorem Booked.arrived (h : d.Booked settings py key L c os L') :
    L'.arrived = L.arrived ++ c.event.toList := by
  have htaking (L : Ledger AgentEnvelope) (c : KeyCall) :
      (taking L c).arrived = L.arrived ++ c.event.toList := by
    unfold taking
    cases c.event with
    | none => exact (List.append_nil _).symm
    | some envelope => rfl
  cases h with
  | shed hevent | buffered hevent =>
    rw [event_eq hevent]
    rfl
  | flushed | failed => exact htaking L c
  | wiped => exact (List.append_nil _).symm
  | aside hevent => rw [hevent, Option.toList_none, List.append_nil]

/-- An event is buffered only where there is room. -/
theorem Booked.bounded (hL : L.contents.length ≤ settings.maxBufferedEvents)
    (h : d.Booked settings py key L c os L') :
    L'.contents.length ≤ settings.maxBufferedEvents := by
  cases h with
  | shed => rwa [Ledger.contents_refuse]
  | buffered hevent hroom =>
    rw [Ledger.contents_arrive, List.length_append]
    exact hroom
  | flushed | failed | wiped => exact Nat.zero_le _
  | aside => exact hL

end Booked

/-- **Events are conserved under adaptive batching.** Every run of one key is a run with a ledger,
whose calls book what they do with the evidence that `Booked` asks for. The arrivals of the ledger
are the events of the run, in order; each of them is in exactly one place, once: in the buffer, in
the delivery of one committed flush, or dead-lettered; the buffer of the key is that of the ledger,
in the order of arrival, and never exceeds its cap. -/
theorem run_conserved (d : AgentDoFn) (py : PyLib) (key : Bytes) {settings : BatchSettings}
    (hbatch : d.batch = some settings) {calls : List KeyCall} {effects : List Effect} {s : KeyState}
    (h : (d.machine py key).Run {} calls effects s) :
    ∃ L, (d.booked settings py key).Run ({}, .empty) calls effects (s, L) ∧
      L.arrived = calls.filterMap KeyCall.event ∧ (∀ n < L.arrived.length, L.places n = 1) ∧
      s.batch = L.contents ∧ s.batch.length ≤ settings.maxBufferedEvents := by
  have hrun : ∃ L, (d.booked settings py key).Run ({}, .empty) calls effects (s, L) ∧
      L.arrived = calls.filterMap KeyCall.event ∧ s.batch = L.contents ∧
      L.contents.length ≤ settings.maxBufferedEvents := by
    refine h.invariant (I := fun calls effects s => ∃ L,
      (d.booked settings py key).Run ({}, .empty) calls effects (s, L) ∧
        L.arrived = calls.filterMap KeyCall.event ∧ s.batch = L.contents ∧
        L.contents.length ≤ settings.maxBufferedEvents) ?_ ?_
    · exact ⟨.empty, .refl, rfl, rfl, Nat.zero_le _⟩
    · rintro calls effects s c s' os - ⟨L, hrun, harrived, hL, hle⟩ hstep
      obtain ⟨hcall, rfl⟩ := hstep
      obtain ⟨L', hbooked, hL'⟩ :=
        (call_bufferShape (by simp [hbatch]) hcall).booked hbatch hL
      refine ⟨L', hrun.tail ⟨⟨hcall, rfl⟩, hbooked⟩, ?_, hL', hbooked.bounded hle⟩
      rw [hbooked.arrived, harrived, List.filterMap_append]
      cases hevent : c.event <;> simp [hevent]
  obtain ⟨L, hrun, harrived, hL, hle⟩ := hrun
  exact ⟨L, hrun, harrived, fun n hn => L.places_eq_one hn, hL, hL ▸ hle⟩

/-- Of four events the first is flushed, two are buffered behind the suspension and one is shed; a
wipe drops the buffer. -/
theorem run_conserved_wiped : ∃ settings effects s L,
    (hurriedAgent.booked settings (.ofTable identityTable) [107]).Run ({}, .empty)
      [eventAt 1000 1, eventAt 2000 2, eventAt 3000 3, eventAt 4000 4, .onTtl 9000000 quietWorld]
      effects (s, L) ∧ L.arrived.length = 4 ∧ (∀ n < 4, L.places n = 1) ∧ L.contents = [] := by
  have hrun : (hurriedAgent.exec (.ofTable identityTable) [107] {}
      [eventAt 1000 1, eventAt 2000 2, eventAt 3000 3, eventAt 4000 4,
        .onTtl 9000000 quietWorld]).isSome := by decide
  obtain ⟨⟨effects, s⟩, hexec⟩ := Option.isSome_iff_exists.mp hrun
  have hbatch : s.batch = [] := by
    have hdecided : (hurriedAgent.exec (.ofTable identityTable) [107] {}
        [eventAt 1000 1, eventAt 2000 2, eventAt 3000 3, eventAt 4000 4,
          .onTtl 9000000 quietWorld]).map (fun r => r.2.batch) = some [] := by decide
    rw [hexec] at hdecided
    exact Option.some.inj hdecided
  obtain ⟨L, hbooked, harrived, hplaces, hL, -⟩ := run_conserved hurriedAgent
    (.ofTable identityTable) [107] rfl
    (exec_run (C := fun _ _ => True) hexec fun _ _ _ => trivial).of_guarded
  have hlength : L.arrived.length = 4 := by
    rw [harrived]
    decide
  exact ⟨_, effects, s, L, hbooked, hlength, fun n hn => hplaces n (hlength ▸ hn), hL ▸ hbatch⟩

end AgentDoFn

end BeamAgents
