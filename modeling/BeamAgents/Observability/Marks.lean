import BeamAgents.Observability.Traces
import Mathlib.Data.List.Forall2
import Mathlib.Data.List.Nodup
import Mathlib.Data.Set.Function

/-!
# The occurrences that trace events stand for

Observers collapse trace events under `(trace_id, span_id, event_type)`. A span id is a hash of the
key, the `seq`, a role and an index; with the type of the event, these say which occurrence of one
attempt, or of one timer, the event stands for. Events that stand for different occurrences are then
filed apart, unless the hash gives two of their names the same eight bytes.

## Main definitions

* `TraceEvent.dedupKey`: the key under which an event is filed.
* `Mark`: an occurrence within one `seq`.
* `Marked`: an event stands for an occurrence.
* `NamedApart`: no two events have both the same span name and the same type.

## Main results

* `marked_stamp`: what a stamped event stands for.
* `NamedApart.of_marked`: events of pairwise distinct occurrences are named apart.
* `NamedApart.dedupKeys`: events that are named apart are filed apart.
-/

namespace BeamAgents

/-- The key under which observers collapse trace events, and the console store upserts them. -/
def TraceEvent.dedupKey (event : TraceEvent) : Bytes × Bytes × EventType :=
  (event.traceId, event.spanId, event.eventType)

/-- An occurrence within one `seq`: the two ends of an attempt by the step it entered at, the calls
and the intents by their step, the inline tools by their own counter, a suspension by the cursor it
suspended at, a failure or a refusal, and the end of a suspension by a timer. -/
inductive Mark
  | start (entry : ℕ)
  | finish (entry : ℕ)
  | llm (step : ℕ)
  | intent (step : ℕ)
  | tool (index : ℕ)
  | suspended (step : ℕ)
  | error
  | timer
  deriving DecidableEq, Repr

namespace Mark

/-- The type of the events of an occurrence. -/
def eventType : Mark → EventType
  | start _ => .activationStart
  | finish _ => .activationEnd
  | llm _ => .llmCall
  | intent _ => .intentEmitted
  | tool _ => .toolCall
  | suspended _ => .suspended
  | error | timer => .error

/-- The role under which the span of an occurrence is named. -/
def role (m : Mark) : String :=
  match m with
  | timer => roleTimer
  | m => roleForEventType m.eventType

/-- The index under which the span of an occurrence is named. -/
def index : Mark → ℕ
  | start n | finish n | llm n | intent n | tool n | suspended n => n
  | error | timer => 0

theorem bar_notMem_role (m : Mark) : '|' ∉ m.role.toList := by
  cases m <;> simp only [role, eventType, roleForEventType, roleActivation, roleTimer,
    EventType.name] <;> decide

/-- The role, the index and the type determine the occurrence. -/
theorem eq_of_role {m m' : Mark} (hrole : m.role = m'.role) (hindex : m.index = m'.index)
    (htype : m.eventType = m'.eventType) : m = m' := by
  cases m <;> cases m' <;> simp_all [role, index, eventType, roleForEventType, roleTimer,
    EventType.name]

end Mark

variable (py : PyLib) (key : Bytes)

/-- The event stands for the occurrence `m` within `seq`. -/
structure Marked (p : ℕ × Mark) (event : TraceEvent) : Prop where
  seq : event.seq = p.1
  traceId : event.traceId = traceIdFor py key p.1
  spanId : event.spanId = spanIdFor py key p.1 p.2.role p.2.index
  eventType : event.eventType = p.2.eventType

/-- The span id that a name is hashed to. -/
def spanOf (name : String) : Bytes := (py.uuid5 traceNamespace name).bytes.take 8

/-- The spans of the events carry these names, and no two events have both the same name and the
same type. -/
structure NamedApart (names : List String) (events : List TraceEvent) : Prop where
  spans : events.map TraceEvent.spanId = names.map (spanOf py)
  apart : (names.zip (events.map TraceEvent.eventType)).Nodup

variable {py key} {marks : List (ℕ × Mark)} {events : List TraceEvent} {names : List String}

/-! ### Stamped events -/

section Stamp

variable {t : ActivationTrace}

/-- An event that was stamped stays as it is. -/
@[simp] theorem ActivationTrace.stamp_stamp (event : TraceEvent) :
    t.stamp py (t.stamp py event) = t.stamp py event := by
  simp only [stamp, Option.getD_none]
  congr 1 <;> split_ifs <;> simp_all

/-- A stamped event stands for the occurrence whose role, type and index it has; the two ends of an
attempt share the span of the attempt. -/
theorem marked_stamp {entry : ℕ} {event : TraceEvent} {role : Option String} {m : Mark}
    (hspan : t.spanId = spanIdFor py t.entityKey t.seq roleActivation entry)
    (hblank : event.traceId = [] ∧ event.spanId = []) (hseq : event.seq = t.seq)
    (htype : event.eventType = m.eventType)
    (hrole : role.getD (roleForEventType event.eventType) = m.role)
    (hindex : m.index = if m.role = roleActivation then entry else event.stepIndex) :
    Marked py t.entityKey (t.seq, m) (t.stamp py event role) := by
  refine ⟨hseq, ?_, ?_, htype⟩
  · simp only [ActivationTrace.stamp, hblank.1, if_true, ActivationTrace.traceId]
  · simp only [ActivationTrace.stamp, hblank.2, if_true, hrole]
    by_cases hend : m.role = roleActivation
    · rw [if_pos hend] at hindex ⊢
      rw [hspan, hend, hindex]
    · rw [if_neg hend] at hindex ⊢
      rw [hindex]

end Stamp

/-! ### Named apart -/

/-- The name of a span and the type of the event determine the occurrence. -/
private theorem name_injective : Function.Injective fun p : ℕ × Mark =>
    (spanName key p.1 p.2.role p.2.index, p.2.eventType) := by
  intro p p' h
  obtain ⟨hname, htype⟩ := Prod.mk.inj h
  obtain ⟨hseq, hrole, hindex⟩ :=
    spanName_injective key p.2.bar_notMem_role p'.2.bar_notMem_role hname
  exact Prod.ext hseq (Mark.eq_of_role hrole hindex htype)

/-- **Events of different occurrences are named apart.** -/
theorem NamedApart.of_marked (h : List.Forall₂ (Marked py key) marks events)
    (hnodup : marks.Nodup) : ∃ names, NamedApart py names events := by
  refine ⟨marks.map fun p => spanName key p.1 p.2.role p.2.index, ?_, ?_⟩
  · induction h with
    | nil => rfl
    | cons hm _ ih =>
      simp only [List.map_cons]
      rw [hm.spanId, ih hnodup.of_cons]
      rfl
  · have htypes : events.map TraceEvent.eventType = marks.map fun p => p.2.eventType := by
      clear hnodup
      induction h with
      | nil => rfl
      | cons hm _ ih => simp only [List.map_cons, hm.eventType, ih]
    have hzip (l : List (ℕ × Mark)) : (l.map fun p => spanName key p.1 p.2.role p.2.index).zip
        (l.map fun p => p.2.eventType) =
        l.map fun p => (spanName key p.1 p.2.role p.2.index, p.2.eventType) := by
      rw [List.zip_map']
    rw [htypes, hzip]
    exact hnodup.map name_injective

/-- **Events that are named apart are filed apart**, as long as the hash tells the names apart. -/
theorem NamedApart.dedupKeys (h : NamedApart py names events)
    (hhash : Set.InjOn (spanOf py) {name | name ∈ names}) :
    (events.map TraceEvent.dedupKey).Nodup := by
  have hlength : names.length = (events.map TraceEvent.eventType).length := by
    simpa using (congrArg List.length h.spans).symm
  -- The span and the type, of which the key has both, come from the name and the type.
  have hkeys : events.map (fun e => (e.spanId, e.eventType)) =
      (names.zip (events.map TraceEvent.eventType)).map fun p => (spanOf py p.1, p.2) := by
    calc events.map (fun e => (e.spanId, e.eventType))
        = (events.map TraceEvent.spanId).zip (events.map TraceEvent.eventType) := by
          rw [List.zip_map']
      _ = (names.map (spanOf py)).zip ((events.map TraceEvent.eventType).map id) := by
          rw [h.spans, List.map_id]
      _ = _ := by
          rw [List.zip_map]
          rfl
  have hnodup : (events.map fun e => (e.spanId, e.eventType)).Nodup := by
    rw [hkeys]
    refine List.Nodup.map_on (fun p hp p' hp' heq => ?_) h.apart
    obtain ⟨hspan, htype⟩ := Prod.mk.inj heq
    have hname := hhash (List.of_mem_zip hp).1 (List.of_mem_zip hp').1 hspan
    exact Prod.ext hname htype
  refine List.Nodup.of_map Prod.snd ?_
  rw [List.map_map]
  exact hnodup

end BeamAgents
