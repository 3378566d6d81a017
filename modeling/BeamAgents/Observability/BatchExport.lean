import BeamAgents.Core.DoFn
import BeamAgents.Observability.Exporters
import BeamAgents.Protos.ErrorRecords
import BeamAgents.Transition.Machine
import Mathlib.Data.List.Perm.Basic
import Mathlib.Data.List.Range
import Mathlib.Tactic.SplitIfs

/-!
# Exporting in batches

The export `DoFn`s of `observability/otlp.py` and `console/_sink.py` are built alike. The Beam
thread encodes and buffers elements and hands batches over a bounded queue, and drops a batch when
the queue is full; a sender thread posts the batches and retries a failure until a deadline. At the
end of a bundle the Beam thread waits until nothing is in flight or a deadline has passed, empties
the queue, and records what has been counted. Both threads count under one lock. They differ in how
an element is encoded, which is the parameter `encode`: an element that cannot be encoded raises,
and some are skipped.

A step is what happens under one hold of the lock, or one operation of the queue or of the client.
The clock is not modelled, but that a deadline has passed or not. An element that was accepted is an
object of its own, whatever its value is, and carries the number of those accepted before it. The
end of the `DoFn` is not modelled.

## Main definitions

* `BatchExport`, `ExportState`, `ExportAct`, `ExportEvent`.
* `PostOutcome.retryable`, `BatchExport.perform`, `BatchExport.machine`.
* `BeamPhase.inHand`, `SenderPhase.uncounted`, `ExportState.live`: the elements on their way.
* `BatchExport.Sound`: the books.
* `otlpExportDoFn`, `consoleExportDoFn`, `encodeElement`.

## Main results

* `BatchExport.Sound.perform`: every step keeps the books.
* `BatchExport.run_sound`: and so does every run.
* `exporters_conserve`: no element is lost, counted twice or sent again.
-/

namespace BeamAgents

open Transition

/-- An object in the buffer, and how many were accepted before it. -/
structure Item (α : Type) where
  id : ℕ
  value : α
  deriving DecidableEq, Repr

/-- The counters of `_SenderState`. -/
structure ExportTally where
  exported : ℕ := 0
  dropped : ℕ := 0
  failures : ℕ := 0
  batchesSent : ℕ := 0
  deriving DecidableEq, Repr

/-- What comes of one POST: an `httpx.HTTPError`, or a response with a status. -/
inductive PostOutcome
  | transportError
  | response (statusCode : ℕ)
  deriving DecidableEq, Repr

/-- `response.is_success`. -/
def PostOutcome.isSuccess : PostOutcome → Bool
  | .transportError => false
  | .response statusCode => 200 ≤ statusCode && statusCode ≤ 299

/-- Whether the POST is tried again: not after a client error, except 429. -/
def PostOutcome.retryable : PostOutcome → Bool
  | .transportError => true
  | .response statusCode => !(400 ≤ statusCode && statusCode < 500 && statusCode != 429)

/-- Where the Beam thread is: between calls; in `_enqueue`, with the batch taken from the buffer,
then added to the count of those in flight, then refused by the queue; in the wait of
`finish_bundle`; in `_drop_undrained`, and there with a batch from the queue; with the counts that
it is going to record. The flag says that `_enqueue` was called by `finish_bundle`. -/
inductive BeamPhase (α : Type)
  | idle
  | swapped (flushing : Bool) (batch : List (Item α))
  | announced (flushing : Bool) (batch : List (Item α))
  | refused (flushing : Bool) (batch : List (Item α))
  | waiting
  | draining
  | dequeued (batch : List (Item α))
  | tallied (counts : ExportTally)
  deriving DecidableEq, Repr

/-- Where the sender thread is: at the queue; in `_send`, before a POST, after one that succeeded or
failed and is not counted yet, after a failure that is; and behind it, with the batch still in
flight. -/
inductive SenderPhase (α : Type)
  | idle
  | holding (batch : List (Item α))
  | succeeded (batch : List (Item α))
  | failed (batch : List (Item α)) (retryable : Bool)
  | retrying (batch : List (Item α)) (retryable : Bool)
  | settled (batch : List (Item α))
  deriving DecidableEq, Repr

/-- The state of both threads. -/
structure ExportState (α : Type) where
  batch : List (Item α) := []
  queue : List (List (Item α)) := []
  inFlight : Int := 0
  tally : ExportTally := {}
  /-- What has been added to the metrics. -/
  recorded : ExportTally := {}
  beam : BeamPhase α := .idle
  sender : SenderPhase α := .idle
  /-- How many elements have been accepted. -/
  accepted : ℕ := 0
  deriving DecidableEq, Repr

/-- An export `DoFn`: how it encodes an element, and its bounds. A queue whose bound is not positive
is unbounded. -/
structure BatchExport (ε α : Type) where
  /-- None when it raises, and nothing for an element that is not exported. -/
  encode : ε → Option (Option α)
  batchSize : ℕ
  queueBatches : Int

/-- The steps of the two threads. -/
inductive ExportAct (ε : Type)
  /-- `process`, up to `_enqueue`. -/
  | process (element : ε)
  /-- `finish_bundle`, up to `_enqueue` or the wait. -/
  | finishBundle
  /-- `_enqueue` adds the batch to the count. -/
  | announce
  /-- `_enqueue` puts the batch on the queue, or is refused. -/
  | putNowait
  /-- `_enqueue` counts a refused batch. -/
  | countRefused
  /-- The wait of `finish_bundle` ends. -/
  | stopWaiting (timedOut : Bool)
  /-- `_drop_undrained` takes a batch, or finds the queue empty and the counts are taken. -/
  | getNowait
  /-- `_drop_undrained` counts a batch. -/
  | countUndrained
  /-- `finish_bundle` records the counts. -/
  | record
  /-- The sender takes a batch. -/
  | get
  /-- The sender posts its batch. -/
  | post (outcome : PostOutcome)
  /-- The sender counts what came of a POST. -/
  | countPost
  /-- The sender tries again, or gives up and counts the loss. -/
  | decide (timedOut : Bool)
  /-- The sender takes the batch from the count of those in flight. -/
  | settle
  deriving DecidableEq, Repr

/-- What a run shows: a POST, and the elements that are counted. -/
inductive ExportEvent (α : Type)
  | posted (batch : List (Item α)) (outcome : PostOutcome)
  | exported (batch : List (Item α))
  | dropped (batch : List (Item α))
  deriving DecidableEq, Repr

namespace BatchExport

variable {ε α : Type} (d : BatchExport ε α)

/-- Where the Beam thread goes on behind `_enqueue`. -/
def afterEnqueue (flushing : Bool) : BeamPhase α := if flushing then .waiting else .idle

/-- `queue.Full`. -/
def full (queue : List (List (Item α))) : Bool :=
  0 < d.queueBatches && d.queueBatches ≤ queue.length

/-- A step of the Beam thread or of the sender, and what it shows; none if it cannot be taken. -/
def perform (s : ExportState α) : ExportAct ε → Option (ExportState α × List (ExportEvent α))
  | .process element =>
    match s.beam, d.encode element with
    | .idle, some none => some (s, [])
    | .idle, some (some value) =>
      let batch := s.batch ++ [⟨s.accepted, value⟩]
      let s := { s with accepted := s.accepted + 1 }
      if d.batchSize ≤ batch.length then
        some ({ s with batch := [], beam := .swapped false batch }, [])
      else some ({ s with batch }, [])
    | _, _ => none
  | .finishBundle =>
    match s.beam with
    | .idle =>
      if s.batch = [] then some ({ s with beam := .waiting }, [])
      else some ({ s with batch := [], beam := .swapped true s.batch }, [])
    | _ => none
  | .announce =>
    match s.beam with
    | .swapped flushing batch =>
      some ({ s with beam := .announced flushing batch, inFlight := s.inFlight + batch.length }, [])
    | _ => none
  | .putNowait =>
    match s.beam with
    | .announced flushing batch =>
      if d.full s.queue then some ({ s with beam := .refused flushing batch }, [])
      else some ({ s with beam := afterEnqueue flushing, queue := s.queue ++ [batch] }, [])
    | _ => none
  | .countRefused =>
    match s.beam with
    | .refused flushing batch =>
      some ({ s with
        beam := afterEnqueue flushing
        inFlight := s.inFlight - batch.length
        tally := { s.tally with dropped := s.tally.dropped + batch.length } }, [.dropped batch])
    | _ => none
  | .stopWaiting timedOut =>
    match s.beam with
    | .waiting =>
      if s.inFlight ≤ 0 ∨ timedOut then some ({ s with beam := .draining }, []) else none
    | _ => none
  | .getNowait =>
    match s.beam, s.queue with
    | .draining, batch :: queue => some ({ s with beam := .dequeued batch, queue }, [])
    | .draining, [] => some ({ s with beam := .tallied s.tally, tally := {} }, [])
    | _, _ => none
  | .countUndrained =>
    match s.beam with
    | .dequeued batch =>
      some ({ s with
        beam := .draining
        inFlight := s.inFlight - batch.length
        tally := { s.tally with dropped := s.tally.dropped + batch.length } }, [.dropped batch])
    | _ => none
  | .record =>
    match s.beam with
    | .tallied counts =>
      some ({ s with
        beam := .idle
        recorded := ⟨s.recorded.exported + counts.exported, s.recorded.dropped + counts.dropped,
          s.recorded.failures + counts.failures,
          s.recorded.batchesSent + counts.batchesSent⟩ }, [])
    | _ => none
  | .get =>
    match s.sender, s.queue with
    | .idle, batch :: queue => some ({ s with sender := .holding batch, queue }, [])
    | _, _ => none
  | .post outcome =>
    match s.sender with
    | .holding batch =>
      let sender := if outcome.isSuccess then .succeeded batch else .failed batch outcome.retryable
      some ({ s with sender }, [.posted batch outcome])
    | _ => none
  | .countPost =>
    match s.sender with
    | .succeeded batch =>
      some ({ s with
        sender := .settled batch
        tally := { s.tally with
          exported := s.tally.exported + batch.length
          batchesSent := s.tally.batchesSent + 1 } }, [.exported batch])
    | .failed batch retryable =>
      some ({ s with
        sender := .retrying batch retryable
        tally := { s.tally with failures := s.tally.failures + 1 } }, [])
    | _ => none
  | .decide timedOut =>
    match s.sender with
    | .retrying batch retryable =>
      if retryable = false ∨ timedOut then
        some ({ s with
          sender := .settled batch
          tally := { s.tally with dropped := s.tally.dropped + batch.length } }, [.dropped batch])
      else some ({ s with sender := .holding batch }, [])
    | _ => none
  | .settle =>
    match s.sender with
    | .settled batch =>
      some ({ s with sender := .idle, inFlight := s.inFlight - batch.length }, [])
    | _ => none

/-- The two threads as a machine. -/
def machine : Machine (ExportState α) (ExportAct ε) (ExportEvent α) where
  step s a s' events := d.perform s a = some (s', events)

end BatchExport

/-! ### Where an element is -/

section Places

variable {α : Type}

/-- The batch that the Beam thread has taken from the buffer or the queue and has neither put on the
queue nor counted. -/
@[simp] def BeamPhase.inHand : BeamPhase α → List (Item α)
  | .swapped _ batch | .announced _ batch | .refused _ batch | .dequeued batch => batch
  | _ => []

/-- Of that batch, what is in the count of those in flight. -/
@[simp] def BeamPhase.inFlight : BeamPhase α → List (Item α)
  | .announced _ batch | .refused _ batch | .dequeued batch => batch
  | _ => []

/-- The counts that the Beam thread has taken and not recorded yet. -/
@[simp] def BeamPhase.counts : BeamPhase α → ExportTally
  | .tallied counts => counts
  | _ => {}

/-- The batch of the sender. -/
@[simp] def SenderPhase.held : SenderPhase α → List (Item α)
  | .holding batch | .succeeded batch | .failed batch _ | .retrying batch _ | .settled batch =>
    batch
  | .idle => []

/-- The batch of the sender as long as it is not counted. -/
@[simp] def SenderPhase.uncounted : SenderPhase α → List (Item α)
  | .holding batch | .succeeded batch | .failed batch _ | .retrying batch _ => batch
  | _ => []

/-- The elements counted as exported. -/
def exportedItems (events : List (ExportEvent α)) : List (Item α) :=
  events.flatMap fun
    | .exported batch => batch
    | _ => []

/-- The elements counted as dropped. -/
def droppedItems (events : List (ExportEvent α)) : List (Item α) :=
  events.flatMap fun
    | .dropped batch => batch
    | _ => []

/-- The elements of a list by their numbers. -/
def idsOf (items : List (Item α)) : List ℕ := items.map Item.id

/-- The elements that are not counted yet, wherever they are. -/
def ExportState.live (s : ExportState α) : List (Item α) :=
  s.batch ++ s.beam.inHand ++ s.queue.flatten ++ s.sender.uncounted

/-- A POST that succeeded. -/
def ExportEvent.Succeeded (batch : List (Item α)) (event : ExportEvent α) : Prop :=
  ∃ outcome : PostOutcome, outcome.isSuccess = true ∧ event = .posted batch outcome

/-- What was posted with success is not posted again. -/
def NotResent (events : List (ExportEvent α)) : Prop :=
  events.Pairwise fun event event' => ∀ batch batch' outcome, event.Succeeded batch →
    event' = .posted batch' outcome → (idsOf batch).Disjoint (idsOf batch')

/-- All that has been counted, recorded or not. -/
def ExportState.exported (s : ExportState α) : ℕ :=
  s.recorded.exported + s.beam.counts.exported + s.tally.exported

/-- Likewise. -/
def ExportState.dropped (s : ExportState α) : ℕ :=
  s.recorded.dropped + s.beam.counts.dropped + s.tally.dropped

end Places

/-- The books of an exporter. -/
structure BatchExport.Sound {α : Type} (events : List (ExportEvent α)) (s : ExportState α) :
    Prop where
  placed : (idsOf (s.live ++ exportedItems events ++ droppedItems events)).Perm
    (List.range s.accepted)
  inFlight : s.inFlight =
    (s.beam.inFlight.length + s.queue.flatten.length + s.sender.held.length : ℕ)
  exported : s.exported = (exportedItems events).length
  dropped : s.dropped = (droppedItems events).length
  posted : ∀ event ∈ events, ∀ batch, event.Succeeded batch →
    batch ⊆ exportedItems events ∨ s.sender = .succeeded batch
  notResent : NotResent events

section Lemmas

variable {α : Type} {events more : List (ExportEvent α)} {s s' : ExportState α}

theorem exportedItems_append (events more : List (ExportEvent α)) :
    exportedItems (events ++ more) = exportedItems events ++ exportedItems more :=
  List.flatMap_append

theorem droppedItems_append (events more : List (ExportEvent α)) :
    droppedItems (events ++ more) = droppedItems events ++ droppedItems more :=
  List.flatMap_append

@[simp] theorem idsOf_nil : idsOf ([] : List (Item α)) = [] := rfl

@[simp] theorem idsOf_cons (item : Item α) (items : List (Item α)) :
    idsOf (item :: items) = item.id :: idsOf items :=
  rfl

@[simp] theorem exportedItems_nil : exportedItems ([] : List (ExportEvent α)) = [] := rfl

@[simp] theorem droppedItems_nil : droppedItems ([] : List (ExportEvent α)) = [] := rfl

@[simp] theorem exportedItems_exported (batch : List (Item α)) :
    exportedItems [.exported batch] = batch :=
  List.append_nil batch

@[simp] theorem droppedItems_exported (batch : List (Item α)) :
    droppedItems [.exported batch] = [] :=
  rfl

@[simp] theorem exportedItems_dropped (batch : List (Item α)) :
    exportedItems [.dropped batch] = [] :=
  rfl

@[simp] theorem droppedItems_dropped (batch : List (Item α)) :
    droppedItems [.dropped batch] = batch :=
  List.append_nil batch

@[simp] theorem idsOf_append (items items' : List (Item α)) :
    idsOf (items ++ items') = idsOf items ++ idsOf items' :=
  List.map_append

namespace BatchExport.Sound

/-- A step that posts nothing keeps the books when it keeps the counts. -/
theorem step (h : Sound events s)
    (hplaced : ∀ n, (idsOf s'.live).count n + (idsOf (exportedItems more)).count n +
        (idsOf (droppedItems more)).count n + (List.range s.accepted).count n =
      (idsOf s.live).count n + (List.range s'.accepted).count n)
    (hinFlight : s'.inFlight =
      (s'.beam.inFlight.length + s'.queue.flatten.length + s'.sender.held.length : ℕ))
    (hexported : s'.exported = s.exported + (exportedItems more).length)
    (hdropped : s'.dropped = s.dropped + (droppedItems more).length)
    (hsucceeded : ∀ batch, s.sender = .succeeded batch →
      batch ⊆ exportedItems more ∨ s'.sender = .succeeded batch)
    (hmore : ∀ event ∈ more, ∀ batch outcome, event ≠ .posted batch outcome) :
    Sound (events ++ more) s' := by
  refine ⟨List.perm_iff_count.mpr fun n => ?_, hinFlight, ?_, ?_,
    fun event hevent batch hposted => ?_, ?_⟩
  · have hn := hplaced n
    have hcount := h.placed.count_eq n
    simp only [exportedItems_append, droppedItems_append, idsOf_append, List.count_append]
      at hcount ⊢
    omega
  · rw [hexported, exportedItems_append, List.length_append, h.exported]
  · rw [hdropped, droppedItems_append, List.length_append, h.dropped]
  · rw [exportedItems_append]
    rcases List.mem_append.mp hevent with hevent | hevent
    · rcases h.posted event hevent batch hposted with hcounted | hsender
      · exact .inl (List.subset_append_of_subset_left _ hcounted)
      · exact (hsucceeded batch hsender).imp (List.subset_append_of_subset_right _) id
    · obtain ⟨outcome, -, rfl⟩ := hposted
      exact absurd rfl (hmore _ hevent batch outcome)
  · refine List.pairwise_append.mpr ⟨h.notResent, List.pairwise_of_forall_mem_list ?_, ?_⟩
    · intro event _ event' hevent' _ batch' outcome _ heq
      exact absurd heq (hmore event' hevent' batch' outcome)
    · intro event _ event' hevent' _ batch' outcome _ heq
      exact absurd heq (hmore event' hevent' batch' outcome)

variable {ε : Type} {d : BatchExport ε α}

theorem process {element : ε} (h : Sound events s)
    (hstep : d.perform s (.process element) = some (s', more)) : Sound (events ++ more) s' := by
  obtain ⟨batch, queue, inFlight, tally, recorded, beam, sender, accepted⟩ := s
  cases beam with
  | idle =>
    rcases hencode : d.encode element with _ | _ | value
    · simp [BatchExport.perform, hencode] at hstep
    · simp only [BatchExport.perform, hencode] at hstep
      obtain ⟨rfl, rfl⟩ := Prod.mk.inj (Option.some.inj hstep)
      rwa [List.append_nil]
    · simp only [BatchExport.perform, hencode] at hstep
      split_ifs at hstep
      · obtain ⟨rfl, rfl⟩ := Prod.mk.inj (Option.some.inj hstep)
        refine h.step (fun n => ?_) h.inFlight rfl rfl (fun _ heq => .inr heq) (by simp)
        simp [ExportState.live, List.range_succ, List.count_cons]
        omega
      · obtain ⟨rfl, rfl⟩ := Prod.mk.inj (Option.some.inj hstep)
        refine h.step (fun n => ?_) h.inFlight rfl rfl (fun _ heq => .inr heq) (by simp)
        simp [ExportState.live, List.range_succ, List.count_cons]
        omega
  | _ => simp [BatchExport.perform] at hstep

theorem finishBundle (h : Sound events s)
    (hstep : d.perform s .finishBundle = some (s', more)) : Sound (events ++ more) s' := by
  obtain ⟨batch, queue, inFlight, tally, recorded, beam, sender, accepted⟩ := s
  cases beam with
  | idle =>
    simp only [BatchExport.perform] at hstep
    split_ifs at hstep
    · obtain ⟨rfl, rfl⟩ := Prod.mk.inj (Option.some.inj hstep)
      exact h.step (fun n => by simp [ExportState.live]) h.inFlight rfl rfl (fun _ heq => .inr heq)
        (by simp)
    · obtain ⟨rfl, rfl⟩ := Prod.mk.inj (Option.some.inj hstep)
      exact h.step (fun n => by simp [ExportState.live]) h.inFlight rfl rfl (fun _ heq => .inr heq)
        (by simp)
  | _ => simp [BatchExport.perform] at hstep

theorem announce (h : Sound events s)
    (hstep : d.perform s .announce = some (s', more)) : Sound (events ++ more) s' := by
  have hinFlight := h.inFlight
  obtain ⟨batch, queue, inFlight, tally, recorded, beam, sender, accepted⟩ := s
  cases beam with
  | swapped flushing batch =>
    obtain ⟨rfl, rfl⟩ := Prod.mk.inj (Option.some.inj hstep)
    refine h.step (fun n => rfl) ?_ rfl rfl (fun _ heq => .inr heq) (by simp)
    simp at hinFlight ⊢
    omega
  | _ => simp [BatchExport.perform] at hstep

theorem putNowait (h : Sound events s)
    (hstep : d.perform s .putNowait = some (s', more)) : Sound (events ++ more) s' := by
  have hinFlight := h.inFlight
  obtain ⟨batch, queue, inFlight, tally, recorded, beam, sender, accepted⟩ := s
  cases beam with
  | announced flushing batch =>
    simp only [BatchExport.perform] at hstep
    split_ifs at hstep
    · obtain ⟨rfl, rfl⟩ := Prod.mk.inj (Option.some.inj hstep)
      exact h.step (fun n => rfl) hinFlight rfl rfl (fun _ heq => .inr heq) (by simp)
    · obtain ⟨rfl, rfl⟩ := Prod.mk.inj (Option.some.inj hstep)
      cases flushing with
      | _ =>
        refine h.step (fun n => ?_) ?_ rfl rfl (fun _ heq => .inr heq) (by simp)
        · simp [ExportState.live, afterEnqueue]
          omega
        · simp [afterEnqueue] at hinFlight ⊢
          omega
  | _ => simp [BatchExport.perform] at hstep

theorem countRefused (h : Sound events s)
    (hstep : d.perform s .countRefused = some (s', more)) : Sound (events ++ more) s' := by
  have hinFlight := h.inFlight
  obtain ⟨batch, queue, inFlight, tally, recorded, beam, sender, accepted⟩ := s
  cases beam with
  | refused flushing batch =>
    obtain ⟨rfl, rfl⟩ := Prod.mk.inj (Option.some.inj hstep)
    cases flushing with
    | _ =>
      refine h.step (fun n => ?_) ?_ ?_ ?_ (fun _ heq => .inr heq) (by simp)
      · simp [ExportState.live, afterEnqueue]
        omega
      · simp [afterEnqueue] at hinFlight ⊢
        omega
      · simp [ExportState.exported, afterEnqueue]
      · simp [ExportState.dropped, afterEnqueue]
        omega
  | _ => simp [BatchExport.perform] at hstep

theorem stopWaiting {timedOut : Bool} (h : Sound events s)
    (hstep : d.perform s (.stopWaiting timedOut) = some (s', more)) :
    Sound (events ++ more) s' := by
  obtain ⟨batch, queue, inFlight, tally, recorded, beam, sender, accepted⟩ := s
  cases beam with
  | waiting =>
    simp only [BatchExport.perform] at hstep
    split_ifs at hstep
    obtain ⟨rfl, rfl⟩ := Prod.mk.inj (Option.some.inj hstep)
    exact h.step (fun n => rfl) h.inFlight rfl rfl (fun _ heq => .inr heq) (by simp)
  | _ => simp [BatchExport.perform] at hstep

theorem getNowait (h : Sound events s)
    (hstep : d.perform s .getNowait = some (s', more)) : Sound (events ++ more) s' := by
  have hinFlight := h.inFlight
  obtain ⟨batch, queue, inFlight, tally, recorded, beam, sender, accepted⟩ := s
  cases beam with
  | draining =>
    cases queue with
    | nil =>
      obtain ⟨rfl, rfl⟩ := Prod.mk.inj (Option.some.inj hstep)
      refine h.step (fun n => rfl) hinFlight ?_ ?_ (fun _ heq => .inr heq) (by simp)
      · simp [ExportState.exported]
      · simp [ExportState.dropped]
    | cons first queue =>
      obtain ⟨rfl, rfl⟩ := Prod.mk.inj (Option.some.inj hstep)
      refine h.step (fun n => ?_) ?_ rfl rfl (fun _ heq => .inr heq) (by simp)
      · simp [ExportState.live]
      · simp at hinFlight ⊢
        omega
  | _ => simp [BatchExport.perform] at hstep

theorem countUndrained (h : Sound events s)
    (hstep : d.perform s .countUndrained = some (s', more)) : Sound (events ++ more) s' := by
  have hinFlight := h.inFlight
  obtain ⟨batch, queue, inFlight, tally, recorded, beam, sender, accepted⟩ := s
  cases beam with
  | dequeued batch =>
    obtain ⟨rfl, rfl⟩ := Prod.mk.inj (Option.some.inj hstep)
    refine h.step (fun n => ?_) ?_ ?_ ?_ (fun _ heq => .inr heq) (by simp)
    · simp [ExportState.live]
      omega
    · simp at hinFlight ⊢
      omega
    · simp [ExportState.exported]
    · simp [ExportState.dropped]
      omega
  | _ => simp [BatchExport.perform] at hstep

theorem record (h : Sound events s)
    (hstep : d.perform s .record = some (s', more)) : Sound (events ++ more) s' := by
  obtain ⟨batch, queue, inFlight, tally, recorded, beam, sender, accepted⟩ := s
  cases beam with
  | tallied counts =>
    obtain ⟨rfl, rfl⟩ := Prod.mk.inj (Option.some.inj hstep)
    exact h.step (fun n => rfl) h.inFlight rfl rfl (fun _ heq => .inr heq) (by simp)
  | _ => simp [BatchExport.perform] at hstep

theorem get (h : Sound events s)
    (hstep : d.perform s .get = some (s', more)) : Sound (events ++ more) s' := by
  have hinFlight := h.inFlight
  obtain ⟨batch, queue, inFlight, tally, recorded, beam, sender, accepted⟩ := s
  cases sender with
  | idle =>
    cases queue with
    | nil => simp [BatchExport.perform] at hstep
    | cons first queue =>
      obtain ⟨rfl, rfl⟩ := Prod.mk.inj (Option.some.inj hstep)
      refine h.step (fun n => ?_) ?_ rfl rfl (by simp) (by simp)
      · simp [ExportState.live]
        omega
      · simp at hinFlight ⊢
        omega
  | _ => simp [BatchExport.perform] at hstep

theorem countPost (h : Sound events s)
    (hstep : d.perform s .countPost = some (s', more)) : Sound (events ++ more) s' := by
  obtain ⟨batch, queue, inFlight, tally, recorded, beam, sender, accepted⟩ := s
  cases sender with
  | succeeded batch =>
    obtain ⟨rfl, rfl⟩ := Prod.mk.inj (Option.some.inj hstep)
    refine h.step (fun n => ?_) h.inFlight ?_ ?_ ?_ (by simp)
    · simp [ExportState.live]
      omega
    · simp [ExportState.exported]
      omega
    · simp [ExportState.dropped]
    · rintro _ ⟨⟩
      simp
  | failed batch retryable =>
    obtain ⟨rfl, rfl⟩ := Prod.mk.inj (Option.some.inj hstep)
    exact h.step (fun n => rfl) h.inFlight rfl rfl (by simp) (by simp)
  | _ => simp [BatchExport.perform] at hstep

theorem decide {timedOut : Bool} (h : Sound events s)
    (hstep : d.perform s (.decide timedOut) = some (s', more)) : Sound (events ++ more) s' := by
  obtain ⟨batch, queue, inFlight, tally, recorded, beam, sender, accepted⟩ := s
  cases sender with
  | retrying batch retryable =>
    simp only [BatchExport.perform] at hstep
    split_ifs at hstep
    · obtain ⟨rfl, rfl⟩ := Prod.mk.inj (Option.some.inj hstep)
      refine h.step (fun n => ?_) h.inFlight ?_ ?_ (by simp) (by simp)
      · simp [ExportState.live]
        omega
      · simp [ExportState.exported]
      · simp [ExportState.dropped]
        omega
    · obtain ⟨rfl, rfl⟩ := Prod.mk.inj (Option.some.inj hstep)
      exact h.step (fun n => rfl) h.inFlight rfl rfl (by simp) (by simp)
  | _ => simp [BatchExport.perform] at hstep

theorem settle (h : Sound events s)
    (hstep : d.perform s .settle = some (s', more)) : Sound (events ++ more) s' := by
  have hinFlight := h.inFlight
  obtain ⟨batch, queue, inFlight, tally, recorded, beam, sender, accepted⟩ := s
  cases sender with
  | settled batch =>
    obtain ⟨rfl, rfl⟩ := Prod.mk.inj (Option.some.inj hstep)
    refine h.step (fun n => rfl) ?_ rfl rfl (by simp) (by simp)
    simp at hinFlight ⊢
    omega
  | _ => simp [BatchExport.perform] at hstep

/-- What is posted now, nothing has posted with success: that is counted as exported, and the batch
is not. -/
theorem post {outcome : PostOutcome} (h : Sound events s)
    (hstep : d.perform s (.post outcome) = some (s', more)) : Sound (events ++ more) s' := by
  have hplaced := h.placed
  have hposted := h.posted
  obtain ⟨buffer, queue, inFlight, tally, recorded, beam, sender, accepted⟩ := s
  cases sender with
  | holding batch =>
    obtain ⟨rfl, rfl⟩ := Prod.mk.inj (Option.some.inj hstep)
    have hexported : exportedItems (events ++ [.posted batch outcome]) = exportedItems events := by
      rw [exportedItems_append]
      exact List.append_nil _
    have hdropped : droppedItems (events ++ [.posted batch outcome]) = droppedItems events := by
      rw [droppedItems_append]
      exact List.append_nil _
    have hold {event : ExportEvent α} {posted : List (Item α)} (hevent : event ∈ events)
        (hsucceeded : event.Succeeded posted) : posted ⊆ exportedItems events :=
      (hposted event hevent posted hsucceeded).resolve_right (by simp)
    refine ⟨?_, ?_, ?_, ?_, fun event hevent posted hsucceeded => ?_, ?_⟩
    · rw [hexported, hdropped]
      cases hsuccess : outcome.isSuccess <;> simpa [ExportState.live, hsuccess] using hplaced
    · cases hsuccess : outcome.isSuccess <;> simpa [hsuccess] using h.inFlight
    · rw [hexported]
      exact h.exported
    · rw [hdropped]
      exact h.dropped
    · rw [hexported]
      rcases List.mem_append.mp hevent with hevent | hevent
      · exact .inl (hold hevent hsucceeded)
      · obtain ⟨outcome', hsuccess, rfl⟩ := hsucceeded
        simp only [List.mem_singleton, ExportEvent.posted.injEq] at hevent
        obtain ⟨rfl, rfl⟩ := hevent
        exact .inr (by simp [hsuccess])
    · refine List.pairwise_append.mpr ⟨h.notResent, List.pairwise_singleton _ _, ?_⟩
      rintro event hevent event' hevent' posted batch' outcome' hsucceeded rfl
      simp only [List.mem_singleton, ExportEvent.posted.injEq] at hevent'
      rw [hevent'.1]
      have hnodup := hplaced.nodup_iff.mpr List.nodup_range
      rw [List.append_assoc, idsOf_append] at hnodup
      have hlive : idsOf batch ⊆ idsOf (ExportState.live ⟨buffer, queue, inFlight, tally, recorded,
          beam, .holding batch, accepted⟩) :=
        List.map_subset _ (List.subset_append_right _ _)
      have hcounted : idsOf posted ⊆ idsOf (exportedItems events ++ droppedItems events) :=
        List.map_subset _ (List.subset_append_of_subset_left _ (hold hevent hsucceeded))
      exact fun id hid hid' => List.disjoint_of_nodup_append hnodup (hlive hid') (hcounted hid)
  | _ => simp [BatchExport.perform] at hstep

/-- **Every step keeps the books.** -/
theorem perform {a : ExportAct ε} (h : Sound events s)
    (hstep : d.perform s a = some (s', more)) : Sound (events ++ more) s' := by
  cases a with
  | process element => exact h.process hstep
  | finishBundle => exact h.finishBundle hstep
  | announce => exact h.announce hstep
  | putNowait => exact h.putNowait hstep
  | countRefused => exact h.countRefused hstep
  | stopWaiting timedOut => exact h.stopWaiting hstep
  | getNowait => exact h.getNowait hstep
  | countUndrained => exact h.countUndrained hstep
  | record => exact h.record hstep
  | get => exact h.get hstep
  | post outcome => exact h.post hstep
  | countPost => exact h.countPost hstep
  | decide timedOut => exact h.decide hstep
  | settle => exact h.settle hstep

/-- The books of an exporter that has been set up. -/
theorem initial : Sound ([] : List (ExportEvent α)) {} where
  placed := .refl _
  inFlight := rfl
  exported := rfl
  dropped := rfl
  posted := by simp
  notResent := .nil

end BatchExport.Sound

/-- **Every run keeps the books.** -/
theorem BatchExport.run_sound {ε : Type} {d : BatchExport ε α} {as : List (ExportAct ε)}
    (h : d.machine.Run {} as events s) : Sound events s :=
  h.invariant (I := fun _ events s => Sound events s) Sound.initial fun _ hsound hstep =>
    hsound.perform hstep

/-- Every element is in one place, or counted. -/
theorem BatchExport.Sound.accepted_eq (h : Sound events s) :
    s.accepted = s.batch.length + s.beam.inHand.length + s.queue.flatten.length +
      s.sender.uncounted.length + s.exported + s.dropped := by
  have hlength := h.placed.length_eq
  rw [idsOf, List.length_map, List.length_append, List.length_append, ← h.exported, ← h.dropped,
    List.length_range] at hlength
  simp only [ExportState.live, List.length_append] at hlength
  omega

end Lemmas

/-! ### The two exporters -/

/-- `_OtlpExportDoFn`: spans of trace events. -/
def otlpExportDoFn (batchSize : ℕ := 512) (queueBatches : Int := 8) :
    BatchExport TraceEventMessage OtlpSpan where
  encode := eventToSpan
  batchSize
  queueBatches

/-- The outputs that a console sink can be at. -/
inductive RecordKind
  | traces
  | errors
  | snapshots
  deriving DecidableEq, Repr

/-- What a console sink may find on its input. -/
inductive ConsoleElement
  | traceEvent (event : TraceEventMessage)
  | activationError (error : ActivationError)
  | activationErrorRecord (record : ActivationErrorRecordMessage)
  | stateSnapshot (snapshot : StateSnapshot)
  | other

/-- The record of a dead letter; none when its time is out of range. -/
def ActivationError.toRecord (error : ActivationError) : Option ActivationErrorRecordMessage := do
  let eventTimeMs ← int64Of error.eventTimeMs
  return {
    entityKey := error.entityKey, reason := error.reason, detail := error.detail, eventTimeMs }

/-- `_encode_element`, over the serializer of snapshots; none when it raises. -/
def encodeElement (serializeSnapshot : StateSnapshot → Bytes) :
    RecordKind → ConsoleElement → Option Bytes
  | .traces, .traceEvent event => some event.serialize
  | .errors, .activationError error => error.toRecord.map fun record => record.serialize
  | .errors, .activationErrorRecord record => some record.serialize
  | .snapshots, .stateSnapshot snapshot => some (serializeSnapshot snapshot)
  | _, _ => none

/-- `_ConsoleExportDoFn`: serialized records of one kind. -/
def consoleExportDoFn (serializeSnapshot : StateSnapshot → Bytes)
    (recordKind : RecordKind := .traces)
    (batchSize : ℕ := 256) (queueBatches : Int := 8) : BatchExport ConsoleElement Bytes where
  encode element := (encodeElement serializeSnapshot recordKind element).map some
  batchSize
  queueBatches

/-- What is conserved in every run of an exporter. -/
structure BatchExport.Conserved {α : Type} (events : List (ExportEvent α)) (s : ExportState α) :
    Prop where
  accepted : s.accepted = s.batch.length + s.beam.inHand.length + s.queue.flatten.length +
    s.sender.uncounted.length + s.exported + s.dropped
  counted : s.exported = (exportedItems events).length ∧ s.dropped = (droppedItems events).length
  once : (idsOf (exportedItems events ++ droppedItems events)).Nodup
  notResent : NotResent events
  inFlight : s.inFlight =
    (s.beam.inFlight.length + s.queue.flatten.length + s.sender.held.length : ℕ)
  nonneg : 0 ≤ s.inFlight

theorem BatchExport.Sound.conserved {α : Type} {events : List (ExportEvent α)} {s : ExportState α}
    (h : Sound events s) : Conserved events s where
  accepted := h.accepted_eq
  counted := ⟨h.exported, h.dropped⟩
  once := by
    have hnodup := h.placed.nodup_iff.mpr List.nodup_range
    rw [List.append_assoc, idsOf_append] at hnodup
    exact hnodup.of_append_right
  notResent := h.notResent
  inFlight := h.inFlight
  nonneg := by
    rw [h.inFlight]
    exact Int.natCast_nonneg _

/-- **No element is lost.** At every point of every run of either exporter the elements accepted are
those buffered, in the hand of the Beam thread, queued, held by the sender and not counted yet,
counted as exported and counted as dropped; none is counted twice, or posted again after a success;
and the count of those in flight is that of the elements announced or taken from the queue by the
Beam thread, queued, and held by the sender. -/
theorem exporters_conserve :
    (∀ batchSize queueBatches as events s,
      (otlpExportDoFn batchSize queueBatches).machine.Run {} as events s →
        BatchExport.Conserved events s) ∧
    ∀ serializeSnapshot recordKind batchSize queueBatches as events s,
      (consoleExportDoFn serializeSnapshot recordKind batchSize queueBatches).machine.Run {} as
        events s → BatchExport.Conserved events s :=
  ⟨fun _ _ _ _ _ h => (BatchExport.run_sound h).conserved,
    fun _ _ _ _ _ _ _ h => (BatchExport.run_sound h).conserved⟩

/-- The second of two errors is refused by a queue of one batch, and the first is exported. -/
theorem exporters_conserve_full :
    (∃ as events s, (consoleExportDoFn (fun _ => []) .errors 1 1).machine.Run {} as events s ∧
      s.exported = 1 ∧ s.dropped = 1 ∧ s.inFlight = 0 ∧ BatchExport.Conserved events s) ∧
    ∃ as events s, (otlpExportDoFn 1 1).machine.Run {} as events s ∧ as ≠ [] ∧
      BatchExport.Conserved events s := by
  have hconsole : (consoleExportDoFn (fun _ => []) .errors 1 1).machine.Run {}
      [.process (.activationErrorRecord {}), .announce, .putNowait,
        .process (.activationErrorRecord {}), .announce, .putNowait, .countRefused,
        .finishBundle, .get, .post .transportError, .countPost, .decide false,
        .post (.response 200), .countPost, .settle, .stopWaiting false, .getNowait, .record] _ _ :=
    .of_exec (f := (consoleExportDoFn (fun _ => []) .errors 1 1).perform) (fun _ _ h => h) rfl
  have hotlp :
      (otlpExportDoFn 1 1).machine.Run {} [.process { eventType := 1 }, .finishBundle] _ _ :=
    .of_exec (f := (otlpExportDoFn 1 1).perform) (fun _ _ h => h) rfl
  exact ⟨⟨_, _, _, hconsole, rfl, rfl, rfl, exporters_conserve.2 _ _ _ _ _ _ _ hconsole⟩,
    ⟨_, _, _, hotlp, by simp, exporters_conserve.1 _ _ _ _ _ hotlp⟩⟩

/-- Between the buffer and the queue a batch is in the hand of the Beam thread only, and there it is
in flight before it is queued. -/
theorem batch_in_hand :
    (∃ as events s, (consoleExportDoFn (fun _ => []) .errors 1 1).machine.Run {} as events s ∧
      s.accepted = 1 ∧ s.batch.length + s.queue.flatten.length + s.sender.held.length + s.exported +
        s.dropped = 0) ∧
    ∃ as events s, (consoleExportDoFn (fun _ => []) .errors 1 1).machine.Run {} as events s ∧
      s.inFlight = 1 ∧ s.queue.flatten.length + s.sender.held.length = 0 :=
  ⟨⟨[.process (.activationErrorRecord {})], _, _,
      .of_exec (f := (consoleExportDoFn (fun _ => []) .errors 1 1).perform) (fun _ _ h => h) rfl,
      rfl, rfl⟩,
    ⟨[.process (.activationErrorRecord {}), .announce], _, _,
      .of_exec (f := (consoleExportDoFn (fun _ => []) .errors 1 1).perform) (fun _ _ h => h) rfl,
      rfl, rfl⟩⟩

end BeamAgents
