import BeamAgents.Transition.Machine
import Mathlib.Data.List.Basic
import Mathlib.Algebra.GroupWithZero.Nat

/-!
# The live feed

`console/_sse.py`: what is published goes to the bounded mailbox of a subscriber, or is counted as
dropped when the mailbox is full; the reader takes from the mailbox, first of all the count of what
was dropped, and sleeps on a flag when there is nothing to take. Publishers and the reader hold one
lock while they touch the mailbox. A publisher on the loop of the reader sets the flag itself, one
on another thread asks the loop to set it, which the loop does later; a loop that is closed does
nothing any more.

The mailboxes of different subscribers have nothing in common, so that one of them is modelled, from
its subscription on; `publish_batch` publishes several events under one hold of the lock.

## Main definitions

* `LiveEvent`, `Frame`, `Subscriber`, `Broadcaster`.
* `Feed`, `FeedAct`, `Feed.perform`, `Feed.machine`.
* `Feed.Sound`: the invariant.

## Main results

* `Feed.Sound.perform`: every action keeps the invariant.
* `Broadcaster.feed_sound`: in every run nothing is lost unannounced, and no reader sleeps on mail.
-/

namespace BeamAgents

open Transition

/-- One notification that the store changed. -/
structure LiveEvent where
  kind : String
  entityKey : String := ""
  seq : Option Int := none
  traceId : String := ""
  count : ℕ := 1
  deriving DecidableEq, Repr

/-- What a subscriber is sent: an event that was published, or the marker that it missed some. -/
inductive Frame
  | event (e : LiveEvent)
  | lagged (count : ℕ)
  deriving DecidableEq, Repr

/-- The event of a frame: `KIND_LAGGED` with its count for the marker. -/
def Frame.toLiveEvent : Frame → LiveEvent
  | .event e => e
  | .lagged count => { kind := "lagged", count }

/-- The published event of a frame, if it is one. -/
def Frame.event? : Frame → Option LiveEvent
  | .event e => some e
  | .lagged _ => none

/-- How many events a frame reports as dropped. -/
def Frame.missed : Frame → ℕ
  | .event _ => 0
  | .lagged count => count

/-- `_Subscriber`; `wakeup` is the flag of the event. -/
structure Subscriber where
  depth : ℕ
  queue : List LiveEvent := []
  dropped : ℕ := 0
  wakeup : Bool := false
  deriving DecidableEq, Repr

/-- `Broadcaster`, with the depth that its constructor checks. -/
structure Broadcaster where
  queueDepth : ℕ := 256
  queueDepth_pos : 1 ≤ queueDepth := by decide

/-- The thread that publishes: the one that runs the loop of the reader, or another. -/
inductive Publisher
  | onLoop
  | elsewhere
  deriving DecidableEq, Repr

/-- Where `_drain` is: it is going to take, it waits for the flag, or it has ended. -/
inductive DrainPhase
  | taking
  | waiting
  | ended
  deriving DecidableEq, Repr

/-- A subscriber with its reader, and the calls of `wakeup.set` that its loop has not run yet. -/
structure Feed where
  subscriber : Subscriber
  registered : Bool := true
  phase : DrainPhase := .taking
  pendingWakes : ℕ := 0
  loopClosed : Bool := false
  deriving DecidableEq, Repr

/-- `subscribe`. -/
def Broadcaster.subscribe (b : Broadcaster) : Feed := { subscriber := { depth := b.queueDepth } }

namespace Feed

/-! ### Publishers -/

/-- `_wake`; a loop that is closed refuses the call, and the refusal is suppressed. -/
def wake (thread : Publisher) (s : Feed) : Feed :=
  match thread with
  | .onLoop => { s with subscriber := { s.subscriber with wakeup := true } }
  | .elsewhere => if s.loopClosed then s else { s with pendingWakes := s.pendingWakes + 1 }

/-- `_offer`. -/
def offer (thread : Publisher) (s : Feed) (e : LiveEvent) : Feed :=
  if s.subscriber.queue.length ≥ s.subscriber.depth then
    { s with subscriber := { s.subscriber with dropped := s.subscriber.dropped + 1 } }
  else wake thread { s with subscriber := { s.subscriber with queue := s.subscriber.queue ++ [e] } }

/-- `_fan_out`, for this subscriber. -/
def fanOut (thread : Publisher) (s : Feed) (events : List LiveEvent) : Feed :=
  if s.registered then events.foldl (offer thread) s else s

/-! ### The reader -/

/-- `_take`. -/
def take (s : Subscriber) : Subscriber × Option Frame :=
  if s.dropped ≠ 0 then ({ s with dropped := 0 }, some (.lagged s.dropped))
  else
    match s.queue with
    | e :: queue => ({ s with queue }, some (.event e))
    | [] => ({ s with wakeup := false }, none)

/-- `_release`. -/
def release (s : Feed) : Feed :=
  { s with
    registered := false
    phase := .ended
    subscriber := { s.subscriber with queue := [] } }

/-- What happens: a fan-out, a scheduled call of `wakeup.set`, a turn of the reader under the lock,
the end of its wait, the end of the stream, and the end of the loop. -/
inductive FeedAct
  | publish (thread : Publisher) (events : List LiveEvent)
  | runWake
  | take
  | resume
  | release
  | closeLoop
  deriving DecidableEq, Repr

/-- What an action does, and the frames that the reader yields; none if it cannot happen. Code on
the loop runs while the loop is open. -/
def perform (s : Feed) : FeedAct → Option (Feed × List Frame)
  | .publish thread events =>
    if thread = .onLoop ∧ s.loopClosed then none else some (s.fanOut thread events, [])
  | .runWake =>
    if s.loopClosed ∨ s.pendingWakes = 0 then none
    else some ({ s with
      pendingWakes := s.pendingWakes - 1
      subscriber := { s.subscriber with wakeup := true } }, [])
  | .take =>
    if s.loopClosed ∨ s.phase ≠ .taking then none
    else
      match take s.subscriber with
      | (subscriber, some frame) => some ({ s with subscriber }, [frame])
      | (subscriber, none) => some ({ s with subscriber, phase := .waiting }, [])
  | .resume =>
    if s.loopClosed ∨ s.phase ≠ .waiting ∨ s.subscriber.wakeup = false then none
    else some ({ s with phase := .taking }, [])
  | .release => some (s.release, [])
  | .closeLoop => some ({ s with loopClosed := true }, [])

/-- A subscriber as a machine. -/
def machine : Machine Feed FeedAct Frame where
  step s a s' frames := s.perform a = some (s', frames)

/-- The events that actions publish. -/
def published (acts : List FeedAct) : List LiveEvent :=
  acts.flatMap fun
    | .publish _ events => events
    | _ => []

/-- The published events among the frames that were delivered. -/
def eventsOf (frames : List Frame) : List LiveEvent := frames.filterMap Frame.event?

/-- The sum of the counts of the markers that were delivered. -/
def missedOf (frames : List Frame) : ℕ := (frames.map Frame.missed).sum

/-! ### The invariant -/

/-- There is something to take. -/
def HasMail (s : Feed) : Prop := s.subscriber.queue ≠ [] ∨ s.subscriber.dropped ≠ 0

/-- The books of a subscriber, where `offered` are the events offered to it so far. -/
structure Sound (depth : ℕ) (offered : List LiveEvent) (frames : List Frame) (s : Feed) : Prop where
  depth_eq : s.subscriber.depth = depth
  ordered : (eventsOf frames ++ s.subscriber.queue).Sublist offered
  conserved : s.registered = true → offered.length =
    (eventsOf frames).length + s.subscriber.queue.length + s.subscriber.dropped + missedOf frames
  bounded : s.subscriber.queue.length ≤ depth
  awake : s.phase = .waiting → s.loopClosed = false → s.HasMail →
    s.subscriber.wakeup = true ∨ 0 < s.pendingWakes

variable {depth : ℕ} {offered : List LiveEvent} {frames : List Frame} {s : Feed}
  {thread : Publisher}

theorem eventsOf_append (frames more : List Frame) :
    eventsOf (frames ++ more) = eventsOf frames ++ eventsOf more := List.filterMap_append

theorem missedOf_append (frames more : List Frame) :
    missedOf (frames ++ more) = missedOf frames + missedOf more := by
  simp [missedOf]

theorem published_append (acts more : List FeedAct) :
    published (acts ++ more) = published acts ++ published more := List.flatMap_append

/-- A wake-up touches neither the mailbox nor the reader. -/
theorem wake_frame (thread : Publisher) (s : Feed) :
    (wake thread s).subscriber.depth = s.subscriber.depth ∧
      (wake thread s).subscriber.queue = s.subscriber.queue ∧
      (wake thread s).subscriber.dropped = s.subscriber.dropped ∧
      (wake thread s).registered = s.registered ∧ (wake thread s).phase = s.phase ∧
      (wake thread s).loopClosed = s.loopClosed := by
  cases thread with
  | onLoop => exact ⟨rfl, rfl, rfl, rfl, rfl, rfl⟩
  | elsewhere =>
    rw [wake]
    split_ifs <;> exact ⟨rfl, rfl, rfl, rfl, rfl, rfl⟩

/-- After a wake-up on an open loop the flag is set or about to be. -/
theorem wake_awake (thread : Publisher) {s : Feed} (hopen : s.loopClosed = false) :
    (wake thread s).subscriber.wakeup = true ∨ 0 < (wake thread s).pendingWakes := by
  cases thread with
  | onLoop => exact .inl rfl
  | elsewhere =>
    right
    simp [wake, hopen]

namespace Sound

/-- A full mailbox keeps its events, and the reader has been woken for them. -/
theorem offer (hdepth : 1 ≤ depth) (h : Sound depth offered frames s) (e : LiveEvent) :
    Sound depth (offered ++ [e]) frames (offer thread s e) := by
  rw [Feed.offer]
  split_ifs with hfull
  · refine ⟨h.depth_eq, h.ordered.trans (List.sublist_append_left _ _), fun hregistered => ?_,
      h.bounded, fun hphase hopen _ => ?_⟩
    · have hcount := h.conserved hregistered
      rw [List.length_append, List.length_singleton, hcount]
      dsimp only
      omega
    · refine h.awake hphase hopen (.inl fun hnil => ?_)
      rw [h.depth_eq, hnil, List.length_nil] at hfull
      omega
  · obtain ⟨hdepth_eq, hqueue, hdropped, hregistered, hphase, hclosed⟩ := wake_frame thread
      { s with subscriber := { s.subscriber with queue := s.subscriber.queue ++ [e] } }
    dsimp only at hdepth_eq hqueue hdropped hregistered hclosed
    refine ⟨hdepth_eq.trans h.depth_eq, ?_, fun hin => ?_, ?_, fun _ hopen _ => ?_⟩
    · rw [hqueue, ← List.append_assoc]
      exact h.ordered.append (List.Sublist.refl _)
    · have hcount := h.conserved (hregistered ▸ hin)
      rw [hqueue, hdropped, List.length_append, List.length_append, List.length_singleton, hcount]
      omega
    · rw [hqueue, List.length_append, List.length_singleton]
      have hdepth' := h.depth_eq
      omega
    · exact wake_awake thread (hclosed ▸ hopen)

/-- Events that are offered one after another. -/
theorem offers (hdepth : 1 ≤ depth) (h : Sound depth offered frames s) (events : List LiveEvent) :
    Sound depth (offered ++ events) frames (events.foldl (Feed.offer thread) s) := by
  induction events generalizing offered s with
  | nil => simpa using h
  | cons e events ih =>
    have hoffer : Sound depth (offered ++ [e]) frames (Feed.offer thread s e) := h.offer hdepth e
    have hrest := ih hoffer
    rwa [List.append_assoc, List.singleton_append] at hrest

/-- A fan-out. -/
theorem fanOut (hdepth : 1 ≤ depth) (h : Sound depth offered frames s) (events : List LiveEvent) :
    Sound depth (offered ++ events) frames (s.fanOut thread events) := by
  rw [Feed.fanOut]
  split_ifs with hin
  · exact h.offers hdepth events
  · exact ⟨h.depth_eq, h.ordered.trans (List.sublist_append_left _ _),
      fun hregistered => absurd hregistered hin, h.bounded, h.awake⟩

/-- A turn of the reader: the marker first, then the oldest event; with neither the flag is
cleared. -/
theorem take (h : Sound depth offered frames s) {s' : Feed} {more : List Frame}
    (hstep : s.perform .take = some (s', more)) :
    Sound depth offered (frames ++ more) s' := by
  unfold Feed.perform at hstep
  dsimp only at hstep
  split_ifs at hstep with hphase
  obtain ⟨-, htaking⟩ := not_or.mp hphase
  rw [not_not] at htaking
  have hawake {t : Feed} (ht : t.phase = s.phase) (hwaiting : t.phase = .waiting) : False := by
    rw [ht, htaking] at hwaiting
    cases hwaiting
  rw [Feed.take] at hstep
  by_cases hdropped : s.subscriber.dropped = 0
  · rw [if_neg (not_not.mpr hdropped)] at hstep
    cases hqueue : s.subscriber.queue with
    | nil =>
      rw [hqueue] at hstep
      obtain ⟨rfl, rfl⟩ := Prod.mk.inj (Option.some.inj hstep)
      obtain ⟨hdepth, hordered, hconserved, hbounded, -⟩ := h
      rw [hqueue] at hordered hconserved hbounded
      rw [List.append_nil]
      refine ⟨hdepth, hordered, hconserved, hbounded, fun _ _ hmail => ?_⟩
      rcases hmail with hmail | hmail
      · exact absurd rfl hmail
      · exact absurd hdropped hmail
    | cons e queue =>
      rw [hqueue] at hstep
      obtain ⟨rfl, rfl⟩ := Prod.mk.inj (Option.some.inj hstep)
      have hordered := h.ordered
      have hbounded := h.bounded
      rw [hqueue] at hordered hbounded
      refine ⟨h.depth_eq, ?_, fun hin => ?_, ?_, fun hwaiting => (hawake rfl hwaiting).elim⟩
      · rw [eventsOf_append, List.append_assoc]
        exact hordered
      · have hcount := h.conserved hin
        rw [hqueue, List.length_cons] at hcount
        have hevents : (eventsOf [Frame.event e]).length = 1 := rfl
        have hmissed : missedOf [Frame.event e] = 0 := rfl
        rw [eventsOf_append, missedOf_append, List.length_append, hevents, hmissed]
        dsimp only
        omega
      · rw [List.length_cons] at hbounded
        dsimp only
        omega
  · rw [if_pos hdropped] at hstep
    obtain ⟨rfl, rfl⟩ := Prod.mk.inj (Option.some.inj hstep)
    have hevents : eventsOf [Frame.lagged s.subscriber.dropped] = [] := rfl
    refine ⟨h.depth_eq, ?_, fun hin => ?_, h.bounded, fun hwaiting => (hawake rfl hwaiting).elim⟩
    · rw [eventsOf_append, hevents, List.append_nil]
      exact h.ordered
    · have hcount := h.conserved hin
      have hmissed : missedOf [Frame.lagged s.subscriber.dropped] = s.subscriber.dropped := by
        simp [missedOf, Frame.missed]
      rw [eventsOf_append, missedOf_append, hevents, hmissed, List.append_nil]
      dsimp only
      omega

/-- **Every action keeps the invariant.** -/
theorem perform (hdepth : 1 ≤ depth) (h : Sound depth offered frames s) {a : FeedAct} {s' : Feed}
    {more : List Frame} (hstep : s.perform a = some (s', more)) :
    Sound depth (offered ++ published [a]) (frames ++ more) s' := by
  cases a with
  | publish thread events =>
    unfold Feed.perform at hstep
    dsimp only at hstep
    split_ifs at hstep
    obtain ⟨rfl, rfl⟩ := Prod.mk.inj (Option.some.inj hstep)
    simpa [published] using h.fanOut hdepth events
  | runWake =>
    unfold Feed.perform at hstep
    dsimp only at hstep
    split_ifs at hstep
    obtain ⟨rfl, rfl⟩ := Prod.mk.inj (Option.some.inj hstep)
    simp only [published, List.flatMap_cons, List.flatMap_nil, List.append_nil]
    exact ⟨h.depth_eq, h.ordered, h.conserved, h.bounded, fun _ _ _ => .inl rfl⟩
  | take => simpa [published] using h.take hstep
  | resume =>
    unfold Feed.perform at hstep
    dsimp only at hstep
    split_ifs at hstep
    obtain ⟨rfl, rfl⟩ := Prod.mk.inj (Option.some.inj hstep)
    simp only [published, List.flatMap_cons, List.flatMap_nil, List.append_nil]
    exact ⟨h.depth_eq, h.ordered, h.conserved, h.bounded, fun hwaiting => by cases hwaiting⟩
  | release =>
    obtain ⟨rfl, rfl⟩ := Prod.mk.inj (Option.some.inj hstep)
    simp only [published, List.flatMap_cons, List.flatMap_nil, List.append_nil]
    refine ⟨h.depth_eq, ?_, fun hin => (by cases hin), Nat.zero_le _,
      fun hwaiting => (by cases hwaiting)⟩
    change (eventsOf frames ++ []).Sublist offered
    rw [List.append_nil]
    exact (List.sublist_append_left _ _).trans h.ordered
  | closeLoop =>
    obtain ⟨rfl, rfl⟩ := Prod.mk.inj (Option.some.inj hstep)
    simp only [published, List.flatMap_cons, List.flatMap_nil, List.append_nil]
    exact ⟨h.depth_eq, h.ordered, h.conserved, h.bounded, fun _ hopen => by cases hopen⟩

end Sound

end Feed

open Feed

/-- What holds of a new subscriber. -/
theorem Broadcaster.subscribe_sound (b : Broadcaster) : Sound b.queueDepth [] [] b.subscribe :=
  ⟨rfl, List.Sublist.refl _, fun _ => rfl, Nat.zero_le _, fun hwaiting => by cases hwaiting⟩

/-- **The live feed.** In every run from a subscription, whatever publishes on whatever thread and
whenever the loop runs the wake-ups that it was asked for: the events delivered are a subsequence of
those published; while the subscriber is registered, what was published is delivered, in the
mailbox, dropped and not yet reported, or counted by a marker that was delivered; the mailbox is no
longer than its depth; and as long as the loop is open, a reader that waits with its flag clear and
no wake-up pending has nothing to take. -/
theorem Broadcaster.feed_sound (b : Broadcaster) {acts : List FeedAct} {frames : List Frame}
    {s : Feed} (h : machine.Run b.subscribe acts frames s) :
    (eventsOf frames).Sublist (published acts) ∧
      (s.registered = true → (published acts).length = (eventsOf frames).length +
        s.subscriber.queue.length + s.subscriber.dropped + missedOf frames) ∧
      s.subscriber.queue.length ≤ b.queueDepth ∧
      (s.loopClosed = false → s.phase = .waiting → s.subscriber.wakeup = false →
        s.pendingWakes = 0 → s.subscriber.queue = [] ∧ s.subscriber.dropped = 0) := by
  have hsound : Sound b.queueDepth (published acts) frames s := by
    refine h.invariant (I := fun acts frames s => Sound b.queueDepth (published acts) frames s)
      b.subscribe_sound fun _ hsound hstep => ?_
    rw [published_append]
    exact hsound.perform b.queueDepth_pos hstep
  refine ⟨(List.sublist_append_left _ _).trans hsound.ordered, hsound.conserved, hsound.bounded,
    fun hopen hwaiting hclear hnone => ?_⟩
  by_contra hmail
  have hawake := hsound.awake hwaiting hopen (not_and_or.mp hmail)
  rw [hclear, hnone] at hawake
  simp at hawake

/-- What happens to a mailbox of one place: of three events two are dropped, the reader is told so,
takes the one, and sleeps. -/
def laggingActs : List FeedAct :=
  [.publish .elsewhere [{ kind := "trace" }, { kind := "error" }, { kind := "trace" }], .runWake,
    .take, .take, .take]

/-- The mailbox of one place, after that. -/
theorem Broadcaster.feed_sound_lagging :
    (eventsOf [.lagged 2, .event { kind := "trace" }]).Sublist (published laggingActs) ∧
      (published laggingActs).length = 1 + 0 + 0 + 2 := by
  have hrun : machine.Run (Broadcaster.mk 1).subscribe laggingActs
      [.lagged 2, .event { kind := "trace" }]
      { subscriber := { depth := 1 }, phase := .waiting } :=
    Machine.Run.of_exec (f := perform) (fun _ _ h => h) rfl
  obtain ⟨hordered, hconserved, -⟩ := (Broadcaster.mk 1).feed_sound hrun
  exact ⟨hordered, hconserved rfl⟩

end BeamAgents
