import BeamAgents.Memory.Reserved
import BeamAgents.Wire.JsonObject

/-!
# Sessions in working memory

The ADK adapter keeps the session of an entity under one reserved key of working memory
(`adapters/adk/session.py`). Every activation creates the session of the entity, which finds the
one that was committed, and appends the events of its run; the history is cut to the newest events
as it grows. What the framework does with an event, and its models as JSON values, are parameters.

## Main definitions

* `BeamSessionService` with `createSession`, `getSession`, `deleteSession` and `appendEvent`.
* `BeamSessionService.machine`: the activations of an entity over its working memory.

## Main results

* `BeamSessionService.run_history`: the session holds the newest events of all activations since it
  was last deleted.
-/

namespace BeamAgents

open Containers Wire Transition

/-! ### The newest elements of a list -/

/-- The newest `n` elements. -/
def newest {ε : Type} (n : ℕ) (l : List ε) : List ε := l.drop (l.length - n)

/-- Cutting as the list grows is cutting at the end. -/
theorem newest_append {ε : Type} (n : ℕ) (l added : List ε) :
    newest n (newest n l ++ added) = newest n (l ++ added) := by
  unfold newest
  rcases Nat.le_total l.length n with hle | hle
  · rw [Nat.sub_eq_zero_of_le hle, List.drop_zero]
  · have hcut : (l ++ added).length - n = (l.length - n) + added.length := by
      rw [List.length_append]
      omega
    have hkept : (l.drop (l.length - n) ++ added).length - n = added.length := by
      rw [List.length_append, List.length_drop]
      omega
    rw [hcut, hkept, ← List.drop_drop, List.drop_append_of_le_length (Nat.sub_le _ _)]

/-! ### The service -/

/-- `Session`. -/
structure AdkSession (σ ε : Type) where
  id : String
  appName : String
  userId : String
  state : σ
  events : List ε := []
  /-- `last_update_time`, in milliseconds. -/
  lastUpdateMs : Int

/-- `GetSessionConfig`: which events are recent enough, and how many are wanted. -/
structure GetSessionConfig (ε : Type) where
  afterTimestamp : Option (ε → Bool) := none
  numRecentEvents : Option Int := none

/-- `BeamSessionService`, and what it uses of the framework. -/
structure BeamSessionService (σ ε : Type) where
  maxEvents : Option Int := none
  /-- `Session.model_dump`, without the fields that are `None`. -/
  modelDump : AdkSession σ ε → Json.Value
  /-- `Session.model_validate`. -/
  modelValidate : Json.Value → Except PyExn (AdkSession σ ε)
  /-- The `JSONDecodeError` of a text. -/
  decodeError : Bytes → PyExn
  /-- The empty `state`. -/
  emptyState : σ
  /-- The state after the `state_delta` of an event, in `BaseSessionService.append_event`. -/
  applyDelta : σ → ε → σ
  /-- `event.partial`. -/
  isChunk : ε → Bool
  valid_dump : ∀ session, (modelDump session).sorted.Valid
  validate_dump : ∀ session, modelValidate (modelDump session).sorted = .ok session

namespace BeamSessionService

variable {σ ε : Type} (svc : BeamSessionService σ ε) (py : PyLib) (compactor : Option Compactor)

/-- `_matches`. -/
def sessionMatches (session : AdkSession σ ε) (appName userId sessionId : String) : Bool :=
  session.appName = appName && session.userId = userId && session.id = sessionId

/-- `_load`. -/
def load (m : Memory) : Memory × Except PyExn (Option (AdkSession σ ε)) :=
  match m.get py adkSessionKey with
  | (m, .error e) => (m, .error e)
  | (m, .ok none) => (m, .ok none)
  | (m, .ok (some raw)) =>
    match Json.loads raw with
    | none => (m, .error (svc.decodeError raw))
    | some value => (m, (svc.modelValidate value).map some)

/-- `_persist`. -/
def persist (m : Memory) (session : AdkSession σ ε) : Memory × Option PyExn :=
  m.set py compactor adkSessionKey
    (Json.dumpsSorted { ensureAscii := false } (svc.modelDump session))

/-- The session that `create_session` stores where it finds none. -/
def freshSession (nowMs : Int) (appName userId sessionId : String) (state : Option σ) :
    AdkSession σ ε where
  id := sessionId
  appName := appName
  userId := userId
  state := state.getD svc.emptyState
  lastUpdateMs := nowMs

/-- The id of a session: a missing or an empty one stands for the user's. -/
def resolvedId (userId : String) (sessionId : Option String) : String :=
  match sessionId with
  | none => userId
  | some id => if id = "" then userId else id

/-- `create_session`. -/
def createSession (nowMs : Int) (m : Memory) (appName userId : String) (state : Option σ)
    (sessionId : Option String) : Memory × Except PyExn (AdkSession σ ε) :=
  let sessionId := resolvedId userId sessionId
  let fresh (m : Memory) : Memory × Except PyExn (AdkSession σ ε) :=
    let session := svc.freshSession nowMs appName userId sessionId state
    match svc.persist py compactor m session with
    | (m, some e) => (m, .error e)
    | (m, none) => (m, .ok session)
  match svc.load py m with
  | (m, .error e) => (m, .error e)
  | (m, .ok none) => fresh m
  | (m, .ok (some existing)) =>
    if sessionMatches existing appName userId sessionId then (m, .ok existing) else fresh m

/-- The events that a configuration asks for. -/
def selected (config : GetSessionConfig ε) (events : List ε) : List ε :=
  let events := match config.afterTimestamp with
    | none => events
    | some recent => events.filter recent
  match config.numRecentEvents with
  | none => events
  | some n => newest n.toNat events

/-- `get_session`. -/
def getSession (m : Memory) (appName userId sessionId : String)
    (config : GetSessionConfig ε := {}) : Memory × Except PyExn (Option (AdkSession σ ε)) :=
  match svc.load py m with
  | (m, .error e) => (m, .error e)
  | (m, .ok none) => (m, .ok none)
  | (m, .ok (some session)) =>
    if sessionMatches session appName userId sessionId then
      (m, .ok (some { session with events := selected config session.events }))
    else (m, .ok none)

/-- `delete_session`. -/
def deleteSession (m : Memory) (appName userId sessionId : String) : Memory × Option PyExn :=
  match svc.load py m with
  | (m, .error e) => (m, some e)
  | (m, .ok none) => (m, none)
  | (m, .ok (some session)) =>
    if sessionMatches session appName userId sessionId then (m.delete adkSessionKey, none)
    else (m, none)

/-- The session of a run of the framework, which the runner creates where it finds none. -/
def openSession (nowMs : Int) (m : Memory) (appName userId : String) :
    Memory × Except PyExn (AdkSession σ ε) :=
  match svc.getSession py m appName userId userId with
  | (m, .error e) => (m, .error e)
  | (m, .ok none) => svc.createSession py compactor nowMs m appName userId none (some userId)
  | (m, .ok (some session)) => (m, .ok session)

/-- The history as it is kept: the newest `max_events`. -/
def window (events : List ε) : List ε :=
  match svc.maxEvents with
  | none => events
  | some n => newest n.toNat events

/-- `append_event`: the session that the caller holds changes, and is stored. A chunk of a streamed
answer changes nothing. -/
def appendEvent (nowMs : Int) (m : Memory) (session : AdkSession σ ε) (event : ε) :
    Memory × AdkSession σ ε × Option PyExn :=
  if svc.isChunk event then (m, session, none)
  else
    let session := { session with
      state := svc.applyDelta session.state event
      events := svc.window (session.events ++ [event])
      lastUpdateMs := nowMs }
    let (m, raised) := svc.persist py compactor m session
    (m, session, raised)

/-- The events of a run, appended one after the other. -/
def appendEvents (nowMs : Int) : Memory → AdkSession σ ε → List ε →
    Memory × AdkSession σ ε × Option PyExn
  | m, session, [] => (m, session, none)
  | m, session, event :: events =>
    match svc.appendEvent py compactor nowMs m session event with
    | (m, session, some e) => (m, session, some e)
    | (m, session, none) => appendEvents nowMs m session events

/-! ### What is stored -/

/-- The value under the key of the session. -/
def storedValue (m : Memory) : Option Bytes := (m.entries.get? adkSessionKey).map MemEntry.value

/-- The memory holds a session. -/
def Holds (m : Memory) (session : AdkSession σ ε) : Prop :=
  ∃ raw value, storedValue m = some (encodeScalar raw) ∧ Json.loads raw = some value ∧
    svc.modelValidate value = .ok session

/-- The compactor leaves the session alone, as the adapter asks for. -/
def SparesSession (compactor : Option Compactor) : Prop :=
  ∀ compact ∈ compactor, ∀ m m', compact m = (m', none) → storedValue m' = storedValue m

variable {svc py compactor} {m m' : Memory} {session existing : AdkSession σ ε} {nowMs : Int}
  {appName userId : String} {events : List ε}

theorem storedValue_touch {key : String} {entry : MemEntry} (h : m.entries.get? key = some entry) :
    storedValue (m.touch key entry) = storedValue m := by
  simp only [storedValue, Memory.touch, Dict.get?_set, Dict.get?_erase]
  split_ifs with hkey
  · rw [hkey, h]
    rfl
  · rfl

theorem storedValue_maybeSoftCap (hspares : SparesSession compactor)
    (h : m.maybeSoftCap compactor = (m', none)) : storedValue m' = storedValue m := by
  unfold Memory.maybeSoftCap at h
  split_ifs at h
  · cases h
    rfl
  · cases hcompactor : compactor with
    | none =>
      rw [hcompactor] at h
      cases h
      rfl
    | some compact =>
      rw [hcompactor] at h
      exact hspares compact hcompactor { m with softCapWarned := true } m' h

theorem storedValue_finishWrite (hspares : SparesSession compactor) {encoded : Bytes}
    (h : m.finishWrite compactor adkSessionKey encoded = (m', none)) :
    storedValue m' = some encoded := by
  rw [storedValue_maybeSoftCap hspares h, storedValue, Memory.commitEntry, Dict.get?_set_self]
  rfl

/-- A write that is admitted is stored. -/
theorem storedValue_set (hspares : SparesSession compactor) {value : Bytes}
    (h : m.set py compactor adkSessionKey value = (m', none)) :
    storedValue m' = some (encodeScalar value) := by
  unfold Memory.set Memory.guardedWrite at h
  dsimp only at h
  split_ifs at h
  · exact storedValue_finishWrite hspares h
  · split at h
    · cases h
    · split at h
      · cases h
      · split_ifs at h
        · exact storedValue_finishWrite hspares h
        · cases h

theorem storedValue_delete (m : Memory) : storedValue (m.delete adkSessionKey) = none := by
  cases hentry : m.entries.get? adkSessionKey with
  | none => simp only [storedValue, Memory.delete, hentry, Option.map_none]
  | some entry =>
    simp only [storedValue, Memory.delete, hentry, Dict.get?_erase, if_true, Option.map_none]

theorem persist_holds (hspares : SparesSession compactor)
    (h : svc.persist py compactor m session = (m', none)) : svc.Holds m' session :=
  ⟨_, _, storedValue_set hspares h, Json.loads_dumps _ (svc.valid_dump session),
    svc.validate_dump session⟩

theorem Holds.congr (h : svc.Holds m session) (hstored : storedValue m' = storedValue m) :
    svc.Holds m' session := by
  obtain ⟨raw, value, hraw, hloads, hvalidate⟩ := h
  exact ⟨raw, value, hstored.trans hraw, hloads, hvalidate⟩

/-- **A stored session is found.** -/
theorem Holds.load (py : PyLib) (h : svc.Holds m session) :
    ∃ m', svc.load py m = (m', .ok (some session)) ∧ storedValue m' = storedValue m := by
  obtain ⟨raw, value, hraw, hloads, hvalidate⟩ := h
  obtain ⟨entry, hentry, hvalue⟩ := Option.map_eq_some_iff.mp hraw
  have hget : m.get py adkSessionKey = (m.touch adkSessionKey entry, .ok (some raw)) := by
    simp only [Memory.get, hentry, Memory.checkKind, hvalue, encodeScalar]
    rfl
  refine ⟨m.touch adkSessionKey entry, ?_, storedValue_touch hentry⟩
  rw [BeamSessionService.load, hget]
  simp only [hloads, hvalidate]
  rfl

theorem load_of_none (h : storedValue m = none) : svc.load py m = (m, .ok none) := by
  have hget : m.entries.get? adkSessionKey = none := Option.map_eq_none_iff.mp h
  simp only [load, Memory.get, hget]

/-! ### One activation -/

/-- The events that count: chunks of a streamed answer do not. -/
def whole (svc : BeamSessionService σ ε) (events : List ε) : List ε :=
  events.filter fun event => !svc.isChunk event

theorem window_nil : svc.window [] = [] := by
  unfold window
  split
  · rfl
  · exact List.drop_nil

theorem window_append (svc : BeamSessionService σ ε) (events added : List ε) :
    svc.window (svc.window events ++ added) = svc.window (events ++ added) := by
  unfold window
  split
  · rfl
  · exact newest_append _ events added

/-- A history that was cut is not cut again. -/
theorem window_window (svc : BeamSessionService σ ε) (events : List ε) :
    svc.window (svc.window events) = svc.window events := by
  have hcut := svc.window_append events []
  rwa [List.append_nil, List.append_nil] at hcut

/-- A session that is not there yet is created and stored. -/
theorem createSession_of_none (hspares : SparesSession compactor) (h : storedValue m = none)
    {state : Option σ} {sessionId : Option String}
    (hcreate : svc.createSession py compactor nowMs m appName userId state sessionId =
      (m', .ok session)) :
    svc.Holds m' session ∧
      session = svc.freshSession nowMs appName userId (resolvedId userId sessionId) state := by
  simp only [createSession, load_of_none h] at hcreate
  split at hcreate
  · cases hcreate
  · rename_i hpersist
    cases hcreate
    exact ⟨persist_holds hspares hpersist, rfl⟩

theorem resolvedId_self : resolvedId userId (some userId) = userId := by
  simp [resolvedId]

/-- The session that is found or created at the start of a run. -/
theorem openSession_of_none (hspares : SparesSession compactor) (h : storedValue m = none)
    (hopen : svc.openSession py compactor nowMs m appName userId = (m', .ok session)) :
    svc.Holds m' session ∧ session = svc.freshSession nowMs appName userId userId none := by
  simp only [openSession, getSession, load_of_none h] at hopen
  have hcreated := createSession_of_none hspares h hopen
  rwa [resolvedId_self] at hcreated

theorem openSession_of_holds (py : PyLib) (compactor : Option Compactor) (nowMs : Int)
    (h : svc.Holds m existing) (hsession : sessionMatches existing appName userId userId = true) :
    ∃ m', svc.openSession py compactor nowMs m appName userId = (m', .ok existing) ∧
      storedValue m' = storedValue m := by
  obtain ⟨m', hload, hstored⟩ := h.load py
  refine ⟨m', ?_, hstored⟩
  simp only [openSession, getSession, hload, hsession, if_true]
  rfl

/-- The history after the events of a run. -/
theorem appendEvents_holds (hspares : SparesSession compactor) (h : svc.Holds m existing)
    (hwindow : svc.window existing.events = existing.events)
    (happend : svc.appendEvents py compactor nowMs m existing events = (m', session, none)) :
    svc.Holds m' session ∧
      session.events = svc.window (existing.events ++ svc.whole events) ∧
      ∀ appName userId sessionId, sessionMatches session appName userId sessionId =
        sessionMatches existing appName userId sessionId := by
  induction events generalizing m existing with
  | nil =>
    cases happend
    refine ⟨h, ?_, fun _ _ _ => rfl⟩
    rw [whole, List.filter_nil, List.append_nil, hwindow]
  | cons event events ih =>
    rw [appendEvents] at happend
    unfold appendEvent at happend
    split_ifs at happend with hchunk
    · have hwhole : svc.whole (event :: events) = svc.whole events := by simp [whole, hchunk]
      rw [hwhole]
      exact ih h hwindow happend
    · dsimp only at happend
      have hwhole : svc.whole (event :: events) = event :: svc.whole events := by
        simp [whole, hchunk]
      split at happend
      · cases happend
      · rename_i m₁ appended hstep
        obtain ⟨hmemory, happended⟩ := Prod.mk.inj hstep
        obtain ⟨rfl, hraised⟩ := Prod.mk.inj happended
        have hholds := persist_holds hspares (Prod.ext hmemory hraised)
        obtain ⟨hend, hevents, hsame⟩ := ih hholds (svc.window_window _) happend
        refine ⟨hend, ?_, hsame⟩
        rw [hevents, hwhole]
        dsimp only
        rw [window_append, List.append_assoc, List.singleton_append]

/-- A session is deleted, whether it is there or not. -/
theorem storedValue_deleteSession
    (h : storedValue m = none ∨ ∃ session, svc.Holds m session ∧
      sessionMatches session appName userId userId = true)
    (hdelete : svc.deleteSession py m appName userId userId = (m', none)) :
    storedValue m' = none := by
  rcases h with hnone | ⟨session, hholds, hmatches⟩
  · simp only [deleteSession, load_of_none hnone] at hdelete
    cases hdelete
    exact hnone
  · obtain ⟨m₁, hload, -⟩ := hholds.load py
    simp only [deleteSession, hload, hmatches, if_true] at hdelete
    cases hdelete
    exact storedValue_delete m₁

/-! ### All activations -/

/-- What happens to the memory of an entity: an activation creates the session and appends the
events of its run; the session is deleted; the other entries change; the memory is committed, and
loaded again. -/
inductive SessionAct (ε : Type)
  | converse (nowMs : Int) (events : List ε)
  | delete
  | others (m : Memory)
  | commit (nowMs : Int) (version : ℕ)

/-- What an act does, where nothing raises. -/
def Step (svc : BeamSessionService σ ε) (py : PyLib) (compactor : Option Compactor)
    (appName userId : String) (m m' : Memory) : SessionAct ε → Prop
  | .converse nowMs events => ∃ m₁ existing session,
      svc.openSession py compactor nowMs m appName userId = (m₁, .ok existing) ∧
      svc.appendEvents py compactor nowMs m₁ existing events = (m', session, none)
  | .delete => svc.deleteSession py m appName userId userId = (m', none)
  | .others m₁ => m' = m₁ ∧ storedValue m₁ = storedValue m
  | .commit nowMs version => m' = Memory.ofBlob (some (m.toBlob version)) nowMs

/-- The memory of an entity under its activations. -/
def machine (svc : BeamSessionService σ ε) (py : PyLib) (compactor : Option Compactor)
    (appName userId : String) : Machine Memory (SessionAct ε) Unit where
  step m act m' os := svc.Step py compactor appName userId m m' act ∧ os = []

/-- The events that count, with those of one more act. -/
def hear (svc : BeamSessionService σ ε) (said : Option (List ε)) :
    SessionAct ε → Option (List ε)
  | .converse _ events => some (said.getD [] ++ svc.whole events)
  | .delete => none
  | _ => said

/-- The events that count since the session was last deleted, if there was an activation since. -/
def said (svc : BeamSessionService σ ε) (acts : List (SessionAct ε)) : Option (List ε) :=
  acts.foldl svc.hear none

/-- The memory holds what was said. -/
def Remembers (svc : BeamSessionService σ ε) (appName userId : String) (m : Memory) :
    Option (List ε) → Prop
  | none => storedValue m = none
  | some events => ∃ session, svc.Holds m session ∧
      sessionMatches session appName userId userId = true ∧
      session.events = svc.window events

theorem storedValue_ofBlob (version : ℕ) :
    storedValue (Memory.ofBlob (some (m.toBlob version)) nowMs) = storedValue m := by
  rw [storedValue, (Memory.ofBlob_toBlob m version nowMs).1, storedValue]

theorem sessionMatches_fresh {sessionId : String} {state : Option σ} :
    sessionMatches (svc.freshSession nowMs appName userId sessionId state) appName userId
      sessionId = true := by
  simp [sessionMatches, freshSession]

variable {words : Option (List ε)} {act : SessionAct ε}

theorem Remembers.congr (h : svc.Remembers appName userId m words)
    (hstored : storedValue m' = storedValue m) : svc.Remembers appName userId m' words := by
  cases words with
  | none => exact hstored.trans h
  | some events =>
    obtain ⟨session, hholds, hmatches, hevents⟩ := h
    exact ⟨session, hholds.congr hstored, hmatches, hevents⟩

/-- Whether the session is created or found, it holds what was said so far. -/
theorem Remembers.openSession (hspares : SparesSession compactor)
    (h : svc.Remembers appName userId m words)
    (hopen : svc.openSession py compactor nowMs m appName userId = (m', .ok existing)) :
    svc.Holds m' existing ∧ sessionMatches existing appName userId userId = true ∧
      existing.events = svc.window (words.getD []) := by
  cases words with
  | none =>
    obtain ⟨hholds, rfl⟩ := openSession_of_none hspares h hopen
    exact ⟨hholds, sessionMatches_fresh, window_nil.symm⟩
  | some events =>
    obtain ⟨found, hholds, hmatches, hevents⟩ := h
    obtain ⟨m₁, hfinds, hstored⟩ := openSession_of_holds py compactor nowMs hholds hmatches
    obtain ⟨rfl, hfound⟩ := Prod.mk.inj (hfinds.symm.trans hopen)
    cases hfound
    exact ⟨hholds.congr hstored, hmatches, hevents⟩

theorem Remembers.step (hspares : SparesSession compactor)
    (h : svc.Remembers appName userId m words)
    (hstep : svc.Step py compactor appName userId m m' act) :
    svc.Remembers appName userId m' (svc.hear words act) := by
  cases act with
  | others m₁ =>
    obtain ⟨rfl, hstored⟩ := hstep
    exact h.congr hstored
  | commit nowMs version =>
    obtain rfl := hstep
    exact h.congr (storedValue_ofBlob version)
  | delete =>
    refine storedValue_deleteSession ?_ hstep
    cases words with
    | none => exact .inl h
    | some events =>
      obtain ⟨session, hholds, hmatches, -⟩ := h
      exact .inr ⟨session, hholds, hmatches⟩
  | converse nowMs events =>
    obtain ⟨m₁, existing, session, hopen, happend⟩ := hstep
    obtain ⟨hholds, hmatches, hevents⟩ := h.openSession hspares hopen
    have hwindow : svc.window existing.events = existing.events := by
      rw [hevents, window_window]
    obtain ⟨hend, hhistory, hsame⟩ := appendEvents_holds hspares hholds hwindow happend
    refine ⟨session, hend, (hsame _ _ _).trans hmatches, ?_⟩
    rw [hhistory, hevents, window_append]

/-- **A conversation is remembered.** However the activations of an entity, deletions of its
session, changes of its other entries and commits of its memory follow on one another, the service
finds a session exactly when there was an activation since the last deletion, and that session holds
the newest `max_events` events of all activations since, in order. -/
theorem run_history (hspares : SparesSession compactor) {acts : List (SessionAct ε)}
    {os : List Unit} {m₀ : Memory} (h₀ : storedValue m₀ = none)
    (hrun : (svc.machine py compactor appName userId).Run m₀ acts os m) :
    ∃ m' found, svc.getSession py m appName userId userId = (m', .ok found) ∧
      found.map AdkSession.events = (svc.said acts).map svc.window := by
  have hremembers : svc.Remembers appName userId m (svc.said acts) := by
    refine hrun.invariant (I := fun acts _ m => svc.Remembers appName userId m (svc.said acts))
      h₀ fun {acts _ _ act _ _} _ hremembers hstep => ?_
    have hheard : svc.said (acts ++ [act]) = svc.hear (svc.said acts) act := by
      rw [said, List.foldl_concat, said]
    rw [hheard]
    exact hremembers.step hspares hstep.1
  cases hsaid : svc.said acts with
  | none =>
    rw [hsaid] at hremembers
    refine ⟨m, none, ?_, rfl⟩
    simp only [getSession, load_of_none hremembers]
  | some events =>
    rw [hsaid] at hremembers
    obtain ⟨session, hholds, hmatches, hevents⟩ := hremembers
    obtain ⟨m', hload, -⟩ := hholds.load py
    refine ⟨m', some session, ?_, congrArg some hevents⟩
    simp only [getSession, hload, hmatches, if_true]
    rfl

/-! ### A conversation -/

/-- The digits of milliseconds behind a point, without the zeros at their end. -/
def millis (n : ℕ) : List Char :=
  let digits := [Nat.digitChar (n / 100 % 10), Nat.digitChar (n / 10 % 10), Nat.digitChar (n % 10)]
  if n % 100 = 0 then digits.take 1 else if n % 10 = 0 then digits.take 2 else digits

/-- The milliseconds that digits behind a point stand for. -/
def readMillis (fraction : List Char) : ℕ :=
  Nat.ofDigitChars 10 ((fraction ++ ['0', '0']).take 3) 0

theorem millis_digits (n : ℕ) : ∀ c ∈ millis n, c.isDigit = true := by
  have hdigit (m : ℕ) : (Nat.digitChar (m % 10)).isDigit = true := by
    have hall : ∀ m : Fin 10, (Nat.digitChar m).isDigit = true := by decide
    exact hall ⟨m % 10, Nat.mod_lt _ (by decide)⟩
  unfold millis
  dsimp only
  split_ifs <;> simp [hdigit]

theorem readMillis_millis {n : ℕ} (h : n < 1000) : readMillis (millis n) = n := by
  have hall : ∀ n : Fin 1000, readMillis (millis n) = n := by decide +kernel
  exact hall ⟨n, h⟩

/-- `ms / 1000.0` as it is written. -/
def secondsOf (ms : Int) : Json.Decimal where
  negative := ms < 0
  whole := ms.natAbs / 1000
  fraction := millis (ms.natAbs % 1000)
  exponent := []
  digits := millis_digits _
  scaled := rfl
  noInteger := .inl (by unfold millis; dsimp only; split_ifs <;> simp)

/-- Milliseconds from seconds. -/
def millisOf (d : Json.Decimal) : Int :=
  (if d.negative then -1 else 1) * (d.whole * 1000 + readMillis d.fraction : ℕ)

theorem millisOf_secondsOf (ms : Int) : millisOf (secondsOf ms) = ms := by
  have hmillis : readMillis (millis (ms.natAbs % 1000)) = ms.natAbs % 1000 :=
    readMillis_millis (Nat.mod_lt _ (by decide))
  simp only [millisOf, secondsOf, hmillis, decide_eq_true_eq]
  split_ifs <;> omega

/-- An event: what was said, and when. -/
structure Saying where
  text : String
  timestampMs : Int := 0
  deriving DecidableEq, Repr

/-- A field of a session without state whose events are sayings. -/
inductive TextField
  | scalar (a : Json.Scalar)
  | sayings (l : List Saying)
  | noState

/-- An event as a value. -/
def Saying.value (saying : Saying) : Json.Value :=
  .object [("text", .text saying.text), ("timestamp", .decimal (secondsOf saying.timestampMs))]

/-- An event from its value. -/
def Saying.ofValue : Json.Value → Option Saying
  | .object [("text", .text text), ("timestamp", .decimal d)] => some ⟨text, millisOf d⟩
  | _ => none

theorem Saying.ofValue_value (saying : Saying) : ofValue saying.value = some saying := by
  show some (Saying.mk saying.text (millisOf (secondsOf saying.timestampMs))) = _
  rw [millisOf_secondsOf]

theorem Saying.sorted_value (saying : Saying) : saying.value.sorted = saying.value := by
  simp [value, Json.Value.sorted, Json.sortedMembers, show "text" ≤ "timestamp" by decide +kernel]

namespace TextField

/-- The value of a field. -/
def value : TextField → Json.Value
  | .scalar a => a.value
  | .sayings l => .array (l.map Saying.value)
  | .noState => .object []

theorem mapM_sayings (l : List Saying) : (l.map Saying.value).mapM Saying.ofValue = some l := by
  induction l with
  | nil => rfl
  | cons saying l ih => simp [List.mapM_cons, Saying.ofValue_value, ih]

theorem sorted_value (field : TextField) : field.value.sorted = field.value := by
  cases field with
  | scalar a => exact Json.Scalar.sorted_value a
  | noState => rfl
  | sayings l =>
    have hsayings : Json.sortedItems (l.map Saying.value) = l.map Saying.value := by
      induction l with
      | nil => rfl
      | cons saying l ih => rw [List.map_cons, Json.sortedItems, ih, Saying.sorted_value]
    show Json.Value.array (Json.sortedItems _) = _
    rw [hsayings]
    rfl

theorem valid_value (field : TextField) : field.value.Valid := by
  cases field with
  | scalar a => cases a <;> trivial
  | noState => exact ⟨List.Pairwise.nil, trivial⟩
  | sayings l =>
    show Json.ValidItems (l.map Saying.value)
    induction l with
    | nil => trivial
    | cons saying l ih => exact ⟨⟨by simp, trivial, trivial, trivial⟩, ih⟩

end TextField

/-- The fields of a session, under the names they are stored under. -/
def textFields (session : AdkSession Unit Saying) : SortedMap String TextField where
  entries := [("app_name", .scalar (.text session.appName)), ("events", .sayings session.events),
    ("id", .scalar (.text session.id)),
    ("last_update_time", .scalar (.decimal (secondsOf session.lastUpdateMs))),
    ("state", .noState), ("user_id", .scalar (.text session.userId))]
  sorted := by
    simp only [List.pairwise_cons, List.forall_mem_cons, List.not_mem_nil, IsEmpty.forall_iff,
      implies_true, List.Pairwise.nil, and_true]
    decide +kernel

/-- A `ValidationError`. -/
def validationError : PyExn where
  typeName := "ValidationError"
  repr := "ValidationError(1 validation error for Session)"

/-- A session from its value. -/
def validateText : Json.Value → Except PyExn (AdkSession Unit Saying)
  | .object [("app_name", .text appName), ("events", .array items), ("id", .text id),
      ("last_update_time", .decimal d), ("state", .object []), ("user_id", .text userId)] =>
    match items.mapM Saying.ofValue with
    | none => .error validationError
    | some events =>
      .ok { id, appName, userId, state := (), events, lastUpdateMs := millisOf d }
  | _ => .error validationError

/-- A service that keeps the two newest events. -/
def textService : BeamSessionService Unit Saying where
  maxEvents := some 2
  modelDump session := Json.ofMap TextField.value (textFields session)
  modelValidate := validateText
  decodeError _ := { typeName := "JSONDecodeError", repr := "JSONDecodeError()" }
  emptyState := ()
  applyDelta _ _ := ()
  isChunk event := event.text = "…"
  valid_dump _ := (Json.valid_ofMap TextField.valid_value _).sorted
  validate_dump session := by
    rw [Json.sorted_ofMap TextField.sorted_value]
    have hread : validateText (Json.ofMap TextField.value (textFields session)) =
        match (session.events.map Saying.value).mapM Saying.ofValue with
        | none => .error validationError
        | some events => .ok { session with
            state := (), events, lastUpdateMs := millisOf (secondsOf session.lastUpdateMs) } := rfl
    rw [hread, TextField.mapM_sayings, millisOf_secondsOf]

/-- The session of a desk as its first activation opens it. -/
def deskOpened : Memory × Except PyExn (AdkSession Unit Saying) :=
  textService.openSession Memory.quotingPy none 1250 (Memory.ofBlob none 0) "desk" "ada"

/-- What is said in the conversation; one event is a chunk. -/
def deskSayings : List Saying := [⟨"hello", 1000⟩, ⟨"…", 1100⟩, ⟨"when", 1100⟩, ⟨"today", 1205⟩]

/-- The desk after the conversation. -/
def deskSpoken : Memory × AdkSession Unit Saying × Option PyExn :=
  textService.appendEvents Memory.quotingPy none 1250 deskOpened.1
    (textService.freshSession 1250 "desk" "ada" "ada" none) deskSayings

theorem run_history_sample :
    ∃ m found, textService.getSession Memory.quotingPy deskSpoken.1 "desk" "ada" "ada" =
        (m, .ok found) ∧
      found.map AdkSession.events = some [⟨"when", 1100⟩, ⟨"today", 1205⟩] := by
  have hspares : SparesSession none := fun _ h => by cases h
  have h₀ : storedValue (Memory.ofBlob none 0) = none := rfl
  have hopened : deskOpened.2.isOk = true := by decide +kernel
  have hfresh : deskOpened = (deskOpened.1,
      .ok (textService.freshSession 1250 "desk" "ada" "ada" none)) := by
    refine Prod.ext rfl ?_
    cases hcase : deskOpened.2 with
    | error e =>
      rw [hcase] at hopened
      cases hopened
    | ok session =>
      have hopen : deskOpened = (deskOpened.1, .ok session) := Prod.ext rfl hcase
      obtain ⟨-, rfl⟩ := openSession_of_none hspares h₀ hopen
      rfl
  have happend : deskSpoken = (deskSpoken.1, deskSpoken.2.1, none) := by
    have hspoken : deskSpoken.2.2 = none := by decide +kernel
    rw [← hspoken]
  have hrun : (textService.machine Memory.quotingPy none "desk" "ada").Run (Memory.ofBlob none 0)
      [.converse 1250 deskSayings] [] deskSpoken.1 :=
    .single ⟨⟨_, _, _, hfresh, happend⟩, rfl⟩
  exact run_history hspares h₀ hrun

end BeamSessionService

end BeamAgents
