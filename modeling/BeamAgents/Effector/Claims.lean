import BeamAgents.Effector.Dedup
import BeamAgents.Lease.Protocol
import BeamAgents.Transition.Machine

/-!
# The claim protocol of the dedup store

`InMemoryDedupStore` of `effector/dedup.py` as it keeps its records: a tag, the bytes of a token or
of a result, and an expiry. Its methods are those on decoded records, up to what a result reads as
once it has been written. Any callers, with any tokens, ids and results, call them in any order
under a clock that never goes back and that each method may read twice. The store then answers like
a table that never forgets a record, and the histories of its answers are lawful.

## Main definitions

* `Codec`, `StoredRecord`, `DedupRecords` with `live`, `claim`, `complete`, `release`.
* `DedupCall`, `storeMachine`: the runs of a store under a clock.
* `answer`: what a table that never forgets answers.
* `ClaimProtocol`: the laws.

## Main results

* `run_claimProtocol`.
-/

namespace BeamAgents

open Lease Transition

/-! ### Records as bytes -/

/-- What the bytes of a record are made with: the serialisation of a result, its parser, and the
text of a token. -/
structure Codec where
  /-- `result.SerializeToString(deterministic=True)`. -/
  serialize : ToolResult → Bytes
  /-- `ToolResult.ParseFromString`. -/
  parse : Bytes → ToolResult
  /-- `token.encode()`. -/
  encodeToken : ℕ → Bytes
  encodeToken_injective : Function.Injective encodeToken

/-- `_TAG_CLAIM`. -/
def tagClaim : Bytes := [67]

/-- `_TAG_DONE`. -/
def tagDone : Bytes := [68]

/-- `_DONE_NO_RESULT`. -/
def doneNoResult : Bytes := []

namespace Codec

variable (c : Codec)

/-- `_encode_done`. -/
def encodeDone (result : Option ToolResult) : Bytes :=
  tagDone ++
    match result with
    | none => doneNoResult
    | some result => c.serialize result

/-- `_decode_done`. -/
def decodeDone (payload : Bytes) : Option ToolResult :=
  if payload = doneNoResult then none else some (c.parse payload)

/-- What a result reads as once it has been written. -/
def reads (result : Option ToolResult) : Option ToolResult :=
  c.decodeDone ((c.encodeDone result).drop tagDone.length)

/-- A result that is not serialised to nothing reads as what it parses back to, and an approval's
absent result as absent. -/
theorem reads_eq {result : Option ToolResult}
    (h : ∀ r ∈ result, c.serialize r ≠ [] ∧ c.parse (c.serialize r) = r) :
    c.reads result = result := by
  cases result with
  | none => rfl
  | some r =>
    obtain ⟨hne, hparse⟩ := h r rfl
    simp [reads, encodeDone, decodeDone, tagDone, doneNoResult, hne, hparse]

end Codec

/-- `_Record`. -/
structure StoredRecord where
  tag : Bytes
  payload : Bytes
  expiresAtMs : Int
  deriving DecidableEq, Repr

/-- `InMemoryDedupStore._records`. -/
abbrev DedupRecords := String → Option StoredRecord

namespace DedupRecords

variable (c : Codec) (records : DedupRecords) (now now' : Int) (intentId : String)

/-- `_live`. -/
def live : DedupRecords × Option StoredRecord :=
  match records intentId with
  | none => (records, none)
  | some record =>
    if record.expiresAtMs ≤ now then (Function.update records intentId none, none)
    else (records, some record)

/-- `claim`. The clock is read at `now` and, for the lease, at `now'`. -/
def claim (leaseMs : Int) (token : ℕ) : DedupRecords × ClaimOutcome :=
  match live records now intentId with
  | (records, some record) =>
    if record.tag = tagDone then (records, .done (c.decodeDone record.payload))
    else (records, .inFlight)
  | (records, none) =>
    (Function.update records intentId
      (some ⟨tagClaim, c.encodeToken token, now' + leaseMs⟩), .claimed token)

/-- `complete`. The clock is read at `now` and, for the retention, at `now'`. -/
def complete (token : ℕ) (result : Option ToolResult) (ttlMs : Int) : DedupRecords × Bool :=
  match live records now intentId with
  | (records, none) => (records, false)
  | (records, some record) =>
    if record.tag ≠ tagClaim ∨ record.payload ≠ c.encodeToken token then (records, false)
    else
      (Function.update records intentId
        (some ⟨tagDone, (c.encodeDone result).drop tagDone.length, now' + ttlMs⟩), true)

/-- `release`. -/
def release (token : ℕ) : DedupRecords × Bool :=
  match live records now intentId with
  | (records, none) => (records, false)
  | (records, some record) =>
    if record.tag ≠ tagClaim ∨ record.payload ≠ c.encodeToken token then (records, false)
    else (Function.update records intentId none, true)

end DedupRecords

/-! ### The records are those of the decoded store -/

/-- The bytes of a record. -/
def encodeRecord (c : Codec) : DedupRecord → StoredRecord
  | .held token expiresAt => ⟨tagClaim, c.encodeToken token, expiresAt⟩
  | .done result expiresAt => ⟨tagDone, (c.encodeDone result).drop tagDone.length, expiresAt⟩

/-- The bytes of a store. -/
def encodeRecords (c : Codec) (s : InMemoryDedupStore) : DedupRecords :=
  Option.map (encodeRecord c) ∘ s

/-- An outcome with its result as it reads. -/
def ClaimOutcome.read (c : Codec) : ClaimOutcome → ClaimOutcome
  | .done result => .done (c.reads result)
  | outcome => outcome

section Encode

variable {c : Codec} {s : InMemoryDedupStore} {now now' : Int} {intentId : String} {token : ℕ}

theorem encodeRecords_update (entry : Option DedupRecord) :
    encodeRecords c (Function.update s intentId entry) =
      Function.update (encodeRecords c s) intentId (entry.map (encodeRecord c)) :=
  Function.comp_update ..

@[simp] theorem expiresAtMs_encodeRecord (entry : DedupRecord) :
    (encodeRecord c entry).expiresAtMs = entry.expiresAt := by
  cases entry <;> rfl

theorem live_encode :
    DedupRecords.live (encodeRecords c s) now intentId =
      (encodeRecords c (InMemoryDedupStore.live s now intentId).1,
        (InMemoryDedupStore.live s now intentId).2.map (encodeRecord c)) := by
  cases h : s intentId with
  | none => simp [DedupRecords.live, InMemoryDedupStore.live, encodeRecords, h]
  | some entry =>
    have hencoded : encodeRecords c s intentId = some (encodeRecord c entry) := by
      simp [encodeRecords, h]
    simp only [DedupRecords.live, InMemoryDedupStore.live, hencoded, h, expiresAtMs_encodeRecord]
    split_ifs
    · rw [encodeRecords_update]
      rfl
    · rfl

/-- The owner of a claim is told by the bytes of its token. -/
theorem claim_tag_iff (token' : ℕ) (expiresAt : Int) :
    ((encodeRecord c (.held token' expiresAt)).tag ≠ tagClaim ∨
      (encodeRecord c (.held token' expiresAt)).payload ≠ c.encodeToken token) ↔
        token' ≠ token := by
  simp [encodeRecord, c.encodeToken_injective.eq_iff]

theorem claim_encode (leaseMs : Int) :
    DedupRecords.claim c (encodeRecords c s) now now' intentId leaseMs token =
      (encodeRecords c (InMemoryDedupStore.claim s now intentId (now' - now + leaseMs) token).1,
        (InMemoryDedupStore.claim s now intentId (now' - now + leaseMs) token).2.read c) := by
  simp only [DedupRecords.claim, InMemoryDedupStore.claim, live_encode]
  rcases InMemoryDedupStore.live s now intentId with ⟨s', _ | (_ | _)⟩
  · have hexpiry : now + (now' - now + leaseMs) = now' + leaseMs := by omega
    simp only [Option.map_none, encodeRecords_update, hexpiry]
    rfl
  · rfl
  · rfl

theorem complete_encode (result : Option ToolResult) (ttlMs : Int) :
    DedupRecords.complete c (encodeRecords c s) now now' intentId token result ttlMs =
      (encodeRecords c
          (InMemoryDedupStore.complete s now intentId token result (now' - now + ttlMs)).1,
        (InMemoryDedupStore.complete s now intentId token result (now' - now + ttlMs)).2) := by
  simp only [DedupRecords.complete, InMemoryDedupStore.complete, live_encode]
  rcases InMemoryDedupStore.live s now intentId with ⟨s', _ | (⟨token', e⟩ | _)⟩
  · rfl
  · have hexpiry : now + (now' - now + ttlMs) = now' + ttlMs := by omega
    simp only [Option.map_some, claim_tag_iff, ne_eq, ite_not]
    split_ifs
    · rw [encodeRecords_update, hexpiry]
      rfl
    · rfl
  · rfl

theorem release_encode :
    DedupRecords.release c (encodeRecords c s) now intentId token =
      (encodeRecords c (InMemoryDedupStore.release s now intentId token).1,
        (InMemoryDedupStore.release s now intentId token).2) := by
  simp only [DedupRecords.release, InMemoryDedupStore.release, live_encode]
  rcases InMemoryDedupStore.live s now intentId with ⟨s', _ | (⟨token', e⟩ | _)⟩
  · rfl
  · simp only [Option.map_some, claim_tag_iff, ne_eq, ite_not]
    split_ifs
    · rw [encodeRecords_update]
      rfl
    · rfl
  · rfl

end Encode

/-! ### Stores under a clock -/

/-- An answer of a store. -/
abbrev DedupEvent := Event String ℕ (Option ToolResult)

/-- A call of a method, with its readings of the clock. A claim names the token that it would
mint. -/
inductive DedupCall
  | claim (intentId : String) (now now' leaseMs : Int) (token : ℕ)
  | complete (intentId : String) (now now' : Int) (token : ℕ) (result : Option ToolResult)
      (ttlMs : Int)
  | release (intentId : String) (now : Int) (token : ℕ)

namespace DedupCall

/-- The first reading of the clock. -/
def start : DedupCall → Int
  | .claim _ now .. | .complete _ now .. | .release _ now _ => now

/-- The last reading of the clock. -/
def finish : DedupCall → Int
  | .claim _ _ now' .. | .complete _ _ now' .. => now'
  | .release _ now _ => now

/-- The token that the call would mint. -/
def mints : DedupCall → Option ℕ
  | .claim _ _ _ _ token => some token
  | .complete .. | .release .. => none

end DedupCall

/-- A store, the last reading of its clock, and the tokens it has minted. -/
structure StoreState (ρ : Type) where
  records : ρ
  now : Int
  minted : List ℕ := []

/-- The runs of a store: the clock never goes back, and no token is minted twice. -/
def storeMachine {ρ : Type} (serve : ρ → DedupCall → ρ × DedupEvent) :
    Machine (StoreState ρ) DedupCall DedupEvent where
  step x call y os :=
    x.now ≤ call.start ∧ call.start ≤ call.finish ∧ (∀ token ∈ call.mints, token ∉ x.minted) ∧
      os = [(serve x.records call).2] ∧
      y = ⟨(serve x.records call).1, call.finish,
        (serve x.records call).2.grant.toList ++ x.minted⟩

/-- A method of the store on its bytes. -/
def DedupRecords.serve (c : Codec) (records : DedupRecords) : DedupCall → DedupRecords × DedupEvent
  | .claim intentId now now' leaseMs token =>
    match DedupRecords.claim c records now now' intentId leaseMs token with
    | (records, .claimed token) => (records, .claimed intentId now token (now' + leaseMs))
    | (records, .inFlight) => (records, .busy intentId now)
    | (records, .done result) => (records, .found intentId now result)
  | .complete intentId now now' token result ttlMs =>
    match DedupRecords.complete c records now now' intentId token result ttlMs with
    | (records, true) => (records, .completed intentId now token result (now' + ttlMs))
    | (records, false) => (records, .refused intentId now token)
  | .release intentId now token =>
    match DedupRecords.release c records now intentId token with
    | (records, true) => (records, .released intentId now token)
    | (records, false) => (records, .refused intentId now token)

/-! ### A table that never forgets -/

/-- What a table that keeps expired records answers. -/
def answer (c : Codec) (t : InMemoryDedupStore) : DedupCall → DedupEvent
  | .claim intentId now now' leaseMs token =>
    match t intentId with
    | none => .claimed intentId now token (now' + leaseMs)
    | some entry =>
      if entry.expiresAt ≤ now then .claimed intentId now token (now' + leaseMs)
      else
        match entry with
        | .held .. => .busy intentId now
        | .done result _ => .found intentId now (c.reads result)
  | .complete intentId now now' token result ttlMs =>
    match t intentId with
    | some (.held token' e) =>
      if token' = token ∧ now < e then .completed intentId now token result (now' + ttlMs)
      else .refused intentId now token
    | _ => .refused intentId now token
  | .release intentId now token =>
    match t intentId with
    | some (.held token' e) =>
      if token' = token ∧ now < e then .released intentId now token
      else .refused intentId now token
    | _ => .refused intentId now token

/-- A table that keeps expired records, as a store. -/
def answerAndKeep (c : Codec) (t : InMemoryDedupStore) (call : DedupCall) :
    InMemoryDedupStore × DedupEvent :=
  (t.after (answer c t call), answer c t call)

/-- The answers of the table are allowed. -/
theorem answer_allowed (c : Codec) (t : InMemoryDedupStore) (call : DedupCall) :
    (answer c t call).Allowed c.reads t := by
  cases call with
  | claim intentId now now' leaseMs token =>
    simp only [answer]
    split
    · rename_i hnone
      simp [Event.Allowed, hnone]
    · rename_i entry hsome
      split_ifs with hexpired
      · simpa [Event.Allowed, hsome] using hexpired
      · cases entry with
        | held token' e => exact ⟨token', e, hsome, Int.not_le.mp hexpired⟩
        | done result e => exact ⟨result, e, hsome, Int.not_le.mp hexpired, rfl⟩
  | complete intentId now now' token result ttlMs =>
    simp only [answer]
    split
    · rename_i token' e hsome
      split_ifs with howner
      · obtain ⟨rfl, hlive⟩ := howner
        exact ⟨e, hsome, hlive⟩
      · intro e' he'
        cases hsome.symm.trans he'
        exact Int.not_lt.mp fun hlive => howner ⟨rfl, hlive⟩
    · rename_i hnot
      exact fun e he => absurd he (hnot token e)
  | release intentId now token =>
    simp only [answer]
    split
    · rename_i token' e hsome
      split_ifs with howner
      · obtain ⟨rfl, hlive⟩ := howner
        exact ⟨e, hsome, hlive⟩
      · intro e' he'
        cases hsome.symm.trans he'
        exact Int.not_lt.mp fun hlive => howner ⟨rfl, hlive⟩
    · rename_i hnot
      exact fun e he => absurd he (hnot token e)

/-! ### The store answers like the table -/

/-- The store holds what the table holds, or has forgotten what has expired. -/
def Tracks (s t : InMemoryDedupStore) (now : Int) : Prop :=
  ∀ intentId, s intentId = t intentId ∨
    (s intentId = none ∧ ∀ entry ∈ t intentId, entry.expiresAt ≤ now)

section Tracks

variable {c : Codec} {s t : InMemoryDedupStore} {now now' : Int} {intentId : String}

theorem Tracks.later (h : Tracks s t now) (hnow : now ≤ now') : Tracks s t now' := by
  intro intentId
  rcases h intentId with heq | ⟨hnone, hexpired⟩
  · exact .inl heq
  · exact .inr ⟨hnone, fun entry hentry => Int.le_trans (hexpired entry hentry) hnow⟩

theorem Tracks.update (h : Tracks s t now) (entry : Option DedupRecord) :
    Tracks (Function.update s intentId entry) (Function.update t intentId entry) now := by
  intro intentId'
  by_cases heq : intentId' = intentId
  · subst heq
    exact .inl (by rw [Function.update_self, Function.update_self])
  · rw [Function.update_of_ne heq, Function.update_of_ne heq]
    exact h intentId'

variable (intentId) in
/-- A lookup finds nothing, where the table holds nothing that is live, or what the table holds. -/
theorem Tracks.live (h : Tracks s t now) :
    Tracks (InMemoryDedupStore.live s now intentId).1 t now ∧
      (((InMemoryDedupStore.live s now intentId).2 = none ∧
          ∀ entry ∈ t intentId, entry.expiresAt ≤ now) ∨
        ∃ entry, (InMemoryDedupStore.live s now intentId).2 = some entry ∧
          t intentId = some entry ∧ now < entry.expiresAt) := by
  rcases InMemoryDedupStore.live_cases s now intentId with
    ⟨hnone, hlive, -⟩ | ⟨entry, hsome, hexpired, hlive, -⟩ | ⟨entry, hsome, hnow, hlive, -⟩
  · rw [hlive]
    refine ⟨h, .inl ⟨rfl, ?_⟩⟩
    rcases h intentId with heq | ⟨-, hexpired⟩
    · simp [← heq, hnone]
    · exact hexpired
  · rw [hlive]
    have htable : t intentId = some entry := by
      rcases h intentId with heq | ⟨hnone, -⟩
      · exact heq.symm.trans hsome
      · exact absurd (hnone.symm.trans hsome) (by simp)
    refine ⟨fun intentId' => ?_, .inl ⟨rfl, by simpa [htable] using hexpired⟩⟩
    by_cases heq : intentId' = intentId
    · subst heq
      exact .inr ⟨Function.update_self .., by simpa [htable] using hexpired⟩
    · simp only [Function.update_of_ne heq]
      exact h intentId'
  · rw [hlive]
    refine ⟨h, .inr ⟨entry, rfl, ?_, hnow⟩⟩
    rcases h intentId with heq | ⟨hnone, -⟩
    · exact heq.symm.trans hsome
    · exact absurd (hnone.symm.trans hsome) (by simp)

theorem Tracks.claim (h : Tracks s t now) (leaseMs : Int) (token : ℕ) :
    ∃ s', DedupRecords.serve c (encodeRecords c s) (.claim intentId now now' leaseMs token) =
        (encodeRecords c s', answer c t (.claim intentId now now' leaseMs token)) ∧
      Tracks s' (t.after (answer c t (.claim intentId now now' leaseMs token))) now := by
  obtain ⟨hkept, hlookup⟩ := h.live intentId
  have hexpiry : now + (now' - now + leaseMs) = now' + leaseMs := by omega
  simp only [DedupRecords.serve, claim_encode, InMemoryDedupStore.claim]
  rcases hlookup with ⟨hnone, hexpired⟩ | ⟨entry, hsome, htable, hlive⟩
  · have hanswer : answer c t (.claim intentId now now' leaseMs token) =
        .claimed intentId now token (now' + leaseMs) := by
      cases htable : t intentId with
      | none => simp only [answer, htable]
      | some entry => simp only [answer, htable, if_pos (hexpired entry htable)]
    rw [hanswer]
    generalize InMemoryDedupStore.live s now intentId = looked at hnone hkept
    obtain ⟨s', found⟩ := looked
    obtain rfl : found = none := hnone
    exact ⟨_, by rw [hexpiry]; rfl, hkept.update _⟩
  · generalize InMemoryDedupStore.live s now intentId = looked at hsome hkept
    obtain ⟨s', found⟩ := looked
    obtain rfl : found = some entry := hsome
    have hnot : ¬ entry.expiresAt ≤ now := Int.not_le.mpr hlive
    cases entry with
    | held token' e =>
      have hanswer : answer c t (.claim intentId now now' leaseMs token) = .busy intentId now := by
        simp only [answer, htable, if_neg hnot]
      rw [hanswer]
      exact ⟨s', rfl, hkept⟩
    | done result e =>
      have hanswer : answer c t (.claim intentId now now' leaseMs token) =
          .found intentId now (c.reads result) := by
        simp only [answer, htable, if_neg hnot]
      rw [hanswer]
      exact ⟨s', rfl, hkept⟩

variable (intentId) in
/-- What the owner of a live claim is answered, and what anyone else is. -/
theorem Tracks.owned (h : Tracks s t now) (token : ℕ) :
    Tracks (InMemoryDedupStore.live s now intentId).1 t now ∧
      ((∃ e, (InMemoryDedupStore.live s now intentId).2 = some (.held token e) ∧
          t intentId = some (.held token e) ∧ now < e) ∨
        (∀ e, (InMemoryDedupStore.live s now intentId).2 ≠ some (.held token e)) ∧
          ∀ e, t intentId = some (.held token e) → ¬ now < e) := by
  obtain ⟨hkept, hlookup⟩ := h.live intentId
  refine ⟨hkept, ?_⟩
  rcases hlookup with ⟨hnone, hexpired⟩ | ⟨entry, hsome, htable, hlive⟩
  · refine .inr ⟨fun e => by simp [hnone], fun e he => ?_⟩
    exact Int.not_lt.mpr (hexpired _ he)
  · by_cases howner : ∃ e, entry = .held token e
    · obtain ⟨e, rfl⟩ := howner
      exact .inl ⟨e, hsome, htable, hlive⟩
    · have hnot (e : Int) (he : some entry = some (.held token e)) : False :=
        howner ⟨e, Option.some.inj he⟩
      exact .inr ⟨fun e he => hnot e (hsome.symm.trans he),
        fun e he => (hnot e (htable.symm.trans he)).elim⟩

theorem Tracks.complete (h : Tracks s t now) (token : ℕ) (result : Option ToolResult)
    (ttlMs : Int) :
    ∃ s', DedupRecords.serve c (encodeRecords c s)
          (.complete intentId now now' token result ttlMs) =
        (encodeRecords c s', answer c t (.complete intentId now now' token result ttlMs)) ∧
      Tracks s' (t.after (answer c t (.complete intentId now now' token result ttlMs))) now := by
  obtain ⟨hkept, howned⟩ := h.owned intentId token
  have hexpiry : now + (now' - now + ttlMs) = now' + ttlMs := by omega
  simp only [DedupRecords.serve, complete_encode, InMemoryDedupStore.complete]
  generalize InMemoryDedupStore.live s now intentId = looked at hkept howned
  obtain ⟨s', found⟩ := looked
  rcases howned with ⟨e, hfound, htable, hlive⟩ | ⟨hfound, htable⟩
  · obtain rfl : found = some (.held token e) := hfound
    have hanswer : answer c t (.complete intentId now now' token result ttlMs) =
        .completed intentId now token result (now' + ttlMs) := by
      simp only [answer, htable, hlive, and_self, if_true]
    rw [hanswer]
    refine ⟨_, ?_, hkept.update _⟩
    simp only [if_true, hexpiry]
    rfl
  · have hanswer : answer c t (.complete intentId now now' token result ttlMs) =
        .refused intentId now token := by
      simp only [answer]
      split
      · rename_i token' e hsome
        exact if_neg fun howner : token' = token ∧ now < e => htable e (howner.1 ▸ hsome) howner.2
      · rfl
    rw [hanswer]
    refine ⟨s', ?_, hkept⟩
    rcases found with _ | (⟨token', e⟩ | _)
    · rfl
    · have hne : token' ≠ token := fun htoken => hfound e (by rw [htoken])
      simp only [if_neg hne]
    · rfl

theorem Tracks.release (h : Tracks s t now) (token : ℕ) :
    ∃ s', DedupRecords.serve c (encodeRecords c s) (.release intentId now token) =
        (encodeRecords c s', answer c t (.release intentId now token)) ∧
      Tracks s' (t.after (answer c t (.release intentId now token))) now := by
  obtain ⟨hkept, howned⟩ := h.owned intentId token
  simp only [DedupRecords.serve, release_encode, InMemoryDedupStore.release]
  generalize InMemoryDedupStore.live s now intentId = looked at hkept howned
  obtain ⟨s', found⟩ := looked
  rcases howned with ⟨e, hfound, htable, hlive⟩ | ⟨hfound, htable⟩
  · obtain rfl : found = some (.held token e) := hfound
    have hanswer : answer c t (.release intentId now token) = .released intentId now token := by
      simp only [answer, htable, hlive, and_self, if_true]
    rw [hanswer]
    refine ⟨_, ?_, hkept.update _⟩
    simp only [if_true]
    rfl
  · have hanswer : answer c t (.release intentId now token) = .refused intentId now token := by
      simp only [answer]
      split
      · rename_i token' e hsome
        exact if_neg fun howner : token' = token ∧ now < e => htable e (howner.1 ▸ hsome) howner.2
      · rfl
    rw [hanswer]
    refine ⟨s', ?_, hkept⟩
    rcases found with _ | (⟨token', e⟩ | _)
    · rfl
    · have hne : token' ≠ token := fun htoken => hfound e (by rw [htoken])
      simp only [if_neg hne]
    · rfl

/-- **The store answers like the table**, and goes on to track it. -/
theorem Tracks.serve (h : Tracks s t now) {call : DedupCall} (hnow : now ≤ call.start) :
    ∃ s', DedupRecords.serve c (encodeRecords c s) call =
        (encodeRecords c s', answer c t call) ∧
      Tracks s' (t.after (answer c t call)) call.start := by
  have h := h.later hnow
  cases call with
  | claim intentId now now' leaseMs token => exact h.claim leaseMs token
  | complete intentId now now' token result ttlMs => exact h.complete token result ttlMs
  | release intentId now token => exact h.release token

end Tracks

/-! ### The laws -/

/-- The laws of the protocol, for the answers of a run in order. -/
structure ClaimProtocol (c : Codec) (H : List DedupEvent) : Prop where
  /-- Only the token of the claim that is live, and that nothing has changed since it was granted,
  completes or releases it. -/
  owner : ∀ {pre ev post k now a}, H = pre ++ ev :: post →
    ((∃ r u, ev = .completed k now a r u) ∨ ev = .released k now a) →
    ∃ older now₀ e since, pre = older ++ .claimed k now₀ a e :: since ∧ now < e ∧
      ∀ ev ∈ since, ∀ m ∈ ev.mark, m.key ≠ k
  /-- A token does neither once its lease has expired. -/
  stale : ∀ {k now₀ a e ev k' now}, .claimed k now₀ a e ∈ H → ev ∈ H →
    ((∃ r u, ev = .completed k' now a r u) ∨ ev = .released k' now a) → k' = k ∧ now < e
  /-- Two claims of one id are separated by the release of the earlier one, the expiry of its lease
  or the expiry of the terminal record that it was completed into. -/
  separated : ∀ {pre mid post k now a e now' b e'},
    H = pre ++ .claimed k now a e :: (mid ++ .claimed k now' b e' :: post) →
    (∃ now₁, .released k now₁ a ∈ mid) ∨ e ≤ now' ∨
      ∃ now₁ r u, .completed k now₁ a r u ∈ mid ∧ u ≤ now'
  /-- Until the terminal record expires, every claim is answered with the result that was recorded,
  if there was none or its bytes, of which there are some, parse back to it. -/
  retained : ∀ {pre mid ev post k now a r u},
    H = pre ++ .completed k now a r u :: (mid ++ ev :: post) → ev.AnswersClaim k → ev.now < u →
    (∀ result ∈ r, c.serialize result ≠ [] ∧ c.parse (c.serialize result) = result) →
    ev = .found k ev.now r

/-- A refused call changes no outcome: what the store may answer from then on is what it might have
answered without the call. -/
def Inert (c : Codec) (x : StoreState DedupRecords) : Prop :=
  ∀ {call y k now a}, (storeMachine (DedupRecords.serve c)).step x call y [.refused k now a] →
    ∀ calls events, (∃ z, (storeMachine (DedupRecords.serve c)).Run y calls events z) ↔
      ∃ z, (storeMachine (DedupRecords.serve c)).Run { x with now := y.now } calls events z

section Runs

variable {c : Codec} {x : StoreState DedupRecords} {X : StoreState InMemoryDedupStore}
  {call : DedupCall} {calls : List DedupCall} {events : List DedupEvent}

/-- A store on bytes that tracks a table. -/
structure StoreTracks (c : Codec) (x : StoreState DedupRecords)
    (X : StoreState InMemoryDedupStore) :
    Prop where
  records : ∃ s, x.records = encodeRecords c s ∧ Tracks s X.records x.now
  now : x.now = X.now
  minted : x.minted = X.minted

/-- What the store answers to a call, the table answers, and the other way round. -/
theorem StoreTracks.serve (h : StoreTracks c x X) (hstart : x.now ≤ call.start)
    (hfinish : call.start ≤ call.finish) :
    (DedupRecords.serve c x.records call).2 = answer c X.records call ∧
      ∃ s, (DedupRecords.serve c x.records call).1 = encodeRecords c s ∧
        Tracks s (X.records.after (answer c X.records call)) call.finish := by
  obtain ⟨s, hs, htracks⟩ := h.records
  obtain ⟨s', hserve, htracks'⟩ := htracks.serve (c := c) hstart
  rw [hs, hserve]
  exact ⟨rfl, s', rfl, htracks'.later hfinish⟩

/-- The table follows the store. -/
theorem StoreTracks.step (h : StoreTracks c x X) {y : StoreState DedupRecords}
    (hstep : (storeMachine (DedupRecords.serve c)).step x call y events) :
    ∃ Y, (storeMachine (answerAndKeep c)).step X call Y events ∧ StoreTracks c y Y := by
  obtain ⟨hstart, hfinish, hfresh, rfl, rfl⟩ := hstep
  obtain ⟨hanswer, hrecords⟩ := h.serve hstart hfinish
  refine ⟨⟨X.records.after (answer c X.records call), call.finish,
    (answer c X.records call).grant.toList ++ X.minted⟩,
    ⟨h.now ▸ hstart, hfinish, h.minted ▸ hfresh, ?_, rfl⟩, hrecords, rfl, ?_⟩
  · rw [hanswer]
    rfl
  · rw [hanswer, h.minted]

/-- The store follows the table. -/
theorem StoreTracks.step_table (h : StoreTracks c x X) {Y : StoreState InMemoryDedupStore}
    (hstep : (storeMachine (answerAndKeep c)).step X call Y events) :
    ∃ y, (storeMachine (DedupRecords.serve c)).step x call y events ∧ StoreTracks c y Y := by
  obtain ⟨hstart, hfinish, hfresh, rfl, rfl⟩ := hstep
  obtain ⟨hanswer, hrecords⟩ := h.serve (h.now ▸ hstart) hfinish
  refine ⟨⟨(DedupRecords.serve c x.records call).1, call.finish,
    (answer c X.records call).grant.toList ++ x.minted⟩,
    ⟨h.now ▸ hstart, hfinish, h.minted ▸ hfresh, ?_, ?_⟩, hrecords, rfl, ?_⟩
  · rw [hanswer]
    rfl
  · rw [hanswer]
  · rw [h.minted]
    rfl

/-- A run of the store is a run of the table with the same answers, and the other way round. -/
theorem StoreTracks.run_iff (h : StoreTracks c x X) :
    (∃ y, (storeMachine (DedupRecords.serve c)).Run x calls events y) ↔
      ∃ Y, (storeMachine (answerAndKeep c)).Run X calls events Y := by
  constructor
  · rintro ⟨y, hrun⟩
    obtain ⟨Y, hY, -⟩ := hrun.lockstep h fun hX hstep => hX.step hstep
    exact ⟨Y, hY⟩
  · rintro ⟨Y, hrun⟩
    obtain ⟨y, hy, -⟩ := hrun.lockstep (R := fun X x => StoreTracks c x X) h
      fun hX hstep => hX.step_table hstep
    exact ⟨y, hy⟩

theorem StoreTracks.empty (now : Int) :
    StoreTracks c ⟨fun _ => none, now, []⟩ ⟨Table.empty, now, []⟩ :=
  ⟨⟨Table.empty, rfl, fun _ => .inl rfl⟩, rfl, rfl⟩

/-- A refused call leaves the table as it was, so that nothing can depend on it. -/
theorem StoreTracks.inert (h : StoreTracks c x X) : Inert c x := by
  rintro call y k now a ⟨hstart, hfinish, -, hrefused, rfl⟩ calls events
  obtain ⟨hanswer, hrecords⟩ := h.serve hstart hfinish
  have hrefused : (DedupRecords.serve c x.records call).2 = .refused k now a :=
    (List.cons.inj hrefused).1.symm
  rw [← hanswer, hrefused] at hrecords
  obtain ⟨s, hs, htracks⟩ := h.records
  have hlater : StoreTracks c { x with now := call.finish } ⟨X.records, call.finish, X.minted⟩ :=
    ⟨⟨s, hs, htracks.later (Int.le_trans hstart hfinish)⟩, rfl, h.minted⟩
  have hafter : StoreTracks c
      ⟨(DedupRecords.serve c x.records call).1, call.finish,
        (DedupRecords.serve c x.records call).2.grant.toList ++ x.minted⟩
      ⟨X.records, call.finish, X.minted⟩ := by
    refine ⟨hrecords, rfl, ?_⟩
    rw [hrefused]
    exact h.minted
  rw [hafter.run_iff, hlater.run_iff]

/-- What a table that never forgets has answered: a lawful history, in the order of the clock, in
which no token is granted twice. -/
structure Kept (c : Codec) (events : List DedupEvent) (X : StoreState InMemoryDedupStore) :
    Prop where
  lawful : Lawful c.reads Table.empty events
  records : X.records = Table.empty.afterAll events
  clock : events.Pairwise fun ev ev' => ev.now ≤ ev'.now
  past : ∀ ev ∈ events, ev.now ≤ X.now
  fresh : Fresh events
  minted : ∀ ev ∈ events, ∀ a ∈ ev.grant, a ∈ X.minted

variable (c call) in
/-- An answer is given at the first reading of the clock, and grants the token that the call would
mint or none. -/
theorem answer_spec (t : InMemoryDedupStore) :
    (answer c t call).now = call.start ∧ ∀ a ∈ (answer c t call).grant, a ∈ call.mints := by
  cases call with
  | claim intentId now now' leaseMs token =>
    simp only [answer]
    split
    · exact ⟨rfl, fun _ => id⟩
    · rename_i entry htable
      split_ifs
      · exact ⟨rfl, fun _ => id⟩
      · cases entry <;> exact ⟨rfl, fun _ h => absurd h (Option.not_mem_none _)⟩
  | complete intentId now now' token result ttlMs =>
    simp only [answer]
    split
    · split_ifs <;> exact ⟨rfl, fun _ => id⟩
    · exact ⟨rfl, fun _ => id⟩
  | release intentId now token =>
    simp only [answer]
    split
    · split_ifs <;> exact ⟨rfl, fun _ => id⟩
    · exact ⟨rfl, fun _ => id⟩

theorem Kept.step {Y : StoreState InMemoryDedupStore} {os : List DedupEvent}
    (h : Kept c events X) (hstep : (storeMachine (answerAndKeep c)).step X call Y os) :
    Kept c (events ++ os) Y := by
  obtain ⟨hstart, hfinish, hfresh, rfl, rfl⟩ := hstep
  obtain ⟨hnow, hgrant⟩ := answer_spec c call X.records
  refine ⟨?_, ?_, ?_, ?_, ?_, ?_⟩
  · refine lawful_append.mpr ⟨h.lawful, ?_, trivial⟩
    rw [← h.records]
    exact answer_allowed c X.records call
  · rw [Table.afterAll_append, ← h.records]
    rfl
  · refine List.pairwise_append.mpr ⟨h.clock, List.pairwise_singleton _ _,
      fun ev hev ev' hev' => ?_⟩
    rw [List.mem_singleton.mp hev']
    exact Int.le_trans (h.past ev hev) (hnow ▸ hstart)
  · intro ev hev
    rcases List.mem_append.mp hev with hev | hev
    · exact Int.le_trans (h.past ev hev) (Int.le_trans hstart hfinish)
    · rw [List.mem_singleton.mp hev]
      exact hnow ▸ hfinish
  · refine List.pairwise_append.mpr ⟨h.fresh, List.pairwise_singleton _ _,
      fun ev hev ev' hev' a ha ha' => ?_⟩
    rw [List.mem_singleton.mp hev'] at ha'
    exact hfresh a (hgrant a ha') (h.minted ev hev a ha)
  · intro ev hev a ha
    rcases List.mem_append.mp hev with hev | hev
    · exact List.mem_append_right _ (h.minted ev hev a ha)
    · rw [List.mem_singleton.mp hev] at ha
      exact List.mem_append_left _ (Option.mem_toList.mpr ha)

end Runs

/-- **The claim protocol.** In every run of the in-memory store from no records, under any clock
that never goes back, with any calls by any callers and tokens that are minted once: a claim is
completed and released only under its own token while it is live; a token is of no use past its
lease; two claims of one id are separated by a release, the expiry of a lease or that of a terminal
record; a completed id is answered with the recorded result until its record expires; and a refused
call changes no later answer. -/
theorem run_claimProtocol (c : Codec) {now : Int} {calls : List DedupCall}
    {events : List DedupEvent} {x : StoreState DedupRecords}
    (h : (storeMachine (DedupRecords.serve c)).Run ⟨fun _ => none, now, []⟩ calls events x) :
    ClaimProtocol c events ∧ Inert c x := by
  obtain ⟨X, hrun, htracks⟩ := h.lockstep (StoreTracks.empty now) fun hX hstep => hX.step hstep
  have hkept : Kept c events X := by
    refine hrun.invariant (I := fun _ events X => Kept c events X) ?_ ?_
    · exact ⟨trivial, rfl, .nil, by simp, .nil, by simp⟩
    · intro _ _ _ _ _ _ _ hkept hstep
      exact hkept.step hstep
  refine ⟨⟨?_, ?_, ?_, ?_⟩, htracks.inert⟩
  · rintro pre ev post k now a rfl hev
    exact hkept.lawful.owner hev
  · intro k now₀ a e ev k' now hgrant hev hused
    exact hkept.lawful.stale hkept.fresh hgrant hev hused
  · rintro pre mid post k now a e now' b e' rfl
    refine hkept.lawful.separated fun ev hev => ?_
    have hlater := (List.pairwise_append.mp hkept.clock).2.1
    rw [List.pairwise_cons] at hlater
    exact (List.pairwise_append.mp hlater.2).2.2 ev hev _ List.mem_cons_self
  · rintro pre mid ev post k now a r u rfl hclaim hlive hresult
    rw [← c.reads_eq hresult]
    refine hkept.lawful.retained hclaim (fun ev' hev' => ?_) hlive
    have hlater := (List.pairwise_append.mp hkept.clock).2.1
    rw [List.pairwise_cons] at hlater
    exact (List.pairwise_append.mp hlater.2).2.2 ev' hev' _ List.mem_cons_self

/-- Perform a call, when the clock and the tokens allow it. -/
def storeStep {ρ : Type} (serve : ρ → DedupCall → ρ × DedupEvent) (x : StoreState ρ)
    (call : DedupCall) : Option (StoreState ρ × List DedupEvent) :=
  if x.now ≤ call.start ∧ call.start ≤ call.finish ∧ ∀ token ∈ call.mints, token ∉ x.minted then
    some (⟨(serve x.records call).1, call.finish,
      (serve x.records call).2.grant.toList ++ x.minted⟩, [(serve x.records call).2])
  else none

theorem storeStep_step {ρ : Type} {serve : ρ → DedupCall → ρ × DedupEvent} {x y : StoreState ρ}
    {call : DedupCall} {os : List DedupEvent} (h : storeStep serve x call = some (y, os)) :
    (storeMachine serve).step x call y os := by
  simp only [storeStep] at h
  split_ifs at h with hallowed
  cases h
  exact ⟨hallowed.1, hallowed.2.1, hallowed.2.2, rfl, rfl⟩

/-- A result whose one field that is set is the id `i`. -/
def sampleResult : ToolResult := { intentId := "i" }

/-- The bytes of that result, and the text of one token. -/
def sampleCodec : Codec where
  serialize result := if result = sampleResult then [10, 1, 105] else [0]
  parse payload := if payload = [10, 1, 105] then sampleResult else { intentId := "" }
  encodeToken n := List.replicate (32 + n) 48
  encodeToken_injective n m h := by
    have hlength := congrArg List.length h
    simp only [List.length_replicate] at hlength
    omega

/-- A claim that is completed at the last instant of its lease is answered with its result; its
token is of no use any more. -/
theorem run_claimProtocol_completed : ∃ events x,
    (storeMachine (DedupRecords.serve sampleCodec)).Run ⟨fun _ => none, 0, []⟩
      [.claim "i" 0 0 10 0, .complete "i" 9 9 0 (some sampleResult) 100, .release "i" 20 0,
        .claim "i" 50 50 10 1] events x ∧
    ClaimProtocol sampleCodec events ∧
    events = [.claimed "i" 0 0 10, .completed "i" 9 0 (some sampleResult) 109,
      .refused "i" 20 0, .found "i" 50 (some sampleResult)] := by
  have hexec : (Machine.exec (storeStep (DedupRecords.serve sampleCodec)) ⟨fun _ => none, 0, []⟩
      [.claim "i" 0 0 10 0, .complete "i" 9 9 0 (some sampleResult) 100, .release "i" 20 0,
        .claim "i" 50 50 10 1]).map (fun r => r.1) =
      some [.claimed "i" 0 0 10, .completed "i" 9 0 (some sampleResult) 109, .refused "i" 20 0,
        .found "i" 50 (some sampleResult)] := by decide
  obtain ⟨⟨events, x⟩, hx, hevents⟩ := Option.map_eq_some_iff.mp hexec
  have hrun := Machine.Run.of_exec (fun _ _ => storeStep_step) hx
  exact ⟨events, x, hrun, (run_claimProtocol sampleCodec hrun).1, hevents⟩

end BeamAgents
