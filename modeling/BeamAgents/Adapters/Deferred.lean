import BeamAgents.Containers.Table
import BeamAgents.Core.Loop
import BeamAgents.Wire.JsonObject
import BeamAgents.Wire.Text

/-!
# The adapters of frameworks

The agents of `adapters/pydantic_ai/agent.py`, `adapters/langgraph/agent.py` and
`adapters/adk/agent.py` drive a run of a framework. A run may end at calls that it puts off: the
agent stages an intent for each of them and suspends, with a snapshot that says which intent is
which call. An answer is recorded in the snapshot. While calls are without an answer the agent
suspends again and stages nothing; otherwise it resumes the run with the answers. This is the part
that the three agents share; the framework is a parameter of it.

## Main definitions

* `Prog.bind`: one program after the other.
* `DeferredSnapshot` with `dump` and `load`.
* `Adapter`, `Adapter.agent`.

## Main results

* `DeferredSnapshot.load_dump`: a snapshot is read from what it is written as.
* `Adapter.body_congr`: a run is resumed for a single call only.
* `Adapter.agent_suspended`: the snapshots that an agent suspends with.
-/

namespace BeamAgents

open Containers Wire

/-! ### Programs one after the other -/

/-- One program after the other. -/
def Prog.bind {ρ ρ' : Type} : Prog ρ → (ρ → Prog ρ') → Prog ρ'
  | .ret r, k => k r
  | .raise e, _ => .raise e
  | .read f, k => .read fun ctx => (f ctx).bind k
  | .perform op f, k => .perform op fun answer => (f answer).bind k
  | .await a f, k => .await a fun answer => (f answer).bind k

/-- A program that returns or raises. -/
def Prog.ofExcept {ρ : Type} : Except PyExn ρ → Prog ρ
  | .ok r => .ret r
  | .error e => .raise e

section Bind

variable {py : PyLib} {cfg : ContextConfig} {ρ ρ' : Type} {answers : Answers} {p : Prog ρ}
  {k : ρ → Prog ρ'} {awaits : ℕ} {ctx : ActivationContext}

/-- A program that raises is the end. -/
theorem Prog.run_bind_error {e : PyExn} (h : (p.run py cfg answers awaits ctx).outcome = .error e) :
    (p.bind k).run py cfg answers awaits ctx =
      ⟨(p.run py cfg answers awaits ctx).ctx, (p.run py cfg answers awaits ctx).awaits,
        .error e⟩ := by
  induction p generalizing awaits ctx with
  | ret r => cases h
  | raise e' =>
    cases h
    rfl
  | read f ih => exact ih ctx h
  | perform op f ih => exact ih _ h
  | await a f ih => exact ih (answers awaits a) h

/-- What a program returns goes on where it ended. -/
theorem Prog.run_bind_ok {r : ρ} (h : (p.run py cfg answers awaits ctx).outcome = .ok r) :
    (p.bind k).run py cfg answers awaits ctx =
      (k r).run py cfg answers (p.run py cfg answers awaits ctx).awaits
        (p.run py cfg answers awaits ctx).ctx := by
  induction p generalizing awaits ctx with
  | ret r' =>
    cases h
    rfl
  | raise e => cases h
  | read f ih => exact ih ctx h
  | perform op f ih => exact ih _ h
  | await a f ih => exact ih (answers awaits a) h

/-- A program that returns came through its first part. -/
theorem Prog.run_bind_eq_ok {r' : ρ'}
    (h : ((p.bind k).run py cfg answers awaits ctx).outcome = .ok r') :
    ∃ r, (p.run py cfg answers awaits ctx).outcome = .ok r ∧
      (p.bind k).run py cfg answers awaits ctx =
        (k r).run py cfg answers (p.run py cfg answers awaits ctx).awaits
          (p.run py cfg answers awaits ctx).ctx := by
  cases hp : (p.run py cfg answers awaits ctx).outcome with
  | error e =>
    rw [run_bind_error hp] at h
    cases h
  | ok r => exact ⟨r, rfl, run_bind_ok hp⟩

end Bind

/-! ### Snapshots -/

/-- An object of scalars. -/
abbrev JsonRecord := SortedMap String Json.Scalar

/-- What a suspension keeps: an entry for each intent, and the answers so far. -/
structure DeferredSnapshot where
  pending : SortedMap String JsonRecord
  results : SortedMap String JsonRecord

namespace DeferredSnapshot

/-- The entries of intents as an object of objects. -/
def tableValue : SortedMap String JsonRecord → Json.Value :=
  Json.ofMap (Json.ofMap Json.Scalar.value)

/-- The object of objects as entries of intents. -/
def readTable : Json.Value → Option (SortedMap String JsonRecord) :=
  Json.toMap (Json.toMap Json.Scalar.ofValue)

theorem pending_lt_results : "pending" < "results" := by decide

variable (snapshot : DeferredSnapshot)

/-- The two members. -/
def members : SortedMap String (SortedMap String JsonRecord) where
  entries := [("pending", snapshot.pending), ("results", snapshot.results)]
  sorted := List.pairwise_pair.mpr pending_lt_results

/-- `json.dumps(snapshot, sort_keys=True).encode("utf-8")`. -/
def dump : Bytes := Json.dumpsSorted {} (Json.ofMap tableValue snapshot.members)

/-- `json.loads(ctx.snapshot) if ctx.snapshot else {"pending": {}, "results": {}}`, of a snapshot
that has this shape. -/
def load (bytes : Bytes) : Option DeferredSnapshot :=
  if bytes = [] then some ⟨.empty, .empty⟩
  else do
    let members ← (Json.loads bytes).bind (Json.toMap readTable)
    let pending ← members.get? "pending"
    let results ← members.get? "results"
    return ⟨pending, results⟩

/-- The intents without an answer. -/
def unanswered : List String :=
  (snapshot.pending.entries.filter fun p => (snapshot.results.get? p.1).isNone).map Prod.fst

/-- The entries of the intents with their answers. -/
def answered : List (JsonRecord × JsonRecord) :=
  snapshot.pending.entries.filterMap fun p => (snapshot.results.get? p.1).map (p.2, ·)

variable {snapshot}

/-- **A snapshot is read from what it is written as.** -/
theorem load_dump : load snapshot.dump = some snapshot := by
  have hloads : Json.loads snapshot.dump = some (Json.ofMap tableValue snapshot.members) :=
    Json.loads_dumpsSorted {}
      (Json.valid_ofMap (Json.valid_ofMap (Json.valid_ofMap Json.Scalar.valid_value)) _)
      (Json.sorted_ofMap (Json.sorted_ofMap (Json.sorted_ofMap Json.Scalar.sorted_value)) _)
  have hne : snapshot.dump ≠ [] := by
    intro hnil
    rw [hnil] at hloads
    cases hloads
  have hread : Json.toMap readTable (Json.ofMap tableValue snapshot.members) =
      some snapshot.members :=
    Json.toMap_ofMap (Json.toMap_ofMap (Json.toMap_ofMap Json.Scalar.ofValue_value)) _
  rw [load, if_neg hne, hloads, Option.bind_some, hread]
  rfl

end DeferredSnapshot

/-! ### Agents -/

/-- `_KIND_TOOL` and `_KIND_APPROVAL`. -/
inductive CallKind
  | tool
  | approval
  deriving DecidableEq, Repr

/-- The text of a kind. -/
def CallKind.text : CallKind → String
  | .tool => "tool"
  | .approval => "approval"

/-- A call that a run puts off: what is staged for it, and its entry in the snapshot. An approval
has no tool. -/
structure DeferredCall where
  kind : CallKind
  toolName : String := ""
  argsJson : String
  entry : JsonRecord

/-- How a run of a framework ends. -/
inductive RunEnd
  | finished (output : Bytes)
  | deferred (calls : List DeferredCall)

/-- `ToolResult.Status.Name`. -/
def ResultStatus.name : ResultStatus → String
  | .unspecified => "STATUS_UNSPECIFIED"
  | .ok => "OK"
  | .error => "ERROR"
  | .expired => "EXPIRED"
  | .rejected => "REJECTED"

/-- What is kept of a tool result. -/
def ToolResult.record (result : ToolResult) : JsonRecord :=
  .ofList [("kind", .text CallKind.tool.text), ("status", .text result.status.name),
    ("payload", .text (Text.decodeReplace result.payload)),
    ("error_message", .text result.errorMessage)]

/-- The agent of a framework. -/
structure Adapter (σ α : Type) where
  name : String
  hitlTimeoutMs : Option Int := none
  /-- What is kept of an approval. -/
  decision : Approval → JsonRecord
  /-- What is loaded before anything else. -/
  prepare : Prog σ
  /-- A run from an event. -/
  start : σ → Bytes → Prog RunEnd
  /-- The answers to the calls, as the framework takes them. -/
  answers : List (JsonRecord × JsonRecord) → Except PyExn α
  /-- A run that goes on from the answers. -/
  resume : σ → α → Prog RunEnd
  /-- What is raised over a snapshot that is none of this agent. -/
  foreign : Bytes → PyExn

variable (py : PyLib)

/-- The `TypeError` of `ctx.single_event` in a batch activation. -/
def singleEventUndefined (count : ℕ) : PyExn where
  typeName := "TypeError"
  repr := py.exnRepr "TypeError" (s!"ctx.single_event is undefined for a batch activation " ++
    s!"({count} events under BatchPolicy.ADAPTIVE); read ctx.events for the whole batch, or " ++
    "ctx.is_batch to branch")

/-- `ActivationContext.single_event`. -/
def ActivationContext.singleEvent (ctx : ActivationContext) : Except PyExn Bytes :=
  match ctx.event with
  | .inr _ => .error (singleEventUndefined py ctx.events.length)
  | .inl event => .ok event

/-- The `ValueError` over an answer to an intent that the suspension did not stage. -/
def unknownIntent (what intentId : String) (pending : List String) : PyExn where
  typeName := "ValueError"
  repr := py.exnRepr "ValueError" (s!"{what} for unknown intent {py.reprStr intentId}; " ++
    "pending: [" ++ ", ".intercalate (pending.map py.reprStr) ++ "]")

/-- Store what is kept of an answer. -/
def DeferredSnapshot.answer (snapshot : DeferredSnapshot) (what intentId : String)
    (record : JsonRecord) : Except PyExn DeferredSnapshot :=
  if (snapshot.pending.get? intentId).isNone then
    .error (unknownIntent py what intentId (snapshot.pending.entries.map Prod.fst))
  else .ok { snapshot with results := snapshot.results.set intentId record }

/-- `_stage_and_suspend`, from the entries so far. -/
def stageAndSuspend (suspendWith : DeferredSnapshot → Outcome) :
    List DeferredCall → SortedMap String JsonRecord → Prog Outcome
  | [], pending => .ret (suspendWith ⟨pending, .empty⟩)
  | call :: calls, pending =>
    let next (intentId : Except PyExn String) : Prog Outcome :=
      match intentId with
      | .error e => .raise e
      | .ok intentId => stageAndSuspend suspendWith calls (pending.set intentId call.entry)
    match call.kind with
    | .tool => .perform (.act call.toolName call.argsJson) next
    | .approval => .perform (.requestApproval call.argsJson) next

namespace Adapter

variable {σ α : Type} (A : Adapter σ α)

/-- `_record_incoming`. -/
def recordIncoming (ctx : ActivationContext) (snapshot : DeferredSnapshot) :
    Except PyExn DeferredSnapshot :=
  match ctx.resumeApproval, ctx.resumeResult with
  | some approval, _ => snapshot.answer py "approval" approval.intentId (A.decision approval)
  | none, some result => snapshot.answer py "tool result" result.intentId result.record
  | none, none => .ok snapshot

/-- `_suspend_with`. -/
def suspendWith (snapshot : DeferredSnapshot) : Outcome :=
  .suspend snapshot.dump A.name A.hitlTimeoutMs

/-- What becomes of the end of a run. -/
def finish : RunEnd → Prog Outcome
  | .finished output => .ret (.complete output)
  | .deferred calls => stageAndSuspend A.suspendWith calls .empty

/-- `__call__`, once the agent has loaded what it needs. -/
def body (ctx : ActivationContext) (state : σ) : Prog Outcome :=
  if ctx.isResume then
    match DeferredSnapshot.load ctx.snapshot with
    | none => .raise (A.foreign ctx.snapshot)
    | some snapshot =>
      match A.recordIncoming py ctx snapshot with
      | .error e => .raise e
      | .ok snapshot =>
        if snapshot.unanswered ≠ [] then .ret (A.suspendWith snapshot)
        else
          match A.answers snapshot.answered with
          | .error e => .raise e
          | .ok value => (A.resume state value).bind A.finish
  else
    match ctx.singleEvent py with
    | .error e => .raise e
    | .ok event => (A.start state event).bind A.finish

/-- `__call__`. -/
def agent : Agent := .read fun ctx => A.prepare.bind (A.body py ctx)

/-! ### What is resumed -/

/-- The intent that is answered, and what is kept of the answer. -/
def incoming : Option Approval → Option ToolResult → Option (String × JsonRecord)
  | some approval, _ => some (approval.intentId, A.decision approval)
  | none, some result => some (result.intentId, result.record)
  | none, none => none

/-- What is kept of some answer. -/
def IsAnswer (record : JsonRecord) : Prop :=
  (∃ approval, record = A.decision approval) ∨ ∃ result, record = ToolResult.record result

variable {py A} {snapshot snapshot' : DeferredSnapshot} {ctx : ActivationContext}

/-- An answer is recorded when its intent is pending. -/
theorem recordIncoming_eq_ok (hresume : ctx.isResume)
    (h : A.recordIncoming py ctx snapshot = .ok snapshot') :
    ∃ intentId record,
      A.incoming ctx.resumeApproval ctx.resumeResult = some (intentId, record) ∧
      A.IsAnswer record ∧ (snapshot.pending.get? intentId).isSome ∧
      snapshot' = { snapshot with results := snapshot.results.set intentId record } := by
  have hanswer {what intentId : String} {record : JsonRecord}
      (h : snapshot.answer py what intentId record = .ok snapshot') :
      (snapshot.pending.get? intentId).isSome ∧
        snapshot' = { snapshot with results := snapshot.results.set intentId record } := by
    unfold DeferredSnapshot.answer at h
    split_ifs at h with hnone
    exact ⟨by simpa [Option.isSome_iff_ne_none] using hnone, (Except.ok.inj h).symm⟩
  unfold recordIncoming at h
  cases happroval : ctx.resumeApproval with
  | some approval =>
    rw [happroval] at h
    exact ⟨_, _, rfl, .inl ⟨approval, rfl⟩, hanswer h⟩
  | none =>
    cases hresult : ctx.resumeResult with
    | some result =>
      rw [happroval, hresult] at h
      exact ⟨_, _, rfl, .inr ⟨result, rfl⟩, hanswer h⟩
    | none =>
      rw [ActivationContext.isResume, happroval, hresult] at hresume
      cases hresume

/-- Of a suspension without an earlier answer, one answer leaves no call unanswered when it has a
single call. -/
theorem answered_of_unanswered {intentId : String} {record entry : JsonRecord}
    (hresults : snapshot.results = .empty) (hentry : snapshot.pending.get? intentId = some entry)
    (h : DeferredSnapshot.unanswered
      { snapshot with results := snapshot.results.set intentId record } = []) :
    DeferredSnapshot.answered
      { snapshot with results := snapshot.results.set intentId record } = [(entry, record)] := by
  have hanswered (k : String) : (snapshot.results.set intentId record).get? k =
      if k = intentId then some record else none := by
    rw [hresults, SortedMap.get?_set, SortedMap.get?_empty]
  have hsingle : snapshot.pending = SortedMap.empty.set intentId entry := by
    refine SortedMap.eq_set_empty hentry fun k hk => ?_
    obtain ⟨e, he⟩ := Option.isSome_iff_exists.mp hk
    rw [DeferredSnapshot.unanswered, List.map_eq_nil_iff, List.filter_eq_nil_iff] at h
    have hk := h _ (SortedMap.get?_eq_some_iff.mp he)
    rw [hanswered] at hk
    by_contra hne
    exact hk (by rw [if_neg hne, Option.isNone_none])
  have hself : (snapshot.results.set intentId record).get? intentId = some record := by
    rw [hanswered, if_pos rfl]
  have hentries : (SortedMap.empty.set intentId entry).entries = [(intentId, entry)] := rfl
  simp [DeferredSnapshot.answered, hsingle, hentries, hself]

/-- **A run is resumed for a single call only.** Let no call of the suspension have been answered
before, or let the answer be to an intent that it does not know. Then what the agent does depends on
how its run goes on from one call and its answer, and not on how it goes on from several. -/
theorem body_congr {resume' : σ → α → Prog RunEnd}
    (hresume : ∀ state entry record value, A.IsAnswer record →
      A.answers [(entry, record)] = .ok value → resume' state value = A.resume state value)
    (hctx : ctx.isResume → ∀ snapshot, DeferredSnapshot.load ctx.snapshot = some snapshot →
      snapshot.results = .empty ∨
        ∀ p ∈ A.incoming ctx.resumeApproval ctx.resumeResult, snapshot.pending.get? p.1 = none)
    (state : σ) :
    body py { A with resume := resume' } ctx state = A.body py ctx state := by
  unfold body
  split_ifs with hisResume
  · cases hload : DeferredSnapshot.load ctx.snapshot with
    | none => rfl
    | some snapshot =>
      have hrecord : recordIncoming py { A with resume := resume' } ctx snapshot =
          A.recordIncoming py ctx snapshot := rfl
      simp only [hrecord]
      cases hincoming : A.recordIncoming py ctx snapshot with
      | error e => rfl
      | ok snapshot' =>
        obtain ⟨intentId, record, hid, hanswer, hpending, rfl⟩ :=
          recordIncoming_eq_ok hisResume hincoming
        obtain ⟨entry, hentry⟩ := Option.isSome_iff_exists.mp hpending
        have hresults : snapshot.results = .empty := by
          refine (hctx hisResume snapshot hload).resolve_right fun hnone => ?_
          rw [hnone _ hid] at hpending
          cases hpending
        dsimp only
        split_ifs with hunanswered
        · rfl
        · rw [answered_of_unanswered hresults hentry (not_not.mp hunanswered)]
          cases hvalue : A.answers [(entry, record)] with
          | error e => rfl
          | ok value =>
            dsimp only
            rw [hresume state entry record value hanswer hvalue]
            rfl
  · rfl

/-- An answer to an intent that the suspension does not know is raised over. -/
theorem body_unknown (hresume : ctx.isResume)
    (hload : DeferredSnapshot.load ctx.snapshot = some snapshot)
    (hunknown : ∀ p ∈ A.incoming ctx.resumeApproval ctx.resumeResult,
      snapshot.pending.get? p.1 = none) (state : σ) :
    ∃ e, A.body py ctx state = .raise e := by
  unfold body
  rw [if_pos hresume, hload]
  dsimp only
  cases hincoming : A.recordIncoming py ctx snapshot with
  | error e => exact ⟨e, rfl⟩
  | ok snapshot' =>
    obtain ⟨intentId, record, hid, -, hpending, -⟩ := recordIncoming_eq_ok hresume hincoming
    rw [hunknown _ hid] at hpending
    cases hpending

/-! ### What an agent suspends with -/

section Suspended

variable (py) (cfg : ContextConfig) (answers : Answers)

/-- A call mints an intent at the step of the cursor, whatever its kind. -/
theorem run_stageAndSuspend_cons (suspendWith : DeferredSnapshot → Outcome) (call : DeferredCall)
    (calls : List DeferredCall) (pending : SortedMap String JsonRecord) (awaits : ℕ)
    (ctx : ActivationContext) : ∃ ctx',
      (stageAndSuspend suspendWith (call :: calls) pending).run py cfg answers awaits ctx =
        (stageAndSuspend suspendWith calls
          (pending.set (intentIdFor py ctx.entityKey ctx.seq ctx.stepIndex) call.entry)).run py cfg
            answers awaits ctx' ∧
      ctx'.entityKey = ctx.entityKey ∧ ctx'.seq = ctx.seq ∧ ctx'.stepIndex = ctx.stepIndex + 1 := by
  rw [stageAndSuspend]
  cases call.kind with
  | tool => exact ⟨_, rfl, rfl, rfl, rfl⟩
  | approval => exact ⟨_, rfl, rfl, rfl, rfl⟩

/-- The staged calls end in a suspension whose entries are under the intents that were minted for
them. -/
theorem run_stageAndSuspend (suspendWith : DeferredSnapshot → Outcome) (calls : List DeferredCall)
    (pending : SortedMap String JsonRecord) (awaits : ℕ) (ctx : ActivationContext) :
    let last := (stageAndSuspend suspendWith calls pending).run py cfg answers awaits ctx
    ∃ pending', last.outcome = .ok (suspendWith ⟨pending', .empty⟩) ∧
      ∀ intentId, (pending'.get? intentId).isSome → (pending.get? intentId).isSome ∨
        ∃ step < last.ctx.stepIndex, intentId = intentIdFor py ctx.entityKey ctx.seq step := by
  induction calls generalizing pending ctx with
  | nil => exact ⟨pending, rfl, fun intentId h => .inl h⟩
  | cons call calls ih =>
    obtain ⟨ctx', hrun, hkey, hseq, hstep⟩ :=
      run_stageAndSuspend_cons py cfg answers suspendWith call calls pending awaits ctx
    have hlt : ctx.stepIndex < ctx'.stepIndex := hstep ▸ Nat.lt_succ_self _
    obtain ⟨pending', houtcome, hpending⟩ := ih _ ctx'
    rw [hrun]
    refine ⟨pending', houtcome, fun intentId h => ?_⟩
    rcases hpending intentId h with hset | ⟨step, hlt, hid⟩
    · rw [SortedMap.get?_set] at hset
      split_ifs at hset with hid
      · exact .inr ⟨ctx.stepIndex,
          hlt.trans_le (Prog.run_extends cfg answers _ awaits ctx').stepIndex, hid⟩
      · exact .inl hset
    · rw [hkey, hseq] at hid
      exact .inr ⟨step, hlt, hid⟩

variable {py} {cfg} {answers} {awaits : ℕ}

/-- The end of a run suspends with entries of intents that were minted. -/
theorem run_finish {p : Prog RunEnd} {bytes : Bytes} {adapter : String} {timeoutMs : Option Int}
    (h : ((p.bind A.finish).run py cfg answers awaits ctx).outcome =
      .ok (.suspend bytes adapter timeoutMs)) :
    ∃ snapshot, DeferredSnapshot.load bytes = some snapshot ∧ snapshot.results = .empty ∧
      ∀ intentId, (snapshot.pending.get? intentId).isSome →
        ∃ step < ((p.bind A.finish).run py cfg answers awaits ctx).ctx.stepIndex,
          intentId = intentIdFor py ctx.entityKey ctx.seq step := by
  obtain ⟨runEnd, hend, hrun⟩ := Prog.run_bind_eq_ok h
  have hextends : ctx.Extends py (p.run py cfg answers awaits ctx).ctx :=
    Prog.run_extends cfg answers p awaits ctx
  rw [hrun] at h ⊢
  cases runEnd with
  | finished output => cases h
  | deferred calls =>
    obtain ⟨pending, houtcome, hpending⟩ :=
      run_stageAndSuspend py cfg answers A.suspendWith calls .empty _ _
    rw [finish] at h ⊢
    rw [houtcome] at h
    cases h
    refine ⟨_, DeferredSnapshot.load_dump, rfl, fun intentId hsome => ?_⟩
    rcases hpending intentId hsome with hempty | ⟨step, hlt, hid⟩
    · cases hempty
    · rw [hextends.entityKey, hextends.seq] at hid
      exact ⟨step, hlt, hid⟩

/-- What an agent does once it has loaded what it needs: it raises, it takes a run to its end, or it
suspends again with the entries that it was suspended with. -/
theorem body_cases (ctx : ActivationContext) (state : σ) :
    (∃ e, A.body py ctx state = .raise e) ∨
      (∃ p : Prog RunEnd, A.body py ctx state = p.bind A.finish) ∨
      ∃ earlier snapshot, ctx.isResume ∧ DeferredSnapshot.load ctx.snapshot = some earlier ∧
        snapshot.pending = earlier.pending ∧
        A.body py ctx state = .ret (A.suspendWith snapshot) := by
  unfold body
  split_ifs with hisResume
  · cases hload : DeferredSnapshot.load ctx.snapshot with
    | none => exact .inl ⟨_, rfl⟩
    | some earlier =>
      dsimp only
      cases hincoming : A.recordIncoming py ctx earlier with
      | error e => exact .inl ⟨_, rfl⟩
      | ok snapshot =>
        obtain ⟨intentId, record, -, -, -, rfl⟩ := recordIncoming_eq_ok hisResume hincoming
        dsimp only
        split_ifs with hunanswered
        · exact .inr (.inr ⟨earlier,
            { earlier with results := earlier.results.set intentId record }, hisResume, rfl, rfl,
            rfl⟩)
        · cases A.answers _ with
          | error e => exact .inl ⟨_, rfl⟩
          | ok value => exact .inr (.inl ⟨_, rfl⟩)
  · cases ctx.singleEvent py with
    | error e => exact .inl ⟨_, rfl⟩
    | ok event => exact .inr (.inl ⟨_, rfl⟩)

/-- **What an agent suspends with**: entries of intents that it minted, without an answer; or, when
it was resumed, the entries that it was suspended with. -/
theorem agent_suspended {bytes : Bytes} {adapter : String} {timeoutMs : Option Int}
    (h : ((A.agent py).run py cfg answers awaits ctx).outcome =
      .ok (.suspend bytes adapter timeoutMs)) :
    ∃ snapshot, DeferredSnapshot.load bytes = some snapshot ∧
      ((snapshot.results = .empty ∧ ∀ intentId, (snapshot.pending.get? intentId).isSome →
        ∃ step < ((A.agent py).run py cfg answers awaits ctx).ctx.stepIndex,
          intentId = intentIdFor py ctx.entityKey ctx.seq step) ∨
      (ctx.isResume ∧ ∃ earlier, DeferredSnapshot.load ctx.snapshot = some earlier ∧
        snapshot.pending = earlier.pending)) := by
  have hagent : (A.agent py).run py cfg answers awaits ctx =
      (A.prepare.bind (A.body py ctx)).run py cfg answers awaits ctx := rfl
  rw [hagent] at h ⊢
  obtain ⟨state, -, hrun⟩ := Prog.run_bind_eq_ok h
  have hextends : ctx.Extends py (A.prepare.run py cfg answers awaits ctx).ctx :=
    Prog.run_extends cfg answers A.prepare awaits ctx
  rw [hrun] at h ⊢
  rcases A.body_cases ctx state with ⟨e, hbody⟩ | ⟨p, hbody⟩ |
    ⟨earlier, snapshot, hisResume, hload, hpending, hbody⟩
  · rw [hbody] at h
    cases h
  · rw [hbody] at h ⊢
    obtain ⟨snapshot, hsnapshot, hresults, hminted⟩ := run_finish h
    rw [hextends.entityKey, hextends.seq] at hminted
    exact ⟨snapshot, hsnapshot, .inl ⟨hresults, hminted⟩⟩
  · rw [hbody] at h
    cases h
    exact ⟨snapshot, DeferredSnapshot.load_dump, .inr ⟨hisResume, earlier, hload, hpending⟩⟩

end Suspended

end Adapter

end BeamAgents
