import BeamAgents.Effector.Revocation
import BeamAgents.Effector.Signing

/-!
# The verification gate

A delivery that is refused never gets beyond its dead letter and its commit, in any run of the tasks
of the effector: the task that processes it waits for the dead-letter sink or for the commit, and
none of the answers leads elsewhere.

## Main definitions

* `LoopEvent.delivery`, `LoopState.Gated`.
* `EffectorLoop.verifying`: the effector with the verification of the messages that are delivered.

## Main results

* `EffectorLoop.run_gated`: the events of a run about a refused delivery.
* `EffectorLoop.verification_gate`.
-/

namespace BeamAgents

open Transition Containers

variable {δ : Type}

/-- The delivery that an event is about; a release is about a claim only. -/
def LoopEvent.delivery : LoopEvent δ → Option δ
  | .deadLettered d _ | .claimCalled d | .granted _ d _ | .invoked _ d | .completeCalled _ d _
  | .published d _ | .notified _ d | .committed d => some d
  | .released .. => none

/-- An event is about a delivery that may proceed, or is a dead letter or a commit. -/
def LoopEvent.Gated (T : EffectorLoop δ) (e : LoopEvent δ) : Prop :=
  ∀ d ∈ e.delivery, ∀ reason, T.verified d = some reason →
    e = .deadLettered d reason ∨ e = .committed d

/-- The awaits that a refused delivery leads to. -/
def ProcessAwait.Refused (reason : VerificationResult) (await : ProcessAwait) : Prop :=
  await = .deadLettering reason ∨ await = .committing none

/-- A task is at an await that its delivery may lead to. -/
def LoopTask.Gated (T : EffectorLoop δ) : LoopTask δ → Prop
  | .processing d await _ => ∀ reason, T.verified d = some reason → await.Refused reason
  | _ => True

/-- The tasks of the loop are at awaits that their deliveries may lead to. -/
def LoopState.Gated (T : EffectorLoop δ) (s : LoopState δ) : Prop :=
  ∀ task ∈ s.tasks, task.Gated T

namespace EffectorLoop

variable {T : EffectorLoop δ} {py : PyLib} {s s' : LoopState δ} {es : List (LoopEvent δ)}

theorem gated_received (d : δ) (now : Int) :
    (∀ reason, T.verified d = some reason → (T.received d now).1.Refused reason) ∧
      ∀ e ∈ (T.received d now).2, e.Gated T := by
  unfold received
  cases hverified : T.verified d with
  | some reason =>
    constructor
    · intro reason' heq
      cases heq
      cases T.svc.deadLetterSink
      · exact .inr rfl
      · exact .inl rfl
    · intro e he d' hd' reason' hreason'
      cases hsink : T.svc.deadLetterSink with
      | false =>
        rw [hsink] at he
        cases List.mem_singleton.mp he
        cases hd'
        exact .inr rfl
      | true =>
        rw [hsink] at he
        cases List.mem_singleton.mp he
        cases hd'
        rw [hverified] at hreason'
        cases hreason'
        exact .inl rfl
  | none =>
    refine ⟨fun reason h => (by cases h), fun e he d' hd' reason hreason => ?_⟩
    have hd : d' = d := by
      cases hrefuse : refuseExpired (T.intent d) now with
      | none =>
        rw [hrefuse] at he
        cases List.mem_singleton.mp he
        exact (Option.some.inj hd').symm
      | some refusal =>
        rw [hrefuse] at he
        cases List.mem_singleton.mp he
        exact (Option.some.inj hd').symm
    rw [hd, hverified] at hreason
    cases hreason

theorem delivery_granted {d : δ} {token : ℕ} {now : Int} {stop : ProcessEnd}
    (h : T.granted py s d token now = (s', stop, es)) : ∀ e ∈ es, ∀ d' ∈ e.delivery, d' = d := by
  unfold granted at h
  split_ifs at h
  · cases h
    simp [LoopEvent.delivery]
  · cases hadmission : T.svc.runner.admission py (T.intent d) now <;> rw [hadmission] at h <;>
      cases h <;> simp [LoopEvent.delivery]

/-- The events between two awaits of `process` are about its delivery. -/
theorem delivery_answered {d : δ} {now : Int} {await : ProcessAwait} {answer : AwaitAnswer}
    {stop : ProcessEnd} (h : T.answered py s d now await answer = some (s', stop, es)) :
    ∀ e ∈ es, ∀ d' ∈ e.delivery, d' = d := by
  unfold answered at h
  split at h
  case h_5 token => exact delivery_granted (Option.some.inj h)
  all_goals try split at h
  all_goals cases h
  all_goals simp [LoopEvent.delivery]

/-- From an await that a refused delivery leads to, it is led to another such await. -/
theorem gated_answered {d : δ} {now : Int} {await : ProcessAwait} {answer : AwaitAnswer}
    {stop : ProcessEnd}
    (hawait : ∀ reason, T.verified d = some reason → await.Refused reason)
    (h : T.answered py s d now await answer = some (s', stop, es)) :
    (∀ next reason, stop = .await next → T.verified d = some reason → next.Refused reason) ∧
      ∀ e ∈ es, e.Gated T := by
  cases hverified : T.verified d with
  | none =>
    refine ⟨fun _ _ _ h => (by cases h), fun e he d' hd' reason hreason => ?_⟩
    rw [delivery_answered h e he d' hd', hverified] at hreason
    cases hreason
  | some reason =>
    suffices hcase : (∀ next, stop = .await next → next.Refused reason) ∧
        ∀ e ∈ es, e = .deadLettered d reason ∨ e = .committed d by
      refine ⟨fun next reason' hstop heq => ?_, fun e he d' hd' reason' hreason' => ?_⟩
      · cases heq
        exact hcase.1 next hstop
      · rw [delivery_answered h e he d' hd', hverified] at hreason'
        cases hreason'
        rw [delivery_answered h e he d' hd']
        exact hcase.2 e he
    rcases hawait reason hverified with rfl | rfl
    · cases answer <;> cases h <;> simp [ProcessAwait.Refused]
    · cases answer <;> cases h <;> simp

theorem gated_set {t : ℕ} {task : LoopTask δ} (h : s.Gated T)
    (htasks : s'.tasks = s.tasks.set t task) (htask : task.Gated T) : s'.Gated T := by
  intro task' hmem
  rw [htasks] at hmem
  rcases List.mem_or_eq_of_mem_set hmem with hmem | rfl
  · exact h task' hmem
  · exact htask

theorem gated_spawn {task : LoopTask δ} (h : s.Gated T) (htasks : s'.tasks = s.tasks ++ [task])
    (htask : task.Gated T) : s'.Gated T := by
  intro task' hmem
  rw [htasks] at hmem
  rcases List.mem_append.mp hmem with hmem | hmem
  · exact h task' hmem
  · exact List.mem_singleton.mp hmem ▸ htask

theorem gated_settle {t : ℕ} {d : δ} {worker : Bool} {stop : ProcessEnd} (h : s.Gated T)
    (hstop : ∀ next reason, stop = .await next → T.verified d = some reason →
      next.Refused reason) : (T.settle s t d worker stop).Gated T := by
  cases stop with
  | await next => exact gated_set h rfl fun reason => hstop next reason rfl
  | returned claim =>
    have htasks : (T.settle s t d worker (.returned claim)).tasks =
        s.tasks.set t (if worker then .receiving (T.partition d) else .ended .returned) := by
      show ((T.dropped s d claim).setTask t _).tasks = _
      unfold dropped
      split_ifs <;> rfl
    refine gated_set h htasks ?_
    cases worker <;> trivial
  | raised => exact gated_set h rfl trivial

/-- A release of partitions is not about a delivery. -/
theorem gated_releaseClaims {partitions : List String} {task : LoopTask δ}
    (h : s.releaseClaims partitions = (s', task, es)) :
    s'.tasks = s.tasks ∧ task.Gated T ∧ ∀ e ∈ es, e.Gated T := by
  obtain ⟨_, _, _, heq, -, htasks, -, htask, hes⟩ := s.releaseClaims_cases partitions
  rw [h] at heq
  cases heq
  refine ⟨htasks, ?_, fun e he d hd => ?_⟩
  · cases task with
    | processing d await worker => exact absurd rfl (htask d await worker)
    | _ => trivial
  · rcases hes with rfl | ⟨_, _, _, -, -, -, -, rfl⟩
    · cases he
    · cases List.mem_singleton.mp he
      cases hd

/-- **One step keeps the gate.** -/
theorem gated_step {a : LoopAct δ} (hs : s.Gated T) (h : T.perform py s a = some (s', es)) :
    s'.Gated T ∧ ∀ e ∈ es, e.Gated T := by
  cases a with
  | ensureWorker partition =>
    simp only [perform] at h
    split at h
    · cases h
      exact ⟨hs, by simp⟩
    · cases h
      exact ⟨gated_spawn hs rfl trivial, by simp⟩
  | deliver t d now =>
    simp only [perform] at h
    split at h
    · split_ifs at h
      cases h
      obtain ⟨hawait, hes⟩ := T.gated_received d now
      exact ⟨gated_set hs rfl hawait, hes⟩
    · cases h
  | finish t =>
    simp only [perform] at h
    split at h
    · cases h
      exact ⟨gated_set hs rfl trivial, by simp⟩
    · cases h
  | process d now =>
    simp only [perform] at h
    cases h
    obtain ⟨hawait, hes⟩ := T.gated_received d now
    exact ⟨gated_spawn hs rfl hawait, hes⟩
  | resume t now answer =>
    simp only [perform] at h
    split at h
    · rename_i d await worker htask
      obtain ⟨⟨s₁, stop, es₁⟩, hanswered, heq⟩ := Option.map_eq_some_iff.mp h
      cases heq
      obtain ⟨hstop, hes⟩ := gated_answered (hs _ (List.mem_of_getElem? htask)) hanswered
      refine ⟨gated_settle ?_ hstop, hes⟩
      rcases answered_cases hanswered with ⟨token, hgranted⟩ | ⟨rfl, -, -⟩
      · obtain ⟨_, _, -, -, htasks, -⟩ := granted_cases hgranted
        exact fun task hmem => hs task (htasks ▸ hmem)
      · exact hs
    · cases h
  | cancel t =>
    obtain ⟨task, htask, h⟩ := Option.bind_eq_some_iff.mp h
    cases task with
    | ended how => cases h
    | joining partition worker =>
      rcases hrelease : s.releaseClaims [partition] with ⟨s₁, next, es₁⟩
      rw [cancelled, hrelease] at h
      cases h
      obtain ⟨htasks, hnext, hes⟩ := gated_releaseClaims (T := T) hrelease
      exact ⟨gated_set hs (by rw [LoopState.setTask, htasks]) hnext, hes⟩
    | _ =>
      cases h
      exact ⟨gated_set hs rfl trivial, by simp⟩
  | revoke partition =>
    simp only [perform] at h
    split at h
    · cases h
      exact ⟨gated_spawn hs rfl trivial, by simp⟩
    · rcases hrelease : s.releaseClaims [partition] with ⟨s₁, next, es₁⟩
      rw [hrelease] at h
      cases h
      obtain ⟨htasks, hnext, hes⟩ := gated_releaseClaims (T := T) hrelease
      exact ⟨gated_spawn hs (by rw [LoopState.spawn, htasks]) hnext, hes⟩
  | stop =>
    simp only [perform] at h
    cases h
    exact ⟨gated_spawn hs rfl trivial, by simp⟩
  | close =>
    rcases hrelease : s.releaseClaims s.claims.keys with ⟨s₁, next, es₁⟩
    rw [perform, hrelease] at h
    cases h
    obtain ⟨htasks, hnext, hes⟩ := gated_releaseClaims (T := T) hrelease
    exact ⟨gated_spawn hs (by rw [LoopState.spawn, htasks]) hnext, hes⟩
  | joined t =>
    obtain ⟨task, htask, h⟩ := Option.bind_eq_some_iff.mp h
    cases task with
    | joining partition worker =>
      simp only [joined] at h
      split at h
      · cases h
        exact ⟨gated_set hs rfl trivial, by simp⟩
      · rcases hrelease : s.releaseClaims [partition] with ⟨s₁, next, es₁⟩
        rw [hrelease] at h
        cases h
        obtain ⟨htasks, hnext, hes⟩ := gated_releaseClaims (T := T) hrelease
        exact ⟨gated_set hs (by rw [LoopState.setTask, htasks]) hnext, hes⟩
      · cases h
    | gathering workers =>
      simp only [joined] at h
      split_ifs at h
      cases h
      exact ⟨gated_set hs rfl trivial, by simp⟩
    | _ => cases h
  | released t raises =>
    simp only [perform] at h
    split at h
    · split_ifs at h
      · cases h
        exact ⟨gated_set hs rfl trivial, by simp⟩
      · rename_i rest _ _
        rcases hrelease : s.releaseClaims rest with ⟨s₁, next, es₁⟩
        rw [hrelease] at h
        cases h
        obtain ⟨htasks, hnext, hes⟩ := gated_releaseClaims (T := T) hrelease
        exact ⟨gated_set hs (by rw [LoopState.setTask, htasks]) hnext, hes⟩
    · cases h

/-- **A refused delivery only causes its dead letter and its commit**, in every run. -/
theorem run_gated {acts : List (LoopAct δ)} (h : (T.machine py).Run {} acts es s) :
    ∀ e ∈ es, e.Gated T := by
  refine (h.invariant (I := fun _ es s => s.Gated T ∧ ∀ e ∈ es, e.Gated T)
    ⟨by simp [LoopState.Gated], by simp⟩ fun _ ⟨hs, hes⟩ hstep => ?_).2
  obtain ⟨hs', hes'⟩ := gated_step hs hstep
  refine ⟨hs', fun e he => ?_⟩
  rcases List.mem_append.mp he with he | he
  · exact hes e he
  · exact hes' e he

/-- The effector that verifies the messages that are delivered. -/
def verifying (T : EffectorLoop δ) (digest : Bytes → Bytes → Bytes)
    (keyring : String → Option Bytes) (message : δ → ToolIntentMessage) : EffectorLoop δ :=
  { T with verify := fun d => verifyIntent digest (message d) keyring }

/-- In require mode every delivery that does not verify is refused. -/
theorem verified_eq_some (hmode : T.svc.verifyIntents = .require) {d : δ} (h : T.verify d ≠ .ok) :
    T.verified d = some (T.verify d) := by
  unfold verified
  rw [hmode]
  cases hverify : T.verify d with
  | ok => exact absurd hverify h
  | _ => rfl

/-- **The verification gate.** Let the digest tell keys and messages apart. A signed intent verifies
under every keyring that maps the id to the key. Under its signature nothing verifies but the fields
that were signed, by the scheme and under an id of the key, and with another signature these do not.
In require mode, what a delivery that does not verify causes is its dead letter and its commit. -/
theorem verification_gate {digest : Bytes → Bytes → Bytes} (hinj : Function.Injective2 digest)
    (hne : ∀ key message, digest key message ≠ []) (m : ToolIntentMessage) (keyId : String)
    (key : Bytes) :
    (∀ keyring : String → Option Bytes, keyring keyId = some key →
      verifyIntent digest (signIntent digest m keyId key) keyring = .ok) ∧
    (∀ (keyring : String → Option Bytes) (m' : ToolIntentMessage),
      m'.signature = (signIntent digest m keyId key).signature →
      (verifyIntent digest m' keyring = .ok ↔ m'.unsigned = m.unsigned ∧
        m'.signatureScheme = schemeHmacSha256 ∧ keyring m'.signingKeyId = some key)) ∧
    (∀ (keyring : String → Option Bytes) (m' : ToolIntentMessage), m'.unsigned = m.unsigned →
      keyring m'.signingKeyId = some key →
      m'.signature ≠ (signIntent digest m keyId key).signature →
      verifyIntent digest m' keyring ≠ .ok) ∧
    ∀ {δ : Type} (T : EffectorLoop δ) (keyring : String → Option Bytes)
      (message : δ → ToolIntentMessage), T.svc.verifyIntents = .require →
      ∀ (py : PyLib) (acts : List (LoopAct δ)) (es : List (LoopEvent δ)) (s : LoopState δ),
        ((T.verifying digest keyring message).machine py).Run {} acts es s →
        ∀ e ∈ es, ∀ d ∈ e.delivery, verifyIntent digest (message d) keyring ≠ .ok →
          e = .deadLettered d (verifyIntent digest (message d) keyring) ∨ e = .committed d :=
  ⟨fun _ hkey => verifyIntent_signIntent hne hkey m,
    fun _ _ hsignature => verifyIntent_eq_ok_iff_of_signature hinj hne hsignature,
    fun _ _ hunsigned hkey hsignature =>
      verifyIntent_ne_ok_of_signature_ne hne hunsigned hkey hsignature,
    fun T keyring message hmode _ _ _ _ hrun e he d hd hfails =>
      run_gated hrun e he d hd _
        (verified_eq_some (T := T.verifying digest keyring message) hmode hfails)⟩

/-! ### A run -/

/-- A key and a message as one sequence of bytes. -/
def keyed : Bytes → Bytes → Bytes
  | [], message => 0 :: message
  | b :: key, message => 1 :: b :: keyed key message

theorem keyed_injective : Function.Injective2 keyed := by
  intro key key' message message' h
  induction key generalizing key' with
  | nil =>
    cases key' with
    | nil => exact ⟨rfl, (List.cons.inj h).2⟩
    | cons b' key' => exact absurd (List.cons.inj h).1 (by decide)
  | cons b key ih =>
    cases key' with
    | nil => exact absurd (List.cons.inj h).1 (by decide)
    | cons b' key' =>
      simp only [keyed, List.cons.injEq, true_and] at h
      obtain ⟨rfl, rfl⟩ := ih h.2
      exact ⟨by rw [h.1], rfl⟩

theorem head_keyed (key message : Bytes) : (keyed key message).head? ≠ some 32 := by
  cases key <;> simp [keyed]

/-- The intent with the id `"a"`, as bytes. -/
def idBytes : Bytes := [10, 1, 97]

/-- `hmac.digest(b"k", b"\x0a\x01a", "sha256")`. -/
def idDigest : Bytes :=
  [32, 229, 31, 238, 151, 131, 152, 126, 49, 16, 184, 218, 172, 12, 177, 251, 200, 47, 222, 195, 9,
    249, 145, 172, 111, 75, 70, 206, 53, 177, 14, 247]

/-- The digest of that intent under the key `"k"`, and something else of every other message. -/
def sampleDigest (key message : Bytes) : Bytes :=
  if key = [107] ∧ message = idBytes then idDigest else keyed key message

theorem sampleDigest_injective : Function.Injective2 sampleDigest := by
  intro key key' message message' h
  unfold sampleDigest at h
  split_ifs at h with h₁ h₂ h₂
  · exact ⟨h₁.1.trans h₂.1.symm, h₁.2.trans h₂.2.symm⟩
  · exact absurd (congrArg List.head? h.symm) (head_keyed key' message')
  · exact absurd (congrArg List.head? h) (head_keyed key message)
  · exact keyed_injective h

theorem sampleDigest_ne_nil (key message : Bytes) : sampleDigest key message ≠ [] := by
  unfold sampleDigest
  split_ifs
  · decide
  · cases key <;> simp [keyed]

/-- The key `"k"` under the id `"k1"`. -/
def sampleKeyring (keyId : String) : Option Bytes := if keyId = "k1" then some [107] else none

/-- The effector in require mode, over deliveries that are messages. -/
def requiring : EffectorLoop ToolIntentMessage where
  svc := { leaseMs := 180, resultTtlMs := 1800, verifyIntents := .require,
           deadLetterSink := true, runner := { toolTimeoutMs := 80 } }
  intent d := { intentId := d.intentId }
  partition _ := "p"
  verify _ := .ok

/-- An intent without a signature is delivered, dead-lettered and committed. -/
def refusedRun : List (LoopAct ToolIntentMessage) :=
  [.process { intentId := "a" } 5, .resume 0 5 .done, .resume 0 5 .done]

/-- The signed intent verifies, and the one without a signature is refused. -/
theorem verification_gate_run :
    (signIntent sampleDigest { intentId := "a" } "k1" [107]).signature = idDigest ∧
    verifyIntent sampleDigest (signIntent sampleDigest { intentId := "a" } "k1" [107])
      sampleKeyring = .ok ∧
    ∃ es s, ((requiring.verifying sampleDigest sampleKeyring id).machine (.ofTable [])).Run {}
      refusedRun es s ∧ es.length = 2 ∧ ∀ e ∈ es, ∀ d ∈ e.delivery,
        verifyIntent sampleDigest d sampleKeyring ≠ .ok →
          e = .deadLettered d (verifyIntent sampleDigest d sampleKeyring) ∨ e = .committed d := by
  have hgate :=
    verification_gate sampleDigest_injective sampleDigest_ne_nil { intentId := "a" } "k1"
    [107]
  have hexec : ∃ es s, Machine.exec
      ((requiring.verifying sampleDigest sampleKeyring id).perform (.ofTable [])) {} refusedRun =
        some (es, s) ∧ es.length = 2 := ⟨[_, _], _, rfl, rfl⟩
  obtain ⟨es, s, hexec, hlength⟩ := hexec
  have hrun : ((requiring.verifying sampleDigest sampleKeyring id).machine (.ofTable [])).Run {}
      refusedRun es s := .of_exec (fun _ _ => id) hexec
  exact ⟨by decide +kernel, hgate.1 sampleKeyring rfl, es, s, hrun, hlength,
    hgate.2.2.2 requiring sampleKeyring id rfl _ _ _ _ hrun⟩

end EffectorLoop

end BeamAgents
