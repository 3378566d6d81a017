import BeamAgents.Effector.Consumer
import BeamAgents.Effector.Gate
import BeamAgents.Effector.Keyring
import BeamAgents.Protos.Traces

/-!
# The outbox

`_SerializeIntent` of `actions/write_intents.py`: an intent that an agent staged is signed, if the
pipeline has a signer, and written as bytes under the key of its entity. The effector reads these
bytes, and its verification gate lets them through when both keyrings agree on the key. HMAC pads a
key to a block, so that keys that differ by zeros at their ends are one key to it; what is used of
the rest of HMAC is that it tells blocks apart.

## Main definitions

* `ToolIntent.toMessage`: a staged intent as a message.
* `setupSigner`, `serializeIntent`.
* `hmacBlock`, `hmacDigest`: HMAC over the block of a key.

## Main results

* `outbox_delivered`: what the effector makes of an intent that the outbox wrote.
-/

namespace BeamAgents

open Wire Containers

/-! ### Staged intents as messages -/

/-- The number of a kind. -/
def IntentKind.number : IntentKind → Int32
  | .unspecified => 0
  | .tool => 1
  | .approval => 2

/-- A staged intent as a message, when its fields hold its numbers. -/
def ToolIntent.toMessage (intent : ToolIntent) : Option ToolIntentMessage := do
  let seq ← int64Of intent.seq
  let stepIndex ← uint32Of intent.stepIndex
  let createdAtMs ← int64Of intent.createdAtMs
  let expiresAtMs ← int64Of intent.expiresAtMs
  let attempt ← uint32Of intent.attempt
  return {
    intentId := intent.intentId, entityKey := intent.entityKey, seq, stepIndex
    toolName := intent.toolName, argsJson := intent.argsJson, createdAtMs, expiresAtMs, attempt
    kind := intent.kind.number, traceId := intent.traceId }

theorem int64Of_eq_some {n : Int} {x : Int64} (h : int64Of n = some x) : x.toInt = n := by
  unfold int64Of at h
  split_ifs at h with hfits
  rw [← Option.some.inj h, Int64.toInt_ofInt_of_le hfits.1 hfits.2]

theorem uint32Of_eq_some {n : Int} {x : UInt32} (h : uint32Of n = some x) : x.toNat = n.toNat := by
  unfold uint32Of at h
  split_ifs at h with hfits
  have hlt : n.toNat < 2 ^ 32 := by omega
  rw [← Option.some.inj h, UInt32.toNat_ofNat_of_lt' hlt]

/-- The message of an intent holds the intent, and no signature. -/
theorem ToolIntent.toMessage_intent {intent : ToolIntent} {m : ToolIntentMessage}
    (h : intent.toMessage = some m) : m.intent = intent ∧ m.unsigned = m := by
  simp only [toMessage, Option.bind_eq_bind, Option.bind_eq_some_iff] at h
  obtain ⟨seq, hseq, step, hstep, created, hcreated, expires, hexpires, attempt, hattempt, h⟩ := h
  cases h
  refine ⟨?_, rfl⟩
  have hkind : (if intent.kind.number = 1 then IntentKind.tool
      else if intent.kind.number = 2 then .approval else .unspecified) = intent.kind := by
    cases intent.kind <;> rfl
  simp only [ToolIntentMessage.intent, int64Of_eq_some hseq, uint32Of_eq_some hstep,
    int64Of_eq_some hcreated, int64Of_eq_some hexpires, uint32Of_eq_some hattempt, hkind,
    Int.toNat_natCast]

/-! ### The outbox -/

/-- `_SerializeIntent.setup`: the key id and the key to sign with. -/
def setupSigner (py : PyLib) (store : SecretStore) (signer : Option (IntentSigner py)) :
    Except PyExn (Option (String × Bytes)) :=
  match signer with
  | none => .ok none
  | some signer => (signer.resolveKey py store).map fun key => some (signer.keyId, key)

/-- `_SerializeIntent.process`, where it does not raise. -/
def serializeIntent (digest : Bytes → Bytes → Bytes) (signer : Option (String × Bytes))
    (element : Bytes × ToolIntentMessage) : Bytes × Bytes :=
  let intent :=
    match signer with
    | none => element.2
    | some (keyId, key) => signIntent digest element.2 keyId key
  (element.1, ToolIntentMessage.codec.serialize intent)

/-! ### HMAC -/

/-- The block of a key: a key of more than 64 bytes is hashed, and zeros fill the block. -/
def hmacBlock (py : PyLib) (key : Bytes) : Bytes :=
  let key := if 64 < key.length then py.sha256 key else key
  key ++ List.replicate (64 - key.length) 0

/-- `hmac.digest(key, message, "sha256")`, by what it does with the block of the key. -/
def hmacDigest (py : PyLib) (mac : Bytes → Bytes → Bytes) (key message : Bytes) : Bytes :=
  mac (hmacBlock py key) message

section Delivered

variable {mac : Bytes → Bytes → Bytes} {py : PyLib} {store : SecretStore}

/-- A resolved key is the one that the keyring has under the id of the signer. -/
theorem IntentSigner.resolveKey_eq_ok {signer : IntentSigner py} {key : Bytes}
    (h : signer.resolveKey py store = .ok key) :
    ∃ ring, loadKeyring py store signer.keyReference = .ok ring ∧
      ring.get? signer.keyId = some key := by
  unfold resolveKey at h
  cases hload : loadKeyring py store signer.keyReference with
  | error e => rw [hload] at h; cases h
  | ok ring =>
    rw [hload] at h
    refine ⟨ring, rfl, ?_⟩
    cases hkey : ring.get? signer.keyId with
    | none => simp only [bind, Except.bind, hkey] at h; cases h
    | some key' => simp only [bind, Except.bind, hkey] at h; cases h; rfl

variable (py) in
/-- A signed intent verifies under exactly the keyrings that have a key of the same block. -/
theorem verifyIntent_signed (hinj : ∀ message, Function.Injective fun block => mac block message)
    (hne : ∀ block message, mac block message ≠ []) (m : ToolIntentMessage) (keyId : String)
    (key : Bytes) (keyring : String → Option Bytes) :
    (verifyIntent (hmacDigest py mac) (signIntent (hmacDigest py mac) m keyId key) keyring = .ok ↔
      ∃ own, keyring keyId = some own ∧ hmacBlock py own = hmacBlock py key) ∧
    verifyIntent (hmacDigest py mac) (signIntent (hmacDigest py mac) m keyId key) keyring ≠
      .unsigned := by
  have hdigest (key message : Bytes) : hmacDigest py mac key message ≠ [] := hne _ message
  have hsignature : (signIntent (hmacDigest py mac) m keyId key).signature =
      hmacDigest py mac key (signingInput m) := signature_signIntent m keyId key
  refine ⟨?_, ?_⟩
  · rw [verifyIntent_eq_ok_iff hdigest, hsignature]
    constructor
    · rintro ⟨-, own, hown, hsame⟩
      exact ⟨own, hown, (hinj (signingInput m) hsame).symm⟩
    · rintro ⟨own, hown, hblock⟩
      exact ⟨rfl, own, hown, congrArg (mac · (signingInput m)) hblock.symm⟩
  · rw [verifyIntent, if_neg (hsignature ▸ hdigest key _)]
    split_ifs
    · rintro ⟨⟩
    · split
      · rintro ⟨⟩
      · split_ifs <;> rintro ⟨⟩

/-- What the gate lets through. -/
theorem EffectorLoop.verified_eq_none_iff {δ : Type} {T : EffectorLoop δ} {d : δ} :
    T.verified d = none ↔ T.svc.verifyIntents = .off ∨ T.verify d = .ok ∨
      (T.verify d = .unsigned ∧ T.svc.verifyIntents = .permissive) := by
  unfold verified
  cases T.verify d <;> cases T.svc.verifyIntents <;> simp

/-- **The outbox and the gate.** What an agent staged is what the effector reads, in every field,
under the key that the element had, signed or not. A signed intent passes the gate exactly when the
effector's keyring has, under the id of the signer, a key of the same block as the pipeline's, or
the gate is off; one that is not signed passes unless the gate requires signatures. -/
theorem outbox_delivered (hinj : ∀ message, Function.Injective fun block => mac block message)
    (hne : ∀ block message, mac block message ≠ []) {signer : Option (IntentSigner py)}
    {resolved : Option (String × Bytes)} (hsetup : setupSigner py store signer = .ok resolved)
    {intent : ToolIntent} {m : ToolIntentMessage} (hm : intent.toMessage = some m) (key : Bytes)
    (hfits : (serializeIntent (hmacDigest py mac) resolved (key, m)).2.length ≤ 2 ^ 31 - 1) :
    let element := serializeIntent (hmacDigest py mac) resolved (key, m)
    element.1 = key ∧ parseIntent element.2 = some intent ∧
    ∃ m', ToolIntentMessage.codec.parse element.2 = some m' ∧ m'.unsigned = m ∧
      ∀ (T : EffectorLoop ToolIntentMessage) (keyring : Keyring),
        (T.verifying (hmacDigest py mac) keyring.get? id).verified m' = none ↔
          T.svc.verifyIntents = .off ∨ (signer = none ∧ T.svc.verifyIntents = .permissive) ∨
          ∃ s ring shared own, signer = some s ∧ loadKeyring py store s.keyReference = .ok ring ∧
            ring.get? s.keyId = some shared ∧ keyring.get? s.keyId = some own ∧
              hmacBlock py own = hmacBlock py shared := by
  obtain ⟨hintent, hunsigned⟩ := ToolIntent.toMessage_intent hm
  refine ⟨rfl, ?_⟩
  cases signer with
  | none =>
    cases hsetup
    have hparse : ToolIntentMessage.codec.parse
        (serializeIntent (hmacDigest py mac) none (key, m)).2 = some m :=
      MessageCodec.parse_serialize hfits
    have hverify (keyring : Keyring) :
        verifyIntent (hmacDigest py mac) m keyring.get? = .unsigned := by
      rw [← hunsigned]
      rfl
    refine ⟨by rw [parseIntent, hparse, Option.map_some, hintent], m, hparse, hunsigned,
      fun T keyring => ?_⟩
    have hpassed : (T.verifying (hmacDigest py mac) keyring.get? id).verify m = .unsigned :=
      hverify keyring
    rw [EffectorLoop.verified_eq_none_iff, hpassed]
    simp [EffectorLoop.verifying]
  | some s =>
    simp only [setupSigner] at hsetup
    cases hkey : s.resolveKey py store with
    | error e => rw [hkey] at hsetup; cases hsetup
    | ok signing =>
      rw [hkey] at hsetup
      cases hsetup
      obtain ⟨ring, hload, hring⟩ := s.resolveKey_eq_ok hkey
      have hparse : ToolIntentMessage.codec.parse
          (serializeIntent (hmacDigest py mac) (some (s.keyId, signing)) (key, m)).2 =
          some (signIntent (hmacDigest py mac) m s.keyId signing) :=
        MessageCodec.parse_serialize hfits
      have hread : (signIntent (hmacDigest py mac) m s.keyId signing).intent = m.intent := rfl
      refine ⟨by rw [parseIntent, hparse, Option.map_some, hread, hintent], _, hparse, ?_,
        fun T keyring => ?_⟩
      · rw [unsigned_signIntent, hunsigned]
      obtain ⟨hok, hsigned⟩ := verifyIntent_signed py hinj hne m s.keyId signing keyring.get?
      rw [EffectorLoop.verified_eq_none_iff]
      refine or_congr_right ⟨?_, ?_⟩
      · rintro (hpassed | ⟨hunsigned', -⟩)
        · obtain ⟨own, hown, hblock⟩ := hok.mp hpassed
          exact .inr ⟨s, ring, signing, own, rfl, hload, hring, hown, hblock⟩
        · exact absurd hunsigned' hsigned
      · rintro (⟨hnone, -⟩ | ⟨s', ring', shared, own, hs, hload', hring', hown, hblock⟩)
        · cases hnone
        · cases hs
          cases hload.symm.trans hload'
          cases hring.symm.trans hring'
          exact .inl (hok.mpr ⟨own, hown, hblock⟩)

end Delivered

/-- The environment of a pipeline with the key `"k"` under the id `"k1"`. -/
def signingStore : SecretStore where
  env name := if name = "RING" then some "k1=aw==\n" else none
  file _ := .error "No such file or directory"

/-- HMAC as it is on the intent and the key of `EffectorLoop.sampleDigest`. -/
def sampleMac (block message : Bytes) : Bytes :=
  EffectorLoop.sampleDigest (Equiv.swap [107] (hmacBlock (.ofTable []) [107]) block) message

theorem sampleMac_injective (message : Bytes) :
    Function.Injective fun block => sampleMac block message := fun _ _ h =>
  Equiv.injective _ (EffectorLoop.sampleDigest_injective h).1

theorem sampleMac_ne_nil (block message : Bytes) : sampleMac block message ≠ [] :=
  EffectorLoop.sampleDigest_ne_nil _ message

/-- An intent signed under that key passes a gate that requires signatures and has the key, or the
key with a zero at its end; an unsigned one does not. -/
theorem outbox_delivered_signed :
    ∃ payload, parseIntent payload = some { intentId := "a" } ∧
      (∃ m, ToolIntentMessage.codec.parse payload = some m ∧
        ∀ key ∈ [[107], [107, 0]],
          (EffectorLoop.requiring.verifying (hmacDigest (.ofTable []) sampleMac)
            (Dict.ofList [("k1", key)]).get? id).verified m = none) ∧
      ∃ m, ToolIntentMessage.codec.parse [10, 1, 97] = some m ∧
        (EffectorLoop.requiring.verifying (hmacDigest (.ofTable []) sampleMac)
          (Dict.ofList [("k1", [107])]).get? id).verified m ≠ none := by
  let signer : IntentSigner (.ofTable []) := {
    keyId := "k1", keyReference := "env:RING", keyId_ne := by decide, valid := rfl }
  have hload : loadKeyring (.ofTable []) signingStore "env:RING" =
      .ok (Dict.ofList [("k1", [107])]) := rfl
  have hsetup : setupSigner (.ofTable []) signingStore (some signer) =
      .ok (some ("k1", [107])) := by
    have hkey : signer.resolveKey (.ofTable []) signingStore = .ok [107] := by
      rw [IntentSigner.resolveKey, hload]
      rfl
    rw [setupSigner, hkey]
    rfl
  have hm : ToolIntent.toMessage { intentId := "a" } = some { intentId := "a" } := rfl
  obtain ⟨-, hparse, m, hmessage, -, hgate⟩ := outbox_delivered sampleMac_injective
    sampleMac_ne_nil hsetup hm [7] (by decide +kernel)
  have hunsigned : setupSigner (.ofTable []) signingStore none = .ok none := rfl
  obtain ⟨-, -, m', hmessage', -, hgate'⟩ := outbox_delivered sampleMac_injective
    sampleMac_ne_nil hunsigned hm [7] (by decide +kernel)
  refine ⟨_, hparse, ⟨m, hmessage, fun key hkey => (hgate _ _).mpr (.inr (.inr ?_))⟩, m',
    hmessage', ?_⟩
  · rcases List.mem_pair.mp hkey with rfl | rfl
    · exact ⟨signer, _, [107], [107], rfl, hload, rfl, rfl, rfl⟩
    · exact ⟨signer, _, [107], [107, 0], rfl, hload, rfl, rfl, by decide⟩
  · intro hpassed
    rcases (hgate' _ _).mp hpassed with h | ⟨-, h⟩ | ⟨_, _, _, _, h, -⟩ <;> cases h

end BeamAgents
