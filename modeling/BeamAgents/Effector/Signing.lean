import BeamAgents.Effector.Service
import BeamAgents.Protos.Intents
import Mathlib.Logic.Function.Basic

/-!
# Signing and verifying intents

`intent_signing.py`: a signature is the HMAC-SHA256 of the intent as bytes, with its three signature
fields cleared, under a key that the intent names. The digest is a parameter; what is used of it is
that it tells keys and messages apart and is not empty.

## Main definitions

* `signingInput`, `signIntent`, `verifyIntent`.

## Main results

* `verifyIntent_signIntent`: a signed intent verifies under every keyring that has its key.
* `verifyIntent_eq_ok_iff`, `verifyIntent_eq_ok_iff_of_signature`: what verifies under a signature.
-/

namespace BeamAgents

/-- `ToolIntent.HMAC_SHA256`. -/
def schemeHmacSha256 : Int32 := 1

/-- The intent with its signature fields cleared. -/
def ToolIntentMessage.unsigned (m : ToolIntentMessage) : ToolIntentMessage :=
  { m with signatureScheme := 0, signingKeyId := "", signature := [] }

/-- `signing_input`. -/
def signingInput (m : ToolIntentMessage) : Bytes := ToolIntentMessage.codec.serialize m.unsigned

section

-- `hmac.digest(key, message, "sha256")`.
variable (digest : Bytes → Bytes → Bytes)

/-- `sign_intent`. -/
def signIntent (m : ToolIntentMessage) (keyId : String) (key : Bytes) : ToolIntentMessage :=
  let signed := { m with signatureScheme := schemeHmacSha256, signingKeyId := keyId }
  { signed with signature := digest key (signingInput signed) }

/-- `verify_intent`. -/
def verifyIntent (m : ToolIntentMessage) (keyring : String → Option Bytes) : VerificationResult :=
  if m.signature = [] then .unsigned
  -- A scheme that this build cannot evaluate fails closed.
  else if m.signatureScheme ≠ schemeHmacSha256 then .badSignature
  else
    match keyring m.signingKeyId with
    | none => .unknownSigningKey
    | some key => if digest key (signingInput m) ≠ m.signature then .badSignature else .ok

end

variable {digest : Bytes → Bytes → Bytes}

@[simp] theorem unsigned_signIntent (m : ToolIntentMessage) (keyId : String) (key : Bytes) :
    (signIntent digest m keyId key).unsigned = m.unsigned := rfl

@[simp] theorem signature_signIntent (m : ToolIntentMessage) (keyId : String) (key : Bytes) :
    (signIntent digest m keyId key).signature = digest key (signingInput m) := rfl

/-- The signing input holds every field but those of the signature. -/
theorem signingInput_inj {m m' : ToolIntentMessage} :
    signingInput m = signingInput m' ↔ m.unsigned = m'.unsigned :=
  ToolIntentMessage.serialize_injective.eq_iff

/-- An intent verifies when it carries the digest of its own fields under the key that it names. -/
theorem verifyIntent_eq_ok_iff (hne : ∀ key message, digest key message ≠ [])
    {m : ToolIntentMessage} {keyring : String → Option Bytes} :
    verifyIntent digest m keyring = .ok ↔ m.signatureScheme = schemeHmacSha256 ∧
      ∃ key, keyring m.signingKeyId = some key ∧ m.signature = digest key (signingInput m) := by
  constructor
  · intro h
    unfold verifyIntent at h
    split_ifs at h with hsignature hscheme
    split at h
    · cases h
    · rename_i key hkey
      split_ifs at h with hdigest
      exact ⟨not_not.mp hscheme, key, hkey, (not_not.mp hdigest).symm⟩
  · rintro ⟨hscheme, key, hkey, hsignature⟩
    have hsome : m.signature ≠ [] := hsignature ▸ hne key _
    rw [verifyIntent, if_neg hsome, if_neg (not_not.mpr hscheme), hkey]
    exact if_neg (not_not.mpr hsignature.symm)

/-- **A signed intent verifies** under every keyring that maps the key's id to the key. -/
theorem verifyIntent_signIntent (hne : ∀ key message, digest key message ≠ [])
    {keyring : String → Option Bytes} {keyId : String} {key : Bytes}
    (hkey : keyring keyId = some key) (m : ToolIntentMessage) :
    verifyIntent digest (signIntent digest m keyId key) keyring = .ok :=
  (verifyIntent_eq_ok_iff hne).mpr ⟨rfl, key, hkey, rfl⟩

/-- **What verifies under a signature**: the intent that was signed, under an id of the same key. -/
theorem verifyIntent_eq_ok_iff_of_signature (hinj : Function.Injective2 digest)
    (hne : ∀ key message, digest key message ≠ []) {m m' : ToolIntentMessage} {key : Bytes}
    (hsignature : m'.signature = digest key (signingInput m)) {keyring : String → Option Bytes} :
    verifyIntent digest m' keyring = .ok ↔ m'.unsigned = m.unsigned ∧
      m'.signatureScheme = schemeHmacSha256 ∧ keyring m'.signingKeyId = some key := by
  rw [verifyIntent_eq_ok_iff hne]
  constructor
  · rintro ⟨hscheme, key', hkey', hdigest⟩
    obtain ⟨rfl, hinput⟩ := hinj (hsignature.symm.trans hdigest)
    exact ⟨(signingInput_inj.mp hinput).symm, hscheme, hkey'⟩
  · rintro ⟨hunsigned, hscheme, hkey⟩
    exact ⟨hscheme, key, hkey, by rw [hsignature, signingInput_inj.mpr hunsigned]⟩

/-- Another signature of the same fields under an id of the same key does not verify. -/
theorem verifyIntent_ne_ok_of_signature_ne (hne : ∀ key message, digest key message ≠ [])
    {m m' : ToolIntentMessage} {key : Bytes} {keyring : String → Option Bytes}
    (hunsigned : m'.unsigned = m.unsigned) (hkey : keyring m'.signingKeyId = some key)
    (hsignature : m'.signature ≠ digest key (signingInput m)) :
    verifyIntent digest m' keyring ≠ .ok := by
  intro h
  obtain ⟨-, key', hkey', hdigest⟩ := (verifyIntent_eq_ok_iff hne).mp h
  rw [hkey] at hkey'
  cases hkey'
  rw [signingInput_inj.mpr hunsigned] at hdigest
  exact hsignature hdigest

end BeamAgents
