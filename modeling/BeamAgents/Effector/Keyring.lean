import BeamAgents.Containers.Dict
import BeamAgents.Observability.Traces
import BeamAgents.Protos
import BeamAgents.Wire.Base64
import BeamAgents.Wire.Text

/-!
# Keyrings

The keyring of `intent_signing.py`, which the pipeline signs with and the effector verifies with: a
text, named by a reference to an environment variable or to a file, whose lines are
`key_id=base64(key)`, comments or blank. What an error says of the text is the number of its line.

## Main definitions

* `validateSecretReference`, `resolveSecretReference`.
* `readKeyringLine`, `loadKeyring`.
* `IntentSigner`, `IntentSigner.resolveKey`.
* `KeyringLine.Written`: how lines are written.

## Main results

* `loadKeyring_eq`: what is loaded, in terms of the lines.
* `loadKeyring_secret`: written keyrings are loaded, and errors keep the keys to themselves.
-/

namespace BeamAgents

open Containers Wire

variable (py : PyLib)

/-! ### References -/

/-- What a process sees of its surroundings. -/
structure SecretStore where
  /-- `os.environ.get`. -/
  env : String → Option String
  /-- `Path.read_text`, and the text of the error where it raises. -/
  file : String → Except String String

/-- A `ValueError` with this message. -/
def secretError (message : String) : PyExn where
  typeName := "ValueError"
  repr := py.exnRepr "ValueError" message

/-- The kind and the target of a secret reference. -/
def parseReference (fieldName reference : String) : Except PyExn (String × String) :=
  let refused := secretError py (s!"{fieldName}: {py.reprStr reference} is not a secret " ++
    "reference; expected 'env:VAR_NAME' or 'file:/path'. Secrets are supplied by reference so " ++
    "the value never reaches configuration, a repr, or argv.")
  match Text.partition ':' reference.toList with
  | none => .error refused
  | some (kind, target) =>
    if String.ofList kind ∉ ["env", "file"] then .error refused
    else if target = [] then
      .error (secretError py s!"{fieldName}: {py.reprStr reference} names nothing after its prefix")
    else .ok (String.ofList kind, String.ofList target)

/-- `validate_secret_reference`. -/
def validateSecretReference (fieldName reference : String) : Except PyExn Unit :=
  (parseReference py fieldName reference).map fun _ => ()

/-- `resolve_secret_reference`. -/
def resolveSecretReference (store : SecretStore) (fieldName reference : String) :
    Except PyExn String := do
  let (kind, target) ← parseReference py fieldName reference
  if kind = "env" then
    match store.env target with
    | none => .error (secretError py (s!"{fieldName}: environment variable " ++
        s!"{py.reprStr target} is not set; the deployment's secret manager must materialize it " ++
        "before the process starts"))
    | some value => .ok (String.ofList (Text.strip value.toList))
  else
    match store.file target with
    | .error strerror => .error (secretError py
        s!"{fieldName}: cannot read {py.reprStr target}: {strerror}")
    | .ok text => .ok (String.ofList (Text.strip text.toList))

/-! ### Keyrings -/

/-- A keyring. -/
abbrev Keyring := Dict String Bytes

/-- What a line of a keyring is read as. -/
inductive KeyringLine
  | ignored
  | entry (keyId : String) (key : Bytes)
  | malformed
  | badMaterial
  deriving DecidableEq

/-- One round of the loop of `load_keyring`. -/
def readKeyringLine (line : List Char) : KeyringLine :=
  let entry := Text.strip line
  if entry = [] ∨ entry.head? = some '#' then .ignored
  else
    match Text.partition '=' entry with
    | none => .malformed
    | some (keyId, encoded) =>
      if Text.strip keyId = [] then .malformed
      else
        match Base64.decodeStrict (Text.strip encoded) with
        | none => .badMaterial
        | some key => .entry (String.ofList (Text.strip keyId)) key

/-- The error of a line that is no entry. -/
def malformedEntry (reference : String) (number : ℕ) : PyExn :=
  secretError py (s!"intent signing keyring {py.reprStr reference}: malformed entry on line " ++
    s!"{number}; expected 'key_id=base64(key)'")

/-- The error of a line whose key is not base64. -/
def badKeyMaterial (reference : String) (number : ℕ) : PyExn :=
  secretError py (s!"intent signing keyring {py.reprStr reference}: key material on line " ++
    s!"{number} is not valid base64")

/-- The error of a keyring without keys. -/
def emptyKeyring (reference : String) : PyExn :=
  secretError py (s!"intent signing keyring {py.reprStr reference} carries no keys; a verifying " ++
    "mode needs at least one 'key_id=base64(key)' entry")

/-- The loop of `load_keyring`. -/
def loadLines (reference : String) : ℕ → List (List Char) → Keyring → Except PyExn Keyring
  | _, [], keyring => .ok keyring
  | number, line :: lines, keyring =>
    match readKeyringLine line with
    | .ignored => loadLines reference (number + 1) lines keyring
    | .entry keyId key => loadLines reference (number + 1) lines (keyring.set keyId key)
    | .malformed => .error (malformedEntry py reference number)
    | .badMaterial => .error (badKeyMaterial py reference number)

/-- `load_keyring`. -/
def loadKeyring (store : SecretStore) (reference : String) : Except PyExn Keyring := do
  let raw ← resolveSecretReference py store "intent signing keyring" reference
  let keyring ← loadLines py reference 1 (Text.splitLines raw.toList) Dict.empty
  if keyring.items = [] then .error (emptyKeyring py reference) else .ok keyring

/-! ### Signers -/

/-- `IntentSigner`, validated. Its scheme is the one that can be computed. -/
structure IntentSigner where
  keyId : String
  keyReference : String
  keyId_ne : keyId ≠ ""
  valid : validateSecretReference py "IntentSigner.key_reference" keyReference = .ok ()

/-- `IntentSigner.resolve_key`. -/
def IntentSigner.resolveKey (signer : IntentSigner py) (store : SecretStore) :
    Except PyExn Bytes := do
  let keyring ← loadKeyring py store signer.keyReference
  match keyring.get? signer.keyId with
  | some key => .ok key
  | none =>
    let keyIds := keyring.keys.mergeSort fun a b => decide (a ≤ b)
    let carried := ", ".intercalate (keyIds.map py.reprStr)
    .error (secretError py (s!"IntentSigner.key_id {py.reprStr signer.keyId} is absent from the " ++
      s!"keyring at {py.reprStr signer.keyReference}, which carries [{carried}]"))

/-! ### What the lines come to -/

namespace KeyringLine

/-- The entry of a line. -/
def entry? : KeyringLine → Option (String × Bytes)
  | .entry keyId key => some (keyId, key)
  | _ => none

/-- What kind of line a line is, without what it holds. -/
def kind : KeyringLine → KeyringLine
  | .entry _ _ => .entry "" []
  | line => line

end KeyringLine

/-- What the first bad line of a keyring raises. -/
def keyringFault (reference : String) : ℕ → List KeyringLine → Option PyExn
  | _, [] => none
  | number, .malformed :: _ => some (malformedEntry py reference number)
  | number, .badMaterial :: _ => some (badKeyMaterial py reference number)
  | number, _ :: lines => keyringFault reference (number + 1) lines

/-- The lines of a keyring. -/
def keyringLines (raw : String) : List KeyringLine :=
  (Text.splitLines raw.toList).map readKeyringLine

/-- The entries of a keyring, in order. -/
def keyringEntries (raw : String) : List (String × Bytes) :=
  (keyringLines raw).filterMap KeyringLine.entry?

section Lines

variable {py} {reference : String}

/-- The kinds of the lines decide what is raised. -/
theorem keyringFault_kind (number : ℕ) (lines : List KeyringLine) :
    keyringFault py reference number (lines.map KeyringLine.kind) =
      keyringFault py reference number lines := by
  induction lines generalizing number with
  | nil => rfl
  | cons line lines ih =>
    cases line with
    | ignored => exact ih _
    | entry keyId key => exact ih _
    | malformed => rfl
    | badMaterial => rfl

/-- An error tells the number of a line, and which of two things is wrong with it. -/
theorem keyringFault_eq_some {number : ℕ} {lines : List KeyringLine} {e : PyExn}
    (h : keyringFault py reference number lines = some e) :
    ∃ k < lines.length, e = malformedEntry py reference (number + k) ∨
      e = badKeyMaterial py reference (number + k) := by
  induction lines generalizing number with
  | nil => cases h
  | cons line lines ih =>
    have hrest (h : keyringFault py reference (number + 1) lines = some e) :
        ∃ k < (line :: lines).length, e = malformedEntry py reference (number + k) ∨
          e = badKeyMaterial py reference (number + k) := by
      obtain ⟨k, hk, he⟩ := ih h
      refine ⟨k + 1, Nat.succ_lt_succ hk, ?_⟩
      rwa [Nat.add_comm k 1, ← Nat.add_assoc]
    cases line with
    | ignored => exact hrest h
    | entry keyId key => exact hrest h
    | malformed => exact ⟨0, Nat.succ_pos _, .inl (Option.some.inj h).symm⟩
    | badMaterial => exact ⟨0, Nat.succ_pos _, .inr (Option.some.inj h).symm⟩

/-- The entries are stored in order, unless a line is bad. -/
theorem loadLines_eq (number : ℕ) (lines : List (List Char)) (keyring : Keyring) :
    loadLines py reference number lines keyring =
      match keyringFault py reference number (lines.map readKeyringLine) with
      | some e => .error e
      | none => .ok (((lines.map readKeyringLine).filterMap KeyringLine.entry?).foldl
          (fun keyring entry => keyring.set entry.1 entry.2) keyring) := by
  induction lines generalizing number keyring with
  | nil => rfl
  | cons line lines ih =>
    rw [loadLines, List.map_cons]
    cases readKeyringLine line with
    | ignored => exact ih _ _
    | entry keyId key => exact ih _ _
    | malformed => rfl
    | badMaterial => rfl

theorem items_foldl_set {κ ν : Type} [DecidableEq κ] {d : Dict κ ν} (l : List (κ × ν))
    (h : d.items ≠ []) : (l.foldl (fun d p => d.set p.1 p.2) d).items ≠ [] := by
  induction l generalizing d with
  | nil => exact h
  | cons p l ih =>
    refine ih ?_
    unfold Dict.set
    dsimp only
    split_ifs
    · exact fun hnil => h (List.map_eq_nil_iff.mp hnil)
    · exact List.append_ne_nil_of_right_ne_nil _ (List.cons_ne_nil _ _)

/-- A dictionary is empty when nothing was loaded. -/
theorem items_ofList_eq_nil_iff {κ ν : Type} [DecidableEq κ] {l : List (κ × ν)} :
    (Dict.ofList l).items = [] ↔ l = [] := by
  constructor
  · intro h
    cases l with
    | nil => rfl
    | cons p l =>
      have hset := List.append_ne_nil_of_right_ne_nil Dict.empty.items (List.cons_ne_nil p [])
      exact absurd h (items_foldl_set l hset)
  · rintro rfl
    rfl

/-- What is loaded, in terms of the lines. -/
theorem loadKeyring_eq {store : SecretStore} {raw : String}
    (h : resolveSecretReference py store "intent signing keyring" reference = .ok raw) :
    loadKeyring py store reference =
      match keyringFault py reference 1 (keyringLines raw) with
      | some e => .error e
      | none =>
        if keyringEntries raw = [] then .error (emptyKeyring py reference)
        else .ok (Dict.ofList (keyringEntries raw)) := by
  have hlines : loadLines py reference 1 (Text.splitLines raw.toList) Dict.empty =
      match keyringFault py reference 1 (keyringLines raw) with
      | some e => .error e
      | none => .ok (Dict.ofList (keyringEntries raw)) := loadLines_eq 1 _ _
  rw [loadKeyring, h]
  simp only [bind, Except.bind, hlines]
  cases keyringFault py reference 1 (keyringLines raw) with
  | some e => rfl
  | none => exact if_congr items_ofList_eq_nil_iff rfl rfl

end Lines

/-! ### Written keyrings -/

/-- A key id as it may be written: without white space around it and without a separator, and not
to be taken for a comment. -/
structure IsKeyId (keyId : List Char) : Prop where
  nonempty : keyId ≠ []
  head : ∀ c ∈ keyId.head?, Text.isSpace c = false ∧ c ≠ '#'
  last : ∀ c ∈ keyId.getLast?, Text.isSpace c = false
  separator : '=' ∉ keyId

/-- Nothing but white space. -/
def Blank (text : List Char) : Prop := ∀ c ∈ text, Text.isSpace c

/-- A line as it may be written, and its entry. -/
inductive KeyringLine.Written : List Char → Option (String × Bytes) → Prop
  | blank {line} (h : Blank line) : Written line none
  | comment {left rest} (h : Blank left) : Written (left ++ '#' :: rest) none
  | entry {left middle middle' right keyId key} (hleft : Blank left) (hmiddle : Blank middle)
      (hmiddle' : Blank middle') (hright : Blank right) (hkeyId : IsKeyId keyId) :
      Written (left ++ (keyId ++ middle) ++ '=' :: (middle' ++ Base64.encodeStandard key ++ right))
        (some (String.ofList keyId, key))

section Written

variable {py} {reference : String} {line : List Char} {lines : List (List Char)}
  {contents : List (Option (String × Bytes))}

theorem isSpace_encodeStandard (key : Bytes) :
    ∀ c ∈ Base64.encodeStandard key, Text.isSpace c = false := by
  have hall : ∀ n : Fin 64, Text.isSpace (Base64.standardChar (Base64.digitChar n)) = false := by
    decide
  have hdigit {n : ℕ} (h : n < 64) :
      Text.isSpace (Base64.standardChar (Base64.digitChar n)) = false := hall ⟨n, h⟩
  have hpad : Text.isSpace (Base64.standardChar '=') = false := by decide
  rw [Base64.encodeStandard, List.forall_mem_map]
  induction key using Base64.encode.induct with
  | case1 => exact fun c hc => absurd hc List.not_mem_nil
  | case2 a =>
    have ha := a.toNat_lt
    simp only [Base64.encode, List.forall_mem_cons]
    exact ⟨hdigit (by omega), hdigit (by omega), hpad, hpad, fun c hc => absurd hc List.not_mem_nil⟩
  | case3 a b =>
    have ha := a.toNat_lt
    have hb := b.toNat_lt
    simp only [Base64.encode, List.forall_mem_cons]
    exact ⟨hdigit (by omega), hdigit (by omega), hdigit (by omega), hpad,
      fun c hc => absurd hc List.not_mem_nil⟩
  | case4 a b c rest ih =>
    have ha := a.toNat_lt
    have hb := b.toNat_lt
    have hc := c.toNat_lt
    simp only [Base64.encode, List.forall_mem_cons]
    exact ⟨hdigit (by omega), hdigit (by omega), hdigit (by omega), hdigit (by omega), ih⟩

/-- Of a text without white space the ends are none. -/
theorem ends_of_forall {text : List Char} (h : ∀ c ∈ text, Text.isSpace c = false) :
    (∀ c ∈ text.head?, Text.isSpace c = false) ∧ ∀ c ∈ text.getLast?, Text.isSpace c = false :=
  ⟨fun c hc => h c (List.mem_of_mem_head? hc), fun c hc => h c (List.mem_of_mem_getLast? hc)⟩

/-- A written line is read as what it was written for. -/
theorem readKeyringLine_written {entry : Option (String × Bytes)}
    (h : KeyringLine.Written line entry) :
    readKeyringLine line = entry.elim .ignored fun entry => .entry entry.1 entry.2 := by
  cases h with
  | blank h =>
    have hstrip : Text.strip ([] ++ line) = [] := Text.strip_append_right h
    rw [List.nil_append] at hstrip
    rw [readKeyringLine, hstrip]
    rfl
  | @comment left rest h =>
    have hstrip : Text.strip (left ++ '#' :: rest) = '#' :: rest.rdropWhile Text.isSpace := by
      rw [Text.strip_append_left h, Text.strip, List.dropWhile_cons_of_neg (by decide)]
      exact (Text.rdropWhile_append_cons (by decide) : ([] ++ '#' :: rest).rdropWhile _ = _)
    rw [readKeyringLine, hstrip]
    exact if_pos (.inr rfl)
  | @entry left middle middle' right keyId key hleft hmiddle hmiddle' hright hkeyId =>
    have hseparator : '=' ∉ keyId ++ middle := by
      rw [List.mem_append, not_or]
      exact ⟨hkeyId.separator, fun hmem => absurd (hmiddle _ hmem) (by decide)⟩
    obtain ⟨c, rest, hcons⟩ := List.exists_cons_of_ne_nil hkeyId.nonempty
    obtain ⟨hspace, hcomment⟩ := hkeyId.head c (by rw [hcons]; rfl)
    -- What is left of the line, of the id and of the key once they are stripped.
    have hstrip : Text.strip (left ++ (keyId ++ middle) ++
        '=' :: (middle' ++ Base64.encodeStandard key ++ right)) = keyId ++ middle ++
        '=' :: (middle' ++ Base64.encodeStandard key ++ right).rdropWhile Text.isSpace := by
      rw [List.append_assoc left, Text.strip_append_left hleft, Text.strip, hcons,
        List.cons_append, List.cons_append,
        List.dropWhile_cons_of_neg (by simpa using hspace), ← List.cons_append, ← List.cons_append]
      exact Text.rdropWhile_append_cons (by decide)
    have hid : Text.strip (keyId ++ middle) = keyId := by
      rw [Text.strip_append_right hmiddle]
      exact Text.strip_eq_self (fun c hc => (hkeyId.head c hc).1) hkeyId.last
    have hkey : Text.strip ((middle' ++ Base64.encodeStandard key ++ right).rdropWhile
        Text.isSpace) = Base64.encodeStandard key := by
      obtain ⟨hhead, hlast⟩ := ends_of_forall (isSpace_encodeStandard key)
      rw [Text.strip_rdropWhile, Text.strip_append_right hright, Text.strip_append_left hmiddle']
      exact Text.strip_eq_self hhead hlast
    have hparts : Text.partition '=' (keyId ++ middle ++
        '=' :: (middle' ++ Base64.encodeStandard key ++ right).rdropWhile Text.isSpace) =
        some (keyId ++ middle,
          (middle' ++ Base64.encodeStandard key ++ right).rdropWhile Text.isSpace) :=
      Text.partition_eq_some_iff.mpr ⟨rfl, hseparator⟩
    have hentry : ¬ (keyId ++ middle ++
        '=' :: (middle' ++ Base64.encodeStandard key ++ right).rdropWhile Text.isSpace = [] ∨
        (keyId ++ middle ++ '=' :: (middle' ++ Base64.encodeStandard key ++ right).rdropWhile
          Text.isSpace).head? = some '#') := by
      simp [hcons, hcomment]
    simp only [readKeyringLine, hstrip, if_neg hentry, hparts, hid, if_neg hkeyId.nonempty, hkey,
      Base64.decodeStrict_encodeStandard]
    rfl

/-- The text that a reference names. -/
def SecretStore.Names (store : SecretStore) (reference text : String) : Prop :=
  ∃ name ≠ "", (reference = "env:" ++ name ∧ store.env name = some text) ∨
    (reference = "file:" ++ name ∧ store.file name = .ok text)

/-- A reference is resolved to the text that it names. -/
theorem SecretStore.Names.resolve {store : SecretStore} {text : String}
    (h : store.Names reference text) (fieldName : String) :
    resolveSecretReference py store fieldName reference =
      .ok (String.ofList (Text.strip text.toList)) := by
  obtain ⟨name, hname, hnames⟩ := h
  have htarget : name.toList ≠ [] := fun hnil => hname (String.toList_eq_nil_iff.mp hnil)
  have hparse (kind : List Char) (hkind : ':' ∉ kind)
      (hknown : String.ofList kind ∈ ["env", "file"])
      (hreference : reference = String.ofList (kind ++ [':']) ++ name) :
      parseReference py fieldName reference = .ok (String.ofList kind, name) := by
    have hparts : Text.partition ':' reference.toList = some (kind, name.toList) := by
      rw [hreference, String.toList_append, String.toList_ofList, List.append_assoc]
      exact Text.partition_eq_some_iff.mpr ⟨rfl, hkind⟩
    rw [parseReference, hparts]
    simp only [if_neg (not_not.mpr hknown), if_neg htarget, String.ofList_toList]
  rcases hnames with ⟨hreference, hvalue⟩ | ⟨hreference, hvalue⟩
  · rw [resolveSecretReference, hparse ['e', 'n', 'v'] (by decide) (by decide) hreference]
    simp only [bind, Except.bind, hvalue]
    rfl
  · rw [resolveSecretReference,
      hparse ['f', 'i', 'l', 'e'] (by decide) (by decide) hreference]
    simp only [bind, Except.bind, hvalue]
    rfl

/-- The lines of a written keyring are read as what they were written for. -/
theorem map_readKeyringLine (h : List.Forall₂ KeyringLine.Written lines contents) (number : ℕ) :
    keyringFault py reference number (lines.map readKeyringLine) = none ∧
      (lines.map readKeyringLine).filterMap KeyringLine.entry? = contents.reduceOption := by
  induction h generalizing number with
  | nil => exact ⟨rfl, rfl⟩
  | @cons line entry lines contents hline _ ih =>
    obtain ⟨hfault, hentries⟩ := ih (number + 1)
    rw [List.map_cons, readKeyringLine_written hline]
    cases entry with
    | none => exact ⟨hfault, hentries⟩
    | some entry =>
      exact ⟨hfault, congrArg (entry :: ·) hentries⟩

/-- **Keyrings.** A keyring that is written in lines, with white space around it, is loaded from
wherever it is named as its entries, the last one of an id counting. An error tells a line by its
number, if at all, and nothing of the keys: texts whose lines are of the same kinds fail alike. -/
theorem loadKeyring_secret (py : PyLib) (store : SecretStore) (reference : String) :
    (∀ (lines : List (List Char)) (contents : List (Option (String × Bytes)))
        (left right : List Char),
      List.Forall₂ KeyringLine.Written lines contents →
      (∀ line ∈ lines, ∀ c ∈ line, Text.isBoundary c = false) → [] ∉ lines.getLast? →
      (∀ c ∈ (['\n'].intercalate lines).head?, Text.isSpace c = false) →
      (∀ c ∈ (['\n'].intercalate lines).getLast?, Text.isSpace c = false) →
      Blank left → Blank right →
      store.Names reference (String.ofList (left ++ (['\n'].intercalate lines ++ right))) →
      loadKeyring py store reference =
        if contents.reduceOption = [] then .error (emptyKeyring py reference)
        else .ok (Dict.ofList contents.reduceOption)) ∧
    (∀ text, store.Names reference text → ∀ e, loadKeyring py store reference = .error e →
      e = emptyKeyring py reference ∨ ∃ number, e = malformedEntry py reference number ∨
        e = badKeyMaterial py reference number) ∧
    ∀ (store' : SecretStore) (raw raw' : String),
      resolveSecretReference py store "intent signing keyring" reference = .ok raw →
      resolveSecretReference py store' "intent signing keyring" reference = .ok raw' →
      (keyringLines raw).map KeyringLine.kind = (keyringLines raw').map KeyringLine.kind →
      ∀ e, loadKeyring py store reference = .error e ↔
        loadKeyring py store' reference = .error e := by
  refine ⟨fun lines contents left right hwritten hboundary hlines hhead hlast hleft hright hnames =>
    ?_, fun text hnames e he => ?_, fun store' raw raw' hraw hraw' hkinds e => ?_⟩
  · have hstrip : Text.strip (left ++ (['\n'].intercalate lines ++ right)) =
        ['\n'].intercalate lines := by
      rw [Text.strip_append_left hleft, Text.strip_append_right hright,
        Text.strip_eq_self hhead hlast]
    have hresolve : resolveSecretReference py store "intent signing keyring" reference = _ :=
      hnames.resolve _
    rw [String.toList_ofList, hstrip] at hresolve
    have hread : keyringLines (String.ofList (['\n'].intercalate lines)) =
        lines.map readKeyringLine := by
      rw [keyringLines, String.toList_ofList, Text.splitLines_intercalate hboundary hlines]
    obtain ⟨hfault, hentries⟩ := @map_readKeyringLine py reference _ _ hwritten 1
    rw [loadKeyring_eq hresolve, keyringEntries, hread, hfault, hentries]
  · rw [loadKeyring_eq (hnames.resolve _)] at he
    split at he
    · rename_i fault hfault
      cases he
      obtain ⟨k, -, hk⟩ := keyringFault_eq_some hfault
      exact .inr ⟨_, hk⟩
    · split_ifs at he
      cases he
      exact .inl rfl
  · have hfault : keyringFault py reference 1 (keyringLines raw) =
        keyringFault py reference 1 (keyringLines raw') := by
      rw [← keyringFault_kind, hkinds, keyringFault_kind]
    have hnone (lines : List KeyringLine) : lines.filterMap KeyringLine.entry? = [] ↔
        (lines.map KeyringLine.kind).filterMap KeyringLine.entry? = [] := by
      simp only [List.filterMap_eq_nil_iff, List.forall_mem_map]
      exact forall₂_congr fun line _ => by
        cases line <;> simp [KeyringLine.entry?, KeyringLine.kind]
    have hentries : keyringEntries raw = [] ↔ keyringEntries raw' = [] := by
      rw [keyringEntries, keyringEntries, hnone, hkinds, ← hnone]
    rw [loadKeyring_eq hraw, loadKeyring_eq hraw', hfault]
    cases keyringFault py reference 1 (keyringLines raw') with
    | some fault => rfl
    | none =>
      by_cases hempty : keyringEntries raw = []
      · simp [hempty, hentries.mp hempty]
      · have hempty' : keyringEntries raw' ≠ [] := fun h => hempty (hentries.mpr h)
        simp [hempty, hempty']

/-- A mounted file with a comment and one key. -/
def mountedKeyring : SecretStore where
  env _ := none
  file path :=
    if path = "/ring" then .ok "# keys\nk1 = AQI=\n" else .error "No such file or directory"

/-- The file is loaded, and where another key of the same id is mounted nothing else is raised. -/
theorem loadKeyring_mounted :
    loadKeyring (.ofTable []) mountedKeyring "file:/ring" = .ok (Dict.ofList [("k1", [1, 2])]) ∧
    ∀ e, loadKeyring (.ofTable []) mountedKeyring "file:/ring" = .error e ↔
      loadKeyring (.ofTable []) { mountedKeyring with file := fun _ => .ok "\n# none\nk1=AAAA" }
        "file:/ring" = .error e := by
  obtain ⟨hload, -, hsecret⟩ := loadKeyring_secret (.ofTable []) mountedKeyring "file:/ring"
  have hlines : List.Forall₂ KeyringLine.Written ["# keys".toList, "k1 = AQI=".toList]
      [none, some ("k1", [1, 2])] := by
    have hcomment : KeyringLine.Written ([] ++ '#' :: " keys".toList) none := .comment nofun
    have hblank : Blank [' '] := List.forall_mem_singleton.mpr rfl
    have hkeyId : IsKeyId ['k', '1'] :=
      ⟨by decide, by rintro _ ⟨⟩; exact ⟨rfl, by decide⟩, by rintro _ ⟨⟩; rfl, by decide⟩
    have hentry : KeyringLine.Written ([] ++ (['k', '1'] ++ [' ']) ++
          '=' :: ([' '] ++ Base64.encodeStandard [1, 2] ++ []))
        (some (String.ofList ['k', '1'], [1, 2])) := .entry nofun hblank hblank nofun hkeyId
    exact .cons hcomment (.cons hentry .nil)
  have hnewline : Blank ['\n'] := List.forall_mem_singleton.mpr rfl
  have hboundary : ∀ line ∈ ["# keys".toList, "k1 = AQI=".toList], ∀ c ∈ line,
      Text.isBoundary c = false := by
    simp [Text.isBoundary]
  refine ⟨hload _ _ [] ['\n'] hlines hboundary (by decide) (by rintro _ ⟨⟩; rfl)
    (by rintro _ ⟨⟩; rfl) nofun hnewline ⟨"/ring", by simp, .inr ⟨rfl, rfl⟩⟩, ?_⟩
  exact hsecret _ "# keys\nk1 = AQI=" "# none\nk1=AAAA" (by rfl) (by rfl) (by decide)

end Written

end BeamAgents
