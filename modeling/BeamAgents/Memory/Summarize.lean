import BeamAgents.Memory.Rewrite
import BeamAgents.Model.ReplayCache

/-!
# Folding old items into a summary

`SummarizeCompactor` of `memory/compaction.py`. It reads its source rings, asks the model for a
summary of the items that are older than the newest few, and then rewrites the rings and stores the
summary. The rewrite goes through the guarded interface, so that the default compactor can run in
the middle of it, on a memory that lacks what is still to be put back. It does what its
documentation promises exactly when each entry that is evicted on the way is put back by the rest of
the rewrite.

## Main definitions

* `SummarizeCompactor` with `make`, `survey`, `summarize`, `prepare` and `compact`.
* `SummarizeCompactor.Preserves`: what the documentation promises.
* `SummarizeCompactor.MakesGood`: each eviction on the way is made good.

## Main results

* `SummarizeCompactor.compact_preserves_iff`: the promise is kept exactly when each is.
-/

namespace BeamAgents

open Containers

/-- `DEFAULT_SUMMARY_KEY`. -/
def defaultSummaryKey : String := "summary"

/-- `DEFAULT_KEEP_RECENT`. -/
def defaultKeepRecent : ℕ := 8

/-- `DEFAULT_TRIGGER_BYTES`. -/
def defaultTriggerBytes : ℕ := softCapBytes

/-- `SummarizeCompactor`, with what its constructor checks. -/
structure SummarizeCompactor where
  buildRequest : List Bytes → Option Bytes → Except PyExn LlmRequest
  extractSummary : Bytes → Except PyExn Bytes
  sourceKeys : List String
  summaryKey : String
  keepRecent : ℕ
  triggerBytes : ℕ
  sourceKeys_ne : sourceKeys ≠ []
  summaryKey_ne : summaryKey ≠ ""
  summaryKey_notMem : summaryKey ∉ sourceKeys
  triggerBytes_pos : 0 < triggerBytes

/-- What `compact` comes to: the memory, the calls of `build_request`, and what it raised. -/
structure SummarizeRun where
  memory : Memory
  requested : List (List Bytes × Option Bytes)
  raised : Option PyExn

namespace SummarizeCompactor

variable (py : PyLib)

/-- A `ValueError`. -/
def valueError (message : String) : PyExn where
  typeName := "ValueError"
  repr := py.exnRepr "ValueError" message

theorem toNat_pos {n : Int} (h : 0 < n) : 0 < n.toNat := Int.pos_iff_toNat_pos.mp h

/-- `SummarizeCompactor.__init__`. -/
def make (buildRequest : List Bytes → Option Bytes → Except PyExn LlmRequest)
    (extractSummary : Bytes → Except PyExn Bytes) (sourceKeys : List String)
    (summaryKey : String := defaultSummaryKey) (keepRecent : Int := defaultKeepRecent)
    (triggerBytes : Int := defaultTriggerBytes) : Except PyExn SummarizeCompactor :=
  if hsource : sourceKeys = [] then
    .error (valueError py "SummarizeCompactor source_keys must name at least one ring")
  else if hsummary : summaryKey = "" then
    .error (valueError py "SummarizeCompactor summary_key must be a non-empty string")
  else if hmem : summaryKey ∈ sourceKeys then
    .error (valueError py
      s!"SummarizeCompactor summary_key {py.reprStr summaryKey} must not also be a source key")
  else if keepRecent < 0 then
    .error (valueError py s!"SummarizeCompactor keep_recent must be >= 0, got {keepRecent}")
  else if htrigger : 0 < triggerBytes then
    .ok ⟨buildRequest, extractSummary, sourceKeys, summaryKey, keepRecent.toNat,
      triggerBytes.toNat, hsource, hsummary, hmem, toNat_pos htrigger⟩
  else
    .error (valueError py s!"SummarizeCompactor trigger_bytes must be positive, got {triggerBytes}")

variable (d : DropOldestCompactor) (c : SummarizeCompactor)
  (callModel : LlmRequest → Except PyExn Bytes) (m : Memory)

/-- `items` without the newest `keep_recent`. -/
def olderItems (items : List Bytes) : List Bytes := items.take (items.length - c.keepRecent)

/-- The loop of `compact` that reads the source rings: the older items, and the rings to rewrite
with the items that stay. -/
def survey (present : List String) : (keys : List String) → Memory →
    Memory × Except PyExn (List Bytes × List (String × List Bytes))
  | [], m => (m, .ok ([], []))
  | key :: keys, m =>
    if key ∉ present then survey present keys m
    else match m.ring py key with
      | (m, .error e) => (m, .error e)
      | (m, .ok items) =>
        let old := c.olderItems items
        match survey present keys m with
        | (m, .error e) => (m, .error e)
        | (m, .ok (folded, kept)) =>
          if old = [] then (m, .ok (folded, kept))
          else (m, .ok (old ++ folded, (key, items.drop old.length) :: kept))

/-- The part of `compact` outside the memory: a summary of the older items, which must be smaller
than they are. -/
def summarize (folded : List Bytes) (prior : Option Bytes) : Except PyExn Bytes := do
  let request ← c.buildRequest folded prior
  let response ← callModel request
  let summary ← c.extractSummary response
  let replacedBytes := (folded.map List.length).sum
  if replacedBytes ≤ summary.length then
    .error (valueError py (s!"summary of {summary.length} bytes does not shrink the " ++
      s!"{replacedBytes} bytes of items it replaces"))
  else .ok summary

/-- `compact` up to its last loop: the memory, the calls of `build_request`, and the calls that the
last loop and the final `set` make. -/
def prepare : Memory × List (List Bytes × Option Bytes) × Except PyExn (List MemoryOp) :=
  match c.survey py m.keys c.sourceKeys m with
  | (m, .error e) => (m, [], .error e)
  | (m, .ok (folded, kept)) =>
    if folded = [] then (m, [], .ok [])
    else match m.get py c.summaryKey with
      | (m, .error e) => (m, [], .error e)
      | (m, .ok prior) => (m, [(folded, prior)],
          (c.summarize py callModel folded prior).map (rewriteOps kept c.summaryKey))

/-- `SummarizeCompactor.compact`, on a memory with the default compactor. -/
def compact : SummarizeRun :=
  match c.prepare py callModel m with
  | (m, requested, .error e) => ⟨m, requested, some e⟩
  | (m, requested, .ok ops) =>
    let r := m.replay py (some d) ops
    ⟨r.1, requested, r.2⟩

/-! ### What is promised -/

/-- The items of a ring; none where `ring` raises. -/
def itemsOf (key : String) : List Bytes := ((m.ring py key).2.toOption).getD []

/-- The older items of rings, in the order of their keys. -/
def olderOf (keys : List String) : List Bytes :=
  keys.flatMap fun key => c.olderItems (itemsOf py m key)

/-- The rings that have older items, with the items that stay. -/
def keptOf (keys : List String) : List (String × List Bytes) :=
  (keys.filter fun key => c.olderItems (itemsOf py m key) ≠ []).map fun key =>
    (key, keepLast c.keepRecent (itemsOf py m key))

/-- The older items of the source rings. -/
def older : List Bytes := c.olderOf py m c.sourceKeys

/-- **What is promised** of `compact`: the newest items of each source ring stay, in order; the
older items are handed to `build_request` exactly once, in order, and the summary of them is stored;
the value under every other key stays. -/
structure Preserves (r : SummarizeRun) : Prop where
  newest : ∀ key ∈ c.sourceKeys, ∀ items, (m.ring py key).2 = .ok items →
    (r.memory.ring py key).2 = .ok (keepLast c.keepRecent items)
  idle : c.older py m = [] → r.requested = []
  summary : c.older py m ≠ [] → ∃ prior summary, (m.get py c.summaryKey).2 = .ok prior ∧
    r.requested = [(c.older py m, prior)] ∧
    c.summarize py callModel (c.older py m) prior = .ok summary ∧
    (r.memory.get py c.summaryKey).2 = .ok (some summary)
  others : ∀ key, key ∉ c.sourceKeys → (key = c.summaryKey → c.older py m = []) →
    r.memory.valueOf key = m.valueOf key

/-- Each entry that is evicted during the rewrite is put back by the rest of it, but for source
rings without items. -/
def MakesGood : Prop :=
  ∀ m₁ requested ops, c.prepare py callModel m = (m₁, requested, .ok ops) →
    ∀ key, key ∈ c.sourceKeys ∧ m.valueOf key = some (ringBytes []) ∨
      m₁.undisturbed py d key ops = true

variable {py d c callModel m} {m' : Memory} {key : String} {items : List Bytes}

/-! ### Reading the source rings -/

theorem drop_olderItems (items : List Bytes) :
    items.drop (c.olderItems items).length = keepLast c.keepRecent items := by
  rw [olderItems, keepLast, List.length_take, Nat.min_eq_left (Nat.sub_le _ _)]

theorem itemsOf_of_ok (h : (m.ring py key).2 = .ok items) : itemsOf py m key = items := by
  rw [itemsOf, h]
  rfl

/-- The items of a ring depend only on the value under its key. -/
theorem itemsOf_congr (h : m'.valueOf key = m.valueOf key) :
    itemsOf py m' key = itemsOf py m key := by
  have hok (items : List Bytes) :
      (m'.ring py key).2 = .ok items ↔ (m.ring py key).2 = .ok items := by
    rw [Memory.ring_eq_ok_iff, Memory.ring_eq_ok_iff, h]
  cases hring : (m.ring py key).2 with
  | ok items => rw [itemsOf_of_ok hring, itemsOf_of_ok ((hok items).mpr hring)]
  | error e =>
    cases hring' : (m'.ring py key).2 with
    | ok items =>
      rw [(hok items).mp hring'] at hring
      cases hring
    | error e' =>
      rw [itemsOf, itemsOf, hring, hring']
      rfl

theorem mem_keys_iff : key ∈ m.keys ↔ m.valueOf key ≠ none := by
  rw [Memory.valueOf, ne_eq, Option.map_eq_none_iff, Dict.get?_eq_none_iff, not_not]
  exact Iff.rfl

/-- What was read of the source rings, and what is to become of each. -/
structure Surveyed (c : SummarizeCompactor) (py : PyLib) (m : Memory) (keys : List String)
    (m' : Memory) (folded : List Bytes) (kept : List (String × List Bytes)) : Prop where
  values : ∀ key, m'.valueOf key = m.valueOf key
  answers : ∀ key ∈ keys, (m.ring py key).2 = .ok (itemsOf py m key)
  folded : folded = c.olderOf py m keys
  kept : kept = c.keptOf py m keys

theorem survey_ok {present keys : List String} {folded : List Bytes}
    {kept : List (String × List Bytes)} (hpresent : ∀ key, key ∈ present ↔ m.valueOf key ≠ none)
    (h : c.survey py present keys m = (m', .ok (folded, kept))) :
    Surveyed c py m keys m' folded kept := by
  induction keys generalizing m m' folded kept with
  | nil =>
    cases h
    exact ⟨fun _ => rfl, List.forall_mem_nil _, rfl, rfl⟩
  | cons key keys ih =>
    rw [survey] at h
    by_cases hmem : key ∉ present
    · rw [if_pos hmem] at h
      -- An absent key is a ring without items.
      have hnone : m.valueOf key = none := not_not.mp fun hne => hmem ((hpresent key).mpr hne)
      have hring : (m.ring py key).2 = .ok [] := Memory.ring_eq_ok_iff.mpr (.inl ⟨hnone, rfl⟩)
      have hitems := itemsOf_of_ok hring
      have hold : c.olderItems (itemsOf py m key) = [] := by
        rw [hitems]
        exact List.take_nil
      obtain ⟨hvalues, hanswers, hfolded, hkept⟩ := ih hpresent h
      refine ⟨hvalues, List.forall_mem_cons.mpr ⟨hitems ▸ hring, hanswers⟩, ?_, ?_⟩
      · rw [olderOf, List.flatMap_cons, hold, List.nil_append]
        exact hfolded
      · rw [keptOf, List.filter_cons_of_neg (by simpa using hold)]
        exact hkept
    · rw [if_neg hmem] at h
      have hread : m.Read key (m.ring py key) := m.ring_read key
      cases hring : m.ring py key with
      | mk m₁ answer =>
        rw [hring] at h hread
        cases answer with
        | error e => cases h
        | ok items =>
          have hvalues₁ (x : String) : m₁.valueOf x = m.valueOf x := hread.valueOf x
          have hok : (m.ring py key).2 = .ok items := congrArg Prod.snd hring
          have hitems := itemsOf_of_ok hok
          have hsame (x : String) : itemsOf py m₁ x = itemsOf py m x := itemsOf_congr (hvalues₁ x)
          simp only at h
          cases hrest : c.survey py present keys m₁ with
          | mk m₂ answer =>
            rw [hrest] at h
            cases answer with
            | error e => cases h
            | ok found =>
              obtain ⟨folded', kept'⟩ := found
              obtain ⟨hvalues, hanswers, hfolded, hkept⟩ :=
                ih (fun x => by rw [hpresent, hvalues₁]) hrest
              simp only [olderOf, keptOf, hsame] at hfolded hkept
              have hall : ∀ x ∈ key :: keys, (m.ring py x).2 = .ok (itemsOf py m x) := by
                refine List.forall_mem_cons.mpr ⟨hitems.symm ▸ hok, fun x hx => ?_⟩
                have hx' := hanswers x hx
                rw [Memory.ring_eq_ok_iff, hvalues₁, hsame, ← Memory.ring_eq_ok_iff] at hx'
                exact hx'
              by_cases hold : c.olderItems items = []
              · simp only [hold, if_true] at h
                cases h
                refine ⟨fun x => (hvalues x).trans (hvalues₁ x), hall, ?_, ?_⟩
                · rw [olderOf, List.flatMap_cons, hitems, hold, List.nil_append]
                  exact hfolded
                · rw [keptOf, List.filter_cons_of_neg (by rw [hitems]; simpa using hold)]
                  exact hkept
              · simp only [hold, if_false] at h
                cases h
                refine ⟨fun x => (hvalues x).trans (hvalues₁ x), hall, ?_, ?_⟩
                · rw [olderOf, List.flatMap_cons, hitems, hfolded]
                · rw [keptOf, List.filter_cons_of_pos (by rw [hitems]; simpa using hold),
                    List.map_cons, hitems, drop_olderItems, hkept]

/-- What `compact` has come to when its last loop starts. -/
inductive Prepared (py : PyLib) (c : SummarizeCompactor)
    (callModel : LlmRequest → Except PyExn Bytes) (m : Memory) :
    List (List Bytes × Option Bytes) → List MemoryOp → Prop
  | idle (h : c.older py m = []) : Prepared py c callModel m [] []
  | folded (prior : Option Bytes) (summary : Bytes) (h : c.older py m ≠ [])
      (hprior : (m.get py c.summaryKey).2 = .ok prior)
      (hsummary : c.summarize py callModel (c.older py m) prior = .ok summary) :
      Prepared py c callModel m [(c.older py m, prior)]
        (rewriteOps (c.keptOf py m c.sourceKeys) c.summaryKey summary)

theorem prepare_ok {requested : List (List Bytes × Option Bytes)} {ops : List MemoryOp}
    (h : c.prepare py callModel m = (m', requested, .ok ops)) :
    (∀ key, m'.valueOf key = m.valueOf key) ∧
      (∀ key ∈ c.sourceKeys, (m.ring py key).2 = .ok (itemsOf py m key)) ∧
      Prepared py c callModel m requested ops := by
  rw [prepare] at h
  cases hsurvey : c.survey py m.keys c.sourceKeys m with
  | mk m₁ answer =>
    rw [hsurvey] at h
    cases answer with
    | error e => cases h
    | ok found =>
      obtain ⟨folded, kept⟩ := found
      obtain ⟨hvalues, hanswers, rfl, rfl⟩ := survey_ok (fun _ => mem_keys_iff) hsurvey
      simp only at h
      by_cases hidle : c.olderOf py m c.sourceKeys = []
      · rw [if_pos hidle] at h
        cases h
        exact ⟨hvalues, hanswers, .idle hidle⟩
      · rw [if_neg hidle] at h
        have hread : m₁.Read c.summaryKey (m₁.get py c.summaryKey) := m₁.get_read c.summaryKey
        cases hget : m₁.get py c.summaryKey with
        | mk m₂ answer =>
          rw [hget] at h hread
          cases answer with
          | error e => cases h
          | ok prior =>
            have hprior : (m.get py c.summaryKey).2 = .ok prior := by
              have hok : (m₁.get py c.summaryKey).2 = .ok prior := congrArg Prod.snd hget
              rw [Memory.get_eq_ok_iff, hvalues] at hok
              exact Memory.get_eq_ok_iff.mpr hok
            cases hsummary : c.summarize py callModel (c.olderOf py m c.sourceKeys) prior with
            | error e =>
              simp only [hsummary] at h
              cases h
            | ok summary =>
              simp only [hsummary] at h
              cases h
              exact ⟨fun key => (hread.valueOf key).trans (hvalues key), hanswers,
                .folded prior summary hidle hprior hsummary⟩

/-! ### The rewrite -/

section Rewritten

variable {final : Memory} {summary : Bytes} {good : Bool}

theorem fits_itemsOf (h : (m.ring py key).2 = .ok items) : RingFits items := by
  rcases Memory.ring_eq_ok_iff.mp h with ⟨-, rfl⟩ | ⟨-, hfits⟩
  · exact List.forall_mem_nil _
  · exact hfits

theorem RingFits.keepLast {n : ℕ} (h : RingFits items) : RingFits (keepLast n items) :=
  fun item hitem => h item (List.mem_of_mem_drop hitem)

/-- What `ring` answers for a value to which some items were appended. -/
theorem ring_of_holding {held : List Bytes} (hfits : RingFits held)
    (h : m.valueOf key = holding held) : (m.ring py key).2 = .ok items ↔ items = held := by
  have hok : (m.ring py key).2 = .ok held := by
    rw [Memory.ring_eq_ok_iff, h, holding]
    split_ifs with hnil
    · exact .inl ⟨rfl, hnil⟩
    · exact .inr ⟨rfl, hfits⟩
  rw [hok]
  exact ⟨fun heq => (Except.ok.inj heq).symm, fun heq => congrArg _ heq.symm⟩

theorem map_fst_keptOf (keys : List String) :
    (c.keptOf py m keys).map Prod.fst =
      keys.filter fun key => c.olderItems (itemsOf py m key) ≠ [] := by
  rw [keptOf, List.map_map]
  exact List.map_id _

theorem key_mem_of_mem_keptOf {ring : String × List Bytes} {keys : List String}
    (h : ring ∈ c.keptOf py m keys) : ring.1 ∈ keys := by
  obtain ⟨key, hkey, rfl⟩ := List.mem_map.mp h
  exact (List.mem_filter.mp hkey).1

/-- The newest items of a source ring stay exactly when its losses are made good, or when it has no
items. -/
theorem newest_iff (hnodup : c.sourceKeys.Nodup) (hkey : key ∈ c.sourceKeys)
    (hring : (m.ring py key).2 = .ok (itemsOf py m key))
    (h : KeyRun py key (rewriteOps (c.keptOf py m c.sourceKeys) c.summaryKey summary)
      (m.valueOf key) good (final.valueOf key)) :
    (final.ring py key).2 = .ok (keepLast c.keepRecent (itemsOf py m key)) ↔
      m.valueOf key = some (ringBytes []) ∨ good = true := by
  have hfits := fits_itemsOf hring
  have hsummary : c.summaryKey ≠ key := fun heq => c.summaryKey_notMem (heq ▸ hkey)
  by_cases hold : c.olderItems (itemsOf py m key) = []
  · -- A ring that is not rewritten has no more items than stay.
    have hall : keepLast c.keepRecent (itemsOf py m key) = itemsOf py m key := by
      rw [← drop_olderItems, hold, List.length_nil, List.drop_zero]
    have hkept : ∀ ring ∈ c.keptOf py m c.sourceKeys, ring.1 ≠ key := by
      intro ring hmem heq
      obtain ⟨key', hkey', rfl⟩ := List.mem_map.mp hmem
      have hne := (List.mem_filter.mp hkey').2
      simp only at heq
      rw [heq, hold] at hne
      simp at hne
    obtain ⟨hgood, hleft⟩ := h.of_untouched hkept hsummary
    rw [hall]
    rcases Memory.ring_eq_ok_iff.mp hring with ⟨hnone, hnil⟩ | ⟨hvalue, -⟩
    · have hlost : final.valueOf key = none := by
        rw [hnone] at hleft
        exact hleft.elim id id
      rw [hgood, hnone, hlost, hnil, Memory.ring_eq_ok_iff, hlost]
      simp
    · by_cases hnil : itemsOf py m key = []
      · rw [hnil] at hvalue ⊢
        refine iff_of_true (Memory.ring_eq_ok_iff.mpr ?_) (.inl hvalue)
        rcases hleft with hsame | hlost
        · exact .inr ⟨hsame.trans hvalue, List.forall_mem_nil _⟩
        · exact .inl ⟨hlost, rfl⟩
      · have hsome : m.valueOf key ≠ some (ringBytes []) := by
          rw [hvalue]
          exact fun heq => hnil (ringBytes_inj hfits (List.forall_mem_nil _) (Option.some.inj heq))
        rw [or_iff_right hsome, hgood, hvalue, Memory.ring_eq_ok_iff]
        simp [hnil, hfits]
  · have hmem : (key, keepLast c.keepRecent (itemsOf py m key)) ∈ c.keptOf py m c.sourceKeys :=
      List.mem_map.mpr ⟨key, List.mem_filter.mpr ⟨hkey, by simpa using hold⟩, rfl⟩
    have hkeys : ((c.keptOf py m c.sourceKeys).map Prod.fst).Nodup := by
      rw [map_fst_keptOf]
      exact hnodup.filter _
    obtain ⟨hgood, held, hheld, -, hfinal⟩ :=
      h.of_kept hmem hkeys hsummary (RingFits.keepLast hfits)
    have hsome : m.valueOf key ≠ some (ringBytes []) := by
      intro hempty
      have hok : (m.ring py key).2 = .ok [] :=
        Memory.ring_eq_ok_iff.mpr (.inr ⟨hempty, List.forall_mem_nil _⟩)
      rw [itemsOf_of_ok hok] at hold
      exact hold List.take_nil
    rw [or_iff_right hsome, hgood, ring_of_holding hheld hfinal, hfinal]
    refine ⟨fun heq => congrArg holding heq.symm, fun heq => ?_⟩
    exact (holding_inj hheld (RingFits.keepLast hfits) heq).symm

end Rewritten

/-- **The promise is kept exactly when each loss is made good.** For every memory, every summarizer
with distinct source keys and every answer of the model on which `compact` completes: the newest
items of each source ring stay, the older ones are handed over once and in order, the summary is
stored and no other value changes, if and only if each entry that the default compactor evicts
during the rewrite is put back by the rest of it, or was a source ring without items. -/
theorem compact_preserves_iff (py : PyLib) (d : DropOldestCompactor) (c : SummarizeCompactor)
    (callModel : LlmRequest → Except PyExn Bytes) (m : Memory) (hnodup : c.sourceKeys.Nodup)
    (h : (c.compact py d callModel m).raised = none) :
    c.Preserves py callModel m (c.compact py d callModel m) ↔ c.MakesGood py d callModel m := by
  cases hprepare : c.prepare py callModel m with
  | mk m₁ rest =>
    obtain ⟨requested, answer⟩ := rest
    cases answer with
    | error e =>
      rw [compact, hprepare] at h
      cases h
    | ok ops =>
      obtain ⟨hvalues, hanswers, hprepared⟩ := prepare_ok hprepare
      have hcompact : c.compact py d callModel m =
          ⟨(m₁.replay py (some d) ops).1, requested, (m₁.replay py (some d) ops).2⟩ := by
        rw [compact, hprepare]
      have hgood : c.MakesGood py d callModel m ↔ ∀ key,
          key ∈ c.sourceKeys ∧ m.valueOf key = some (ringBytes []) ∨
            m₁.undisturbed py d key ops = true := by
        constructor
        · exact fun hall => hall _ _ _ hprepare
        · intro hall m₂ requested' ops' hprepare'
          rw [hprepare] at hprepare'
          cases hprepare'
          exact hall
      rw [hcompact] at h ⊢
      rw [hgood]
      cases hreplay : m₁.replay py (some d) ops with
      | mk final raised =>
        rw [hreplay] at h
        obtain rfl : raised = none := h
        have hrun (key : String) : KeyRun py key ops (m.valueOf key)
            (m₁.undisturbed py d key ops) (final.valueOf key) := by
          rw [← hvalues key]
          exact Memory.replay_keyRun hreplay key
        cases hprepared with
        | idle hidle =>
          cases hreplay
          refine iff_of_true ⟨fun key hkey items hring => ?_, fun _ => rfl,
            fun hne => absurd hidle hne, fun key _ _ => hvalues key⟩ fun key => .inr rfl
          have hold : c.olderItems (itemsOf py m key) = [] :=
            List.flatMap_eq_nil_iff.mp hidle key hkey
          rw [← drop_olderItems, ← itemsOf_of_ok hring, hold, List.length_nil, List.drop_zero,
            Memory.ring_eq_ok_iff, hvalues, ← Memory.ring_eq_ok_iff]
          exact hanswers key hkey
        | folded prior summary hne hprior hsummary =>
          have hkept (key : String) (hkey : key ∉ c.sourceKeys) :
              ∀ ring ∈ c.keptOf py m c.sourceKeys, ring.1 ≠ key :=
            fun ring hring heq => hkey (heq ▸ key_mem_of_mem_keptOf hring)
          have hstored : (final.get py c.summaryKey).2 = .ok (some summary) ↔
              m₁.undisturbed py d c.summaryKey
                (rewriteOps (c.keptOf py m c.sourceKeys) c.summaryKey summary) = true := by
            rw [Memory.get_eq_ok_iff]
            exact ((hrun c.summaryKey).of_summary (hkept _ c.summaryKey_notMem)).symm
          constructor
          · intro hpreserves key
            by_cases hkey : key ∈ c.sourceKeys
            · have hnewest := hpreserves.newest key hkey _ (hanswers key hkey)
              rcases (newest_iff hnodup hkey (hanswers key hkey) (hrun key)).mp hnewest with h | h
              · exact .inl ⟨hkey, h⟩
              · exact .inr h
            by_cases hsame : key = c.summaryKey
            · obtain ⟨prior', summary', hprior', -, hsummary', hget⟩ := hpreserves.summary hne
              rw [hprior] at hprior'
              cases hprior'
              rw [hsummary] at hsummary'
              cases hsummary'
              exact .inr (hsame ▸ hstored.mp hget)
            · have hvalue := hpreserves.others key hkey fun heq => absurd heq hsame
              exact .inr (((hrun key).of_untouched (hkept key hkey) (Ne.symm hsame)).1.mpr hvalue)
          · intro hall
            refine ⟨fun key hkey items hring => ?_, fun hidle => absurd hidle hne, fun _ =>
              ⟨prior, summary, hprior, rfl, hsummary, hstored.mpr ?_⟩, fun key hkey hsame => ?_⟩
            · rw [← itemsOf_of_ok hring]
              exact (newest_iff hnodup hkey (hanswers key hkey) (hrun key)).mpr
                ((hall key).imp_left And.right)
            · exact (hall c.summaryKey).resolve_left fun h => c.summaryKey_notMem h.1
            · have hgood := (hall key).resolve_left fun h => hkey h.1
              have hsummary_ne : c.summaryKey ≠ key := fun heq => hne (hsame heq.symm)
              exact ((hrun key).of_untouched (hkept key hkey) hsummary_ne).1.mp hgood

/-! ### A log and a checkpoint -/

/-- A summarizer that keeps the newest item of a log, with an empty summary of the others. -/
def logSummarizer : SummarizeCompactor where
  buildRequest _ _ := .ok ⟨"model", .ok ("[]", "[]", "[]")⟩
  extractSummary := .ok
  sourceKeys := ["log"]
  summaryKey := defaultSummaryKey
  keepRecent := 1
  triggerBytes := defaultTriggerBytes
  sourceKeys_ne := nofun
  summaryKey_ne := by decide
  summaryKey_notMem := by decide
  triggerBytes_pos := by decide

/-- A memory that holds a log of two items next to a checkpoint. -/
def logMemory (checkpoint : Bytes) (total : ℕ) : Memory where
  nowMs := 7
  entries := Dict.ofList [("__langgraph__/x", ⟨encodeScalar checkpoint, 5⟩),
    ("log", ⟨ringBytes [[1, 1], [2]], 6⟩)]
  total := total
  dirty := false
  softCapWarned := false

/-- Next to a small checkpoint, nothing is evicted and the promise is kept. -/
theorem compact_preserves_log :
    logSummarizer.Preserves Memory.quotingPy (fun _ => .ok []) (logMemory [0] 14)
      (logSummarizer.compact Memory.quotingPy .ofDefaults (fun _ => .ok [])
        (logMemory [0] 14)) := by
  refine (compact_preserves_iff Memory.quotingPy .ofDefaults logSummarizer (fun _ => .ok [])
    (logMemory [0] 14) (List.nodup_singleton _) rfl).mpr fun m₁ requested ops h key => ?_
  cases h
  exact .inr rfl

/-- A log next to a checkpoint that comes to the soft cap. -/
def crowdedMemory : Memory := logMemory (List.replicate 786431 0) 786444

/-- What `compact` makes of it. -/
def crowdedRun : SummarizeRun :=
  logSummarizer.compact Memory.quotingPy .ofDefaults (fun _ => .ok []) crowdedMemory

/-- The newest item of the log is evicted as soon as it is put back, and is lost. -/
theorem crowdedRun_not_preserves :
    logSummarizer.sourceKeys.Nodup ∧ crowdedRun.raised = none ∧
      (crowdedMemory.ring Memory.quotingPy "log").2 = .ok [[1, 1], [2]] ∧
      (crowdedRun.memory.ring Memory.quotingPy "log").2 = .ok [] ∧
      ¬ logSummarizer.Preserves Memory.quotingPy (fun _ => .ok []) crowdedMemory crowdedRun := by
  have hbefore : (crowdedMemory.ring Memory.quotingPy "log").2 = .ok [[1, 1], [2]] := rfl
  have hafter : (crowdedRun.memory.ring Memory.quotingPy "log").2 = .ok [] := rfl
  refine ⟨List.nodup_singleton _, rfl, hbefore, hafter, fun h => ?_⟩
  have hnewest := h.newest "log" (List.mem_singleton_self _) _ hbefore
  rw [hafter] at hnewest
  cases hnewest

end SummarizeCompactor

end BeamAgents
