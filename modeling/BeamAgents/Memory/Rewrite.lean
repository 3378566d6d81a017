import BeamAgents.Memory.Values

/-!
# Rewriting rings in place

There is no operation that replaces a ring. Rewriting one deletes its key and appends the items that
stay, one after the other; a rewrite of several rings ends with a scalar. Each append is a write of
its own, which can bring a compaction. Here it is said, for each key, when the rewrite comes to what
it would without compactions: when each entry that a compaction evicts is put back by the rest of
the rewrite.

## Main definitions

* `rewriteRing`, `rewriteOps`: the calls of a rewrite.
* `holding`: the value of a key that holds a list of items.

## Main results

* `KeyRun.of_untouched`, `KeyRun.of_summary`, `KeyRun.of_kept`: what a rewrite leaves under a key.
-/

namespace BeamAgents

/-- Replace a ring by some items. -/
def rewriteRing (ring : String × List Bytes) : List MemoryOp :=
  .delete ring.1 :: ring.2.map fun item => .write (.append ring.1 item ring.2.length)

/-- Replace rings one after the other, and store a scalar. -/
def rewriteOps (kept : List (String × List Bytes)) (key : String) (value : Bytes) : List MemoryOp :=
  kept.flatMap rewriteRing ++ [.write (.set key value)]

/-- The value under a key to which the items were appended. -/
def holding (items : List Bytes) : Option Bytes :=
  if items = [] then none else some (ringBytes items)

/-- No item, or a ring of at most `n` items. -/
def AtMost (n : ℕ) (v : Option Bytes) : Prop :=
  ∃ items, RingFits items ∧ items.length ≤ n ∧ v = holding items

variable {py : PyLib} {key : String} {op : MemoryOp} {ops rest : List MemoryOp}
  {v v' : Option Bytes} {good : Bool} {items l : List Bytes} {cap n : ℕ}

/-! ### Values of rings -/

theorem holding_inj (hitems : RingFits items) (hl : RingFits l) (h : holding items = holding l) :
    items = l := by
  rw [holding, holding] at h
  split_ifs at h with hitems_nil hl_nil hl_nil
  · rw [hitems_nil, hl_nil]
  · exact ringBytes_inj hitems hl (Option.some.inj h)

theorem AtMost.mono {n n' : ℕ} (h : AtMost n v) (hle : n ≤ n') : AtMost n' v := by
  obtain ⟨items, hfits, hlength, hv⟩ := h
  exact ⟨items, hfits, hlength.trans hle, hv⟩

theorem atMost_none : AtMost n none := ⟨[], List.forall_mem_nil _, Nat.zero_le n, rfl⟩

/-- Appending to a value that holds some items, below the cap. -/
theorem encodeOver_holding (hl : RingFits l) (item : Bytes) (hcap : l.length < cap) :
    (MemoryWrite.append key item cap).encodeOver py (holding l) = encodeRing py (l ++ [item]) := by
  have hkeep : keepLast (cap : Int).toNat (l ++ [item]) = l ++ [item] := by
    rw [keepLast, Int.toNat_natCast, List.length_append, List.length_singleton]
    have hzero : l.length + 1 - cap = 0 := by omega
    rw [hzero, List.drop_zero]
  rw [holding]
  split_ifs with hnil
  · subst hnil
    rw [List.nil_append] at hkeep ⊢
    rw [MemoryWrite.encodeOver, hkeep]
  · simp only [MemoryWrite.encodeOver, decodeRing_ringBytes hl, hkeep]

/-- What an append makes of a value that holds some items. -/
theorem Applies.append {item : Bytes} (hl : RingFits l) (hcap : l.length < cap)
    (h : (MemoryOp.write (.append key item cap)).Applies py key (holding l) v) :
    RingFits (l ++ [item]) ∧ v = holding (l ++ [item]) := by
  rw [MemoryOp.Applies, MemoryWrite.key, if_pos rfl] at h
  obtain ⟨encoded, hencoded, rfl⟩ := h
  rw [encodeOver_holding hl item hcap] at hencoded
  obtain ⟨hfits, rfl⟩ := encodeRing_eq_ok_iff.mp hencoded
  exact ⟨hfits, by rw [holding, if_neg (by simp)]⟩

/-! ### Calls that do not name the key -/

/-- None of the calls names the key. -/
def Unnamed (key : String) (ops : List MemoryOp) : Prop := ∀ op ∈ ops, op.key? ≠ some key

theorem Applies.of_unnamed (h : op.key? ≠ some key) (happlies : op.Applies py key v v') :
    v' = v := by
  cases op with
  | write w =>
    rw [MemoryOp.Applies, if_neg fun hkey => h (congrArg some hkey)] at happlies
    exact happlies
  | delete k =>
    rw [MemoryOp.Applies, if_neg fun hkey => h (congrArg some hkey)] at happlies
    exact happlies
  | _ => exact happlies

theorem restores_cons_of_unnamed (h : op.key? ≠ some key) :
    restores key (op :: ops) = restores key ops := by
  cases op with
  | write w =>
    cases w with
    | set k value =>
      have hk : k ≠ key := fun hk => h (congrArg some hk)
      simp [restores, hk]
    | append k item maxItems =>
      have hk : k ≠ key := fun hk => h (congrArg some hk)
      simp [restores, hk]
  | delete k =>
    have hk : k ≠ key := fun hk => h (congrArg some hk)
    simp [restores, hk]
  | _ => rfl

theorem restores_append_of_unnamed (h : Unnamed key ops) :
    restores key (ops ++ rest) = restores key rest := by
  induction ops with
  | nil => rfl
  | cons op ops ih =>
    obtain ⟨hop, hops⟩ := List.forall_mem_cons.mp h
    rw [List.cons_append, restores_cons_of_unnamed hop, ih hops]

theorem restores_of_unnamed (h : Unnamed key ops) : restores key ops = false := by
  rw [← List.append_nil ops, restores_append_of_unnamed h]
  rfl

/-- Calls that do not name the key leave its value or lose it. -/
theorem KeyRun.of_unnamed (h : KeyRun py key ops v good v') (hops : Unnamed key ops) :
    (good = true ↔ v' = v) ∧ (v' = v ∨ v' = none) := by
  induction h with
  | nil v => exact ⟨by simp, .inl rfl⟩
  | @cons op ops v v₁ good v' before after hbefore happlies hafter h ih =>
    obtain ⟨hop, hrest⟩ := List.forall_mem_cons.mp hops
    obtain ⟨hgood, hleft⟩ := ih hrest
    have hv₁ := Applies.of_unnamed hop happlies
    rw [restores_cons_of_unnamed hop, restores_of_unnamed hrest]
    cases before with
    | true =>
      obtain rfl : v₁ = none := hv₁
      have hlost : v' = none := by
        cases after with
        | true => exact absurd rfl (hafter rfl)
        | false => exact hleft.elim id id
      subst hlost
      exact ⟨by simpa using (hbefore rfl).symm, .inr rfl⟩
    | false =>
      obtain rfl : v₁ = v := hv₁
      cases after with
      | true =>
        have hlost : v' = none := hleft.elim id id
        subst hlost
        exact ⟨by simpa using (hafter rfl).symm, .inr rfl⟩
      | false => exact ⟨by simpa using hgood, hleft⟩

/-- Losses before a call that does not look at the value are made good. -/
theorem KeyRun.skip (h : KeyRun py key (ops ++ rest) v good v') (hops : Unnamed key ops)
    (hrestores : restores key rest = true) : ∃ v₁, KeyRun py key rest v₁ good v' := by
  induction ops generalizing v good with
  | nil => exact ⟨v, h⟩
  | cons op ops ih =>
    obtain ⟨hop, hops'⟩ := List.forall_mem_cons.mp hops
    cases h with
    | cons before after hbefore happlies hafter h =>
      obtain ⟨v₁, hrun⟩ := ih h hops'
      have hrest : restores key (ops.append rest) = true :=
        (restores_append_of_unnamed hops').trans hrestores
      refine ⟨v₁, ?_⟩
      rw [restores_cons_of_unnamed hop, hrest]
      simpa using hrun

/-! ### The parts of a rewrite -/

/-- A scalar is stored in the end, unless it is lost at once. -/
theorem KeyRun.of_set {value : Bytes}
    (h : KeyRun py key [.write (.set key value)] v good v') :
    good = true ↔ v' = some (encodeScalar value) := by
  cases h with
  | cons before after hbefore happlies hafter h =>
    rw [MemoryOp.Applies, MemoryWrite.key, if_pos rfl] at happlies
    obtain ⟨encoded, hencoded, rfl⟩ := happlies
    obtain rfl : encodeScalar value = encoded := Except.ok.inj hencoded
    cases h with
    | nil v =>
      cases after <;> simp [restores]

/-- Appends to a value of at most `n` items, with any losses. -/
theorem KeyRun.atMost (h : KeyRun py key
      (items.map (fun item => .write (.append key item cap)) ++ rest) v good v')
    (hrest : Unnamed key rest) (hv : AtMost n v) (hcap : n + items.length ≤ cap) :
    AtMost (n + items.length) v' := by
  induction items generalizing v good n with
  | nil =>
    rcases (h.of_unnamed hrest).2 with rfl | rfl
    · exact hv
    · exact atMost_none
  | cons item items ih =>
    cases h with
    | cons before after hbefore happlies hafter h =>
      have hstart : AtMost n (if before then none else v) := by
        cases before
        · exact hv
        · exact atMost_none
      obtain ⟨l, hl, hlength, hheld⟩ := hstart
      rw [List.length_cons] at hcap ⊢
      rw [hheld] at happlies
      obtain ⟨hfits, rfl⟩ := Applies.append hl (by omega) happlies
      have hnext : AtMost (n + 1) (if after then none else holding (l ++ [item])) := by
        cases after
        · exact ⟨l ++ [item], hfits, by simpa using hlength, rfl⟩
        · exact atMost_none
      have hdone := ih h hnext (by omega)
      exact hdone.mono (by omega)

/-- **Appends in a row** come to all the items exactly when nothing is lost on the way. -/
theorem KeyRun.of_appends (h : KeyRun py key
      (items.map (fun item => .write (.append key item cap)) ++ rest) (holding l) good v')
    (hrest : Unnamed key rest) (hl : RingFits l) (hitems : RingFits items)
    (hcap : l.length + items.length ≤ cap) : good = true ↔ v' = holding (l ++ items) := by
  induction items generalizing l good with
  | nil =>
    rw [List.append_nil]
    exact (h.of_unnamed hrest).1
  | cons item items ih =>
    have hall : RingFits (l ++ item :: items) := fun i hi =>
      (List.mem_append.mp hi).elim (hl i) (hitems i)
    -- What holds fewer items than there are is not the whole list.
    have hfewer {n : ℕ} (hn : n < l.length + (items.length + 1)) (hv' : AtMost n v') :
        v' ≠ holding (l ++ item :: items) := by
      rintro rfl
      obtain ⟨l', hl', hlength, heq⟩ := hv'
      rw [← holding_inj hall hl' heq, List.length_append, List.length_cons] at hlength
      omega
    have hnever : restores key
        (items.map (fun item => MemoryOp.write (.append key item cap)) ++ rest) = false := by
      cases items with
      | nil => exact restores_of_unnamed hrest
      | cons next items => simp [restores]
    rw [List.length_cons] at hcap
    cases h with
    | cons before after hbefore happlies hafter h =>
      have hrestores : restores key (MemoryOp.write (.append key item cap) ::
          (items.map fun item => MemoryOp.write (.append key item cap)).append rest) = false := by
        simp [restores]
      rw [hrestores, show restores key
        ((items.map fun item => MemoryOp.write (.append key item cap)).append rest) = false
        from hnever]
      cases before with
      | true =>
        have hheld : holding l ≠ none := hbefore rfl
        have hpos : 0 < l.length := List.length_pos_iff.mpr fun hnil => hheld (by rw [hnil]; rfl)
        have hnil : RingFits [] := List.forall_mem_nil _
        have hstart : (MemoryOp.write (.append key item cap)).Applies py key (holding []) _ :=
          happlies
        obtain ⟨hfits, rfl⟩ := Applies.append hnil (by simp; omega) hstart
        have hnext : AtMost 1 (if after then none else holding ([] ++ [item])) := by
          cases after
          · exact ⟨_, hfits, by simp, rfl⟩
          · exact atMost_none
        have hdone := hfewer (by omega) (h.atMost hrest hnext (by omega))
        simpa using hdone
      | false =>
        obtain ⟨hfits, rfl⟩ := Applies.append hl (by omega) happlies
        cases after with
        | true =>
          have hdone := hfewer (by omega) (h.atMost hrest (atMost_none (n := 0)) (by omega))
          simpa using hdone
        | false =>
          have hnext := ih h hfits (fun i hi => hitems i (List.mem_cons_of_mem _ hi))
            (by rw [List.length_append, List.length_singleton]; omega)
          rw [List.append_assoc] at hnext
          simpa using hnext

/-- Rewriting a ring comes to its items exactly when nothing is lost on the way, and to fewer
otherwise. -/
theorem KeyRun.of_ring (h : KeyRun py key (rewriteRing (key, items) ++ rest) v good v')
    (hrest : Unnamed key rest) (hitems : RingFits items) :
    (good = true ↔ v' = holding items) ∧ AtMost items.length v' := by
  cases h with
  | cons before after hbefore happlies hafter h =>
    rw [MemoryOp.Applies, if_pos rfl] at happlies
    subst happlies
    cases after with
    | true => exact absurd rfl (hafter rfl)
    | false =>
      have hdone := KeyRun.of_appends (l := []) h hrest (List.forall_mem_nil _) hitems (by simp)
      have hat := h.atMost hrest (atMost_none (n := 0)) (by simp)
      exact ⟨by simpa [restores] using hdone, hat.mono (by simp)⟩

theorem unnamed_rewriteRing {ring : String × List Bytes} (h : ring.1 ≠ key) :
    Unnamed key (rewriteRing ring) := by
  refine List.forall_mem_cons.mpr ⟨fun heq => h (Option.some.inj heq), fun op hop => ?_⟩
  obtain ⟨item, -, rfl⟩ := List.mem_map.mp hop
  exact fun heq => h (Option.some.inj heq)

theorem unnamed_rings {kept : List (String × List Bytes)} (h : ∀ ring ∈ kept, ring.1 ≠ key) :
    Unnamed key (kept.flatMap rewriteRing) := by
  intro op hop
  obtain ⟨ring, hring, hop⟩ := List.mem_flatMap.mp hop
  exact unnamed_rewriteRing (h ring hring) op hop

theorem unnamed_set {k : String} {value : Bytes} (h : k ≠ key) :
    Unnamed key [.write (.set k value)] := fun op hop heq => by
  obtain rfl := List.mem_singleton.mp hop
  exact h (Option.some.inj heq)

theorem Unnamed.append (h : Unnamed key ops) (h' : Unnamed key rest) : Unnamed key (ops ++ rest) :=
  fun op hop => (List.mem_append.mp hop).elim (h op) (h' op)

variable {kept : List (String × List Bytes)} {summaryKey : String} {value : Bytes}

/-- **A key that the rewrite does not name** keeps its value exactly when it is not lost. -/
theorem KeyRun.of_untouched (h : KeyRun py key (rewriteOps kept summaryKey value) v good v')
    (hkept : ∀ ring ∈ kept, ring.1 ≠ key) (hsummary : summaryKey ≠ key) :
    (good = true ↔ v' = v) ∧ (v' = v ∨ v' = none) :=
  h.of_unnamed ((unnamed_rings hkept).append (unnamed_set hsummary))

/-- **The scalar** is stored in the end, unless it is lost at once. -/
theorem KeyRun.of_summary (h : KeyRun py key (rewriteOps kept key value) v good v')
    (hkept : ∀ ring ∈ kept, ring.1 ≠ key) : good = true ↔ v' = some (encodeScalar value) := by
  obtain ⟨v₁, hrun⟩ := h.skip (unnamed_rings hkept) (by simp [restores])
  exact hrun.of_set

/-- **A rewritten ring** holds its items exactly when each loss of it is made good. -/
theorem KeyRun.of_kept (h : KeyRun py key (rewriteOps kept summaryKey value) v good v')
    (hmem : (key, items) ∈ kept) (hnodup : (kept.map Prod.fst).Nodup) (hsummary : summaryKey ≠ key)
    (hitems : RingFits items) : (good = true ↔ v' = holding items) ∧ AtMost items.length v' := by
  obtain ⟨before, after, rfl⟩ := List.append_of_mem hmem
  rw [List.map_append, List.map_cons, List.nodup_append, List.nodup_cons] at hnodup
  have hbefore : ∀ ring ∈ before, ring.1 ≠ key := fun ring hring hkey =>
    hnodup.2.2 _ (List.mem_map_of_mem hring) _ List.mem_cons_self hkey
  have hafter : ∀ ring ∈ after, ring.1 ≠ key := fun ring hring hkey =>
    hnodup.2.1.1 (List.mem_map.mpr ⟨ring, hring, hkey⟩)
  rw [rewriteOps, List.flatMap_append, List.flatMap_cons, List.append_assoc, List.append_assoc] at h
  obtain ⟨v₁, hrun⟩ := h.skip (unnamed_rings hbefore) (by simp [rewriteRing, restores])
  exact hrun.of_ring ((unnamed_rings hafter).append (unnamed_set hsummary)) hitems

end BeamAgents
