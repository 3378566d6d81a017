import BeamAgents.Console.Rollups

/-!
# Roll-ups as derived data

What the records of the console make of every key, and that recomputing the keys whose records have
changed leaves what the records make.

## Main definitions

* `ConsoleDb.Derived`: the roll-ups are those that the records make.
* `ConsoleDb.rebuilt`: every roll-up recomputed from the records.

## Main results

* `ConsoleDb.recompute_derived`: recomputing what has changed is enough.
* `ConsoleDb.derived_iff`: the roll-ups that the records make are those that are rebuilt.
-/

namespace BeamAgents

open Containers

namespace ConsoleDb

variable {readInt : String → Option Int} {py : PyLib} {db db' : ConsoleDb}
  {records records' : ConsoleRecords} {rollups : ConsoleRollups} {activations : List ActivationKey}
  {traces entities : List String}

/-! ### What the records make -/

/-- The tools and the reasons of an activation. -/
def facetsOf (readInt : String → Option Int) (py : PyLib) (records : ConsoleRecords)
    (values : Rollup → List String) (activation : ActivationKey) : List (FacetKey × Unit) :=
  facets activation (((activationRollup readInt py records activation).map values).getD [])

/-- **The roll-ups are those that the records make.** -/
structure Derived (readInt : String → Option Int) (py : PyLib) (records : ConsoleRecords)
    (rollups : ConsoleRollups) : Prop where
  activations : ∀ k, rollups.activations.get? k = activationRollup readInt py records k
  tools : ∀ k : FacetKey, rollups.activationTools.get? k =
    (facetsOf readInt py records Rollup.tools k.activation).lookup k
  reasons : ∀ k : FacetKey, rollups.activationReasons.get? k =
    (facetsOf readInt py records Rollup.reasons k.activation).lookup k
  traces : ∀ k, rollups.traces.get? k = traceRollup records k
  spans : ∀ k : SpanKey, rollups.spans.get? k = (spanRollups records k.traceId).lookup k
  entities : ∀ k, rollups.entities.get? k = entityRollup rollups.activations records.errors k

/-- The records make one table of each kind. -/
theorem Derived.unique {rollups' : ConsoleRollups} (h : Derived readInt py records rollups)
    (h' : Derived readInt py records rollups') : rollups = rollups' := by
  have hactivations : rollups.activations = rollups'.activations :=
    SortedMap.ext_get? fun k => (h.activations k).trans (h'.activations k).symm
  refine ConsoleRollups.ext hactivations ?_ ?_ ?_ ?_ ?_
  · exact SortedMap.ext_get? fun k => (h.tools k).trans (h'.tools k).symm
  · exact SortedMap.ext_get? fun k => (h.reasons k).trans (h'.reasons k).symm
  · exact SortedMap.ext_get? fun k => (h.traces k).trans (h'.traces k).symm
  · exact SortedMap.ext_get? fun k => (h.spans k).trans (h'.spans k).symm
  · refine SortedMap.ext_get? fun k => (h.entities k).trans ?_
    rw [hactivations]
    exact (h'.entities k).symm

/-! ### Recomputing -/

theorem nodup_facets {activation : ActivationKey} {values : List String} (h : values.Nodup) :
    ((facets activation values).map Prod.fst).Nodup := by
  rw [facets, List.map_map]
  exact h.map fun a b heq => congrArg FacetKey.value heq

theorem nodup_sortedSet (texts : List String) : (sortedSet texts).Nodup :=
  (List.perm_insertionSort _ _).nodup_iff.mpr texts.nodup_dedup

theorem nodup_of_summarize {activation : ActivationKey} {events : List ReadEvent}
    {errors : List ReadError} {rollup : Rollup}
    (h : summarize readInt py activation events errors = some rollup) :
    rollup.tools.Nodup ∧ rollup.reasons.Nodup := by
  unfold summarize at h
  cases hstarted : (events.map ReadEvent.startMs ++ errors.map ReadError.eventTimeMs).min? with
  | none =>
    rw [hstarted] at h
    cases h
  | some startedMs =>
    rw [hstarted] at h
    obtain rfl := Option.some.inj h
    exact ⟨nodup_sortedSet _, nodup_sortedSet _⟩

theorem nodup_facetsOf {values : Rollup → List String}
    (hvalues : ∀ {k rollup}, activationRollup readInt py records k = some rollup →
      (values rollup).Nodup) (activation : ActivationKey) :
    ((facetsOf readInt py records values activation).map Prod.fst).Nodup := by
  refine nodup_facets ?_
  cases hrollup : activationRollup readInt py records activation with
  | none => exact List.nodup_nil
  | some rollup => exact hvalues hrollup

theorem activation_of_mem_facets {activation : ActivationKey} {values : List String}
    {p : FacetKey × Unit} (h : p ∈ facets activation values) : p.1.activation = activation := by
  obtain ⟨value, -, rfl⟩ := List.mem_map.mp h
  rfl

theorem spanRollups_keys (records : ConsoleRecords) (traceId : String) :
    ((spanRollups records traceId).map Prod.fst).Nodup ∧
      ∀ p ∈ spanRollups records traceId, p.1.traceId = traceId := by
  have hrow {spanId : String} {p : SpanKey × SpanRollup}
      (h : (spanRollup ((traceEvents records traceId).filter fun q => q.1.spanId = spanId)).map
        (fun row => ((⟨traceId, spanId⟩ : SpanKey), row)) = some p) : p.1 = ⟨traceId, spanId⟩ := by
    obtain ⟨row, -, rfl⟩ := Option.map_eq_some_iff.mp h
    rfl
  constructor
  · rw [spanRollups, List.map_filterMap]
    refine List.Nodup.filterMap (fun a b key ha hb => ?_) (List.nodup_dedup _)
    obtain ⟨p, hp, rfl⟩ := Option.map_eq_some_iff.mp ha
    obtain ⟨q, hq, heq⟩ := Option.map_eq_some_iff.mp hb
    exact congrArg SpanKey.spanId ((hrow hp).symm.trans (heq.symm.trans (hrow hq)))
  · intro p hp
    obtain ⟨spanId, -, hspan⟩ := List.mem_filterMap.mp hp
    rw [hrow hspan]

/-- What recomputing the roll-ups of some keys leaves. -/
structure Recomputed (readInt : String → Option Int) (py : PyLib) (db : ConsoleDb)
    (touched : List ActivationKey) (traceIds entityKeys : List String) (db' : ConsoleDb) :
    Prop where
  records : db'.records = db.records
  activations : ∀ k, db'.rollups.activations.get? k =
    if k ∈ touched then activationRollup readInt py db.records k
    else db.rollups.activations.get? k
  tools : ∀ k : FacetKey, db'.rollups.activationTools.get? k =
    if k.activation ∈ touched then
      (facetsOf readInt py db.records Rollup.tools k.activation).lookup k
    else db.rollups.activationTools.get? k
  reasons : ∀ k : FacetKey, db'.rollups.activationReasons.get? k =
    if k.activation ∈ touched then
      (facetsOf readInt py db.records Rollup.reasons k.activation).lookup k
    else db.rollups.activationReasons.get? k
  traces : ∀ k, db'.rollups.traces.get? k =
    if k ∈ traceIds then traceRollup db.records k else db.rollups.traces.get? k
  spans : ∀ k : SpanKey, db'.rollups.spans.get? k =
    if k.traceId ∈ traceIds then (spanRollups db.records k.traceId).lookup k
    else db.rollups.spans.get? k
  entities : ∀ k, db'.rollups.entities.get? k =
    if k ∈ entityKeys then entityRollup db'.rollups.activations db.records.errors k
    else db.rollups.entities.get? k

theorem get?_recomputed_facets {values : Rollup → List String}
    (hvalues : ∀ {k rollup}, activationRollup readInt py records k = some rollup →
      (values rollup).Nodup) (table : SortedMap FacetKey Unit) (activation : ActivationKey)
    (k : FacetKey) :
    (table.replaceGroup (fun k => decide (k.activation = activation))
        (facetsOf readInt py records values activation)).get? k =
      if k.activation = activation then
        (facetsOf readInt py records values k.activation).lookup k
      else table.get? k := by
  rw [SortedMap.get?_replaceGroup (nodup_facetsOf hvalues activation)
    fun p hp => decide_eq_true (activation_of_mem_facets hp)]
  by_cases hk : k.activation = activation
  · rw [if_pos (decide_eq_true hk), if_pos hk, hk]
  · rw [if_neg (by simpa using hk), if_neg hk]

theorem foldl_recomputeTrace (db : ConsoleDb) (traces : List String) :
    Recomputed readInt py db [] traces [] (traces.foldl recomputeTrace db) := by
  induction traces generalizing db with
  | nil => exact ⟨rfl, fun _ => rfl, fun _ => rfl, fun _ => rfl, fun _ => rfl, fun _ => rfl,
      fun _ => rfl⟩
  | cons traceId traces ih =>
    have hrest := ih (db.recomputeTrace traceId)
    refine ⟨hrest.records, hrest.activations, hrest.tools, hrest.reasons, fun k => ?_, fun k => ?_,
      hrest.entities⟩
    · have hfirst : (db.recomputeTrace traceId).rollups.traces.get? k =
          if k = traceId then traceRollup db.records traceId else db.rollups.traces.get? k :=
        SortedMap.get?_enter traceId k _
      rw [List.foldl_cons, hrest.traces k, hfirst]
      by_cases hk : k ∈ traces
      · rw [if_pos hk, if_pos (List.mem_cons_of_mem _ hk)]
        rfl
      · rw [if_neg hk]
        by_cases heq : k = traceId
        · rw [if_pos heq, if_pos (heq ▸ List.mem_cons_self), heq]
        · rw [if_neg heq, if_neg (List.not_mem_cons_of_ne_of_not_mem heq hk)]
    · have hfirst : (db.recomputeTrace traceId).rollups.spans.get? k =
          if decide (k.traceId = traceId) then (spanRollups db.records traceId).lookup k
          else db.rollups.spans.get? k :=
        SortedMap.get?_replaceGroup (spanRollups_keys db.records traceId).1
          (fun p hp => decide_eq_true ((spanRollups_keys db.records traceId).2 p hp)) k
      rw [List.foldl_cons, hrest.spans k, hfirst]
      by_cases hk : k.traceId ∈ traces
      · rw [if_pos hk, if_pos (List.mem_cons_of_mem _ hk)]
        rfl
      · rw [if_neg hk]
        by_cases heq : k.traceId = traceId
        · rw [if_pos (decide_eq_true heq), if_pos (heq ▸ List.mem_cons_self), heq]
        · rw [if_neg (by simpa using heq), if_neg (List.not_mem_cons_of_ne_of_not_mem heq hk)]

theorem foldl_recomputeActivation (db : ConsoleDb) (activations : List ActivationKey) :
    Recomputed readInt py db activations [] []
      (activations.foldl (recomputeActivation readInt py) db) := by
  induction activations generalizing db with
  | nil => exact ⟨rfl, fun _ => rfl, fun _ => rfl, fun _ => rfl, fun _ => rfl, fun _ => rfl,
      fun _ => rfl⟩
  | cons activation activations ih =>
    have hrest := ih (db.recomputeActivation readInt py activation)
    -- What the first activation enters is kept, or entered again.
    have hkey {k : ActivationKey} {α : Type} {x y : α} {p : Prop} [Decidable p]
        (hp : p ↔ k = activation) : (if k ∈ activations then x else if p then x else y) =
          if k ∈ activation :: activations then x else y := by
      by_cases hk : k ∈ activations
      · rw [if_pos hk, if_pos (List.mem_cons_of_mem _ hk)]
      · rw [if_neg hk]
        by_cases heq : k = activation
        · rw [if_pos (hp.mpr heq), if_pos (heq ▸ List.mem_cons_self)]
        · rw [if_neg (heq ∘ hp.mp), if_neg (List.not_mem_cons_of_ne_of_not_mem heq hk)]
    refine ⟨hrest.records, fun k => ?_, fun k => ?_, fun k => ?_, hrest.traces, hrest.spans,
      hrest.entities⟩
    · have hfirst : (db.recomputeActivation readInt py activation).rollups.activations.get? k =
          if k = activation then activationRollup readInt py db.records k
          else db.rollups.activations.get? k := by
        refine (SortedMap.get?_enter activation k _).trans ?_
        by_cases hk : k = activation
        · rw [if_pos hk, if_pos hk, hk]
        · rw [if_neg hk, if_neg hk]
      rw [List.foldl_cons, hrest.activations k, hfirst]
      exact hkey Iff.rfl
    · have hfirst : (db.recomputeActivation readInt py activation).rollups.activationTools.get? k =
          if k.activation = activation then
            (facetsOf readInt py db.records Rollup.tools k.activation).lookup k
          else db.rollups.activationTools.get? k :=
        get?_recomputed_facets (fun h => (nodup_of_summarize h).1) _ activation k
      rw [List.foldl_cons, hrest.tools k, hfirst]
      exact hkey Iff.rfl
    · have hfirst :
        (db.recomputeActivation readInt py activation).rollups.activationReasons.get? k =
          if k.activation = activation then
            (facetsOf readInt py db.records Rollup.reasons k.activation).lookup k
          else db.rollups.activationReasons.get? k :=
        get?_recomputed_facets (fun h => (nodup_of_summarize h).2) _ activation k
      rw [List.foldl_cons, hrest.reasons k, hfirst]
      exact hkey Iff.rfl

theorem foldl_recomputeEntity (db : ConsoleDb) (entities : List String) :
    Recomputed readInt py db [] [] entities (entities.foldl recomputeEntity db) := by
  induction entities generalizing db with
  | nil => exact ⟨rfl, fun _ => rfl, fun _ => rfl, fun _ => rfl, fun _ => rfl, fun _ => rfl,
      fun _ => rfl⟩
  | cons entityKey entities ih =>
    have hrest := ih (db.recomputeEntity entityKey)
    refine ⟨hrest.records, hrest.activations, hrest.tools, hrest.reasons, hrest.traces, hrest.spans,
      fun k => ?_⟩
    have hfirst : (db.recomputeEntity entityKey).rollups.entities.get? k =
        if k = entityKey then entityRollup db.rollups.activations db.records.errors entityKey
        else db.rollups.entities.get? k := SortedMap.get?_enter entityKey k _
    have hactivations :
      (entities.foldl recomputeEntity (db.recomputeEntity entityKey)).rollups.activations =
        db.rollups.activations := SortedMap.ext_get? hrest.activations
    rw [List.foldl_cons, hrest.entities k, hfirst, hactivations]
    by_cases hk : k ∈ entities
    · rw [if_pos hk, if_pos (List.mem_cons_of_mem _ hk)]
      rfl
    · rw [if_neg hk]
      by_cases heq : k = entityKey
      · rw [if_pos heq, if_pos (heq ▸ List.mem_cons_self), heq]
      · rw [if_neg heq, if_neg (List.not_mem_cons_of_ne_of_not_mem heq hk)]

/-- **What recomputing leaves.** -/
theorem recompute_recomputed (db : ConsoleDb) (activations : List ActivationKey)
    (traces entities : List String) : Recomputed readInt py db activations traces entities
      (db.recompute readInt py activations traces entities) := by
  have htraces : Recomputed readInt py db [] traces [] _ := foldl_recomputeTrace db traces
  have hactivations : Recomputed readInt py _ activations [] [] _ :=
    foldl_recomputeActivation (traces.foldl recomputeTrace db) activations
  have hentities : Recomputed readInt py _ [] [] entities _ := foldl_recomputeEntity
    (activations.foldl (recomputeActivation readInt py) (traces.foldl recomputeTrace db)) entities
  have hrecords := hactivations.records.trans htraces.records
  refine ⟨hentities.records.trans hrecords, fun k => ?_, fun k => ?_, fun k => ?_, fun k => ?_,
    fun k => ?_, fun k => ?_⟩
  · rw [recompute, hentities.activations k, if_neg List.not_mem_nil, hactivations.activations k,
      htraces.activations k, htraces.records, if_neg List.not_mem_nil]
  · rw [recompute, hentities.tools k, if_neg List.not_mem_nil, hactivations.tools k,
      htraces.tools k, htraces.records, if_neg List.not_mem_nil]
  · rw [recompute, hentities.reasons k, if_neg List.not_mem_nil, hactivations.reasons k,
      htraces.reasons k, htraces.records, if_neg List.not_mem_nil]
  · rw [recompute, hentities.traces k, if_neg List.not_mem_nil, hactivations.traces k,
      if_neg List.not_mem_nil, htraces.traces k]
  · rw [recompute, hentities.spans k, if_neg List.not_mem_nil, hactivations.spans k,
      if_neg List.not_mem_nil, htraces.spans k]
  · rw [recompute, hentities.entities k, hactivations.entities k, if_neg List.not_mem_nil,
      htraces.entities k, if_neg List.not_mem_nil, hrecords]

/-! ### Bringing the roll-ups up to date -/

/-- **Recomputing what has changed is enough.** -/
theorem recompute_derived (h : Derived readInt py records db.rollups)
    (hactivations : ∀ k ∉ activations, readEvents db.records k = readEvents records k ∧
      readErrors db.records k = readErrors records k)
    (htraces : ∀ k ∉ traces, traceEvents db.records k = traceEvents records k)
    (hentities : ∀ k ∉ entities, (∀ a ∈ activations, a.entityKey ≠ k) ∧
      (db.records.errors.values.filter fun row => row.entityKey = k) =
        records.errors.values.filter fun row => row.entityKey = k) :
    Derived readInt py (db.recompute readInt py activations traces entities).records
      (db.recompute readInt py activations traces entities).rollups := by
  have hdone : Recomputed readInt py db activations traces entities _ :=
    recompute_recomputed db activations traces entities
  have hsame {k : ActivationKey} (hk : k ∉ activations) :
      activationRollup readInt py db.records k = activationRollup readInt py records k := by
    rw [activationRollup, activationRollup, (hactivations k hk).1, (hactivations k hk).2]
  have hfacets {k : ActivationKey} (hk : k ∉ activations) (values : Rollup → List String) :
      facetsOf readInt py db.records values k = facetsOf readInt py records values k := by
    rw [facetsOf, facetsOf, hsame hk]
  have hspans {k : String} (hk : k ∉ traces) :
      spanRollups db.records k = spanRollups records k := by
    rw [spanRollups, spanRollups, htraces k hk]
  rw [hdone.records]
  refine ⟨fun k => ?_, fun k => ?_, fun k => ?_, fun k => ?_, fun k => ?_, fun k => ?_⟩
  · rw [hdone.activations k]
    split_ifs with hk
    · rfl
    · rw [h.activations k, hsame hk]
  · rw [hdone.tools k]
    split_ifs with hk
    · rfl
    · rw [h.tools k, hfacets hk]
  · rw [hdone.reasons k]
    split_ifs with hk
    · rfl
    · rw [h.reasons k, hfacets hk]
  · rw [hdone.traces k]
    split_ifs with hk
    · rfl
    · rw [h.traces k, traceRollup, traceRollup, htraces k hk]
  · rw [hdone.spans k]
    split_ifs with hk
    · rfl
    · rw [h.spans k, hspans hk]
  · rw [hdone.entities k]
    split_ifs with hk
    · rfl
    · obtain ⟨hother, herrors⟩ := hentities k hk
      have htable :
        (db.recompute readInt py activations traces entities).rollups.activations.restrict
          (fun a _ => decide (a.entityKey = k)) =
            db.rollups.activations.restrict fun a _ => decide (a.entityKey = k) := by
        refine SortedMap.ext_get? fun a => ?_
        rw [SortedMap.get?_restrict, SortedMap.get?_restrict, hdone.activations a]
        by_cases ha : a ∈ activations
        · have hne := hother a ha
          cases db.rollups.activations.get? a <;>
            cases activationRollup readInt py db.records a <;> simp [ha, hne]
        · rw [if_neg ha]
      have hrows := congrArg SortedMap.entries htable
      simp only [SortedMap.restrict] at hrows
      rw [h.entities k, entityRollup, entityRollup, hrows, herrors]

/-! ### Rebuilding -/

/-- The activations that any record names. -/
def activationKeys (records : ConsoleRecords) : List ActivationKey :=
  records.events.entries.map (fun p => p.2.activation) ++
    records.errors.values.filterMap ErrorRow.activation

/-- The traces that any event names. -/
def traceIds (records : ConsoleRecords) : List String :=
  records.events.entries.map fun p => p.1.traceId

/-- The entities that any record names. -/
def entityKeys (records : ConsoleRecords) : List String :=
  (activationKeys records).map ActivationKey.entityKey ++
    records.errors.values.map ErrorRow.entityKey

/-- Every roll-up recomputed from the records. -/
def rebuilt (readInt : String → Option Int) (py : PyLib) (records : ConsoleRecords) :
    ConsoleRollups :=
  (recompute readInt py ⟨records, .empty, 0, 0⟩ (activationKeys records) (traceIds records)
    (entityKeys records)).rollups

/-- Nothing is made of no records. -/
theorem derived_empty : Derived readInt py ⟨.empty, .empty, .empty⟩ .empty :=
  ⟨fun _ => rfl, fun _ => rfl, fun _ => rfl, fun _ => rfl, fun _ => rfl, fun _ => rfl⟩

/-- What is rebuilt is what the records make. -/
theorem derived_rebuilt (records : ConsoleRecords) :
    Derived readInt py records (rebuilt readInt py records) := by
  let db : ConsoleDb := ⟨records, .empty, 0, 0⟩
  have hdone : Recomputed readInt py db (activationKeys records) (traceIds records)
      (entityKeys records) _ := recompute_recomputed _ _ _ _
  have hbefore : Derived readInt py ⟨.empty, .empty, .empty⟩ db.rollups := derived_empty
  have hderived : Derived readInt py
      (db.recompute readInt py (activationKeys records) (traceIds records)
        (entityKeys records)).records (rebuilt readInt py records) := by
    refine recompute_derived hbefore (fun k hk => ?_) (fun k hk => ?_) fun k hk => ⟨?_, ?_⟩
    · have hevents : (records.events.entries.filter fun p => p.2.activation = k) = [] :=
        List.filter_eq_nil_iff.mpr fun p hp heq => hk (List.mem_append_left _
          (List.mem_map.mpr ⟨p, hp, of_decide_eq_true heq⟩))
      have herrors : (records.errors.values.filter fun row => row.activation = some k) = [] :=
        List.filter_eq_nil_iff.mpr fun row hrow heq => hk (List.mem_append_right _
          (List.mem_filterMap.mpr ⟨row, hrow, of_decide_eq_true heq⟩))
      rw [readEvents, readErrors, hevents, herrors]
      exact ⟨rfl, rfl⟩
    · exact List.filter_eq_nil_iff.mpr fun p hp heq => hk
        (List.mem_map.mpr ⟨p, hp, of_decide_eq_true heq⟩)
    · exact fun a ha heq => hk (List.mem_append_left _ (List.mem_map.mpr ⟨a, ha, heq⟩))
    · exact List.filter_eq_nil_iff.mpr fun row hrow heq => hk (List.mem_append_right _
        (List.mem_map.mpr ⟨row, hrow, of_decide_eq_true heq⟩))
  rwa [hdone.records] at hderived

/-- **The roll-ups that the records make are those that are rebuilt.** -/
theorem derived_iff :
    Derived readInt py records rollups ↔ rollups = rebuilt readInt py records := by
  constructor
  · exact fun h => h.unique (derived_rebuilt records)
  · rintro rfl
    exact derived_rebuilt records

end ConsoleDb

end BeamAgents
