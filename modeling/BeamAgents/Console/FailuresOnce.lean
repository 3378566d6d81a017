import BeamAgents.Console.ErrorRows

/-!
# Failures that are listed once

The unified errors list a failure once, joined with its own trace error, when its record tells which
one that is. A record without `seq` claims the first trace error of its entity and reason, whether
it is its own or not.

## Main definitions

* `RecordedFailure`: a failure that has a record.
* `ListedOnce`: each failure is listed once, its record with its own trace error.
* `OwnFirst`: the condition on the failures.

## Main results

* `find?_claim_iff`: when a record claims its own trace error.
* `listedOnce_iff`: when each failure is listed once.
-/

namespace BeamAgents

open Containers

/-! ### What a record claims -/

/-- The key of the trace error that a record is joined with, if there is one. -/
def claim (traces : List TraceError) (record : ErrorRow) : FailureKey :=
  ⟨record.entityKey, matchedSeq traces record, record.reason⟩

section Claims

variable {traces : List TraceError} {record : ErrorRow} {records : List ErrorRow}
  {trace : TraceError} {key : FailureKey}

theorem key_eq_claim_iff : trace.key = claim traces record ↔
    trace.key.entityKey = record.entityKey ∧ trace.key.reason = record.reason ∧
      trace.key.seq = matchedSeq traces record := by
  rw [FailureKey.ext_iff, claim, and_congr_right_iff]
  exact fun _ => and_comm

/-- A key has one trace error. -/
theorem find?_key_eq_some_iff (hnodup : (traces.map TraceError.key).Nodup) :
    (traces.find? fun t => t.key = key) = some trace ↔ trace ∈ traces ∧ trace.key = key := by
  constructor
  · intro h
    exact ⟨List.mem_of_find?_eq_some h, by simpa using List.find?_some h⟩
  · rintro ⟨hmem, rfl⟩
    cases hfind : traces.find? fun t => t.key = trace.key with
    | none => exact absurd (decide_eq_true rfl) (List.find?_eq_none.mp hfind trace hmem)
    | some found =>
      have hkey : found.key = trace.key := by simpa using List.find?_some hfind
      rw [List.inj_on_of_nodup_map hnodup (List.mem_of_find?_eq_some hfind) hmem hkey]

theorem filter_key (hnodup : (traces.map TraceError.key).Nodup) :
    (traces.filter fun t => t.key = key) = (traces.find? fun t => t.key = key).toList := by
  induction traces with
  | nil => rfl
  | cons first rest ih =>
    obtain ⟨hfirst, hrest⟩ := List.nodup_cons.mp hnodup
    by_cases hkey : first.key = key
    · have hnone : (rest.filter fun t => t.key = key) = [] :=
        List.filter_eq_nil_iff.mpr fun t ht heq => hfirst
          (hkey ▸ of_decide_eq_true heq ▸ List.mem_map_of_mem ht)
      rw [List.filter_cons_of_pos (by simpa using hkey), hnone,
        List.find?_cons_of_pos (by simpa using hkey)]
      rfl
    · rw [List.filter_cons_of_neg (by simpa using hkey), ih hrest,
        List.find?_cons_of_neg (by simpa using hkey)]

/-- **A record is listed once**, with the trace error that it claims. -/
theorem partners_eq (hnodup : (traces.map TraceError.key).Nodup) (record : ErrorRow) :
    partners traces record = [traces.find? fun t => t.key = claim traces record] := by
  have hfilter : (traces.filter fun trace => trace.key.entityKey = record.entityKey ∧
      trace.key.reason = record.reason ∧ trace.key.seq = matchedSeq traces record) =
        (traces.find? fun t => t.key = claim traces record).toList := by
    rw [← filter_key hnodup]
    exact List.filter_congr fun t _ => by simp only [key_eq_claim_iff]
  rw [partners, hfilter]
  cases traces.find? fun t => t.key = claim traces record <;> rfl

theorem claimed_iff : Claimed traces records trace ↔
    ∃ record ∈ records, trace.key = claim traces record := by
  refine exists_congr fun record => and_congr_right fun _ => ?_
  rw [key_eq_claim_iff, eq_comm, and_congr_right_iff]
  exact fun _ => and_congr eq_comm eq_comm

end Claims

/-! ### Failures with records -/

/-- A failure that has a record. The record may carry its `seq`. -/
structure RecordedFailure where
  record : ErrorRow
  seq : Int
  carries : ∀ s ∈ record.seq, s = seq

/-- What the failure is known by. -/
def RecordedFailure.key (failure : RecordedFailure) : FailureKey :=
  ⟨failure.record.entityKey, failure.seq, failure.record.reason⟩

/-- The trace error of a failure itself. -/
def RecordedFailure.own (traces : List TraceError) (failure : RecordedFailure) :
    Option TraceError :=
  traces.find? fun trace => trace.key = failure.key

/-- Trace errors of failures of the same entity for the same reason. -/
def RecordedFailure.Similar (failure : RecordedFailure) (trace : TraceError) : Prop :=
  trace.key.entityKey = failure.record.entityKey ∧ trace.key.reason = failure.record.reason

/-- **The own trace error comes first.** When the record has no `seq` and there are trace errors of
the same entity and reason, the own one is there and is the first of them; and when the record has
one and its own trace error is missing, none of these has the `seq` that stands for none. -/
structure OwnFirst (traces : List TraceError) (failure : RecordedFailure) : Prop where
  first : failure.record.seq = none → ∀ trace ∈ traces, failure.Similar trace →
    (∃ own ∈ traces, own.key = failure.key) ∧ failure.seq ≤ trace.key.seq
  absent : failure.record.seq ≠ none → (∀ own ∈ traces, own.key ≠ failure.key) →
    ∀ trace ∈ traces, failure.Similar trace → trace.key.seq ≠ -1

instance (failure : RecordedFailure) (trace : TraceError) : Decidable (failure.Similar trace) :=
  inferInstanceAs (Decidable (_ ∧ _))

instance (traces : List TraceError) (failure : RecordedFailure) :
    Decidable (OwnFirst traces failure) :=
  decidable_of_iff
    ((failure.record.seq = none → ∀ trace ∈ traces, failure.Similar trace →
      (∃ own ∈ traces, own.key = failure.key) ∧ failure.seq ≤ trace.key.seq) ∧
    (failure.record.seq ≠ none → (∀ own ∈ traces, own.key ≠ failure.key) →
      ∀ trace ∈ traces, failure.Similar trace → trace.key.seq ≠ -1))
    ⟨fun h => ⟨h.1, h.2⟩, fun h => ⟨h.first, h.absent⟩⟩

section Failures

variable {traces : List TraceError} {failure : RecordedFailure}

theorem similar_of_key {trace : TraceError} (h : trace.key = failure.key) :
    failure.Similar trace := by
  rw [RecordedFailure.Similar, h]
  exact ⟨rfl, rfl⟩

/-- The `seq` of what a record without one claims is the least. -/
theorem claim_of_none (traces : List TraceError) (h : failure.record.seq = none) :
    (∀ trace ∈ traces, ¬ failure.Similar trace) ∨
      ∃ trace ∈ traces, trace.key = claim traces failure.record ∧
        ∀ other ∈ traces, failure.Similar other → trace.key.seq ≤ other.key.seq := by
  have hmem (trace : TraceError) : (trace ∈ traces.filter fun trace =>
      trace.key.entityKey = failure.record.entityKey ∧ trace.key.reason = failure.record.reason ∧
        (failure.record.seq = none ∨ failure.record.seq = some trace.key.seq)) ↔
      trace ∈ traces ∧ failure.Similar trace := by
    rw [List.mem_filter, decide_eq_true_iff, h]
    simp [RecordedFailure.Similar]
  cases hmin : ((traces.filter fun trace =>
      trace.key.entityKey = failure.record.entityKey ∧ trace.key.reason = failure.record.reason ∧
        (failure.record.seq = none ∨ failure.record.seq = some trace.key.seq)).map
          fun trace => trace.key.seq).min? with
  | none =>
    have hnil := List.map_eq_nil_iff.mp (List.min?_eq_none_iff.mp hmin)
    exact .inl fun trace htrace hsimilar =>
      List.ne_nil_of_mem ((hmem trace).mpr ⟨htrace, hsimilar⟩) hnil
  | some least =>
    obtain ⟨hleast, hle⟩ := List.min?_eq_some_iff.mp hmin
    obtain ⟨trace, htrace, rfl⟩ := List.mem_map.mp hleast
    obtain ⟨htrace, hsimilar⟩ := (hmem trace).mp htrace
    refine .inr ⟨trace, htrace, key_eq_claim_iff.mpr ⟨hsimilar.1, hsimilar.2, ?_⟩,
      fun other hother hsimilar' =>
        hle _ (List.mem_map_of_mem ((hmem other).mpr ⟨hother, hsimilar'⟩))⟩
    rw [matchedSeq, hmin, Option.getD_some]

/-- A record with a `seq` claims the trace error of it, if there is one. -/
theorem claim_of_some (traces : List TraceError) (h : failure.record.seq ≠ none) :
    (∃ own ∈ traces, own.key = failure.key) ∧ claim traces failure.record = failure.key ∨
      (∀ own ∈ traces, own.key ≠ failure.key) ∧ matchedSeq traces failure.record = -1 := by
  obtain ⟨seq, hseq⟩ := Option.ne_none_iff_exists'.mp h
  obtain rfl := failure.carries seq hseq
  have hmem (trace : TraceError) : (trace ∈ traces.filter fun trace =>
      trace.key.entityKey = failure.record.entityKey ∧ trace.key.reason = failure.record.reason ∧
        (failure.record.seq = none ∨ failure.record.seq = some trace.key.seq)) ↔
      trace ∈ traces ∧ trace.key = failure.key := by
    rw [List.mem_filter, decide_eq_true_iff, hseq, FailureKey.ext_iff, RecordedFailure.key]
    simp only [reduceCtorEq, false_or, Option.some.injEq]
    tauto
  cases hmin : ((traces.filter fun trace =>
      trace.key.entityKey = failure.record.entityKey ∧ trace.key.reason = failure.record.reason ∧
        (failure.record.seq = none ∨ failure.record.seq = some trace.key.seq)).map
          fun trace => trace.key.seq).min? with
  | none =>
    have hnil := List.map_eq_nil_iff.mp (List.min?_eq_none_iff.mp hmin)
    refine .inr ⟨fun own hown hkey => List.ne_nil_of_mem ((hmem own).mpr ⟨hown, hkey⟩) hnil, ?_⟩
    rw [matchedSeq, hmin, Option.getD_none]
  | some least =>
    obtain ⟨own, hown, hleast⟩ := List.mem_map.mp (List.min?_eq_some_iff.mp hmin).1
    obtain ⟨hown, hkey⟩ := (hmem own).mp hown
    refine .inl ⟨⟨own, hown, hkey⟩, ?_⟩
    rw [claim, matchedSeq, hmin, Option.getD_some, ← hleast, hkey]
    rfl

/-- **When a record claims its own trace error.** -/
theorem find?_claim_iff (hnodup : (traces.map TraceError.key).Nodup) :
    (traces.find? fun t => t.key = claim traces failure.record) = failure.own traces ↔
      OwnFirst traces failure := by
  have hsimilar {trace : TraceError} (hkey : trace.key = claim traces failure.record) :
      failure.Similar trace := by
    obtain ⟨hentity, hreason, -⟩ := key_eq_claim_iff.mp hkey
    exact ⟨hentity, hreason⟩
  by_cases hseq : failure.record.seq = none
  · rcases claim_of_none traces hseq with hnone | ⟨trace, htrace, hkey, hleast⟩
    · -- There is nothing to claim.
      have hclaim : (traces.find? fun t => t.key = claim traces failure.record) = none :=
        List.find?_eq_none.mpr fun t ht hkey => hnone t ht (hsimilar (of_decide_eq_true hkey))
      have hown : failure.own traces = none :=
        List.find?_eq_none.mpr fun t ht hkey => hnone t ht (similar_of_key (of_decide_eq_true hkey))
      rw [hclaim, hown]
      exact iff_of_true rfl ⟨fun _ t ht hsim => absurd hsim (hnone t ht), fun h => absurd hseq h⟩
    · rw [(find?_key_eq_some_iff hnodup).mpr ⟨htrace, hkey⟩, eq_comm, RecordedFailure.own,
        find?_key_eq_some_iff hnodup]
      constructor
      · rintro ⟨-, hown⟩
        refine ⟨fun _ t ht hsim => ⟨⟨trace, htrace, hown⟩, ?_⟩, fun h => absurd hseq h⟩
        have hseqs : trace.key.seq = failure.seq := congrArg FailureKey.seq hown
        exact hseqs ▸ hleast t ht hsim
      · intro h
        obtain ⟨⟨own, hown, hownKey⟩, hle⟩ := h.first hseq trace htrace (hsimilar hkey)
        have hge := hleast own hown (similar_of_key hownKey)
        have hseqs : own.key.seq = failure.seq := congrArg FailureKey.seq hownKey
        have hle' : trace.key.seq ≤ failure.seq := hseqs ▸ hge
        exact ⟨htrace, FailureKey.ext (hsimilar hkey).1 (le_antisymm hle' hle) (hsimilar hkey).2⟩
  · rcases claim_of_some traces hseq with ⟨hown, hclaim⟩ | ⟨hnone, hminus⟩
    · rw [hclaim]
      exact iff_of_true rfl ⟨fun h => absurd h hseq, fun _ habsent =>
        absurd hown.choose_spec.2 (habsent _ hown.choose_spec.1)⟩
    · have hown : failure.own traces = none :=
        List.find?_eq_none.mpr fun t ht hkey => hnone t ht (of_decide_eq_true hkey)
      rw [hown, List.find?_eq_none]
      constructor
      · intro h
        refine ⟨fun hs => absurd hs hseq, fun _ _ trace htrace hsim hone => h trace htrace ?_⟩
        exact decide_eq_true (key_eq_claim_iff.mpr ⟨hsim.1, hsim.2, hone.trans hminus.symm⟩)
      · intro h trace htrace hkey
        have hkey' := of_decide_eq_true hkey
        exact h.absent hseq hnone trace htrace (hsimilar hkey')
          ((key_eq_claim_iff.mp hkey').2.2.trans hminus)

end Failures

/-! ### What is stored of the records -/

/-- A row without the way by which it arrived. -/
def ErrorRow.unmarked (row : ErrorRow) : ErrorRow := { row with provenance := .native }

section Stored

variable {py : PyLib} {delivered : List ErrorRow} {failures : List RecordedFailure}

/-- The records of the failures are delivered, in whatever order, however often and by whatever
way, and no others are. -/
def DeliveredRecords (failures : List RecordedFailure) (delivered : List ErrorRow) : Prop :=
  ∀ row, row ∈ delivered.map ErrorRow.unmarked ↔
    row ∈ failures.map fun failure => failure.record.unmarked

/-- The way by which a row arrived is not part of its id. -/
theorem errorId_unmarked (row : ErrorRow) : errorId py row.unmarked = errorId py row := rfl

/-- A stored row is one that was delivered, under its id. -/
theorem mem_items_writeErrors {p : String × ErrorRow}
    (h : p ∈ (writeErrors py .empty delivered).items) :
    p.1 = errorId py p.2 ∧ ∃ row ∈ delivered, row.unmarked = p.2.unmarked := by
  induction delivered using List.reverseRecOn generalizing p with
  | nil => cases h
  | append_singleton delivered row ih =>
    have hold {p : String × ErrorRow} (hp : p ∈ (writeErrors py .empty delivered).items) :
        p.1 = errorId py p.2 ∧ ∃ row' ∈ delivered ++ [row], row'.unmarked = p.2.unmarked := by
      obtain ⟨hid, row', hrow', heq⟩ := ih hp
      exact ⟨hid, row', List.mem_append_left _ hrow', heq⟩
    have hlast : writeErrors py .empty (delivered ++ [row]) =
        upsertError py (writeErrors py .empty delivered) row := List.foldl_append
    rw [hlast, upsertError] at h
    cases hget : (writeErrors py .empty delivered).get? (errorId py row) with
    | none =>
      rw [hget] at h
      rcases Dict.mem_set _ h with rfl | hp
      · exact ⟨rfl, row, List.mem_append_right _ List.mem_cons_self, rfl⟩
      · exact hold hp
    | some stored =>
      rw [hget] at h
      rcases Dict.mem_set _ h with rfl | hp
      · obtain ⟨hid, row', hrow', heq⟩ := hold (Dict.get?_eq_some_iff _ |>.mp hget)
        exact ⟨hid, row', hrow', heq⟩
      · exact hold hp

theorem ids_writeErrors (delivered : List ErrorRow) :
    (writeErrors py .empty delivered).values.map (errorId py) =
      (writeErrors py .empty delivered).keys := by
  rw [Dict.values, Dict.keys, List.map_map]
  exact List.map_congr_left fun p hp => (mem_items_writeErrors hp).1.symm

/-- The ids of the stored rows are those of the records. -/
theorem mem_errorIds_iff (hdelivered : DeliveredRecords failures delivered) (id : String) :
    id ∈ (writeErrors py .empty delivered).values.map (errorId py) ↔
      id ∈ failures.map fun failure => errorId py failure.record := by
  have hempty : id ∉ (Dict.empty : ErrorTable).keys := List.not_mem_nil
  have hids : delivered.map (errorId py) =
      (delivered.map ErrorRow.unmarked).map (errorId py) := by
    rw [List.map_map]
    rfl
  rw [ids_writeErrors, mem_keys_writeErrors, or_iff_right hempty, hids, List.mem_map]
  constructor
  · rintro ⟨row, hrow, rfl⟩
    obtain ⟨failure, hfailure, rfl⟩ := List.mem_map.mp ((hdelivered row).mp hrow)
    exact List.mem_map.mpr ⟨failure, hfailure, rfl⟩
  · intro h
    obtain ⟨failure, hfailure, rfl⟩ := List.mem_map.mp h
    exact ⟨failure.record.unmarked,
      (hdelivered _).mpr (List.mem_map_of_mem hfailure), rfl⟩

/-- There are as many stored rows as ids. -/
theorem length_values (hdelivered : DeliveredRecords failures delivered) :
    (writeErrors py .empty delivered).values.length =
      (failures.map fun failure => errorId py failure.record).dedup.length := by
  have hperm : ((writeErrors py .empty delivered).values.map (errorId py)).Perm
      (failures.map fun failure => errorId py failure.record).dedup := by
    refine (List.perm_ext_iff_of_nodup ?_ (List.nodup_dedup _)).mpr fun id => ?_
    · rw [ids_writeErrors]
      exact (writeErrors py .empty delivered).nodup
    · rw [mem_errorIds_iff hdelivered, List.mem_dedup]
  rw [← hperm.length_eq, List.length_map]

/-- **What is stored of records whose ids differ.** -/
theorem unmarked_values (hdelivered : DeliveredRecords failures delivered)
    (hids : (failures.map fun failure => errorId py failure.record).Nodup) :
    ((writeErrors py .empty delivered).values.map ErrorRow.unmarked).Perm
      (failures.map fun failure => failure.record.unmarked) := by
  have hnodup : ((writeErrors py .empty delivered).values.map ErrorRow.unmarked).Nodup := by
    have hkeys : (((writeErrors py .empty delivered).values.map ErrorRow.unmarked).map
        (errorId py)).Nodup := by
      rw [List.map_map]
      change ((writeErrors py .empty delivered).values.map (errorId py)).Nodup
      rw [ids_writeErrors]
      exact (writeErrors py .empty delivered).nodup
    exact hkeys.of_map _
  have hnodup' : (failures.map fun failure => failure.record.unmarked).Nodup := by
    have hkeys :
        ((failures.map fun failure => failure.record.unmarked).map (errorId py)).Nodup := by
      rw [List.map_map]
      exact hids
    exact hkeys.of_map _
  have hstored {row : ErrorRow} (hrow : row ∈ (writeErrors py .empty delivered).values) :
      row.unmarked ∈ failures.map fun failure => failure.record.unmarked := by
    obtain ⟨p, hp, rfl⟩ := List.mem_map.mp hrow
    obtain ⟨-, row', hrow', heq⟩ := mem_items_writeErrors hp
    exact (hdelivered _).mp (List.mem_map.mpr ⟨row', hrow', heq⟩)
  refine (List.perm_ext_iff_of_nodup hnodup hnodup').mpr fun row => ⟨fun h => ?_, fun h => ?_⟩
  · obtain ⟨row', hrow', rfl⟩ := List.mem_map.mp h
    exact hstored hrow'
  · obtain ⟨failure, hfailure, rfl⟩ := List.mem_map.mp h
    have hid : errorId py failure.record ∈
        (writeErrors py .empty delivered).values.map (errorId py) :=
      (mem_errorIds_iff hdelivered _).mpr (List.mem_map.mpr ⟨failure, hfailure, rfl⟩)
    obtain ⟨row, hrow, hsame⟩ := List.mem_map.mp hid
    obtain ⟨failure', hfailure', heq⟩ := List.mem_map.mp (hstored hrow)
    have hsame' : errorId py failure'.record = errorId py failure.record :=
      (congrArg (errorId py) heq).trans hsame
    rw [List.inj_on_of_nodup_map hids hfailure' hfailure hsame'] at heq
    exact List.mem_map.mpr ⟨row, hrow, heq.symm⟩

end Stored

/-! ### Failures listed once -/

/-- A listed error without the way by which its record arrived. -/
def ListedError.unmarked : ListedError → ListedError
  | .ofRecord record trace => .ofRecord record.unmarked trace
  | .ofTrace trace => .ofTrace trace

/-- Each failure once: its record with its own trace error if that is there, and what has no record
on its own. -/
def eachOnce (traces : List TraceError) (failures : List RecordedFailure) : List ListedError :=
  (failures.map fun failure => .ofRecord failure.record.unmarked (failure.own traces)) ++
    (traces.filter fun trace => trace.key ∉ failures.map RecordedFailure.key).map .ofTrace

/-- **Each failure is listed exactly once.** -/
def ListedOnce (castInt : String → Int) (records : ConsoleRecords)
    (failures : List RecordedFailure) : Prop :=
  ((listedErrors castInt records).map ListedError.unmarked).Perm
    (eachOnce (traceErrors castInt records.events) failures)

section Once

variable {py : PyLib} {castInt : String → Int} {traces : List TraceError}
  {delivered : List ErrorRow} {failures : List RecordedFailure}

/-- The way by which a record arrived has no part in what it claims. -/
theorem claim_unmarked (record : ErrorRow) : claim traces record.unmarked = claim traces record :=
  rfl

/-- What is listed, without the way by which the records arrived. -/
theorem listErrors_unmarked (hnodup : (traces.map TraceError.key).Nodup) (records : List ErrorRow) :
    (listErrors traces records).map ListedError.unmarked =
      ((records.map ErrorRow.unmarked).map fun record => .ofRecord record
        (traces.find? fun t => t.key = claim traces record)) ++
      (traces.filter fun trace => ¬ Claimed traces records trace).map .ofTrace := by
  have hjoin : (records.flatMap fun record => (partners traces record).map (.ofRecord record)) =
      records.map fun record => ListedError.ofRecord record
        (traces.find? fun t => t.key = claim traces record) := by
    rw [List.map_eq_flatMap]
    refine List.flatMap_congr fun record _ => ?_
    rw [partners_eq hnodup]
    rfl
  rw [listErrors, hjoin, List.map_append, List.map_map, List.map_map, List.map_map]
  rfl

/-- Whether a listed error has a record. -/
def ListedError.hasRecord : ListedError → Bool
  | .ofRecord _ _ => true
  | .ofTrace _ => false

theorem countP_hasRecord {α : Type} (record : α → ErrorRow) (trace : α → Option TraceError)
    (l : List α) (traces : List TraceError) :
    ((l.map fun a => ListedError.ofRecord (record a) (trace a)) ++
      traces.map ListedError.ofTrace).countP ListedError.hasRecord = l.length := by
  have hrecords : (l.map fun a => ListedError.ofRecord (record a) (trace a)).countP
      ListedError.hasRecord = l.length := by
    rw [List.countP_map, List.countP_eq_length]
    exact fun _ _ => rfl
  have htraces : (traces.map ListedError.ofTrace).countP ListedError.hasRecord = 0 := by
    rw [List.countP_map, List.countP_eq_zero]
    exact fun _ _ => Bool.false_ne_true
  rw [List.countP_append, hrecords, htraces, Nat.add_zero]

theorem own_of_key (hnodup : (traces.map TraceError.key).Nodup) {failure : RecordedFailure}
    {trace : TraceError} (htrace : trace ∈ traces) :
    failure.own traces = some trace ↔ trace.key = failure.key := by
  rw [RecordedFailure.own, find?_key_eq_some_iff hnodup]
  exact and_iff_right htrace

/-- When every record claims its own, what is listed is each failure once. -/
theorem listed_of_ownFirst (hnodup : (traces.map TraceError.key).Nodup) {records : List ErrorRow}
    (hrecords : (records.map ErrorRow.unmarked).Perm
      (failures.map fun failure => failure.record.unmarked))
    (hown : ∀ failure ∈ failures, OwnFirst traces failure) :
    ((listErrors traces records).map ListedError.unmarked).Perm (eachOnce traces failures) := by
  have hclaims {failure : RecordedFailure} (hfailure : failure ∈ failures) :=
    (find?_claim_iff hnodup).mpr (hown failure hfailure)
  rw [listErrors_unmarked hnodup, eachOnce]
  refine List.Perm.append ((hrecords.map _).trans (List.Perm.of_eq ?_)) (List.Perm.of_eq ?_)
  · rw [List.map_map]
    refine List.map_congr_left fun failure hfailure => ?_
    exact congrArg (ListedError.ofRecord failure.record.unmarked) (hclaims hfailure)
  · refine congrArg (List.map ListedError.ofTrace) (List.filter_congr fun trace htrace => ?_)
    have hclaimed : Claimed traces records trace ↔
        trace.key ∈ failures.map RecordedFailure.key := by
      have hkeys {failure : RecordedFailure} (hfailure : failure ∈ failures) :
          trace.key = claim traces failure.record ↔ trace.key = failure.key := by
        rw [← own_of_key hnodup htrace, ← hclaims hfailure, find?_key_eq_some_iff hnodup]
        exact (and_iff_right htrace).symm
      rw [claimed_iff]
      constructor
      · rintro ⟨record, hrecord, hkey⟩
        obtain ⟨failure, hfailure, heq⟩ :=
          List.mem_map.mp (hrecords.mem_iff.mp (List.mem_map_of_mem hrecord))
        have hsame := congrArg (claim traces) heq
        rw [claim_unmarked, claim_unmarked] at hsame
        exact List.mem_map.mpr ⟨failure, hfailure,
          ((hkeys hfailure).mp (hkey.trans hsame.symm)).symm⟩
      · intro hmem
        obtain ⟨failure, hfailure, hkey⟩ := List.mem_map.mp hmem
        obtain ⟨record, hrecord, heq⟩ := List.mem_map.mp
          (hrecords.mem_iff.mpr (List.mem_map.mpr ⟨failure, hfailure, rfl⟩))
        have hsame := congrArg (claim traces) heq
        rw [claim_unmarked, claim_unmarked] at hsame
        exact ⟨record, hrecord, hsame ▸ (hkeys hfailure).mpr hkey.symm⟩
    simp only [hclaimed]

/-- When each failure is listed once, the ids of the records differ and every record claims its
own. -/
theorem ownFirst_of_listed (hnodup : (traces.map TraceError.key).Nodup)
    (hdelivered : DeliveredRecords failures delivered)
    (h : ((listErrors traces (writeErrors py .empty delivered).values).map
      ListedError.unmarked).Perm (eachOnce traces failures)) :
    (failures.map fun failure => errorId py failure.record).Nodup ∧
      ∀ failure ∈ failures, OwnFirst traces failure := by
  rw [listErrors_unmarked hnodup, eachOnce] at h
  have hids : (failures.map fun failure => errorId py failure.record).Nodup := by
    have hcount := h.countP_eq ListedError.hasRecord
    rw [countP_hasRecord, countP_hasRecord, List.length_map, length_values hdelivered] at hcount
    have hsame := (List.dedup_sublist _).eq_of_length (hcount.trans (List.length_map _).symm)
    exact hsame ▸ List.nodup_dedup _
  refine ⟨hids, fun failure hfailure => (find?_claim_iff hnodup).mp ?_⟩
  have hlisted := h.mem_iff.mp (List.mem_append_left _ (List.mem_map_of_mem
    ((unmarked_values hdelivered hids).mem_iff.mpr (List.mem_map_of_mem hfailure))))
  rcases List.mem_append.mp hlisted with hrecord | htrace
  · obtain ⟨failure', hfailure', heq⟩ := List.mem_map.mp hrecord
    obtain ⟨hrecords, hown⟩ := ListedError.ofRecord.inj heq
    have hid := congrArg (errorId py) hrecords
    rw [errorId_unmarked, errorId_unmarked] at hid
    obtain rfl := List.inj_on_of_nodup_map hids hfailure' hfailure hid
    exact hown.symm
  · obtain ⟨trace, -, heq⟩ := List.mem_map.mp htrace
    cases heq

/-- **When each failure is listed once.** Of failures whose records are delivered in any order and
any number of times, and of whatever trace events, each is listed exactly once, with its own trace
error, exactly when the records have different ids and each finds its own trace error first. -/
theorem listedOnce_iff (hdelivered : DeliveredRecords failures delivered)
    (events : SortedMap EventKey StoredEvent) (snapshots : SortedMap SnapshotKey SnapshotColumns) :
    ListedOnce castInt ⟨events, writeErrors py .empty delivered, snapshots⟩ failures ↔
      (failures.map fun failure => errorId py failure.record).Nodup ∧
        ∀ failure ∈ failures, OwnFirst (traceErrors castInt events) failure := by
  have hnodup := nodup_traceErrors castInt events
  constructor
  · exact ownFirst_of_listed hnodup hdelivered
  · rintro ⟨hids, hown⟩
    exact listed_of_ownFirst hnodup (unmarked_values hdelivered hids) hown

end Once

/-- An error of the entity in one of its activations. -/
def failureEvent (spanId : String) (seq : Int) : EventKey × StoredEvent :=
  (⟨"01", spanId, "ERROR"⟩,
    { parentSpanId := ""
      entityKey := "aa"
      seq
      stepIndex := 0
      startMs := 1000
      endMs := 1000
      provenance := .native
      attributes := .ofList [("beam_agents.reason", "activation_error")] })

/-- A failure of the entity, with a record that does not carry its `seq`. -/
def unnumberedFailure (seq : Int) (detail : String) : RecordedFailure where
  record := ⟨"aa", "activation_error", detail, 1000, none, .native⟩
  seq
  carries := nofun

/-- A timeout of the entity, with a record that carries its `seq`. -/
def timedOutFailure (seq : Int) (detail : String) : RecordedFailure where
  record := ⟨"aa", reasonHitlTimeout, detail, 4000, some seq, .native⟩
  seq
  carries := fun _ h => (Option.some.inj h).symm

/-- A timeout of the entity in one of its activations. -/
def timeoutEvent (spanId : String) (seq : Int) : EventKey × StoredEvent :=
  let (key, event) := failureEvent spanId seq
  (key, { event with attributes := .ofList [("beam_agents.reason", reasonHitlTimeout)] })

/-- Four failures with records: two of an activation and two timeouts. -/
def recordedFailures : List RecordedFailure :=
  [unnumberedFailure 1 "first", timedOutFailure 2 "seq=2", timedOutFailure 3 "seq=3",
    { unnumberedFailure 0 "second" with
      record := ⟨"bb", "activation_error", "second", 2000, none, .native⟩ }]

/-- Their records, out of order, one of them again as it comes from the other exporter. -/
def deliveredRecords : List ErrorRow :=
  let records := recordedFailures.map RecordedFailure.record
  records.reverse ++ records.take 2 ++ (records.take 1).map ({ · with provenance := .otlp })

/-- Two of the four failures have a trace event too, and one failure has nothing but that: there are
five rows. -/
theorem listedOnce_first :
    let py := { PyLib.ofTable [] with sha256 := id }
    let records : ConsoleRecords :=
      ⟨.ofList [failureEvent "02" 1, timeoutEvent "03" 2, failureEvent "04" 5],
        writeErrors py .empty deliveredRecords, .empty⟩
    ListedOnce (fun _ => 0) records recordedFailures ∧
      (errorRows (fun _ => 0) records).length = 5 := by
  intro py records
  have hstored : ∀ row ∈ deliveredRecords.map ErrorRow.unmarked,
      row ∈ recordedFailures.map fun failure => failure.record.unmarked := by decide +kernel
  have hsent : ∀ row ∈ recordedFailures.map fun failure => failure.record.unmarked,
      row ∈ deliveredRecords.map ErrorRow.unmarked := by decide +kernel
  have hdelivered : DeliveredRecords recordedFailures deliveredRecords :=
    fun row => ⟨hstored row, hsent row⟩
  have hids : (recordedFailures.map fun failure => errorId py failure.record).Nodup := by
    decide +kernel
  have hown : ∀ failure ∈ recordedFailures,
      OwnFirst (traceErrors (fun _ => 0) records.events) failure := by decide +kernel
  exact ⟨(listedOnce_iff hdelivered records.events records.snapshots).mpr ⟨hids, hown⟩,
    by decide +kernel⟩

/-- The two failures of an entity. -/
def failedTwice : List RecordedFailure :=
  [unnumberedFailure 1 "first", unnumberedFailure 2 "second"]

/-- Both records are joined with the first trace error, and the second one is listed on its own:
there are three rows of two failures. -/
theorem second_failure_listed_twice :
    let py := { PyLib.ofTable [] with sha256 := id }
    let records : ConsoleRecords := ⟨.ofList [failureEvent "02" 1, failureEvent "03" 2],
      writeErrors py .empty (failedTwice.map RecordedFailure.record), .empty⟩
    (failedTwice.map RecordedFailure.key).Nodup ∧
      DeliveredRecords failedTwice (failedTwice.map RecordedFailure.record) ∧
      (errorRows (fun _ => 0) records).length = 3 ∧
      ¬ ListedOnce (fun _ => 0) records failedTwice := by
  intro py records
  have hdelivered : DeliveredRecords failedTwice (failedTwice.map RecordedFailure.record) :=
    fun row => Iff.rfl
  refine ⟨by decide, hdelivered, by decide +kernel, fun h => ?_⟩
  have hown := (ownFirst_of_listed (nodup_traceErrors _ _) hdelivered h).2
    (unnumberedFailure 2 "second") (List.mem_cons_of_mem _ List.mem_cons_self)
  have hfirst : ∃ trace ∈ traceErrors (fun _ => 0) records.events,
      trace.key = ⟨"aa", 1, "activation_error"⟩ := by decide +kernel
  obtain ⟨trace, htrace, hkey⟩ := hfirst
  have hle := (hown.first rfl trace htrace (by rw [RecordedFailure.Similar, hkey]; decide)).2
  rw [hkey] at hle
  exact absurd hle (by decide)

end BeamAgents
