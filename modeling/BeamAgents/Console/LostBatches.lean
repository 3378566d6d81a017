import BeamAgents.Console.ErrorStore
import BeamAgents.Core.Conservation

/-!
# Events that are dead-lettered together

A buffer may be lost as a whole in two ways: the activation of its flush fails, or a wipe finds it.
Either way there is one record for each event. The wipe numbers its records; the failed flush stamps
all of them with the same reason, detail and time, so that the console, which stores a record under
the hash of its payload, keeps one row for all of them.

## Main definitions

* `AgentDoFn.LosesBuffer`: the call loses its buffer as a whole.
* `Distinguished`: the records are distinct, and the console keeps a row for each.

## Main results

* `AgentDoFn.lost_distinguished_iff`.
-/

namespace BeamAgents

open Containers

/-- There are `n` records, no two alike, and the console keeps `n` rows for them, whatever it held
before, and in whatever order and however often they are delivered. -/
structure Distinguished (py : PyLib) (reader : DetailReader) (n : ℕ)
    (records : List ActivationError) :
    Prop where
  count : records.length = n
  distinct : records.Nodup
  rows : ∀ (table : ErrorTable) (deliveries : List (ActivationError × Provenance)),
    (∀ error, error ∈ deliveries.map Prod.fst ↔ error ∈ records) →
    (writeErrors py table (deliveries.map fun p => errorRow reader p.1 p.2)).rowsFor py reader
      records = n

/-- The records of the events of a buffer, among what a call emits. -/
def bufferErrors (effects : List Effect) : List ActivationError :=
  (errorsOf effects).filter fun error => error.reason ≠ reasonTtlWipedSuspension

section Distinguished

variable {py : PyLib} {reader : DetailReader} {records : List ActivationError}

/-- Deliveries of given records have the ids of these. -/
theorem mem_ids_iff {deliveries : List (ActivationError × Provenance)}
    (h : ∀ error, error ∈ deliveries.map Prod.fst ↔ error ∈ records) (id : String) :
    id ∈ (deliveries.map fun p => errorRow reader p.1 p.2).map (errorId py) ↔
      id ∈ records.map (·.storedId py reader) := by
  have hids : (deliveries.map fun p => errorRow reader p.1 p.2).map (errorId py) =
      (deliveries.map Prod.fst).map (·.storedId py reader) := by
    rw [List.map_map, List.map_map]
    rfl
  rw [hids, List.mem_map, List.mem_map]
  exact exists_congr fun error => and_congr_left' (h error)

/-- Records with different materials are distinguished. -/
theorem Distinguished.of_materials (hsha : NoCollision py reader records)
    (h : (records.map fun error => errorMaterial (errorRow reader error .native)).Nodup) :
    Distinguished py reader records.length records := by
  have hids : (records.map (·.storedId py reader)).Nodup := by
    refine List.Nodup.map_on (fun error hmem error' hmem' heq => ?_) h.of_map
    exact List.inj_on_of_nodup_map h hmem hmem' (errorId_inj hsha hmem hmem' heq)
  refine ⟨rfl, h.of_map, fun table deliveries hdeliveries => ?_⟩
  rw [rowsFor_writeErrors (mem_ids_iff hdeliveries), List.toFinset_card_of_nodup hids,
    List.length_map]

/-- The details of two materials without a separator in them are read back. -/
theorem detail_eq_of_material {row row' : ErrorRow} (hnul : '\x00' ∉ row.detail.toList)
    (hnul' : '\x00' ∉ row'.detail.toList) (h : errorMaterial row = errorMaterial row') :
    row.detail = row'.detail := by
  have hsplit (row : ErrorRow) : ∃ head, (errorMaterial row).toList =
      head ++ '\x00' :: row.detail.toList := by
    refine ⟨(row.entityKey ++ "\x00" ++ (row.seq.map toString).getD "" ++ "\x00" ++ row.reason ++
      "\x00" ++ toString row.eventTimeMs).toList, ?_⟩
    simp [errorMaterial]
  obtain ⟨head, hhead⟩ := hsplit row
  obtain ⟨head', hhead'⟩ := hsplit row'
  have hlists := congrArg List.reverse (hhead.symm.trans ((congrArg String.toList h).trans hhead'))
  simp only [List.reverse_append, List.reverse_cons, List.append_assoc, List.singleton_append]
    at hlists
  have hdetail := (split_at_first (by simpa using hnul) (by simpa using hnul') hlists).1
  exact String.toList_injective (List.reverse_injective hdetail)

end Distinguished

/-! ### The records of a lost buffer -/

namespace AgentDoFn

/-- The records of a wipe are told by their details. -/
theorem nodup_wipedMaterials (reader : DetailReader) (key : Bytes) (fired : Int) (n : ℕ) :
    (((List.range n).map (wipedRecord key fired n)).map fun error =>
      errorMaterial (errorRow reader error .native)).Nodup := by
  have hdetail (i : ℕ) : (wipedRecord key fired n i).detail.toList =
      "buffered=".toList ++ (toString n).toList ++ ",index=".toList ++ (toString i).toList := by
    have htext : (wipedRecord key fired n i).detail =
      "buffered=" ++ toString n ++ ",index=" ++ toString i := rfl
    rw [htext, String.toList_append, String.toList_append, String.toList_append]
  have hnul (i : ℕ) : '\x00' ∉ (wipedRecord key fired n i).detail.toList := by
    have hdigits (m : ℕ) := notMem_toString_nat (c := '\x00') rfl m
    rw [hdetail, List.mem_append, List.mem_append, List.mem_append]
    simp only [not_or]
    exact ⟨⟨⟨by decide, hdigits n⟩, by decide⟩, hdigits i⟩
  rw [List.map_map]
  refine List.Nodup.map_on (fun i _ j _ heq => ?_) List.nodup_range
  have hsame : (errorRow reader (wipedRecord key fired n i) .native).detail =
      (errorRow reader (wipedRecord key fired n j) .native).detail :=
    detail_eq_of_material (hnul i) (hnul j) heq
  have hlists := (hdetail i).symm.trans ((congrArg String.toList hsame).trans (hdetail j))
  exact toString_nat_injective (String.toList_injective (List.append_cancel_left hlists))

variable {d : AgentDoFn} {py : PyLib} {key : Bytes} {s : KeyState} {c : KeyCall}
  {effects : List Effect}

/-- The events that are in the buffer during a call. -/
def bufferedIn (s : KeyState) (c : KeyCall) : List AgentEnvelope := s.batch ++ c.event.toList

/-- The call loses its buffer as a whole: there are events in it, there are none afterwards, and no
activation has committed. -/
structure LosesBuffer (s : KeyState) (c : KeyCall) (effects : List Effect) : Prop where
  buffered : bufferedIn s c ≠ []
  emptied : (s.applyAll effects).batch = []
  uncommitted : activationsOf effects = 0

/-- The buffer of a flush, with the event that triggers it. -/
theorem Taken.bufferedIn {pre : List Effect} {w : World} (h : d.Taken s c w pre) :
    (s.applyAll pre).batch = bufferedIn s c := by
  cases h with
  | timer => exact (List.append_nil _).symm
  | event hbatch hevent hroom =>
    rw [applyAll_bufferEffects, AgentDoFn.bufferedIn, event_eq hevent]
    rfl

theorem Taken.not_isTtl {pre : List Effect} {w : World} (h : d.Taken s c w pre) :
    c.isTtl = false := by
  cases h <;> rfl

/-- A buffer is lost as a whole by a flush that fails, whose records are all alike, or by a wipe,
which numbers its records. -/
theorem LosesBuffer.records (hbatch : d.batch.isSome)
    (h : d.call py key s c = ⟨effects, none⟩) (hlost : LosesBuffer s c effects) :
    c.isTtl = false ∧
        (∃ error, bufferErrors effects = List.replicate (bufferedIn s c).length error) ∨
      c.isTtl = true ∧ ∃ fired, bufferErrors effects =
        (List.range (bufferedIn s c).length).map
          (wipedRecord key fired (bufferedIn s c).length) := by
  obtain ⟨hbuffered, hemptied, huncommitted⟩ := hlost
  cases call_bufferShape hbatch h with
  | failed htaken hbuffer =>
    rename_i w pre first rest seq now batchDetail failure
    obtain ⟨reason, detail, t, hreason, hrecords⟩ :=
      errorsOf_flushFailure py key seq now (first :: rest) batchDetail failure
    have herrors : errorsOf (pre ++ sampleActivation w ::
        flushFailure py key seq now (first :: rest) batchDetail failure) =
          List.replicate (first :: rest).length ⟨key, reason, detail, t⟩ := by
      rw [errorsOf_append, htaken.errors, List.nil_append]
      exact hrecords
    refine .inl ⟨htaken.not_isTtl, ⟨key, reason, detail, t⟩, ?_⟩
    rw [bufferErrors, herrors, List.filter_replicate, if_pos (by simpa using hreason),
      ← htaken.bufferedIn, hbuffer]
  | wiped =>
    rename_i micros w cont
    have hsuspension : (errorsOf (wipedSuspension py key (firedAtMs micros) cont)).filter
        (fun error => error.reason ≠ reasonTtlWipedSuspension) = [] :=
      List.filter_eq_nil_iff.mpr fun error herror => by
        simpa using errorsOf_wipedSuspension (firedAtMs micros) cont error herror
    refine .inr ⟨rfl, firedAtMs micros, ?_⟩
    have hevents : bufferedIn s (.onTtl micros w) = s.batch := List.append_nil _
    rw [bufferErrors, errorsOf_wiped hbatch, List.filter_append, hsuspension, List.nil_append,
      hevents]
    refine List.filter_eq_self.mpr fun error herror => ?_
    obtain ⟨index, -, rfl⟩ := List.mem_map.mp herror
    rfl
  | shed hsettings hevent hfull =>
    -- A full buffer is not empty, and the buffer stays as it is.
    rename_i envelope settings w
    rw [((apart_deadLetter key reasonBatchOverflow _ _).applyAll (s := s)).1] at hemptied
    have hpos := settings.maxBatchSize_pos.trans_le settings.maxBatchSize_le
    simp only [bufferIsFull, hemptied, List.length_nil, decide_eq_true_iff] at hfull
    omega
  | deferred hsettings hevent hroom =>
    rename_i envelope settings w
    rw [applyAll_bufferEffects] at hemptied
    exact absurd hemptied (List.append_ne_nil_of_right_ne_nil _ (List.cons_ne_nil _ _))
  | declined => exact absurd ((List.append_nil _).trans hemptied) hbuffered
  | flushed htaken hact hresult hes =>
    subst hes
    rw [activationsOf_append, htaken.activations, activationsOf_commit _ _ hresult] at huncommitted
    cases huncommitted
  | resumed hact hresult hes =>
    subst hes
    rw [activationsOf_commit _ _ hresult] at huncommitted
    cases huncommitted
  | ended =>
    rw [applyAll_endSuspension] at hemptied
    exact absurd ((List.append_nil _).trans hemptied) hbuffered
  | apart haside hapart =>
    rw [hapart.applyAll.1] at hemptied
    refine absurd ?_ hbuffered
    rw [AgentDoFn.bufferedIn, hemptied, event_eq_none haside]
    rfl

/-- **Events that are dead-lettered together stay distinguishable exactly when a wipe loses them or
there is only one.** For every call that loses a buffer as a whole, whatever the events in it: there
is one record for each event, the records are pairwise distinct, and the console keeps a row for
each after any deliveries of them, if and only if the call is a wipe or the buffer holds one
event. -/
theorem lost_distinguished_iff (reader : DetailReader) (hbatch : d.batch.isSome)
    (h : d.call py key s c = ⟨effects, none⟩) (hlost : LosesBuffer s c effects)
    (hsha : NoCollision py reader (bufferErrors effects)) :
    Distinguished py reader (bufferedIn s c).length (bufferErrors effects) ↔
      c.isTtl = true ∨ (bufferedIn s c).length ≤ 1 := by
  rcases hlost.records hbatch h with ⟨hflush, error, hrecords⟩ | ⟨hwipe, fired, hrecords⟩
  · rw [hrecords] at hsha ⊢
    constructor
    · exact fun hdistinguished => .inr (List.nodup_replicate.mp hdistinguished.distinct)
    · rintro (hwipe | hone)
      · rw [hflush] at hwipe
        cases hwipe
      · have hlength : (bufferedIn s c).length = 1 :=
          le_antisymm hone (List.length_pos_iff.mpr hlost.buffered)
        rw [hlength] at hsha ⊢
        exact .of_materials hsha (List.nodup_singleton _)
  · refine iff_of_true ?_ (.inl hwipe)
    rw [hrecords] at hsha ⊢
    have hdistinguished := Distinguished.of_materials hsha
      (nodup_wipedMaterials reader key fired (bufferedIn s c).length)
    rwa [List.length_map, List.length_range] at hdistinguished

/-- A library whose hash is the text itself. -/
def transparentPy : PyLib := { PyLib.ofTable [] with sha256 := id }

/-- A reader that finds no `seq`. -/
def blindReader : DetailReader := ⟨fun _ => none, fun _ => none⟩

/-- The second event of `bufferedKey`, at which the flush fails. -/
def secondEvent : KeyCall := .process ⟨[107], 2000, .externalEvent [2]⟩ quietWorld

/-- What the failed flush of two events emits. -/
def failedPair : List Effect :=
  (raisingAgent.call transparentPy [107] bufferedKey secondEvent).effects

/-- The flush of two events fails: there are two records, which are alike, and the console keeps one
row for them. -/
theorem failedPair_collapses :
    LosesBuffer bufferedKey secondEvent failedPair ∧ (bufferErrors failedPair).length = 2 ∧
      ¬ (bufferErrors failedPair).Nodup ∧
      let rows := (bufferErrors failedPair).map fun error => errorRow blindReader error .native
      (writeErrors transparentPy .empty rows).size = 1 := by
  refine ⟨⟨?_, ?_, ?_⟩, ?_, ?_, ?_⟩
  all_goals decide +kernel

theorem failedPair_not_distinguished :
    ¬ Distinguished transparentPy blindReader 2 (bufferErrors failedPair) := by
  have hlost : LosesBuffer bufferedKey secondEvent failedPair :=
    ⟨by decide +kernel, by decide +kernel, by decide +kernel⟩
  have hsha : NoCollision transparentPy blindReader (bufferErrors failedPair) := by
    unfold NoCollision
    decide +kernel
  have hcall : raisingAgent.call transparentPy [107] bufferedKey secondEvent =
      ⟨failedPair, none⟩ := by
    have hraised :
        (raisingAgent.call transparentPy [107] bufferedKey secondEvent).raised = none := by
      decide +kernel
    rw [← hraised]
    rfl
  have hiff := lost_distinguished_iff blindReader (d := raisingAgent) rfl hcall hlost hsha
  exact fun h => absurd (hiff.mp h) (by decide)

end AgentDoFn

end BeamAgents
