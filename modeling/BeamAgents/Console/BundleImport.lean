import BeamAgents.Console.ErrorStore
import BeamAgents.Console.Framing
import BeamAgents.Console.Records

/-!
# Importing a captured run

`console/_sources/_bundle.py` imports a trace stream that was written to a file, and of one that
ends inside a record what was written before. The decoder tells how many records are complete; where
the last of them ends is found by a binary search on the length of the prefix that is decoded.

## Main definitions

* `countAt`, `completePrefix`, `decodeEvents`.
* `RecordBatch`, `BundleImportResult`, `importBytes`.

## Main results

* `completePrefixFrom_eq`: the search ends at the boundary.
* `trace_streams_recovered`: streams are read back, and so are their beginnings.
-/

namespace BeamAgents

open Wire

/-! ### Recovery -/

/-- `_count_at`: the records if the prefix is whole, and how many there are in it either way. -/
def countAt (payload : Bytes) (stop : ℕ) :
    Except DecodeError (Option (List TraceEventMessage) × ℕ) :=
  match decodeTraceStream (payload.take stop) with
  | .error (.truncated recordsRead _ _) => .ok (none, recordsRead)
  | .error (.malformed error) => .error (.malformed error)
  | .ok decoded => .ok (some decoded, decoded.length)

/-- The loop of `_complete_prefix`. -/
def completePrefixFrom (payload : Bytes) (records : ℕ) (low high : Int)
    (found : List TraceEventMessage) : Except DecodeError (List TraceEventMessage) :=
  if _ : low ≤ high then
    let middle := (low + high) / 2
    match countAt payload middle.toNat with
    | .error error => .error error
    | .ok (decoded, count) =>
      if count < records then completePrefixFrom payload records (middle + 1) high found
      else completePrefixFrom payload records low (middle - 1) (decoded.getD found)
  else .ok found
termination_by (high + 1 - low).toNat

/-- `_complete_prefix`. -/
def completePrefix (payload : Bytes) (records : ℕ) :
    Except DecodeError (List TraceEventMessage) :=
  completePrefixFrom payload records 0 payload.length []

/-- `_decode_events`: the events, and whether the stream ends inside a record. -/
def decodeEvents (payload : Bytes) : Except DecodeError (List TraceEventMessage × Bool) :=
  match decodeTraceStream payload with
  | .ok events => .ok (events, false)
  | .error (.truncated recordsRead _ _) => do
    let events ← completePrefix payload recordsRead
    return (events, true)
  | .error (.malformed error) => .error (.malformed error)

/-! ### Imports -/

/-- `RecordBatch`, over the rows of snapshots. -/
structure RecordBatch (σ : Type) where
  events : List EventRow
  errors : List ErrorRow
  snapshots : List σ

/-- Whether the batch carries any record at all. -/
def RecordBatch.nonempty {σ : Type} (batch : RecordBatch σ) : Bool :=
  !batch.events.isEmpty || !batch.errors.isEmpty || !batch.snapshots.isEmpty

/-- `BundleImportResult`. -/
structure BundleImportResult where
  events : ℕ := 0
  snapshots : ℕ := 0
  errors : ℕ := 0
  activations : ℕ := 0
  truncated : Bool := false
  detail : String := ""
  deriving DecidableEq, Repr

/-- `_count`. -/
def countNoun (number : ℕ) (noun : String) : String :=
  if number = 1 then s!"{number} {noun}" else s!"{number} {noun}s"

/-- `_activations`: the scopes that the records of a batch describe. -/
def scopesOf {σ : Type} (batch : RecordBatch σ) : List (String × Int) :=
  (batch.events.map (fun row => (row.entityKey, row.seq)) ++
    batch.errors.filterMap fun row => row.seq.map fun seq => (row.entityKey, seq)).dedup

/-- `_detail`. -/
def importDetail {σ : Type} (batch : RecordBatch σ) (activations : ℕ) (truncated : Bool) : String :=
  let events := countNoun batch.events.length "trace event"
  let snapshots := countNoun batch.snapshots.length "snapshot"
  let errors := countNoun batch.errors.length "error record"
  let scopes := countNoun activations "activation"
  let complete := countNoun batch.events.length "complete record"
  let summary := s!"imported {events}, {snapshots}, and {errors} across {scopes}"
  if truncated then
    summary ++ "; the trace stream was truncated mid-record after " ++
      s!"{complete}, and the remainder was not captured"
  else summary

/-- The decoders of the other payloads, each with the rows that are made of what it decodes; none
when it raises. -/
structure PayloadDecoders (σ : Type) where
  snapshotRows : Bytes → Option (List σ)
  errorRows : Bytes → Option (List ErrorRow)

/-- The rows of a payload, of which there may be none. -/
def rowsOf {ρ : Type} (decode : Bytes → Option (List ρ)) : Option Bytes → Option (List ρ)
  | none => some []
  | some payload => decode payload

/-- Write a batch, but not an empty one. -/
def RecordBatch.store {σ S : Type} (batch : RecordBatch σ) (write : RecordBatch σ → S → S) (s : S) :
    S :=
  if batch.nonempty then write batch s else s

/-- What is reported of an import. -/
def RecordBatch.report {σ : Type} (batch : RecordBatch σ) (truncated : Bool) :
    BundleImportResult where
  events := batch.events.length
  snapshots := batch.snapshots.length
  errors := batch.errors.length
  activations := (scopesOf batch).length
  truncated
  detail := importDetail batch (scopesOf batch).length truncated

/-- `import_bytes`, over the decoders and the store; none when it raises. -/
def importBytes {σ S : Type} (decoders : PayloadDecoders σ) (write : RecordBatch σ → S → S) (s : S)
    (traces snapshot errors : Option Bytes) : Option (S × BundleImportResult) :=
  if traces = none ∧ snapshot = none ∧ errors = none then
    some (s, { detail := "nothing to import: no capture files were supplied" })
  else do
    let (events, truncated) ← match traces with
      | none => some ([], false)
      | some payload => (decodeEvents payload).toOption
    let snapshots ← rowsOf decoders.snapshotRows snapshot
    let errors ← rowsOf decoders.errorRows errors
    let batch : RecordBatch σ := ⟨events.map (eventRow · .bundle), errors, snapshots⟩
    return (batch.store write s, batch.report truncated)

/-- What an import does with payloads that are decoded. -/
theorem importBytes_of_decoded {σ S : Type} {decoders : PayloadDecoders σ}
    {write : RecordBatch σ → S → S} {s : S} {payload : Bytes} {snapshot errors : Option Bytes}
    {events : List TraceEventMessage} {truncated : Bool} {snapshots : List σ}
    {records : List ErrorRow} (hevents : decodeEvents payload = .ok (events, truncated))
    (hsnapshots : rowsOf decoders.snapshotRows snapshot = some snapshots)
    (hrecords : rowsOf decoders.errorRows errors = some records) :
    importBytes decoders write s (some payload) snapshot errors =
      some ((RecordBatch.mk (events.map (eventRow · .bundle)) records snapshots).store write s,
        (RecordBatch.mk (events.map (eventRow · .bundle)) records snapshots).report truncated) := by
  simp only [importBytes, hevents, hsnapshots, hrecords, reduceCtorEq, false_and, if_false]
  rfl

/-! ### The search -/

/-- **The search ends at the boundary.** Let the prefixes from the length `m` on be those that hold
as many records as are looked for, and let the one of this length be decoded whole. Until the search
has been there, `m` is between its bounds. -/
theorem completePrefixFrom_eq {payload : Bytes} {records m : ℕ} {target : List TraceEventMessage}
    (hcount : ∀ middle ≤ payload.length, ∃ decoded count,
      countAt payload middle = .ok (decoded, count) ∧ (count < records ↔ middle < m) ∧
        (middle = m → decoded = some target))
    {low high : Int} {found : List TraceEventMessage} (hzero : 0 ≤ low) (hlow : low ≤ m)
    (hhigh : m ≤ high + 1) (hlength : high ≤ payload.length)
    (hfound : m = high + 1 → found = target) :
    completePrefixFrom payload records low high found = .ok target := by
  induction low, high, found using completePrefixFrom.induct payload records with
  | case1 low high found hle middle error herror =>
    obtain ⟨decoded, count, hsome, -⟩ := hcount middle.toNat (by omega)
    rw [hsome] at herror
    cases herror
  | case2 low high found hle middle decoded count hat hless ih =>
    obtain ⟨decoded', count', hsome, hiff, -⟩ := hcount middle.toNat (by omega)
    obtain ⟨rfl, rfl⟩ := Prod.mk.inj (Except.ok.inj (hat.symm.trans hsome))
    have hbelow := hiff.mp hless
    rw [completePrefixFrom, dif_pos hle]
    simp only [middle] at hat hless hbelow ih ⊢
    simp only [hat, if_pos hless]
    exact ih (by omega) (by omega) hhigh hlength hfound
  | case3 low high found hle middle decoded count hat hless ih =>
    obtain ⟨decoded', count', hsome, hiff, htarget⟩ := hcount middle.toNat (by omega)
    obtain ⟨rfl, rfl⟩ := Prod.mk.inj (Except.ok.inj (hat.symm.trans hsome))
    have hnot := mt hiff.mpr hless
    rw [completePrefixFrom, dif_pos hle]
    simp only [middle] at hat hless hnot htarget ih ⊢
    simp only [hat, if_neg hless]
    refine ih hzero hlow (by omega) (by omega) fun hm => ?_
    rw [htarget (by omega), Option.getD_some]
  | case4 low high found hle =>
    rw [completePrefixFrom, dif_neg hle, hfound (by omega)]

/-! ### Beginnings of streams -/

section Beginnings

variable {events : List TraceEventMessage} {j k n : ℕ}

/-- Fewer events are complete in what ends before the last of them. -/
theorem completeEvents_lt_iff {middle : ℕ} :
    completeEvents events middle < completeEvents events n ↔
    middle < (frameTraceEvents (events.take (completeEvents events n))).length := by
  constructor
  · intro hlt
    by_contra hle
    exact absurd (Nat.le_findGreatest
      (P := fun k => (frameTraceEvents (events.take k)).length ≤ middle)
      (Nat.findGreatest_le _) (Nat.le_of_not_lt hle)) (Nat.not_le_of_lt hlt)
  · intro hlt
    by_contra hge
    have hmono := length_frameTraceEvents_take_le events (Nat.le_of_not_lt hge)
    have hle := length_complete_events_le events middle
    omega

variable (hfits : ∀ event ∈ events, TraceEventMessage.codec.Fits event)

include hfits

/-- What is counted in a prefix of the beginning of a stream. -/
theorem countAt_take {middle : ℕ} (hmiddle : middle ≤ ((frameTraceEvents events).take n).length) :
    ∃ decoded, countAt ((frameTraceEvents events).take n) middle =
        .ok (decoded, completeEvents events middle) ∧
      ((frameTraceEvents (events.take (completeEvents events middle))).length = middle →
        decoded = some (events.take (completeEvents events middle))) := by
  rw [List.length_take] at hmiddle
  have htake : ((frameTraceEvents events).take n).take middle =
      (frameTraceEvents events).take middle := by
    rw [List.take_take, Nat.min_eq_left (by omega)]
  rw [countAt, htake, decodeTraceStream_take hfits]
  split_ifs with hwhole
  · have hlength : (events.take (completeEvents events middle)).length =
        completeEvents events middle := List.length_take_of_le (Nat.findGreatest_le _)
    refine ⟨some (events.take (completeEvents events middle)), ?_, fun _ => rfl⟩
    show Except.ok (some (events.take (completeEvents events middle)), List.length _) = _
    rw [hlength]
  · refine ⟨none, rfl, fun hlength => absurd ?_ hwhole⟩
    obtain ⟨tail, heq, -⟩ := take_frameTraceEvents events middle
    have hnone := congrArg List.length heq
    rw [List.length_take_of_le (by omega), List.length_append, hlength] at hnone
    have htail : tail = [] := List.length_eq_zero_iff.mp (by omega)
    rw [heq, htail, List.append_nil]

/-- **The search recovers the complete events.** -/
theorem completePrefix_take (n : ℕ) :
    completePrefix ((frameTraceEvents events).take n) (completeEvents events n) =
      .ok (events.take (completeEvents events n)) := by
  have hle : (frameTraceEvents (events.take (completeEvents events n))).length ≤
      ((frameTraceEvents events).take n).length := by
    obtain ⟨tail, heq, -⟩ := take_frameTraceEvents events n
    rw [heq, List.length_append]
    exact Nat.le_add_right _ _
  refine completePrefixFrom_eq
    (m := (frameTraceEvents (events.take (completeEvents events n))).length)
    (fun middle hmiddle => ?_) le_rfl (by omega) (by omega) le_rfl (by omega)
  obtain ⟨decoded, hcount, hdecoded⟩ := countAt_take hfits hmiddle
  refine ⟨decoded, _, hcount, completeEvents_lt_iff, fun hm => ?_⟩
  have hsame : completeEvents events middle = completeEvents events n := by
    refine le_antisymm ?_ (Nat.le_of_not_lt fun hlt => ?_)
    · rw [List.length_take] at hmiddle
      exact Nat.findGreatest_mono_left (fun k hk => le_trans hk (by omega)) _
    · have hshort := completeEvents_lt_iff.mp hlt
      omega
  rw [hdecoded (by rw [hsame, hm]), hsame]

/-- What is imported of the beginning of a stream. -/
theorem decodeEvents_take (n : ℕ) : decodeEvents ((frameTraceEvents events).take n) =
    .ok (events.take (completeEvents events n), decide ((frameTraceEvents events).take n ≠
      frameTraceEvents (events.take (completeEvents events n)))) := by
  rw [decodeEvents, decodeTraceStream_take hfits]
  by_cases hwhole : (frameTraceEvents events).take n =
      frameTraceEvents (events.take (completeEvents events n))
  · simp [hwhole]
  · rw [if_neg hwhole, decide_eq_true hwhole]
    simp only [completePrefix_take hfits]
    rfl

omit hfits in
/-- A beginning that is a stream is that of its complete events. -/
theorem eq_complete_of_boundary (h : (frameTraceEvents events).take n =
    frameTraceEvents (events.take j)) : (frameTraceEvents events).take n =
      frameTraceEvents (events.take (completeEvents events n)) := by
  obtain ⟨tail, heq, -⟩ := take_frameTraceEvents events n
  have hj : events.take j = events.take (min j events.length) := by
    rw [List.take_eq_take_min]
  have hn : (frameTraceEvents (events.take (min j events.length))).length ≤ n := by
    rw [← hj, ← h, List.length_take]
    exact Nat.min_le_left _ _
  have hcomplete : min j events.length ≤ completeEvents events n :=
    Nat.le_findGreatest (P := fun k => (frameTraceEvents (events.take k)).length ≤ n)
      (Nat.min_le_right _ _) hn
  have hmono := length_frameTraceEvents_take_le events hcomplete
  rw [← hj, ← h, heq, List.length_append] at hmono
  have htail : tail = [] := List.length_eq_zero_iff.mp (by omega)
  rw [heq, htail, List.append_nil]

/-- **Trace streams are recovered.** What the replay frames it parses and the console decodes; the
console's writers frame it in the same way; and of every beginning of a stream the import stores the
events whose frames are complete, and reports that it is truncated unless it ends between frames.
The search for the last complete frame finds just these events. -/
theorem trace_streams_recovered :
    (parseTraceStream (frameTraceEvents events) = .ok events ∧
      decodeTraceStream (frameTraceEvents events) = .ok events) ∧
    (sinkFrame (events.map TraceEventMessage.serialize) = frameTraceEvents events ∧
      frameRecords TraceEventMessage.serialize events = frameTraceEvents events) ∧
    ∀ n, completePrefix ((frameTraceEvents events).take n) (completeEvents events n) =
        .ok (events.take (completeEvents events n)) ∧
      ∀ {σ S : Type} (decoders : PayloadDecoders σ) (write : RecordBatch σ → S → S) (s : S)
        (snapshot errors : Option Bytes) (snapshots : List σ) (records : List ErrorRow),
        rowsOf decoders.snapshotRows snapshot = some snapshots →
        rowsOf decoders.errorRows errors = some records →
        ∃ result : BundleImportResult,
          importBytes decoders write s (some ((frameTraceEvents events).take n)) snapshot errors =
            some ((RecordBatch.mk ((events.take (completeEvents events n)).map (eventRow · .bundle))
              records snapshots).store write s, result) ∧
          result.events = completeEvents events n ∧
          (result.truncated = true ↔
            ∀ j, (frameTraceEvents events).take n ≠ frameTraceEvents (events.take j)) := by
  refine ⟨⟨parseTraceStream_frameTraceEvents hfits, ?_⟩, ⟨rfl, rfl⟩, fun n =>
    ⟨completePrefix_take hfits n, ?_⟩⟩
  · have hdecode := decodeTraceStream_append Piece.nil hfits
    rwa [List.append_nil, if_pos rfl] at hdecode
  · intro σ S decoders write s snapshot errors snapshots records hsnapshots hrecords
    refine ⟨_, importBytes_of_decoded (decodeEvents_take hfits n) hsnapshots hrecords, ?_, ?_⟩
    · simp only [RecordBatch.report, List.length_map]
      exact List.length_take_of_le (Nat.findGreatest_le _)
    · simp only [RecordBatch.report, decide_eq_true_eq]
      exact ⟨fun h j hj => h (eq_complete_of_boundary hj), fun h => h _⟩

end Beginnings

/-- Of two events, of which the second is cut, the first is imported. -/
theorem trace_streams_recovered_cut : ∃ result : BundleImportResult,
    importBytes (σ := Unit) (S := List EventRow) ⟨fun _ => some [], fun _ => some []⟩
      (fun batch s => s ++ batch.events) [] (some ((frameTraceEvents
        [{ seq := 3 }, { seq := 4 }]).take 5)) none none =
      some ([eventRow { seq := 3 } .bundle], result) ∧ result.truncated = true := by
  let events : List TraceEventMessage := [{ seq := 3 }, { seq := 4 }]
  have hfits : ∀ event ∈ events, TraceEventMessage.codec.Fits event := by
    unfold Schema.Fits
    decide
  have hone : completeEvents events 5 = 1 := by
    rw [completeEvents_eq]
    decide
  have hcut (j : ℕ) : (frameTraceEvents events).take 5 ≠ frameTraceEvents (events.take j) := by
    simp only [frameTraceEvents, framePayloads_eq]
    rcases j with _ | _ | j
    · decide
    · decide
    · have hall : events.take (j + 1 + 1) = events :=
        List.take_of_length_le (Nat.le_add_left 2 j)
      rw [hall]
      decide
  obtain ⟨result, himport, -, htruncated⟩ := ((trace_streams_recovered hfits).2.2 5).2
    ⟨fun _ => some [], fun _ => some []⟩ (fun batch s => s ++ batch.events) [] none none []
      [] rfl rfl
  rw [hone] at himport
  exact ⟨result, himport, htruncated.mpr hcut⟩

end BeamAgents
