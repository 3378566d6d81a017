import BeamAgents.Console.Records
import BeamAgents.Console.Rows
import Mathlib.Data.List.Sort

/-!
# Incremental reads of a trace table

`BigQueryTraceSource` of `console/_sources/_bigquery.py`. A pull reads the rows whose event time
lies in a window, from a minute behind the end of the window that was read before up to the time of
the pull, writes their events to the store, and only then moves the watermark. A row is returned by
the queries of some time on, and a pull may fail, in the query at any row or in the store.

The text of the query is not modelled, but the condition that it states: a half-open window of event
times, each bound an instant of the calendar.

## Main definitions

* `TableRow`: a row, and when queries begin to return it.
* `SourceState`, `Pull`, `BigQueryTraceSource.pullOnce`, `BigQueryTraceSource.afterPulls`.
* `BigQueryTraceSource.Reads`, `BigQueryTraceSource.FirstWindow`: the pulls that read a window.

## Main results

* `BigQueryTraceSource.pullOnce_cases`: what a pull does.
* `BigQueryTraceSource.pulls_leave_no_gap`: a row is stored by the first pull that could see it, if
  it is seen a minute late at most.
-/

namespace BeamAgents

/-- A row of the table, and the time from which queries return it. -/
structure TableRow where
  row : TraceRow
  visibleAt : Int
  deriving DecidableEq

/-- The source between pulls, and what it has written to the store. -/
structure SourceState where
  watermark : Option Int := none
  recordsStored : ℕ := 0
  decodeFailures : ℕ := 0
  written : List EventRow := []

/-- One call of `pull_once`: its time, and where it fails. A query that fails does so after some of
its rows have been returned. -/
structure Pull where
  nowMs : Int
  queryFailsAfter : Option ℕ := none
  writeFails : Bool := false

/-- `_WINDOW_OVERLAP_MS`. -/
def windowOverlapMs : Int := 60000

/-- The configured reader: `lookback_hours` in milliseconds. -/
structure BigQueryTraceSource where
  lookbackMs : ℕ

namespace BigQueryTraceSource

/-! ### The query -/

/-- The order of a sorted column: a NULL comes first. -/
def compareColumn : Option Int → Option Int → Ordering
  | none, none => .eq
  | none, some _ => .lt
  | some _, none => .gt
  | some a, some b => Ord.compare a b

/-- `ORDER BY start_ms, seq`. -/
def RowLe (a b : TraceRow) : Prop :=
  (compareColumn a.startMs b.startMs).then (compareColumn a.seq b.seq) ≠ .gt

instance : DecidableRel RowLe := fun _ _ => inferInstanceAs (Decidable (_ ≠ _))

/-- The condition of the query: a NULL is in no window. -/
def inWindow (startMs endMs : Int) (row : TraceRow) : Bool :=
  row.eventTime.any fun t => startMs ≤ t && t < endMs

/-- The rows that the query returns at a time. -/
def queryRows (table : List TableRow) (nowMs startMs endMs : Int) : List TraceRow :=
  (((table.filter fun r => r.visibleAt ≤ nowMs).map TableRow.row).filter
    (inWindow startMs endMs)).insertionSort RowLe

/-- The bounds of the query are instants; others are an `OverflowError`. -/
def literals (startMs endMs : Int) : Bool :=
  (datetimeOf startMs).isSome && (datetimeOf endMs).isSome

/-! ### Pulls -/

variable (source : BigQueryTraceSource) (table : List TableRow)

/-- `_window`. -/
def window (s : SourceState) (nowMs : Int) : Int × Int :=
  (max (match s.watermark with
    | none => nowMs - source.lookbackMs
    | some watermark => watermark - windowOverlapMs) 0, nowMs)

/-- `pull_once`: the state behind it, and the number of records that it returns; none when it
raises. -/
def pullOnce (s : SourceState) (pull : Pull) : SourceState × Option ℕ :=
  let (startMs, endMs) := source.window s pull.nowMs
  if endMs ≤ startMs then (s, some 0)
  else if literals startMs endMs then
    let rows := queryRows table pull.nowMs startMs endMs
    match pull.queryFailsAfter with
    | some n => ({ s with decodeFailures := s.decodeFailures + (decode (rows.take n)).2 }, none)
    | none =>
      let (events, failures) := decode rows
      let s := { s with decodeFailures := s.decodeFailures + failures }
      if events = [] then ({ s with watermark := some endMs }, some 0)
      else if pull.writeFails then (s, none)
      else ({ s with
        written := s.written ++ events.map fun event => eventRow event .bigquery
        recordsStored := s.recordsStored + events.length
        watermark := some endMs }, some events.length)
  else (s, none)

/-- The state behind some pulls. -/
def afterPulls (s : SourceState) (pulls : List Pull) : SourceState :=
  pulls.foldl (fun s pull => (source.pullOnce table s pull).1) s

/-! ### What a pull does -/

/-- A pull returns. -/
def Succeeds (s : SourceState) (pull : Pull) : Prop := (source.pullOnce table s pull).2.isSome

/-- A pull returns, and the window that it reads is not empty. -/
def Reads (s : SourceState) (pull : Pull) : Prop :=
  (source.window s pull.nowMs).1 < pull.nowMs ∧ source.Succeeds table s pull

variable {source table} {s : SourceState} {pull : Pull}

theorem mem_queryRows {nowMs startMs endMs : Int} {row : TraceRow} :
    row ∈ queryRows table nowMs startMs endMs ↔
      (∃ r ∈ table, r.visibleAt ≤ nowMs ∧ r.row = row) ∧ inWindow startMs endMs row := by
  rw [queryRows, List.mem_insertionSort, List.mem_filter, List.mem_map]
  simp only [List.mem_filter, decide_eq_true_eq, and_assoc]

/-- **What a pull does.** An empty window leaves everything as it is; a pull that fails stores
nothing and leaves the watermark; any other stores the events of the rows that it sees in its window
and moves the watermark to its end. -/
theorem pullOnce_cases (source : BigQueryTraceSource) (table : List TableRow) (s : SourceState)
    (pull : Pull) :
    (pull.nowMs ≤ (source.window s pull.nowMs).1 ∧ source.pullOnce table s pull = (s, some 0)) ∨
    ((source.pullOnce table s pull).2 = none ∧
      (source.pullOnce table s pull).1.watermark = s.watermark ∧
      (source.pullOnce table s pull).1.written = s.written) ∨
    (source.Reads table s pull ∧
      (source.pullOnce table s pull).1.watermark = some pull.nowMs ∧
      (source.pullOnce table s pull).1.written = s.written ++
        (decode (queryRows table pull.nowMs (source.window s pull.nowMs).1 pull.nowMs)).1.map
          fun event => eventRow event .bigquery) := by
  have hend : (source.window s pull.nowMs).2 = pull.nowMs := rfl
  unfold Reads Succeeds
  unfold pullOnce
  generalize source.window s pull.nowMs = bounds at hend
  obtain ⟨startMs, endMs⟩ := bounds
  obtain rfl : endMs = pull.nowMs := hend
  dsimp only
  by_cases hempty : pull.nowMs ≤ startMs
  · exact .inl ⟨hempty, if_pos hempty⟩
  rw [if_neg hempty]
  cases literals startMs pull.nowMs with
  | false => exact .inr (.inl ⟨rfl, rfl, rfl⟩)
  | true =>
    cases pull.queryFailsAfter with
    | some n => exact .inr (.inl ⟨rfl, rfl, rfl⟩)
    | none =>
      generalize decode (queryRows table pull.nowMs startMs pull.nowMs) = decoded
      obtain ⟨events, failures⟩ := decoded
      by_cases hevents : events = []
      · subst hevents
        exact .inr (.inr ⟨⟨not_le.mp hempty, rfl⟩, rfl, (List.append_nil _).symm⟩)
      · simp only [if_true, if_neg hevents]
        cases pull.writeFails with
        | true => exact .inr (.inl ⟨rfl, rfl, rfl⟩)
        | false => exact .inr (.inr ⟨⟨not_le.mp hempty, rfl⟩, rfl, rfl⟩)

/-- What is in the store stays there. -/
theorem written_prefix (source : BigQueryTraceSource) (table : List TableRow) (s : SourceState)
    (pull : Pull) : s.written <+: (source.pullOnce table s pull).1.written := by
  obtain ⟨-, hpull⟩ | ⟨-, -, hwritten⟩ | ⟨-, -, hwritten⟩ := source.pullOnce_cases table s pull
  · exact hpull.symm ▸ List.prefix_rfl
  · exact hwritten.symm ▸ List.prefix_rfl
  · rw [hwritten]
    exact List.prefix_append _ _

/-- **A failed pull leaves the watermark.** -/
theorem watermark_of_failed (h : ¬ source.Succeeds table s pull) :
    (source.pullOnce table s pull).1.watermark = s.watermark := by
  obtain ⟨-, hpull⟩ | ⟨-, hwatermark, -⟩ | ⟨⟨-, hsucceeds⟩, -⟩ := source.pullOnce_cases table s pull
  · rw [hpull]
  · exact hwatermark
  · exact absurd hsucceeds h

/-- A pull that reads no window leaves the watermark. -/
theorem watermark_of_not_reads (h : ¬ source.Reads table s pull) :
    (source.pullOnce table s pull).1.watermark = s.watermark := by
  obtain ⟨-, hpull⟩ | ⟨-, hwatermark, -⟩ | ⟨hreads, -⟩ := source.pullOnce_cases table s pull
  · rw [hpull]
  · exact hwatermark
  · exact absurd hreads h

theorem watermark_of_reads (h : source.Reads table s pull) :
    (source.pullOnce table s pull).1.watermark = some pull.nowMs := by
  obtain ⟨hempty, -⟩ | ⟨hnone, -⟩ | ⟨-, hwatermark, -⟩ := source.pullOnce_cases table s pull
  · exact absurd h.1 (not_lt.mpr hempty)
  · have hsome := h.2
    rw [Succeeds, hnone] at hsome
    cases hsome
  · exact hwatermark

/-! ### Late rows -/

/-- A row of the table that can be read, with its event time. -/
structure Readable (table : List TableRow) (r : TableRow) (event : TraceEventMessage) (t : Int) :
    Prop where
  mem : r ∈ table
  decodes : rowToEvent r.row = some event
  time : r.row.eventTime = some t

variable {r : TableRow} {event : TraceEventMessage} {t : Int}

/-- A pull that reads a window around the time of a row that it can see stores the row. -/
theorem stored_of_reads (hr : Readable table r event t) (h : source.Reads table s pull)
    (hstart : (source.window s pull.nowMs).1 ≤ t) (hend : t < pull.nowMs)
    (hvisible : r.visibleAt ≤ pull.nowMs) :
    eventRow event .bigquery ∈ (source.pullOnce table s pull).1.written := by
  obtain ⟨hempty, -⟩ | ⟨hnone, -⟩ | ⟨-, -, hwritten⟩ := source.pullOnce_cases table s pull
  · exact absurd h.1 (not_lt.mpr hempty)
  · have hsome := h.2
    rw [Succeeds, hnone] at hsome
    cases hsome
  · rw [hwritten]
    refine List.mem_append_right _ (List.mem_map_of_mem ?_)
    refine List.mem_filterMap.mpr ⟨r.row, mem_queryRows.mpr ⟨⟨r, hr.mem, hvisible, rfl⟩, ?_⟩,
      hr.decodes⟩
    simp [inWindow, hr.time, hstart, hend]

/-- What holds of a row between pulls: if the watermark is past its time, and is a time at which the
row could be seen, then the row is stored. -/
def Covered (r : TableRow) (event : TraceEventMessage) (t : Int) (s : SourceState) : Prop :=
  ∀ watermark ∈ s.watermark, t < watermark → r.visibleAt ≤ watermark →
    eventRow event .bigquery ∈ s.written

/-- A row that is seen a minute late at most is covered by each window that is read, if the first
one does not begin behind it. -/
theorem Covered.step (hr : Readable table r event t) (ht : 0 ≤ t)
    (hlate : r.visibleAt ≤ t + windowOverlapMs)
    (hfirst : s.watermark = none → source.Reads table s pull →
      (source.window s pull.nowMs).1 ≤ t)
    (h : Covered r event t s) : Covered r event t (source.pullOnce table s pull).1 := by
  intro watermark hwatermark hpast hseen
  have hkept := (source.written_prefix table s pull).subset
  by_cases hreads : source.Reads table s pull
  · rw [watermark_of_reads hreads] at hwatermark
    obtain rfl := Option.some.inj hwatermark
    cases hold : s.watermark with
    | none => exact stored_of_reads hr hreads (hfirst hold hreads) hpast hseen
    | some last =>
      by_cases hbefore : t < last ∧ r.visibleAt ≤ last
      · exact hkept (h last hold hbefore.1 hbefore.2)
      · -- The last window ended before the row, or before the row could be seen.
        refine stored_of_reads hr hreads ?_ hpast hseen
        have hstart : (source.window s pull.nowMs).1 = max (last - windowOverlapMs) 0 := by
          rw [window, hold]
        rw [hstart]
        unfold windowOverlapMs at hlate ⊢
        omega
  · rw [watermark_of_not_reads hreads] at hwatermark
    exact hkept (h watermark hwatermark hpast hseen)

/-! ### Sequences of pulls -/

variable (source table)

/-- The state that a pull of a sequence finds. -/
def before (pulls : List Pull) (j : ℕ) : SourceState := source.afterPulls table {} (pulls.take j)

/-- The pull of a sequence that reads a window when none before it did. -/
structure FirstWindow (pulls : List Pull) (i : ℕ) (first : Pull) : Prop where
  pull : pulls[i]? = some first
  reads : source.Reads table (source.before table pulls i) first
  none_before : ∀ k < i, ∀ p, pulls[k]? = some p →
    ¬ source.Reads table (source.before table pulls k) p

variable {source table} {pulls : List Pull} {i j : ℕ} {first : Pull}

theorem before_succ (h : pulls[j]? = some pull) : source.before table pulls (j + 1) =
    (source.pullOnce table (source.before table pulls j) pull).1 := by
  rw [before, before, afterPulls, afterPulls, List.take_add_one, h, List.foldl_append]
  rfl

theorem before_of_length_le (h : pulls[j]? = none) :
    source.before table pulls (j + 1) = source.before table pulls j := by
  rw [before, before, List.take_add_one, h, Option.toList_none, List.append_nil]

/-- The watermark is the time of a pull, and there is none as long as no window has been read. -/
theorem watermark_before (source : BigQueryTraceSource) (table : List TableRow)
    (pulls : List Pull) (j : ℕ) :
    match (source.before table pulls j).watermark with
    | none => ∀ k < j, ∀ p, pulls[k]? = some p →
      ¬ source.Reads table (source.before table pulls k) p
    | some watermark => ∃ k < j, ∃ p, pulls[k]? = some p ∧ p.nowMs = watermark ∧
        source.Reads table (source.before table pulls k) p := by
  induction j with
  | zero => simp [before, afterPulls]
  | succ j ih =>
    -- A step that reads no window changes neither the watermark nor what has been read.
    have hkeep (hsame : (source.before table pulls (j + 1)).watermark =
        (source.before table pulls j).watermark)
        (hnot : ∀ p, pulls[j]? = some p → ¬ source.Reads table (source.before table pulls j) p) :
        match (source.before table pulls (j + 1)).watermark with
        | none => ∀ k < j + 1, ∀ p, pulls[k]? = some p →
            ¬ source.Reads table (source.before table pulls k) p
        | some watermark => ∃ k < j + 1, ∃ p, pulls[k]? = some p ∧ p.nowMs = watermark ∧
            source.Reads table (source.before table pulls k) p := by
      rw [hsame]
      cases hold : (source.before table pulls j).watermark with
      | none =>
        rw [hold] at ih
        intro k hk p hp
        rcases Nat.lt_succ_iff_lt_or_eq.mp hk with hk | rfl
        · exact ih k hk p hp
        · exact hnot p hp
      | some watermark =>
        rw [hold] at ih
        obtain ⟨k, hk, hrest⟩ := ih
        exact ⟨k, by omega, hrest⟩
    cases hpull : pulls[j]? with
    | none =>
      refine hkeep (congrArg SourceState.watermark (before_of_length_le hpull)) fun p hp => ?_
      rw [hpull] at hp
      cases hp
    | some pull =>
      by_cases hreads : source.Reads table (source.before table pulls j) pull
      · rw [before_succ hpull, watermark_of_reads hreads]
        exact ⟨j, by omega, pull, hpull, rfl, hreads⟩
      · refine hkeep ?_ fun p hp => ?_
        · rw [before_succ hpull, watermark_of_not_reads hreads]
        · rw [hpull] at hp
          exact Option.some.inj hp ▸ hreads

/-- A pull that finds no watermark and reads a window is the first. -/
theorem FirstWindow.eq (h : source.FirstWindow table pulls i first) (hpull : pulls[j]? = some pull)
    (hnone : (source.before table pulls j).watermark = none)
    (hreads : source.Reads table (source.before table pulls j) pull) : j = i := by
  have hbefore := source.watermark_before table pulls j
  rw [hnone] at hbefore
  refine Nat.le_antisymm (Nat.le_of_not_lt fun hlt => ?_) (Nat.le_of_not_lt fun hlt => ?_)
  · exact hbefore i hlt first h.pull h.reads
  · exact h.none_before j hlt pull hpull hreads

section Times

variable (hnow : pulls.Pairwise fun a b => a.nowMs ≤ b.nowMs)
include hnow

theorem nowMs_le {k : ℕ} {p : Pull} (hkj : k < j) (hp : pulls[k]? = some p)
    (hpull : pulls[j]? = some pull) : p.nowMs ≤ pull.nowMs := by
  obtain ⟨hk, rfl⟩ := List.getElem?_eq_some_iff.mp hp
  obtain ⟨hj, rfl⟩ := List.getElem?_eq_some_iff.mp hpull
  exact List.pairwise_iff_getElem.mp hnow k j hk hj hkj

/-- The window of a pull past the epoch is not empty, if some pull reads a window without a
watermark. -/
theorem window_lt (hfirst : source.FirstWindow table pulls i first) (hpull : pulls[j]? = some pull)
    (hpos : 0 < pull.nowMs) :
    (source.window (source.before table pulls j) pull.nowMs).1 < pull.nowMs := by
  have hbefore := source.watermark_before table pulls j
  cases hold : (source.before table pulls j).watermark with
  | none =>
    have hnone : (source.before table pulls i).watermark = none := by
      have hbefore' := source.watermark_before table pulls i
      cases hi : (source.before table pulls i).watermark with
      | none => rfl
      | some watermark =>
        rw [hi] at hbefore'
        obtain ⟨k, hk, p, hp, -, hreads⟩ := hbefore'
        exact absurd hreads (hfirst.none_before k hk p hp)
    have hlookback := hfirst.reads.1
    simp only [window, hnone, hold] at hlookback ⊢
    omega
  | some watermark =>
    rw [hold] at hbefore
    obtain ⟨k, hk, p, hp, rfl, -⟩ := hbefore
    have hle := nowMs_le hnow hk hp hpull
    simp only [window, hold, windowOverlapMs]
    omega

end Times

/-- A row that is seen a minute late at most is covered throughout. -/
theorem covered_before (hr : Readable table r event t) (ht : 0 ≤ t)
    (hlate : r.visibleAt ≤ t + windowOverlapMs)
    (hfirst : source.FirstWindow table pulls i first)
    (hstart : (source.window (source.before table pulls i) first.nowMs).1 ≤ t) (j : ℕ) :
    Covered r event t (source.before table pulls j) := by
  induction j with
  | zero =>
    intro watermark hwatermark
    cases hwatermark
  | succ j ih =>
    cases hpull : pulls[j]? with
    | none => exact before_of_length_le hpull ▸ ih
    | some pull =>
      rw [before_succ hpull]
      refine Covered.step hr ht hlate (fun hnone hreads => ?_) ih
      obtain rfl := hfirst.eq hpull hnone hreads
      have hsame : first = pull := Option.some.inj (hfirst.pull.symm.trans hpull)
      exact hsame ▸ hstart

/-- **Pulls leave no gap.** In a sequence of pulls at times that do not decrease, some of which may
fail, consider a row whose time is neither negative nor before the start of the first window that is
read, and which queries return a minute after its time at the latest. A pull that does not fail, is
past the time of the row and sees the row has it in the store. A pull that fails leaves the
watermark where it is. -/
theorem pulls_leave_no_gap (source : BigQueryTraceSource) (table : List TableRow)
    (pulls : List Pull) (hnow : pulls.Pairwise fun a b => a.nowMs ≤ b.nowMs) :
    (∀ {i first}, source.FirstWindow table pulls i first →
      ∀ {r event t}, Readable table r event t → 0 ≤ t →
        (source.window (source.before table pulls i) first.nowMs).1 ≤ t →
        r.visibleAt ≤ t + windowOverlapMs →
      ∀ {j pull}, pulls[j]? = some pull → source.Succeeds table (source.before table pulls j) pull →
        t < pull.nowMs → r.visibleAt ≤ pull.nowMs →
        eventRow event .bigquery ∈ (source.before table pulls (j + 1)).written) ∧
    ∀ {j pull}, pulls[j]? = some pull → ¬ source.Succeeds table (source.before table pulls j) pull →
      (source.before table pulls (j + 1)).watermark = (source.before table pulls j).watermark := by
  constructor
  · intro i first hfirst r event t hr ht hstart hlate j pull hpull hsucceeds hpast hseen
    have hreads : source.Reads table (source.before table pulls j) pull :=
      ⟨window_lt hnow hfirst hpull (ht.trans_lt hpast), hsucceeds⟩
    refine covered_before hr ht hlate hfirst hstart (j + 1) pull.nowMs ?_ hpast hseen
    rw [before_succ hpull, watermark_of_reads hreads, Option.mem_def]
  · intro j pull hpull hfails
    rw [before_succ hpull, watermark_of_failed hfails]

/-- A row of the second second after the epoch. -/
def lateRow : TableRow where
  row := { eventType := some "ERROR", startMs := some 1500, eventTime := some 1500 }
  visibleAt := 60500

/-- A first pull that does not see the row yet, one that fails, and one that stores it. -/
theorem pulls_leave_no_gap_late :
    eventRow { eventType := 6, startMs := 1500 } .bigquery ∈
      (before ⟨1000⟩ [lateRow]
        [{ nowMs := 2000 }, { nowMs := 60500, queryFailsAfter := some 0 }, { nowMs := 61000 }]
        3).written := by
  have hreads : Reads ⟨1000⟩ [lateRow] {} { nowMs := 2000 } := ⟨by decide, rfl⟩
  have hfirst : FirstWindow ⟨1000⟩ [lateRow]
      [{ nowMs := 2000 }, { nowMs := 60500, queryFailsAfter := some 0 }, { nowMs := 61000 }] 0
      { nowMs := 2000 } := ⟨rfl, hreads, fun k hk => absurd hk (Nat.not_lt_zero k)⟩
  exact (pulls_leave_no_gap ⟨1000⟩ [lateRow] _ (by decide)).1 hfirst
    (r := lateRow) ⟨List.mem_singleton_self _, by decide, rfl⟩ (by decide) (by decide) (by decide)
    (j := 2) rfl rfl (by decide) (by decide)

end BigQueryTraceSource

end BeamAgents
