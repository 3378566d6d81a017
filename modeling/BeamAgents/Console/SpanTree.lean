import BeamAgents.Console.Records
import BeamAgents.Containers.Forest
import BeamAgents.Containers.Recency
import BeamAgents.Observability.Traces
import Mathlib.Data.List.Sort
import Mathlib.Logic.Relation

/-!
# The span tree

`_span_tree` of `console/_queries.py` groups the events of a trace by span and lists the spans depth
first. A span whose parent is empty, itself, or not listed is a root; the stack starts with the
roots, so that spans whose parents go round in a circle, and those below them, are not reached.

## Main definitions

* `EventRecord`, `Span`, `SpanNode`.
* `collectSpans`, `placeSpans`, `walk`, `spanTree`.
* `Reaches`: the parents of a span lead to a root.

## Main results

* `collectSpans_get?`: every span with its events.
* `walk_eq_some`: the walk ends, and it is a walk through the forest of the spans.
* `spanTree_complete_iff`: the tree shows every span exactly when all parents lead to a root.
-/

namespace BeamAgents

open Containers

/-- `EventRecord` of `console/_dto.py`. -/
structure EventRecord where
  traceId : String
  spanId : String
  parentSpanId : String
  entityKey : String
  seq : Int
  stepIndex : Int
  eventType : String
  startMs : Int
  endMs : Int
  attributes : Attributes
  provenance : Provenance := .native
  deriving DecidableEq

/-- `_role`. -/
def eventRole (eventType : String) : String :=
  if eventType = "ACTIVATION_START" ∨ eventType = "ACTIVATION_END" then roleActivation
  else eventType

/-- `_Span`, with the events that landed on it. -/
structure Span where
  spanId : String
  parentSpanId : String
  role : String
  stepIndex : Int
  events : List EventRecord
  nonempty : events ≠ []
  deriving DecidableEq

namespace Span

/-- The span of its first event. -/
def start (event : EventRecord) : Span where
  spanId := event.spanId
  parentSpanId := event.parentSpanId
  role := eventRole event.eventType
  stepIndex := event.stepIndex
  events := [event]
  nonempty := List.cons_ne_nil _ _

/-- A further event of a span. -/
def add (span : Span) (event : EventRecord) : Span :=
  { span with
    events := span.events ++ [event]
    stepIndex := min span.stepIndex event.stepIndex
    nonempty := List.append_ne_nil_of_left_ne_nil span.nonempty _ }

/-- When the first of its events started. -/
def firstMs (span : Span) : Int :=
  (span.events.map EventRecord.startMs).min (by simpa using span.nonempty)

end Span

/-- A round of the loop of `_collect_spans`. -/
def collectEvent (spans : Dict String Span) (event : EventRecord) : Dict String Span :=
  match spans.get? event.spanId with
  | none => spans.set event.spanId (.start event)
  | some span => spans.set event.spanId (span.add event)

/-- `_collect_spans`. -/
def collectSpans (events : List EventRecord) : Dict String Span :=
  events.foldl collectEvent .empty

/-- Whether a span has its place below its parent. -/
def HasParent (spans : Dict String Span) (spanId : String) (span : Span) : Prop :=
  span.parentSpanId ≠ "" ∧ span.parentSpanId ∈ spans.keys ∧ span.parentSpanId ≠ spanId

instance (spans : Dict String Span) (spanId : String) (span : Span) :
    Decidable (HasParent spans spanId span) :=
  inferInstanceAs (Decidable (_ ∧ _))

/-- The children of each span, and the roots. -/
abbrev Placement := Dict String (List String) × List String

/-- A round of the loop that finds children and roots. -/
def placeSpan (spans : Dict String Span) (placement : Placement) (item : String × Span) :
    Placement :=
  if HasParent spans item.1 item.2 then
    let parent := item.2.parentSpanId
    (placement.1.set parent ((placement.1.get? parent).getD [] ++ [item.1]), placement.2)
  else (placement.1, placement.2 ++ [item.1])

/-- The children of each span, and the roots. -/
def placeSpans (spans : Dict String Span) : Placement :=
  spans.items.foldl (placeSpan spans) (.ofList (spans.keys.map fun spanId => (spanId, [])), [])

/-- `first_ms`; only listed spans are looked up. -/
def firstMs (spans : Dict String Span) (spanId : String) : Int :=
  ((spans.get? spanId).map Span.firstMs).getD 0

/-- The order of siblings: by the time of the first event, and by the span id. -/
def SiblingLe (spans : Dict String Span) (a b : String) : Prop :=
  firstMs spans a < firstMs spans b ∨ firstMs spans a = firstMs spans b ∧ a ≤ b

instance (spans : Dict String Span) : DecidableRel (SiblingLe spans) :=
  fun _ _ => inferInstanceAs (Decidable (_ ∨ _))

/-- `_sorted`. -/
def sortedIds (spans : Dict String Span) (spanIds : List String) : List String :=
  spanIds.insertionSort (SiblingLe spans)

/-- `SpanNode`. -/
structure SpanNode where
  spanId : String
  parentSpanId : String
  role : String
  stepIndex : Int
  depth : ℕ
  order : ℕ
  events : List EventRecord
  deriving DecidableEq

/-- The node of a span. -/
def Span.node (span : Span) (spanId : String) (depth order : ℕ) : SpanNode where
  spanId
  parentSpanId := span.parentSpanId
  role := span.role
  stepIndex := span.stepIndex
  depth
  order
  events := span.events

/-- The spans that have not been visited. -/
def unvisited (spans : Dict String Span) (visited : List String) : List String :=
  spans.keys.filter (· ∉ visited)

theorem length_unvisited_lt {spans : Dict String Span} {visited : List String} {spanId : String}
    (hkey : spanId ∈ spans.keys) (hfresh : spanId ∉ visited) :
    (unvisited spans (spanId :: visited)).length < (unvisited spans visited).length := by
  have hfilter : unvisited spans (spanId :: visited) =
      (unvisited spans visited).filter (· ≠ spanId) := by
    rw [unvisited, unvisited, List.filter_filter]
    exact List.filter_congr fun _ _ => by simp
  rw [hfilter, List.length_filter_lt_length_iff_exists]
  exact ⟨spanId, List.mem_filter.mpr ⟨hkey, by simpa using hfresh⟩, by simp⟩

/-- The loop of `_span_tree`, the top of the stack first; none if a span is looked up that is not
listed. -/
def walk (spans : Dict String Span) (children : Dict String (List String))
    (visited : List String) (nodes : List SpanNode) : List (String × ℕ) → Option (List SpanNode)
  | [] => some nodes
  | (spanId, depth) :: stack =>
    if _ : spanId ∈ visited then walk spans children visited nodes stack
    else
      match _ : spans.get? spanId, children.get? spanId with
      | some span, some below =>
        walk spans children (spanId :: visited) (nodes ++ [span.node spanId depth nodes.length])
          ((sortedIds spans below).map (fun child => (child, depth + 1)) ++ stack)
      | _, _ => none
termination_by stack => ((unvisited spans visited).length, stack.length)
decreasing_by
  · exact Prod.Lex.right _ (Nat.lt_succ_self _)
  · exact Prod.Lex.left _ _
      (length_unvisited_lt (List.mem_map_of_mem (spans.get?_eq_some_iff.mp ‹_›)) ‹_›)

/-- `_span_tree`. -/
def spanTree (events : List EventRecord) : Option (List SpanNode) :=
  let spans := collectSpans events
  let placement := placeSpans spans
  walk spans placement.1 [] [] ((sortedIds spans placement.2).map fun spanId => (spanId, 0))

/-! ### The spans of the events -/

/-- The events of a span. -/
def eventsOf (events : List EventRecord) (spanId : String) : List EventRecord :=
  events.filter (·.spanId = spanId)

theorem eventsOf_append (events : List EventRecord) (event : EventRecord) (spanId : String) :
    eventsOf (events ++ [event]) spanId =
      eventsOf events spanId ++ if event.spanId = spanId then [event] else [] := by
  rw [eventsOf, List.filter_append, List.filter_singleton]
  simp [eventsOf]

theorem mem_spanIds_iff {events : List EventRecord} {spanId : String} :
    spanId ∈ events.map EventRecord.spanId ↔ eventsOf events spanId ≠ [] := by
  simp [eventsOf]

/-- **Every span with its events.** -/
theorem collectSpans_get? (events : List EventRecord) (spanId : String) :
    (collectSpans events).get? spanId =
      match eventsOf events spanId with
      | [] => none
      | first :: more => some (more.foldl Span.add (.start first)) := by
  induction events using List.reverseRecOn with
  | nil => rfl
  | append_singleton events event ih =>
    have hstep : collectSpans (events ++ [event]) = collectEvent (collectSpans events) event :=
      List.foldl_append
    rw [hstep, eventsOf_append, collectEvent]
    by_cases hid : event.spanId = spanId
    · subst hid
      rw [ih, if_pos rfl]
      cases hevents : eventsOf events event.spanId with
      | nil => simp [Dict.get?_set_self]
      | cons first more => simp [Dict.get?_set_self]
    · rw [if_neg hid, List.append_nil]
      split
      · rw [Dict.get?_set_of_ne _ (Ne.symm hid), ih]
      · rw [Dict.get?_set_of_ne _ (Ne.symm hid), ih]

theorem Span.foldl_add (more : List EventRecord) (span : Span) :
    (more.foldl Span.add span).events = span.events ++ more ∧
      (more.foldl Span.add span).parentSpanId = span.parentSpanId := by
  induction more generalizing span with
  | nil => exact ⟨(List.append_nil _).symm, rfl⟩
  | cons event more ih =>
    obtain ⟨hevents, hparent⟩ := ih (span.add event)
    rw [List.foldl_cons, hevents, hparent]
    exact ⟨by simp [Span.add], rfl⟩

theorem collectSpans_eq_some {events : List EventRecord} {spanId : String} {span : Span}
    (h : (collectSpans events).get? spanId = some span) :
    span.events = eventsOf events spanId ∧
      (eventsOf events spanId).head?.map EventRecord.parentSpanId = some span.parentSpanId := by
  rw [collectSpans_get?] at h
  cases hevents : eventsOf events spanId with
  | nil => simp [hevents] at h
  | cons first more =>
    rw [hevents] at h
    obtain rfl := Option.some.inj h
    obtain ⟨hall, hparent⟩ := Span.foldl_add more (.start first)
    exact ⟨hall, by rw [hparent]; rfl⟩

theorem mem_keys_collectSpans {events : List EventRecord} {spanId : String} :
    spanId ∈ (collectSpans events).keys ↔ spanId ∈ events.map EventRecord.spanId := by
  rw [mem_spanIds_iff, Dict.keys, ← not_iff_not, ← Dict.get?_eq_none_iff, collectSpans_get?]
  cases eventsOf events spanId <;> simp

/-! ### The forest of the spans -/

section Placement

variable {spans : Dict String Span}

/-- What the loop adds to the children and to the roots. -/
theorem foldl_placeSpan (items : List (String × Span)) {placement : Placement}
    (hkeys : ∀ parent ∈ spans.keys, (placement.1.get? parent).isSome) :
    (items.foldl (placeSpan spans) placement).2 =
        placement.2 ++ (items.filter fun i => ¬HasParent spans i.1 i.2).map Prod.fst ∧
      ∀ parent, (items.foldl (placeSpan spans) placement).1.get? parent =
        (placement.1.get? parent).map (· ++
          (items.filter fun i => HasParent spans i.1 i.2 ∧ i.2.parentSpanId = parent).map
            Prod.fst) := by
  induction items generalizing placement with
  | nil => simp
  | cons item items ih =>
    rw [List.foldl_cons, placeSpan]
    by_cases hitem : HasParent spans item.1 item.2
    · obtain ⟨siblings, hsiblings⟩ := Option.isSome_iff_exists.mp (hkeys _ hitem.2.1)
      rw [if_pos hitem]
      obtain ⟨hroots, hchildren⟩ := @ih (placement.1.set item.2.parentSpanId
          ((placement.1.get? item.2.parentSpanId).getD [] ++ [item.1]), placement.2)
        fun parent hparent => by
          rw [Dict.get?_set]
          split_ifs
          · rfl
          · exact hkeys parent hparent
      refine ⟨?_, fun parent => ?_⟩
      · rw [hroots, List.filter_cons_of_neg (by simpa using hitem)]
      · rw [hchildren, Dict.get?_set]
        by_cases hparent : parent = item.2.parentSpanId
        · rw [if_pos hparent, List.filter_cons_of_pos (by simp [hitem, hparent]), hparent,
            hsiblings]
          simp
        · rw [if_neg hparent, List.filter_cons_of_neg (by simp [Ne.symm hparent])]
    · rw [if_neg hitem]
      obtain ⟨hroots, hchildren⟩ := @ih (placement.1, placement.2 ++ [item.1]) hkeys
      refine ⟨?_, fun parent => ?_⟩
      · rw [hroots, List.filter_cons_of_pos (by simpa using hitem)]
        simp
      · rw [hchildren, List.filter_cons_of_neg (by simp [hitem])]

theorem placeSpans_start (parent : String) :
    (Dict.ofList (spans.keys.map fun spanId => (spanId, ([] : List String)))).get? parent =
      if parent ∈ spans.keys then some [] else none := by
  have hitems : (Dict.ofList (spans.keys.map fun spanId => (spanId, ([] : List String)))).items =
      spans.keys.map fun spanId => (spanId, []) := by
    refine Dict.items_ofList ?_
    rw [List.map_map]
    exact (List.map_id _).symm ▸ spans.nodup
  split_ifs with hparent
  · rw [Dict.get?_eq_some_iff, hitems]
    exact List.mem_map_of_mem hparent
  · rw [Dict.get?_eq_none_iff, hitems, List.map_map]
    exact fun hmem => hparent (by simpa using hmem)

/-- The roots are the spans without a place below a parent. -/
theorem placeSpans_roots : (placeSpans spans).2 =
    (spans.items.filter fun i => ¬HasParent spans i.1 i.2).map Prod.fst := by
  refine (foldl_placeSpan spans.items fun parent hparent => ?_).1.trans (List.nil_append _)
  rw [placeSpans_start, if_pos hparent]
  rfl

/-- The children of a listed span. -/
theorem placeSpans_children {parent : String} (h : parent ∈ spans.keys) :
    (placeSpans spans).1.get? parent =
      some ((spans.items.filter fun i => HasParent spans i.1 i.2 ∧ i.2.parentSpanId = parent).map
        Prod.fst) := by
  refine ((foldl_placeSpan spans.items fun parent hparent => ?_).2 parent).trans ?_
  · rw [placeSpans_start, if_pos hparent]
    rfl
  · rw [placeSpans_start, if_pos h]
    rfl

theorem placeSpans_children_none {parent : String} (h : parent ∉ spans.keys) :
    (placeSpans spans).1.get? parent = none := by
  refine ((foldl_placeSpan spans.items fun parent hparent => ?_).2 parent).trans ?_
  · rw [placeSpans_start, if_pos hparent]
    rfl
  · rw [placeSpans_start, if_neg h]
    rfl

theorem mem_roots_iff {spanId : String} : spanId ∈ sortedIds spans (placeSpans spans).2 ↔
    ∃ span, spans.get? spanId = some span ∧ ¬HasParent spans spanId span := by
  rw [sortedIds, List.mem_insertionSort, placeSpans_roots]
  simp only [List.mem_map, List.mem_filter, decide_eq_true_eq, Dict.get?_eq_some_iff]
  constructor
  · rintro ⟨⟨_, span⟩, hspan, rfl⟩
    exact ⟨span, hspan⟩
  · rintro ⟨span, hspan⟩
    exact ⟨(spanId, span), hspan, rfl⟩

/-- What is below a span. -/
def childrenOf (spans : Dict String Span) (parent : String) : List String :=
  sortedIds spans (((placeSpans spans).1.get? parent).getD [])

theorem mem_childrenOf_iff {spanId parent : String} : spanId ∈ childrenOf spans parent ↔
    ∃ span, spans.get? spanId = some span ∧ HasParent spans spanId span ∧
      span.parentSpanId = parent := by
  rw [childrenOf, sortedIds, List.mem_insertionSort]
  by_cases hparent : parent ∈ spans.keys
  · rw [placeSpans_children hparent]
    simp only [Option.getD_some, List.mem_map, List.mem_filter, decide_eq_true_eq,
      Dict.get?_eq_some_iff]
    constructor
    · rintro ⟨⟨_, span⟩, hspan, rfl⟩
      exact ⟨span, hspan⟩
    · rintro ⟨span, hspan⟩
      exact ⟨(spanId, span), hspan, rfl⟩
  · rw [placeSpans_children_none hparent]
    simp only [Option.getD_none, List.not_mem_nil, false_iff]
    rintro ⟨span, -, hplace, rfl⟩
    exact hparent hplace.2.1

/-- The spans by their parents. -/
def spanForest (spans : Dict String Span) : Forest String where
  roots := sortedIds spans (placeSpans spans).2
  below := childrenOf spans
  nodup_roots := by
    rw [sortedIds, List.Perm.nodup_iff (List.perm_insertionSort _ _), placeSpans_roots]
    exact spans.nodup.sublist (List.filter_sublist.map _)
  nodup_below parent := by
    rw [childrenOf, sortedIds, List.Perm.nodup_iff (List.perm_insertionSort _ _)]
    by_cases hparent : parent ∈ spans.keys
    · rw [placeSpans_children hparent]
      exact spans.nodup.sublist (List.filter_sublist.map _)
    · rw [placeSpans_children_none hparent]
      exact List.nodup_nil
  below_inj {c p q} hp hq := by
    obtain ⟨span, hspan, -, rfl⟩ := mem_childrenOf_iff.mp hp
    obtain ⟨span', hspan', -, rfl⟩ := mem_childrenOf_iff.mp hq
    rw [Option.some.inj (hspan.symm.trans hspan')]
  not_below {c p} hp hroot := by
    obtain ⟨span, hspan, hplace, -⟩ := mem_childrenOf_iff.mp hp
    obtain ⟨span', hspan', hnot⟩ := mem_roots_iff.mp hroot
    exact hnot (Option.some.inj (hspan.symm.trans hspan') ▸ hplace)

end Placement

/-! ### The walk -/

/-- The spans of nodes with their depths. -/
def placesOf (nodes : List SpanNode) : List (String × ℕ) :=
  nodes.map fun node => (node.spanId, node.depth)

/-- Nodes in order, each with the content of its span. -/
structure Built (spans : Dict String Span) (nodes : List SpanNode) : Prop where
  order : nodes.map SpanNode.order = List.range nodes.length
  content : ∀ node ∈ nodes, ∃ span, spans.get? node.spanId = some span ∧
    node = span.node node.spanId node.depth node.order

theorem Built.append {spans : Dict String Span} {nodes : List SpanNode} {span : Span}
    {spanId : String} (h : Built spans nodes) (hspan : spans.get? spanId = some span) (depth : ℕ) :
    Built spans (nodes ++ [span.node spanId depth nodes.length]) where
  order := by
    rw [List.map_append, h.order, List.length_append, List.length_singleton, List.range_succ]
    rfl
  content node hnode := by
    rcases List.mem_append.mp hnode with hnode | hnode
    · exact h.content node hnode
    · obtain rfl := List.mem_singleton.mp hnode
      exact ⟨span, hspan, rfl⟩

theorem placesOf_append (nodes : List SpanNode) (span : Span) (spanId : String) (depth : ℕ) :
    placesOf (nodes ++ [span.node spanId depth nodes.length]) =
      placesOf nodes ++ [(spanId, depth)] := by
  rw [placesOf, List.map_append]
  rfl

/-- Whatever has a place is listed. -/
theorem get?_of_placed {spans : Dict String Span} {before : List (String × ℕ)}
    {x : String × ℕ} (h : (spanForest spans).Placed before x) :
    ∃ span, spans.get? x.1 = some span := by
  rcases h with ⟨hroot, -⟩ | ⟨p, -, hbelow, -⟩
  · obtain ⟨span, hspan, -⟩ := mem_roots_iff.mp hroot
    exact ⟨span, hspan⟩
  · obtain ⟨span, hspan, -⟩ := mem_childrenOf_iff.mp hbelow
    exact ⟨span, hspan⟩

/-- **The walk ends**, and it has walked through the forest of the spans. -/
theorem walk_eq_some {spans : Dict String Span} {visited : List String} {nodes : List SpanNode}
    {stack : List (String × ℕ)} (hwalk : (spanForest spans).Walk (placesOf nodes) stack)
    (hvisited : ∀ spanId ∈ visited, spanId ∈ (placesOf nodes).map Prod.fst)
    (hbuilt : Built spans nodes) :
    ∃ result, walk spans (placeSpans spans).1 visited nodes stack = some result ∧
      (spanForest spans).Walk (placesOf result) [] ∧ Built spans result := by
  induction visited, nodes, stack using walk.induct spans (placeSpans spans).1 with
  | case1 visited nodes => exact ⟨nodes, walk.eq_1 .., hwalk, hbuilt⟩
  | case2 visited nodes spanId depth stack hmem ih => exact absurd (hvisited _ hmem) hwalk.fresh
  | case3 visited nodes spanId depth stack hmem span below hspan hbelow ih =>
    have hvisit := hwalk.visit
    have hbelow' : (spanForest spans).below spanId = sortedIds spans below := by
      simp only [spanForest, childrenOf, hbelow, Option.getD_some]
    rw [← placesOf_append nodes span] at hvisit
    simp only [hbelow'] at hvisit
    have hids : ∀ id ∈ spanId :: visited,
        id ∈ (placesOf (nodes ++ [span.node spanId depth nodes.length])).map Prod.fst := by
      intro id hid
      rw [placesOf_append, List.map_append, List.mem_append]
      rcases List.mem_cons.mp hid with rfl | hid
      · exact .inr List.mem_cons_self
      · exact .inl (hvisited id hid)
    obtain ⟨result, hresult, hdone⟩ := ih hvisit hids (hbuilt.append hspan depth)
    refine ⟨result, ?_, hdone⟩
    rw [walk.eq_2, dif_neg hmem]
    split
    · rename_i hspan' hbelow'
      rw [← hresult, Option.some.inj (hspan.symm.trans hspan'),
        Option.some.inj (hbelow.symm.trans hbelow')]
    · rename_i hnone
      exact absurd hbelow (hnone span below hspan)
  | case4 visited nodes spanId depth stack hmem hnone =>
    obtain ⟨span, hspan⟩ := get?_of_placed (hwalk.pending _ List.mem_cons_self)
    have hlisted : spanId ∈ spans.keys := List.mem_map_of_mem (spans.get?_eq_some_iff.mp hspan)
    exact absurd (placeSpans_children hlisted) (hnone span _ hspan)

/-! ### What the tree shows -/

section Tree

variable (events : List EventRecord)

/-- The parent of a span as its first event has it, if it is named and listed. -/
def ListedParent (spanId parent : String) : Prop :=
  (eventsOf events spanId).head?.map EventRecord.parentSpanId = some parent ∧ parent ≠ "" ∧
    parent ∈ events.map EventRecord.spanId

/-- The parents of a span lead to one that has no listed parent but itself. -/
inductive Reaches : String → Prop
  | root {spanId : String} (hid : spanId ∈ events.map EventRecord.spanId)
      (h : ∀ parent, ListedParent events spanId parent → parent = spanId) : Reaches spanId
  | parent {spanId parent : String} (h : ListedParent events spanId parent)
      (hparent : Reaches parent) : Reaches spanId

/-- The parents of a span lead back to it. -/
def OnCycle (spanId : String) : Prop :=
  Relation.TransGen (ListedParent events) spanId spanId

/-- Nodes that show spans, each once with all its events, in order and below their parents. A cycle
of parents has to be cut somewhere. -/
structure TreeOf (Shown : String → Prop) (nodes : List SpanNode) : Prop where
  once : (nodes.map SpanNode.spanId).Nodup
  shown : ∀ spanId, spanId ∈ nodes.map SpanNode.spanId ↔ Shown spanId
  complete : ∀ node ∈ nodes, node.events = eventsOf events node.spanId
  order : nodes.map SpanNode.order = List.range nodes.length
  below : ∀ node ∈ nodes, ¬OnCycle events node.spanId → ∀ parent,
    ListedParent events node.spanId parent → ∃ above ∈ nodes, above.spanId = parent ∧
      above.order < node.order ∧ node.depth = above.depth + 1
  top : ∀ node ∈ nodes, (∀ parent, ¬ListedParent events node.spanId parent) → node.depth = 0

variable {events} {spanId parent : String} {span : Span}

theorem listedParent_iff (h : (collectSpans events).get? spanId = some span) :
    ListedParent events spanId parent ↔ span.parentSpanId = parent ∧ parent ≠ "" ∧
      parent ∈ (collectSpans events).keys := by
  rw [ListedParent, (collectSpans_eq_some h).2, mem_keys_collectSpans, Option.some.injEq]

theorem hasParent_iff (h : (collectSpans events).get? spanId = some span) :
    HasParent (collectSpans events) spanId span ↔
      ListedParent events spanId span.parentSpanId ∧ span.parentSpanId ≠ spanId := by
  rw [listedParent_iff h, HasParent]
  tauto

/-- The spans in the trees are those whose parents lead to a root. -/
theorem rooted_iff_reaches :
    (spanForest (collectSpans events)).Rooted spanId ↔ Reaches events spanId := by
  constructor
  · intro h
    induction h with
    | @root spanId hroot =>
      obtain ⟨span, hspan, hnot⟩ := mem_roots_iff.mp hroot
      have hkey : spanId ∈ (collectSpans events).keys :=
        List.mem_map_of_mem ((collectSpans events).get?_eq_some_iff.mp hspan)
      refine .root (mem_keys_collectSpans.mp hkey) fun parent hparent => ?_
      obtain ⟨rfl, -⟩ := (listedParent_iff hspan).mp hparent
      by_contra hne
      exact hnot ((hasParent_iff hspan).mpr ⟨hparent, hne⟩)
    | under _ hbelow ih =>
      obtain ⟨span, hspan, hplace, rfl⟩ := mem_childrenOf_iff.mp hbelow
      exact .parent ((hasParent_iff hspan).mp hplace).1 ih
  · intro h
    induction h with
    | root hid hself =>
      obtain ⟨⟨_, span⟩, hitem, rfl⟩ := List.mem_map.mp (mem_keys_collectSpans.mpr hid)
      have hspan := (collectSpans events).get?_eq_some_iff.mpr hitem
      refine .root (mem_roots_iff.mpr ⟨span, hspan, fun hplace => ?_⟩)
      obtain ⟨hparent, hne⟩ := (hasParent_iff hspan).mp hplace
      exact hne (hself _ hparent)
    | @parent spanId parent hparent _ ih =>
      by_cases hself : parent = spanId
      · exact hself ▸ ih
      · have hid : spanId ∈ events.map EventRecord.spanId := by
          rw [mem_spanIds_iff]
          intro hnil
          rw [ListedParent, hnil] at hparent
          cases hparent.1
        obtain ⟨⟨_, span⟩, hitem, rfl⟩ := List.mem_map.mp (mem_keys_collectSpans.mpr hid)
        have hspan := (collectSpans events).get?_eq_some_iff.mpr hitem
        obtain ⟨rfl, -⟩ := (listedParent_iff hspan).mp hparent
        refine .under ih (mem_childrenOf_iff.mpr ⟨span, hspan, ?_, rfl⟩)
        exact (hasParent_iff hspan).mpr ⟨hparent, hself⟩

/-- The tree shows the spans whose parents lead to a root. -/
theorem spanTree_eq_some (events : List EventRecord) :
    ∃ nodes, spanTree events = some nodes ∧ TreeOf events (Reaches events) nodes := by
  have hstart : (spanForest (collectSpans events)).Walk (placesOf [])
      ((sortedIds (collectSpans events) (placeSpans (collectSpans events)).2).map
        fun spanId => (spanId, 0)) := Forest.Walk.start
  obtain ⟨nodes, hnodes, hwalk, hbuilt⟩ := @walk_eq_some _ [] _ _ hstart
    (by simp) ⟨rfl, by simp⟩
  have hids : (placesOf nodes).map Prod.fst = nodes.map SpanNode.spanId := by
    rw [placesOf, List.map_map]
    rfl
  have hsorted : nodes.Pairwise fun above node => above.order < node.order := by
    rw [← List.pairwise_map (f := SpanNode.order) (R := (· < ·)), hbuilt.order]
    exact List.pairwise_lt_range
  refine ⟨nodes, hnodes, ⟨?_, fun spanId => ?_, fun node hnode => ?_, hbuilt.order,
    fun node hnode hcycle parent hparent => ?_, fun node hnode hnone => ?_⟩⟩
  · have hnodup := hwalk.nodup
    rwa [List.append_nil, hids] at hnodup
  · rw [← hids, hwalk.mem_iff_rooted, rooted_iff_reaches]
  · obtain ⟨span, hspan, hcontent⟩ := hbuilt.content node hnode
    rw [hcontent]
    exact (collectSpans_eq_some hspan).1
  · obtain ⟨before, after, rfl⟩ := List.append_of_mem hnode
    have hplaced := hwalk.placed (placesOf before) (node.spanId, node.depth) (placesOf after)
      (by rw [placesOf, List.map_append, List.map_cons]; rfl)
    rcases hplaced with ⟨hroot, -⟩ | ⟨p, hp, hbelow, hdepth⟩
    · obtain ⟨span, hspan, hnot⟩ := mem_roots_iff.mp hroot
      obtain ⟨rfl, -⟩ := (listedParent_iff hspan).mp hparent
      by_cases hself : span.parentSpanId = node.spanId
      · exact absurd (.single (hself ▸ hparent)) hcycle
      · exact absurd ((hasParent_iff hspan).mpr ⟨hparent, hself⟩) hnot
    · obtain ⟨above, habove, rfl⟩ := List.mem_map.mp hp
      obtain ⟨span, hspan, -, heq⟩ := mem_childrenOf_iff.mp hbelow
      obtain ⟨rfl, -⟩ := (listedParent_iff hspan).mp hparent
      exact ⟨above, List.mem_append_left _ habove, heq.symm,
        (List.pairwise_append.mp hsorted).2.2 above habove node List.mem_cons_self, hdepth⟩
  · obtain ⟨before, after, rfl⟩ := List.append_of_mem hnode
    have hplaced := hwalk.placed (placesOf before) (node.spanId, node.depth) (placesOf after)
      (by rw [placesOf, List.map_append, List.map_cons]; rfl)
    rcases hplaced with ⟨-, hdepth⟩ | ⟨p, -, hbelow, -⟩
    · exact hdepth
    · obtain ⟨span, hspan, hplace, -⟩ := mem_childrenOf_iff.mp hbelow
      exact absurd ((hasParent_iff hspan).mp hplace).1 (hnone _)

/-- **The tree shows every span once** exactly when the parents of every span lead to a root: spans
on a cycle of two or more, and those below them, are not shown. -/
theorem spanTree_complete_iff (events : List EventRecord) :
    ∃ nodes, spanTree events = some nodes ∧
      (TreeOf events (· ∈ events.map EventRecord.spanId) nodes ↔
        ∀ spanId ∈ events.map EventRecord.spanId, Reaches events spanId) := by
  obtain ⟨nodes, hnodes, htree⟩ := spanTree_eq_some events
  refine ⟨nodes, hnodes, fun hall spanId hid => ?_, fun hreaches => ?_⟩
  · exact (htree.shown spanId).mp ((hall.shown spanId).mpr hid)
  · refine { htree with
      shown := fun spanId => (htree.shown spanId).trans ⟨fun h => ?_, hreaches _⟩ }
    cases h with
    | root hid _ => exact hid
    | parent hparent _ =>
      rw [mem_spanIds_iff]
      intro hnil
      rw [ListedParent, hnil] at hparent
      cases hparent.1

/-- Of two spans that are each other's parents the tree shows neither. -/
theorem parent_cycle_lost : ∃ a b : EventRecord, a.spanId ≠ b.spanId ∧
    spanTree [a, b] = some [] ∧
    ∀ nodes, spanTree [a, b] = some nodes →
      ¬TreeOf [a, b] (· ∈ [a, b].map EventRecord.spanId) nodes := by
  let a : EventRecord := ⟨"t", "a", "b", "k", 0, 0, "LLM_CALL", 1, 1, .empty, .otlp⟩
  let b : EventRecord := ⟨"t", "b", "a", "k", 0, 0, "LLM_CALL", 1, 1, .empty, .otlp⟩
  have hnone : spanTree [a, b] = some [] := by
    have hroots : (placeSpans (collectSpans [a, b])).2 = [] := by decide
    rw [spanTree, hroots]
    exact walk.eq_1 ..
  refine ⟨a, b, by decide, hnone, fun nodes hnodes htree => ?_⟩
  obtain rfl := Option.some.inj (hnone.symm.trans hnodes)
  exact absurd ((htree.shown "a").mpr (by decide)) (by simp)

end Tree

end BeamAgents
