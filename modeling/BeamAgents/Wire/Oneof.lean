import BeamAgents.Wire.Message

/-!
# Members of a oneof

Of the members of a oneof a message writes at most one, and writes it even when it is zero. A reader
that finds several keeps the one that comes last: its occurrences since another member came are put
together, and those of the others are forgotten.

## Main definitions

* `Wire.Scalar.present`: a field with presence.
* `Wire.heldFields`: the occurrences that a oneof is read from.

## Main results

* `Wire.Schema.heldFields_fields`: of a message that has one member, they are the one that it wrote.
-/

namespace Wire

/-- A field with presence: it is written when it is there, zero or not. -/
def Scalar.present {α : Type} (c : Scalar α) (number : ℕ) (a : Option α) : Part where
  number := number
  wireType := c.wireType
  values := (a.map c.encode).toList
  plain value hvalue := by
    obtain ⟨a, -, rfl⟩ := Option.map_eq_some_iff.mp (Option.mem_toList.mp hvalue)
    exact c.plain_encode a
  typed value hvalue := by
    obtain ⟨a, -, rfl⟩ := Option.map_eq_some_iff.mp (Option.mem_toList.mp hvalue)
    exact c.wireType_encode a

/-- The last occurrences of members, back to where another member came. -/
def lastRun : List Field → List Field
  | [] => []
  | f :: fs => ((f :: fs).takeWhile (·.tag = f.tag)).reverse

/-- The occurrences that a oneof with members under these tags is read from. -/
def heldFields (tags : List (ℕ × ℕ)) (fs : List Field) : List Field :=
  lastRun (fs.filter fun f => tags.contains f.tag).reverse

variable {tags : List (ℕ × ℕ)}

theorem mem_of_mem_lastRun {fs : List Field} {f : Field} (h : f ∈ lastRun fs) : f ∈ fs := by
  cases fs with
  | nil => exact h
  | cons g fs => exact (List.takeWhile_sublist _).subset (List.mem_reverse.mp h)

theorem mem_of_mem_heldFields {fs : List Field} {f : Field} (h : f ∈ heldFields tags fs) :
    f ∈ fs :=
  List.mem_of_mem_filter (List.mem_reverse.mp (mem_of_mem_lastRun h))

theorem lastRun_singleton (f : Field) : lastRun [f] = [f] := by simp [lastRun]

namespace Part

/-- The fields of a part go by its tag, all of them. -/
theorem filter_fields (p : Part) (tags : List (ℕ × ℕ)) :
    p.fields.filter (·.tag ∈ tags) = if p.tag ∈ tags then p.fields else [] := by
  split_ifs with h
  · exact List.filter_eq_self.mpr fun f hf => decide_eq_true (tag_of_mem_fields hf ▸ h)
  · exact List.filter_eq_nil_iff.mpr fun f hf hmem =>
      h (tag_of_mem_fields hf ▸ of_decide_eq_true hmem)

theorem filter_flatMap_fields (parts : List Part) (tags : List (ℕ × ℕ)) :
    (parts.flatMap fields).filter (·.tag ∈ tags) =
      (parts.filter (·.tag ∈ tags)).flatMap fields := by
  induction parts with
  | nil => rfl
  | cons p parts ih =>
    rw [List.flatMap_cons, List.filter_append, ih, filter_fields]
    by_cases h : p.tag ∈ tags
    · rw [if_pos h, List.filter_cons_of_pos (by simpa using h),
        List.flatMap_cons]
    · rw [if_neg h, List.nil_append, List.filter_cons_of_neg (by simpa using h)]

end Part

/-- The occurrences among the fields of parts. -/
theorem heldFields_flatMap (parts : List Part) (tags : List (ℕ × ℕ)) :
    heldFields tags (parts.flatMap Part.fields) =
      lastRun ((parts.filter (·.tag ∈ tags)).flatMap Part.fields).reverse := by
  simp only [heldFields, List.contains_eq_mem, Part.filter_flatMap_fields]

/-- What a message wrote of a oneof. -/
theorem Schema.heldFields_fields {M : Type} {c : Schema M} {m : M} (hknown : tags ⊆ c.tags) :
    heldFields tags (c.fields m) =
      lastRun (((c.parts m).filter (·.tag ∈ tags)).flatMap Part.fields).reverse := by
  have hunknown : (c.unknown m).fields.filter (·.tag ∈ tags) = [] :=
    List.filter_eq_nil_iff.mpr fun f hf hmem =>
      (c.unknown m).tag_notMem f hf (hknown (of_decide_eq_true hmem))
  simp only [heldFields, List.contains_eq_mem, Schema.fields, List.filter_append, hunknown,
    List.append_nil, Part.filter_flatMap_fields]

end Wire
