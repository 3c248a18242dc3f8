import Mathlib.Data.List.Infix

/-!
# Delimited streams

A stream is a sequence of segments, each ended by a separator, and a
remainder without one. What arrives later only continues the remainder, so
the segments do not depend on how the stream is cut.
-/

namespace MockServices.Foundations

variable {α : Type*} [DecidableEq α] (sep : α)

/-- The segments that are complete, without their separators. -/
def segments (text : List α) : List (List α) := (text.splitOn sep).dropLast

def remainder (text : List α) : List α := (text.splitOn sep).getLast (List.splitOn_ne_nil sep text)

variable {sep}

theorem segments_of_notMem {text : List α} (h : sep ∉ text) : segments sep text = [] := by
  rw [segments, List.splitOn_eq_singleton h]
  rfl

theorem remainder_of_notMem {text : List α} (h : sep ∉ text) : remainder sep text = text := by
  simp [remainder, List.splitOn_eq_singleton h]

theorem segments_cons (segment rest : List α) (h : sep ∉ segment) :
    segments sep (segment ++ sep :: rest) = segment :: segments sep rest := by
  rw [segments, List.splitOn_append_cons_self, List.splitOn_eq_singleton h, List.singleton_append,
    List.dropLast_cons_of_ne_nil (List.splitOn_ne_nil sep rest), segments]

theorem remainder_cons (segment rest : List α) (h : sep ∉ segment) :
    remainder sep (segment ++ sep :: rest) = remainder sep rest := by
  have hsplit : (segment ++ sep :: rest).splitOn sep = segment :: rest.splitOn sep := by
    rw [List.splitOn_append_cons_self, List.splitOn_eq_singleton h, List.singleton_append]
  simp only [remainder, hsplit]
  exact List.getLast_cons (List.splitOn_ne_nil sep rest)

variable (sep) in
/-- Either nothing is complete, or there is a first segment. -/
theorem first_segment (text : List α) : sep ∉ text ∨
    ∃ segment rest, sep ∉ segment ∧ text = segment ++ sep :: rest := by
  by_cases h : sep ∈ text
  · obtain ⟨segment, rest, rfl, hsegment⟩ := List.eq_append_cons_of_mem h
    exact Or.inr ⟨segment, rest, hsegment, rfl⟩
  · exact Or.inl h

variable (sep) in
/-- Induction along the segments of a text. -/
theorem segment_induction {P : List α → Prop} (hrest : ∀ text, sep ∉ text → P text)
    (hcons : ∀ segment rest, sep ∉ segment → P rest → P (segment ++ sep :: rest))
    (text : List α) : P text := by
  induction hlength : text.length using Nat.strongRecOn generalizing text with
  | _ n ih =>
      obtain h | ⟨segment, rest, hsegment, rfl⟩ := first_segment sep text
      · exact hrest text h
      · refine hcons segment rest hsegment (ih rest.length ?_ rest rfl)
        simp only [← hlength, List.length_append, List.length_cons]
        omega

theorem segments_append (text more : List α) :
    segments sep (text ++ more) =
      segments sep text ++ segments sep (remainder sep text ++ more) := by
  induction text using segment_induction sep with
  | hrest text h => rw [segments_of_notMem h, remainder_of_notMem h, List.nil_append]
  | hcons segment rest h ih =>
      rw [List.append_assoc, List.cons_append, segments_cons _ _ h, segments_cons _ _ h, ih,
        remainder_cons _ _ h, List.cons_append]

theorem remainder_append (text more : List α) :
    remainder sep (text ++ more) = remainder sep (remainder sep text ++ more) := by
  induction text using segment_induction sep with
  | hrest text h => rw [remainder_of_notMem h]
  | hcons segment rest h ih =>
      rw [List.append_assoc, List.cons_append, remainder_cons _ _ h, ih, remainder_cons _ _ h]

theorem sep_notMem_remainder (text : List α) : sep ∉ remainder sep text := by
  induction text using segment_induction sep with
  | hrest text h => rwa [remainder_of_notMem h]
  | hcons segment rest h ih => rwa [remainder_cons _ _ h]

variable (sep) in
/-- Nothing of the text is lost. -/
theorem segments_remainder (text : List α) :
    (segments sep text).flatMap (· ++ [sep]) ++ remainder sep text = text := by
  induction text using segment_induction sep with
  | hrest text h => rw [segments_of_notMem h, remainder_of_notMem h]; rfl
  | hcons segment rest h ih =>
      rw [segments_cons _ _ h, remainder_cons _ _ h, List.flatMap_cons, List.append_assoc, ih,
        List.append_assoc]
      rfl

/-- Anything but a separator is in a segment or in the remainder. -/
theorem mem_segments_or_remainder {text : List α} {a : α} (h : a ∈ text) (hne : a ≠ sep) :
    (∃ segment ∈ segments sep text, a ∈ segment) ∨ a ∈ remainder sep text := by
  rw [← segments_remainder sep text, List.mem_append, List.mem_flatMap] at h
  refine h.imp_left fun ⟨segment, hsegment, ha⟩ => ⟨segment, hsegment, ?_⟩
  simpa [hne] using ha

theorem sep_notMem_of_mem_segments {text segment : List α} (h : segment ∈ segments sep text) :
    sep ∉ segment := by
  induction text using segment_induction sep with
  | hrest text hno =>
      rw [segments_of_notMem hno] at h
      cases h
  | hcons first rest hfirst ih =>
      rw [segments_cons first rest hfirst] at h
      rcases List.mem_cons.mp h with rfl | h
      · exact hfirst
      · exact ih h

theorem mem_of_mem_segments {text segment : List α} {a : α} (hsegment : segment ∈ segments sep text)
    (h : a ∈ segment) : a ∈ text := by
  rw [← segments_remainder sep text]
  exact List.mem_append_left _ (List.mem_flatMap.mpr ⟨segment, hsegment, List.mem_append_left _ h⟩)

theorem mem_of_mem_remainder {text : List α} {a : α} (h : a ∈ remainder sep text) : a ∈ text := by
  rw [← segments_remainder sep text]
  exact List.mem_append_right _ h

end MockServices.Foundations
