import Mathlib.Data.List.Infix

/-!
# Paths of levels against patterns with two wildcards

A pattern is a list of levels in which one symbol stands for any single
level and another, at the end only, for any rest of the path, the empty
rest included. The relation is the least one closed under its four rules;
what the other cases come to is read off the constructors.
-/

namespace MockServices.Foundations

variable {α : Type*} {single multi : α}

inductive LevelMatches (single multi : α) : List α → List α → Prop
  | nil : LevelMatches single multi [] []
  | rest (path : List α) : LevelMatches single multi [multi] path
  | any {pattern path : List α} (level : α) (h : LevelMatches single multi pattern path) :
      LevelMatches single multi (single :: pattern) (level :: path)
  | same {pattern path : List α} {level : α} (hsingle : level ≠ single) (hmulti : level ≠ multi)
      (h : LevelMatches single multi pattern path) :
      LevelMatches single multi (level :: pattern) (level :: path)

namespace LevelMatches

/-- Nothing is left of a pattern only when nothing is left of the path. -/
theorem nil_left_iff {path : List α} : LevelMatches single multi [] path ↔ path = [] := by
  constructor
  · intro h
    cases h with
    | nil => rfl
  · rintro rfl
    exact nil

theorem nil_right_iff {level : α} {pattern : List α} :
    LevelMatches single multi (level :: pattern) [] ↔ level = multi ∧ pattern = [] := by
  constructor
  · intro h
    cases h with
    | rest => exact ⟨rfl, rfl⟩
  · rintro ⟨rfl, rfl⟩
    exact rest []

theorem multi_iff (hne : single ≠ multi) {pattern path : List α} :
    LevelMatches single multi (multi :: pattern) path ↔ pattern = [] := by
  constructor
  · intro h
    cases h with
    | rest => rfl
    | any => exact (hne rfl).elim
    | same _ hmulti => exact (hmulti rfl).elim
  · rintro rfl
    exact rest path

theorem single_iff (hne : single ≠ multi) {level : α} {pattern path : List α} :
    LevelMatches single multi (single :: pattern) (level :: path) ↔
      LevelMatches single multi pattern path := by
  constructor
  · intro h
    cases h with
    | rest => exact (hne rfl).elim
    | any _ h => exact h
    | same hsingle => exact (hsingle rfl).elim
  · exact any level

theorem literal_iff {level other : α} {pattern path : List α} (hsingle : level ≠ single)
    (hmulti : level ≠ multi) :
    LevelMatches single multi (level :: pattern) (other :: path) ↔
      level = other ∧ LevelMatches single multi pattern path := by
  constructor
  · intro h
    cases h with
    | rest => exact (hmulti rfl).elim
    | any => exact (hsingle rfl).elim
    | same _ _ h => exact ⟨rfl, h⟩
  · rintro ⟨rfl, h⟩
    exact same hsingle hmulti h

theorem notMem_dropLast_cons {level : α} {pattern : List α} (hlevel : level ≠ multi)
    (h : multi ∉ pattern.dropLast) : multi ∉ (level :: pattern).dropLast := by
  cases pattern with
  | nil => exact List.not_mem_nil
  | cons next pattern =>
      rw [List.dropLast_cons_cons, List.mem_cons, not_or]
      exact ⟨hlevel.symm, h⟩

/-- The wildcard for the rest of the path is never followed by a level. -/
theorem multi_last (hne : single ≠ multi) {pattern path : List α}
    (h : LevelMatches single multi pattern path) : multi ∉ pattern.dropLast := by
  induction h with
  | nil => exact List.not_mem_nil
  | rest => exact List.not_mem_nil
  | any _ _ ih => exact notMem_dropLast_cons hne ih
  | same _ hmulti _ ih => exact notMem_dropLast_cons hmulti ih

/-- A pattern without wildcards matches itself alone. -/
theorem iff_eq_of_literal {pattern : List α}
    (hliteral : ∀ level ∈ pattern, level ≠ single ∧ level ≠ multi) {path : List α} :
    LevelMatches single multi pattern path ↔ path = pattern := by
  induction pattern generalizing path with
  | nil => exact nil_left_iff
  | cons level pattern ih =>
      obtain ⟨⟨hsingle, hmulti⟩, hrest⟩ := List.forall_mem_cons.mp hliteral
      cases path with
      | nil =>
          rw [nil_right_iff]
          exact iff_of_false (fun h => hmulti h.1) (List.cons_ne_nil level pattern).symm
      | cons other path =>
          rw [literal_iff hsingle hmulti, ih hrest, List.cons_eq_cons, eq_comm]

end LevelMatches

end MockServices.Foundations
