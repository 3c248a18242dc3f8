import Mathlib.Data.List.Nodup

/-!
# Items that come in and go out

Items are numbered as they come in. The turnover is sound when those that
are held and those that have gone are all that have come in, each one once.
-/

namespace MockServices.Foundations

def Conserved (issued : ℕ) (held gone : List ℕ) : Prop := (held ++ gone).Perm (List.range issued)

namespace Conserved

variable {issued item : ℕ} {held kept gone left : List ℕ}

theorem zero : Conserved 0 [] [] := List.Perm.refl []

theorem issue (h : Conserved issued held gone) :
    Conserved (issued + 1) (held ++ [issued]) gone := by
  have hmove : (held ++ [issued] ++ gone).Perm (held ++ gone ++ [issued]) := by
    rw [List.append_assoc, List.append_assoc]
    exact List.perm_append_comm.append_left held
  unfold Conserved
  rw [List.range_succ]
  exact hmove.trans (h.append_right [issued])

/-- Some of what is held goes out. -/
theorem leave (h : Conserved issued held gone) (hleave : (kept ++ left).Perm held) :
    Conserved issued kept (gone ++ left) := by
  have hmove : (kept ++ (gone ++ left)).Perm (kept ++ left ++ gone) := by
    rw [List.append_assoc]
    exact List.perm_append_comm.append_left kept
  exact (hmove.trans (hleave.append_right gone)).trans h

/-- An item is held, or it has gone once. -/
theorem held_or_gone (h : Conserved issued held gone) (hitem : item < issued) :
    (item ∈ held ∧ gone.count item = 0) ∨ (item ∉ held ∧ gone.count item = 1) := by
  have hcount : held.count item + gone.count item = 1 := by
    rw [← List.count_append, h.count_eq item]
    exact List.count_eq_one_of_mem List.nodup_range (List.mem_range.mpr hitem)
  by_cases hheld : item ∈ held
  · have hpos := List.count_pos_iff.mpr hheld
    exact Or.inl ⟨hheld, by omega⟩
  · have hzero := List.count_eq_zero.mpr hheld
    exact Or.inr ⟨hheld, by omega⟩

end Conserved

end MockServices.Foundations
