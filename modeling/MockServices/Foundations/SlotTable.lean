import Mathlib.Data.Fintype.Card
import Mathlib.Data.List.FinRange
import Mathlib.Logic.Function.Basic

/-!
# Tables of slots

A table has a fixed number of slots, each free or holding an item. An
item is put into a free slot; which one is left to a choice that fails
only when the table is full.
-/

namespace MockServices.Foundations

variable {n : ℕ} {α : Type}

abbrev SlotTable (n : ℕ) (α : Type) := Fin n → Option α

structure SlotChoice (n : ℕ) (α : Type) where
  choose : SlotTable n α → Option (Fin n)
  free : ∀ t s, choose t = some s → t s = none
  full : ∀ t, choose t = none → ∀ s, t s ≠ none

/-- The free slot with the least index. -/
def SlotChoice.first (n : ℕ) (α : Type) : SlotChoice n α where
  choose t := (List.finRange n).find? fun s => (t s).isNone
  free t s h := by simpa using List.find?_some h
  full t h s hs := by
    have hnone := List.find?_eq_none.mp h s (List.mem_finRange s)
    simp [hs] at hnone

namespace SlotTable

def put (t : SlotTable n α) (s : Fin n) (a : α) : SlotTable n α := Function.update t s (some a)

def occupied (t : SlotTable n α) : Finset (Fin n) := Finset.univ.filter fun s => (t s).isSome

@[simp] theorem put_self (t : SlotTable n α) (s : Fin n) (a : α) : t.put s a s = some a :=
  Function.update_self s _ t

theorem put_of_ne {t : SlotTable n α} {s s' : Fin n} (h : s' ≠ s) (a : α) : t.put s a s' = t s' :=
  Function.update_of_ne h _ t

theorem put_eq_some_iff {t : SlotTable n α} {s s' : Fin n} {a b : α} :
    t.put s a s' = some b ↔ s' = s ∧ a = b ∨ s' ≠ s ∧ t s' = some b := by
  by_cases h : s' = s
  · subst h
    simp
  · simp [put_of_ne h, h]

theorem mem_occupied {t : SlotTable n α} {s : Fin n} : s ∈ t.occupied ↔ t s ≠ none := by
  simp [occupied, Option.isSome_iff_ne_none]

theorem occupied_put (t : SlotTable n α) (s : Fin n) (a : α) :
    (t.put s a).occupied = insert s t.occupied := by
  ext s'
  by_cases h : s' = s
  · subst h
    simp [mem_occupied]
  · simp [mem_occupied, put_of_ne h, h]

/-- Taking a free slot occupies one more. -/
theorem card_occupied_put {t : SlotTable n α} {s : Fin n} (h : t s = none) (a : α) :
    (t.put s a).occupied.card = t.occupied.card + 1 := by
  rw [occupied_put, Finset.card_insert_of_notMem]
  simpa [mem_occupied] using h

theorem card_occupied_of_full {t : SlotTable n α} (h : ∀ s, t s ≠ none) : t.occupied.card = n := by
  have huniv : t.occupied = Finset.univ := by
    ext s
    simp [mem_occupied, h s]
  rw [huniv, Finset.card_univ, Fintype.card_fin]

end SlotTable

end MockServices.Foundations
