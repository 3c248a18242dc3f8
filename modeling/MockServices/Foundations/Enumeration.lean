import Mathlib.Data.List.Basic

/-!
# Machines that give a list

A machine gives one output after the other. If each output shows the first
of the items that it has still to give, and the step drops it, then the
outputs show the items in their order, each once, and that there are no
more for ever after.
-/

namespace MockServices.Foundations

variable {S O P α : Type*}

def outputs (step : S → O × S) : ℕ → S → List O
  | 0, _ => []
  | n + 1, s => (step s).1 :: outputs step n (step s).2

/-- In a state that holds the items, the machine shows the first one, or
that there is none, to one who looks; and it holds the rest afterwards. -/
structure Gives (step : S → O × S) (look : O → P) (view : Option α → P)
    (holds : S → List α → Prop) : Prop where
  output : ∀ s items, holds s items → look (step s).1 = view items.head?
  next : ∀ s items, holds s items → holds (step s).2 items.tail

theorem Gives.outputs_eq {step : S → O × S} {look : O → P} {view : Option α → P}
    {holds : S → List α → Prop} (h : Gives step look view holds) (n : ℕ) {s : S} {items : List α}
    (hs : holds s items) :
    (outputs step n s).map look = (List.range n).map fun i => view items[i]? := by
  induction n generalizing s items with
  | zero => rfl
  | succ n ih =>
      rw [outputs, List.map_cons, h.output s items hs, ih (h.next s items hs),
        List.range_succ_eq_map, List.map_cons, List.map_map, List.head?_eq_getElem?]
      congr 1
      apply List.map_congr_left
      intro i _
      rw [List.getElem?_tail]
      rfl

end MockServices.Foundations
