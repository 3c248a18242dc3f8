import Mathlib.Data.List.Basic

/-!
# Programs that look into a buffer

A probe asks for the items at some indices, one after the other, and what
it asks for next may depend on what it has seen. At an index outside the
buffer it faults. A probe that stays below a bound on all of its paths
faults on no buffer of that size, and the items from the bound on do not
matter to it.
-/

namespace MockServices.Foundations

universe u

variable {α : Type*} {β γ : Type u}

inductive Probe (α β : Type*) where
  | done (answer : β)
  | look (index : ℕ) (next : α → Probe α β)

namespace Probe

def bind : Probe α β → (β → Probe α γ) → Probe α γ
  | .done b, f => f b
  | .look index next, f => .look index fun a => (next a).bind f

instance : Monad (Probe α) where
  pure := .done
  bind := bind

def item (index : ℕ) : Probe α α := .look index .done

/-- So many items from the offset on. -/
def span {α : Type u} (offset : ℕ) : ℕ → Probe α (List α)
  | 0 => pure []
  | length + 1 => do
      let first ← item offset
      let rest ← span (offset + 1) length
      return first :: rest

/-- The probe at work on a buffer. -/
def run : Probe α β → List α → Option β
  | .done b, _ => some b
  | .look index next, xs => xs[index]?.bind fun a => (next a).run xs

/-- The indices that the probe looks at, the one at which it faults included. -/
def reads : Probe α β → List α → List ℕ
  | .done _, _ => []
  | .look index next, xs => index :: xs[index]?.elim [] fun a => (next a).reads xs

/-- Whatever it sees, the probe looks at no index from `size` on. -/
def Inside (size : ℕ) : Probe α β → Prop
  | .done _ => True
  | .look index next => index < size ∧ ∀ a, (next a).Inside size

section Laws

variable {p : Probe α β} {size : ℕ} {xs ys : List α}

@[simp] theorem run_pure (b : β) (xs : List α) : (pure b : Probe α β).run xs = some b := rfl

theorem run_bind (p : Probe α β) (f : β → Probe α γ) (xs : List α) :
    (p >>= f).run xs = (p.run xs).bind fun b => (f b).run xs := by
  change (p.bind f).run xs = _
  induction p with
  | done b => rfl
  | look index next ih =>
      simp only [bind, run, Option.bind_assoc]
      exact Option.bind_congr fun a _ => ih a

theorem run_item {index : ℕ} (h : index < xs.length) : (item index).run xs = some xs[index] := by
  simp [item, run, h]

theorem run_span {α : Type u} {xs : List α} {offset length : ℕ} (h : offset + length ≤ xs.length) :
    (span offset length).run xs = some ((xs.drop offset).take length) := by
  induction length generalizing offset with
  | zero => rw [span, run_pure, List.take_zero]
  | succ length ih =>
      have hoffset : offset < xs.length := by omega
      rw [span, run_bind, run_item hoffset, Option.bind_some, run_bind, ih (by omega),
        Option.bind_some, run_pure, List.drop_eq_getElem_cons hoffset, List.take_succ_cons]

theorem inside_pure (b : β) : (pure b : Probe α β).Inside size := trivial

theorem Inside.bind {f : β → Probe α γ} (hp : p.Inside size) (hf : ∀ b, (f b).Inside size) :
    (p >>= f).Inside size := by
  change (p.bind f).Inside size
  induction p with
  | done b => exact hf b
  | look index next ih => exact ⟨hp.1, fun a => ih a (hp.2 a)⟩

theorem inside_item {index : ℕ} (h : index < size) : (item index : Probe α α).Inside size :=
  ⟨h, fun _ => trivial⟩

theorem inside_span {α : Type u} {offset length : ℕ} (h : offset + length ≤ size) :
    (span offset length : Probe α (List α)).Inside size := by
  induction length generalizing offset with
  | zero => exact inside_pure _
  | succ length ih =>
      have hitem : (item offset : Probe α α).Inside size := inside_item (by omega)
      exact hitem.bind fun first => (ih (by omega)).bind fun rest => inside_pure _

theorem Inside.ite {c : Prop} [Decidable c] {q : Probe α β} (hp : c → p.Inside size)
    (hq : ¬ c → q.Inside size) : (if c then p else q).Inside size := by
  split
  · next h => exact hp h
  · next h => exact hq h

theorem Inside.reads_lt (h : p.Inside size) (xs : List α) : ∀ index ∈ p.reads xs, index < size := by
  induction p with
  | done b => exact List.forall_mem_nil _
  | look index next ih =>
      refine List.forall_mem_cons.mpr ⟨h.1, ?_⟩
      cases xs[index]? with
      | none => exact List.forall_mem_nil _
      | some a => exact ih a (h.2 a)

/-- What stands from the bound on does not show. -/
theorem Inside.run_take (h : p.Inside size) (xs : List α) : p.run (xs.take size) = p.run xs := by
  induction p with
  | done b => rfl
  | look index next ih =>
      simp only [run, List.getElem?_take_of_lt h.1]
      exact Option.bind_congr fun a _ => ih a (h.2 a)

theorem Inside.run_congr (h : p.Inside size) (hagree : xs.take size = ys.take size) :
    p.run xs = p.run ys := by
  rw [← h.run_take xs, hagree, h.run_take]

end Laws

end Probe

end MockServices.Foundations
