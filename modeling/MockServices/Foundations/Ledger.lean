import Mathlib.Data.List.Perm.Basic
import Mathlib.Data.List.ReduceOption
import Mathlib.Data.Multiset.AddSub
import MockServices.Foundations.Program

/-!
# Ledgers of what a world holds

A ledger tells which items a world holds, and which of them an event
brings in and takes out. Events balance when what was held and came in is
what went out and is held afterwards. Calls that balance one by one make
programs that balance.
-/

namespace MockServices.Foundations

section Entries

variable {α β : Type}

/-- What the entries of a list hold, each at its own index. -/
def itemsOf (item : ℕ → α → Option β) (entries : List α) : Multiset β :=
  ((entries.mapIdx item).reduceOption : List β)

variable (item : ℕ → α → Option β) {entries : List α}

theorem itemsOf_concat (entry : α) :
    itemsOf item (entries ++ [entry]) =
      itemsOf item entries + ((item entries.length entry).toList : List β) := by
  rw [itemsOf, List.mapIdx_append, List.reduceOption_append, ← Multiset.coe_add]
  cases h : item entries.length entry <;> simp [itemsOf, h, List.reduceOption]

theorem mem_itemsOf {item : ℕ → α → Option β} {b : β} :
    b ∈ itemsOf item entries ↔ ∃ i entry, entries[i]? = some entry ∧ item i entry = some b := by
  rw [itemsOf, Multiset.mem_coe, List.reduceOption_mem_iff, List.mem_iff_getElem?]
  simp [Option.map_eq_some_iff]

/-- One entry gives up its item for another. -/
theorem itemsOf_set {i : ℕ} {entry : α} (h : entries[i]? = some entry) (entry' : α) :
    itemsOf item entries + ((item i entry').toList : List β) =
      ((item i entry).toList : List β) + itemsOf item (entries.set i entry') := by
  obtain ⟨hi, hget⟩ := List.getElem?_eq_some_iff.mp h
  have hlength : i < (entries.mapIdx item).length := by simpa using hi
  have hitem : (entries.mapIdx item)[i] = item i entry := by simp [hget]
  have hreduce : ∀ xs : List (Option β), ∀ x : Option β,
      (x :: xs).reduceOption = x.toList ++ xs.reduceOption := by
    intro xs x
    cases x <;> simp
  -- Both sides are the two items and what the other entries hold.
  have hbefore := (List.getElem_cons_eraseIdx_perm hlength).filterMap id
  have hafter := (List.set_perm_cons_eraseIdx hlength (item i entry')).filterMap id
  rw [hitem] at hbefore
  have hfirst : itemsOf item entries =
      ((item i entry).toList : List β) +
        (((entries.mapIdx item).eraseIdx i).reduceOption : List β) := by
    rw [Multiset.coe_add, ← hreduce]
    exact Multiset.coe_eq_coe.mpr hbefore.symm
  have hsecond : itemsOf item (entries.set i entry') =
      ((item i entry').toList : List β) +
        (((entries.mapIdx item).eraseIdx i).reduceOption : List β) := by
    rw [Multiset.coe_add, ← hreduce, itemsOf, List.mapIdx_set]
    exact Multiset.coe_eq_coe.mpr hafter
  rw [hfirst, hsecond, Multiset.add_assoc, Multiset.add_comm ((item i entry').toList : Multiset β)]

end Entries

variable {Call : Type} {Answer : Call → Type} {ω ε ι α : Type}

structure Ledger (Answer : Call → Type) (ω ι : Type) where
  held : ω → Multiset ι
  gained : Event Answer → List ι
  lost : Event Answer → List ι

namespace Ledger

variable (L : Ledger Answer ω ι)

def gains (events : List (Event Answer)) : List ι := events.flatMap L.gained

def losses (events : List (Event Answer)) : List ι := events.flatMap L.lost

/-- What was held and came in is what went out and is held. -/
def Balances (w : ω) (events : List (Event Answer)) (w' : ω) : Prop :=
  L.held w + L.gains events = L.losses events + L.held w'

variable {L} {w w' w'' : ω} {events events' : List (Event Answer)}

@[simp] theorem gains_append : L.gains (events ++ events') = L.gains events ++ L.gains events' :=
  List.flatMap_append

@[simp] theorem losses_append :
    L.losses (events ++ events') = L.losses events ++ L.losses events' :=
  List.flatMap_append

theorem balances_of_held_eq (h : L.held w' = L.held w) (hgains : L.gains events = [])
    (hlosses : L.losses events = []) : L.Balances w events w' := by
  simp [Balances, h, hgains, hlosses]

theorem balances_nil (w : ω) : L.Balances w [] w := balances_of_held_eq rfl rfl rfl

theorem Balances.trans (h : L.Balances w events w') (h' : L.Balances w' events' w'') :
    L.Balances w (events ++ events') w'' := by
  unfold Balances at h h' ⊢
  rw [gains_append, losses_append, ← Multiset.coe_add, ← Multiset.coe_add, ← Multiset.add_assoc, h,
    Multiset.add_assoc, h', Multiset.add_assoc]

/-- Guaranteed calls that balance one by one. -/
theorem balances_execute {perform : ω → (c : Call) → Except ε (Answer c × ω)}
    {guar : Call → Prop} {post : α → Prop}
    (hcall : ∀ w c answer w', guar c → perform w c = .ok (answer, w') →
      L.Balances w [⟨c, answer⟩] w')
    {p : Program Call Answer α} (hp : p.Ensures (fun _ _ => True) guar post) (w : ω) :
    L.Balances w (p.execute perform w).events (p.execute perform w).world := by
  induction p generalizing w with
  | done a => exact balances_nil w
  | call c next ih =>
      cases hc : perform w c with
      | error e =>
          rw [Program.execute_call_error next hc]
          exact balances_nil w
      | ok result =>
          obtain ⟨answer, w'⟩ := result
          rw [Program.execute_call_ok next hc]
          exact (hcall w c answer w' hp.1 hc).trans (ih answer (hp.2 answer trivial) w')

end Ledger

end MockServices.Foundations
