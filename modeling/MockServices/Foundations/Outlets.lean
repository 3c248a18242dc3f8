import Mathlib.Data.List.Infix
import Mathlib.Logic.Function.Basic

/-!
# Packets written in parts

Several writers hand packets over to channels. A packet may take more
than one write, and the next write of a writer goes on with what its last
one has left of a packet. As long as a packet is begun only on a channel
that has all of its packets whole, and is gone on with on the channel it
was begun on, every channel carries its packets one after the other.
-/

namespace MockServices.Foundations

/-- What has been written to a channel, and the packets this has begun. -/
structure Outlet (α : Type*) where
  written : List α := []
  begun : List (List α) := []

namespace Outlet

variable {α : Type*} (o : Outlet α)

/-- Every packet that was begun is there whole. -/
def Complete : Prop := o.written = o.begun.flatten

/-- The packets begun are there one after the other, whole but for the
last one, of which there may be the beginning alone. -/
def Framed : Prop := o.begun.dropLast.flatten <+: o.written ∧ o.written <+: o.begun.flatten

instance [DecidableEq α] : Decidable o.Complete := inferInstanceAs (Decidable (_ = _))

instance [DecidableEq α] : Decidable o.Framed := inferInstanceAs (Decidable (_ ∧ _))

variable {o}

theorem Complete.framed (h : o.Complete) : o.Framed := by
  unfold Framed
  rw [h]
  exact ⟨(List.dropLast_prefix _).flatten, List.prefix_rfl⟩

end Outlet

/-- `progress` is what a writer has left of the packet it is writing, and
the channel that its last write went to. -/
structure Outlets (Writer Channel α : Type*) where
  progress : Writer → Option (Channel × List α) := fun _ => none
  outlet : Channel → Outlet α := fun _ => {}

namespace Outlets

variable {Writer Channel α : Type*}

/-- What the next write of the writer is given of its packet. -/
def offered (s : Outlets Writer Channel α) (writer : Writer) (packet : List α) : List α :=
  match s.progress writer with
  | none => packet
  | some (_, left) => left

/-- The write begins a packet on a channel that has all of its packets
whole, or goes on where the last one stopped. -/
def Orderly (s : Outlets Writer Channel α) (writer : Writer) (channel : Channel) : Prop :=
  match s.progress writer with
  | none => (s.outlet channel).Complete
  | some (last, _) => last = channel

instance [DecidableEq Channel] [DecidableEq α] (s : Outlets Writer Channel α) (writer : Writer)
    (channel : Channel) : Decidable (s.Orderly writer channel) := by
  unfold Orderly
  split <;> infer_instance

/-- Every channel carries its packets one after the other, and what a
writer has left completes the channel it writes to. -/
structure Woven (s : Outlets Writer Channel α) : Prop where
  framed : ∀ channel, (s.outlet channel).Framed
  left : ∀ writer channel rest, s.progress writer = some (channel, rest) → rest ≠ [] ∧
    (s.outlet channel).written ++ rest = (s.outlet channel).begun.flatten
  alone : ∀ writer writer' channel rest rest', s.progress writer = some (channel, rest) →
    s.progress writer' = some (channel, rest') → writer = writer'

theorem woven_empty : Woven ({} : Outlets Writer Channel α) where
  framed _ := Outlet.Complete.framed rfl
  left _ _ _ h := by cases h
  alone _ _ _ _ _ h := by cases h

section Writing

variable [DecidableEq Writer] [DecidableEq Channel] {s : Outlets Writer Channel α}
  {writer : Writer} {channel : Channel} {packet : List α} {count : ℕ}

/-- A write that takes the first `count` of what it is given. -/
def write (s : Outlets Writer Channel α) (writer : Writer) (channel : Channel) (packet : List α)
    (count : ℕ) : Outlets Writer Channel α where
  progress := Function.update s.progress writer
    (if count < (s.offered writer packet).length then
      some (channel, (s.offered writer packet).drop count)
    else none)
  outlet := Function.update s.outlet channel
    { written := (s.outlet channel).written ++ (s.offered writer packet).take count
      begun := (s.outlet channel).begun ++ if (s.progress writer).isNone then [packet] else [] }

/-- The writer goes on without the rest of its packet. -/
def giveUp (s : Outlets Writer Channel α) (writer : Writer) : Outlets Writer Channel α :=
  { s with progress := Function.update s.progress writer none }

omit [DecidableEq Channel] in
theorem giveUp_progress (other : Writer) :
    (s.giveUp writer).progress other = if other = writer then none else s.progress other :=
  Function.update_apply ..

theorem write_progress (other : Writer) : (s.write writer channel packet count).progress other =
    if other = writer then
      if count < (s.offered writer packet).length then
        some (channel, (s.offered writer packet).drop count)
      else none
    else s.progress other := Function.update_apply ..

theorem write_outlet_self : (s.write writer channel packet count).outlet channel =
    { written := (s.outlet channel).written ++ (s.offered writer packet).take count
      begun := (s.outlet channel).begun ++ if (s.progress writer).isNone then [packet] else [] } :=
  Function.update_self ..

theorem write_outlet_of_ne {other : Channel} (h : other ≠ channel) :
    (s.write writer channel packet count).outlet other = s.outlet other :=
  Function.update_of_ne h ..

omit [DecidableEq Channel] in
theorem Woven.giveUp (h : s.Woven) : (s.giveUp writer).Woven := by
  have hbefore : ∀ {other channel rest}, (s.giveUp writer).progress other = some (channel, rest) →
      s.progress other = some (channel, rest) := by
    intro other channel rest hrest
    rw [giveUp_progress] at hrest
    exact (Option.ite_none_left_eq_some.mp hrest).2
  exact ⟨h.framed, fun _ _ _ hrest => h.left _ _ _ (hbefore hrest),
    fun _ _ _ _ _ hrest hrest' => h.alone _ _ _ _ _ (hbefore hrest) (hbefore hrest')⟩

omit [DecidableEq Writer] [DecidableEq Channel] in
/-- Before an orderly write nobody else is in the middle of a packet on the channel. -/
theorem Woven.alone_of_orderly (h : s.Woven) (horderly : s.Orderly writer channel) {other : Writer}
    {rest : List α} (hother : s.progress other = some (channel, rest)) : other = writer := by
  unfold Orderly at horderly
  split at horderly
  · obtain ⟨hne, hleft⟩ := h.left other channel rest hother
    rw [← horderly] at hleft
    exact absurd (List.append_right_eq_self.mp hleft) hne
  · next last left hprogress =>
      subst horderly
      exact h.alone _ _ _ _ _ hother hprogress

omit [DecidableEq Writer] [DecidableEq Channel] in
/-- What an orderly write is given completes the packets begun. -/
theorem Woven.written_offered (h : s.Woven) (horderly : s.Orderly writer channel)
    (packet : List α) :
    (s.outlet channel).written ++ s.offered writer packet =
      ((s.outlet channel).begun ++
        if (s.progress writer).isNone then [packet] else []).flatten := by
  unfold Orderly at horderly
  unfold offered
  split at horderly
  · next hprogress =>
      have hwhole : (s.outlet channel).written = (s.outlet channel).begun.flatten := horderly
      simp [hprogress, hwhole]
  · next last left hprogress =>
      subst horderly
      simp [hprogress, (h.left _ _ _ hprogress).2]

omit [DecidableEq Writer] [DecidableEq Channel] in
/-- All packets but the one in the works are there whole. -/
theorem Woven.whole_prefix (h : s.Woven) (horderly : s.Orderly writer channel) (packet : List α) :
    ((s.outlet channel).begun ++ if (s.progress writer).isNone then [packet]
      else []).dropLast.flatten <+: (s.outlet channel).written := by
  unfold Orderly at horderly
  split at horderly
  · next hprogress =>
      have hwhole : (s.outlet channel).written = (s.outlet channel).begun.flatten := horderly
      simp [hprogress, hwhole]
  · next last left hprogress =>
      simpa [hprogress] using (h.framed channel).1

/-- The step lemma: an orderly write keeps the channels woven. -/
theorem Woven.write (h : s.Woven) (horderly : s.Orderly writer channel) (packet : List α)
    (count : ℕ) : (s.write writer channel packet count).Woven where
  framed other := by
    by_cases hother : other = channel
    · subst hother
      rw [write_outlet_self]
      refine ⟨(h.whole_prefix horderly packet).trans (List.prefix_append _ _), ?_⟩
      rw [← h.written_offered horderly packet]
      exact List.prefix_append_right_inj _ |>.mpr (List.take_prefix _ _)
    · rw [write_outlet_of_ne hother]
      exact h.framed other
  left other channel' rest hrest := by
    rw [write_progress] at hrest
    split at hrest
    · obtain ⟨hcount, heq⟩ := Option.ite_none_right_eq_some.mp hrest
      cases heq
      refine ⟨List.ne_nil_of_length_pos (by simpa [Nat.sub_pos_iff_lt] using hcount), ?_⟩
      rw [write_outlet_self, ← h.written_offered horderly packet, List.append_assoc,
        List.take_append_drop]
    · next hne =>
        have hchannel : channel' ≠ channel := by
          rintro rfl
          exact hne (h.alone_of_orderly horderly hrest)
        rw [write_outlet_of_ne hchannel]
        exact h.left other channel' rest hrest
  alone other other' channel' rest rest' hrest hrest' := by
    have hself : ∀ {other rest}, (s.write writer channel packet count).progress other =
        some (channel, rest) → other = writer := by
      intro other rest hrest
      rw [write_progress] at hrest
      split at hrest
      · next heq => exact heq
      · exact h.alone_of_orderly horderly hrest
    by_cases hchannel : channel' = channel
    · subst hchannel
      exact (hself hrest).trans (hself hrest').symm
    · have hbefore : ∀ {other rest}, (s.write writer channel packet count).progress other =
          some (channel', rest) → s.progress other = some (channel', rest) := by
        intro other rest hrest
        rw [write_progress] at hrest
        split at hrest
        · obtain ⟨-, heq⟩ := Option.ite_none_right_eq_some.mp hrest
          exact absurd (Prod.mk.inj (Option.some.inj heq)).1.symm hchannel
        · exact hrest
      exact h.alone _ _ _ _ _ (hbefore hrest) (hbefore hrest')

end Writing

end Outlets

end MockServices.Foundations
