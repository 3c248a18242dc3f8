import Mathlib.Data.Finset.Empty
import Mathlib.Data.Finset.Dedup
import Mathlib.Data.Finset.Lattice.Basic
import Mathlib.Data.List.Nodup
import Mathlib.Logic.Function.Basic

/-!
# Who holds which resource

Parties acquire resources that nobody has had, hold them and release them.
In a sound state a resource that is held is held once, by its owner, and
has not been released. A party that keeps and releases exactly what it
held and acquired leaves the state sound.
-/

namespace MockServices.Foundations

/-- `owner` remembers a resource for good, also once it is released. -/
structure Custody (Party Resource : Type*) where
  holds : Party → List Resource
  owner : Resource → Option Party
  released : Finset Resource

namespace Custody

variable {Party Resource : Type*}

structure Sound (c : Custody Party Resource) : Prop where
  once : ∀ party, (c.holds party).Nodup
  owned : ∀ party, ∀ r ∈ c.holds party, c.owner r = some party
  live : ∀ party, ∀ r ∈ c.holds party, r ∉ c.released
  known : ∀ r ∈ c.released, c.owner r ≠ none

theorem sound_empty : (⟨fun _ => [], fun _ => none, ∅⟩ : Custody Party Resource).Sound where
  once _ := List.nodup_nil
  owned _ _ hr := by cases hr
  live _ _ hr := by cases hr
  known _ hr := by simp at hr

section Exchange

variable [DecidableEq Party] [DecidableEq Resource] {c : Custody Party Resource} {party : Party}
  {acquired released kept : List Resource}

def exchange (c : Custody Party Resource) (party : Party) (acquired released kept : List Resource) :
    Custody Party Resource where
  holds := Function.update c.holds party kept
  owner := fun r => if r ∈ acquired then some party else c.owner r
  released := c.released ∪ released.toFinset

theorem holds_exchange_self : (c.exchange party acquired released kept).holds party = kept :=
  Function.update_self ..

theorem holds_exchange_of_ne {other : Party} (h : other ≠ party) :
    (c.exchange party acquired released kept).holds other = c.holds other :=
  Function.update_of_ne h ..

theorem mem_released_exchange {r : Resource} :
    r ∈ (c.exchange party acquired released kept).released ↔ r ∈ c.released ∨ r ∈ released := by
  simp [exchange]

theorem owner_exchange (h : c.Sound) {r : Resource} (hr : r ∈ c.holds party ∨ r ∈ acquired) :
    (c.exchange party acquired released kept).owner r = some party := by
  dsimp only [exchange]
  split
  · rfl
  · next hacquired => exact h.owned party r (hr.resolve_right hacquired)

omit [DecidableEq Party] [DecidableEq Resource] in
theorem Sound.nodup_acquire (h : c.Sound) (hfresh : ∀ r ∈ acquired, c.owner r = none)
    (honce : acquired.Nodup) : (c.holds party ++ acquired).Nodup := by
  refine List.nodup_append.mpr ⟨h.once party, honce, ?_⟩
  rintro r hr _ hacquired rfl
  exact absurd (h.owned party r hr) (by simp [hfresh r hacquired])

omit [DecidableEq Party] [DecidableEq Resource] in
/-- What is released is released once, and has not been released before. -/
theorem Sound.released_once (h : c.Sound)
    (hbalance : (kept ++ released).Perm (c.holds party ++ acquired))
    (hfresh : ∀ r ∈ acquired, c.owner r = none) (honce : acquired.Nodup) :
    released.Nodup ∧ ∀ r ∈ released, r ∉ c.released := by
  have hnodup := hbalance.nodup_iff.mpr (h.nodup_acquire hfresh honce)
  refine ⟨(List.nodup_append.mp hnodup).2.1, fun r hr hbefore => ?_⟩
  rcases List.mem_append.mp (hbalance.subset (List.mem_append_right _ hr)) with hheld | hacquired
  · exact h.live party r hheld hbefore
  · exact h.known r hbefore (hfresh r hacquired)

theorem Sound.exchange (h : c.Sound)
    (hbalance : (kept ++ released).Perm (c.holds party ++ acquired))
    (hfresh : ∀ r ∈ acquired, c.owner r = none) (honce : acquired.Nodup) :
    (c.exchange party acquired released kept).Sound := by
  have hbefore : (c.holds party ++ acquired).Nodup := h.nodup_acquire hfresh honce
  obtain ⟨hkept, -, hdisjoint⟩ := List.nodup_append.mp (hbalance.nodup_iff.mpr hbefore)
  have hmem : ∀ r, r ∈ kept ∨ r ∈ released ↔ r ∈ c.holds party ∨ r ∈ acquired := by
    intro r
    rw [← List.mem_append, ← List.mem_append]
    exact hbalance.mem_iff
  -- What somebody else holds is neither acquired nor released here.
  have helse : ∀ other, other ≠ party → ∀ r ∈ c.holds other, r ∉ acquired ∧ r ∉ released := by
    intro other hother r hr
    have howner := h.owned other r hr
    have hacquired : r ∉ acquired := fun hacquired => by simp [hfresh r hacquired] at howner
    refine ⟨hacquired, fun hreleased => hother ?_⟩
    have hparty := ((hmem r).mp (Or.inr hreleased)).resolve_right hacquired
    exact Option.some.inj (howner.symm.trans (h.owned party r hparty))
  refine ⟨fun other => ?_, fun other r hr => ?_, fun other r hr hreleased => ?_, fun r hr => ?_⟩
  · by_cases hother : other = party
    · subst hother
      rwa [holds_exchange_self]
    · rw [holds_exchange_of_ne hother]
      exact h.once other
  · by_cases hother : other = party
    · subst hother
      rw [holds_exchange_self] at hr
      exact owner_exchange h ((hmem r).mp (Or.inl hr))
    · rw [holds_exchange_of_ne hother] at hr
      simpa [Custody.exchange, (helse other hother r hr).1] using h.owned other r hr
  · rw [mem_released_exchange] at hreleased
    by_cases hother : other = party
    · subst hother
      rw [holds_exchange_self] at hr
      rcases hreleased with hreleased | hreleased
      · rcases (hmem r).mp (Or.inl hr) with hheld | hacquired
        · exact h.live other r hheld hreleased
        · exact h.known r hreleased (hfresh r hacquired)
      · exact hdisjoint r hr r hreleased rfl
    · rw [holds_exchange_of_ne hother] at hr
      rcases hreleased with hreleased | hreleased
      · exact h.live other r hr hreleased
      · exact (helse other hother r hr).2 hreleased
  · rw [mem_released_exchange] at hr
    rcases hr with hr | hr
    · dsimp only [Custody.exchange]
      split
      · simp
      · exact h.known r hr
    · rw [owner_exchange h ((hmem r).mp (Or.inr hr))]
      simp

end Exchange

/-- What several parties hold is different. -/
theorem Sound.nodup_flatMap {c : Custody Party Resource} (h : c.Sound) {parties : List Party}
    (hparties : parties.Nodup) {given : Party → List Resource}
    (hheld : ∀ party, (given party).Sublist (c.holds party)) :
    (parties.flatMap given).Nodup := by
  refine List.nodup_flatMap.mpr ⟨fun party _ => (h.once party).sublist (hheld party), ?_⟩
  refine hparties.imp fun hne r hr hr' => hne ?_
  exact Option.some.inj ((h.owned _ r ((hheld _).subset hr)).symm.trans
    (h.owned _ r ((hheld _).subset hr')))

/-- Any number of parties release some of what they hold at once. -/
theorem Sound.release {c d : Custody Party Resource} (h : c.Sound) (howner : d.owner = c.owner)
    (hholds : ∀ party, (d.holds party).Sublist (c.holds party))
    (hreleased : ∀ r ∈ d.released, r ∈ c.released ∨
      ∃ party, r ∈ c.holds party ∧ r ∉ d.holds party) : d.Sound where
  once party := (h.once party).sublist (hholds party)
  owned party r hr := by
    rw [howner]
    exact h.owned party r ((hholds party).subset hr)
  live party r hr hr' := by
    have hheld := (hholds party).subset hr
    rcases hreleased r hr' with hbefore | ⟨other, hother, hgone⟩
    · exact h.live party r hheld hbefore
    · have hsame := (h.owned party r hheld).symm.trans (h.owned other r hother)
      exact hgone (Option.some.inj hsame ▸ hr)
  known r hr := by
    rw [howner]
    rcases hreleased r hr with hbefore | ⟨other, hother, -⟩
    · exact h.known r hbefore
    · simp [h.owned other r hother]

end Custody

end MockServices.Foundations
