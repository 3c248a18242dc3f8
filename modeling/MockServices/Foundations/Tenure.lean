import Mathlib.Data.List.Nodup
import Mathlib.Data.Set.Insert
import Mathlib.Order.BooleanAlgebra.Set
import Mathlib.Logic.Function.Basic

/-!
# Addresses that are used again

What is issued gets the next number and an address that nobody has at the
moment. The parties keep what was issued to them, hand it on and end it,
and an address that was ended may be issued again. A register that is
keyed by address says of every tenant what is on record for its number, as
long as the entry is struck off before the tenancy ends.
-/

namespace MockServices.Foundations

/-- The number tells apart two leases of one address. -/
structure Lease (Address : Type*) where
  number : ℕ
  address : Address
  deriving DecidableEq

/-- A party has at most one lease, and has it in some rank. -/
structure Tenure (Party Address Rank : Type*) where
  seat : Party → Option (Lease Address × Rank)
  issued : ℕ
  ended : List ℕ

namespace Tenure

variable {Party Address Rank : Type*}

structure Sound (t : Tenure Party Address Rank) : Prop where
  apart : ∀ p q a r b r', t.seat p = some (a, r) → t.seat q = some (b, r') →
    a.address = b.address ∨ a.number = b.number → p = q
  accounted : ∀ n, n < t.issued ↔ n ∈ t.ended ∨ ∃ p a r, t.seat p = some (a, r) ∧ a.number = n
  once : t.ended.Nodup
  live : ∀ p a r, t.seat p = some (a, r) → a.number ∉ t.ended

/-- The leases that somebody has in a rank of the kind. -/
def leases (t : Tenure Party Address Rank) (kind : Rank → Prop) : Set (Lease Address) :=
  {a | ∃ p r, t.seat p = some (a, r) ∧ kind r}

def Vacant (t : Tenure Party Address Rank) (address : Address) : Prop :=
  ∀ p a r, t.seat p = some (a, r) → a.address ≠ address

variable {t : Tenure Party Address Rank} {p q : Party} {a b : Lease Address} {r r' : Rank}
  {kind : Rank → Prop}

theorem Sound.number_lt (h : t.Sound) (hseat : t.seat p = some (a, r)) : a.number < t.issued :=
  (h.accounted a.number).mpr (.inr ⟨p, a, r, hseat, rfl⟩)

/-- A lease is known by its address, and by its number. -/
theorem Sound.eq_of_seat (h : t.Sound) (ha : a ∈ t.leases kind) (hseat : t.seat p = some (b, r))
    (hsame : a.address = b.address ∨ a.number = b.number) : a = b := by
  obtain ⟨q, r', hq, -⟩ := ha
  obtain rfl := h.apart q p a r' b r hq hseat hsame
  exact congrArg Prod.fst (Option.some.inj (hq.symm.trans hseat))

section Changes

variable [DecidableEq Party]

def issue (t : Tenure Party Address Rank) (party : Party) (address : Address) (rank : Rank) :
    Tenure Party Address Rank where
  seat := Function.update t.seat party (some (⟨t.issued, address⟩, rank))
  issued := t.issued + 1
  ended := t.ended

/-- The party keeps its lease in another rank. -/
def rerank (t : Tenure Party Address Rank) (party : Party) (rank : Rank) :
    Tenure Party Address Rank :=
  { t with seat := Function.update t.seat party ((t.seat party).map fun s => (s.1, rank)) }

def handOver (t : Tenure Party Address Rank) (giver taker : Party) (rank : Rank) :
    Tenure Party Address Rank :=
  { t with
    seat := Function.update (Function.update t.seat giver none) taker
      ((t.seat giver).map fun s => (s.1, rank)) }

def finish (t : Tenure Party Address Rank) (party : Party) : Tenure Party Address Rank where
  seat := Function.update t.seat party none
  issued := t.issued
  ended := t.ended ++ ((t.seat party).map fun s => s.1.number).toList

/-- Who has what after a change at one party. -/
theorem update_eq_some_iff {seat : Party → Option (Lease Address × Rank)}
    {entry : Option (Lease Address × Rank)} {s : Lease Address × Rank} :
    Function.update seat p entry q = some s ↔
      q = p ∧ entry = some s ∨ q ≠ p ∧ seat q = some s := by
  by_cases h : q = p
  · subst h
    simp
  · simp [h]

theorem Sound.issue (h : t.Sound) (hfree : t.seat p = none) {address : Address}
    (hvacant : t.Vacant address) (rank : Rank) : (t.issue p address rank).Sound where
  apart q q' a r b r' hq hq' hsame := by
    rcases update_eq_some_iff.mp hq with ⟨hp, ha⟩ | ⟨-, hold⟩ <;>
      rcases update_eq_some_iff.mp hq' with ⟨hp', hb⟩ | ⟨-, hold'⟩
    · exact hp.trans hp'.symm
    · cases ha
      rcases hsame with haddress | hnumber
      · exact absurd haddress.symm (hvacant q' b r' hold')
      · exact absurd hnumber.symm (Nat.ne_of_lt (h.number_lt hold'))
    · cases hb
      rcases hsame with haddress | hnumber
      · exact absurd haddress (hvacant q a r hold)
      · exact absurd hnumber (Nat.ne_of_lt (h.number_lt hold))
    · exact h.apart q q' a r b r' hold hold' hsame
  accounted n := by
    change n < t.issued + 1 ↔ _
    rw [Nat.lt_succ_iff_lt_or_eq, h.accounted n, or_assoc]
    refine or_congr_right ⟨?_, ?_⟩
    · rintro (⟨q, a, r, hseat, hnumber⟩ | rfl)
      · have hq : q ≠ p := by
          rintro rfl
          simp [hfree] at hseat
        exact ⟨q, a, r, update_eq_some_iff.mpr (.inr ⟨hq, hseat⟩), hnumber⟩
      · exact ⟨p, _, rank, update_eq_some_iff.mpr (.inl ⟨rfl, rfl⟩), rfl⟩
    · rintro ⟨q, a, r, hseat, rfl⟩
      rcases update_eq_some_iff.mp hseat with ⟨-, ha⟩ | ⟨-, hseat⟩
      · cases ha
        exact .inr rfl
      · exact .inl ⟨q, a, r, hseat, rfl⟩
  once := h.once
  live q a r hseat hended := by
    rcases update_eq_some_iff.mp hseat with ⟨-, ha⟩ | ⟨-, hseat⟩
    · cases ha
      exact absurd ((h.accounted t.issued).mpr (.inl hended)) (Nat.lt_irrefl _)
    · exact h.live q a r hseat hended

omit [DecidableEq Party] in
/-- What changes hands changes neither its number nor its address. -/
theorem Sound.reseat (h : t.Sound) {u : Tenure Party Address Rank} (from_ : Party → Party)
    (hissued : u.issued = t.issued) (hended : u.ended = t.ended)
    (hseat : ∀ q a r, u.seat q = some (a, r) → ∃ r', t.seat (from_ q) = some (a, r'))
    (hfrom : ∀ q q', from_ q = from_ q' → (u.seat q).isSome → (u.seat q').isSome → q = q')
    (hkept : ∀ q a r, t.seat q = some (a, r) → ∃ q' r', u.seat q' = some (a, r')) : u.Sound where
  apart q q' a r b r' hq hq' hsame := by
    obtain ⟨s, hs⟩ := hseat q a r hq
    obtain ⟨s', hs'⟩ := hseat q' b r' hq'
    refine hfrom q q' (h.apart _ _ a s b s' hs hs' hsame) ?_ ?_
    · simp [hq]
    · simp [hq']
  accounted n := by
    rw [hissued, hended, h.accounted n]
    refine or_congr_right ⟨?_, ?_⟩
    · rintro ⟨q, a, r, hq, rfl⟩
      obtain ⟨q', r', hq'⟩ := hkept q a r hq
      exact ⟨q', a, r', hq', rfl⟩
    · rintro ⟨q, a, r, hq, rfl⟩
      obtain ⟨r', hq'⟩ := hseat q a r hq
      exact ⟨_, a, r', hq', rfl⟩
  once := hended ▸ h.once
  live q a r hq hmem := by
    obtain ⟨r', hq'⟩ := hseat q a r hq
    exact h.live _ a r' hq' (hended ▸ hmem)

theorem Sound.rerank (h : t.Sound) (p : Party) (rank : Rank) : (t.rerank p rank).Sound := by
  refine h.reseat id rfl rfl (fun q a r hq => ?_) (fun q q' heq _ _ => heq) fun q a r hq => ?_
  · rcases update_eq_some_iff.mp hq with ⟨rfl, ha⟩ | ⟨-, hq⟩
    · obtain ⟨⟨b, r'⟩, hb, heq⟩ := Option.map_eq_some_iff.mp ha
      cases heq
      exact ⟨r', hb⟩
    · exact ⟨r, hq⟩
  · by_cases hp : q = p
    · subst hp
      exact ⟨q, rank, update_eq_some_iff.mpr (.inl ⟨rfl, by simp [hq]⟩)⟩
    · exact ⟨q, r, update_eq_some_iff.mpr (.inr ⟨hp, hq⟩)⟩

theorem rerank_self (hseat : t.seat p = some (a, r)) : t.rerank p r = t := by
  unfold Tenure.rerank
  rw [hseat, Option.map_some, ← hseat, Function.update_eq_self]

theorem Sound.handOver (h : t.Sound) (hne : p ≠ q) (hfree : t.seat q = none) (rank : Rank) :
    (t.handOver p q rank).Sound := by
  have hgiver : (t.handOver p q rank).seat p = none := by simp [Tenure.handOver, hne]
  refine h.reseat (fun party => if party = q then p else party) rfl rfl (fun party a r hseat => ?_)
    (fun party party' heq hsome hsome' => ?_) fun party a r hseat => ?_
  · rcases update_eq_some_iff.mp hseat with ⟨rfl, ha⟩ | ⟨hq, hseat⟩
    · obtain ⟨⟨b, r'⟩, hb, heq⟩ := Option.map_eq_some_iff.mp ha
      cases heq
      exact ⟨r', by rw [if_pos rfl, hb]⟩
    · rcases update_eq_some_iff.mp hseat with ⟨-, ha⟩ | ⟨-, hseat⟩
      · cases ha
      · exact ⟨r, by rw [if_neg hq, hseat]⟩
  · -- The giver is left with nothing, so only the taker comes from it.
    have hne' : party ≠ p := by
      rintro rfl
      simp [hgiver] at hsome
    have hne'' : party' ≠ p := by
      rintro rfl
      simp [hgiver] at hsome'
    by_cases hq : party = q <;> by_cases hq' : party' = q
    · exact hq.trans hq'.symm
    · rw [if_pos hq, if_neg hq'] at heq
      exact absurd heq.symm hne''
    · rw [if_neg hq, if_pos hq'] at heq
      exact absurd heq hne'
    · rwa [if_neg hq, if_neg hq'] at heq
  · by_cases hp : party = p
    · subst hp
      exact ⟨q, rank, update_eq_some_iff.mpr (.inl ⟨rfl, by simp [hseat]⟩)⟩
    · have hq : party ≠ q := by
        rintro rfl
        simp [hfree] at hseat
      refine ⟨party, r, update_eq_some_iff.mpr (.inr ⟨hq, ?_⟩)⟩
      exact update_eq_some_iff.mpr (.inr ⟨hp, hseat⟩)

theorem Sound.finish (h : t.Sound) (hseat : t.seat p = some (a, r)) : (t.finish p).Sound where
  apart q q' b s c s' hq hq' hsame := by
    rcases update_eq_some_iff.mp hq with ⟨-, hb⟩ | ⟨-, hq⟩
    · cases hb
    · rcases update_eq_some_iff.mp hq' with ⟨-, hc⟩ | ⟨-, hq'⟩
      · cases hc
      · exact h.apart q q' b s c s' hq hq' hsame
  accounted n := by
    change n < t.issued ↔ n ∈ t.ended ++ _ ∨ _
    rw [h.accounted n, List.mem_append, or_assoc]
    refine or_congr_right ⟨?_, ?_⟩
    · rintro ⟨q, b, s, hq, rfl⟩
      by_cases hp : q = p
      · subst hp
        obtain ⟨rfl, rfl⟩ := Prod.mk.inj (Option.some.inj (hq.symm.trans hseat))
        exact .inl (by simp [hseat])
      · exact .inr ⟨q, b, s, update_eq_some_iff.mpr (.inr ⟨hp, hq⟩), rfl⟩
    · rintro (hended | ⟨q, b, s, hq, rfl⟩)
      · obtain rfl : a.number = n := by simpa [hseat, eq_comm] using hended
        exact ⟨p, a, r, hseat, rfl⟩
      · rcases update_eq_some_iff.mp hq with ⟨-, hb⟩ | ⟨-, hq⟩
        · cases hb
        · exact ⟨q, b, s, hq, rfl⟩
  once := by
    change (t.ended ++ _).Nodup
    rw [hseat]
    exact h.once.append (List.nodup_singleton _) (by simpa using h.live p a r hseat)
  live q b s hq hended := by
    rcases update_eq_some_iff.mp hq with ⟨-, hb⟩ | ⟨hne, hq⟩
    · cases hb
    · rcases List.mem_append.mp hended with hended | hended
      · exact h.live q b s hq hended
      · have hnumber : b.number = a.number := by simpa [hseat] using hended
        exact hne (h.apart q p b s a r hq hseat (.inr hnumber))

section Leases

theorem leases_issue (hfree : t.seat p = none) (address : Address) :
    (t.issue p address r).leases kind =
      {a | a = ⟨t.issued, address⟩ ∧ kind r} ∪ t.leases kind := by
  ext b
  constructor
  · rintro ⟨q, s, hq, hs⟩
    rcases update_eq_some_iff.mp hq with ⟨-, ha⟩ | ⟨-, hq⟩
    · cases ha
      exact .inl ⟨rfl, hs⟩
    · exact .inr ⟨q, s, hq, hs⟩
  · rintro (⟨rfl, hr⟩ | ⟨q, s, hq, hs⟩)
    · exact ⟨p, r, update_eq_some_iff.mpr (.inl ⟨rfl, rfl⟩), hr⟩
    · refine ⟨q, s, update_eq_some_iff.mpr (.inr ⟨?_, hq⟩), hs⟩
      rintro rfl
      simp [hfree] at hq

/-- One lease comes into another rank, or to an end, and no other does. -/
structure Shifts (t u : Tenure Party Address Rank) (a : Lease Address) (entry : Option Rank) :
    Prop where
  self : ∀ s, (∃ q, u.seat q = some (a, s)) ↔ entry = some s
  others : ∀ b s, b ≠ a → ((∃ q, u.seat q = some (b, s)) ↔ ∃ q, t.seat q = some (b, s))

omit [DecidableEq Party] in
theorem Sound.eq_party (h : t.Sound) (hp : t.seat p = some (a, r)) (hq : t.seat q = some (a, r')) :
    p = q :=
  h.apart p q a r a r' hp hq (.inl rfl)

theorem Sound.shifts_rerank (h : t.Sound) (hseat : t.seat p = some (a, r)) (rank : Rank) :
    Shifts t (t.rerank p rank) a (some rank) where
  self s := by
    constructor
    · rintro ⟨q, hq⟩
      rcases update_eq_some_iff.mp hq with ⟨-, ha⟩ | ⟨hne, hq⟩
      · simpa [hseat] using ha
      · exact absurd (h.eq_party hq hseat) hne
    · rintro ⟨⟩
      exact ⟨p, update_eq_some_iff.mpr (.inl ⟨rfl, by simp [hseat]⟩)⟩
  others b s hb := by
    refine exists_congr fun q => update_eq_some_iff.trans ?_
    by_cases hq : q = p
    · subst hq
      simp [hseat, Ne.symm hb]
    · simp [hq]

theorem Sound.shifts_handOver (h : t.Sound) (hne : p ≠ q) (hfree : t.seat q = none)
    (hseat : t.seat p = some (a, r)) (rank : Rank) :
    Shifts t (t.handOver p q rank) a (some rank) where
  self s := by
    constructor
    · rintro ⟨party, hparty⟩
      rcases update_eq_some_iff.mp hparty with ⟨-, ha⟩ | ⟨-, hparty⟩
      · simpa [hseat] using ha
      · rcases update_eq_some_iff.mp hparty with ⟨-, ha⟩ | ⟨hnot, hparty⟩
        · cases ha
        · exact absurd (h.eq_party hparty hseat) hnot
    · rintro ⟨⟩
      exact ⟨q, update_eq_some_iff.mpr (.inl ⟨rfl, by simp [hseat]⟩)⟩
  others b s hb := by
    refine exists_congr fun party => update_eq_some_iff.trans ?_
    rw [update_eq_some_iff]
    by_cases hq : party = q
    · subst hq
      simp [hseat, hfree, Ne.symm hb]
    · by_cases hp : party = p
      · subst hp
        simp [hseat, hne, Ne.symm hb]
      · simp [hq, hp]

theorem Sound.shifts_finish (h : t.Sound) (hseat : t.seat p = some (a, r)) :
    Shifts t (t.finish p) a none where
  self s := by
    refine iff_of_false ?_ (by simp)
    rintro ⟨q, hq⟩
    rcases update_eq_some_iff.mp hq with ⟨-, ha⟩ | ⟨hne, hq⟩
    · cases ha
    · exact hne (h.eq_party hq hseat)
  others b s hb := by
    refine exists_congr fun q => update_eq_some_iff.trans ?_
    by_cases hq : q = p
    · subst hq
      simp [hseat, Ne.symm hb]
    · simp [hq]

section Shifts

variable {u : Tenure Party Address Rank} {entry : Option Rank}

omit [DecidableEq Party]

theorem Sound.mem_leases_iff (h : t.Sound) (hseat : t.seat p = some (a, r)) :
    a ∈ t.leases kind ↔ kind r := by
  constructor
  · rintro ⟨q, s, hq, hs⟩
    obtain rfl := h.eq_party hq hseat
    obtain ⟨-, rfl⟩ := Prod.mk.inj (Option.some.inj (hq.symm.trans hseat))
    exact hs
  · exact fun hr => ⟨p, r, hseat, hr⟩

theorem Shifts.mem_leases_of_ne (h : Shifts t u a entry) (hb : b ≠ a) :
    b ∈ u.leases kind ↔ b ∈ t.leases kind := by
  constructor
  · rintro ⟨q, s, hq, hs⟩
    obtain ⟨q', hq'⟩ := (h.others b s hb).mp ⟨q, hq⟩
    exact ⟨q', s, hq', hs⟩
  · rintro ⟨q, s, hq, hs⟩
    obtain ⟨q', hq'⟩ := (h.others b s hb).mpr ⟨q, hq⟩
    exact ⟨q', s, hq', hs⟩

theorem Shifts.leases_insert {rank : Rank} (h : Shifts t u a (some rank)) (hkind : kind rank) :
    u.leases kind = insert a (t.leases kind) := by
  ext b
  by_cases hb : b = a
  · subst hb
    obtain ⟨q, hq⟩ := (h.self rank).mpr rfl
    exact iff_of_true ⟨q, rank, hq, hkind⟩ (Set.mem_insert _ _)
  · rw [h.mem_leases_of_ne hb, Set.mem_insert_iff, or_iff_right hb]

theorem Shifts.leases_remove (h : Shifts t u a entry) (hkind : ∀ rank ∈ entry, ¬ kind rank) :
    u.leases kind = t.leases kind \ {a} := by
  ext b
  by_cases hb : b = a
  · subst hb
    refine iff_of_false ?_ fun hmem => hmem.2 rfl
    rintro ⟨q, s, hq, hs⟩
    exact hkind s ((h.self s).mp ⟨q, hq⟩) hs
  · rw [h.mem_leases_of_ne hb, Set.mem_sdiff, Set.mem_singleton_iff, and_iff_left hb]

/-- Nothing changes for a kind that the ranks before and after are both of,
or both not. -/
theorem Shifts.leases_eq (h : Shifts t u a entry) (ht : t.Sound) (hseat : t.seat p = some (a, r))
    (hkind : kind r ↔ ∃ rank ∈ entry, kind rank) : u.leases kind = t.leases kind := by
  by_cases hr : kind r
  · obtain ⟨rank, hrank, hs⟩ := hkind.mp hr
    obtain rfl := Option.mem_def.mp hrank
    rw [h.leases_insert hs, Set.insert_eq_of_mem ((ht.mem_leases_iff hseat).mpr hr)]
  · rw [h.leases_remove fun rank hrank hs => hr (hkind.mpr ⟨rank, hrank, hs⟩)]
    exact Set.sdiff_singleton_eq_self (mt (ht.mem_leases_iff hseat).mp hr)

end Shifts

end Leases

end Changes

end Tenure

/-! ## Registers keyed by address -/

section Mirrors

variable {Address Value : Type*}

/-- The register has the record of every lease that is on it, and nothing else. -/
structure Mirrors (on : Set (Lease Address)) (register : Address → Option Value)
    (record : ℕ → Option Value) : Prop where
  own : ∀ a ∈ on, register a.address = record a.number
  only : ∀ address, register address ≠ none → ∃ a ∈ on, a.address = address

variable {on on' : Set (Lease Address)} {register : Address → Option Value}
  {record : ℕ → Option Value} {a : Lease Address}

theorem Mirrors.empty : Mirrors ∅ (fun _ : Address => (none : Option Value)) record where
  own a h := by cases h
  only address h := absurd rfl h

theorem Mirrors.eq_none (h : Mirrors on register record) (address : Address)
    (hvacant : ∀ a ∈ on, a.address ≠ address) : register address = none := by
  by_contra hregister
  obtain ⟨a, ha, haddress⟩ := h.only address hregister
  exact hvacant a ha haddress

/-- A lease for which nothing is on record comes on the register. -/
theorem Mirrors.enroll (h : Mirrors on register record) (hvacant : ∀ b ∈ on, b.address ≠ a.address)
    (hrecord : record a.number = none) (hon : on' = insert a on) : Mirrors on' register record where
  own b hb := by
    rw [hon] at hb
    rcases Set.mem_insert_iff.mp hb with rfl | hb
    · rw [h.eq_none _ hvacant, hrecord]
    · exact h.own b hb
  only address haddress := by
    obtain ⟨b, hb, rfl⟩ := h.only address haddress
    exact ⟨b, hon ▸ Set.mem_insert_of_mem a hb, rfl⟩

variable [DecidableEq Address]

/-- An entry is written, and the same is put on record. -/
theorem Mirrors.write (h : Mirrors on register record) (value : Value)
    (happart : ∀ b ∈ on, b.address = a.address ∨ b.number = a.number → b = a)
    (hon : on' = insert a on) :
    Mirrors on' (Function.update register a.address (some value))
      (Function.update record a.number (some value)) where
  own b hb := by
    rw [hon] at hb
    by_cases hba : b = a
    · subst hba
      simp
    · have hmem := (Set.mem_insert_iff.mp hb).resolve_left hba
      rw [Function.update_of_ne fun heq => hba (happart b hmem (.inl heq)),
        Function.update_of_ne fun heq => hba (happart b hmem (.inr heq))]
      exact h.own b hmem
  only address haddress := by
    by_cases heq : address = a.address
    · exact ⟨a, hon ▸ Set.mem_insert a on, heq.symm⟩
    · rw [Function.update_of_ne heq] at haddress
      obtain ⟨b, hb, rfl⟩ := h.only address haddress
      exact ⟨b, hon ▸ Set.mem_insert_of_mem a hb, rfl⟩

/-- The entry of a lease is struck off, and the record stays. -/
theorem Mirrors.strike (h : Mirrors on register record)
    (happart : ∀ b ∈ on, b.address = a.address → b = a) (hon : on' = on \ {a}) :
    Mirrors on' (Function.update register a.address none) record where
  own b hb := by
    rw [hon] at hb
    rw [Function.update_of_ne fun heq => hb.2 (happart b hb.1 heq)]
    exact h.own b hb.1
  only address haddress := by
    by_cases heq : address = a.address
    · subst heq
      simp at haddress
    · rw [Function.update_of_ne heq] at haddress
      obtain ⟨b, hb, rfl⟩ := h.only address haddress
      refine ⟨b, ?_, rfl⟩
      rw [hon]
      exact ⟨hb, fun hba => heq (congrArg Lease.address hba)⟩

end Mirrors

end MockServices.Foundations
