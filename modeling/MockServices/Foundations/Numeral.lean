import Mathlib.Tactic.Ring
import Mathlib.Data.Nat.Basic

/-!
# Numerals that say where they end

A numeral is a list of symbols, the lowest digit first. Each symbol carries
a digit and says whether another one follows, so numerals form a prefix
code. A scanner with a limit on the symbols recovers a numeral from the
beginning of a list; the spelling of a number is its only shortest numeral.
-/

namespace MockServices.Foundations

structure Digits (α : Type*) where
  base : ℕ
  digit : α → ℕ
  more : α → Bool
  symbol : Bool → ℕ → α
  one_lt_base : 1 < base
  digit_lt : ∀ x, digit x < base
  digit_symbol : ∀ m, ∀ d < base, digit (symbol m d) = d
  more_symbol : ∀ m, ∀ d < base, more (symbol m d) = m
  symbol_digit : ∀ x, symbol (more x) (digit x) = x

namespace Digits

variable {α : Type*} (D : Digits α)

inductive Spells : List α → ℕ → Prop
  | last {x : α} (hlast : D.more x = false) : Spells [x] (D.digit x)
  | more {x : α} {word : List α} {n : ℕ} (hmore : D.more x = true) (hword : Spells word n) :
      Spells (x :: word) (D.digit x + D.base * n)

/-- The number at the beginning of a list, in at most that many symbols,
and what follows it. -/
def scan : ℕ → List α → Option (ℕ × List α)
  | 0, _ => none
  | _ + 1, [] => none
  | limit + 1, x :: xs =>
      if D.more x then (scan limit xs).map fun r => (D.digit x + D.base * r.1, r.2)
      else some (D.digit x, xs)

theorem base_pos : 0 < D.base := Nat.zero_lt_of_lt D.one_lt_base

def spelling (n : ℕ) : List α :=
  if n / D.base = 0 then [D.symbol false (n % D.base)]
  else D.symbol true (n % D.base) :: spelling (n / D.base)
termination_by n
decreasing_by
  have hpos : 0 < n := Nat.pos_of_ne_zero fun hzero => by simp_all
  exact Nat.div_lt_self hpos D.one_lt_base

variable {D} {word word' rest rest' : List α} {m n limit : ℕ}

theorem Spells.length_pos (h : D.Spells word n) : 0 < word.length := by
  cases h <;> exact Nat.zero_lt_succ _

theorem Spells.lt_pow (h : D.Spells word n) : n < D.base ^ word.length := by
  induction h with
  | @last x hlast =>
      rw [List.length_singleton, pow_one]
      exact D.digit_lt x
  | @more x word n hmore hword ih =>
      have hdigit := D.digit_lt x
      have hstep : D.base * (n + 1) ≤ D.base * D.base ^ word.length := Nat.mul_le_mul_left _ ih
      rw [List.length_cons, pow_succ, mul_comm (D.base ^ _)]
      rw [Nat.mul_succ] at hstep
      omega

/-- No numeral begins another one. -/
theorem Spells.append_inj (h : D.Spells word m) (h' : D.Spells word' n)
    (heq : word ++ rest = word' ++ rest') : word = word' ∧ m = n := by
  induction h generalizing word' n with
  | last hlast =>
      cases h' with
      | last => cases heq; exact ⟨rfl, rfl⟩
      | more hmore =>
          cases heq
          rw [hlast] at hmore
          cases hmore
  | more hmore hword ih =>
      cases h' with
      | last hlast =>
          cases heq
          rw [hmore] at hlast
          cases hlast
      | more hmore' hword' =>
          obtain ⟨rfl, htail⟩ := List.cons.inj heq
          obtain ⟨rfl, rfl⟩ := ih hword' htail
          exact ⟨rfl, rfl⟩

/-- With the number of symbols a number has one numeral. -/
theorem Spells.eq_of_length (h : D.Spells word n) (h' : D.Spells word' n)
    (hlength : word.length = word'.length) : word = word' := by
  induction h generalizing word' with
  | @last x hlast =>
      generalize hm : D.digit x = m at h'
      cases h' with
      | @last y hlast' => rw [← D.symbol_digit x, ← D.symbol_digit y, hlast, hlast', hm]
      | more hmore' hword' =>
          have hpos := hword'.length_pos
          simp only [List.length_cons, List.length_nil] at hlength
          omega
  | @more x word n hmore hword ih =>
      generalize hm : D.digit x + D.base * n = m at h'
      cases h' with
      | last hlast' =>
          have hpos := hword.length_pos
          simp only [List.length_cons, List.length_nil] at hlength
          omega
      | @more y word' n' hmore' hword' =>
          have hdigit : D.digit x = D.digit y := by
            have hmod := congrArg (· % D.base) hm
            simpa only [Nat.add_mul_mod_self_left, Nat.mod_eq_of_lt (D.digit_lt _)] using hmod
          have hn : n = n' := by
            rw [hdigit, Nat.add_left_cancel_iff] at hm
            exact Nat.eq_of_mul_eq_mul_left D.base_pos hm
          subst hn
          rw [ih hword' (Nat.succ_inj.mp hlength), ← D.symbol_digit x, ← D.symbol_digit y, hmore,
            hmore', hdigit]

theorem scan_eq_some_iff {xs : List α} :
    D.scan limit xs = some (n, rest) ↔
      ∃ word, D.Spells word n ∧ word.length ≤ limit ∧ xs = word ++ rest := by
  induction limit generalizing xs n with
  | zero =>
      constructor
      · intro h
        cases h
      · rintro ⟨word, hword, hlength, -⟩
        exact absurd hword.length_pos (by omega)
  | succ limit ih =>
      cases xs with
      | nil =>
          constructor
          · intro h
            cases h
          · rintro ⟨word, hword, -, hnil⟩
            rw [(List.append_eq_nil_iff.mp hnil.symm).1] at hword
            cases hword
      | cons x xs =>
          rw [scan]
          cases hmore : D.more x with
          | false =>
              rw [if_neg Bool.false_ne_true]
              constructor
              · intro h
                cases h
                exact ⟨[x], .last hmore, Nat.succ_le_succ (Nat.zero_le _), rfl⟩
              · rintro ⟨word, hword, -, heq⟩
                have hone : D.Spells [x] (D.digit x) := .last hmore
                obtain ⟨rfl, rfl⟩ := hone.append_inj hword heq
                cases heq
                rfl
          | true =>
              rw [if_pos rfl, Option.map_eq_some_iff]
              constructor
              · rintro ⟨⟨m, tail⟩, hscan, heq⟩
                cases heq
                obtain ⟨word, hword, hlength, rfl⟩ := ih.mp hscan
                exact ⟨x :: word, .more hmore hword, Nat.succ_le_succ hlength, rfl⟩
              · rintro ⟨word, hword, hlength, heq⟩
                cases hword with
                | last hlast =>
                    cases heq
                    rw [hmore] at hlast
                    cases hlast
                | more _ hword =>
                    obtain ⟨rfl, rfl⟩ := List.cons.inj heq
                    exact ⟨_, ih.mpr ⟨_, hword, Nat.le_of_succ_le_succ hlength, rfl⟩, rfl⟩

theorem spells_spelling (n : ℕ) : D.Spells (D.spelling n) n := by
  induction n using Nat.strongRecOn with
  | ind n ih =>
      have hdigit : n % D.base < D.base := Nat.mod_lt _ D.base_pos
      have hsplit : n % D.base + D.base * (n / D.base) = n := Nat.mod_add_div _ _
      rw [spelling]
      split
      · next hzero =>
          have hlast := Spells.last (D.more_symbol false _ hdigit)
          rw [D.digit_symbol false _ hdigit] at hlast
          rw [hzero, mul_zero, add_zero] at hsplit
          rwa [hsplit] at hlast ⊢
      · next hmore =>
          have hpos : 0 < n := Nat.pos_of_ne_zero fun hzero => hmore (by rw [hzero, Nat.zero_div])
          have hrest := Spells.more (D.more_symbol true _ hdigit)
            (ih _ (Nat.div_lt_self hpos D.one_lt_base))
          rwa [D.digit_symbol true _ hdigit, hsplit] at hrest

/-- No numeral of the number is shorter than its spelling. -/
theorem Spells.length_spelling_le (h : D.Spells word n) : (D.spelling n).length ≤ word.length := by
  induction h with
  | @last x hlast =>
      rw [spelling, if_pos (Nat.div_eq_of_lt (D.digit_lt x))]
      exact Nat.le_refl 1
  | @more x word n hmore hword ih =>
      have hdiv : (D.digit x + D.base * n) / D.base = n := by
        rw [Nat.add_mul_div_left _ _ D.base_pos, Nat.div_eq_of_lt (D.digit_lt x), Nat.zero_add]
      rw [spelling, hdiv]
      split
      · exact Nat.succ_le_succ (Nat.zero_le _)
      · exact Nat.succ_le_succ ih

theorem length_spelling_le_iff (hlimit : 0 < limit) :
    (D.spelling n).length ≤ limit ↔ n < D.base ^ limit := by
  constructor
  · intro h
    exact (spells_spelling n).lt_pow.trans_le (Nat.pow_le_pow_right D.base_pos h)
  · intro h
    induction limit generalizing n with
    | zero => cases hlimit
    | succ limit ih =>
        rw [spelling]
        split
        · exact Nat.succ_le_succ (Nat.zero_le _)
        · next hmore =>
            have hdiv : n / D.base < D.base ^ limit := by
              rw [Nat.div_lt_iff_lt_mul D.base_pos, ← pow_succ]
              exact h
            have hleft : 0 < limit := by
              apply Nat.pos_of_ne_zero
              rintro rfl
              exact hmore (Nat.lt_one_iff.mp hdiv)
            exact Nat.succ_le_succ (ih hleft hdiv)

/-- The scanner recovers the spellings that fit the limit, and refuses the
others. -/
theorem scan_spelling (hlimit : 0 < limit) (n : ℕ) (rest : List α) :
    D.scan limit (D.spelling n ++ rest) = if n < D.base ^ limit then some (n, rest) else none := by
  have hspells := spells_spelling (D := D) n
  split
  · next hfits =>
      exact scan_eq_some_iff.mpr ⟨_, hspells, (length_spelling_le_iff hlimit).mpr hfits, rfl⟩
  · next hlong =>
      rw [Option.eq_none_iff_forall_ne_some]
      rintro ⟨m, tail⟩ hscan
      obtain ⟨word, hword, hlength, heq⟩ := scan_eq_some_iff.mp hscan
      obtain ⟨rfl, rfl⟩ := hspells.append_inj hword heq
      exact hlong ((length_spelling_le_iff hlimit).mp hlength)

/-- A list that the scanner takes for a number is no shorter than its
spelling, and as long only if it is the spelling. -/
theorem shortest_of_scan {xs : List α} (h : D.scan limit xs = some (n, rest)) :
    (D.spelling n).length ≤ xs.length ∧
      (xs.length = (D.spelling n).length → xs = D.spelling n) := by
  obtain ⟨word, hword, -, rfl⟩ := scan_eq_some_iff.mp h
  have hle := hword.length_spelling_le
  rw [List.length_append]
  refine ⟨by omega, fun hlength => ?_⟩
  have hnil : rest = [] := List.length_eq_zero_iff.mp (by omega)
  rw [hnil, List.append_nil]
  exact hword.eq_of_length (spells_spelling n) (by omega)

end Digits

end MockServices.Foundations
