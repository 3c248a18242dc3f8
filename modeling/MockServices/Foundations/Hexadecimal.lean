import Mathlib.Data.List.DropRight
import Mathlib.Data.Nat.Digits.Defs

/-!
# Hexadecimal numbers at the end of a text

A number is known by its digits, and the digits at the end of a text are
found again where something else stands before them.
-/

namespace MockServices.Foundations

def hex (n : ℕ) : List Char := Nat.toDigits 16 n

def isHexDigit (c : Char) : Bool := c.isDigit || 'a' ≤ c && c ≤ 'f'

theorem isHexDigit_digitChar : ∀ d < 16, isHexDigit d.digitChar = true := by decide

theorem digitChar_injective : ∀ d < 16, ∀ d' < 16, d.digitChar = d'.digitChar → d = d' := by decide

theorem hex_eq (n : ℕ) :
    hex n = if n < 16 then [n.digitChar] else hex (n / 16) ++ [(n % 16).digitChar] :=
  Nat.toDigits_eq_if (by decide)

theorem isHexDigit_of_mem {n : ℕ} {c : Char} (h : c ∈ hex n) : isHexDigit c = true := by
  induction n using Nat.strongRecOn with
  | ind n ih =>
      rw [hex_eq] at h
      split at h
      · next hn =>
          rw [List.mem_singleton.mp h]
          exact isHexDigit_digitChar n hn
      · next hn =>
          rcases List.mem_append.mp h with h | h
          · exact ih (n / 16) (Nat.div_lt_self (by omega) (by decide)) h
          · rw [List.mem_singleton.mp h]
            exact isHexDigit_digitChar _ (Nat.mod_lt n (by decide))

theorem hex_ne_nil (n : ℕ) : hex n ≠ [] := Nat.toDigits_ne_nil

theorem hex_injective {m n : ℕ} (h : hex m = hex n) : m = n := by
  induction m using Nat.strongRecOn generalizing n with
  | ind m ih =>
      rw [hex_eq m, hex_eq n] at h
      split at h
      · next hm =>
          split at h
          · next hn => exact digitChar_injective m hm n hn (List.singleton_inj.mp h)
          · next hn =>
              have hshort : [] ++ [m.digitChar] = hex (n / 16) ++ [(n % 16).digitChar] := h
              exact absurd (List.append_inj' hshort rfl).1.symm (hex_ne_nil _)
      · next hm =>
          split at h
          · next hn =>
              have hshort : hex (m / 16) ++ [(m % 16).digitChar] = [] ++ [n.digitChar] := h
              exact absurd (List.append_inj' hshort rfl).1 (hex_ne_nil _)
          · next hn =>
              obtain ⟨hfront, hlast⟩ := List.append_inj' h rfl
              have hdiv := ih (m / 16) (Nat.div_lt_self (by omega) (by decide)) hfront
              have hmod := digitChar_injective _ (Nat.mod_lt m (by decide)) _
                (Nat.mod_lt n (by decide)) (List.singleton_inj.mp hlast)
              rw [← Nat.div_add_mod m 16, hdiv, hmod, Nat.div_add_mod]

theorem length_hex {n digits : ℕ} (hlow : 16 ^ digits ≤ n) (hhigh : n < 16 ^ (digits + 1)) :
    (hex n).length = digits + 1 := by
  have hle : (hex n).length ≤ digits + 1 :=
    (Nat.length_toDigits_le_iff (by decide) (Nat.zero_lt_succ _)).mpr hhigh
  have hlt : ¬ (hex n).length ≤ digits := by
    cases digits with
    | zero => exact Nat.not_le.mpr Nat.length_toDigits_pos
    | succ digits =>
        intro hshort
        have hbelow := (Nat.length_toDigits_le_iff (by decide) (Nat.zero_lt_succ _)).mp hshort
        omega
  omega

/-- The digits at the end of a text. -/
def hexSuffix (text : List Char) : List Char := text.rtakeWhile isHexDigit

theorem hexSuffix_append {front digits : List Char} {mark : Char} (hmark : isHexDigit mark = false)
    (hdigits : ∀ c ∈ digits, isHexDigit c = true) :
    hexSuffix (front ++ mark :: digits) = digits := by
  have hreverse : ∀ c ∈ digits.reverse, isHexDigit c = true :=
    fun c hc => hdigits c (List.mem_reverse.mp hc)
  rw [hexSuffix, List.rtakeWhile, List.reverse_append, List.reverse_cons, List.append_assoc,
    List.takeWhile_append_of_pos hreverse, List.singleton_append,
    List.takeWhile_cons_of_neg (by rw [hmark]; nofun), List.append_nil, List.reverse_reverse]

end MockServices.Foundations
