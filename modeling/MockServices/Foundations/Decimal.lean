import Mathlib.Data.List.TakeWhile
import Mathlib.Data.Nat.Digits.Defs

/-!
# Decimal numbers in a text

A reader takes the digits at the front of a text, or skips blanks and takes
a signed number within bounds. What a number is written as is read back,
whatever follows it, as long as that is no digit.
-/

namespace MockServices.Foundations

def scanNat (text : List Char) : Option (ℕ × List Char) :=
  match text.takeWhile Char.isDigit with
  | [] => none
  | digits => some (Nat.ofDigitChars 10 digits 0, text.dropWhile Char.isDigit)

/-- No number goes on here. -/
def NoDigit (text : List Char) : Prop := ∀ c ∈ text.head?, c.isDigit = false

variable {rest : List Char}

theorem noDigit_nil : NoDigit [] := by
  intro c hc
  cases hc

theorem noDigit_cons {c : Char} (h : c.isDigit = false) (rest : List Char) : NoDigit (c :: rest) := by
  rintro _ ⟨⟩
  exact h

theorem takeWhile_digits (n : ℕ) (h : NoDigit rest) :
    (Nat.toDigits 10 n ++ rest).takeWhile Char.isDigit = Nat.toDigits 10 n ∧
      (Nat.toDigits 10 n ++ rest).dropWhile Char.isDigit = rest := by
  have hdigits : ∀ c ∈ Nat.toDigits 10 n, c.isDigit = true := fun c hc =>
    Nat.isDigit_of_mem_toDigits (by decide) (by decide) hc
  rw [List.takeWhile_append_of_pos hdigits, List.dropWhile_append_of_pos hdigits]
  cases rest with
  | nil => simp
  | cons c rest =>
      have hc : c.isDigit = false := h c rfl
      simp [hc]

theorem scanNat_repr (n : ℕ) (h : NoDigit rest) :
    scanNat ((toString n).toList ++ rest) = some (n, rest) := by
  rw [Nat.toString_eq_repr, Nat.toList_repr]
  obtain ⟨htake, hdrop⟩ := takeWhile_digits n h
  unfold scanNat
  rw [htake, hdrop]
  cases hdigits : Nat.toDigits 10 n with
  | nil => exact absurd hdigits Nat.toDigits_ne_nil
  | cons c digits =>
      dsimp only
      rw [← hdigits, Nat.ofDigitChars_ten_toDigits]

/-- A leading zero changes nothing. -/
theorem scanNat_zero (n : ℕ) (h : NoDigit rest) :
    scanNat ('0' :: ((toString n).toList ++ rest)) = some (n, rest) := by
  rw [Nat.toString_eq_repr, Nat.toList_repr]
  obtain ⟨htake, hdrop⟩ := takeWhile_digits n h
  unfold scanNat
  rw [List.takeWhile_cons_of_pos (by decide), List.dropWhile_cons_of_pos (by decide), htake, hdrop]
  dsimp only
  rw [Nat.ofDigitChars_cons, Nat.mul_zero, show '0'.toNat - '0'.toNat = 0 from rfl, Nat.zero_add,
    Nat.ofDigitChars_ten_toDigits]

def scanSigned : List Char → Option (ℤ × List Char)
  | '-' :: digits => (scanNat digits).map fun r => (-r.1, r.2)
  | '+' :: digits => (scanNat digits).map fun r => (r.1, r.2)
  | text => (scanNat text).map fun r => (r.1, r.2)

/-- A number within the bounds, after any blanks. -/
def scanInt (low high : ℤ) (text : List Char) : Option (ℤ × List Char) :=
  (scanSigned (text.dropWhile Char.isWhitespace)).filter fun r => low ≤ r.1 ∧ r.1 ≤ high

variable {low high : ℤ}

theorem scanInt_blank (text : List Char) : scanInt low high (' ' :: text) = scanInt low high text :=
  rfl

theorem not_isWhitespace_of_isDigit {c : Char} (h : c.isDigit = true) : c.isWhitespace = false := by
  cases hblank : c.isWhitespace with
  | false => rfl
  | true =>
      have hcases : c = ' ' ∨ c = '\t' ∨ c = '\r' ∨ c = '\n' := by
        simpa [Char.isWhitespace, or_assoc] using hblank
      rcases hcases with rfl | rfl | rfl | rfl <;> exact absurd h (by decide)

theorem scanSigned_of_isDigit {c : Char} (h : c.isDigit = true) (text : List Char) :
    scanSigned (c :: text) = (scanNat (c :: text)).map fun r => ((r.1 : ℤ), r.2) := by
  unfold scanSigned
  split
  · next heq =>
      obtain ⟨rfl, -⟩ := List.cons.inj heq
      exact absurd h (by decide)
  · next heq =>
      obtain ⟨rfl, -⟩ := List.cons.inj heq
      exact absurd h (by decide)
  · rfl

theorem toString_negSucc (n : ℕ) :
    (toString (Int.negSucc n)).toList = '-' :: (toString (n + 1)).toList := by
  rw [Int.toString_eq_repr, Int.repr_eq_if, if_neg (by omega), String.toList_append]
  rfl

/-- A character of a number. -/
def IsNumeric (c : Char) : Prop := c = '-' ∨ c.isDigit = true

theorem isNumeric_of_mem {z : ℤ} {c : Char} (h : c ∈ (toString z).toList) : IsNumeric c := by
  have hdigit : ∀ n : ℕ, c ∈ (toString n).toList → IsNumeric c := fun n hn =>
    .inr (Nat.isDigit_of_mem_toDigits (by decide) (by decide) (Nat.toList_repr ▸ hn))
  cases z with
  | ofNat n => exact hdigit n h
  | negSucc n =>
      rcases List.mem_cons.mp (toString_negSucc n ▸ h) with rfl | h
      · exact .inl rfl
      · exact hdigit _ h

theorem toString_ne_nil (z : ℤ) : (toString z).toList ≠ [] := by
  cases z with
  | ofNat n => exact fun h => Nat.toDigits_ne_nil (Nat.toList_repr.symm.trans h)
  | negSucc n =>
      rw [toString_negSucc]
      exact List.cons_ne_nil _ _

/-- A number that is read back as it is written. -/
theorem scanSigned_toString (z : ℤ) (h : NoDigit rest) :
    scanSigned ((toString z).toList ++ rest) = some (z, rest) := by
  cases z with
  | ofNat n =>
      change scanSigned ((toString n).toList ++ rest) = _
      have hscan := scanNat_repr n h
      rw [Nat.toString_eq_repr, Nat.toList_repr] at hscan ⊢
      cases hword : Nat.toDigits 10 n with
      | nil => exact absurd hword Nat.toDigits_ne_nil
      | cons c digits =>
          have hmem : c ∈ Nat.toDigits 10 n := by rw [hword]; exact List.mem_cons_self
          have hc := Nat.isDigit_of_mem_toDigits (by decide) (by decide) hmem
          rw [hword, List.cons_append] at hscan
          rw [List.cons_append, scanSigned_of_isDigit hc, hscan]
          rfl
  | negSucc n =>
      rw [toString_negSucc, List.cons_append, scanSigned, scanNat_repr (n + 1) h]
      rfl

theorem scanInt_toString {z : ℤ} (hlow : low ≤ z) (hhigh : z ≤ high) (h : NoDigit rest) :
    scanInt low high ((toString z).toList ++ rest) = some (z, rest) := by
  have hscan := scanSigned_toString z h
  obtain ⟨c, text, hword⟩ := List.exists_cons_of_ne_nil (toString_ne_nil z)
  have hc : c.isWhitespace = false := by
    have hmem : c ∈ (toString z).toList := by rw [hword]; exact List.mem_cons_self
    rcases isNumeric_of_mem hmem with rfl | hdigit
    · rfl
    · exact not_isWhitespace_of_isDigit hdigit
  rw [hword, List.cons_append] at hscan ⊢
  rw [scanInt, List.dropWhile_cons_of_neg (by simp [hc]), hscan, Option.filter_some,
    if_pos (by simp [hlow, hhigh])]

/-! ## Several numbers -/

def scanInts (low high : ℤ) : ℕ → List Char → Option (List ℤ)
  | 0, _ => some []
  | count + 1, text =>
      (scanInt low high text).bind fun r => (scanInts low high count r.2).map (r.1 :: ·)

/-- The numbers as they are written, one after the other. -/
def written (sep : Char) (numbers : List ℤ) : List Char :=
  [sep].intercalate (numbers.map fun z => (toString z).toList)

theorem mem_written {sep c : Char} {numbers : List ℤ} (h : c ∈ written sep numbers) :
    c = sep ∨ IsNumeric c := by
  induction numbers with
  | nil => cases h
  | cons z numbers ih =>
      cases numbers with
      | nil =>
          rw [written, List.map_singleton, List.intercalate_singleton] at h
          exact .inr (isNumeric_of_mem h)
      | cons w numbers =>
          simp only [written, List.map_cons, List.intercalate_cons_cons, List.append_assoc,
            List.mem_append, List.mem_singleton] at h
          rcases h with h | rfl | h
          · exact .inr (isNumeric_of_mem h)
          · exact .inl rfl
          · exact ih h

/-- Another separator. -/
theorem map_written {f : Char → Char} (hf : ∀ c, IsNumeric c → f c = c) (sep : Char)
    (numbers : List ℤ) : (written sep numbers).map f = written (f sep) numbers := by
  have hnumber : ∀ z : ℤ, (toString z).toList.map f = (toString z).toList := fun z =>
    (List.map_congr_left fun c hc => hf c (isNumeric_of_mem hc)).trans (List.map_id' _)
  induction numbers with
  | nil => rfl
  | cons z numbers ih =>
      cases numbers with
      | nil => simp only [written, List.map_singleton, List.intercalate_singleton, hnumber]
      | cons w numbers =>
          simp only [written, List.map_cons, List.intercalate_cons_cons, List.map_append,
            List.map_nil, hnumber] at ih ⊢
          rw [ih]

theorem scanInts_blank {count : ℕ} (h : 0 < count) (text : List Char) :
    scanInts low high count (' ' :: text) = scanInts low high count text := by
  cases count with
  | zero => cases h
  | succ count => rw [scanInts, scanInt_blank, ← scanInts]

theorem scanInts_written {numbers : List ℤ} (h : ∀ z ∈ numbers, low ≤ z ∧ z ≤ high) :
    scanInts low high numbers.length (written ' ' numbers) = some numbers := by
  induction numbers with
  | nil => rfl
  | cons z numbers ih =>
      obtain ⟨hlow, hhigh⟩ := h z List.mem_cons_self
      have hrest := ih fun w hw => h w (List.mem_cons_of_mem _ hw)
      cases numbers with
      | nil =>
          have hscan := scanInt_toString hlow hhigh noDigit_nil
          rw [List.append_nil] at hscan
          rw [written, List.map_singleton, List.intercalate_singleton, List.length_singleton,
            scanInts, hscan]
          rfl
      | cons w numbers =>
          have hscan := scanInt_toString hlow hhigh
            (noDigit_cons (show ' '.isDigit = false by decide) (written ' ' (w :: numbers)))
          have hsplit : written ' ' (z :: w :: numbers) =
              (toString z).toList ++ ' ' :: written ' ' (w :: numbers) := by
            simp only [written, List.map_cons, List.intercalate_cons_cons, List.append_assoc]
            rfl
          have hpos : 0 < (w :: numbers).length := Nat.zero_lt_succ _
          rw [hsplit, List.length_cons, scanInts, hscan, Option.bind_some]
          dsimp only
          rw [scanInts_blank hpos, hrest, Option.map_some]

end MockServices.Foundations
