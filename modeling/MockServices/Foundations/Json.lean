import Mathlib.Data.List.Basic

/-!
# JSON texts

The grammar of a JSON text together with the value that it stands for. A
string may be written in several ways, but as long as a text has nothing
that must be escaped, it is the only text between its quotes.
-/

namespace MockServices.Foundations.Json

inductive Value
  | null
  | bool (b : Bool)
  | number (numeral : List Char)
  | string (s : List Char)
  | array (elements : List Value)
  | object (members : List (List Char × Value))

def isBlank (c : Char) : Bool := c = ' ' || c = '\t' || c = '\n' || c = '\r'

def Blank (t : List Char) : Prop := ∀ c ∈ t, isBlank c = true

/-- What stands in a string for itself. -/
def isPlain (c : Char) : Bool := ' ' ≤ c && c ≠ '"' && c ≠ '\\'

def Plain (t : List Char) : Prop := ∀ c ∈ t, isPlain c = true

instance (t : List Char) : Decidable (Plain t) := List.decidableBAll _ t

/-- The letter after a backslash and what both stand for. -/
def escapes : List (Char × Char) :=
  [('"', '"'), ('\\', '\\'), ('/', '/'), ('b', '\x08'), ('f', '\x0c'), ('n', '\n'), ('r', '\r'),
    ('t', '\t')]

def hexDigits : List Char := "0123456789abcdef".toList

/-- Four hexadecimal digits and their number. -/
def CodeUnit (t : List Char) (n : ℕ) : Prop :=
  t.length = 4 ∧ (∀ c ∈ t, c.toLower ∈ hexDigits) ∧
    n = t.foldl (fun m c => 16 * m + hexDigits.idxOf c.toLower) 0

/-- One character of a string. A surrogate that is not half of a pair stands
for none. -/
inductive CharText : List Char → Char → Prop
  | plain {c : Char} (h : isPlain c = true) : CharText [c] c
  | escape {e c : Char} (h : (e, c) ∈ escapes) : CharText ['\\', e] c
  | unit {t : List Char} {n : ℕ} (h : CodeUnit t n) (hn : n.isValidChar) :
      CharText ('\\' :: 'u' :: t) (Char.ofNat n)
  | pair {t u : List Char} {m n : ℕ} (ht : CodeUnit t m) (hm : 0xD800 ≤ m ∧ m < 0xDC00)
      (hu : CodeUnit u n) (hn : 0xDC00 ≤ n ∧ n < 0xE000) :
      CharText ('\\' :: 'u' :: t ++ '\\' :: 'u' :: u)
        (Char.ofNat (0x10000 + (m - 0xD800) * 0x400 + (n - 0xDC00)))

/-- What stands between the quotes of a string. -/
inductive StringText : List Char → List Char → Prop
  | nil : StringText [] []
  | cons {w t s : List Char} {c : Char} (hc : CharText w c) (ht : StringText t s) :
      StringText (w ++ t) (c :: s)

def Digits (t : List Char) : Prop := t ≠ [] ∧ ∀ c ∈ t, c.isDigit = true

def Fraction (t : List Char) : Prop := t = [] ∨ ∃ ds, Digits ds ∧ t = '.' :: ds

def Exponent (t : List Char) : Prop :=
  t = [] ∨ ∃ e ∈ ['e', 'E'], ∃ sign ∈ [[], ['+'], ['-']], ∃ ds, Digits ds ∧ t = e :: sign ++ ds

/-- No superfluous zero in front. -/
def Numeral (t : List Char) : Prop :=
  ∃ sign ∈ [[], ['-']], ∃ ds frac exp, Digits ds ∧ (ds.head? = some '0' → ds = ['0']) ∧
    Fraction frac ∧ Exponent exp ∧ t = sign ++ ds ++ frac ++ exp

mutual

inductive ValueText : List Char → Value → Prop
  | null : ValueText "null".toList .null
  | bool (b : Bool) : ValueText (toString b).toList (.bool b)
  | number {t : List Char} (h : Numeral t) : ValueText t (.number t)
  | string {t s : List Char} (h : StringText t s) : ValueText ('"' :: t ++ ['"']) (.string s)
  | emptyArray {t : List Char} (h : Blank t) : ValueText ('[' :: t ++ [']']) (.array [])
  | array {t : List Char} {vs : List Value} (h : ElementsText t vs) :
      ValueText ('[' :: t ++ [']']) (.array vs)
  | emptyObject {t : List Char} (h : Blank t) : ValueText ('\x7b' :: t ++ ['\x7d']) (.object [])
  | object {t : List Char} {ms : List (List Char × Value)} (h : MembersText t ms) :
      ValueText ('\x7b' :: t ++ ['\x7d']) (.object ms)

/-- A value between blanks; so is a whole document. -/
inductive Document : List Char → Value → Prop
  | padded {l t r : List Char} {v : Value} (hl : Blank l) (h : ValueText t v) (hr : Blank r) :
      Document (l ++ (t ++ r)) v

inductive ElementsText : List Char → List Value → Prop
  | one {t : List Char} {v : Value} (h : Document t v) : ElementsText t [v]
  | more {t u : List Char} {v : Value} {vs : List Value} (h : Document t v)
      (hs : ElementsText u vs) : ElementsText (t ++ ',' :: u) (v :: vs)

inductive MemberText : List Char → List Char × Value → Prop
  | named {l k r t key : List Char} {v : Value} (hl : Blank l) (hk : StringText k key)
      (hr : Blank r) (h : Document t v) :
      MemberText (l ++ '"' :: (k ++ '"' :: (r ++ ':' :: t))) (key, v)

inductive MembersText : List Char → List (List Char × Value) → Prop
  | one {t : List Char} {m : List Char × Value} (h : MemberText t m) : MembersText t [m]
  | more {t u : List Char} {m : List Char × Value} {ms : List (List Char × Value)}
      (h : MemberText t m) (hs : MembersText u ms) : MembersText (t ++ ',' :: u) (m :: ms)

end

section Blanks

variable {l r t u : List Char} {c x : Char}

theorem blank_nil : Blank [] := by simp [Blank]

/-- Blanks end where something else stands. -/
theorem Blank.front (hl : Blank l) (hc : isBlank c = false) (h : l ++ x :: t = c :: u) :
    l = [] ∧ x = c ∧ t = u := by
  cases l with
  | nil =>
      obtain ⟨rfl, rfl⟩ := List.cons.inj h
      exact ⟨rfl, rfl, rfl⟩
  | cons b l =>
      obtain ⟨rfl, -⟩ := List.cons.inj h
      have hblank := hl b (List.mem_cons_self ..)
      rw [hc] at hblank
      cases hblank

theorem Blank.back (hr : Blank r) (hc : isBlank c = false) (h : t ++ x :: r = u ++ [c]) :
    r = [] ∧ x = c ∧ t = u := by
  rcases List.eq_nil_or_concat r with rfl | ⟨front, b, rfl⟩
  · obtain ⟨rfl, hx⟩ := List.append_inj' h rfl
    exact ⟨rfl, List.singleton_inj.mp hx, rfl⟩
  · rw [List.concat_eq_append, ← List.cons_append, ← List.append_assoc] at h
    obtain ⟨-, hb⟩ := List.append_inj' h rfl
    have hblank := hr b (by simp)
    rw [List.singleton_inj.mp hb, hc] at hblank
    cases hblank

end Blanks

section Strings

variable {t u s w r r' : List Char} {c : Char}

theorem CharText.plain_or_escaped (h : CharText w c) :
    w = [c] ∧ isPlain c = true ∨ ∃ e v, w = '\\' :: e :: v := by
  cases h with
  | plain h => exact Or.inl ⟨rfl, h⟩
  | escape h => exact Or.inr ⟨_, _, rfl⟩
  | unit h hn => exact Or.inr ⟨_, _, rfl⟩
  | pair ht hm hu hn => exact Or.inr ⟨_, _, rfl⟩

theorem StringText.of_plain (h : Plain t) : StringText t t := by
  induction t with
  | nil => exact .nil
  | cons c t ih =>
      have hc : CharText [c] c := .plain (h c (List.mem_cons_self ..))
      exact .cons hc (ih fun d hd => h d (List.mem_cons_of_mem c hd))

/-- An escape is longer than the character it stands for. -/
theorem StringText.length_le (h : StringText t s) : s.length ≤ t.length := by
  induction h with
  | nil => exact Nat.le_refl 0
  | cons hc ht ih =>
      rcases hc.plain_or_escaped with ⟨rfl, -⟩ | ⟨e, v, rfl⟩ <;>
        simp only [List.length_append, List.length_cons, List.length_nil] <;> omega

theorem StringText.plain_of_length (h : StringText t s) (hlen : t.length ≤ s.length) :
    Plain t := by
  induction h with
  | nil => simp [Plain]
  | cons hc ht ih =>
      have hle := ht.length_le
      rcases hc.plain_or_escaped with ⟨rfl, hplain⟩ | ⟨e, v, rfl⟩
      · intro d hd
        rcases List.mem_cons.mp hd with rfl | hd
        · exact hplain
        · exact ih (by simpa using hlen) d hd
      · simp only [List.length_append, List.length_cons] at hlen
        omega

theorem stringText_self_iff : StringText t t ↔ Plain t :=
  ⟨fun h => h.plain_of_length (Nat.le_refl _), StringText.of_plain⟩

/-- In front of a quote, a text with nothing to escape is the whole string. -/
theorem StringText.eq_plain (h : StringText t s) (hu : Plain u)
    (heq : t ++ '"' :: r = u ++ '"' :: r') : t = u ∧ s = u ∧ r = r' := by
  induction h generalizing u with
  | nil =>
      cases u with
      | nil => exact ⟨rfl, rfl, (List.cons.inj heq).2⟩
      | cons d u =>
          obtain ⟨rfl, -⟩ := List.cons.inj heq
          exact absurd (hu '"' (List.mem_cons_self ..)) (by decide)
  | cons hc ht ih =>
      rcases hc.plain_or_escaped with ⟨rfl, hplain⟩ | ⟨e, v, rfl⟩
      · cases u with
        | nil =>
            obtain ⟨rfl, -⟩ := List.cons.inj heq
            exact absurd hplain (by decide)
        | cons d u =>
            obtain ⟨rfl, htail⟩ := List.cons.inj heq
            obtain ⟨rfl, rfl, rfl⟩ := ih (fun d hd => hu d (List.mem_cons_of_mem _ hd)) htail
            exact ⟨rfl, rfl, rfl⟩
      · cases u with
        | nil => exact absurd (List.cons.inj heq).1 (by decide)
        | cons d u =>
            obtain ⟨rfl, -⟩ := List.cons.inj heq
            exact absurd (hu '\\' (List.mem_cons_self ..)) (by decide)

end Strings

section Heads

/-- The first character of a value. -/
def Value.Opens (c : Char) : Value → Prop
  | .null => c = 'n'
  | .bool b => c = if b then 't' else 'f'
  | .number _ => c = '-' ∨ c.isDigit = true
  | .string _ => c = '"'
  | .array _ => c = '['
  | .object _ => c = '\x7b'

variable {t u r : List Char} {v : Value} {c : Char}

theorem Numeral.opens (h : Numeral t) : ∃ c u, t = c :: u ∧ (c = '-' ∨ c.isDigit = true) := by
  obtain ⟨sign, hsign, ds, frac, exp, ⟨hne, hdigits⟩, -, -, -, rfl⟩ := h
  obtain ⟨d, ds, rfl⟩ := List.exists_cons_of_ne_nil hne
  rcases List.mem_pair.mp hsign with rfl | rfl
  · exact ⟨d, ds ++ frac ++ exp, rfl, Or.inr (hdigits d (List.mem_cons_self ..))⟩
  · exact ⟨'-', d :: ds ++ frac ++ exp, rfl, Or.inl rfl⟩

theorem ValueText.opens (h : ValueText t v) : ∃ c u, t = c :: u ∧ v.Opens c := by
  cases h with
  | null => exact ⟨_, _, rfl, rfl⟩
  | bool b => cases b <;> exact ⟨_, _, rfl, rfl⟩
  | number h => exact h.opens
  | string h => exact ⟨_, _, rfl, rfl⟩
  | emptyArray h => exact ⟨_, _, rfl, rfl⟩
  | array h => exact ⟨_, _, rfl, rfl⟩
  | emptyObject h => exact ⟨_, _, rfl, rfl⟩
  | object h => exact ⟨_, _, rfl, rfl⟩

/-- A document that does not start with a blank starts with its value. -/
theorem Document.opens (h : Document t v) (hc : isBlank c = false) (heq : t ++ r = c :: u) :
    v.Opens c ∧ ∃ w back, ValueText w v ∧ Blank back ∧ w ++ (back ++ r) = c :: u := by
  obtain ⟨hl, hw, hback⟩ := h
  obtain ⟨d, w, rfl, hopens⟩ := hw.opens
  rw [List.append_assoc, List.cons_append, List.cons_append] at heq
  obtain ⟨rfl, rfl, rfl⟩ := hl.front hc heq
  exact ⟨hopens, _, _, hw, hback, by simp⟩

theorem Value.string_of_opens (h : v.Opens '"') : ∃ s, v = .string s := by
  cases v with
  | string s => exact ⟨s, rfl⟩
  | bool b => cases b <;> exact absurd h (by simp [Opens])
  | null | number n | array vs | object ms => exact absurd h (by simp [Opens])

theorem Value.object_of_opens (h : v.Opens '\x7b') : ∃ ms, v = .object ms := by
  cases v with
  | object ms => exact ⟨ms, rfl⟩
  | bool b => cases b <;> exact absurd h (by simp [Opens])
  | null | number n | array vs | string s => exact absurd h (by simp [Opens])

/-- A quote opens a string. -/
theorem Document.string_of_quote (h : Document t v) (heq : t ++ r = '"' :: u) :
    ∃ w s back, v = .string s ∧ StringText w s ∧ Blank back ∧ w ++ '"' :: (back ++ r) = u := by
  obtain ⟨hopens, w, back, hw, hback, hsplit⟩ := h.opens (by decide) heq
  obtain ⟨s, rfl⟩ := Value.string_of_opens hopens
  cases hw with
  | string hs =>
      obtain ⟨-, hrest⟩ := List.cons.inj hsplit
      exact ⟨_, _, back, rfl, hs, hback, by simpa using hrest⟩

/-- A brace opens an object, and a quote after it the key of a member. -/
theorem Document.object_of_brace (h : Document t v) (heq : t ++ r = '\x7b' :: '"' :: u) :
    ∃ w ms back, v = .object ms ∧ MembersText w ms ∧ Blank back ∧
      w ++ '\x7d' :: (back ++ r) = '"' :: u := by
  obtain ⟨hopens, w, back, hw, hback, hsplit⟩ := h.opens (by decide) heq
  obtain ⟨ms, rfl⟩ := Value.object_of_opens hopens
  cases hw with
  | object hms =>
      obtain ⟨-, hrest⟩ := List.cons.inj hsplit
      exact ⟨_, _, back, rfl, hms, hback, by simpa using hrest⟩
  | @emptyObject w hblank =>
      have hrest : w ++ '\x7d' :: (back ++ r) = '"' :: u := by simpa using hsplit
      exact absurd (hblank.front (by decide) hrest).2.1 (by decide)

end Heads

section OneMember

/-- An object with one member, written without blanks. -/
def oneMember (key w : List Char) : List Char :=
  "\x7b\"".toList ++ key ++ "\":\"".toList ++ w ++ "\"\x7d".toList

theorem oneMember_eq (key w : List Char) : oneMember key w =
    '\x7b' :: '"' :: (key ++ '"' :: ':' :: '"' :: (w ++ ['"', '\x7d'])) := by
  simp [oneMember]

variable {t u r key w s : List Char} {v : Value} {m : List Char × Value}
  {ms : List (List Char × Value)}

theorem MembersText.ne_nil (h : MembersText t ms) : ms ≠ [] := by
  cases h with
  | one hm => exact List.cons_ne_nil _ _
  | more hm hrest => exact List.cons_ne_nil _ _

theorem MembersText.first (h : MembersText t ms) : ∃ m rest p q, ms = m :: rest ∧ t = p ++ q ∧
    MemberText p m ∧ (rest = [] ∧ q = [] ∨ rest ≠ [] ∧ ∃ u, q = ',' :: u) := by
  cases h with
  | one hm => exact ⟨_, [], t, [], rfl, (List.append_nil t).symm, hm, Or.inl ⟨rfl, rfl⟩⟩
  | more hm hrest => exact ⟨_, _, _, _, rfl, rfl, hm, Or.inr ⟨hrest.ne_nil, _, rfl⟩⟩

/-- A member that is written without blanks and whose value starts with a quote. -/
theorem MemberText.of_key (h : MemberText t m) (hkey : Plain key)
    (heq : t ++ r = '"' :: (key ++ '"' :: ':' :: '"' :: u)) :
    ∃ x s gap, m = (key, .string s) ∧ StringText x s ∧ Blank gap ∧
      x ++ '"' :: (gap ++ r) = u := by
  obtain ⟨hl, hk, hr, hv⟩ := h
  simp only [List.append_assoc, List.cons_append] at heq
  obtain ⟨rfl, -, hname⟩ := hl.front (by decide) heq
  obtain ⟨-, rfl, hcolon⟩ := hk.eq_plain hkey hname
  obtain ⟨rfl, -, hvalue⟩ := hr.front (by decide) hcolon
  obtain ⟨x, s, gap, rfl, hx, hgap, hstring⟩ := hv.string_of_quote hvalue
  exact ⟨x, s, gap, rfl, hx, hgap, hstring⟩

/-- Up to the first value the text of the object can be read in one way only. -/
theorem oneMember_first (hkey : Plain key) (h : Document (oneMember key w) v) :
    ∃ s rest x gap q back, v = .object ((key, .string s) :: rest) ∧ StringText x s ∧
      Blank gap ∧ Blank back ∧ x ++ '"' :: (gap ++ (q ++ '\x7d' :: back)) = w ++ ['"', '\x7d'] ∧
      (rest = [] ∧ q = [] ∨ rest ≠ [] ∧ ∃ u, q = ',' :: u) := by
  rw [oneMember_eq] at h
  obtain ⟨t, ms, back, rfl, hms, hback, hmembers⟩ := h.object_of_brace (List.append_nil _)
  obtain ⟨m, rest, p, q, rfl, rfl, hm, hq⟩ := hms.first
  rw [List.append_assoc] at hmembers
  obtain ⟨x, s, gap, rfl, hx, hgap, hstring⟩ := hm.of_key hkey hmembers
  rw [List.append_nil] at hstring
  exact ⟨s, rest, x, gap, q, back, rfl, hx, hgap, hback, hstring, hq⟩

theorem oneMember_reads_iff (hkey : Plain key) :
    Document (oneMember key w) (.object [(key, .string s)]) ↔ StringText w s := by
  constructor
  · intro h
    obtain ⟨s', rest, x, gap, q, back, hv, hx, hgap, hback, htext, hq⟩ := oneMember_first hkey h
    obtain ⟨rfl, rfl⟩ : s = s' ∧ [] = rest := by simpa using hv
    obtain rfl : q = [] := by
      rcases hq with ⟨-, hq⟩ | ⟨hne, -⟩
      · exact hq
      · exact absurd rfl hne
    have hbrace : (x ++ '"' :: gap) ++ '\x7d' :: back = (w ++ ['"']) ++ ['\x7d'] := by
      simpa using htext
    obtain ⟨rfl, -, hquote⟩ := hback.back (by decide) hbrace
    obtain ⟨rfl, -, rfl⟩ := hgap.back (by decide) hquote
    exact hx
  · intro h
    have hvalue : Document ('"' :: w ++ ['"']) (.string s) := by
      simpa using Document.padded blank_nil (.string h) blank_nil
    have hmember := MemberText.named blank_nil (.of_plain hkey) blank_nil hvalue
    have hobject := Document.padded blank_nil (.object (.one hmember)) blank_nil
    rw [oneMember_eq]
    simpa using hobject

/-- A text with nothing to escape leaves no other reading. -/
theorem oneMember_unique (hkey : Plain key) (hw : Plain w) (h : Document (oneMember key w) v) :
    v = .object [(key, .string w)] := by
  obtain ⟨s, rest, x, gap, q, back, rfl, hx, hgap, hback, htext, hq⟩ := oneMember_first hkey h
  obtain ⟨-, rfl, hend⟩ := hx.eq_plain hw htext
  rcases hq with ⟨rfl, -⟩ | ⟨-, u, rfl⟩
  · rfl
  · exact absurd (hgap.front (by decide) hend).2.1 (by decide)

end OneMember

end MockServices.Foundations.Json
