import Mathlib.Data.List.Infix

/-!
# Reading a stream that arrives in pieces

A source hands over its contents in non-empty pieces of its own choosing.
A reader asks for exact amounts, one after the other, and may stop early.
What a reader answers depends on the contents alone: running it over the
pieces agrees with parsing their concatenation. Parsing a prefix code
this way recovers every complete word and stops at an incomplete one.
-/

namespace MockServices.Foundations

universe u

variable {α : Type*} {β γ : Type u}

structure Source (α : Type*) where
  pieces : List (List α)
  nonempty : ∀ piece ∈ pieces, piece ≠ []

namespace Source

def contents (s : Source α) : List α := s.pieces.flatten

/-- One call of `recv`: at most `length` items, and never an empty answer
while anything is left. -/
def recv (length : ℕ) : Source α → Option (List α × Source α)
  | ⟨[], _⟩ => none
  | ⟨piece :: pieces, h⟩ =>
      if hlong : length < piece.length then
        some (piece.take length, ⟨piece.drop length :: pieces, by
          intro p hp
          rcases List.mem_cons.mp hp with rfl | hp
          · exact fun hnil => by
              have := List.drop_eq_nil_iff.mp hnil
              omega
          · exact h p (List.mem_cons_of_mem _ hp)⟩)
      else some (piece, ⟨pieces, fun p hp => h p (List.mem_cons_of_mem _ hp)⟩)

theorem recv_none {length : ℕ} {s : Source α} (h : s.recv length = none) : s.contents = [] := by
  obtain ⟨pieces, hpieces⟩ := s
  cases pieces with
  | nil => rfl
  | cons piece pieces =>
      simp only [recv] at h
      split at h <;> cases h

theorem recv_some {length : ℕ} {s t : Source α} {got : List α} (hlength : length ≠ 0)
    (h : s.recv length = some (got, t)) :
    s.contents = got ++ t.contents ∧ got.length ≤ length ∧ 0 < got.length := by
  obtain ⟨pieces, hpieces⟩ := s
  cases pieces with
  | nil => simp [recv] at h
  | cons piece pieces =>
      have hpiece : piece ≠ [] := hpieces piece List.mem_cons_self
      simp only [recv] at h
      split at h
      · cases h
        refine ⟨?_, ?_, ?_⟩
        · simp only [contents, List.flatten_cons, ← List.append_assoc, List.take_append_drop]
        · exact List.length_take_le length piece
        · rw [List.length_take]
          omega
      · cases h
        exact ⟨rfl, by omega, List.length_pos_iff.mpr hpiece⟩

/-- Calls `recv` until the whole amount has arrived. -/
def recvExact (length : ℕ) (s : Source α) : Option (List α × Source α) :=
  if _hlength : length = 0 then some ([], s)
  else match _hrecv : s.recv length with
    | none => none
    | some (got, t) => (recvExact (length - got.length) t).map fun r => (got ++ r.1, r.2)
termination_by length
decreasing_by
  obtain ⟨-, -, hpos⟩ := recv_some _hlength _hrecv
  omega

theorem recvExact_contents (length : ℕ) (s : Source α) :
    (s.recvExact length).map (fun r => (r.1, r.2.contents)) =
      if length ≤ s.contents.length then
        some (s.contents.take length, s.contents.drop length) else none := by
  induction length using Nat.strongRecOn generalizing s with
  | ind length ih =>
      unfold recvExact
      split
      · next hzero => simp [hzero]
      · next hlength =>
          split
          · next hrecv =>
              have hempty : s.contents = [] := recv_none hrecv
              simp [hempty, hlength]
          · next got t hrecv =>
              obtain ⟨hcontents, hle, hpos⟩ := recv_some hlength hrecv
              have hrest := ih (length - got.length) (by omega) t
              rw [Option.map_map, hcontents, List.length_append, List.take_append,
                List.drop_append, List.take_of_length_le hle, List.drop_of_length_le hle]
              by_cases henough : length - got.length ≤ t.contents.length
              · rw [if_pos henough] at hrest
                rw [if_pos (by omega)]
                obtain ⟨r, hr, heq⟩ := Option.map_eq_some_iff.mp hrest
                simpa [hr] using heq
              · rw [if_neg henough] at hrest
                rw [if_neg (by omega), Option.map_eq_none_iff.mp hrest]
                rfl

end Source

/-- A program that asks for exact amounts and ends with an answer or in failure. -/
inductive Reader (α β : Type*) where
  | done (answer : β)
  | fail
  | exact (length : ℕ) (next : List α → Reader α β)

namespace Reader

def bind : Reader α β → (β → Reader α γ) → Reader α γ
  | .done b, f => f b
  | .fail, _ => .fail
  | .exact length next, f => .exact length fun got => (next got).bind f

instance : Monad (Reader α) where
  pure := .done
  bind := bind

/-- The items themselves, once all of them are there. -/
def recvExact (length : ℕ) : Reader α (List α) := .exact length .done

/-- The reader at work on a source. -/
def run : Reader α β → Source α → Option (β × Source α)
  | .done b, s => some (b, s)
  | .fail, _ => none
  | .exact length next, s => (s.recvExact length).bind fun r => (next r.1).run r.2

/-- The reader at work on the whole contents. -/
def parse : Reader α β → List α → Option (β × List α)
  | .done b, xs => some (b, xs)
  | .fail, _ => none
  | .exact length next, xs =>
      if length ≤ xs.length then (next (xs.take length)).parse (xs.drop length) else none

@[simp] theorem parse_pure (b : β) (xs : List α) : (pure b : Reader α β).parse xs = some (b, xs) :=
  rfl

@[simp] theorem parse_recvExact (length : ℕ) (xs : List α) :
    (recvExact length : Reader α (List α)).parse xs =
      if length ≤ xs.length then some (xs.take length, xs.drop length) else none := rfl

theorem parse_bind (r : Reader α β) (f : β → Reader α γ) (xs : List α) :
    (r >>= f).parse xs = (r.parse xs).bind fun b => (f b.1).parse b.2 := by
  change (r.bind f).parse xs = _
  induction r generalizing xs with
  | done b => rfl
  | fail => rfl
  | exact length next ih =>
      simp only [bind, parse]
      split
      · exact ih _ _
      · rfl

theorem run_bind (r : Reader α β) (f : β → Reader α γ) (s : Source α) :
    (r >>= f).run s = (r.run s).bind fun b => (f b.1).run b.2 := by
  change (r.bind f).run s = _
  induction r generalizing s with
  | done b => rfl
  | fail => rfl
  | exact length next ih =>
      simp only [bind, run, Option.bind_assoc]
      exact Option.bind_congr fun got _ => ih got.1 got.2

/-- The way the contents are cut into pieces does not show in the answer. -/
theorem run_contents (r : Reader α β) (s : Source α) :
    (r.run s).map (fun b => (b.1, b.2.contents)) = r.parse s.contents := by
  induction r generalizing s with
  | done b => rfl
  | fail => rfl
  | exact length next ih =>
      have hexact := s.recvExact_contents length
      simp only [run, parse]
      cases hrecv : s.recvExact length with
      | none =>
          rw [hrecv] at hexact
          split at hexact
          · cases hexact
          · next hshort => rw [if_neg hshort]; rfl
      | some r =>
          rw [hrecv] at hexact
          split at hexact
          · next hlength =>
              have hfst : r.1 = s.contents.take length := congrArg Prod.fst (Option.some.inj hexact)
              have hsnd : r.2.contents = s.contents.drop length :=
                congrArg Prod.snd (Option.some.inj hexact)
              rw [if_pos hlength, Option.bind_some, ih, hfst, hsnd]
          · cases hexact

theorem run_none_iff {r : Reader α β} {s : Source α} :
    r.run s = none ↔ r.parse s.contents = none := by
  rw [← run_contents, Option.map_eq_none_iff]

theorem run_some_iff {r : Reader α β} {s : Source α} {b : β} {xs : List α} :
    r.parse s.contents = some (b, xs) ↔ ∃ t, r.run s = some (b, t) ∧ t.contents = xs := by
  rw [← run_contents, Option.map_eq_some_iff]
  simp

/-- What follows the part a reader has consumed does not influence it. -/
theorem parse_append {r : Reader α β} {xs ys : List α} {b : β} (zs : List α)
    (h : r.parse xs = some (b, ys)) : r.parse (xs ++ zs) = some (b, ys ++ zs) := by
  induction r generalizing xs with
  | done c =>
      obtain ⟨rfl, rfl⟩ := Prod.ext_iff.mp (Option.some.inj h)
      rfl
  | fail => cases h
  | exact length next ih =>
      simp only [parse] at h ⊢
      split at h
      · next hlength =>
          have hlonger : length ≤ (xs ++ zs).length := by
            rw [List.length_append]
            omega
          rw [if_pos hlonger, List.take_append_of_le_length hlength,
            List.drop_append_of_le_length hlength]
          exact ih _ h
      · cases h

theorem parse_length_le {r : Reader α β} {xs ys : List α} {b : β}
    (h : r.parse xs = some (b, ys)) : ys.length ≤ xs.length := by
  induction r generalizing xs with
  | done c =>
      obtain ⟨-, rfl⟩ := Prod.ext_iff.mp (Option.some.inj h)
      exact le_rfl
  | fail => cases h
  | exact length next ih =>
      simp only [parse] at h
      split at h
      · exact (ih _ h).trans (by simp)
      · cases h

/-- Every successful turn consumes something. -/
def Progresses (r : Reader α β) : Prop :=
  ∀ xs b ys, r.parse xs = some (b, ys) → ys.length < xs.length

theorem Progresses.run {r : Reader α β} (h : r.Progresses) {s t : Source α} {b : β}
    (hrun : r.run s = some (b, t)) : t.contents.length < s.contents.length :=
  h _ _ _ (run_some_iff.mpr ⟨t, hrun, rfl⟩)

/-- Reads until the first failure. -/
def readAll (r : Reader α β) (hr : r.Progresses) (s : Source α) : List β :=
  match _hrun : r.run s with
  | none => []
  | some (b, t) => b :: readAll r hr t
termination_by s.contents.length
decreasing_by exact hr.run _hrun

/-- Reads a fixed number of answers. -/
def readMany (r : Reader α β) : ℕ → Source α → Option (List β × Source α)
  | 0, s => some ([], s)
  | n + 1, s => (r.run s).bind fun b => (readMany r n b.2).map fun bs => (b.1 :: bs.1, bs.2)

section PrefixCode

variable {r : Reader α β} {encode : β → List α}

/-- An incomplete code word is not read. -/
theorem parse_cut {b : β} (hword : r.parse (encode b) = some (b, [])) {cut more : List α}
    (hcut : encode b = cut ++ more) (hmore : more ≠ []) : r.parse cut = none := by
  cases h : r.parse cut with
  | none => rfl
  | some c =>
      have hlonger := parse_append more h
      rw [← hcut, hword] at hlonger
      have hrest : [] = c.2 ++ more := congrArg Prod.snd (Option.some.inj hlonger)
      exact (hmore (List.append_eq_nil_iff.mp hrest.symm).2).elim

/-- Of a stream that begins with a code word, of which only a part may have
arrived, the reader reads the word or fails. -/
theorem run_word {b : β} {word more : List α} (hword : r.parse word = some (b, []))
    {s : Source α} (hs : s.contents <+: word ++ more) :
    r.run s = none ∨ ∃ t, r.run s = some (b, t) ∧ t.contents <+: more := by
  obtain ⟨missing, hmissing⟩ := hs
  rcases List.append_eq_append_iff.mp hmissing with ⟨cut, hcut, -⟩ | ⟨rest, hrest, hmore⟩
  · by_cases hempty : cut = []
    · subst hempty
      rw [List.append_nil] at hcut
      obtain ⟨t, hrun, ht⟩ := run_some_iff.mp (hcut ▸ hword)
      exact .inr ⟨t, hrun, by rw [ht]; exact List.nil_prefix⟩
    · have hnone := @parse_cut α β r (fun _ => word) b hword _ _ hcut hempty
      exact .inl (run_none_iff.mpr hnone)
  · have hparse := parse_append rest hword
    rw [← hrest, List.nil_append] at hparse
    obtain ⟨t, hrun, rfl⟩ := run_some_iff.mp hparse
    exact .inr ⟨t, hrun, missing, hmore.symm⟩

theorem readMany_words {bs : List β} (hwords : ∀ b ∈ bs, r.parse (encode b) = some (b, []))
    {tail : List α} {s : Source α} (hs : s.contents = bs.flatMap encode ++ tail) :
    ∃ t, r.readMany bs.length s = some (bs, t) ∧ t.contents = tail := by
  induction bs generalizing s with
  | nil => exact ⟨s, rfl, hs⟩
  | cons b bs ih =>
      have hfirst := parse_append (bs.flatMap encode ++ tail) (hwords b List.mem_cons_self)
      rw [List.nil_append, ← List.append_assoc, ← List.flatMap_cons, ← hs] at hfirst
      obtain ⟨t, hrun, ht⟩ := run_some_iff.mp hfirst
      obtain ⟨u, hmany, hu⟩ := ih (fun c hc => hwords c (List.mem_cons_of_mem _ hc)) ht
      exact ⟨u, by simp [readMany, hrun, hmany], hu⟩

/-- Reading a sequence of code words followed by an unreadable remainder
yields exactly those words. -/
theorem readAll_words (hr : r.Progresses) {bs : List β}
    (hwords : ∀ b ∈ bs, r.parse (encode b) = some (b, [])) {cut : List α}
    (hcut : r.parse cut = none) {s : Source α} (hs : s.contents = bs.flatMap encode ++ cut) :
    r.readAll hr s = bs := by
  induction bs generalizing s with
  | nil =>
      have hnone : r.run s = none := run_none_iff.mpr (hs ▸ hcut)
      unfold readAll
      split
      · rfl
      · next hrun => simp [hnone] at hrun
  | cons b bs ih =>
      have hfirst := parse_append (bs.flatMap encode ++ cut) (hwords b List.mem_cons_self)
      rw [List.nil_append, ← List.append_assoc, ← List.flatMap_cons, ← hs] at hfirst
      obtain ⟨t, hrun, ht⟩ := run_some_iff.mp hfirst
      unfold readAll
      split
      · next hnone => simp [hrun] at hnone
      · next hsome =>
          rw [hrun] at hsome
          cases hsome
          rw [ih (fun c hc => hwords c (List.mem_cons_of_mem _ hc)) ht]

end PrefixCode

end Reader

end MockServices.Foundations
