import MockServices.Foundations.Run

/-!
# What a run leaves behind

A trail collects what each step of a run leaves behind. Where a part of the
state holds what has come in and not yet gone out, every step keeps the
balance, and so does every run.
-/

namespace MockServices.Foundations

variable {σ ι α β γ : Type*}

def trail (step : σ → ι → Option σ) (leaves : σ → ι → List α) : σ → List ι → List α
  | _, [] => []
  | s, i :: is => leaves s i ++ (step s i).elim [] fun t => trail step leaves t is

/-- The entries of one of the parties, in their order. -/
def entriesOf [DecidableEq γ] (party : γ) (entries : List (γ × α)) : List α :=
  entries.flatMap fun entry => if entry.1 = party then [entry.2] else []

section Laws

variable {step : σ → ι → Option σ} {leaves : σ → ι → List α}

@[simp] theorem trail_nil (s : σ) : trail step leaves s [] = [] := rfl

theorem trail_cons {s t : σ} {i : ι} (h : step s i = some t) (is : List ι) :
    trail step leaves s (i :: is) = leaves s i ++ trail step leaves t is := by
  rw [trail, h, Option.elim_some]

theorem trail_append {s t : σ} {is : List ι} (hrun : run step s is = some t) (js : List ι) :
    trail step leaves s (is ++ js) = trail step leaves s is ++ trail step leaves t js := by
  induction is generalizing s with
  | nil =>
      obtain rfl : s = t := by simpa using hrun
      rfl
  | cons i is ih =>
      obtain ⟨u, hu, ht⟩ := run_cons_some_iff.mp hrun
      rw [List.cons_append, trail_cons hu, trail_cons hu, ih ht, List.append_assoc]

/-- Steps that leave the same behind make the same trail. -/
theorem trail_congr {P : σ → ι → Prop} {others : σ → ι → List α}
    (h : ∀ s i, P s i → leaves s i = others s i) {s t : σ} {is : List ι}
    (hP : Along step P s is) (hrun : run step s is = some t) :
    trail step leaves s is = trail step others s is := by
  induction is generalizing s with
  | nil => rfl
  | cons i is ih =>
      obtain ⟨u, hu, ht⟩ := run_cons_some_iff.mp hrun
      rw [trail_cons hu, trail_cons hu, h s i hP.1, ih (hP.2 u hu) ht]

theorem mem_trail {s : σ} {is : List ι} {a : α} (ha : a ∈ trail step leaves s is) :
    ∃ before i after t, is = before ++ i :: after ∧ run step s before = some t ∧
      a ∈ leaves t i := by
  induction is generalizing s with
  | nil => cases ha
  | cons i is ih =>
      rw [trail, List.mem_append] at ha
      rcases ha with hhead | htail
      · exact ⟨[], i, is, s, rfl, rfl, hhead⟩
      · cases hstep : step s i with
        | none =>
            rw [hstep] at htail
            cases htail
        | some u =>
            rw [hstep] at htail
            obtain ⟨before, j, after, t, rfl, hrun, hj⟩ := ih htail
            exact ⟨i :: before, j, after, t, rfl, run_cons_some_iff.mpr ⟨u, hstep, hrun⟩, hj⟩

/-- What every step can leave behind wherever an invariant holds is all that a
run leaves behind. -/
theorem forall_mem_trail {I : σ → Prop} {Q : α → Prop} {s t : σ} {is : List ι}
    (hleaves : ∀ s i, I s → ∀ a ∈ leaves s i, Q a) (hI : Always step I s is)
    (hrun : run step s is = some t) : ∀ a ∈ trail step leaves s is, Q a := by
  induction is generalizing s with
  | nil => simp
  | cons i is ih =>
      obtain ⟨u, hu, ht⟩ := run_cons_some_iff.mp hrun
      intro a ha
      rw [trail_cons hu, List.mem_append] at ha
      rcases ha with hhead | htail
      · exact hleaves s i hI.1 a hhead
      · exact ih (hI.2 u hu) ht a htail

/-- What was held and has come in, is what has gone out and is held. -/
theorem trail_balance {I : σ → Prop} {puts : σ → ι → List α} {takes : σ → ι → List β}
    {held : σ → List γ} {put : α → List γ} {taken : β → List γ}
    (hinv : ∀ s i t, I s → step s i = some t → I t)
    (hstep : ∀ s i t, I s → step s i = some t →
      held s ++ (puts s i).flatMap put = (takes s i).flatMap taken ++ held t)
    {s t : σ} {is : List ι} (hI : I s) (hrun : run step s is = some t) :
    held s ++ (trail step puts s is).flatMap put =
      (trail step takes s is).flatMap taken ++ held t := by
  induction is generalizing s with
  | nil =>
      obtain rfl : s = t := by simpa using hrun
      simp
  | cons i is ih =>
      obtain ⟨u, hu, ht⟩ := run_cons_some_iff.mp hrun
      have hrest := ih (hinv s i u hI hu) ht
      rw [trail_cons hu, trail_cons hu, List.flatMap_append, List.flatMap_append,
        ← List.append_assoc, hstep s i u hI hu, List.append_assoc, hrest, List.append_assoc]

end Laws

section Entries

variable [DecidableEq γ] {party : γ}

@[simp] theorem entriesOf_nil : entriesOf party ([] : List (γ × α)) = [] := rfl

theorem entriesOf_append (entries more : List (γ × α)) :
    entriesOf party (entries ++ more) = entriesOf party entries ++ entriesOf party more :=
  List.flatMap_append ..

theorem entriesOf_flatMap (entries : List (γ × α)) (f : α → List β) :
    (entriesOf party entries).flatMap f =
      entries.flatMap fun entry => if entry.1 = party then f entry.2 else [] := by
  rw [entriesOf, List.flatMap_assoc]
  refine List.flatMap_congr fun entry _ => ?_
  split <;> simp

theorem mem_entriesOf {entries : List (γ × α)} {a : α} :
    a ∈ entriesOf party entries ↔ (party, a) ∈ entries := by
  simp only [entriesOf, List.mem_flatMap]
  constructor
  · rintro ⟨⟨p, b⟩, hmem, hb⟩
    split at hb
    · next heq => simpa [← heq, List.mem_singleton.mp hb] using hmem
    · cases hb
  · exact fun h => ⟨_, h, by simp⟩

end Entries

end MockServices.Foundations
