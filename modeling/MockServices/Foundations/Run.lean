import Mathlib.Data.List.Infix

/-!
# Runs of a partial step function

A step function consumes one input and answers `none` when the input is
not enabled. A run threads a state through a list of inputs. Invariants
are proved for one step and transported to whole runs here, once.
-/

namespace MockServices.Foundations

variable {σ ι : Type*}

def run (step : σ → ι → Option σ) : σ → List ι → Option σ
  | s, [] => some s
  | s, i :: is => (step s i).bind fun t => run step t is

/-- Every step taken along the run satisfies `P` in the state before it. -/
def Along (step : σ → ι → Option σ) (P : σ → ι → Prop) : σ → List ι → Prop
  | _, [] => True
  | s, i :: is => P s i ∧ ∀ t, step s i = some t → Along step P t is

/-- Every state of the run, the first and the last included, satisfies `Q`. -/
def Always (step : σ → ι → Option σ) (Q : σ → Prop) : σ → List ι → Prop
  | s, [] => Q s
  | s, i :: is => Q s ∧ ∀ t, step s i = some t → Always step Q t is

instance decidableAlong (step : σ → ι → Option σ) (P : σ → ι → Prop)
    [∀ s i, Decidable (P s i)] : ∀ s is, Decidable (Along step P s is)
  | _, [] => isTrue trivial
  | s, i :: is =>
      match h : step s i with
      | none =>
          decidable_of_iff (P s i)
            ⟨fun hP => ⟨hP, fun t ht => by simp [h] at ht⟩, fun hA => hA.1⟩
      | some t =>
          have := decidableAlong step P t is
          decidable_of_iff (P s i ∧ Along step P t is)
            ⟨fun hA => ⟨hA.1, fun u hu => Option.some.inj (h.symm.trans hu) ▸ hA.2⟩,
              fun hA => ⟨hA.1, hA.2 t h⟩⟩

instance decidableAlways (step : σ → ι → Option σ) (Q : σ → Prop) [∀ s, Decidable (Q s)] :
    ∀ s is, Decidable (Always step Q s is)
  | s, [] => inferInstanceAs (Decidable (Q s))
  | s, i :: is =>
      match h : step s i with
      | none =>
          decidable_of_iff (Q s)
            ⟨fun hQ => ⟨hQ, fun t ht => by simp [h] at ht⟩, fun hA => hA.1⟩
      | some t =>
          have := decidableAlways step Q t is
          decidable_of_iff (Q s ∧ Always step Q t is)
            ⟨fun hA => ⟨hA.1, fun u hu => Option.some.inj (h.symm.trans hu) ▸ hA.2⟩,
              fun hA => ⟨hA.1, hA.2 t h⟩⟩

/-- A list with one more entry splits at the new entry or at an old one. -/
theorem split_concat {α : Type*} {xs before after : List α} {a b : α}
    (h : xs ++ [a] = before ++ b :: after) :
    before = xs ∧ b = a ∧ after = [] ∨
      ∃ after', after = after' ++ [a] ∧ xs = before ++ b :: after' := by
  obtain rfl | ⟨after', last, rfl⟩ := List.eq_nil_or_concat after
  · obtain ⟨hxs, hlast⟩ := List.append_inj' h rfl
    exact .inl ⟨hxs.symm, (List.singleton_inj.mp hlast).symm, rfl⟩
  · rw [List.concat_eq_append, ← List.cons_append, ← List.append_assoc] at h
    obtain ⟨hxs, hlast⟩ := List.append_inj' h rfl
    exact .inr ⟨after', by rw [List.concat_eq_append, hlast], hxs⟩

/-- Something of the one kind is in the list, and nothing of the other kind
after it. -/
def Since {α : Type*} (opens closes : α → Prop) (xs : List α) : Prop :=
  ∃ before x after, xs = before ++ x :: after ∧ opens x ∧ ∀ y ∈ after, ¬ closes y

section Since

variable {α : Type*} {opens closes : α → Prop} {xs : List α} {a : α}

theorem not_since_nil : ¬ Since opens closes [] := by
  rintro ⟨before, x, after, hsplit, -⟩
  simp at hsplit

theorem since_concat_iff :
    Since opens closes (xs ++ [a]) ↔ opens a ∨ Since opens closes xs ∧ ¬ closes a := by
  constructor
  · rintro ⟨before, x, after, hsplit, hopens, hcloses⟩
    rcases split_concat hsplit with ⟨-, rfl, -⟩ | ⟨after', rfl, hxs⟩
    · exact .inl hopens
    · refine .inr ⟨⟨before, x, after', hxs, hopens, fun y hy => hcloses y ?_⟩, hcloses a ?_⟩
      · exact List.mem_append_left _ hy
      · exact List.mem_append_right _ (List.mem_singleton_self a)
  · rintro (hopens | ⟨⟨before, x, after, rfl, hopens, hcloses⟩, ha⟩)
    · exact ⟨xs, a, [], rfl, hopens, List.forall_mem_nil _⟩
    · refine ⟨before, x, after ++ [a], by simp, hopens, fun y hy => ?_⟩
      rcases List.mem_append.mp hy with hy | hy
      · exact hcloses y hy
      · exact List.mem_singleton.mp hy ▸ ha

end Since

section Laws

variable {step : σ → ι → Option σ}

@[simp] theorem run_nil (s : σ) : run step s [] = some s := rfl

theorem run_cons (s : σ) (i : ι) (is : List ι) :
    run step s (i :: is) = (step s i).bind fun t => run step t is := rfl

theorem run_cons_some_iff {s t : σ} {i : ι} {is : List ι} :
    run step s (i :: is) = some t ↔ ∃ u, step s i = some u ∧ run step u is = some t := by
  rw [run_cons, Option.bind_eq_some_iff]

theorem run_append_some_iff {s u : σ} {is js : List ι} :
    run step s (is ++ js) = some u ↔ ∃ t, run step s is = some t ∧ run step t js = some u := by
  induction is generalizing s with
  | nil => simp
  | cons i is ih =>
      rw [List.cons_append, run_cons_some_iff]
      simp only [ih, run_cons_some_iff]
      constructor
      · rintro ⟨v, hv, t, ht, hu⟩
        exact ⟨t, ⟨v, hv, ht⟩, hu⟩
      · rintro ⟨t, ⟨v, hv, ht⟩, hu⟩
        exact ⟨v, hv, t, ht, hu⟩

theorem run_append {s t u : σ} {is js : List ι} (hfirst : run step s is = some t)
    (hlast : run step t js = some u) : run step s (is ++ js) = some u :=
  run_append_some_iff.mpr ⟨t, hfirst, hlast⟩

/-- A part of the state that every step changes in a way that only its
input decides is the fold of those changes over the inputs. -/
theorem run_foldl {γ : Type*} {change : γ → ι → γ} {part : σ → γ}
    (hstep : ∀ s i t, step s i = some t → part t = change (part s) i) {s t : σ} {is : List ι}
    (hrun : run step s is = some t) : part t = is.foldl change (part s) := by
  induction is generalizing s with
  | nil =>
      have hst : s = t := by simpa using hrun
      exact hst ▸ rfl
  | cons i is ih =>
      obtain ⟨u, hu, ht⟩ := run_cons_some_iff.mp hrun
      rw [List.foldl_cons, ← hstep s i u hu, ih ht]

/-- An invariant may also speak of the inputs taken so far. -/
theorem run_history {P : List ι → σ → Prop}
    (hstep : ∀ taken s i t, P taken s → step s i = some t → P (taken ++ [i]) t) {s t : σ}
    {is : List ι} (hinit : P [] s) (hrun : run step s is = some t) : P is t := by
  suffices h : ∀ taken s, P taken s → run step s is = some t → P (taken ++ is) t from
    h [] s hinit hrun
  clear hinit hrun
  induction is with
  | nil =>
      intro taken s h hrun
      have hst : s = t := by simpa using hrun
      simpa [hst] using h
  | cons i is ih =>
      intro taken s h hrun
      obtain ⟨u, hu, ht⟩ := run_cons_some_iff.mp hrun
      simpa using ih _ u (hstep taken s i u h hu) ht

/-- An invariant that survives the steps allowed by `P` survives every run
whose steps are all allowed by `P`. -/
theorem run_invariant_along {P : σ → ι → Prop} {I : σ → Prop}
    (hstep : ∀ s i t, I s → P s i → step s i = some t → I t) {s t : σ} {is : List ι}
    (hinv : I s) (hP : Along step P s is) (hrun : run step s is = some t) : I t := by
  induction is generalizing s with
  | nil =>
      have hst : s = t := by simpa using hrun
      exact hst ▸ hinv
  | cons i is ih =>
      obtain ⟨u, hu, ht⟩ := run_cons_some_iff.mp hrun
      exact ih (hstep s i u hinv hP.1 hu) (hP.2 u hu) ht

theorem along_of_forall {P : σ → ι → Prop} (h : ∀ s i, P s i) (s : σ) (is : List ι) :
    Along step P s is := by
  induction is generalizing s with
  | nil => trivial
  | cons i is ih => exact ⟨h s i, fun t _ => ih t⟩

theorem run_invariant {I : σ → Prop} (hstep : ∀ s i t, I s → step s i = some t → I t) {s t : σ}
    {is : List ι} (hinv : I s) (hrun : run step s is = some t) : I t :=
  run_invariant_along (P := fun _ _ => True) (fun s i t h _ => hstep s i t h) hinv
    (along_of_forall (fun _ _ => trivial) s is) hrun

theorem Along.append {P : σ → ι → Prop} {s t : σ} {is js : List ι}
    (h : Along step P s (is ++ js)) (hrun : run step s is = some t) : Along step P t js := by
  induction is generalizing s with
  | nil =>
      have hst : s = t := by simpa using hrun
      exact hst ▸ h
  | cons i is ih =>
      obtain ⟨u, hu, ht⟩ := run_cons_some_iff.mp hrun
      exact ih (h.2 u hu) ht

/-- Two properties of steps that agree wherever an invariant holds agree
along every run. -/
theorem along_congr_of_invariant {P Q : σ → ι → Prop} {I : σ → Prop}
    (hstep : ∀ s i t, I s → step s i = some t → I t) (h : ∀ s i, I s → (P s i ↔ Q s i)) {s : σ}
    (hinv : I s) (is : List ι) : Along step P s is ↔ Along step Q s is := by
  induction is generalizing s with
  | nil => exact Iff.rfl
  | cons i is ih =>
      exact and_congr (h s i hinv) (forall₂_congr fun t ht => ih (hstep s i t hinv ht))

theorem along_congr {P Q : σ → ι → Prop} (h : ∀ s i, P s i ↔ Q s i) (s : σ) (is : List ι) :
    Along step P s is ↔ Along step Q s is :=
  along_congr_of_invariant (I := fun _ => True) (fun _ _ _ _ _ => trivial) (fun s i _ => h s i)
    trivial is

/-- A property of all steps along a run is one of every step that the run
comes to. -/
theorem along_iff_forall_split {P : σ → ι → Prop} {s : σ} {is : List ι} :
    Along step P s is ↔ ∀ before i after t, is = before ++ i :: after →
      run step s before = some t → P t i := by
  induction is generalizing s with
  | nil => exact iff_of_true trivial fun before i after t h => by simp at h
  | cons j is ih =>
      constructor
      · rintro ⟨hfirst, hrest⟩ before i after t heq hrun
        cases before with
        | nil =>
            obtain rfl : s = t := by simpa using hrun
            obtain rfl : j = i := by simpa using congrArg List.head? heq
            exact hfirst
        | cons k before =>
            obtain ⟨rfl, hsplit⟩ := List.cons.inj heq
            obtain ⟨u, hu, ht⟩ := run_cons_some_iff.mp hrun
            exact ih.mp (hrest u hu) before i after t hsplit ht
      · intro h
        refine ⟨h [] j is s rfl rfl, fun u hu => ih.mpr fun before i after t heq hrun => ?_⟩
        exact h (j :: before) i after t (by rw [heq, List.cons_append])
          (run_cons_some_iff.mpr ⟨u, hu, hrun⟩)

theorem Always.head {Q : σ → Prop} {s : σ} {is : List ι} (h : Always step Q s is) : Q s := by
  cases is with
  | nil => exact h
  | cons i is => exact h.1

theorem Always.of_run {Q : σ → Prop} {s t : σ} {is : List ι} (h : Always step Q s is)
    (hrun : run step s is = some t) : Q t := by
  induction is generalizing s with
  | nil =>
      have hst : s = t := by simpa using hrun
      exact hst ▸ h
  | cons i is ih =>
      obtain ⟨u, hu, ht⟩ := run_cons_some_iff.mp hrun
      exact ih (h.2 u hu) ht

/-- The same invariant, read off every state the run passes through. -/
theorem always_of_invariant_along {P : σ → ι → Prop} {I Q : σ → Prop}
    (hstep : ∀ s i t, I s → P s i → step s i = some t → I t) (hQ : ∀ s, I s → Q s)
    {s : σ} {is : List ι} (hinv : I s) (hP : Along step P s is) : Always step Q s is := by
  induction is generalizing s with
  | nil => exact hQ s hinv
  | cons i is ih =>
      exact ⟨hQ s hinv, fun t ht => ih (hstep s i t hinv hP.1 ht) (hP.2 t ht)⟩

/-- What holds of every allowed step from a state that satisfies the
invariant holds along the run. -/
theorem along_of_invariant_along {P R : σ → ι → Prop} {I : σ → Prop}
    (hstep : ∀ s i t, I s → P s i → step s i = some t → I t) (hR : ∀ s i, I s → P s i → R s i)
    {s : σ} {is : List ι} (hinv : I s) (hP : Along step P s is) : Along step R s is := by
  induction is generalizing s with
  | nil => trivial
  | cons i is ih =>
      exact ⟨hR s i hinv hP.1, fun t ht => ih (hstep s i t hinv hP.1 ht) (hP.2 t ht)⟩

theorem Always.along {Q : σ → Prop} {s : σ} {is : List ι} (h : Always step Q s is) :
    Along step (fun s _ => Q s) s is := by
  induction is generalizing s with
  | nil => trivial
  | cons i is ih => exact ⟨h.1, fun t ht => ih (h.2 t ht)⟩

/-- Where a step that misses `P` is enabled and breaks `Q` at once, and
every other step keeps an invariant behind `Q`, a run always satisfies `Q`
exactly when all its steps satisfy `P`. -/
theorem always_iff_along {P : σ → ι → Prop} {I Q : σ → Prop} (hQ : ∀ s, I s → Q s)
    (hkeep : ∀ s i t, I s → P s i → step s i = some t → I t)
    (hbreak : ∀ s i, I s → ¬ P s i → ∃ t, step s i = some t ∧ ¬ Q t) {s : σ} (hinv : I s)
    (is : List ι) : Always step Q s is ↔ Along step P s is := by
  induction is generalizing s with
  | nil => exact ⟨fun _ => trivial, fun _ => hQ s hinv⟩
  | cons i is ih =>
      by_cases hP : P s i
      · exact and_congr (iff_of_true (hQ s hinv) hP)
          (forall₂_congr fun t ht => ih (hkeep s i t hinv hP ht))
      · obtain ⟨t, ht, hnot⟩ := hbreak s i hinv hP
        exact iff_of_false (fun h => hnot (h.2 t ht).head) fun h => hP h.1

/-- The same where the law has a part `R` about the steps. A step that
meets `P` keeps to it, and one that keeps to it and leads to `Q` meets `P`. -/
theorem always_and_along_iff_along {P R : σ → ι → Prop} {I Q : σ → Prop} (hQ : ∀ s, I s → Q s)
    (hkeep : ∀ s i t, I s → P s i → step s i = some t → I t) (hR : ∀ s i, I s → P s i → R s i)
    (hback : ∀ s i, I s → R s i → (∀ t, step s i = some t → Q t) → P s i) {s : σ} (hinv : I s)
    (is : List ι) : Always step Q s is ∧ Along step R s is ↔ Along step P s is := by
  constructor
  · rintro ⟨hstates, hsteps⟩
    induction is generalizing s with
    | nil => trivial
    | cons i is ih =>
        have hP := hback s i hinv hsteps.1 fun t ht => (hstates.2 t ht).head
        exact ⟨hP, fun t ht => ih (hkeep s i t hinv hP ht) (hstates.2 t ht) (hsteps.2 t ht)⟩
  · intro hP
    exact ⟨always_of_invariant_along hkeep hQ hinv hP, along_of_invariant_along hkeep hR hinv hP⟩

end Laws

end MockServices.Foundations
