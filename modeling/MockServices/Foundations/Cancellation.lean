import MockServices.Foundations.SegmentPath

/-!
# Cancelling moves

A walk from the empty stack goes through exactly when no beginning of it
goes up more often than down, and then the names that are left are those
of the normal form. The settling walk, which ignores a move up from the
empty stack, leaves the same names in every case.
-/

namespace MockServices.Foundations.SegmentPath

variable {α : Type*}

def Move.isUp : Move α → Bool
  | .up => true
  | _ => false

def Move.isDown : Move α → Bool
  | .down _ => true
  | _ => false

/-- No beginning of the moves leads above where they begin. -/
def NeverAbove (ms : List (Move α)) : Prop :=
  ∀ k, (ms.take k).countP Move.isUp ≤ (ms.take k).countP Move.isDown

/-- Every move up that takes a name off the stack takes one that satisfies `P`. -/
def PopsOnly (P : List α → Prop) : List (List α) → List (Move α) → Prop
  | _, [] => True
  | stack, .stay :: ms => PopsOnly P stack ms
  | stack, .up :: ms => (∀ n ∈ stack.getLast?, P n) ∧ PopsOnly P stack.dropLast ms
  | stack, .down n :: ms => PopsOnly P (stack ++ [n]) ms

theorem walk_isSome_iff (stack : List (List α)) (ms : List (Move α)) :
    (walk stack ms).isSome ↔
      ∀ k, (ms.take k).countP Move.isUp ≤ stack.length + (ms.take k).countP Move.isDown := by
  induction ms generalizing stack with
  | nil => simp [walk]
  | cons m ms ih =>
      -- The empty beginning says nothing, the others begin with `m`.
      have hsplit : (∀ k, ((m :: ms).take k).countP Move.isUp ≤
            stack.length + ((m :: ms).take k).countP Move.isDown) ↔
          ∀ k, (m :: ms.take k).countP Move.isUp ≤
            stack.length + (m :: ms.take k).countP Move.isDown := by
        constructor
        · intro h k
          exact h (k + 1)
        · intro h k
          cases k with
          | zero => exact Nat.zero_le _
          | succ k => exact h k
      rw [hsplit]
      simp only [List.countP_cons]
      cases m with
      | stay => simpa [walk, Move.isUp, Move.isDown] using ih stack
      | up =>
          simp only [Move.isUp, Move.isDown, walk]
          by_cases hstack : stack = []
          · subst hstack
            rw [if_pos rfl]
            refine iff_of_false (by simp) fun h => ?_
            have hzero := h 0
            simp at hzero
          · have hpos := List.length_pos_iff.mpr hstack
            rw [if_neg hstack, ih, List.length_dropLast]
            refine forall_congr' fun k => ?_
            simp only [if_true, Bool.false_eq_true, if_false]
            omega
      | down n =>
          simp only [Move.isUp, Move.isDown, walk, ih, List.length_append, List.length_singleton]
          refine forall_congr' fun k => ?_
          simp only [if_true, Bool.false_eq_true, if_false]
          omega

theorem neverAbove_iff_climb {ms : List (Move α)} : NeverAbove ms ↔ (reduce ms).climb = 0 := by
  have hwalk := walk_isSome_iff [] ms
  simp only [List.length_nil, Nat.zero_add] at hwalk
  rw [NeverAbove, ← hwalk, walk_eq_reduce, Relative.apply, List.length_nil]
  split <;> simp_all

instance (ms : List (Move α)) : Decidable (NeverAbove ms) :=
  decidable_of_iff _ neverAbove_iff_climb.symm

theorem settle_append (stack : List (List α)) (ms ns : List (Move α)) :
    settle stack (ms ++ ns) = settle (settle stack ms) ns := by
  induction ms generalizing stack with
  | nil => rfl
  | cons m ms ih =>
      cases m with
      | stay => exact ih stack
      | up => exact ih stack.dropLast
      | down n => exact ih (stack ++ [n])

/-- From the empty stack a walk settles where its normal form descends to. -/
theorem settle_eq_descend (ms : List (Move α)) : settle [] ms = (reduce ms).descend := by
  induction ms using List.reverseRecOn with
  | nil => rfl
  | append_singleton ms m ih =>
      have hstep : reduce (ms ++ [m]) = (reduce ms).step m := by
        rw [reduce, List.foldl_concat, reduce]
      rw [settle_append, ih, hstep]
      cases m with
      | stay => rfl
      | down n => rfl
      | up =>
          by_cases hdescend : (reduce ms).descend = []
          · simp [settle, Relative.step, hdescend]
          · simp [settle, Relative.step, hdescend]

/-- What is left on the stack was there or has been entered. -/
theorem mem_settle {stack : List (List α)} {ms : List (Move α)} {n : List α}
    (h : n ∈ settle stack ms) : n ∈ stack ∨ .down n ∈ ms := by
  induction ms generalizing stack with
  | nil => exact Or.inl h
  | cons m ms ih =>
      cases m with
      | stay => exact (ih h).imp_right (List.mem_cons_of_mem _)
      | up => exact (ih h).imp (List.mem_of_mem_dropLast ·) (List.mem_cons_of_mem _)
      | down name =>
          rcases ih h with hstack | hms
          · rcases List.mem_append.mp hstack with hstack | hname
            · exact Or.inl hstack
            · obtain rfl := List.mem_singleton.mp hname
              exact Or.inr List.mem_cons_self
          · exact Or.inr (List.mem_cons_of_mem _ hms)

theorem reduce_append (ms ns : List (Move α)) :
    reduce (ms ++ ns) = ns.foldl Relative.step (reduce ms) := List.foldl_append

theorem reduce_map_down (names : List (List α)) : reduce (names.map .down) = ⟨0, names⟩ := by
  induction names using List.reverseRecOn with
  | nil => rfl
  | append_singleton names n ih =>
      rw [List.map_append, reduce_append, ih]
      rfl

theorem reduce_stay_cons (ms : List (Move α)) : reduce (.stay :: ms) = reduce ms := rfl

theorem reduce_concat_stay (ms : List (Move α)) : reduce (ms ++ [.stay]) = reduce ms := by
  rw [reduce_append]
  rfl

/-- The one normal form after the other. -/
def Relative.comp (r s : Relative α) : Relative α where
  climb := r.climb + (s.climb - r.descend.length)
  descend := r.descend.take (r.descend.length - s.climb) ++ s.descend

theorem Relative.comp_step (r s : Relative α) (m : Move α) :
    (r.comp s).step m = r.comp (s.step m) := by
  cases m with
  | stay => rfl
  | down n => simp [Relative.comp, Relative.step]
  | up =>
      by_cases hs : s.descend = []
      · by_cases hle : r.descend.length ≤ s.climb
        · have hzero : r.descend.length - s.climb = 0 := by omega
          have hzero' : r.descend.length - (s.climb + 1) = 0 := by omega
          simp only [Relative.comp, Relative.step, hs, hzero, hzero', List.take_zero,
            List.append_nil, if_true, Relative.mk.injEq, and_true]
          omega
        · have hne : r.descend.take (r.descend.length - s.climb) ≠ [] := by
            rw [Ne, List.take_eq_nil_iff, not_or]
            exact ⟨by omega, fun hnil => hle (by simp [hnil])⟩
          have hpred : r.descend.length - (s.climb + 1) = r.descend.length - s.climb - 1 := by omega
          simp only [Relative.comp, Relative.step, hs, List.append_nil, if_neg hne, if_true,
            Relative.mk.injEq]
          refine ⟨by omega, ?_⟩
          rw [hpred, List.dropLast_eq_take, List.take_take, List.length_take]
          congr 1
          omega
      · simp [Relative.comp, Relative.step, hs, List.dropLast_append_of_ne_nil]

/-- Moves take a normal form along as theirs does. -/
theorem foldl_step (r : Relative α) (ms : List (Move α)) :
    ms.foldl Relative.step r = r.comp (reduce ms) := by
  induction ms using List.reverseRecOn with
  | nil => simp [reduce, Relative.comp]
  | append_singleton ms m ih =>
      rw [List.foldl_concat, ih, Relative.comp_step, reduce_append]
      rfl

/-- The moves come to one move down. -/
def OneDown (ms : List (Move α)) : Prop :=
  (reduce ms).climb = 0 ∧ (reduce ms).descend.length = 1

instance (ms : List (Move α)) : Decidable (OneDown ms) := inferInstanceAs (Decidable (_ ∧ _))

/-- Going down and up again is no move at all. -/
theorem OneDown.cancels {ms : List (Move α)} (h : OneDown ms) (r : Relative α) :
    (ms.foldl Relative.step r).step .up = r := by
  obtain ⟨hclimb, hdescend⟩ := h
  obtain ⟨n, hn⟩ := List.length_eq_one_iff.mp hdescend
  rw [foldl_step]
  simp [Relative.comp, Relative.step, hclimb, hn]

theorem oneDown_down (n : List α) : OneDown [.down n] := ⟨rfl, rfl⟩

/-- Each segment may stand for several moves. Where it goes up over names
that come to one move down, cancelling them beforehand changes nothing. -/
theorem foldl_expand (expand : Move α → List (Move α)) (hstay : expand .stay = [.stay])
    (hup : expand .up = [.up]) {stack out : List (List α)} {ms : List (Move α)}
    (hwalk : walk stack ms = some out)
    (hpops : PopsOnly (fun n => OneDown (expand (.down n))) stack ms) (r : Relative α) :
    ((stack.flatMap fun n => expand (.down n)) ++ ms.flatMap expand).foldl Relative.step r =
      (out.flatMap fun n => expand (.down n)).foldl Relative.step r := by
  induction ms generalizing stack with
  | nil =>
      have hout : stack = out := by simpa [walk] using hwalk
      simp [hout]
  | cons m ms ih =>
      cases m with
      | stay =>
          rw [← ih hwalk hpops, List.flatMap_cons, hstay]
          simp only [List.foldl_append, List.foldl_cons, List.foldl_nil, Relative.step]
      | down n =>
          have hrest := ih hwalk hpops
          rw [← hrest, List.flatMap_append, List.flatMap_singleton, List.flatMap_cons,
            List.append_assoc]
      | up =>
          by_cases hstack : stack = []
          · simp [walk, hstack] at hwalk
          · rw [walk, if_neg hstack] at hwalk
            obtain ⟨hlast, hpops⟩ := hpops
            have hn := hlast _ (List.getLast?_eq_some_getLast hstack)
            rw [← ih hwalk hpops]
            conv_lhs => rw [← List.dropLast_concat_getLast hstack]
            rw [List.flatMap_append, List.flatMap_singleton, List.flatMap_cons, hup]
            simp only [List.append_assoc, List.foldl_append, List.foldl_cons, List.foldl_nil,
              hn.cancels]

theorem popsOnly_true (stack : List (List α)) (ms : List (Move α)) :
    PopsOnly (fun _ => True) stack ms := by
  induction ms generalizing stack with
  | nil => trivial
  | cons m ms ih =>
      cases m with
      | stay => exact ih stack
      | up => exact ⟨fun _ _ => trivial, ih stack.dropLast⟩
      | down n => exact ih (stack ++ [n])

/-- Only names that were on the stack or have been entered are taken off it. -/
theorem PopsOnly.imp {P Q : List α → Prop} {stack : List (List α)} {ms : List (Move α)}
    (h : PopsOnly P stack ms) (hstack : ∀ n ∈ stack, P n → Q n)
    (hms : ∀ n, .down n ∈ ms → P n → Q n) : PopsOnly Q stack ms := by
  induction ms generalizing stack with
  | nil => trivial
  | cons m ms ih =>
      have hrest : ∀ n, .down n ∈ ms → P n → Q n := fun n hn => hms n (List.mem_cons_of_mem _ hn)
      cases m with
      | stay => exact ih h hstack hrest
      | up =>
          refine ⟨fun n hn => hstack n (List.mem_of_getLast? hn) (h.1 n hn), ih h.2 ?_ hrest⟩
          exact fun n hn => hstack n (List.mem_of_mem_dropLast hn)
      | down name =>
          refine ih h (fun n hn => ?_) hrest
          rcases List.mem_append.mp hn with hn | hn
          · exact hstack n hn
          · obtain rfl := List.mem_singleton.mp hn
            exact hms n List.mem_cons_self

theorem getLast_joined {sep dot : α} {names : List (List α)} (h : ∀ n ∈ names, IsName sep dot n) :
    ([sep].intercalate names).getLast? ≠ some sep := by
  induction names with
  | nil => simp
  | cons n names ih =>
      cases names with
      | nil =>
          intro hlast
          rw [List.intercalate_singleton] at hlast
          exact (h n List.mem_cons_self).sep_notMem (List.mem_of_getLast? hlast)
      | cons m names =>
          have hne : [sep].intercalate (m :: names) ≠ [] := by
            intro hnil
            have hm := (h m (by simp)).ne_nil
            cases names with
            | nil => exact hm (by simpa using hnil)
            | cons k names => simp [List.intercalate_cons_cons] at hnil
          rw [List.intercalate_cons_cons, List.getLast?_append_of_ne_nil _ hne]
          exact ih fun k hk => h k (List.mem_cons_of_mem _ hk)

theorem head_joined {sep dot : α} {names : List (List α)} (h : ∀ n ∈ names, IsName sep dot n)
    (rest : List α) : [sep].intercalate names ≠ sep :: rest := by
  cases names with
  | nil => simp
  | cons n names =>
      obtain ⟨a, name, rfl⟩ := List.exists_cons_of_ne_nil (h n List.mem_cons_self).ne_nil
      have hsep := (h _ List.mem_cons_self).sep_notMem
      intro heq
      have hhead : a = sep := by
        cases names with
        | nil => simpa using congrArg List.head? heq
        | cons m names => simpa [List.intercalate_cons_cons] using congrArg List.head? heq
      exact hsep (hhead ▸ List.mem_cons_self)

section Text

variable [DecidableEq α] {sep dot : α} {names : List (List α)}

/-- One segment of the settling walk, spelled as the scan of a path text
decides it. -/
theorem settle_move_cons (dot : α) (stack : List (List α)) (seg : List α) (ms : List (Move α)) :
    settle stack (move dot seg :: ms) =
      if seg = [dot, dot] then settle stack.dropLast ms
      else if seg ≠ [] ∧ seg ≠ [dot] then settle (stack ++ [seg]) ms
      else settle stack ms := by
  unfold move
  split_ifs <;> rfl

/-- Names that are joined are read back, and nothing else with them. -/
theorem reduce_joined (h : ∀ n ∈ names, IsName sep dot n) :
    reduce (moves sep dot ([sep].intercalate names)) = ⟨0, names⟩ := by
  by_cases hnames : names = []
  · subst hnames
    rw [List.intercalate_nil, moves_nil]
    rfl
  · rw [moves_intercalate h hnames, reduce_map_down]

end Text

end MockServices.Foundations.SegmentPath
