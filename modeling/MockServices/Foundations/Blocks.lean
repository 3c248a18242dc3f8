import Mathlib.Data.List.Infix

/-!
# Copying in blocks

A content is cut into blocks of a bounded length and each block is offered
once to a call that takes a prefix of it. The copy is exact only if every
call takes the whole of its block.
-/

namespace MockServices.Foundations

variable {α : Type*}

section Chunks

variable {n : ℕ}

theorem flatten_toChunks_go (xs : List α) (block : Array α) (blocks : Array (List α)) :
    (List.toChunks.go n xs block blocks).flatten =
      blocks.toList.flatten ++ block.toList ++ xs := by
  induction xs generalizing block blocks with
  | nil => simp [List.toChunks.go]
  | cons x xs ih =>
      rw [List.toChunks.go]
      split
      · simp [ih]
      · simp [ih]

theorem length_toChunks_go (hn : 0 < n) (xs : List α) (block : Array α) (blocks : Array (List α))
    (hblock : block.size ≤ n) (hblocks : ∀ b ∈ blocks, b.length ≤ n) :
    ∀ b ∈ List.toChunks.go n xs block blocks, b.length ≤ n := by
  induction xs generalizing block blocks with
  | nil =>
      intro b hb
      simp only [List.toChunks.go, Array.toList_push, List.mem_append, List.mem_singleton,
        Array.mem_toList_iff] at hb
      rcases hb with hb | rfl
      · exact hblocks b hb
      · simpa using hblock
  | cons x xs ih =>
      rw [List.toChunks.go]
      split
      · have hone : ((Array.mkEmpty n).push x).size ≤ n := hn
        refine ih _ _ hone fun b hb => ?_
        rcases Array.mem_push.mp hb with hb | rfl
        · exact hblocks b hb
        · simpa using hblock
      · next hfull =>
        refine ih _ _ ?_ hblocks
        simp only [Array.size_push]
        simp only [beq_iff_eq] at hfull
        omega

theorem flatten_toChunks (n : ℕ) (xs : List α) : (xs.toChunks n).flatten = xs := by
  cases xs with
  | nil => rw [List.toChunks, List.flatten_nil]
  | cons x xs =>
      cases n with
      | zero => simp [List.toChunks]
      | succ n => simp [List.toChunks, flatten_toChunks_go]

theorem length_of_mem_toChunks (hn : 0 < n) {xs block : List α} (h : block ∈ xs.toChunks n) :
    block.length ≤ n := by
  cases xs with
  | nil => simp [List.toChunks] at h
  | cons x xs =>
      obtain ⟨m, rfl⟩ := Nat.exists_eq_add_of_lt hn
      rw [Nat.zero_add] at *
      rw [List.toChunks] at h
      · exact length_toChunks_go hn xs #[x] #[] (by simp) (by simp) block h
      · simp

end Chunks

/-- Block `k` is offered to a call that takes at most `taken k` of it. -/
def copied (taken : ℕ → ℕ) : List (List α) → List α
  | [] => []
  | block :: blocks => block.take (taken 0) ++ copied (fun k => taken (k + 1)) blocks

theorem length_copied_le (blocks : List (List α)) (taken : ℕ → ℕ) :
    (copied taken blocks).length ≤ blocks.flatten.length := by
  induction blocks generalizing taken with
  | nil => exact Nat.le_refl _
  | cons block blocks ih =>
      rw [copied, List.length_append, List.flatten_cons, List.length_append]
      exact Nat.add_le_add (List.length_take_le' ..) (ih _)

theorem copied_eq_iff (blocks : List (List α)) (taken : ℕ → ℕ) :
    copied taken blocks = blocks.flatten ↔
      ∀ k block, blocks[k]? = some block → block.length ≤ taken k := by
  induction blocks generalizing taken with
  | nil => simp [copied]
  | cons block blocks ih =>
      rw [copied, List.flatten_cons]
      constructor
      · intro h
        have hlength := congrArg List.length h
        have hrest := length_copied_le blocks fun k => taken (k + 1)
        simp only [List.length_append, List.length_take] at hlength
        have hwhole : block.length ≤ taken 0 := by omega
        rw [List.take_of_length_le hwhole, List.append_cancel_left_eq] at h
        intro k other hother
        cases k with
        | zero => exact Option.some.inj hother ▸ hwhole
        | succ k => exact (ih _).mp h k other hother
      · intro h
        rw [List.take_of_length_le (h 0 block rfl), (ih _).mpr fun k other => h (k + 1) other]

end MockServices.Foundations
