import MockServices.Foundations.Cancellation
import MockServices.Ftp.Containment

/-!
# Arguments that stay inside the directory

The client's part of a path stays inside when no beginning of it has more
`..` than names. The resolver then appends to the base the names that no
`..` has cancelled, and nothing else of the argument is left.
-/

namespace MockServices.Ftp

open Foundations.SegmentPath

def StaysInside (path : Text) : Prop := NeverAbove (moves '/' '.' path)

instance (path : Text) : Decidable (StaysInside path) := inferInstanceAs (Decidable (NeverAbove _))

/-- The names that remain after every `..` has taken the name before it. -/
def remaining (path : Text) : List Text := settle [] (moves '/' '.' path)

theorem remaining_isName {path : Text} : ∀ n ∈ remaining path, IsName '/' '.' n := by
  intro n hn
  rcases mem_settle hn with hnone | hdown
  · cases hnone
  · exact (down_mem_moves hdown).2

theorem mem_of_mem_remaining {path n : Text} (hn : n ∈ remaining path) {c : Char} (hc : c ∈ n) :
    c ∈ path := by
  rcases mem_settle hn with hnone | hdown
  · cases hnone
  · exact mem_of_mem_splitOn (down_mem_moves hdown).1 hc

theorem relativeMove_of_staysInside {cwd target : Text}
    (h : StaysInside (relativePath cwd target)) :
    relativeMove cwd target = ⟨0, remaining (relativePath cwd target)⟩ := by
  have hclimb := neverAbove_iff_climb.mp h
  rw [remaining, settle_eq_descend, relativeMove, ← hclimb]

theorem resolve_of_staysInside (root : NormalRoot) {cwd target : Text}
    (h : StaysInside (relativePath cwd target)) :
    resolve root.text cwd target =
      absolute '/' (root.names ++ remaining (relativePath cwd target)) := by
  have hparts : (relativeMove cwd target).apply root.names =
      some (root.names ++ remaining (relativePath cwd target)) := by
    rw [relativeMove_of_staysInside h]
    simp [Relative.apply]
  have hbelow : root.text <+:
      absolute '/' (root.names ++ remaining (relativePath cwd target)) := by
    refine (absolute_prefix_iff_or ?_ ?_ ?_).mpr (Or.inl (List.prefix_append _ _))
    · intro n hn
      exact (root.isName n hn).sep_notMem
    · intro n hn
      exact (root.isName n hn).ne_nil
    · intro n hn
      exact (apply_isName root hparts n hn).sep_notMem
  rw [resolve_eq, hparts]
  exact if_pos hbelow

theorem backslash_notMem_slashed (t : Text) : '\\' ∉ slashed t := by
  intro h
  obtain ⟨c, -, hc⟩ := List.mem_map.mp h
  split at hc
  · exact absurd hc (by decide)
  · next hne => exact hne hc

theorem relativePath_slash (cwd rest : Text) : relativePath cwd ('/' :: rest) = slashed rest := rfl

theorem relativePath_of_relative (cwd : Text) {target : Text} (h : ∀ rest, target ≠ '/' :: rest) :
    relativePath cwd target = slashed (cwd ++ '/' :: target) := by
  unfold relativePath
  split
  · next rest => exact absurd rfl (h rest)
  · rfl

theorem backslash_notMem_relativePath (cwd target : Text) : '\\' ∉ relativePath cwd target := by
  unfold relativePath
  split <;> exact backslash_notMem_slashed _

section Again

variable {names : List Text}

theorem slashed_joined (h : ∀ n ∈ names, '\\' ∉ n) :
    slashed (['/'].intercalate names) = ['/'].intercalate names := by
  apply slashed_of_notMem
  intro hmem
  rcases mem_intercalate hmem with heq | ⟨n, hn, hc⟩
  · exact absurd heq (by decide)
  · exact h n hn hc

/-- The names, joined, lead where they stand for, as a working directory, as
a relative and as an absolute argument. -/
theorem relativeMove_joined (hname : ∀ n ∈ names, IsName '/' '.' n)
    (hplain : ∀ n ∈ names, '\\' ∉ n) :
    relativeMove [] (['/'].intercalate names) = ⟨0, names⟩ ∧
      relativeMove (['/'].intercalate names) [] = ⟨0, names⟩ ∧
        ∀ cwd, relativeMove cwd ('/' :: ['/'].intercalate names) = ⟨0, names⟩ := by
  have hjoined := reduce_joined hname
  refine ⟨?_, ?_, fun cwd => ?_⟩
  · rw [relativeMove, relativePath_of_relative [] (head_joined hname), List.nil_append,
      slashed_cons_slash, slashed_joined hplain, moves_cons_sep, reduce_stay_cons, hjoined]
  · rw [relativeMove, relativePath_of_relative _ (by simp), slashed_append, slashed_joined hplain,
      slashed_cons_slash, moves_append]
    exact (reduce_concat_stay _).trans hjoined
  · rw [relativeMove, relativePath_slash, slashed_joined hplain, hjoined]

end Again

theorem resolve_congr (root : NormalRoot) {cwd target cwd' target' : Text}
    (h : relativeMove cwd target = relativeMove cwd' target') :
    resolve root.text cwd target = resolve root.text cwd' target' := by
  rw [resolve_eq, h, resolve_eq]

/-- The lexical resolution of an argument that stays inside the directory. -/
theorem resolve_lexical (root : NormalRoot) (hroot : root.names ≠ []) (cwd target : Text)
    (hinside : StaysInside (relativePath cwd target)) :
    let names := remaining (relativePath cwd target)
    let path := root.text ++ names.flatMap ('/' :: ·)
    resolve root.text cwd target ≠ [] ∧ resolve root.text cwd target = path ∧
    (∀ cwd' target', StaysInside (relativePath cwd' target') →
      remaining (relativePath cwd' target') = names → resolve root.text cwd' target' = path) ∧
    resolve root.text [] (['/'].intercalate names) = path ∧
    resolve root.text (['/'].intercalate names) [] = path ∧
    ∀ cwd', resolve root.text cwd' ('/' :: ['/'].intercalate names) = path := by
  intro names path
  have hname : ∀ n ∈ names, IsName '/' '.' n := remaining_isName
  have hplain : ∀ n ∈ names, '\\' ∉ n := by
    intro n hn hmem
    exact backslash_notMem_relativePath cwd target (mem_of_mem_remaining hn hmem)
  have hmove := relativeMove_of_staysInside hinside
  have hpath : ∀ cwd' target', relativeMove cwd' target' = ⟨0, names⟩ →
      resolve root.text cwd' target' = path := by
    intro cwd' target' h
    rw [resolve_congr root (h.trans hmove.symm), resolve_of_staysInside root hinside,
      absolute_append '/' hroot]
    rfl
  obtain ⟨hrelative, hcwd, habsolute⟩ := relativeMove_joined hname hplain
  refine ⟨?_, hpath _ _ hmove, ?_, hpath _ _ hrelative, hpath _ _ hcwd, ?_⟩
  · rw [resolve_of_staysInside root hinside]
    exact absolute_ne_nil _ _
  · intro cwd' target' hinside' heq
    exact hpath _ _ (heq ▸ relativeMove_of_staysInside hinside')
  · intro cwd'
    exact hpath _ _ (habsolute cwd')

theorem resolve_lexical_alice :
    resolve aliceRoot.text "docs" "..\\.//notes" = txt "/tmp/ms/alice/notes" ∧
      resolve aliceRoot.text [] "notes" = txt "/tmp/ms/alice/notes" := by
  have h := resolve_lexical aliceRoot (by decide) "docs" "..\\.//notes" (by decide)
  exact ⟨h.2.1, h.2.2.2.1⟩

end MockServices.Ftp
