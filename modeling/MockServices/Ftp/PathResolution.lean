import MockServices.Foundations.SegmentPath
import MockServices.Text

/-!
# The FTP path resolver

`resolve` joins the account's directory, the working directory and the
command's argument as text, rewrites backslashes, scans the result once
with a stack of segments and compares the text it rebuilds with the text
of the base. The scan is shown to be the walk of the segment library, so
the result is determined by the normal form of the client's part.
-/

namespace MockServices.Ftp

open Foundations.SegmentPath

/-- `if (character == '\\') character = '/'` for every character. -/
def slashed (t : Text) : Text := t.map fun character => if character = '\\' then '/' else character

/-- The textual join at the head of `resolve`. -/
def rawPath (base cwd target : Text) : Text :=
  let raw := if cwd = [] then base else base ++ '/' :: cwd
  match target with
  | [] => raw
  | '/' :: rest => base ++ '/' :: rest
  | _ => raw ++ '/' :: target

/-- The scan of `resolve`; `none` is its early `return {}`. -/
def scanParts : Text → List Text → Text → Option (List Text)
  | [], parts, _ => some parts
  | character :: rest, parts, currentPart =>
      if character = '/' then
        if currentPart = ['.', '.'] then
          if parts = [] then none else scanParts rest parts.dropLast []
        else if currentPart ≠ [] ∧ currentPart ≠ ['.'] then
          scanParts rest (parts ++ [currentPart]) []
        else scanParts rest parts []
      else scanParts rest parts (currentPart ++ [character])

/-- The empty text is the refusal. The scan sees one more `/` after `raw`. -/
def resolve (base cwd target : Text) : Text :=
  let raw := slashed (rawPath base cwd target)
  match scanParts (raw ++ ['/']) [] [] with
  | none => []
  | some parts =>
      let joined := ['/'].intercalate parts
      let result := if raw.head? = some '/' then '/' :: joined else joined
      if result = [] then base
      else
        let normBase := slashed base
        if result.take normBase.length = normBase then result else []

/-- The client's part of the path, as one text relative to the base. -/
def relativePath (cwd target : Text) : Text :=
  match target with
  | '/' :: rest => slashed rest
  | _ => slashed (cwd ++ '/' :: target)

/-- Where the client's part leads: levels up from the base, then names. -/
def relativeMove (cwd target : Text) : Relative Char :=
  reduce (moves '/' '.' (relativePath cwd target))

/-- A directory in normal form without backslashes, as `phy_root` is when
it is set from a temporary directory and a plain account root. -/
structure NormalRoot extends NormalPath '/' '.' where
  backslash_notMem : ∀ n ∈ names, '\\' ∉ n

/-- Segment by segment, `path` is `root` or lies below it. -/
def Within (root : NormalRoot) (path : Text) : Prop := root.names <+: segments '/' path

instance (root : NormalRoot) (path : Text) : Decidable (Within root path) :=
  inferInstanceAs (Decidable (_ <+: _))

/-- The move climbs at least one level above the root and comes back down
along the root's own names, except that in the place of the root's last
name it enters one that strictly extends it. -/
def IntoExtendedSibling (names : List Text) (r : Relative Char) : Prop :=
  ∃ above mid last suffix rest, names = above ++ (mid ++ [last]) ∧ r.climb = mid.length + 1 ∧
    suffix ≠ [] ∧ r.descend = mid ++ (last ++ suffix) :: rest

@[simp] theorem slashed_append (s t : Text) : slashed (s ++ t) = slashed s ++ slashed t :=
  List.map_append

@[simp] theorem slashed_cons_slash (t : Text) : slashed ('/' :: t) = '/' :: slashed t := rfl

theorem slashed_of_notMem {t : Text} (h : '\\' ∉ t) : slashed t = t := by
  refine (List.map_congr_left ?_).trans (List.map_id t)
  intro c hc
  have hne : c ≠ '\\' := fun heq => h (heq ▸ hc)
  simp [hne]

theorem NormalRoot.slashed_text (root : NormalRoot) : slashed root.text = root.text := by
  apply slashed_of_notMem
  intro hmem
  rcases List.mem_cons.mp hmem with h | h
  · simp at h
  · rcases mem_intercalate h with h | ⟨n, hn, hc⟩
    · simp at h
    · exact root.backslash_notMem n hn hc

/-- The scan is the walk over the segments not yet closed. -/
theorem scanParts_eq_walk (rest current : Text) (parts : List Text) (h : '/' ∉ current) :
    scanParts (rest ++ ['/']) parts current = walk parts (moves '/' '.' (current ++ rest)) := by
  induction rest generalizing parts current with
  | nil =>
      rw [List.append_nil, moves_of_notMem '.' h, walk_move_cons]
      simp [scanParts, walk]
  | cons c rest ih =>
      by_cases hc : c = '/'
      · subst hc
        have hih : ∀ ps, scanParts (rest ++ ['/']) ps [] = walk ps (moves '/' '.' rest) :=
          fun ps => by simpa using ih [] ps (by simp)
        rw [moves_append, moves_of_notMem '.' h, List.singleton_append, walk_move_cons]
        simp [scanParts, hih]
      · have hcurrent : '/' ∉ current ++ [c] := by simp [h, Ne.symm hc]
        simpa [scanParts, hc] using ih (current ++ [c]) parts hcurrent

/-- Scanning the joined text walks from the root along the client's part. -/
theorem walk_rawPath (root : NormalRoot) (cwd target : Text) :
    walk [] (moves '/' '.' (slashed (rawPath root.text cwd target))) =
      walk root.names (moves '/' '.' (relativePath cwd target)) := by
  have hbase : ∀ t, walk [] (moves '/' '.' (root.text ++ '/' :: t)) =
      walk root.names (moves '/' '.' t) := by
    intro t
    rw [moves_append, walk_append, walk_text]
    rfl
  have hstay : ∀ (stack : List Text) ms, walk stack (.stay :: ms) = walk stack ms :=
    fun _ _ => rfl
  cases target with
  | nil =>
      by_cases hcwd : cwd = []
      · have hrel : relativePath cwd [] = ['/'] := by simp [relativePath, hcwd, slashed]
        have hroot := walk_text root.toNormalPath []
        rw [hrel, moves_cons_sep, hstay]
        simpa [rawPath, hcwd, root.slashed_text, walk] using hroot
      · have hrel : relativePath cwd [] = slashed cwd ++ '/' :: [] := by
          simp [relativePath, slashed]
        rw [hrel, moves_append, walk_append]
        simp only [rawPath, hcwd, if_false, slashed_append, slashed_cons_slash,
          root.slashed_text, hbase]
        cases walk root.names (moves '/' '.' (slashed cwd)) <;> simp [walk]
  | cons c target =>
      by_cases hc : c = '/'
      · subst hc
        simp [rawPath, relativePath, root.slashed_text, hbase]
      · by_cases hcwd : cwd = []
        · have hrel : relativePath cwd (c :: target) = '/' :: slashed (c :: target) := by
            simp [relativePath, hc, hcwd, slashed]
          rw [hrel, moves_cons_sep, hstay]
          simp [rawPath, hc, hcwd, root.slashed_text, hbase]
        · simp [rawPath, relativePath, hc, hcwd, root.slashed_text, hbase]

/-- The resolver in terms of the normal form of the client's part. -/
theorem resolve_eq (root : NormalRoot) (cwd target : Text) :
    resolve root.text cwd target =
      match (relativeMove cwd target).apply root.names with
      | none => []
      | some parts => if root.text <+: absolute '/' parts then absolute '/' parts else [] := by
  have hscan : scanParts (slashed (rawPath root.text cwd target) ++ ['/']) [] [] =
      (relativeMove cwd target).apply root.names := by
    rw [scanParts_eq_walk _ _ _ (by simp), List.nil_append, walk_rawPath, walk_eq_reduce]
    rfl
  have hhead : (slashed (rawPath root.text cwd target)).head? = some '/' := by
    have htext : root.text = '/' :: ['/'].intercalate root.names := rfl
    cases target with
    | nil => by_cases hcwd : cwd = [] <;> simp [rawPath, hcwd, htext]
    | cons c target =>
        by_cases hc : c = '/'
        · subst hc
          simp [rawPath, htext]
        · by_cases hcwd : cwd = [] <;> simp [rawPath, hc, hcwd, htext]
  rw [resolve, hscan]
  cases (relativeMove cwd target).apply root.names with
  | none => rfl
  | some parts =>
      have hjoined : '/' :: ['/'].intercalate parts = absolute '/' parts := rfl
      have htake : (absolute '/' parts).take root.text.length = root.text ↔
          root.text <+: absolute '/' parts := by
        rw [List.prefix_iff_eq_take, eq_comm]
      simp only [hhead, if_true, root.slashed_text, hjoined, htake, absolute_ne_nil, if_false]

theorem apply_isName (root : NormalRoot) {cwd target : Text} {parts : List Text}
    (h : (relativeMove cwd target).apply root.names = some parts) :
    ∀ n ∈ parts, IsName '/' '.' n := by
  rw [relativeMove, ← walk_eq_reduce] at h
  exact walk_moves_isName root.isName h

/-- What the escaping move reaches, in terms of the names alone. -/
theorem intoExtendedSibling_iff {names parts : List Text} {r : Relative Char}
    (hparts : r.apply names = some parts) :
    IntoExtendedSibling names r ↔ ExtendsLast names parts := by
  constructor
  · rintro ⟨above, mid, last, suffix, rest, rfl, hclimb, hsuffix, hdescend⟩
    have hlen : (above ++ (mid ++ [last])).length = above.length + r.climb := by
      simp only [List.length_append, List.length_singleton, hclimb]
    refine ⟨above ++ mid, last, suffix, rest, by simp, hsuffix, ?_⟩
    rw [Relative.apply, if_pos (by omega), hlen, Nat.add_sub_cancel, List.take_left' rfl,
      hdescend] at hparts
    rw [← Option.some.inj hparts, List.append_assoc]
  · rintro ⟨init, last, suffix, rest, rfl, hsuffix, rfl⟩
    rw [Relative.apply] at hparts
    split at hparts
    · rename_i hk
      simp only [List.length_append, List.length_singleton, Option.some.injEq] at hparts hk
      have hclimb : r.climb ≠ 0 := by
        intro hzero
        rw [hzero, Nat.sub_zero, List.take_of_length_le (by simp), List.append_assoc] at hparts
        have hhead := List.append_cancel_left hparts
        exact hsuffix (by simpa using (List.cons.inj hhead).1)
      have htake : init.length + 1 - r.climb ≤ init.length := by omega
      rw [List.take_append_of_le_length htake] at hparts
      refine ⟨init.take (init.length + 1 - r.climb), init.drop (init.length + 1 - r.climb),
        last, suffix, rest, ?_, ?_, hsuffix, ?_⟩
      · rw [← List.append_assoc, List.take_append_drop]
      · rw [List.length_drop]
        omega
      · have hsplit : init ++ (last ++ suffix) :: rest = init.take (init.length + 1 - r.climb) ++
            (init.drop (init.length + 1 - r.climb) ++ (last ++ suffix) :: rest) := by
          rw [← List.append_assoc, List.take_append_drop]
        exact List.append_cancel_left (hparts.trans hsplit)
    · simp at hparts

theorem IntoExtendedSibling.apply_isSome {names : List Text} {r : Relative Char}
    (h : IntoExtendedSibling names r) : ∃ parts, r.apply names = some parts := by
  obtain ⟨above, mid, last, suffix, rest, rfl, hclimb, -, -⟩ := h
  rw [Relative.apply, if_pos (by simp only [List.length_append, List.length_singleton]; omega)]
  exact ⟨_, rfl⟩

/-- The containment of one resolution: a non-empty answer lies within the
root, unless the client's part leads into an extended sibling. -/
theorem resolve_within_iff (root : NormalRoot) (cwd target : Text) :
    (resolve root.text cwd target ≠ [] → Within root (resolve root.text cwd target)) ↔
      ¬ IntoExtendedSibling root.names (relativeMove cwd target) := by
  rw [resolve_eq]
  cases hparts : (relativeMove cwd target).apply root.names with
  | none =>
      have hnot : ¬ IntoExtendedSibling root.names (relativeMove cwd target) := by
        intro h
        obtain ⟨parts, hsome⟩ := h.apply_isSome
        simp [hparts] at hsome
      simp [hnot]
  | some parts =>
      have hname := apply_isName root hparts
      have hsegments : segments '/' (absolute '/' parts) = parts := segments_text ⟨parts, hname⟩
      have htext : root.text <+: absolute '/' parts ↔
          root.names <+: parts ∨ ExtendsLast root.names parts :=
        absolute_prefix_iff_or (fun n hn => (root.isName n hn).sep_notMem)
          (fun n hn => (root.isName n hn).ne_nil) fun n hn => (hname n hn).sep_notMem
      rw [intoExtendedSibling_iff hparts]
      by_cases hpre : root.text <+: absolute '/' parts
      · simp only [hpre, if_true, Within, hsegments, ne_eq, absolute_ne_nil, not_false_eq_true,
          true_implies]
        constructor
        · exact fun h hext => hext.not_prefix h
        · exact fun h => (htext.mp hpre).resolve_right h
      · have hnot : ¬ ExtendsLast root.names parts := fun h => hpre (htext.mpr (Or.inr h))
        simp [hpre, hnot]

end MockServices.Ftp
