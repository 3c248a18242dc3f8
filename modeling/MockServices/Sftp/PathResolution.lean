import Mathlib.Data.List.TakeWhile
import MockServices.Foundations.SegmentPath
import MockServices.Text

/-!
# The SFTP path resolver

`resolve_path` hands the joined text to `realpath`, falls back to the
parent directory when the object may be new, and compares the result with
the root as text after rewriting backslashes. What the comparison accepts
is stated here in segments: an answer lies outside the root exactly when
the operating system leads the path outside and the text of the place
resembles the root.
-/

namespace MockServices.Sftp

open Foundations.SegmentPath

/-- A canonical absolute path, as `realpath(3)` answers it. -/
abbrev Canonical := NormalPath '/' '.'

/-- `realpath(3)` in one state of the file system; `none` is its failure. -/
abbrev Realpath := Text → Option Canonical

def normalizeSeparators (path : Text) : Text := path.map fun ch => if ch = '\\' then '/' else ch

/-- Case is not ignored on a POSIX system. -/
def hasCaseInsensitivePrefix (s pre : Text) : Bool :=
  if s.length < pre.length then false else s.take pre.length == pre

/-- The join at the head of `resolve_path`. -/
def combinedPath (root clientPath : Text) : Text :=
  let combined := normalizeSeparators root
  let combined :=
    if combined ≠ [] ∧ combined.getLast? ≠ some '/' then combined ++ ['/'] else combined
  combined ++ clientPath.dropWhile fun ch => ch = '/' ∨ ch = '\\'

/-- `dir` and `base` around the last `/` of the text. -/
def dirAndBase (combined : Text) : Text × Text :=
  match combined.reverse.dropWhile (· ≠ '/') with
  | [] => (combined, [])
  | _ :: dir => (dir.reverse, (combined.reverse.takeWhile (· ≠ '/')).reverse)

/-- The two `realpath` branches; `none` is the early `return ""`. -/
def resolvedText (realpath : Realpath) (combined : Text) (mustExist : Bool) : Option Text :=
  match realpath combined with
  | some found => some found.text
  | none =>
      if mustExist then none
      else (realpath (dirAndBase combined).1).map fun dir =>
        dir.text ++ '/' :: (dirAndBase combined).2

/-- The empty text is the refusal. -/
def resolvePath (realpath : Realpath) (root clientPath : Text) (mustExist : Bool) : Text :=
  if root = [] then []
  else
    match resolvedText realpath (combinedPath root clientPath) mustExist with
    | none => []
    | some resolved =>
        let nroot := normalizeSeparators root
        let nresolved := normalizeSeparators resolved
        if hasCaseInsensitivePrefix nresolved nroot then resolved else []

/-- What `resolve_path` answers when it does not refuse. -/
theorem resolvePath_eq_iff {realpath : Realpath} {root clientPath full : Text} {mustExist : Bool}
    (hfull : full ≠ []) : resolvePath realpath root clientPath mustExist = full ↔
      root ≠ [] ∧ resolvedText realpath (combinedPath root clientPath) mustExist = some full ∧
        hasCaseInsensitivePrefix (normalizeSeparators full) (normalizeSeparators root) = true := by
  unfold resolvePath
  by_cases hroot : root = []
  · simp [hroot, hfull.symm]
  · rw [if_neg hroot]
    cases resolvedText realpath (combinedPath root clientPath) mustExist with
    | none => simp [hfull.symm]
    | some resolved =>
        dsimp only
        by_cases hprefix : hasCaseInsensitivePrefix (normalizeSeparators resolved)
            (normalizeSeparators root) = true
        · rw [if_pos hprefix]
          constructor
          · rintro rfl
            exact ⟨hroot, rfl, hprefix⟩
          · rintro ⟨-, heq, -⟩
            exact Option.some.inj heq
        · rw [if_neg hprefix]
          refine iff_of_false hfull.symm ?_
          rintro ⟨-, heq, h⟩
          exact hprefix (Option.some.inj heq ▸ h)

/-! ## Where a path leads -/

/-- An existing object, or a last component in an existing directory. -/
structure Location where
  dir : Canonical
  base : Option Text
  sep_notMem : ∀ b ∈ base, '/' ∉ b

def Location.text (loc : Location) : Text :=
  match loc.base with
  | none => loc.dir.text
  | some base => loc.dir.text ++ '/' :: base

/-- The names from `/` down to the object; `..` goes up. -/
def Location.names (loc : Location) : List Text :=
  match loc.base with
  | none => loc.dir.names
  | some base => settle loc.dir.names [move '.' base]

/-- The object that an absolute path text denotes where no symbolic link
is met, as the names from `/` down to it. -/
def denoted (path : Text) : List Text := settle [] (moves '/' '.' path)

theorem dirAndBase_sep_notMem (combined : Text) : '/' ∉ (dirAndBase combined).2 := by
  unfold dirAndBase
  split
  · simp
  · intro hmem
    have htake := List.mem_takeWhile_imp (List.mem_reverse.mp hmem)
    simp at htake

theorem dirAndBase_split (dir : Text) {base : Text} (h : '/' ∉ base) :
    dirAndBase (dir ++ '/' :: base) = (dir, base) := by
  have hbase : ∀ c ∈ base.reverse, c ≠ '/' := by
    rintro c hc rfl
    exact h (List.mem_reverse.mp hc)
  have hreverse : (dir ++ '/' :: base).reverse = base.reverse ++ '/' :: dir.reverse := by simp
  have htake : (base.reverse ++ '/' :: dir.reverse).takeWhile (· ≠ '/') = base.reverse := by
    rw [List.takeWhile_append_of_pos (by simpa using hbase)]
    simp
  have hdrop : (base.reverse ++ '/' :: dir.reverse).dropWhile (· ≠ '/') = '/' :: dir.reverse := by
    rw [List.dropWhile_append_of_pos (by simpa using hbase)]
    simp
  simp only [dirAndBase, hreverse, htake, hdrop, List.reverse_reverse]

theorem dirAndBase_append {combined : Text} (h : '/' ∈ combined) :
    (dirAndBase combined).1 ++ '/' :: (dirAndBase combined).2 = combined := by
  obtain ⟨base, dir, hsplit, hbase⟩ := List.eq_append_cons_of_mem (List.mem_reverse.mpr h)
  have hcombined : combined = dir.reverse ++ '/' :: base.reverse := by
    simpa using congrArg List.reverse hsplit
  have hbase' : '/' ∉ base.reverse := fun hmem => hbase (List.mem_reverse.mp hmem)
  rw [hcombined, dirAndBase_split _ hbase']

theorem dirAndBase_of_notMem {combined : Text} (h : '/' ∉ combined) :
    dirAndBase combined = (combined, []) := by
  have hdrop : combined.reverse.dropWhile (· ≠ '/') = [] := by
    rw [List.dropWhile_eq_nil_iff]
    intro c hc
    simp only [ne_eq, decide_not, Bool.not_eq_true', decide_eq_false_iff_not]
    rintro rfl
    exact h (List.mem_reverse.mp hc)
  rw [dirAndBase, hdrop]

/-- What the operating system says about the client's path below the
root: the object itself, or its place in its parent directory when it
does not exist and need not. -/
def leadsTo (realpath : Realpath) (root clientPath : Text) (mustExist : Bool) : Option Location :=
  match realpath (combinedPath root clientPath) with
  | some found => some ⟨found, none, by simp⟩
  | none =>
      if mustExist then none
      else (realpath (dirAndBase (combinedPath root clientPath)).1).map fun dir =>
        ⟨dir, some (dirAndBase (combinedPath root clientPath)).2,
          by simpa using dirAndBase_sep_notMem _⟩

/-- The pieces of an absolute path text between separators of both kinds. -/
def pieces (path : Text) : List Text := (normalizeSeparators path.tail).splitOn '/'

/-- The pieces of the root recur at the head of the path, except that the
root's last piece need only begin the piece in its position. -/
def Resembles (root path : Text) : Prop :=
  ∃ init last suffix rest, pieces root = init ++ [last] ∧
    pieces path = init ++ (last ++ suffix) :: rest

/-- Outside the root, at a place whose text resembles the root. -/
def Lookalike (root : Canonical) (loc : Location) : Prop :=
  ¬ root.names <+: loc.names ∧ Resembles root.text loc.text

theorem denoted_text (p : Canonical) : denoted p.text = p.names := by
  have h := settle_append_of_walk (walk_text p []) []
  rw [List.append_nil, List.nil_append] at h
  exact h

theorem Location.denoted_text (loc : Location) : denoted loc.text = loc.names := by
  obtain ⟨dir, base, hbase⟩ := loc
  cases base with
  | none => exact Sftp.denoted_text dir
  | some base =>
      have hmoves : moves '/' '.' base = [move '.' base] := by
        simp [moves, List.splitOn_eq_singleton (hbase base rfl)]
      rw [Location.text, denoted, moves_append, settle_append_of_walk (walk_text dir []), hmoves]
      rfl

theorem Location.text_ne_nil (loc : Location) : loc.text ≠ [] := by
  obtain ⟨dir, base, hbase⟩ := loc
  cases base <;> simp [Location.text, NormalPath.text]

theorem Location.exists_text (loc : Location) : ∃ t, loc.text = '/' :: t := by
  obtain ⟨dir, base, hbase⟩ := loc
  cases base with
  | none => exact ⟨_, rfl⟩
  | some base => exact ⟨_, rfl⟩

theorem normalizeSeparators_cons (t : Text) :
    normalizeSeparators ('/' :: t) = absolute '/' (pieces ('/' :: t)) := by
  rw [absolute, pieces, List.intercalate_splitOn]
  rfl

theorem hasCaseInsensitivePrefix_iff (s pre : Text) :
    hasCaseInsensitivePrefix s pre = true ↔ pre <+: s := by
  rw [List.prefix_iff_eq_take, hasCaseInsensitivePrefix]
  constructor
  · intro h
    split at h
    · simp at h
    · exact (beq_iff_eq.mp h).symm
  · intro h
    have hlen : ¬ s.length < pre.length := by
      rw [h, List.length_take]
      omega
    rw [if_neg hlen]
    exact beq_iff_eq.mpr h.symm

/-- The textual test of `resolve_path`, in pieces. -/
theorem prefix_iff_resembles (s t : Text) :
    hasCaseInsensitivePrefix (normalizeSeparators ('/' :: t)) (normalizeSeparators ('/' :: s)) =
      true ↔ Resembles ('/' :: s) ('/' :: t) := by
  have hsep : ∀ u, ∀ seg ∈ pieces u, '/' ∉ seg := fun u seg hseg => sep_notMem_of_mem_splitOn hseg
  have hne : ∀ u, pieces u ≠ [] := fun u => List.splitOn_ne_nil _ _
  rw [hasCaseInsensitivePrefix_iff, normalizeSeparators_cons, normalizeSeparators_cons]
  obtain hnil | ⟨init, last, hroot⟩ := List.eq_nil_or_concat (pieces ('/' :: s))
  · exact absurd hnil (hne _)
  · rw [List.concat_eq_append] at hroot
    have hinit : ∀ seg ∈ init, '/' ∉ seg := fun seg hseg =>
      hsep ('/' :: s) seg (by rw [hroot]; exact List.mem_append_left _ hseg)
    have hlast : '/' ∉ last := hsep ('/' :: s) last (by rw [hroot]; simp)
    rw [hroot, absolute_prefix_iff hinit hlast (hsep _) (Or.inl (hne _)), Resembles]
    constructor
    · rintro ⟨suffix, rest, hpath⟩
      exact ⟨init, last, suffix, rest, hroot, hpath⟩
    · rintro ⟨init', last', suffix, rest, hroot', hpath⟩
      obtain ⟨rfl, hlast'⟩ := List.append_inj' (hroot.symm.trans hroot') rfl
      obtain rfl : last = last' := by simpa using hlast'
      exact ⟨suffix, rest, hpath⟩

theorem resolvedText_eq (realpath : Realpath) (root clientPath : Text) (mustExist : Bool) :
    resolvedText realpath (combinedPath root clientPath) mustExist =
      (leadsTo realpath root clientPath mustExist).map Location.text := by
  unfold resolvedText leadsTo
  cases realpath (combinedPath root clientPath) with
  | some found => rfl
  | none =>
      cases mustExist with
      | true => rfl
      | false =>
          cases realpath (dirAndBase (combinedPath root clientPath)).1 with
          | none => rfl
          | some dir => rfl

open Classical in
/-- The resolver in terms of the place the path leads to. -/
theorem resolvePath_eq (realpath : Realpath) (root : Canonical) (clientPath : Text)
    (mustExist : Bool) :
    resolvePath realpath root.text clientPath mustExist =
      match leadsTo realpath root.text clientPath mustExist with
      | none => []
      | some loc => if Resembles root.text loc.text then loc.text else [] := by
  have hne : root.text ≠ [] := absolute_ne_nil _ _
  rw [resolvePath, if_neg hne, resolvedText_eq]
  cases leadsTo realpath root.text clientPath mustExist with
  | none => rfl
  | some loc =>
      obtain ⟨t, ht⟩ := loc.exists_text
      have hroot : root.text = '/' :: ['/'].intercalate root.names := rfl
      simp only [Option.map_some, ht, hroot, prefix_iff_resembles]

/-- The containment of one resolution: a non-empty answer denotes the root
or something below it, unless the path leads to a lookalike. -/
theorem resolvePath_within_iff (realpath : Realpath) (root : Canonical) (clientPath : Text)
    (mustExist : Bool) :
    (resolvePath realpath root.text clientPath mustExist ≠ [] →
        root.names <+: denoted (resolvePath realpath root.text clientPath mustExist)) ↔
      ∀ loc ∈ leadsTo realpath root.text clientPath mustExist, ¬ Lookalike root loc := by
  rw [resolvePath_eq]
  cases hloc : leadsTo realpath root.text clientPath mustExist with
  | none => simp
  | some loc =>
      by_cases hres : Resembles root.text loc.text
      · simp [hres, loc.text_ne_nil, loc.denoted_text, Lookalike]
      · simp [hres, Lookalike]

instance (root : Canonical) (loc : Location) : Decidable (Lookalike root loc) :=
  decidable_of_iff (¬ root.names <+: loc.names ∧
      hasCaseInsensitivePrefix (normalizeSeparators loc.text)
        (normalizeSeparators root.text) = true)
    (and_congr_right fun _ => by
      obtain ⟨t, ht⟩ := loc.exists_text
      have hroot : root.text = '/' :: ['/'].intercalate root.names := rfl
      rw [ht, hroot, prefix_iff_resembles])

theorem normalizeSeparators_of_notMem {t : Text} (h : '\\' ∉ t) : normalizeSeparators t = t := by
  refine (List.map_congr_left ?_).trans (List.map_id t)
  intro c hc
  have hne : c ≠ '\\' := fun heq => h (heq ▸ hc)
  simp [hne]

/-- Without backslashes an existing object is a lookalike exactly when it
lies in a directory beside the root whose name extends the root's. -/
theorem lookalike_existing_iff {root found : Canonical} (hroot : '\\' ∉ root.text)
    (hfound : '\\' ∉ found.text) (hbase : ∀ b ∈ (none : Option Text), '/' ∉ b) :
    Lookalike root ⟨found, none, hbase⟩ ↔ ExtendsLast root.names found.names := by
  have htext : Resembles root.text found.text ↔
      root.names <+: found.names ∨ ExtendsLast root.names found.names := by
    have htest :=
      prefix_iff_resembles (['/'].intercalate root.names) (['/'].intercalate found.names)
    apply htest.symm.trans
    change hasCaseInsensitivePrefix (normalizeSeparators found.text)
      (normalizeSeparators root.text) = true ↔ _
    rw [hasCaseInsensitivePrefix_iff, normalizeSeparators_of_notMem hroot,
      normalizeSeparators_of_notMem hfound]
    exact absolute_prefix_iff_or (fun n hn => (root.isName n hn).sep_notMem)
      (fun n hn => (root.isName n hn).ne_nil) fun n hn => (found.isName n hn).sep_notMem
  change ¬ root.names <+: found.names ∧ Resembles root.text found.text ↔ _
  rw [htext]
  constructor
  · exact fun h => h.2.resolve_left h.1
  · exact fun h => ⟨h.not_prefix, Or.inr h⟩

end MockServices.Sftp
