import MockServices.Sftp.ShownNames

/-!
# How the root is spelled

`add_user` keeps the root as it is given, and `resolve_path` compares the
canonical path of an object with it as text. What is in the root's
directory is reachable as far as the given text begins the canonical path.
-/

namespace MockServices.Sftp

open Foundations.SegmentPath

variable {realpath : Realpath} {root path : Text} {dir found : Canonical}

/-- The given root begins the canonical path of the object; and where there
is a backslash in the root, or in front of the path, the join still names
the object. -/
structure Reachable (realpath : Realpath) (root path : Text) (found : Canonical) : Prop where
  begins : normalizeSeparators root <+: normalizeSeparators found.text
  joined : '\\' ∈ root ∨ '\\' ∈ path.takeWhile isSeparator →
    realpath (combinedPath root path) = some found

theorem realpath_leading (hreal : Canonicalises realpath) (t : Text)
    (h : '\\' ∉ path.takeWhile isSeparator) :
    realpath (t ++ '/' :: path) = realpath (t ++ '/' :: path.dropWhile isSeparator) := by
  induction path with
  | nil => rfl
  | cons c path ih =>
      by_cases hc : isSeparator c = true
      · rw [List.takeWhile_cons_of_pos hc, List.mem_cons, not_or] at h
        obtain rfl : c = '/' := by
          by_contra hslash
          have hfalse := isSeparator_eq_false_iff.mpr ⟨hslash, Ne.symm h.1⟩
          rw [hc] at hfalse
          cases hfalse
        rw [hreal.doubled, ih h.2, List.dropWhile_cons_of_pos hc]
      · rw [List.dropWhile_cons_of_neg hc]

/-- Without backslashes the join names what the client's path names in the
root's directory. -/
theorem realpath_combinedPath (hreal : Canonicalises realpath) (hne : root ≠ [])
    (hroot : '\\' ∉ root) (hpath : '\\' ∉ path.takeWhile isSeparator) :
    realpath (combinedPath root path) = realpath (root ++ '/' :: path) := by
  obtain ⟨t, ht, hcombined⟩ := exists_combinedPath hne
  rw [normalizeSeparators_of_notMem hroot] at ht
  rw [hcombined, ← realpath_leading hreal t hpath]
  rcases ht with rfl | rfl
  · rfl
  · rw [List.append_assoc]
    exact (hreal.doubled t path).symm

/-- An object in the root's directory is reached exactly if it is
reachable. -/
theorem resolves_in_root_iff (hreal : Canonicalises realpath) (hroot : realpath root = some dir)
    (hfound : realpath (root ++ '/' :: path) = some found) :
    (resolvePath realpath root path true ≠ [] ∧
        resolvePath realpath root path true = found.text) ↔
      Reachable realpath root path found := by
  have hne : root ≠ [] := by
    rintro rfl
    rw [hreal.empty] at hroot
    cases hroot
  have htext : found.text ≠ [] := absolute_ne_nil _ _
  constructor
  · rintro ⟨-, h⟩
    obtain ⟨-, hresolved, hprefix⟩ := (resolvePath_eq_iff htext).mp h
    exact ⟨(hasCaseInsensitivePrefix_iff _ _).mp hprefix,
      fun _ => resolvedText_eq_text_iff.mp hresolved⟩
  · intro h
    have hjoined : realpath (combinedPath root path) = some found := by
      by_cases hbackslash : '\\' ∈ root ∨ '\\' ∈ path.takeWhile isSeparator
      · exact h.joined hbackslash
      · rw [not_or] at hbackslash
        rw [realpath_combinedPath hreal hne hbackslash.1 hbackslash.2, hfound]
    have hresolve : resolvePath realpath root path true = found.text :=
      (resolvePath_eq_iff htext).mpr ⟨hne, resolvedText_eq_text_iff.mpr hjoined,
        (hasCaseInsensitivePrefix_iff _ _).mpr h.begins⟩
    exact ⟨hresolve ▸ htext, hresolve⟩

/-- With the canonical path of its directory as the root, all that is in
the directory is reachable, backslashes apart. -/
theorem reachable_of_canonical (hroot : '\\' ∉ dir.text)
    (hpath : '\\' ∉ path.takeWhile isSeparator) (hinside : dir.names <+: found.names) :
    Reachable realpath dir.text path found where
  begins := ( text_prefix hinside).map _
  joined h := (h.elim hroot hpath).elim

def bobNotes : Canonical where
  names := ["srv", "bob", "notes"]
  isName := by decide

theorem realpath_bobNotes :
    srvRealpath (bobRoot.text ++ '/' :: txt "notes") = some bobNotes :=
  treeRealpath_eq_some_iff.mpr ⟨rfl, by decide⟩

theorem resolves_in_root_iff_bob :
    (resolvePath srvRealpath bobRoot.text "notes" true ≠ [] ∧
        resolvePath srvRealpath bobRoot.text "notes" true = bobNotes.text) ↔
      Reachable srvRealpath bobRoot.text "notes" bobNotes :=
  resolves_in_root_iff (canonicalises_treeRealpath _) isDirectory_bobRoot.text realpath_bobNotes

/-- With a slash at the end of the root, the root itself is refused. -/
theorem root_with_slash_refused :
    ¬ ∀ (realpath : Realpath) (root path : Text) (dir found : Canonical), Canonicalises realpath →
      realpath root = some dir → IsDirectory realpath dir →
        realpath (root ++ '/' :: path) = some found → dir.names <+: found.names →
          resolvePath realpath root path true ≠ [] ∧
            resolvePath realpath root path true = found.text := by
  intro h
  have hslash : srvRealpath "/srv/bob/" = some bobRoot :=
    treeRealpath_eq_some_iff.mpr ⟨rfl, by decide⟩
  have hobject : srvRealpath (txt "/srv/bob/" ++ '/' :: txt "/") = some bobRoot :=
    treeRealpath_eq_some_iff.mpr ⟨rfl, by decide⟩
  have hrefused : resolvePath srvRealpath "/srv/bob/" "/" true = [] := by decide +kernel
  exact (h srvRealpath "/srv/bob/" "/" bobRoot bobRoot (canonicalises_treeRealpath _) hslash
    isDirectory_bobRoot hobject List.prefix_rfl).1 hrefused

end MockServices.Sftp
