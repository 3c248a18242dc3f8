import MockServices.Sftp.OpenSemantics

/-!
# `realpath` as a canonicaliser

What `resolve_path` relies on about `realpath(3)`, and what its textual
steps make of the answers: the join in front of it, and the comparison
with the root behind it.
-/

namespace MockServices.Sftp

open Foundations.SegmentPath

/-- What `realpath(3)` documents: a text is resolved component by component,
its result resolves to itself, and neither a repeated slash nor a `.` at
the end, behind a slash, changes anything. -/
structure Canonicalises (realpath : Realpath) : Prop where
  empty : realpath [] = none
  fixed : ∀ t found, realpath t = some found → realpath found.text = some found
  through : ∀ t dir rest, realpath t = some dir →
    realpath (t ++ '/' :: rest) = realpath (dir.text ++ '/' :: rest)
  doubled : ∀ t rest, realpath (t ++ '/' :: '/' :: rest) = realpath (t ++ '/' :: rest)
  dot : ∀ t, realpath (t ++ ['/', '.']) = realpath (t ++ ['/'])

/-- The canonical path of a directory: it resolves to itself, with a slash
behind it too. -/
structure IsDirectory (realpath : Realpath) (dir : Canonical) : Prop where
  text : realpath dir.text = some dir
  slash : realpath (dir.text ++ ['/']) = some dir

/-! ## A tree without links -/

/-- Every directory on the way is there. -/
def Rooted (objects : List (List Text)) (here : List Text) : Prop :=
  ∀ pre, pre <+: here → pre ≠ [] → pre ∈ objects

theorem rooted_append {objects : List (List Text)} {here : List Text} {name : Text} :
    Rooted objects (here ++ [name]) ↔ Rooted objects here ∧ here ++ [name] ∈ objects := by
  constructor
  · intro h
    exact ⟨fun pre hpre => h pre (hpre.trans (List.prefix_append _ _)),
      h _ List.prefix_rfl (by simp)⟩
  · rintro ⟨h, hmem⟩ pre hpre hne
    obtain rfl | hpre := List.prefix_concat_iff.mp hpre
    · exact hmem
    · exact h pre hpre hne

theorem rooted_treeWalk {objects : List (List Text)} {here there : List Text}
    {ms : List (Move Char)} (h : Rooted objects here)
    (hwalk : treeWalk objects here ms = some there) : Rooted objects there := by
  induction ms generalizing here with
  | nil =>
      obtain rfl := Option.some.inj hwalk
      exact h
  | cons m ms ih =>
      cases m with
      | stay => exact ih h hwalk
      | up => exact ih (fun pre hpre => h pre (hpre.trans (List.dropLast_prefix _))) hwalk
      | down name =>
          rw [treeWalk] at hwalk
          split at hwalk
          · next hmem => exact ih (rooted_append.mpr ⟨h, hmem⟩) hwalk
          · cases hwalk

theorem treeWalk_names {objects : List (List Text)} {names : List Text}
    (h : Rooted objects names) : treeWalk objects [] (names.map .down) = some names := by
  induction names using List.reverseRecOn with
  | nil => rfl
  | append_singleton names name ih =>
      obtain ⟨hrooted, hmem⟩ := rooted_append.mp h
      rw [List.map_append, treeWalk_append, ih hrooted]
      exact if_pos hmem

theorem treeWalk_text {objects : List (List Text)} {p : Canonical} (h : Rooted objects p.names) :
    treeWalk objects [] (moves '/' '.' p.text) = some p.names := by
  rw [NormalPath.text, absolute, moves_cons_sep, treeWalk]
  by_cases hnames : p.names = []
  · rw [hnames]
    rfl
  · rw [moves_intercalate p.isName hnames]
    exact treeWalk_names h

theorem canonicalises_treeRealpath (objects : List (List Text)) :
    Canonicalises (treeRealpath objects) := by
  have hrooted : ∀ {t found}, treeRealpath objects t = some found → Rooted objects found.names := by
    intro t found h
    refine rooted_treeWalk ?_ (treeRealpath_eq_some_iff.mp h).2
    exact fun pre hpre hne => absurd (List.prefix_nil.mp hpre) hne
  have hcongr : ∀ {s t : Text}, s.head? = t.head? → treeWalk objects [] (moves '/' '.' s) =
      treeWalk objects [] (moves '/' '.' t) → treeRealpath objects s = treeRealpath objects t := by
    intro s t hhead hwalk
    unfold treeRealpath
    rw [hhead, hwalk]
  refine ⟨rfl, fun t found h => ?_, fun t dir rest h => ?_, fun t rest => ?_, fun t => ?_⟩
  · exact treeRealpath_eq_some_iff.mpr ⟨rfl, treeWalk_text (hrooted h)⟩
  · obtain ⟨hhead, hwalk⟩ := treeRealpath_eq_some_iff.mp h
    apply hcongr
    · rw [List.head?_append, hhead]
      rfl
    · rw [moves_append, moves_append, treeWalk_append, treeWalk_append, hwalk,
        treeWalk_text (hrooted h)]
  · apply hcongr
    · cases t <;> rfl
    · rw [moves_append, moves_append, moves_cons_sep, treeWalk_append, treeWalk_append]
      rfl
  · apply hcongr
    · cases t <;> rfl
    · rw [moves_append, moves_append]
      rfl

/-! ## The join -/

def isSeparator (ch : Char) : Bool := ch = '/' ∨ ch = '\\'

/-- The root, without a slash at its end, one slash, and the path without
the separators in front. -/
theorem exists_combinedPath {root : Text} (h : root ≠ []) :
    ∃ t, (normalizeSeparators root = t ∨ normalizeSeparators root = t ++ ['/']) ∧
      ∀ path, combinedPath root path = t ++ '/' :: path.dropWhile isSeparator := by
  have hne : normalizeSeparators root ≠ [] := fun hnil => h (List.map_eq_nil_iff.mp hnil)
  by_cases hlast : (normalizeSeparators root).getLast? = some '/'
  · have hsplit : normalizeSeparators root = (normalizeSeparators root).dropLast ++ ['/'] := by
      rw [List.getLast?_eq_some_getLast hne] at hlast
      rw [← Option.some.inj hlast, List.dropLast_concat_getLast hne]
    refine ⟨(normalizeSeparators root).dropLast, Or.inr hsplit, fun path => ?_⟩
    unfold combinedPath
    dsimp only
    rw [if_neg fun hboth => hboth.2 hlast]
    conv_lhs => rw [hsplit, List.append_assoc]
    rfl
  · refine ⟨normalizeSeparators root, Or.inl rfl, fun path => ?_⟩
    unfold combinedPath
    dsimp only
    rw [if_pos ⟨hne, hlast⟩, List.append_assoc]
    rfl

/-! ## What is accepted -/

/-- Where the path leads, if the comparison with the root lets it pass. -/
def accepted (realpath : Realpath) (root clientPath : Text) (mustExist : Bool) : Option Location :=
  (leadsTo realpath root clientPath mustExist).filter fun loc =>
    hasCaseInsensitivePrefix (normalizeSeparators loc.text) (normalizeSeparators root)

theorem resolvePath_eq_accepted {realpath : Realpath} {root : Text} (h : root ≠ [])
    (clientPath : Text) (mustExist : Bool) : resolvePath realpath root clientPath mustExist =
      ((accepted realpath root clientPath mustExist).map Location.text).getD [] := by
  rw [resolvePath, if_neg h, resolvedText_eq, accepted]
  cases leadsTo realpath root clientPath mustExist with
  | none => rfl
  | some loc =>
      rw [Option.map_some, Option.filter_some]
      dsimp only
      split <;> rfl

theorem canonical_ext {p q : Canonical} (h : p.names = q.names) : p = q := by
  cases p
  cases q
  cases h
  rfl

theorem text_prefix {p q : Canonical} (h : p.names <+: q.names) : p.text <+: q.text := by
  obtain ⟨rest, hrest⟩ := h
  by_cases hnames : p.names = []
  · rw [NormalPath.text, NormalPath.text, hnames]
    exact ⟨['/'].intercalate q.names, rfl⟩
  · rw [NormalPath.text, NormalPath.text, ← hrest, absolute_append '/' hnames]
    exact List.prefix_append _ _

theorem resolvedText_eq_text_iff {realpath : Realpath} {combined : Text} {found : Canonical} :
    resolvedText realpath combined true = some found.text ↔ realpath combined = some found := by
  unfold resolvedText
  cases realpath combined with
  | none => simp
  | some there =>
      constructor
      · intro h
        have htext : there.text = found.text := Option.some.inj h
        rw [canonical_ext (absolute_inj there.isName found.isName htext)]
      · intro h
        rw [Option.some.inj h]

/-! ## Where a path leads, read backwards -/

section LeadsTo

variable {realpath : Realpath} {root : Text} {path : Text} {loc : Location}

theorem accepted_eq_some_iff {mustExist : Bool} :
    accepted realpath root path mustExist = some loc ↔
      leadsTo realpath root path mustExist = some loc ∧
        hasCaseInsensitivePrefix (normalizeSeparators loc.text) (normalizeSeparators root) = true :=
  Option.filter_eq_some_iff

/-- Two paths are the same to `resolve_path` that lead to one object, and
have one last name behind one directory. -/
theorem accepted_congr {other : Text}
    (hfound : realpath (combinedPath root path) = realpath (combinedPath root other))
    (hdir : realpath (dirAndBase (combinedPath root path)).1 =
      realpath (dirAndBase (combinedPath root other)).1)
    (hbase : (dirAndBase (combinedPath root path)).2 = (dirAndBase (combinedPath root other)).2)
    (mustExist : Bool) :
    accepted realpath root path mustExist = accepted realpath root other mustExist := by
  unfold accepted leadsTo
  simp only [hfound, hdir, hbase]

theorem leadsTo_of_found {found : Canonical} (mustExist : Bool)
    (h : realpath (combinedPath root path) = some found) :
    leadsTo realpath root path mustExist = some ⟨found, none, by simp⟩ := by
  rw [leadsTo, h]

/-- The path leads to an object, or it has a last name behind the path of
a directory. -/
theorem leadsTo_cases (h : leadsTo realpath root path false = some loc) :
    realpath (combinedPath root path) = some loc.dir ∧ loc.base = none ∨
      realpath (combinedPath root path) = none ∧
        realpath (dirAndBase (combinedPath root path)).1 = some loc.dir ∧
          loc.base = some (dirAndBase (combinedPath root path)).2 := by
  unfold leadsTo at h
  cases hfound : realpath (combinedPath root path) with
  | some found =>
      rw [hfound] at h
      obtain rfl := Option.some.inj h
      exact Or.inl ⟨rfl, rfl⟩
  | none =>
      rw [hfound] at h
      obtain ⟨dir, hdir, rfl⟩ := Option.map_eq_some_iff.mp h
      exact Or.inr ⟨rfl, hdir, rfl⟩

end LeadsTo

end MockServices.Sftp
