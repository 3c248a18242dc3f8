import MockServices.Foundations.FileSystem

/-!
# Directories that are read and links that are followed

A volume lists the entries of its directories in an order and ends at a
finite depth. A path is followed from the root, through the targets of the
links on its way; `limit` says how deep links may be nested in the targets
of links. A volume gets smaller by dropping what lies at a place and below.
-/

namespace MockServices.Foundations

@[ext]
structure Volume (Name Byte : Type*) extends FileSystem Name Byte where
  names : List Name → List Name
  depth : ℕ
  mem_names : ∀ path name, name ∈ names path ↔ entry (path ++ [name]) ≠ none
  nodup_names : ∀ path, (names path).Nodup
  shallow : ∀ path, entry path ≠ none → path.length ≤ depth

namespace Volume

variable {Name Byte : Type*} [DecidableEq Name] {vol small : Volume Name Byte}
  {path place top : List Name} {name : Name} {limit : ℕ}

/-! ## Following paths -/

/-- One step of a path, with the way to go on behind a link. -/
def enter (vol : Volume Name Byte) (expand : List Name → Option (List Name)) (place : List Name)
    (name : Name) : Option (List Name) :=
  match vol.entry (place ++ [name]) with
  | some (.link target) => expand target
  | some _ => some (place ++ [name])
  | none => none

/-- The place a path leads to. -/
def follow (vol : Volume Name Byte) : ℕ → List Name → Option (List Name)
  | 0, _ => none
  | limit + 1, path => path.foldlM (vol.enter (vol.follow limit)) []

/-- The place a path names, whatever is there. -/
def locate (vol : Volume Name Byte) (limit : ℕ) (path : List Name) : Option (List Name) :=
  path.getLast?.bind fun name => (vol.follow limit path.dropLast).map (· ++ [name])

/-- `stat` finds a directory. -/
def isDirectory (vol : Volume Name Byte) (limit : ℕ) (path : List Name) : Bool :=
  decide ((vol.follow limit path).bind vol.entry = some .directory)

/-- The entries that are read from the directory a path leads to. -/
def opendir (vol : Volume Name Byte) (limit : ℕ) (path : List Name) : Option (List Name) :=
  if vol.isDirectory limit path then (vol.follow limit path).map vol.names else none

/-! ## Dropping what lies at a place -/

omit [DecidableEq Name] in
theorem entry_above (h : vol.entry path ≠ none) (hpre : top <+: path) :
    vol.entry top ≠ none := by
  obtain ⟨rest, rfl⟩ := hpre
  induction rest using List.reverseRecOn with
  | nil => simpa using h
  | append_singleton rest name ih =>
      rw [← List.append_assoc] at h
      exact ih (by simp [vol.nested _ name h])

omit [DecidableEq Name] in
theorem directory_above (h : vol.entry (path ++ [name]) ≠ none) (hpre : top <+: path) :
    vol.entry top = some .directory := by
  obtain ⟨rest, rfl⟩ := hpre
  cases rest with
  | nil => exact vol.nested top name (by simpa using h)
  | cons first rest =>
      refine vol.nested top first (entry_above h ?_)
      exact ⟨rest ++ [name], by simp⟩

def drop (vol : Volume Name Byte) (top : List Name) : Volume Name Byte where
  entry path := if top <+: path then none else vol.entry path
  content := vol.content
  inodes := vol.inodes
  nested path name h := by
    obtain ⟨hout, hentry⟩ : ¬ top <+: path ++ [name] ∧ vol.entry (path ++ [name]) ≠ none := by
      simpa using h
    rw [if_neg fun hpre => hout (hpre.trans (List.prefix_append _ _))]
    exact vol.nested path name hentry
  known path inode h := vol.known path inode (Option.ite_none_left_eq_some.mp h).2
  names path :=
    if top <+: path then [] else (vol.names path).filter fun name => path ++ [name] ≠ top
  depth := vol.depth
  mem_names path name := by
    have hsplit : top <+: path ++ [name] ↔ top = path ++ [name] ∨ top <+: path :=
      List.prefix_concat_iff
    split
    · next hpre => simp [hsplit, hpre]
    · next hout =>
        have hmem := vol.mem_names path name
        simp only [List.mem_filter, hmem, hsplit, hout, or_false, decide_eq_true_eq]
        by_cases heq : top = path ++ [name]
        · simp [heq]
        · simp [heq, Ne.symm heq]
  nodup_names path := by
    split
    · exact List.nodup_nil
    · exact (vol.nodup_names path).filter _
  shallow path h := by
    have hentry : ¬ top <+: path ∧ vol.entry path ≠ none := by simpa using h
    exact vol.shallow path hentry.2

theorem entry_drop : (vol.drop top).entry path = if top <+: path then none else vol.entry path :=
  rfl

theorem names_drop : (vol.drop top).names path =
    if top <+: path then [] else (vol.names path).filter fun name => path ++ [name] ≠ top :=
  rfl

/-- Nothing is lost where nothing is. -/
theorem drop_of_none (h : vol.entry top = none) : vol.drop top = vol := by
  have hbelow : ∀ path, top <+: path → vol.entry path = none := by
    intro path hpre
    by_contra hentry
    exact entry_above hentry hpre h
  refine Volume.ext ?_ rfl rfl ?_ rfl
  · funext path
    rw [entry_drop]
    split
    · next hpre => exact (hbelow path hpre).symm
    · rfl
  · funext path
    rw [names_drop]
    split
    · next hpre =>
        refine (List.eq_nil_iff_forall_not_mem.mpr fun name hname => ?_).symm
        exact (vol.mem_names path name).mp hname
          (hbelow _ (hpre.trans (List.prefix_append _ _)))
    · refine List.filter_eq_self.mpr fun name hname => ?_
      rw [decide_eq_true_eq]
      rintro rfl
      exact (vol.mem_names path name).mp hname h

/-- What lies below is lost with what lies above. -/
theorem drop_drop_below {below : List Name} (h : top <+: below) :
    (vol.drop below).drop top = vol.drop top := by
  refine Volume.ext ?_ rfl rfl ?_ rfl
  · funext path
    rw [entry_drop, entry_drop, entry_drop]
    split
    · rfl
    · next hout => rw [if_neg fun hbelow => hout (h.trans hbelow)]
  · funext path
    rw [names_drop, names_drop, names_drop]
    split
    · rfl
    · next hout =>
        rw [if_neg fun hbelow => hout (h.trans hbelow), List.filter_filter]
        refine List.filter_congr fun name _ => ?_
        by_cases heq : path ++ [name] = top
        · simp [heq]
        · have hne : path ++ [name] ≠ below := by
            rintro rfl
            rcases List.prefix_concat_iff.mp h with heq' | hpre
            · exact heq heq'.symm
            · exact hout hpre
          simp [heq, hne]

/-- Drop one place after the other. -/
def dropAll (vol : Volume Name Byte) (tops : List (List Name)) : Volume Name Byte :=
  tops.foldl drop vol

theorem dropAll_append (tops more : List (List Name)) :
    vol.dropAll (tops ++ more) = (vol.dropAll tops).dropAll more := List.foldl_append

theorem drop_dropAll {tops : List (List Name)} (h : ∀ below ∈ tops, top <+: below) :
    (vol.dropAll tops).drop top = vol.drop top := by
  induction tops generalizing vol with
  | nil => rfl
  | cons below tops ih =>
      rw [List.forall_mem_cons] at h
      rw [dropAll, List.foldl_cons, ← dropAll, ih h.2, drop_drop_below h.1]

theorem entry_dropAll (tops : List (List Name)) : (vol.dropAll tops).entry path =
    if ∃ below ∈ tops, below <+: path then none else vol.entry path := by
  induction tops generalizing vol with
  | nil => simp [dropAll]
  | cons below tops ih =>
      rw [dropAll, List.foldl_cons, ← dropAll, ih, entry_drop]
      by_cases hbelow : below <+: path <;> simp [hbelow]

theorem names_dropAll {tops : List (List Name)}
    (h : ∀ below ∈ tops, ¬ below <+: path ∧ ¬ path <+: below) :
    (vol.dropAll tops).names path = vol.names path := by
  induction tops generalizing vol with
  | nil => rfl
  | cons below tops ih =>
      rw [List.forall_mem_cons] at h
      rw [dropAll, List.foldl_cons, ← dropAll, ih h.2, names_drop, if_neg h.1.1]
      refine List.filter_eq_self.mpr fun name _ => ?_
      rw [decide_eq_true_eq]
      rintro rfl
      exact h.1.2 (List.prefix_append _ _)

/-! ## What is left leads where it led -/

/-- Whatever is in the smaller volume is in the other one. -/
def Within (small vol : Volume Name Byte) : Prop :=
  ∀ path e, small.entry path = some e → vol.entry path = some e

omit [DecidableEq Name] in
theorem Within.refl (vol : Volume Name Byte) : vol.Within vol := fun _ _ h => h

omit [DecidableEq Name] in
theorem Within.trans {smaller : Volume Name Byte} (h : smaller.Within small)
    (h' : small.Within vol) : smaller.Within vol :=
  fun path e he => h' path e (h path e he)

theorem within_drop : (vol.drop top).Within vol :=
  fun _ _ h => (Option.ite_none_left_eq_some.mp h).2

theorem drop_within_dropAll {tops : List (List Name)} (h : ∀ below ∈ tops, top <+: below) :
    (vol.drop top).Within (vol.dropAll tops) := by
  rw [← drop_dropAll h]
  exact within_drop

omit [DecidableEq Name] in
theorem enter_of_within {expand expand' : List Name → Option (List Name)}
    (hexpand : ∀ target last, expand target = some last → expand' target = some last)
    (h : small.Within vol) {last : List Name} (hlast : small.enter expand place name = some last) :
    vol.enter expand' place name = some last := by
  unfold enter at hlast ⊢
  cases hentry : small.entry (place ++ [name]) with
  | none => simp [hentry] at hlast
  | some e =>
      rw [hentry] at hlast
      rw [h _ _ hentry]
      cases e with
      | link target => exact hexpand target last hlast
      | file inode => exact hlast
      | directory => exact hlast

omit [DecidableEq Name] in
theorem follow_of_within (h : small.Within vol) (hfollow : small.follow limit path = some place) :
    vol.follow limit path = some place := by
  induction limit generalizing path place with
  | zero => cases hfollow
  | succ limit ih =>
      simp only [follow] at hfollow ⊢
      -- From any place on the way.
      suffices hway : ∀ first, path.foldlM (small.enter (small.follow limit)) first = some place →
          path.foldlM (vol.enter (vol.follow limit)) first = some place from hway [] hfollow
      clear hfollow
      induction path with
      | nil => exact fun first hfirst => hfirst
      | cons name rest ihrest =>
          intro first hfirst
          rw [List.foldlM_cons] at hfirst ⊢
          obtain ⟨next, hnext, hrest⟩ := Option.bind_eq_some_iff.mp hfirst
          refine Option.bind_eq_some_iff.mpr ⟨next, ?_, ihrest next hrest⟩
          exact enter_of_within (fun target last => ih) h hnext

omit [DecidableEq Name] in
theorem follow_concat (path : List Name) (name : Name) :
    vol.follow (limit + 1) (path ++ [name]) =
      (vol.follow (limit + 1) path).bind fun place =>
        vol.enter (vol.follow limit) place name := by
  simp only [follow, List.foldlM_append, List.foldlM_cons, List.foldlM_nil]
  simp

omit [DecidableEq Name] in
/-- A place without links on its way is where its own path leads. -/
theorem follow_directory (h : vol.entry path = some .directory) :
    vol.follow (limit + 1) path = some path := by
  induction path using List.reverseRecOn with
  | nil => rfl
  | append_singleton path name ih =>
      have hparent := vol.nested path name (by simp [h])
      rw [follow_concat, ih hparent, Option.bind_some, enter, h]

omit [DecidableEq Name] in
theorem locate_concat (path : List Name) (name : Name) :
    vol.locate limit (path ++ [name]) = (vol.follow limit path).map (· ++ [name]) := by
  simp [locate]

omit [DecidableEq Name] in
/-- A path that leads on passes through directories. -/
theorem follow_above {rest : List Name} (h : vol.follow limit (path ++ rest) = some place) :
    ∃ mid, vol.follow limit path = some mid ∧ (mid = place ∨ vol.entry mid = some .directory) := by
  induction rest using List.reverseRecOn generalizing place with
  | nil => exact ⟨place, by simpa using h, Or.inl rfl⟩
  | append_singleton rest name ih =>
      cases limit with
      | zero => cases h
      | succ limit =>
          rw [← List.append_assoc, follow_concat] at h
          obtain ⟨last, hlast, hname⟩ := Option.bind_eq_some_iff.mp h
          have hdirectory : vol.entry last = some .directory := by
            refine vol.nested last name fun hnone => ?_
            simp [enter, hnone] at hname
          obtain ⟨mid, hmid, heq | hentry⟩ := ih hlast
          · exact ⟨mid, hmid, Or.inr (heq ▸ hdirectory)⟩
          · exact ⟨mid, hmid, Or.inr hentry⟩

/-! ## Removing -/

/-- `unlink` removes a file or a link, and not what the link leads to. -/
def unlink (vol : Volume Name Byte) (limit : ℕ) (path : List Name) : Volume Name Byte :=
  match vol.locate limit path with
  | some place =>
      match vol.entry place with
      | some (.file _) | some (.link _) => vol.drop place
      | _ => vol
  | none => vol

/-- `rmdir` removes an empty directory, and no link to it. -/
def rmdir (vol : Volume Name Byte) (limit : ℕ) (path : List Name) : Volume Name Byte :=
  match vol.locate limit path with
  | some place =>
      if vol.entry place = some .directory ∧ vol.names place = [] then vol.drop place else vol
  | none => vol

section Children

variable {dir : List Name} (hdir : vol.follow limit dir = some top)

include hdir

omit [DecidableEq Name] in
theorem follow_child (name : Name) :
    ∃ expand, vol.follow limit (dir ++ [name]) = vol.enter expand top name ∧
      ∀ other, vol.follow limit other = some top →
        vol.follow limit (other ++ [name]) = vol.enter expand top name := by
  cases limit with
  | zero => cases hdir
  | succ limit =>
      have hplace : ∀ other, vol.follow (limit + 1) other = some top →
          vol.follow (limit + 1) (other ++ [name]) = vol.enter (vol.follow limit) top name := by
        intro other hother
        rw [follow_concat, hother, Option.bind_some]
      exact ⟨vol.follow limit, hplace dir hdir, hplace⟩

omit [DecidableEq Name] in
theorem follow_child_directory (h : vol.entry (top ++ [name]) = some .directory) :
    vol.follow limit (dir ++ [name]) = some (top ++ [name]) := by
  obtain ⟨expand, hchild, -⟩ := follow_child hdir name
  rw [hchild, enter, h]

theorem isDirectory_child (h : vol.entry (top ++ [name]) = some .directory) :
    vol.isDirectory limit (dir ++ [name]) = true := by
  rw [isDirectory, follow_child_directory hdir h, Option.bind_some, h, decide_eq_true rfl]

/-- Which way leads to the directory does not matter. -/
theorem isDirectory_congr {other : List Name} (hother : vol.follow limit other = some top) :
    vol.isDirectory limit (other ++ [name]) = vol.isDirectory limit (dir ++ [name]) := by
  obtain ⟨expand, hchild, hsame⟩ := follow_child hdir name
  rw [isDirectory, isDirectory, hchild, hsame other hother]

theorem entry_of_isDirectory (h : vol.isDirectory limit (dir ++ [name]) = true) :
    vol.entry (top ++ [name]) = some .directory ∨
      ∃ target, vol.entry (top ++ [name]) = some (.link target) := by
  obtain ⟨expand, hchild, -⟩ := follow_child hdir name
  rw [isDirectory, hchild, enter, decide_eq_true_eq] at h
  cases hentry : vol.entry (top ++ [name]) with
  | none => simp [hentry] at h
  | some e =>
      cases e with
      | file inode => simp [hentry] at h
      | directory => exact Or.inl rfl
      | link target => exact Or.inr ⟨target, rfl⟩

/-- What is no directory for `stat` is unlinked, if there is anything. -/
theorem unlink_child (h : vol.isDirectory limit (dir ++ [name]) = false) :
    vol.unlink limit (dir ++ [name]) = vol.drop (top ++ [name]) := by
  have hlocate : vol.locate limit (dir ++ [name]) = some (top ++ [name]) := by
    rw [locate_concat, hdir, Option.map_some]
  simp only [unlink, hlocate]
  cases hentry : vol.entry (top ++ [name]) with
  | none => exact (drop_of_none hentry).symm
  | some e =>
      cases e with
      | file inode => rfl
      | link target => rfl
      | directory => simp [isDirectory_child hdir hentry] at h

theorem rmdir_child_none (h : vol.entry (top ++ [name]) = none) :
    vol.rmdir limit (dir ++ [name]) = vol := by
  simp [rmdir, locate_concat, hdir, h]

theorem rmdir_child_empty (h : vol.entry (top ++ [name]) = some .directory)
    (hnames : vol.names (top ++ [name]) = []) :
    vol.rmdir limit (dir ++ [name]) = vol.drop (top ++ [name]) := by
  simp [rmdir, locate_concat, hdir, h, hnames]

end Children

/-- Without a way to the directory nothing happens in it. -/
theorem lost_child {dir : List Name} (hdir : vol.follow limit dir = none) (name : Name) :
    vol.isDirectory limit (dir ++ [name]) = false ∧ vol.unlink limit (dir ++ [name]) = vol := by
  have hlocate : vol.locate limit (dir ++ [name]) = none := by
    rw [locate_concat, hdir, Option.map_none]
  refine ⟨?_, by simp only [unlink, hlocate]⟩
  cases limit with
  | zero => rfl
  | succ limit => simp [isDirectory, follow_concat, hdir]

theorem unlink_eq (vol : Volume Name Byte) (limit : ℕ) (path : List Name) :
    vol.unlink limit path = vol ∨ ∃ place, vol.locate limit path = some place ∧
      vol.entry place ≠ some .directory ∧ vol.unlink limit path = vol.drop place := by
  unfold unlink
  split
  · next place hplace =>
      split
      · next hfile => exact Or.inr ⟨place, hplace, by simp [hfile], rfl⟩
      · next hlink => exact Or.inr ⟨place, hplace, by simp [hlink], rfl⟩
      · exact Or.inl rfl
  · exact Or.inl rfl

theorem rmdir_eq (vol : Volume Name Byte) (limit : ℕ) (path : List Name) :
    vol.rmdir limit path = vol ∨ ∃ place, vol.locate limit path = some place ∧
      vol.entry place = some .directory ∧ vol.names place = [] ∧
        vol.rmdir limit path = vol.drop place := by
  unfold rmdir
  split
  · next place hplace =>
      split
      · next hempty => exact Or.inr ⟨place, hplace, hempty.1, hempty.2, rfl⟩
      · exact Or.inl rfl
  · exact Or.inl rfl

theorem unlink_within (limit : ℕ) (path : List Name) : (vol.unlink limit path).Within vol := by
  rcases unlink_eq vol limit path with heq | ⟨place, -, -, heq⟩
  · rw [heq]
    exact Within.refl vol
  · rw [heq]
    exact within_drop

theorem rmdir_within (limit : ℕ) (path : List Name) : (vol.rmdir limit path).Within vol := by
  rcases rmdir_eq vol limit path with heq | ⟨place, -, -, -, heq⟩
  · rw [heq]
    exact Within.refl vol
  · rw [heq]
    exact within_drop

theorem entry_rmdir (limit : ℕ) {path other : List Name}
    (h : ∀ place, vol.locate limit path = some place → ¬ place <+: other) :
    (vol.rmdir limit path).entry other = vol.entry other := by
  rcases rmdir_eq vol limit path with heq | ⟨place, hplace, -, -, heq⟩
  · rw [heq]
  · rw [heq, entry_drop, if_neg (h place hplace)]

omit [DecidableEq Name] in
theorem entry_of_names_nil (h : vol.names place = []) {rest : List Name} (hrest : rest ≠ []) :
    vol.entry (place ++ rest) = none := by
  refine FileSystem.entry_below (fun name => ?_) hrest
  by_contra hentry
  simpa [h] using (vol.mem_names place name).mpr hentry

/-- A link outlives every `rmdir`. -/
theorem link_rmdir (limit : ℕ) (path : List Name) {other target : List Name}
    (h : vol.entry other = some (.link target)) :
    (vol.rmdir limit path).entry other = some (.link target) := by
  rcases rmdir_eq vol limit path with heq | ⟨place, -, hdirectory, hnames, heq⟩
  · rw [heq, h]
  · rw [heq, entry_drop, if_neg, h]
    rintro ⟨rest, rfl⟩
    by_cases hrest : rest = []
    · simp [hrest, hdirectory] at h
    · simp [entry_of_names_nil hnames hrest] at h

end Volume

end MockServices.Foundations
