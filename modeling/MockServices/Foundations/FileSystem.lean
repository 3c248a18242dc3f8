import Mathlib.Data.List.Infix
import Mathlib.Data.Set.Finite.Basic
import Mathlib.Logic.Function.Basic

/-!
# A file system

A path from the root names a file, a directory or a symbolic link. Files
are numbered, so that two names of one file share its content, and an
open file outlives its names. Every change a system call can make keeps
the tree well formed; what it does to the files that were there before is
said for each.
-/

namespace MockServices.Foundations

inductive Entry (Name : Type*) where
  | file (inode : ℕ)
  | directory
  | link (target : List Name)
  deriving DecidableEq

/-- What lies below a path lies in a directory, and the files are numbered
below `inodes`. -/
@[ext]
structure FileSystem (Name Byte : Type*) where
  entry : List Name → Option (Entry Name)
  content : ℕ → List Byte
  inodes : ℕ
  nested : ∀ path name, entry (path ++ [name]) ≠ none → entry path = some .directory
  known : ∀ path inode, entry path = some (.file inode) → inode < inodes

namespace FileSystem

variable {Name Byte : Type*} [DecidableEq Name] {fs fs' : FileSystem Name Byte}
  {path source target : List Name} {inode : ℕ}

def empty : FileSystem Name Byte where
  entry path := if path = [] then some .directory else none
  content _ := []
  inodes := 0
  nested path name h := by simp at h
  known path inode h := by split at h <;> cases h

/-! ## Contents -/

def setContent (fs : FileSystem Name Byte) (inode : ℕ) (bytes : List Byte) :
    FileSystem Name Byte :=
  { fs with content := Function.update fs.content inode bytes }

/-! ## New entries -/

/-- Nothing is at the path, and its parent is a directory. -/
def Vacant (fs : FileSystem Name Byte) (path : List Name) : Prop :=
  path ≠ [] ∧ fs.entry path = none ∧ fs.entry path.dropLast = some .directory

instance : Decidable (fs.Vacant path) := inferInstanceAs (Decidable (_ ∧ _))

theorem nested_update (h : fs.Vacant path) (e : Entry Name) (p : List Name) (name : Name)
    (hp : Function.update fs.entry path (some e) (p ++ [name]) ≠ none) :
    Function.update fs.entry path (some e) p = some .directory := by
  obtain ⟨hne, hnone, hparent⟩ := h
  have hdirectory : fs.entry p = some .directory := by
    by_cases hpath : p ++ [name] = path
    · rwa [← hpath, List.dropLast_concat] at hparent
    · rw [Function.update_of_ne hpath] at hp
      exact fs.nested p name hp
  rw [Function.update_of_ne, hdirectory]
  rintro rfl
  simp [hnone] at hdirectory

/-- A new empty file. -/
def create (fs : FileSystem Name Byte) (path : List Name) (h : fs.Vacant path) :
    FileSystem Name Byte where
  entry := Function.update fs.entry path (some (.file fs.inodes))
  content := Function.update fs.content fs.inodes []
  inodes := fs.inodes + 1
  nested := nested_update h _
  known := by
    intro p inode hp
    by_cases hpath : p = path
    · subst hpath
      simp only [Function.update_self, Option.some.injEq, Entry.file.injEq] at hp
      exact hp ▸ Nat.lt_succ_self _
    · rw [Function.update_of_ne hpath] at hp
      exact Nat.lt_succ_of_lt (fs.known p inode hp)

def mkdir (fs : FileSystem Name Byte) (path : List Name) : Option (FileSystem Name Byte) :=
  if h : fs.Vacant path then
    some
      { fs with
        entry := Function.update fs.entry path (some .directory)
        nested := nested_update h _
        known := by
          intro p inode hp
          by_cases hpath : p = path
          · subst hpath
            simp at hp
          · rw [Function.update_of_ne hpath] at hp
            exact fs.known p inode hp }
  else none

/-! ## Files to be opened -/

def fileAt (fs : FileSystem Name Byte) (path : List Name) : Option ℕ :=
  match fs.entry path with
  | some (.file inode) => some inode
  | _ => none

omit [DecidableEq Name] in
theorem fileAt_eq_some_iff : fs.fileAt path = some inode ↔ fs.entry path = some (.file inode) := by
  unfold fileAt
  split <;> simp_all

/-- Open the file at the path, or a new one. -/
def openOrCreate (fs : FileSystem Name Byte) (path : List Name) :
    Option (ℕ × FileSystem Name Byte) :=
  match fs.fileAt path with
  | some inode => some (inode, fs)
  | none => if h : fs.Vacant path then some (fs.inodes, fs.create path h) else none

/-- Open it and drop what it holds. -/
def openTruncated (fs : FileSystem Name Byte) (path : List Name) :
    Option (ℕ × FileSystem Name Byte) :=
  (fs.openOrCreate path).map fun opened => (opened.1, opened.2.setContent opened.1 [])

/-! ## Removal -/

/-- Nothing lies in the directory at the path. -/
def Childless (fs : FileSystem Name Byte) (path : List Name) : Prop :=
  ∀ name, fs.entry (path ++ [name]) = none

omit [DecidableEq Name] in
theorem childless_of_not_directory (h : fs.entry path ≠ some .directory) : fs.Childless path := by
  intro name
  by_contra hname
  exact h (fs.nested path name hname)

def remove (fs : FileSystem Name Byte) (path : List Name) (h : fs.Childless path) :
    FileSystem Name Byte :=
  { fs with
    entry := Function.update fs.entry path none
    nested := by
      intro p name hp
      have hname : p ++ [name] ≠ path := by
        rintro rfl
        simp at hp
      rw [Function.update_of_ne hname] at hp
      rw [Function.update_of_ne, fs.nested p name hp]
      rintro rfl
      exact hp (h name)
    known := by
      intro p inode hp
      by_cases hpath : p = path
      · subst hpath
        simp at hp
      · rw [Function.update_of_ne hpath] at hp
        exact fs.known p inode hp }

def unlink (fs : FileSystem Name Byte) (path : List Name) : Option (FileSystem Name Byte) :=
  if h : fs.entry path ≠ none ∧ fs.entry path ≠ some .directory then
    some (fs.remove path (childless_of_not_directory h.2))
  else none

open Classical in
/-- Whether a directory is empty is not computed. -/
noncomputable def rmdir (fs : FileSystem Name Byte) (path : List Name) :
    Option (FileSystem Name Byte) :=
  if h : path ≠ [] ∧ fs.entry path = some .directory ∧ fs.Childless path then
    some (fs.remove path h.2.2)
  else none

/-! ## Renaming -/

/-- Where something at `path` is found once `source` has become `target`. -/
def relocate (source target path : List Name) : List Name :=
  if source <+: path then target ++ path.drop source.length else path

/-- Two names of one thing: renaming one to the other does nothing. -/
def Same (fs : FileSystem Name Byte) (source target : List Name) : Prop :=
  (source = target ∧ fs.entry source ≠ none) ∨
    ∃ inode, fs.entry source = some (.file inode) ∧ fs.entry target = some (.file inode)

/-- The source can be moved to the target: nothing is there, or something
that it can replace. -/
structure Movable (fs : FileSystem Name Byte) (source target : List Name) : Prop where
  present : fs.entry source ≠ none
  outside : ¬ source <+: target
  source_ne : source ≠ []
  target_ne : target ≠ []
  parent : fs.entry target.dropLast = some .directory
  childless : fs.Childless target
  kind : fs.entry target ≠ none →
    (fs.entry source = some .directory ↔ fs.entry target = some .directory)

def move (fs : FileSystem Name Byte) (source target : List Name) (h : fs.Movable source target) :
    FileSystem Name Byte where
  entry path :=
    if target <+: path then fs.entry (source ++ path.drop target.length)
    else if source <+: path then none
    else fs.entry path
  content := fs.content
  inodes := fs.inodes
  nested := by
    intro path name hpath
    by_cases htarget : target <+: path ++ [name]
    · rw [if_pos htarget] at hpath
      rcases List.prefix_concat_iff.mp htarget with heq | hbelow
      · -- The target itself, in its own parent.
        have hparent : path = target.dropLast := by rw [heq, List.dropLast_concat]
        have hshort : ¬ target <+: path := fun hbelow => by
          have hlength := hbelow.length_le
          rw [heq, List.length_append] at hlength
          exact Nat.not_succ_le_self _ hlength
        have houtside : ¬ source <+: path := fun hbelow =>
          h.outside (hbelow.trans (heq ▸ List.prefix_append path [name]))
        rw [if_neg hshort, if_neg houtside, hparent, h.parent]
      · rw [List.drop_append_of_le_length hbelow.length_le, ← List.append_assoc] at hpath
        rw [if_pos hbelow, fs.nested _ name hpath]
    · rw [if_neg htarget] at hpath
      have htarget' : ¬ target <+: path := fun hbelow =>
        htarget (hbelow.trans (List.prefix_append path [name]))
      by_cases hsource : source <+: path ++ [name]
      · exact absurd (if_pos hsource) hpath
      · have hsource' : ¬ source <+: path := fun hbelow =>
          hsource (hbelow.trans (List.prefix_append path [name]))
        rw [if_neg hsource] at hpath
        rw [if_neg htarget', if_neg hsource', fs.nested path name hpath]
  known := by
    intro path inode hpath
    split at hpath
    · exact fs.known _ inode hpath
    · split at hpath
      · cases hpath
      · exact fs.known path inode hpath

open Classical in
noncomputable def rename (fs : FileSystem Name Byte) (source target : List Name) :
    Option (FileSystem Name Byte) :=
  if fs.Same source target then some fs
  else if h : fs.Movable source target then some (fs.move source target h)
  else none

/-! ## What becomes of the files -/

/-- Every file that was there is there afterwards with the same content,
under the path that `place` gives. -/
def Keeps (fs fs' : FileSystem Name Byte) (place : List Name → List Name) : Prop :=
  ∀ path inode, fs.entry path = some (.file inode) →
    fs'.entry (place path) = some (.file inode) ∧ fs'.content inode = fs.content inode

omit [DecidableEq Name] in
theorem Keeps.refl : fs.Keeps fs id := fun _ _ h => ⟨h, rfl⟩

omit [DecidableEq Name] in
theorem Keeps.trans {fs'' : FileSystem Name Byte} (h : fs.Keeps fs' id) (h' : fs'.Keeps fs'' id) :
    fs.Keeps fs'' id := by
  intro path inode hpath
  obtain ⟨hentry, hcontent⟩ := h path inode hpath
  obtain ⟨hentry', hcontent'⟩ := h' path inode hentry
  exact ⟨hentry', hcontent'.trans hcontent⟩

omit [DecidableEq Name] in
theorem keeps_setContent_iff {bytes : List Byte} (h : fs.entry path = some (.file inode)) :
    fs.Keeps (fs.setContent inode bytes) id ↔ fs.content inode = bytes := by
  constructor
  · intro hkeeps
    have hcontent : Function.update fs.content inode bytes inode = fs.content inode :=
      (hkeeps path inode h).2
    rw [Function.update_self] at hcontent
    exact hcontent.symm
  · rintro rfl p other hp
    exact ⟨hp, congrFun (Function.update_eq_self inode fs.content) other⟩

theorem keeps_create (h : fs.Vacant path) : fs.Keeps (fs.create path h) id := by
  intro p inode hp
  have hne : p ≠ path := by
    rintro rfl
    simp [h.2.1] at hp
  exact ⟨(Function.update_of_ne hne _ _).trans hp,
    Function.update_of_ne (Nat.ne_of_lt (fs.known p inode hp)) _ _⟩

theorem keeps_openOrCreate (h : fs.openOrCreate path = some (inode, fs')) : fs.Keeps fs' id := by
  unfold openOrCreate at h
  split at h
  · cases h
    exact Keeps.refl
  · split at h
    · next hvacant =>
        cases h
        exact keeps_create hvacant
    · cases h

/-- Opening a file to be written anew loses what it held. -/
theorem keeps_openTruncated_iff (h : fs.openTruncated path = some (inode, fs')) :
    fs.Keeps fs' id ↔ ∀ inode, fs.entry path = some (.file inode) → fs.content inode = [] := by
  obtain ⟨⟨inode, opened⟩, hopen, hset⟩ := Option.map_eq_some_iff.mp h
  cases hset
  unfold openOrCreate at hopen
  split at hopen
  · next hfile =>
      cases hopen
      have hentry := fileAt_eq_some_iff.mp hfile
      rw [keeps_setContent_iff hentry]
      simp [hentry]
  · next hfile =>
      have hnone : ∀ inode, fs.entry path ≠ some (.file inode) := fun inode hentry => by
        simp [fileAt_eq_some_iff.mpr hentry] at hfile
      split at hopen
      · next hvacant =>
          cases hopen
          refine iff_of_true ((keeps_create hvacant).trans ?_) fun inode hentry =>
            absurd hentry (hnone inode)
          have hnew : (fs.create path hvacant).entry path = some (.file fs.inodes) :=
            Function.update_self ..
          exact (keeps_setContent_iff hnew).mpr (Function.update_self ..)
      · cases hopen

theorem keeps_mkdir (h : fs.mkdir path = some fs') : fs.Keeps fs' id := by
  unfold mkdir at h
  split at h
  · next hvacant =>
      cases h
      intro p inode hp
      have hne : p ≠ path := by
        rintro rfl
        simp [hvacant.2.1] at hp
      exact ⟨(Function.update_of_ne hne _ _).trans hp, rfl⟩
  · cases h

/-! ## What is there afterwards -/

theorem isSome_mkdir : (fs.mkdir path).isSome = true ↔ fs.Vacant path := by
  unfold mkdir
  split <;> simp_all

theorem entry_mkdir (h : fs.mkdir path = some fs') :
    fs'.entry = Function.update fs.entry path (some .directory) := by
  unfold mkdir at h
  split at h
  · cases h
    rfl
  · cases h

theorem entry_openTruncated (h : fs.openTruncated path = some (inode, fs')) :
    fs'.entry = Function.update fs.entry path (some (.file inode)) := by
  obtain ⟨⟨inode, opened⟩, hopen, hset⟩ := Option.map_eq_some_iff.mp h
  cases hset
  unfold openOrCreate at hopen
  split at hopen
  · next hfile =>
      cases hopen
      exact (Function.update_eq_self_iff.mpr (fileAt_eq_some_iff.mp hfile).symm).symm
  · split at hopen
    · cases hopen
      rfl
    · cases hopen

theorem isSome_openTruncated (h : fs.Vacant path) : (fs.openTruncated path).isSome = true := by
  have hfile : fs.fileAt path = none := by
    unfold fileAt
    rw [h.2.1]
  simp [openTruncated, openOrCreate, hfile, h]

omit [DecidableEq Name] in
/-- In a file system with finitely many entries no directory has every name. -/
theorem exists_free (hfinite : {p | fs.entry p ≠ none}.Finite) {names : Set Name}
    (hnames : names.Infinite) (directory : List Name) :
    ∃ name ∈ names, fs.entry (directory ++ [name]) = none := by
  have htaken : {name | fs.entry (directory ++ [name]) ≠ none}.Finite := by
    refine hfinite.preimage (Function.Injective.injOn fun a b hab => ?_)
    simpa using hab
  obtain ⟨name, hname, hfree⟩ := hnames.exists_notMem_finite htaken
  exact ⟨name, hname, not_not.mp hfree⟩

theorem entry_move_target (h : fs.Movable source target) :
    (fs.move source target h).entry target = fs.entry source := by
  simp [move]

omit [DecidableEq Name] in
theorem entry_below (h : fs.Childless path) {rest : List Name} (hrest : rest ≠ []) :
    fs.entry (path ++ rest) = none := by
  induction rest using List.reverseRecOn with
  | nil => exact absurd rfl hrest
  | append_singleton rest name ih =>
      by_contra hentry
      rw [← List.append_assoc] at hentry
      have hdirectory := fs.nested _ name hentry
      by_cases hempty : rest = []
      · subst hempty
        exact hentry (by simpa using h name)
      · simp [ih hempty] at hdirectory

theorem relocate_append (rest : List Name) :
    relocate source target (source ++ rest) = target ++ rest := by
  simp [relocate]

theorem relocate_of_outside (h : ¬ source <+: path) : relocate source target path = path :=
  if_neg h

/-- A move loses the file that it replaces, and no other. -/
theorem keeps_move_iff (h : fs.Movable source target) :
    fs.Keeps (fs.move source target h) (relocate source target) ↔
      ∀ inode, fs.entry target = some (.file inode) → fs.entry source = some (.file inode) := by
  constructor
  · intro hkeeps inode htarget
    have hmoved := (hkeeps target inode htarget).1
    rwa [relocate_of_outside h.outside, entry_move_target h] at hmoved
  · intro hsource path inode hpath
    refine ⟨?_, rfl⟩
    by_cases hinside : source <+: path
    · obtain ⟨rest, rfl⟩ := hinside
      rw [relocate_append]
      simpa [move] using hpath
    · rw [relocate_of_outside hinside]
      by_cases hbelow : target <+: path
      · obtain ⟨rest, rfl⟩ := hbelow
        by_cases hrest : rest = []
        · subst hrest
          rw [List.append_nil] at hpath ⊢
          rw [entry_move_target h, hsource inode hpath]
        · simp [entry_below h.childless hrest] at hpath
      · simpa [move, hbelow, hinside] using hpath

/-- Two names of one file are both kept. -/
theorem keeps_of_same (h : fs.Same source target) : fs.Keeps fs (relocate source target) := by
  intro path inode hpath
  refine ⟨?_, rfl⟩
  by_cases hinside : source <+: path
  · obtain ⟨rest, rfl⟩ := hinside
    rw [relocate_append]
    rcases h with ⟨rfl, -⟩ | ⟨inode', hsource, htarget⟩
    · exact hpath
    · by_cases hrest : rest = []
      · subst hrest
        rw [List.append_nil] at hpath ⊢
        rw [htarget, ← hsource, hpath]
      · rw [entry_below (childless_of_not_directory (by simp [hsource])) hrest] at hpath
        cases hpath
  · rwa [relocate_of_outside hinside]

/-- Renaming keeps every file except for one that is under the target's
path and is not the source. -/
theorem keeps_rename_iff (h : fs.rename source target = some fs') :
    fs.Keeps fs' (relocate source target) ↔
      ∀ inode, fs.entry target = some (.file inode) → fs.entry source = some (.file inode) := by
  unfold rename at h
  split at h
  · next hsame =>
      cases h
      refine iff_of_true (keeps_of_same hsame) fun inode htarget => ?_
      rcases hsame with ⟨rfl, -⟩ | ⟨inode', hsource, htarget'⟩
      · exact htarget
      · rw [hsource, ← htarget', htarget]
  · split at h
    · next hmovable =>
        cases h
        exact keeps_move_iff hmovable
    · cases h

end FileSystem

end MockServices.Foundations
