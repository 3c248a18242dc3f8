import MockServices.Foundations.FileSystem

/-!
# What is stored under a name

A file system without hard links is a map from names to contents. Opening
a file to be written anew, writing to it and removing it are updates of
the map at one name; directories come and go without a trace in it.
-/

namespace MockServices.Foundations.FileSystem

variable {Name Byte : Type*} {fs fs' : FileSystem Name Byte} {path other : List Name} {inode : ℕ}

/-- No file has two names. -/
def Unshared (fs : FileSystem Name Byte) : Prop :=
  ∀ path other inode, fs.entry path = some (.file inode) → fs.entry other = some (.file inode) →
    path = other

/-- The content of the file at the path. -/
def stored (fs : FileSystem Name Byte) (path : List Name) : Option (List Byte) :=
  (fs.fileAt path).map fs.content

theorem stored_eq_some (h : fs.entry path = some (.file inode)) :
    fs.stored path = some (fs.content inode) := by
  rw [stored, fileAt_eq_some_iff.mpr h, Option.map_some]

theorem stored_eq_none (h : ∀ inode, fs.entry path ≠ some (.file inode)) :
    fs.stored path = none := by
  rw [stored, Option.map_eq_none_iff, Option.eq_none_iff_forall_ne_some]
  exact fun inode hfile => h inode (fileAt_eq_some_iff.mp hfile)

/-- What is stored depends on the entry at the path and on its content. -/
theorem stored_congr (hentry : fs'.entry path = fs.entry path)
    (hcontent : ∀ inode, fs.entry path = some (.file inode) →
      fs'.content inode = fs.content inode) : fs'.stored path = fs.stored path := by
  by_cases hfile : ∃ inode, fs.entry path = some (.file inode)
  · obtain ⟨inode, hinode⟩ := hfile
    rw [stored_eq_some hinode, stored_eq_some (hentry.trans hinode), hcontent inode hinode]
  · push Not at hfile
    rw [stored_eq_none hfile, stored_eq_none fun inode => hentry ▸ hfile inode]

variable [DecidableEq Name]

/-! ## Writing -/

/-- The content of a file is the content under its one name. -/
theorem stored_setContent (hshared : fs.Unshared) (h : fs.entry path = some (.file inode))
    (bytes : List Byte) :
    (fs.setContent inode bytes).stored = Function.update fs.stored path (some bytes) := by
  funext other
  by_cases hother : other = path
  · subst hother
    have hset : (fs.setContent inode bytes).entry other = some (.file inode) := h
    rw [stored_eq_some hset, Function.update_self]
    exact congrArg some (Function.update_self ..)
  · rw [Function.update_of_ne hother]
    apply stored_congr
    · rfl
    · intro inode' hinode'
      have hne : inode' ≠ inode := by
        rintro rfl
        exact hother (hshared other path inode' hinode' h)
      exact Function.update_of_ne hne _ _

theorem entry_of_openTruncated (h : fs.openTruncated path = some (inode, fs')) :
    fs'.entry path = some (.file inode) := by
  rw [entry_openTruncated h, Function.update_self]

/-- The file that has been opened was at the path already, or it is new. -/
theorem openTruncated_cases (h : fs.openTruncated path = some (inode, fs')) :
    (fs.entry path = some (.file inode) ∧ fs' = fs.setContent inode []) ∨
      (fs.entry path = none ∧ inode = fs.inodes ∧
        fs'.content = Function.update fs.content inode []) := by
  obtain ⟨⟨inode, opened⟩, hopen, hset⟩ := Option.map_eq_some_iff.mp h
  cases hset
  unfold openOrCreate at hopen
  split at hopen
  · next hfile =>
      cases hopen
      exact Or.inl ⟨fileAt_eq_some_iff.mp hfile, rfl⟩
  · split at hopen
    · next hvacant =>
        cases hopen
        exact Or.inr ⟨hvacant.2.1, rfl, Function.update_idem ..⟩
    · cases hopen

theorem unshared_openTruncated (hshared : fs.Unshared)
    (h : fs.openTruncated path = some (inode, fs')) : fs'.Unshared := by
  rcases openTruncated_cases h with ⟨-, rfl⟩ | ⟨-, rfl, -⟩
  · exact hshared
  · have hnew : ∀ p, fs'.entry p = some (.file fs.inodes) → p = path := by
      intro p hp
      by_contra hne
      rw [entry_openTruncated h, Function.update_of_ne hne] at hp
      exact Nat.lt_irrefl _ (fs.known p _ hp)
    intro p q inode hp hq
    by_cases hinode : inode = fs.inodes
    · subst hinode
      exact (hnew p hp).trans (hnew q hq).symm
    · have hold : ∀ p, fs'.entry p = some (.file inode) → fs.entry p = some (.file inode) := by
        intro p hp
        by_cases hpath : p = path
        · subst hpath
          rw [entry_of_openTruncated h, Option.some.injEq, Entry.file.injEq] at hp
          exact absurd hp.symm hinode
        · rwa [entry_openTruncated h, Function.update_of_ne hpath] at hp
      exact hshared p q inode (hold p hp) (hold q hq)

theorem stored_openTruncated (hshared : fs.Unshared)
    (h : fs.openTruncated path = some (inode, fs')) :
    fs'.stored = Function.update fs.stored path (some []) := by
  rcases openTruncated_cases h with ⟨hentry, rfl⟩ | ⟨-, rfl, hcontent⟩
  · exact stored_setContent hshared hentry []
  · funext other
    by_cases hother : other = path
    · subst hother
      rw [stored_eq_some (entry_of_openTruncated h), hcontent, Function.update_self,
        Function.update_self]
    · rw [Function.update_of_ne hother]
      apply stored_congr
      · rw [entry_openTruncated h, Function.update_of_ne hother]
      · intro inode hinode
        rw [hcontent, Function.update_of_ne (Nat.ne_of_lt (fs.known other inode hinode))]

/-! ## Directories -/

theorem unshared_mkdir (hshared : fs.Unshared) (h : fs.mkdir path = some fs') : fs'.Unshared := by
  have hold : ∀ p inode, fs'.entry p = some (.file inode) → fs.entry p = some (.file inode) := by
    intro p inode hp
    by_cases hpath : p = path
    · subst hpath
      rw [entry_mkdir h, Function.update_self] at hp
      cases hp
    · rwa [entry_mkdir h, Function.update_of_ne hpath] at hp
  exact fun p q inode hp hq => hshared p q inode (hold p inode hp) (hold q inode hq)

theorem content_mkdir (h : fs.mkdir path = some fs') : fs'.content = fs.content := by
  unfold mkdir at h
  split at h
  · cases h
    rfl
  · cases h

theorem stored_mkdir (h : fs.mkdir path = some fs') : fs'.stored = fs.stored := by
  funext other
  by_cases hother : other = path
  · subst hother
    have hvacant : fs.Vacant other := isSome_mkdir.mp (Option.isSome_of_eq_some h)
    rw [stored_eq_none fun inode => by simp [entry_mkdir h],
      stored_eq_none fun inode => by simp [hvacant.2.1]]
  · apply stored_congr
    · rw [entry_mkdir h, Function.update_of_ne hother]
    · exact fun inode _ => congrFun (content_mkdir h) inode

/-! ## Removal -/

theorem unshared_remove (hshared : fs.Unshared) (h : fs.Childless path) :
    (fs.remove path h).Unshared := by
  have hold : ∀ p inode, (fs.remove path h).entry p = some (.file inode) →
      fs.entry p = some (.file inode) := by
    intro p inode hp
    simp only [remove, Function.update_apply] at hp
    split at hp
    · cases hp
    · exact hp
  exact fun p q inode hp hq => hshared p q inode (hold p inode hp) (hold q inode hq)

theorem stored_remove (h : fs.Childless path) :
    (fs.remove path h).stored = Function.update fs.stored path none := by
  funext other
  by_cases hother : other = path
  · subst hother
    rw [Function.update_self]
    exact stored_eq_none fun inode => by simp [remove]
  · rw [Function.update_of_ne hother]
    exact stored_congr (Function.update_of_ne hother _ _) fun _ _ => rfl

theorem unshared_unlink (hshared : fs.Unshared) (h : fs.unlink path = some fs') :
    fs'.Unshared := by
  unfold unlink at h
  split at h
  · cases h
    exact unshared_remove hshared _
  · cases h

theorem stored_unlink (h : fs.unlink path = some fs') :
    fs'.stored = Function.update fs.stored path none := by
  unfold unlink at h
  split at h
  · cases h
    exact stored_remove _
  · cases h

theorem unshared_rmdir (hshared : fs.Unshared) (h : fs.rmdir path = some fs') : fs'.Unshared := by
  unfold rmdir at h
  split at h
  · cases h
    exact unshared_remove hshared _
  · cases h

theorem stored_rmdir (h : fs.rmdir path = some fs') : fs'.stored = fs.stored := by
  unfold rmdir at h
  split at h
  · next hdirectory =>
      cases h
      rw [stored_remove, Function.update_eq_self_iff]
      exact (stored_eq_none fun inode => by simp [hdirectory.2.1]).symm
  · cases h

end MockServices.Foundations.FileSystem
