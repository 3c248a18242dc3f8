import MockServices.Foundations.Volume

/-!
# The temporary directory

`erase_all` asks `stat` whether an entry is a directory, and `stat` follows
links. A link that leads to a directory when its turn comes is entered as
if it were one, and is left behind. Without such links the traversal
removes the tree from the leaves up, and nothing else.
-/

namespace MockServices.Detail

open Foundations

namespace TempDir

variable {Name Byte : Type*} [DecidableEq Name]

/-- One turn of the loop in `erase_all`, for the entry that `readdir` yields. -/
def eraseEntry (limit : ℕ) (erase : Volume Name Byte → List Name → Option (Volume Name Byte))
    (dir : List Name) (vol : Volume Name Byte) (name : Name) : Option (Volume Name Byte) :=
  let childPath := dir ++ [name]
  if vol.isDirectory limit childPath then
    (erase vol childPath).map fun vol => vol.rmdir limit childPath
  else some (vol.unlink limit childPath)

/-- `erase_all`, with `fuel` for the depth of its recursion. -/
def eraseAll (limit : ℕ) : ℕ → Volume Name Byte → List Name → Option (Volume Name Byte)
  | 0, _, _ => none
  | fuel + 1, vol, dir =>
      match vol.opendir limit dir with
      | none => some (vol.rmdir limit dir)
      | some names =>
          (names.foldlM (eraseEntry limit (eraseAll limit fuel) dir) vol).map fun vol =>
            vol.rmdir limit dir

/-- The destructor ends, and all that has changed is that the tree at `top`
is gone. Below a link to a directory above it there is no end, as a path may
pass through any number of links. -/
def RemovesExactly (limit : ℕ) (vol : Volume Name Byte) (path top : List Name) : Prop :=
  ∃ fuel after, eraseAll limit fuel vol path = some after ∧ after.content = vol.content ∧
    ∀ other, after.entry other = if top <+: other then none else vol.entry other

/-- The subtrees that the traversal of `top` is through with when it comes to
what lies at `rest` below it. -/
def earlier (vol : Volume Name Byte) : List Name → List Name → List (List Name)
  | _, [] => []
  | top, name :: rest =>
      ((vol.names top).takeWhile (· ≠ name)).map (top ++ [·]) ++ earlier vol (top ++ [name]) rest

/-- No symbolic link at `top` or below leads to a directory when its turn
comes. -/
def Clear (limit : ℕ) (vol : Volume Name Byte) (top : List Name) : Prop :=
  ∀ rest target, vol.entry (top ++ rest) = some (.link target) →
    (vol.dropAll (earlier vol top rest)).isDirectory limit (top ++ rest) = false

/-- The same for those of the entries of `top` that are still to come. -/
def ClearAmong (limit : ℕ) : Volume Name Byte → List Name → List Name → Prop
  | _, _, [] => True
  | vol, top, name :: names =>
      Clear limit vol (top ++ [name]) ∧ ClearAmong limit (vol.drop (top ++ [name])) top names

/-- A link is left at `top` or below. -/
def LinkLeft (vol : Volume Name Byte) (top : List Name) : Prop :=
  ∃ rest target, vol.entry (top ++ rest) = some (.link target)

/-- Outside of `top` the volumes are the same. -/
def Framed (vol after : Volume Name Byte) (top : List Name) : Prop :=
  ∀ other, ¬ top <+: other → after.entry other = vol.entry other

section Rules

variable {limit fuel : ℕ} {vol after : Volume Name Byte} {dir names : List Name}

omit [DecidableEq Name] in
theorem foldlM_invariant {I : Volume Name Byte → Prop}
    {step : Volume Name Byte → Name → Option (Volume Name Byte)}
    (hstep : ∀ vol name after, I vol → step vol name = some after → I after) (hI : I vol)
    (h : names.foldlM step vol = some after) : I after := by
  induction names generalizing vol with
  | nil =>
      cases h
      exact hI
  | cons name names ih =>
      rw [List.foldlM_cons] at h
      obtain ⟨next, hnext, hrest⟩ := Option.bind_eq_some_iff.mp h
      exact ih (hstep vol name next hI hnext) hrest

/-- What every `rmdir` keeps, and every `unlink` of something that is no
directory for `stat`, `erase_all` keeps. -/
theorem eraseAll_invariant {I : Volume Name Byte → Prop} (base : List Name)
    (hrmdir : ∀ vol path, base <+: path → I vol → I (vol.rmdir limit path))
    (hunlink : ∀ vol dir name, base <+: dir → vol.isDirectory limit (dir ++ [name]) = false →
      I vol → I (vol.unlink limit (dir ++ [name])))
    (hbase : base <+: dir) (hI : I vol) (h : eraseAll limit fuel vol dir = some after) :
    I after := by
  induction fuel generalizing vol after dir with
  | zero => cases h
  | succ fuel ih =>
      simp only [eraseAll] at h
      split at h
      · cases h
        exact hrmdir vol dir hbase hI
      · next names hnames =>
          obtain ⟨last, hlast, rfl⟩ := Option.map_eq_some_iff.mp h
          refine hrmdir last dir hbase
            (foldlM_invariant (fun vol name next hI hnext => ?_) hI hlast)
          have hchild : base <+: dir ++ [name] := hbase.trans (List.prefix_append _ _)
          simp only [eraseEntry] at hnext
          split at hnext
          · obtain ⟨erased, herased, rfl⟩ := Option.map_eq_some_iff.mp hnext
            exact hrmdir erased _ hchild (ih hchild hI herased)
          · next hnot =>
              cases hnext
              exact hunlink vol dir name hbase ((Bool.not_eq_true _).mp hnot) hI

theorem eraseAll_within (h : eraseAll limit fuel vol dir = some after) : after.Within vol :=
  eraseAll_invariant (I := fun next => next.Within vol) []
    (fun next path _ hI => (next.rmdir_within limit path).trans hI)
    (fun next _ _ _ _ hI => (next.unlink_within limit _).trans hI) List.nil_prefix
    (Volume.Within.refl vol) h

theorem eraseEntry_within {name : Name}
    (h : eraseEntry limit (eraseAll limit fuel) dir vol name = some after) : after.Within vol := by
  simp only [eraseEntry] at h
  split at h
  · obtain ⟨erased, herased, rfl⟩ := Option.map_eq_some_iff.mp h
    exact (erased.rmdir_within limit _).trans (eraseAll_within herased)
  · cases h
    exact vol.unlink_within limit _

/-- A link that is entered as a directory is not removed on the way: what is
behind it can be reached only as long as it leads to a directory. -/
theorem link_stays {top target : List Name} {name : Name}
    (hlink : vol.entry (top ++ [name]) = some (.link target))
    (hdir : vol.follow limit dir = some top)
    (h : eraseAll limit fuel vol (dir ++ [name]) = some after) :
    after.entry (top ++ [name]) = some (.link target) := by
  refine (eraseAll_invariant (I := fun next => next.Within vol ∧
    next.entry (top ++ [name]) = some (.link target)) (dir ++ [name]) (fun next path _ hI => ?_)
    (fun next behind child hbehind hnot hI => ?_) List.prefix_rfl
    ⟨Volume.Within.refl vol, hlink⟩ h).2
  · exact ⟨(next.rmdir_within limit path).trans hI.1, Volume.link_rmdir limit path hI.2⟩
  · refine ⟨(next.unlink_within limit _).trans hI.1, ?_⟩
    obtain heq | ⟨place, hplace, hfile, heq⟩ := next.unlink_eq limit (behind ++ [child])
    · rw [heq, hI.2]
    rw [heq, Volume.entry_drop, if_neg, hI.2]
    intro hbelow
    have hthere : next.entry (top ++ [name]) ≠ none := by simp [hI.2]
    -- What is unlinked is no directory, so it is the link itself.
    have hsame : place = top ++ [name] := by
      rcases List.prefix_concat_iff.mp hbelow with hsame | habove
      · exact hsame
      · exact absurd (Volume.directory_above hthere habove) hfile
    rw [Volume.locate_concat, hsame] at hplace
    obtain ⟨behind', hfollow, hchild⟩ := Option.map_eq_some_iff.mp hplace
    obtain ⟨rfl, hname⟩ := List.append_inj' hchild rfl
    obtain rfl : child = name := by simpa using hname
    -- The way to it leads through it, so it leads to a directory.
    obtain ⟨rest, rfl⟩ := hbehind
    obtain ⟨mid, hmid, hmiddirectory⟩ := Volume.follow_above hfollow
    have hdirectory : next.entry mid = some .directory := by
      rcases hmiddirectory with rfl | hdirectory
      · exact next.nested mid child hthere
      · exact hdirectory
    obtain ⟨first, hfirst, -⟩ := Volume.follow_above hmid
    obtain rfl : behind' = first :=
      Option.some.inj (hdir.symm.trans (Volume.follow_of_within hI.1 hfirst))
    rw [Volume.isDirectory_congr hfirst hfollow, Volume.isDirectory, hmid, Option.bind_some,
      hdirectory] at hnot
    simp at hnot

end Rules

section Ways

variable {limit : ℕ} {vol : Volume Name Byte} {parent place : List Name} {own name : Name}

/-- The path `parent ++ [own]` leads to the directory `own` at `place`, on a
way that is not within it. -/
structure WayTo (limit : ℕ) (vol : Volume Name Byte) (parent place : List Name) (own : Name) :
    Prop where
  outside : (vol.drop (place ++ [own])).follow limit parent = some place
  directory : vol.entry (place ++ [own]) = some .directory

namespace WayTo

theorem follow_parent (h : WayTo limit vol parent place own) :
    vol.follow limit parent = some place :=
  Volume.follow_of_within Volume.within_drop h.outside

theorem follow (h : WayTo limit vol parent place own) :
    vol.follow limit (parent ++ [own]) = some (place ++ [own]) :=
  Volume.follow_child_directory h.follow_parent h.directory

theorem limit_pos (h : WayTo limit vol parent place own) : ∃ less, limit = less + 1 := by
  cases limit with
  | zero => cases h.follow_parent
  | succ less => exact ⟨less, rfl⟩

/-- Its own path leads to the directory as well. -/
theorem follow_self (h : WayTo limit vol parent place own) :
    vol.follow limit (place ++ [own]) = some (place ++ [own]) := by
  obtain ⟨less, rfl⟩ := h.limit_pos
  exact Volume.follow_directory h.directory

theorem drop_child (h : WayTo limit vol parent place own) (name : Name) :
    WayTo limit (vol.drop (place ++ [own] ++ [name])) parent place own where
  outside := by
    rw [Volume.drop_drop_below (List.prefix_append _ _)]
    exact h.outside
  directory := by
    rw [Volume.entry_drop, if_neg, h.directory]
    intro hbelow
    simpa using hbelow.length_le

theorem child (h : WayTo limit vol parent place own)
    (hentry : vol.entry (place ++ [own] ++ [name]) = some .directory) :
    WayTo limit vol (parent ++ [own]) (place ++ [own]) name :=
  ⟨(h.drop_child name).follow, hentry⟩

theorem isDirectory_child (h : WayTo limit vol parent place own) (name : Name) :
    vol.isDirectory limit (place ++ [own] ++ [name]) =
      vol.isDirectory limit (parent ++ [own] ++ [name]) :=
  Volume.isDirectory_congr h.follow h.follow_self

/-- Once all its entries are dropped the directory itself can be removed. -/
theorem rmdir_emptied (h : WayTo limit vol parent place own) :
    (vol.dropAll ((vol.names (place ++ [own])).map fun name => place ++ [own] ++ [name])).rmdir
      limit (parent ++ [own]) = vol.drop (place ++ [own]) := by
  have hbelow : ∀ below ∈ (vol.names (place ++ [own])).map fun name => place ++ [own] ++ [name],
      place ++ [own] <+: below := by
    intro below hmem
    obtain ⟨name, -, rfl⟩ := List.mem_map.mp hmem
    exact List.prefix_append _ _
  have hentry : (vol.dropAll ((vol.names (place ++ [own])).map fun name =>
      place ++ [own] ++ [name])).entry (place ++ [own]) = some .directory := by
    rw [Volume.entry_dropAll, if_neg (by simp), h.directory]
  rw [Volume.rmdir_child_empty
    (Volume.follow_of_within (Volume.drop_within_dropAll hbelow) h.outside) hentry ?_,
    Volume.drop_dropAll hbelow]
  refine List.eq_nil_iff_forall_not_mem.mpr fun name hname => ?_
  rw [Volume.mem_names, Volume.entry_dropAll] at hname
  have hmem : name ∈ vol.names (place ++ [own]) := by
    rw [Volume.mem_names]
    intro hnone
    exact hname (by rw [hnone, ite_self])
  exact hname (if_pos ⟨_, List.mem_map.mpr ⟨name, hmem, rfl⟩, List.prefix_rfl⟩)

end WayTo

end Ways

section Conditions

variable {limit : ℕ} {vol other : Volume Name Byte} {top : List Name} {name : Name}

theorem Clear.not_directory {target : List Name} (h : Clear limit vol top)
    (hlink : vol.entry top = some (.link target)) : vol.isDirectory limit top = false := by
  have hturn := h [] target (by rwa [List.append_nil])
  rwa [List.append_nil] at hturn

/-- Below what is no directory there is nothing, so its own turn is all. -/
theorem clear_of_not_directory (hfile : vol.entry top ≠ some .directory)
    (hstat : vol.isDirectory limit top = false) : Clear limit vol top := by
  intro rest target hlink
  cases rest with
  | nil =>
      rw [List.append_nil]
      exact hstat
  | cons name rest =>
      have hnone := FileSystem.entry_below (FileSystem.childless_of_not_directory hfile)
        (List.cons_ne_nil name rest)
      rw [hnone] at hlink
      cases hlink

theorem earlier_congr {rest : List Name}
    (h : ∀ path, top <+: path → other.names path = vol.names path) :
    earlier other top rest = earlier vol top rest := by
  induction rest generalizing top with
  | nil => rfl
  | cons name rest ih =>
      rw [earlier, earlier, h top List.prefix_rfl,
        ih fun path hbelow => h path ((List.prefix_append _ _).trans hbelow)]

omit [DecidableEq Name] in
/-- The subtrees of two entries of a directory are apart. -/
theorem siblings_apart {first second : Name} (hne : first ≠ second) (rest : List Name) :
    ¬ top ++ [first] <+: top ++ [second] ++ rest ∧
      ¬ top ++ [second] ++ rest <+: top ++ [first] := by
  constructor
  · rintro ⟨more, hmore⟩
    simp [hne] at hmore
  · rintro ⟨more, hmore⟩
    simp [hne.symm] at hmore

/-- What comes before an entry of a directory is what comes before it in its
own subtree, once the entries before it are dropped. -/
theorem clear_child_iff {before after : List Name}
    (hnames : vol.names top = before ++ name :: after) (hnotmem : name ∉ before) :
    Clear limit (vol.dropAll (before.map fun first => top ++ [first])) (top ++ [name]) ↔
      ∀ rest target, vol.entry (top ++ name :: rest) = some (.link target) →
        (vol.dropAll (earlier vol top (name :: rest))).isDirectory limit (top ++ name :: rest) =
          false := by
  have happart : ∀ rest, ∀ below ∈ before.map fun first => top ++ [first],
      ¬ below <+: top ++ [name] ++ rest ∧ ¬ top ++ [name] ++ rest <+: below := by
    intro rest below hmem
    obtain ⟨first, hfirst, rfl⟩ := List.mem_map.mp hmem
    refine siblings_apart (fun heq => hnotmem ?_) rest
    rwa [heq] at hfirst
  have hbefore : (vol.names top).takeWhile (· ≠ name) = before := by
    have hall : ∀ first ∈ before, decide (first ≠ name) = true := by
      intro first hfirst
      refine decide_eq_true fun heq => hnotmem ?_
      rwa [heq] at hfirst
    rw [hnames, List.takeWhile_append_of_pos hall, List.takeWhile_cons_of_neg (by simp),
      List.append_nil]
  have hearlier : ∀ rest, earlier (vol.dropAll (before.map fun first => top ++ [first]))
      (top ++ [name]) rest = earlier vol (top ++ [name]) rest := by
    refine fun rest => earlier_congr fun path hpath => ?_
    obtain ⟨more, rfl⟩ := hpath
    exact Volume.names_dropAll (happart more)
  refine forall₂_congr fun rest target => ?_
  rw [Volume.entry_dropAll, if_neg, hearlier rest, earlier, hbefore, Volume.dropAll_append,
    List.append_assoc, List.singleton_append]
  rintro ⟨below, hmem, hbelow⟩
  exact (happart rest below hmem).1 hbelow

/-- For the entries of a directory one after the other. -/
theorem clearAmong_iff {before names : List Name} (hnames : vol.names top = before ++ names) :
    ClearAmong limit (vol.dropAll (before.map fun first => top ++ [first])) top names ↔
      ∀ name ∈ names, ∀ rest target, vol.entry (top ++ name :: rest) = some (.link target) →
        (vol.dropAll (earlier vol top (name :: rest))).isDirectory limit (top ++ name :: rest) =
          false := by
  induction names generalizing before with
  | nil => simp [ClearAmong]
  | cons name names ih =>
      have hnodup := vol.nodup_names top
      rw [hnames] at hnodup
      have hnotmem : name ∉ before := fun hmem =>
        (List.nodup_append.mp hnodup).2.2 name hmem name List.mem_cons_self rfl
      have hnext : (vol.dropAll (before.map fun first => top ++ [first])).drop (top ++ [name]) =
          vol.dropAll ((before ++ [name]).map fun first => top ++ [first]) := by
        rw [List.map_append, Volume.dropAll_append]
        rfl
      rw [ClearAmong, clear_child_iff hnames hnotmem, hnext, ih (by simp [hnames]),
        List.forall_mem_cons]

theorem clear_iff_among (hdirectory : vol.entry top = some .directory) :
    Clear limit vol top ↔ ClearAmong limit vol top (vol.names top) := by
  have hamong : ClearAmong limit (vol.dropAll (([] : List Name).map fun first => top ++ [first]))
      top (vol.names top) ↔ _ := clearAmong_iff rfl
  change ClearAmong limit vol top (vol.names top) ↔ _ at hamong
  rw [hamong]
  constructor
  · exact fun h name _ rest target hentry => h (name :: rest) target hentry
  · intro h rest target hentry
    cases rest with
    | nil => simp [hdirectory] at hentry
    | cons name rest =>
        refine h name ?_ rest target hentry
        have hthere : vol.entry (top ++ name :: rest) ≠ none := by simp [hentry]
        rw [Volume.mem_names]
        exact Volume.entry_above hthere ⟨rest, by simp⟩

end Conditions

section Traversal

variable {limit fuel : ℕ} {vol after : Volume Name Byte} {parent place : List Name} {own : Name}

/-- A turn of the loop that is clear drops its entry. -/
theorem eraseEntry_clear {erase : Volume Name Byte → List Name → Option (Volume Name Byte)}
    (hway : WayTo limit vol parent place own) {name : Name}
    (hclear : Clear limit vol (place ++ [own] ++ [name]))
    (herase : vol.entry (place ++ [own] ++ [name]) = some .directory →
      erase vol (parent ++ [own] ++ [name]) = some (vol.drop (place ++ [own] ++ [name]))) :
    eraseEntry limit erase (parent ++ [own]) vol name =
      some (vol.drop (place ++ [own] ++ [name])) := by
  cases hstat : vol.isDirectory limit (parent ++ [own] ++ [name]) with
  | false =>
      simp only [eraseEntry, hstat, Bool.false_eq_true, if_false]
      rw [Volume.unlink_child hway.follow hstat]
  | true =>
      rcases Volume.entry_of_isDirectory hway.follow hstat with hentry | ⟨target, hlink⟩
      · have hgone : (vol.drop (place ++ [own] ++ [name])).entry (place ++ [own] ++ [name]) =
            none := by rw [Volume.entry_drop, if_pos List.prefix_rfl]
        simp only [eraseEntry, hstat, if_true, herase hentry, Option.map_some]
        rw [Volume.rmdir_child_none (hway.drop_child name).follow hgone]
      · have hnot := hclear.not_directory hlink
        rw [hway.isDirectory_child, hstat] at hnot
        cases hnot

theorem eraseEntries_clear {erase : Volume Name Byte → List Name → Option (Volume Name Byte)}
    {depth : ℕ} (herase : ∀ (next : Volume Name Byte) (name : Name), next.depth = depth →
      WayTo limit next parent place own → Clear limit next (place ++ [own] ++ [name]) →
        next.entry (place ++ [own] ++ [name]) = some .directory →
          erase next (parent ++ [own] ++ [name]) = some (next.drop (place ++ [own] ++ [name])))
    (names : List Name) (next : Volume Name Byte) (hdepth : next.depth = depth)
    (hway : WayTo limit next parent place own)
    (hclear : ClearAmong limit next (place ++ [own]) names) :
    names.foldlM (eraseEntry limit erase (parent ++ [own])) next =
      some (next.dropAll (names.map fun name => place ++ [own] ++ [name])) := by
  induction names generalizing next with
  | nil => rfl
  | cons name names ih =>
      rw [List.foldlM_cons, eraseEntry_clear hway hclear.1 (herase next name hdepth hway hclear.1)]
      exact ih _ hdepth (hway.drop_child name) hclear.2

/-- A tree that is clear is removed, and the depth of the volume bounds the
recursion. -/
theorem eraseAll_clear (hfuel : vol.depth < fuel + (place ++ [own]).length)
    (hway : WayTo limit vol parent place own) (hclear : Clear limit vol (place ++ [own])) :
    eraseAll limit fuel vol (parent ++ [own]) = some (vol.drop (place ++ [own])) := by
  induction fuel generalizing vol parent place own with
  | zero =>
      have hthere : vol.entry (place ++ [own]) ≠ none := by simp [hway.directory]
      have hshallow := vol.shallow _ hthere
      omega
  | succ fuel ih =>
      have hopen : vol.opendir limit (parent ++ [own]) = some (vol.names (place ++ [own])) := by
        rw [Volume.opendir, if_pos (Volume.isDirectory_child hway.follow_parent hway.directory),
          hway.follow, Option.map_some]
      have hnames := eraseEntries_clear
        (fun (next : Volume Name Byte) name hdepth hnext hclearnext hentry => ih (by
          rw [hdepth, List.length_append]
          simp only [List.length_cons, List.length_nil] at hfuel ⊢
          omega) (hnext.child hentry) hclearnext)
        (vol.names (place ++ [own])) vol rfl hway ((clear_iff_among hway.directory).mp hclear)
      simp only [eraseAll, hopen, hnames, Option.map_some, hway.rmdir_emptied]

/-- What erasing the tree at `top` comes to: a link is left in it, or nothing
outside has changed and, with a way to it from outside, it was clear and has
been dropped. -/
def Accounted (limit : ℕ) (vol after : Volume Name Byte) (top : List Name) (way : Prop) : Prop :=
  LinkLeft after top ∨
    Framed vol after top ∧ (way → Clear limit vol top ∧ after = vol.drop top)

theorem framed_drop (top : List Name) : Framed vol (vol.drop top) top := by
  intro other hother
  rw [Volume.entry_drop, if_neg hother]

/-- In what is left of the volume, `rmdir` changes nothing outside of the place
that its path named before. -/
theorem rmdir_framed {dir top : List Name} {name : Name} (hwithin : after.Within vol)
    (hplace : ∀ there, vol.follow limit dir = some there → there = top) :
    Framed after (after.rmdir limit (dir ++ [name])) (top ++ [name]) := by
  intro other hother
  refine Volume.entry_rmdir limit fun spot hspot => ?_
  rw [Volume.locate_concat] at hspot
  obtain ⟨there, hthere, rfl⟩ := Option.map_eq_some_iff.mp hspot
  rwa [hplace there (Volume.follow_of_within hwithin hthere)]

theorem LinkLeft.rmdir {top : List Name} (h : LinkLeft vol top) (limit : ℕ) (path : List Name) :
    LinkLeft (vol.rmdir limit path) top := by
  obtain ⟨rest, target, hlink⟩ := h
  exact ⟨rest, target, Volume.link_rmdir limit path hlink⟩

/-- One turn of the loop. -/
theorem eraseEntry_accounted {name : Name}
    (herase : ∀ {next : Volume Name Byte},
      vol.follow limit (parent ++ [own]) = some (place ++ [own]) →
      vol.entry (place ++ [own] ++ [name]) = some .directory →
      eraseAll limit fuel vol (parent ++ [own] ++ [name]) = some next →
        Accounted limit vol next (place ++ [own] ++ [name])
          (WayTo limit vol (parent ++ [own]) (place ++ [own]) name))
    (hplace : ∀ there, vol.follow limit (parent ++ [own]) = some there → there = place ++ [own])
    (h : eraseEntry limit (eraseAll limit fuel) (parent ++ [own]) vol name = some after) :
    Accounted limit vol after (place ++ [own] ++ [name]) (WayTo limit vol parent place own) := by
  cases hfollow : vol.follow limit (parent ++ [own]) with
  | none =>
      obtain ⟨hstat, hunlink⟩ := Volume.lost_child hfollow name
      simp only [eraseEntry, hstat, Bool.false_eq_true, if_false, hunlink, Option.some.injEq] at h
      subst h
      refine Or.inr ⟨fun _ _ => rfl, fun hway => ?_⟩
      simp [hway.follow] at hfollow
  | some there =>
      obtain rfl := hplace there hfollow
      cases hstat : vol.isDirectory limit (parent ++ [own] ++ [name]) with
      | false =>
          simp only [eraseEntry, hstat, Bool.false_eq_true, if_false,
            Volume.unlink_child hfollow hstat, Option.some.injEq] at h
          subst h
          have hfile : vol.entry (place ++ [own] ++ [name]) ≠ some .directory := by
            intro hdirectory
            rw [Volume.isDirectory_child hfollow hdirectory] at hstat
            cases hstat
          refine Or.inr ⟨framed_drop _, fun hway => ⟨clear_of_not_directory hfile ?_, rfl⟩⟩
          rw [hway.isDirectory_child, hstat]
      | true =>
          simp only [eraseEntry, hstat, if_true] at h
          obtain ⟨erased, herased, rfl⟩ := Option.map_eq_some_iff.mp h
          rcases Volume.entry_of_isDirectory hfollow hstat with hentry | ⟨target, hlink⟩
          · rcases herase hfollow hentry herased with hleft | ⟨hframed, hclear⟩
            · exact Or.inl (hleft.rmdir limit _)
            · refine Or.inr ⟨fun other hother => ?_, fun hway => ?_⟩
              · rw [rmdir_framed (eraseAll_within herased) hplace other hother,
                  hframed other hother]
              · obtain ⟨hturn, rfl⟩ := hclear (hway.child hentry)
                refine ⟨hturn, Volume.rmdir_child_none (hway.drop_child name).follow ?_⟩
                rw [Volume.entry_drop, if_pos List.prefix_rfl]
          · have hstays := link_stays hlink hfollow herased
            refine Or.inl ⟨[], target, ?_⟩
            rw [List.append_nil]
            exact Volume.link_rmdir limit _ hstays

/-- The loop over the entries. A link that is left by one turn is left by the
others, which do not touch its subtree or leave a link of their own. -/
theorem eraseEntries_accounted {names : List Name} (hnodup : names.Nodup)
    (herase : ∀ {vol next : Volume Name Byte} {name : Name},
      vol.follow limit (parent ++ [own]) = some (place ++ [own]) →
      vol.entry (place ++ [own] ++ [name]) = some .directory →
      eraseAll limit fuel vol (parent ++ [own] ++ [name]) = some next →
        Accounted limit vol next (place ++ [own] ++ [name])
          (WayTo limit vol (parent ++ [own]) (place ++ [own]) name))
    (hplace : ∀ there, vol.follow limit (parent ++ [own]) = some there → there = place ++ [own])
    (h : names.foldlM (eraseEntry limit (eraseAll limit fuel) (parent ++ [own])) vol =
      some after) :
    (∃ name ∈ names, LinkLeft after (place ++ [own] ++ [name])) ∨
      (∀ other, (∀ name ∈ names, ¬ place ++ [own] ++ [name] <+: other) →
        after.entry other = vol.entry other) ∧ (WayTo limit vol parent place own →
          ClearAmong limit vol (place ++ [own]) names ∧
            after = vol.dropAll (names.map fun name => place ++ [own] ++ [name])) := by
  induction names generalizing vol with
  | nil =>
      cases h
      exact Or.inr ⟨fun _ _ => rfl, fun _ => ⟨trivial, rfl⟩⟩
  | cons name names ih =>
      rw [List.foldlM_cons] at h
      obtain ⟨next, hturn, hrest⟩ := Option.bind_eq_some_iff.mp h
      obtain ⟨hnotmem, hnodup⟩ := List.nodup_cons.mp hnodup
      have hwithin := eraseEntry_within hturn
      have hplace' : ∀ there, next.follow limit (parent ++ [own]) = some there →
          there = place ++ [own] :=
        fun there hthere => hplace there (Volume.follow_of_within hwithin hthere)
      rcases ih hnodup hplace' hrest with ⟨other, hother, hleft⟩ | ⟨hframed, hclear⟩
      · exact Or.inl ⟨other, List.mem_cons_of_mem _ hother, hleft⟩
      rcases eraseEntry_accounted herase hplace hturn with ⟨rest, target, hlink⟩ |
        ⟨hframedturn, hclearturn⟩
      · refine Or.inl ⟨name, List.mem_cons_self, rest, target, ?_⟩
        rw [hframed, hlink]
        intro other hother
        refine (siblings_apart (fun heq => hnotmem ?_) rest).1
        rwa [← heq]
      · refine Or.inr ⟨fun other hout => ?_, fun hway => ?_⟩
        · rw [List.forall_mem_cons] at hout
          rw [hframed other hout.2, hframedturn other hout.1]
        · obtain ⟨hclearname, rfl⟩ := hclearturn hway
          obtain ⟨hclearnames, rfl⟩ := hclear (hway.drop_child name)
          exact ⟨⟨hclearname, hclearnames⟩, rfl⟩

theorem eraseAll_accounted (hparent : vol.follow limit parent = some place)
    (hdirectory : vol.entry (place ++ [own]) = some .directory)
    (h : eraseAll limit fuel vol (parent ++ [own]) = some after) :
    Accounted limit vol after (place ++ [own]) (WayTo limit vol parent place own) := by
  induction fuel generalizing vol after parent place own with
  | zero => cases h
  | succ fuel ih =>
      have hfollow := Volume.follow_child_directory hparent hdirectory
      have hopen : vol.opendir limit (parent ++ [own]) = some (vol.names (place ++ [own])) := by
        rw [Volume.opendir, if_pos (Volume.isDirectory_child hparent hdirectory), hfollow,
          Option.map_some]
      simp only [eraseAll, hopen] at h
      obtain ⟨last, hlast, rfl⟩ := Option.map_eq_some_iff.mp h
      have hwithin : last.Within vol :=
        foldlM_invariant (I := fun next => next.Within vol)
          (fun _ _ _ hnext hturn => (eraseEntry_within hturn).trans hnext)
          (Volume.Within.refl vol) hlast
      rcases eraseEntries_accounted (vol.nodup_names _)
        (fun hdir hentry herase => ih hdir hentry herase)
        (fun there hthere => Option.some.inj (hthere.symm.trans hfollow)) hlast with
        ⟨name, -, rest, target, hlink⟩ | ⟨hframed, hclear⟩
      · refine Or.inl ⟨name :: rest, target, Volume.link_rmdir limit _ ?_⟩
        rwa [List.append_assoc (place ++ [own])] at hlink
      · refine Or.inr ⟨fun other hother => ?_, fun hway => ?_⟩
        · rw [rmdir_framed hwithin (fun there hthere => Option.some.inj (hthere.symm.trans hparent))
            other hother, hframed other]
          exact fun name _ hbelow => hother ((List.prefix_append _ _).trans hbelow)
        · obtain ⟨hclearnames, rfl⟩ := hclear hway
          exact ⟨(clear_iff_among hdirectory).mpr hclearnames, hway.rmdir_emptied⟩

end Traversal

/-- Destroying the `TempDir` of a path that leads to its directory from
outside removes the tree, and nothing else, exactly when no link in it leads
to a directory when its turn comes. -/
theorem removes_exactly_iff (limit : ℕ) (vol : Volume Name Byte) (parent place : List Name)
    (own : Name) (hway : WayTo limit vol parent place own) :
    RemovesExactly limit vol (parent ++ [own]) (place ++ [own]) ↔
      Clear limit vol (place ++ [own]) := by
  constructor
  · rintro ⟨fuel, after, herase, -, hgone⟩
    rcases eraseAll_accounted hway.follow_parent hway.directory herase with
      ⟨rest, target, hlink⟩ | ⟨-, hclear⟩
    · rw [hgone, if_pos (List.prefix_append _ _)] at hlink
      cases hlink
    · exact (hclear hway).1
  · intro hclear
    refine ⟨vol.depth + 1, vol.drop (place ++ [own]), eraseAll_clear (by omega) hway hclear, rfl,
      fun other => rfl⟩

section Linked

/-- The temporary directory `[0]` has one entry, a link; the directory `[1]`
beside it has one file. -/
def linked (target : List ℕ) : Volume ℕ UInt8 where
  entry path :=
    if path = [0, 0] then some (.link target)
    else if path = [1, 0] then some (.file 0)
    else if path ∈ [[], [0], [1]] then some .directory
    else none
  content _ := []
  inodes := 1
  names path := if path = [] then [0, 1] else if path ∈ [[0], [1]] then [0] else []
  depth := 2
  nested path name h := by
    rcases path with - | ⟨first, - | ⟨second, path⟩⟩
    · rfl
    · have hfirst : first = 0 ∨ first = 1 := by
        by_contra hout
        rw [not_or] at hout
        simp [hout] at h
      rcases hfirst with rfl | rfl <;> rfl
    · simp at h
  known path inode h := by split_ifs at h <;> simp_all
  mem_names path name := by
    rcases path with - | ⟨first, - | ⟨second, path⟩⟩
    · simp
      grind
    · simp
      grind
    · simp
  nodup_names path := by split_ifs <;> decide
  shallow path h := by rcases path with - | ⟨_, - | ⟨_, - | ⟨_, path⟩⟩⟩ <;> simp at h ⊢

theorem linked_wayTo (target : List ℕ) : WayTo 8 (linked target) [] [] 0 := ⟨rfl, rfl⟩

/-- The link is the only one. -/
theorem linked_link {target other rest : List ℕ}
    (h : (linked target).entry ([0] ++ rest) = some (.link other)) : rest = [0] := by
  by_contra hrest
  simp only [linked, List.singleton_append, List.cons.injEq, true_and, hrest, if_false] at h
  split_ifs at h <;> simp_all

/-- A link to a file is removed with the directory. -/
theorem removes_exactly_linked_file : RemovesExactly 8 (linked [1, 0]) [0] [0] := by
  apply (removes_exactly_iff 8 (linked [1, 0]) [] [] 0 (linked_wayTo [1, 0])).mpr
  intro rest target hentry
  obtain rfl := linked_link hentry
  decide +kernel

/-- A link to a directory stays, and the file behind it is gone. -/
theorem linked_directory_emptied :
    WayTo 8 (linked [1]) [] [] 0 ∧ ¬ RemovesExactly 8 (linked [1]) [0] [0] ∧
      ∃ after, eraseAll 8 3 (linked [1]) [0] = some after ∧
        after.entry [0, 0] = some (.link [1]) ∧ after.entry [1, 0] = none := by
  have hrun : ((eraseAll 8 3 (linked [1]) [0]).any fun after =>
      decide (after.entry [0, 0] = some (.link [1]) ∧ after.entry [1, 0] = none)) = true := by
    decide +kernel
  obtain ⟨after, hafter, hentries⟩ := (Option.any_eq_true _ _).mp hrun
  refine ⟨linked_wayTo [1], ?_, after, hafter, of_decide_eq_true hentries⟩
  rintro ⟨fuel, other, hother, -, hgone⟩
  have hway := linked_wayTo [1]
  rcases eraseAll_accounted hway.follow_parent hway.directory hother with
    ⟨rest, target, hlink⟩ | ⟨-, hclear⟩
  · have hbelow : [0] <+: [] ++ [0] ++ rest := ⟨rest, rfl⟩
    rw [hgone, if_pos hbelow] at hlink
    cases hlink
  · have hstat := (hclear hway).1 [0] [1] rfl
    revert hstat
    decide +kernel

end Linked

end TempDir

end MockServices.Detail
