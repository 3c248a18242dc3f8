import MockServices.Sftp.RealPaths

/-!
# The names that REALPATH returns

REALPATH starts from the root, from what `resolve_path` answers, or from
the client's path behind the root, with repeated slashes dropped but `.`
and `..` left in. It shows what is behind the root's text there, with
backslashes read as slashes.
-/

namespace MockServices.Sftp

open Foundations Foundations.Program Foundations.SegmentPath

variable {σ : Type}

/-- The text that REALPATH starts from, for an answer of `realpath`. -/
def realpathStart (realpath : Realpath) (root path : Text) : Text :=
  if path = ['/'] ∨ path = ['.'] then root
  else if resolvePath realpath root path false = [] then
    cleanedSlashes (normalizeSeparators root ++ '/' :: path)
  else resolvePath realpath root path false

/-- The name that is shown for the path. -/
def shownPath (realpath : Realpath) (root path : Text) : Text :=
  displayPath root (realpathStart realpath root path)

/-- REALPATH of the path returns the name. -/
def Session.Names (env : Environment σ) (ctx : SftpContext) (s : Session σ) (path name : Text) :
    Prop :=
  ∃ attr, .name name attr ∈
    replies (s.serve env ctx { type := .realpath, filename := path }).events

/-- The name is a canonical path, REALPATH returns it for itself, and it
leads to the object inside the root that the client's path leads to. -/
structure CanonicalName (env : Environment σ) (ctx : SftpContext) (s : Session σ) (root : Canonical)
    (path name : Text) : Prop where
  canonical : ∃ p : Canonical, name = p.text
  fixed : ∀ again, s.Names env ctx name again → again = name
  same : ∀ found : Canonical, root.names <+: found.names →
    resolvePath (env.realpath s.world.env) ctx.root path true = found.text →
      resolvePath (env.realpath s.world.env) ctx.root name true = found.text

/-- What is behind the root's text, without the separators in front. -/
def belowRoot (root full : Text) : Text :=
  ((normalizeSeparators full).drop (normalizeSeparators root).length).dropWhile isSeparator

/-- The place the path leads to, spelled from the root on, or else the
path itself, with slashes only and none repeated. -/
def spelling (realpath : Realpath) (root path : Text) : Text :=
  match accepted realpath root path false with
  | some loc => belowRoot root loc.text
  | none => (normalizeSeparators (cleanedSlashes ('/' :: path))).dropWhile isSeparator

/-- The path leads to a place inside the root and without backslashes in
its text, or is refused and has no backslash, and its last slash, behind
the leading ones, is not a repeated one. -/
def Straight (realpath : Realpath) (root : Canonical) (path : Text) : Prop :=
  match accepted realpath root.text path false with
  | some loc => '\\' ∉ loc.text ∧ root.names <+: loc.dir.names
  | none =>
      '\\' ∉ path ∧ (dirAndBase (path.dropWhile isSeparator)).1.getLast? ≠ some '/'

/-- Nothing, or names between slashes. -/
def OfNames (text : Text) : Prop := text = [] ∨ ∀ seg ∈ text.splitOn '/', IsName '/' '.' seg

/-- The spelling of the path consists of names. If the path is not
straight, its spelling as a path moreover leads back: to where the same
names are behind the root, or to nothing, and to the object of the path if
that is inside the root. -/
structure LeadsBack (realpath : Realpath) (root : Canonical) (path : Text) : Prop where
  noBackslash : '\\' ∉ root.text
  names : OfNames (spelling realpath root.text path)
  back : ¬ Straight realpath root path →
    ∀ loc ∈ accepted realpath root.text ('/' :: spelling realpath root.text path) false,
      belowRoot root.text loc.text = spelling realpath root.text path
  same : ¬ Straight realpath root path → ∀ found, root.names <+: found.names →
    realpath (combinedPath root.text path) = some found →
      realpath (combinedPath root.text ('/' :: spelling realpath root.text path)) = some found

/-! ## Repeated slashes -/

theorem cleanedSlashes_cons (c : Char) (t : Text) :
    cleanedSlashes (c :: t) =
      if c = '/' ∧ t.head? = some '/' then cleanedSlashes t else c :: cleanedSlashes t := by
  cases t with
  | nil =>
      rw [if_neg (by simp)]
      by_cases hc : c = '/'
      · rw [hc]
        rfl
      · simp [cleanedSlashes]
  | cons d t =>
      by_cases hboth : c = '/' ∧ d = '/'
      · obtain ⟨rfl, rfl⟩ := hboth
        rw [if_pos ⟨rfl, rfl⟩, cleanedSlashes]
      · rw [if_neg (by simpa using hboth), cleanedSlashes]
        rintro rest rfl hrest
        exact hboth ⟨rfl, (List.cons.inj hrest).1⟩

theorem cleanedSlashes_doubled (s t : Text) :
    cleanedSlashes (s ++ '/' :: '/' :: t) = cleanedSlashes (s ++ '/' :: t) := by
  induction s with
  | nil => rw [List.nil_append, List.nil_append, cleanedSlashes]
  | cons c s ih =>
      have hhead : (s ++ '/' :: '/' :: t).head? = (s ++ '/' :: t).head? := by cases s <;> rfl
      rw [List.cons_append, List.cons_append, cleanedSlashes_cons, cleanedSlashes_cons, hhead, ih]

theorem cleanedSlashes_append {s t : Text} (h : s.getLast? ≠ some '/' ∨ t.head? ≠ some '/') :
    cleanedSlashes (s ++ t) = cleanedSlashes s ++ cleanedSlashes t := by
  induction s with
  | nil => simp [cleanedSlashes]
  | cons c s ih =>
      rw [List.cons_append, cleanedSlashes_cons, cleanedSlashes_cons]
      cases s with
      | nil =>
          have hnot : ¬ (c = '/' ∧ t.head? = some '/') := by
            rintro ⟨rfl, ht⟩
            exact h.elim (fun hs => hs rfl) fun ht' => ht' ht
          rw [List.nil_append, if_neg hnot, if_neg (by simp)]
          simp [cleanedSlashes]
      | cons d s =>
          have hrest : (d :: s).getLast? ≠ some '/' ∨ t.head? ≠ some '/' := by
            simpa [List.getLast?_cons_cons] using h
          rw [ih hrest, List.cons_append, List.head?_cons, List.head?_cons]
          split <;> rfl

theorem cleanedSlashes_of_notMem {t : Text} (h : '/' ∉ t) : cleanedSlashes t = t := by
  induction t with
  | nil => rfl
  | cons c t ih =>
      have hc : c ≠ '/' := fun hc => h (hc ▸ List.mem_cons_self)
      rw [cleanedSlashes_cons, if_neg fun hboth => hc hboth.1,
        ih fun ht => h (List.mem_cons_of_mem _ ht)]

theorem mem_of_mem_cleanedSlashes {c : Char} {t : Text} (h : c ∈ cleanedSlashes t) : c ∈ t := by
  induction t with
  | nil => exact h
  | cons d t ih =>
      rw [cleanedSlashes_cons] at h
      split at h
      · exact List.mem_cons_of_mem _ (ih h)
      · exact (List.mem_cons.mp h).elim (fun hc => hc ▸ List.mem_cons_self)
          fun hc => List.mem_cons_of_mem _ (ih hc)

theorem head?_cleanedSlashes {t : Text} (h : t.head? ≠ some '/') :
    (cleanedSlashes t).head? = t.head? := by
  cases t with
  | nil => rfl
  | cons c t => rw [cleanedSlashes_cons, if_neg fun hboth => h (congrArg some hboth.1)]; rfl

/-- Neither does `realpath` mind the slashes that are dropped. -/
theorem realpath_cleanedSlashes {realpath : Realpath} (hreal : Canonicalises realpath)
    (s t : Text) : realpath (s ++ cleanedSlashes t) = realpath (s ++ t) := by
  induction t generalizing s with
  | nil => rfl
  | cons c t ih =>
      rw [cleanedSlashes_cons]
      split
      · next hboth =>
          obtain ⟨rfl, hhead⟩ := hboth
          obtain ⟨rest, rfl⟩ : ∃ rest, t = '/' :: rest := by
            cases t with
            | nil => cases hhead
            | cons d rest => exact ⟨rest, by rw [Option.some.inj hhead]⟩
          rw [ih, hreal.doubled]
      · have hmoved := ih (s ++ [c])
        rwa [List.append_assoc, List.append_assoc] at hmoved

theorem getLast?_name_ne {name : Text} (h : '/' ∉ name) : name.getLast? ≠ some '/' :=
  fun hlast => h (List.mem_of_getLast? hlast)

theorem head?_name_ne {name : Text} (h : '/' ∉ name) : name.head? ≠ some '/' :=
  fun hhead => h (List.mem_of_head? hhead)

theorem cleanedSlashes_absolute {names : List Text} (h : ∀ n ∈ names, IsName '/' '.' n) :
    cleanedSlashes (absolute '/' names) = absolute '/' names := by
  induction names with
  | nil => rfl
  | cons n names ih =>
      have hn := h n List.mem_cons_self
      have hrest := ih fun m hm => h m (List.mem_cons_of_mem _ hm)
      have hfirst : cleanedSlashes ('/' :: n) = '/' :: n := by
        rw [cleanedSlashes_cons, if_neg fun hboth => head?_name_ne hn.sep_notMem hboth.2,
          cleanedSlashes_of_notMem hn.sep_notMem]
      have hlast : ('/' :: n).getLast? ≠ some '/' := by
        rw [List.getLast?_cons_of_ne_nil hn.ne_nil]
        exact getLast?_name_ne hn.sep_notMem
      rw [absolute_cons, cleanedSlashes_append (Or.inl hlast), hfirst]
      split
      · rfl
      · rw [hrest]

theorem exists_cleanedSlashes (t : Text) : ∃ rest, cleanedSlashes ('/' :: t) = '/' :: rest := by
  induction t with
  | nil => exact ⟨[], rfl⟩
  | cons c t ih =>
      rw [cleanedSlashes_cons]
      split
      · next h =>
          obtain rfl : c = '/' := Option.some.inj h.2
          exact ih
      · exact ⟨_, rfl⟩

theorem getLast?_absolute_ne {names : List Text} (h : ∀ n ∈ names, IsName '/' '.' n)
    (hne : names ≠ []) : (absolute '/' names).getLast? ≠ some '/' := by
  obtain ⟨init, n, rfl⟩ := List.eq_nil_or_concat names |>.resolve_left hne
  rw [List.concat_eq_append] at h ⊢
  have hn := h n (List.mem_append_right _ List.mem_cons_self)
  rw [absolute_eq_flatMap '/' (by simp), List.flatMap_append, List.flatMap_singleton,
    List.getLast?_append_of_ne_nil _ (List.cons_ne_nil _ _), List.getLast?_cons_of_ne_nil hn.ne_nil]
  exact getLast?_name_ne hn.sep_notMem

/-! ## Texts below the root -/

theorem displayPath_eq {root full : Text}
    (h : hasCaseInsensitivePrefix (normalizeSeparators full) (normalizeSeparators root) = true) :
    displayPath root full = '/' :: belowRoot root full := by
  unfold displayPath
  rw [if_pos h]
  rfl

theorem dropWhile_isSeparator_of_head? {t : Text} (h : ∀ c ∈ t.head?, isSeparator c = false) :
    t.dropWhile isSeparator = t := by
  cases t with
  | nil => rfl
  | cons c t => exact List.dropWhile_cons_of_neg (by rw [h c rfl]; decide)

theorem isSeparator_head?_dropWhile (t : Text) :
    ∀ c ∈ (t.dropWhile isSeparator).head?, isSeparator c = false := by
  intro c hc
  have hhead := List.head?_dropWhile_not isSeparator t
  rw [Option.mem_def.mp hc] at hhead
  simpa using hhead

theorem isSeparator_eq_false_iff {c : Char} : isSeparator c = false ↔ c ≠ '/' ∧ c ≠ '\\' := by
  simp [isSeparator]

/-- The root itself is shown as `/`. -/
theorem belowRoot_self (root : Text) : belowRoot root root = [] := by
  rw [belowRoot, List.drop_length]
  rfl

theorem ofNames_iff {t : Text} : OfNames t ↔ ∃ p : Canonical, '/' :: t = p.text := by
  constructor
  · rintro (rfl | hnames)
    · exact ⟨⟨[], by simp⟩, rfl⟩
    · refine ⟨⟨t.splitOn '/', hnames⟩, ?_⟩
      rw [NormalPath.text, absolute, List.intercalate_splitOn]
  · rintro ⟨p, hp⟩
    have ht : t = ['/'].intercalate p.names := (List.cons.inj hp).2
    by_cases hnames : p.names = []
    · exact Or.inl (by rw [ht, hnames]; rfl)
    · refine Or.inr fun seg hseg => p.isName seg ?_
      rwa [ht, List.splitOn_intercalate '/' (fun n hn => (p.isName n hn).sep_notMem) hnames] at hseg

theorem OfNames.cleanedSlashes {t : Text} (h : OfNames t) :
    Sftp.cleanedSlashes ('/' :: t) = '/' :: t := by
  obtain ⟨p, hp⟩ := ofNames_iff.mp h
  rw [hp]
  exact cleanedSlashes_absolute p.isName

theorem notMem_normalizeSeparators (t : Text) : '\\' ∉ normalizeSeparators t := by
  intro hmem
  obtain ⟨c, -, hc⟩ := List.mem_map.mp hmem
  by_cases h : c = '\\'
  · rw [if_pos h] at hc
    exact absurd hc (by decide)
  · rw [if_neg h] at hc
    exact h hc

theorem normalizeSeparators_append (s t : Text) :
    normalizeSeparators (s ++ t) = normalizeSeparators s ++ normalizeSeparators t :=
  List.map_append

/-- Leading slashes do not matter behind a slash. -/
theorem cleanedSlashes_leading (s : Text) {t : Text} (h : '\\' ∉ t) :
    cleanedSlashes (s ++ '/' :: t) = cleanedSlashes (s ++ '/' :: t.dropWhile isSeparator) := by
  induction t with
  | nil => rfl
  | cons c t ih =>
      have hrest : '\\' ∉ t := fun hmem => h (List.mem_cons_of_mem _ hmem)
      by_cases hc : c = '/'
      · rw [hc, cleanedSlashes_doubled, ih hrest]
        rfl
      · have hsep : isSeparator c = false :=
          isSeparator_eq_false_iff.mpr ⟨hc, fun heq => h (heq ▸ List.mem_cons_self)⟩
        rw [List.dropWhile_cons_of_neg (by rw [hsep]; decide)]

/-- The fallback, behind a root without backslashes. -/
theorem belowRoot_fallback {root : Canonical} (hroot : '\\' ∉ root.text) (path : Text) :
    hasCaseInsensitivePrefix
        (normalizeSeparators (cleanedSlashes (normalizeSeparators root.text ++ '/' :: path)))
        (normalizeSeparators root.text) = true ∧
      belowRoot root.text (cleanedSlashes (normalizeSeparators root.text ++ '/' :: path)) =
        (normalizeSeparators (cleanedSlashes ('/' :: path))).dropWhile isSeparator := by
  rw [belowRoot, normalizeSeparators_of_notMem hroot, hasCaseInsensitivePrefix_iff]
  by_cases hnames : root.names = []
  · have htext : root.text = ['/'] := by
      rw [NormalPath.text, hnames]
      rfl
    have hclean : cleanedSlashes (['/'] ++ '/' :: path) = cleanedSlashes ('/' :: path) :=
      cleanedSlashes_doubled [] path
    obtain ⟨rest, hrest⟩ := exists_cleanedSlashes path
    rw [htext, hclean, hrest]
    exact ⟨⟨normalizeSeparators rest, rfl⟩, rfl⟩
  · have hlast : root.text.getLast? ≠ some '/' := getLast?_absolute_ne root.isName hnames
    have hclean : cleanedSlashes root.text = root.text := cleanedSlashes_absolute root.isName
    rw [cleanedSlashes_append (Or.inl hlast), hclean, normalizeSeparators_append,
      normalizeSeparators_of_notMem hroot, List.drop_left]
    exact ⟨List.prefix_append _ _, rfl⟩

/-- The names below the root of a place inside it. -/
def Location.below (root : Canonical) (loc : Location) : List Text :=
  loc.dir.names.drop root.names.length ++ loc.base.toList

theorem Location.text_eq (loc : Location) :
    loc.text = loc.dir.text ++ loc.base.toList.flatMap ('/' :: ·) := by
  obtain ⟨dir, base, hbase⟩ := loc
  cases base with
  | none => exact (List.append_nil _).symm
  | some base => simp [Location.text]

theorem head?_intercalate_cons {s : Text} (h : s ≠ []) (segs : List Text) :
    (['/'].intercalate (s :: segs)).head? = s.head? := by
  cases segs with
  | nil => simp
  | cons t segs =>
      rw [List.intercalate_cons_cons, List.append_assoc, List.head?_append_of_ne_nil _ h]

/-- Without backslashes in the text, the names below the root begin with
no separator. -/
theorem Location.isSeparator_head?_below {loc : Location} (hloc : '\\' ∉ loc.text)
    (root : Canonical) :
    ∀ c ∈ (['/'].intercalate (loc.below root)).head?, isSeparator c = false := by
  intro c hc
  have hplain : ∀ {s : Text}, s ∈ loc.below root → '/' ∉ s → s.head? = some c →
      isSeparator c = false := by
    intro s hs hslash hhead
    have hmem : c ∈ s := List.mem_of_head? hhead
    refine isSeparator_eq_false_iff.mpr ⟨fun h => hslash (h ▸ hmem), fun h => hloc ?_⟩
    rw [loc.text_eq, ← h]
    rcases List.mem_append.mp hs with hs | hs
    · apply List.mem_append_left
      exact List.mem_cons_of_mem _ (mem_intercalate_of_mem '/' (List.mem_of_mem_drop hs) hmem)
    · apply List.mem_append_right
      exact List.mem_flatMap.mpr ⟨s, hs, List.mem_cons_of_mem _ hmem⟩
  unfold Location.below at hc hplain
  cases hrest : loc.dir.names.drop root.names.length with
  | nil =>
      rw [hrest] at hc hplain
      cases hbase : loc.base with
      | none => simp [hbase] at hc
      | some base =>
          rw [hbase] at hc hplain
          exact hplain List.mem_cons_self (loc.sep_notMem base hbase) (by simpa using hc)
  | cons s rest =>
      rw [hrest] at hc hplain
      have hs := loc.dir.isName s (List.mem_of_mem_drop (hrest ▸ List.mem_cons_self))
      rw [List.cons_append, head?_intercalate_cons hs.ne_nil] at hc
      exact hplain (List.mem_append_left _ List.mem_cons_self) hs.sep_notMem hc

theorem belowRoot_location {root : Canonical} {loc : Location} (hroot : '\\' ∉ root.text)
    (hloc : '\\' ∉ loc.text) (hinside : root.names <+: loc.dir.names) :
    belowRoot root.text loc.text = ['/'].intercalate (loc.below root) := by
  have hhead := dropWhile_isSeparator_of_head? (loc.isSeparator_head?_below hloc root)
  rw [belowRoot, normalizeSeparators_of_notMem hroot, normalizeSeparators_of_notMem hloc, ← hhead,
    loc.text_eq]
  unfold Location.below
  obtain ⟨rest, hrest⟩ := hinside
  rw [← hrest, List.drop_left, NormalPath.text, NormalPath.text, ← hrest]
  by_cases hnames : root.names = []
  · rw [hnames, List.nil_append]
    by_cases hnil : rest = []
    · rw [hnil]
      cases loc.base with
      | none => rfl
      | some base => simp [absolute, isSeparator]
    · rw [← absolute_append '/' hnil]
      rfl
  · rw [absolute_append '/' hnames, List.append_assoc, ← List.flatMap_append, List.drop_left]
    by_cases hnil : rest ++ loc.base.toList = []
    · rw [hnil]
      rfl
    · rw [← absolute_eq_flatMap '/' hnil]
      rfl

/-! ## The name of a path -/

section Plain

variable {realpath : Realpath} {root : Canonical} {path : Text}

theorem shownPath_slash (realpath : Realpath) (root : Text) :
    shownPath realpath root ['/'] = ['/'] := by
  have hstart : realpathStart realpath root ['/'] = root := if_pos (Or.inl rfl)
  rw [shownPath, hstart, displayPath_eq ((hasCaseInsensitivePrefix_iff _ _).mpr List.prefix_rfl),
    belowRoot_self]

theorem shownPath_dot (realpath : Realpath) (root : Text) :
    shownPath realpath root ['.'] = ['/'] := by
  have hstart : realpathStart realpath root ['.'] = root := if_pos (Or.inr rfl)
  rw [shownPath, hstart, displayPath_eq ((hasCaseInsensitivePrefix_iff _ _).mpr List.prefix_rfl),
    belowRoot_self]

theorem shownPath_eq (hroot : '\\' ∉ root.text) (hslash : path ≠ ['/']) (hdot : path ≠ ['.']) :
    shownPath realpath root.text path = '/' :: spelling realpath root.text path := by
  have hne : root.text ≠ [] := absolute_ne_nil _ _
  rw [shownPath, realpathStart, if_neg (not_or.mpr ⟨hslash, hdot⟩),
    resolvePath_eq_accepted hne, spelling]
  cases haccepted : accepted realpath root.text path false with
  | none =>
      obtain ⟨hbegins, hbelow⟩ := belowRoot_fallback hroot path
      rw [← hbelow]
      exact displayPath_eq hbegins
  | some loc =>
      have hprefix := (Option.filter_eq_some_iff.mp haccepted).2
      rw [Option.map_some, Option.getD_some, if_neg loc.text_ne_nil]
      exact displayPath_eq hprefix

theorem head?_dropWhile_ne (path : Text) : (path.dropWhile isSeparator).head? ≠ some '/' :=
  fun h => absurd (isSeparator_head?_dropWhile path '/' h) (by decide)

theorem dropWhile_cleanedSlashes (path : Text) :
    (cleanedSlashes (path.dropWhile isSeparator)).dropWhile isSeparator =
      cleanedSlashes (path.dropWhile isSeparator) := by
  refine dropWhile_isSeparator_of_head? ?_
  rw [head?_cleanedSlashes (head?_dropWhile_ne path)]
  exact isSeparator_head?_dropWhile path

/-- Behind the root a refused path is spelled without repeated slashes. -/
theorem spelling_of_refused (h : accepted realpath root.text path false = none)
    (hpath : '\\' ∉ path) :
    spelling realpath root.text path = cleanedSlashes (path.dropWhile isSeparator) := by
  have hplain : '\\' ∉ '/' :: cleanedSlashes (path.dropWhile isSeparator) := by
    intro hmem
    have hclean := (List.mem_cons.mp hmem).resolve_left (by decide)
    exact hpath (List.dropWhile_subset _ (mem_of_mem_cleanedSlashes hclean))
  have hleading : cleanedSlashes ('/' :: path) =
      '/' :: cleanedSlashes (path.dropWhile isSeparator) := by
    rw [← List.nil_append ('/' :: path), cleanedSlashes_leading [] hpath, List.nil_append,
      cleanedSlashes_cons, if_neg fun hboth => head?_dropWhile_ne path hboth.2]
  rw [spelling, h]
  dsimp only
  rw [hleading, normalizeSeparators_of_notMem hplain]
  exact dropWhile_cleanedSlashes path

/-- The spelling of a path without repeated slashes leads where the path
leads, if no slash is dropped that cuts off its last name. -/
theorem cleaned_again (hreal : Canonicalises realpath) (root path : Text)
    (hlast : (dirAndBase (path.dropWhile isSeparator)).1.getLast? ≠ some '/') :
    realpath (combinedPath root ('/' :: cleanedSlashes (path.dropWhile isSeparator))) =
        realpath (combinedPath root path) ∧
      accepted realpath root ('/' :: cleanedSlashes (path.dropWhile isSeparator)) false =
        accepted realpath root path false := by
  obtain ⟨head, hhead⟩ : ∃ head, ∀ t, combinedPath root t = head ++ t.dropWhile isSeparator :=
    ⟨_, fun t => rfl⟩
  have hspelled : combinedPath root ('/' :: cleanedSlashes (path.dropWhile isSeparator)) =
      head ++ cleanedSlashes (path.dropWhile isSeparator) := by
    rw [hhead]
    exact congrArg (head ++ ·) (dropWhile_cleanedSlashes path)
  have hfound : realpath (combinedPath root ('/' :: cleanedSlashes (path.dropWhile isSeparator))) =
      realpath (combinedPath root path) := by
    rw [hspelled, hhead, realpath_cleanedSlashes hreal]
  refine ⟨hfound, ?_⟩
  by_cases hslash : '/' ∈ path.dropWhile isSeparator
  · have hcut := dirAndBase_append hslash
    have hbase := dirAndBase_sep_notMem (path.dropWhile isSeparator)
    have hclean : cleanedSlashes (path.dropWhile isSeparator) =
        cleanedSlashes (dirAndBase (path.dropWhile isSeparator)).1 ++
          '/' :: (dirAndBase (path.dropWhile isSeparator)).2 := by
      conv_lhs => rw [← hcut, cleanedSlashes_append (Or.inl hlast), cleanedSlashes_cons,
        if_neg fun hboth => head?_name_ne hbase hboth.2, cleanedSlashes_of_notMem hbase]
    have hcombined : dirAndBase (combinedPath root path) =
        (head ++ (dirAndBase (path.dropWhile isSeparator)).1,
          (dirAndBase (path.dropWhile isSeparator)).2) := by
      rw [← dirAndBase_split _ hbase, List.append_assoc, hcut, hhead]
    have hcombined' : dirAndBase
        (combinedPath root ('/' :: cleanedSlashes (path.dropWhile isSeparator))) =
          (head ++ cleanedSlashes (dirAndBase (path.dropWhile isSeparator)).1,
            (dirAndBase (path.dropWhile isSeparator)).2) := by
      rw [← dirAndBase_split _ hbase, List.append_assoc, ← hclean, hspelled]
    refine accepted_congr hfound ?_ ?_ false
    · rw [hcombined, hcombined']
      exact realpath_cleanedSlashes hreal head _
    · rw [hcombined, hcombined']
  · have hsame : combinedPath root ('/' :: cleanedSlashes (path.dropWhile isSeparator)) =
        combinedPath root path := by
      rw [hspelled, hhead, cleanedSlashes_of_notMem hslash]
    exact accepted_congr hfound (by rw [hsame]) (by rw [hsame]) false

theorem combinedPath_slash_of_names (hroot : '\\' ∉ root.text) (h : root.names ≠ []) (t : Text) :
    combinedPath root.text t = root.text ++ '/' :: t.dropWhile isSeparator := by
  have hlast : root.text.getLast? ≠ some '/' := getLast?_absolute_ne root.isName h
  have hne : root.text ≠ [] := absolute_ne_nil _ _
  unfold combinedPath
  rw [normalizeSeparators_of_notMem hroot]
  dsimp only
  rw [if_pos ⟨hne, hlast⟩, List.append_assoc]
  rfl

theorem combinedPath_slash_of_nil (h : root.names = []) (t : Text) :
    combinedPath root.text t = '/' :: t.dropWhile isSeparator := by
  have htext : root.text = ['/'] := by
    rw [NormalPath.text, h]
    rfl
  rw [htext]
  rfl

theorem combinedPath_absolute (hroot : '\\' ∉ root.text) {segs : List Text}
    (hnames : ∀ n ∈ segs, IsName '/' '.' n) (hne : segs ≠ [])
    (hplain : '\\' ∉ ['/'].intercalate segs) :
    combinedPath root.text (absolute '/' segs) = absolute '/' (root.names ++ segs) := by
  have hdrop : (absolute '/' segs).dropWhile isSeparator = ['/'].intercalate segs := by
    refine dropWhile_isSeparator_of_head? (t := ['/'].intercalate segs) ?_
    intro c hc
    refine isSeparator_eq_false_iff.mpr ⟨?_, fun h => hplain (h ▸ List.mem_of_head? hc)⟩
    rintro rfl
    obtain ⟨s, rest, rfl⟩ := List.exists_cons_of_ne_nil hne
    have hs := hnames s List.mem_cons_self
    rw [head?_intercalate_cons hs.ne_nil] at hc
    exact hs.sep_notMem (List.mem_of_head? hc)
  by_cases h : root.names = []
  · rw [combinedPath_slash_of_nil h, hdrop, h]
    rfl
  · rw [combinedPath_slash_of_names hroot h, hdrop, absolute_append '/' h, NormalPath.text,
      ← absolute_eq_flatMap '/' hne]
    rfl

theorem realpath_root (hdir : IsDirectory realpath root) (hroot : '\\' ∉ root.text) :
    realpath (combinedPath root.text ['/']) = some root := by
  by_cases h : root.names = []
  · have htext : combinedPath root.text ['/'] = root.text := by
      rw [combinedPath_slash_of_nil h, NormalPath.text, h]
      rfl
    rw [htext, hdir.text]
  · rw [combinedPath_slash_of_names hroot h]
    exact hdir.slash

theorem notMem_spelling (realpath : Realpath) (root path : Text) :
    '\\' ∉ spelling realpath root path := by
  unfold spelling
  split
  · exact fun h => notMem_normalizeSeparators _ (List.mem_of_mem_drop (List.dropWhile_subset _ h))
  · exact fun h => notMem_normalizeSeparators _ (List.dropWhile_subset _ h)

/-- The spelling of the root leads to the root. -/
theorem leadsTo_slash (hdir : IsDirectory realpath root) (hroot : '\\' ∉ root.text)
    {loc : Location} (h : leadsTo realpath root.text ['/'] false = some loc) :
    belowRoot root.text loc.text = [] := by
  rw [leadsTo_of_found false (realpath_root hdir hroot)] at h
  obtain rfl := Option.some.inj h
  exact belowRoot_self root.text

theorem combinedPath_below (hroot : '\\' ∉ root.text) {loc : Location}
    (hinside : root.names <+: loc.dir.names) (hne : loc.below root ≠ [])
    (hnames : ∀ n ∈ loc.below root, IsName '/' '.' n)
    (hplain : '\\' ∉ ['/'].intercalate (loc.below root)) :
    combinedPath root.text (absolute '/' (loc.below root)) =
      absolute '/' (loc.dir.names ++ loc.base.toList) := by
  obtain ⟨rest, hrest⟩ := hinside
  rw [combinedPath_absolute hroot hnames hne hplain, Location.below, ← hrest, List.drop_left,
    List.append_assoc]

/-- What has been found is found again under its canonical path. -/
theorem found_again (hreal : Canonicalises realpath) {loc : Location} {again : Text}
    (hfound : realpath (combinedPath root.text path) = some loc.dir) (hbase : loc.base = none)
    (hagain : combinedPath root.text again = absolute '/' (loc.dir.names ++ loc.base.toList)) :
    realpath (combinedPath root.text again) = some loc.dir := by
  rw [hagain, hbase, Option.toList_none, List.append_nil]
  exact hreal.fixed _ _ hfound

/-- Where nothing is, it is looked for again behind the canonical path of the
directory. -/
theorem missing_again (hreal : Canonicalises realpath) (hroot : '\\' ∉ root.text)
    {loc again : Location} {shown : Text}
    (hnone : realpath (combinedPath root.text path) = none)
    (hdir : realpath (dirAndBase (combinedPath root.text path)).1 = some loc.dir)
    (hbase : loc.base = some (dirAndBase (combinedPath root.text path)).2)
    (hshown : combinedPath root.text shown = absolute '/' (loc.dir.names ++ loc.base.toList))
    (h : leadsTo realpath root.text shown false = some again) : again.text = loc.text := by
  obtain ⟨base, hbase'⟩ : ∃ base, base = (dirAndBase (combinedPath root.text path)).2 := ⟨_, rfl⟩
  rw [← hbase'] at hbase
  have hslash : '/' ∉ base := loc.sep_notMem base hbase
  have hcut : (dirAndBase (combinedPath root.text path)).1 ++ '/' :: base =
      combinedPath root.text path := by
    rw [hbase']
    refine dirAndBase_append ?_
    by_cases h : root.names = []
    · rw [combinedPath_slash_of_nil h]
      exact List.mem_cons_self
    · rw [combinedPath_slash_of_names hroot h]
      exact List.mem_append_right _ List.mem_cons_self
  have hmissing : realpath (loc.dir.text ++ '/' :: base) = none := by
    rw [← hreal.through _ _ base hdir, hcut, hnone]
  rw [hbase, Option.toList_some] at hshown
  by_cases hempty : loc.dir.names = []
  · have hshort : combinedPath root.text shown = [] ++ '/' :: base := by
      rw [hshown, hempty]
      simp [absolute]
    have htext : loc.dir.text = ['/'] := by
      rw [NormalPath.text, hempty]
      rfl
    have hshort' : realpath ([] ++ '/' :: base) = none := by
      rw [← hreal.doubled]
      rwa [htext] at hmissing
    rcases leadsTo_cases h with ⟨hfound, -⟩ | ⟨-, hdir', -⟩
    · rw [hshort, hshort'] at hfound
      cases hfound
    · rw [hshort, dirAndBase_split [] hslash, hreal.empty] at hdir'
      cases hdir'
  · have hlong : combinedPath root.text shown = loc.dir.text ++ '/' :: base := by
      rw [hshown, absolute_append '/' hempty, List.flatMap_singleton]
      rfl
    rcases leadsTo_cases h with ⟨hfound, -⟩ | ⟨-, hdir', hbase''⟩
    · rw [hlong, hmissing] at hfound
      cases hfound
    · rw [hlong, dirAndBase_split _ hslash] at hdir' hbase''
      rw [hreal.fixed _ _ hdir] at hdir'
      rw [again.text_eq, loc.text_eq, hbase, hbase'', Option.some.inj hdir']

/-- A place inside the root is found again under the names below it. -/
theorem leadsTo_again (hreal : Canonicalises realpath) (hroot : '\\' ∉ root.text) {loc : Location}
    (hinside : root.names <+: loc.dir.names)
    (hleads : leadsTo realpath root.text path false = some loc) (hne : loc.below root ≠ [])
    (hnames : ∀ n ∈ loc.below root, IsName '/' '.' n)
    (hplain : '\\' ∉ ['/'].intercalate (loc.below root)) :
    (∀ again, leadsTo realpath root.text (absolute '/' (loc.below root)) false = some again →
        belowRoot root.text again.text = belowRoot root.text loc.text) ∧
      ∀ found, realpath (combinedPath root.text path) = some found →
        realpath (combinedPath root.text (absolute '/' (loc.below root))) = some found := by
  have hcombined := combinedPath_below hroot hinside hne hnames hplain
  rcases leadsTo_cases hleads with ⟨hfound, hbase⟩ | ⟨hnone, hdir, hbase⟩
  · have hagain := found_again hreal hfound hbase hcombined
    constructor
    · intro again h
      rw [leadsTo_of_found false hagain] at h
      obtain rfl := Option.some.inj h
      rw [loc.text_eq, hbase]
      simp [Location.text]
    · intro found h
      rw [hagain, ← hfound, h]
  · constructor
    · intro again h
      rw [missing_again hreal hroot hnone hdir hbase hcombined h]
    · intro found h
      rw [hnone] at h
      cases h

theorem Location.isName_below {loc : Location}
    (hnames : OfNames (['/'].intercalate (loc.below root)))
    (hne : ['/'].intercalate (loc.below root) ≠ []) :
    ∀ n ∈ loc.below root, IsName '/' '.' n := by
  have hsep : ∀ s ∈ loc.below root, '/' ∉ s := by
    intro s hs
    rcases List.mem_append.mp hs with hs | hs
    · exact (loc.dir.isName s (List.mem_of_mem_drop hs)).sep_notMem
    · exact loc.sep_notMem s (Option.mem_toList.mp hs)
  have hsegs := hnames.resolve_left hne
  rwa [List.splitOn_intercalate '/' hsep fun hnil => hne (by rw [hnil]; rfl)] at hsegs

/-- Nothing below the root is spelled by the empty text. -/
theorem names_of_spelled_nil {found : Canonical} (hinside : root.names <+: found.names)
    (hempty : ['/'].intercalate (found.names.drop root.names.length) = []) :
    found.names = root.names := by
  obtain ⟨rest, hrest⟩ := hinside
  rw [← hrest, List.drop_left] at hempty
  cases rest with
  | nil => rw [← hrest, List.append_nil]
  | cons s rest =>
      have hs := found.isName s (hrest ▸ List.mem_append_right _ List.mem_cons_self)
      have hhead := head?_intercalate_cons hs.ne_nil rest
      rw [hempty] at hhead
      exact absurd (List.head?_eq_none_iff.mp hhead.symm) hs.ne_nil

/-- The spelling of a straight path leads back. -/
theorem Straight.back (h : Straight realpath root path) (hreal : Canonicalises realpath)
    (hdir : IsDirectory realpath root) (hroot : '\\' ∉ root.text)
    (hnames : OfNames (spelling realpath root.text path)) :
    (∀ loc ∈ accepted realpath root.text ('/' :: spelling realpath root.text path) false,
        belowRoot root.text loc.text = spelling realpath root.text path) ∧
      ∀ found, root.names <+: found.names → realpath (combinedPath root.text path) = some found →
        realpath (combinedPath root.text ('/' :: spelling realpath root.text path)) =
          some found := by
  have hplain := notMem_spelling realpath root.text path
  unfold Straight at h
  cases haccepted : accepted realpath root.text path false with
  | none =>
      rw [haccepted] at h
      rw [spelling_of_refused haccepted h.1]
      obtain ⟨hfound, hsame⟩ := cleaned_again hreal root.text path h.2
      rw [hsame, haccepted, hfound]
      exact ⟨fun loc hloc => (Option.not_mem_none loc hloc).elim, fun found _ hfound => hfound⟩
  | some loc =>
      rw [haccepted] at h
      obtain ⟨hloc, hinside⟩ := h
      have hleads := (accepted_eq_some_iff.mp haccepted).1
      have hbelow := belowRoot_location hroot hloc hinside
      have hspelling : spelling realpath root.text path = belowRoot root.text loc.text := by
        rw [spelling, haccepted]
      rw [hspelling, hbelow] at hnames hplain ⊢
      by_cases hempty : ['/'].intercalate (loc.below root) = []
      · rw [hempty]
        constructor
        · intro again hagain
          exact leadsTo_slash hdir hroot (accepted_eq_some_iff.mp hagain).1
        · intro found hprefix hfound
          rw [leadsTo_of_found false hfound] at hleads
          obtain rfl := Option.some.inj hleads
          rw [Location.below, Option.toList_none, List.append_nil] at hempty
          rw [canonical_ext (names_of_spelled_nil hprefix hempty)]
          exact realpath_root hdir hroot
      · have hne : loc.below root ≠ [] := by
          intro hnil
          rw [hnil] at hempty
          exact hempty rfl
        obtain ⟨hback, hsame⟩ := leadsTo_again hreal hroot hinside hleads hne
          (Location.isName_below hnames hempty) hplain
        refine ⟨fun again hagain => ?_, fun found _ => hsame found⟩
        rw [← hbelow]
        exact hback again (accepted_eq_some_iff.mp hagain).1

/-- Inside the root `resolve_path` answers what is there. -/
theorem resolvePath_eq_text_iff {found : Canonical} (hinside : root.names <+: found.names)
    (path : Text) : resolvePath realpath root.text path true = found.text ↔
      realpath (combinedPath root.text path) = some found := by
  have hne : found.text ≠ [] := absolute_ne_nil _ _
  have hprefix : hasCaseInsensitivePrefix (normalizeSeparators found.text)
      (normalizeSeparators root.text) = true :=
    (hasCaseInsensitivePrefix_iff _ _).mpr (( text_prefix hinside).map _)
  have hroot : root.text ≠ [] := absolute_ne_nil _ _
  rw [resolvePath_eq_iff hne, and_iff_right hroot, and_iff_left hprefix,
    resolvedText_eq_text_iff]

end Plain

/-! ## One message -/

section Message

variable {env : Environment σ} {ctx : SftpContext} {s : Session σ} {path name : Text}

theorem execute_realpathFull (env : Environment σ) (ctx : SftpContext) (path : Text) (w : World σ) :
    ∃ e events, replies events = [] ∧ ∀ f : Text → Handler Unit,
      (realpathFull ctx path >>= f).execute (perform env) w =
        ((f (realpathStart (env.realpath w.env) ctx.root path)).execute (perform env)
          { w with env := e }).after events := by
  unfold realpathFull realpathStart
  split
  · exact ⟨w.env, [], rfl, fun f => rfl⟩
  · exact ⟨(env.answer w.env .realpath).2, [⟨.os .realpath, env.realpath w.env⟩], rfl, fun f => rfl⟩

theorem name_mem_replyOrFail {attr : Option SftpAttributes} (env : Environment σ) (r : Reply)
    (w : World σ) : .name name attr ∈ replies ((replyOrFail r).execute (perform env) w).events ↔
      .name name attr = r := by
  unfold replyOrFail reply
  rw [request_bind, execute_call_ok _ (perform_os _), Execution.after_events]
  split <;> simp [replies, replyStatus, reply, request, execute_call]

/-- The one name that REALPATH returns. -/
theorem names_iff (hallocates : env.Allocates) (hperm : canRead ctx.perm = true)
    (hpath : path ≠ []) :
    s.Names env ctx path name ↔
      name = shownPath (env.realpath s.world.env) ctx.root path := by
  obtain ⟨e, events, hevents, hrest⟩ := execute_realpathFull env ctx path s.world
  unfold Session.Names Session.serve processSftp
  simp only [sftpDoRealpath, if_pos hperm, if_neg hpath, hrest, makeAttr, request_bind, call_bind,
    execute_call_ok _ (perform_os _), hallocates _, if_true, Execution.after_events,
    replies_append, hevents, pure_eq_done, done_bind, Execution.after_events, List.mem_append,
    name_mem_replyOrFail, shownPath]
  simp [replies]

end Message

/-! ## When the name is canonical -/

section Law

variable {realpath : Realpath} {root : Canonical} {path : Text}

theorem isSeparator_head?_spelling (realpath : Realpath) (root path : Text) :
    ∀ c ∈ (spelling realpath root path).head?, isSeparator c = false := by
  unfold spelling
  split <;> exact isSeparator_head?_dropWhile _

theorem LeadsBack.shownPath_again (h : LeadsBack realpath root path)
    (hreal : Canonicalises realpath) (hdir : IsDirectory realpath root) :
    shownPath realpath root.text ('/' :: spelling realpath root.text path) =
      '/' :: spelling realpath root.text path := by
  by_cases hnil : spelling realpath root.text path = []
  · rw [hnil, shownPath_slash]
  · rw [shownPath_eq h.noBackslash (by simpa using hnil) (by simp)]
    have hhead := isSeparator_head?_spelling realpath root.text path
    have hdrop : ('/' :: spelling realpath root.text path).dropWhile isSeparator =
        spelling realpath root.text path := dropWhile_isSeparator_of_head? hhead
    cases haccepted : accepted realpath root.text
        ('/' :: spelling realpath root.text path) false with
    | some loc =>
        have hback : belowRoot root.text loc.text = spelling realpath root.text path := by
          by_cases hstraight : Straight realpath root path
          · exact (hstraight.back hreal hdir h.noBackslash h.names).1 loc haccepted
          · exact h.back hstraight loc haccepted
        conv_lhs => rw [spelling, haccepted]
        rw [← hback]
    | none =>
        have hslash : (spelling realpath root.text path).head? ≠ some '/' :=
          fun hc => absurd (hhead '/' hc) (by decide)
        have hplain : '\\' ∉ '/' :: spelling realpath root.text path := fun hmem =>
          notMem_spelling realpath root.text path ((List.mem_cons.mp hmem).resolve_left (by decide))
        have hclean : cleanedSlashes (spelling realpath root.text path) =
            spelling realpath root.text path := by
          have hcons := h.names.cleanedSlashes
          rw [cleanedSlashes_cons, if_neg fun hboth => hslash hboth.2] at hcons
          exact (List.cons.inj hcons).2
        have hagain : ('/' :: spelling realpath root.text path).dropWhile isSeparator =
            spelling realpath root.text path := hdrop
        rw [spelling_of_refused haccepted hplain, hagain, hclean]

variable {env : Environment σ} {ctx : SftpContext} {s : Session σ}

/-- The law, of the one name that is returned. -/
theorem canonicalName_iff (hallocates : env.Allocates) (hperm : canRead ctx.perm = true)
    (hroot : ctx.root = root.text) {name : Text} (hname : name ≠ []) :
    CanonicalName env ctx s root path name ↔
      (∃ p : Canonical, name = p.text) ∧
        shownPath (env.realpath s.world.env) root.text name = name ∧
          ∀ found, root.names <+: found.names →
            env.realpath s.world.env (combinedPath root.text path) = some found →
              env.realpath s.world.env (combinedPath root.text name) = some found := by
  constructor
  · intro h
    refine ⟨h.canonical, ?_, fun found hinside hfound => ?_⟩
    · rw [← hroot]
      exact h.fixed _ ((names_iff hallocates hperm hname).mpr rfl)
    · have hsame := h.same found hinside
      rw [hroot, resolvePath_eq_text_iff hinside, resolvePath_eq_text_iff hinside] at hsame
      exact hsame hfound
  · rintro ⟨hcanonical, hfixed, hsame⟩
    refine ⟨hcanonical, fun again hagain => ?_, fun found hinside => ?_⟩
    · rw [(names_iff hallocates hperm hname).mp hagain, hroot, hfixed]
    · rw [hroot, resolvePath_eq_text_iff hinside, resolvePath_eq_text_iff hinside]
      exact hsame found hinside

/-- An object inside the root is shown under its canonical path, unless
there is a backslash in it. -/
theorem leadsBack_of_found (hroot : '\\' ∉ root.text) {found : Canonical}
    (hfound : realpath (combinedPath root.text path) = some found)
    (hinside : root.names <+: found.names) (hplain : '\\' ∉ found.text) :
    LeadsBack realpath root path := by
  have haccepted : accepted realpath root.text path false = some ⟨found, none, by simp⟩ := by
    have hresolved := (resolvePath_eq_text_iff hinside path).mpr hfound
    have hprefix := ((resolvePath_eq_iff (absolute_ne_nil _ _)).mp hresolved).2.2
    exact accepted_eq_some_iff.mpr ⟨leadsTo_of_found false hfound, hprefix⟩
  have hstraight : Straight realpath root path := by
    unfold Straight
    rw [haccepted]
    exact ⟨hplain, hinside⟩
  refine ⟨hroot, ?_, fun h => absurd hstraight h, fun h => absurd hstraight h⟩
  have hnames : ∀ n ∈ found.names.drop root.names.length, IsName '/' '.' n :=
    fun n hn => found.isName n (List.mem_of_mem_drop hn)
  have hbelow : belowRoot root.text found.text =
      ['/'].intercalate (found.names.drop root.names.length) := by
    let loc : Location := ⟨found, none, by simp⟩
    have hloc : '\\' ∉ loc.text := hplain
    have hlocation := belowRoot_location hroot hloc hinside
    simpa [loc, Location.below, Location.text] using hlocation
  rw [spelling, haccepted]
  exact ofNames_iff.mpr ⟨⟨_, hnames⟩, congrArg ('/' :: ·) hbelow⟩

/-- The root, under either of its names. -/
theorem canonicalName_root (hallocates : env.Allocates) (hperm : canRead ctx.perm = true)
    (hroot : ctx.root = root.text) (hreal : Canonicalises (env.realpath s.world.env))
    (h : path = ['/'] ∨ path = ['.']) :
    CanonicalName env ctx s root path (shownPath (env.realpath s.world.env) root.text path) := by
  have hslash := shownPath_slash (env.realpath s.world.env) root.text
  have hshown : shownPath (env.realpath s.world.env) root.text path = ['/'] := by
    rcases h with rfl | rfl
    · exact hslash
    · exact shownPath_dot _ _
  rw [hshown]
  refine (canonicalName_iff hallocates hperm hroot (List.cons_ne_nil _ _)).mpr
    ⟨⟨⟨[], by simp⟩, rfl⟩, hslash, fun found _ hfound => ?_⟩
  obtain ⟨t, -, ht⟩ := exists_combinedPath (absolute_ne_nil '/' root.names)
  rw [NormalPath.text, ht] at hfound ⊢
  rcases h with rfl | rfl
  · exact hfound
  · exact (hreal.dot t).symm.trans hfound

theorem LeadsBack.canonicalName (h : LeadsBack (env.realpath s.world.env) root path)
    (hallocates : env.Allocates) (hperm : canRead ctx.perm = true) (hroot : ctx.root = root.text)
    (hreal : Canonicalises (env.realpath s.world.env))
    (hdir : IsDirectory (env.realpath s.world.env) root) :
    CanonicalName env ctx s root path
      ('/' :: spelling (env.realpath s.world.env) root.text path) := by
  refine (canonicalName_iff hallocates hperm hroot (List.cons_ne_nil _ _)).mpr
    ⟨ofNames_iff.mp h.names, h.shownPath_again hreal hdir, fun found hinside => ?_⟩
  by_cases hstraight : Straight (env.realpath s.world.env) root path
  · exact (hstraight.back hreal hdir h.noBackslash h.names).2 found hinside
  · exact h.same hstraight found hinside

theorem leadsBack_of_canonicalName (hallocates : env.Allocates) (hperm : canRead ctx.perm = true)
    (hroot : ctx.root = root.text) (hdir : IsDirectory (env.realpath s.world.env) root)
    (hplain : '\\' ∉ root.text)
    (h : CanonicalName env ctx s root path
      ('/' :: spelling (env.realpath s.world.env) root.text path)) :
    LeadsBack (env.realpath s.world.env) root path := by
  obtain ⟨hcanonical, hfixed, hsame⟩ :=
    (canonicalName_iff hallocates hperm hroot (List.cons_ne_nil _ _)).mp h
  refine ⟨hplain, ofNames_iff.mpr hcanonical, fun _ loc hloc => ?_, fun _ => hsame⟩
  by_cases hnil : spelling (env.realpath s.world.env) root.text path = []
  · rw [hnil] at hloc ⊢
    exact leadsTo_slash hdir hplain (accepted_eq_some_iff.mp hloc).1
  · rw [shownPath_eq hplain (by simpa using hnil) (by simp)] at hfixed
    have hagain := (List.cons.inj hfixed).2
    conv_lhs at hagain => rw [spelling, Option.mem_def.mp hloc]
    exact hagain

/-- The name is canonical for the root itself, and for a path whose
spelling below the root leads back. -/
theorem canonical_names_iff (hallocates : env.Allocates) (hperm : canRead ctx.perm = true)
    (hroot : ctx.root = root.text) (hreal : Canonicalises (env.realpath s.world.env))
    (hdir : IsDirectory (env.realpath s.world.env) root) (hpath : path ≠ []) :
    ((path = ['/'] ∨ path = ['.'] ∨ LeadsBack (env.realpath s.world.env) root path) →
        ∀ name, s.Names env ctx path name → CanonicalName env ctx s root path name) ∧
      ('\\' ∉ root.text →
        (∀ name, s.Names env ctx path name → CanonicalName env ctx s root path name) →
          path = ['/'] ∨ path = ['.'] ∨ LeadsBack (env.realpath s.world.env) root path) := by
  constructor
  · rintro hcond name hname
    rw [names_iff hallocates hperm hpath, hroot] at hname
    by_cases hspecial : path = ['/'] ∨ path = ['.']
    · rw [hname]
      exact canonicalName_root hallocates hperm hroot hreal hspecial
    · rw [not_or] at hspecial
      have hback := (hcond.resolve_left hspecial.1).resolve_left hspecial.2
      rw [hname, shownPath_eq hback.noBackslash hspecial.1 hspecial.2]
      exact hback.canonicalName hallocates hperm hroot hreal hdir
  · intro hplain h
    by_cases hspecial : path = ['/'] ∨ path = ['.']
    · rcases hspecial with hslash | hdot
      · exact Or.inl hslash
      · exact Or.inr (Or.inl hdot)
    · rw [not_or] at hspecial
      have hname : s.Names env ctx path
          ('/' :: spelling (env.realpath s.world.env) root.text path) := by
        rw [names_iff hallocates hperm hpath, hroot,
          shownPath_eq hplain hspecial.1 hspecial.2]
      exact Or.inr (Or.inr (leadsBack_of_canonicalName hallocates hperm hroot hdir hplain
        (h _ hname)))

end Law

/-! ## A name that is no canonical path -/

theorem isDirectory_bobRoot : IsDirectory srvRealpath bobRoot where
  text := treeRealpath_eq_some_iff.mpr ⟨rfl, by decide⟩
  slash := treeRealpath_eq_some_iff.mpr ⟨rfl, by decide⟩

theorem canonical_names_iff_bob :
    ((txt "notes" = ['/'] ∨ txt "notes" = ['.'] ∨ LeadsBack srvRealpath bobRoot "notes") →
        ∀ name, (Session.start ()).Names (granting srvRealpath [] []) bobContext "notes" name →
          CanonicalName (granting srvRealpath [] []) bobContext (Session.start ()) bobRoot "notes"
            name) ∧
      ('\\' ∉ bobRoot.text →
        (∀ name, (Session.start ()).Names (granting srvRealpath [] []) bobContext "notes" name →
          CanonicalName (granting srvRealpath [] []) bobContext (Session.start ()) bobRoot "notes"
            name) →
          txt "notes" = ['/'] ∨ txt "notes" = ['.'] ∨ LeadsBack srvRealpath bobRoot "notes") :=
  canonical_names_iff (s := Session.start ()) (allocates_granting srvRealpath [] []) (by decide)
    rfl (canonicalises_treeRealpath _) isDirectory_bobRoot
    (by decide)

/-- A path that goes up from the root is refused, and its `..` is shown. -/
theorem dotdot_shown :
    ¬ ∀ (σ : Type) (env : Environment σ) (ctx : SftpContext) (s : Session σ) (root : Canonical)
      (path name : Text), env.Allocates → canRead ctx.perm = true → ctx.root = root.text →
        Canonicalises (env.realpath s.world.env) → IsDirectory (env.realpath s.world.env) root →
          path ≠ [] → s.Names env ctx path name → CanonicalName env ctx s root path name := by
  intro h
  have hallocates := allocates_granting srvRealpath [] []
  have hperm : canRead bobContext.perm = true := by decide
  have hshown : shownPath srvRealpath bobContext.root ".." = '/' :: txt ".." := by decide +kernel
  have hcanonical := (h Unit (granting srvRealpath [] []) bobContext (Session.start ()) bobRoot ".."
    _ hallocates hperm rfl (canonicalises_treeRealpath _) isDirectory_bobRoot (by decide)
    ((names_iff hallocates hperm (by decide)).mpr hshown.symm)).canonical
  rcases ofNames_iff.mpr hcanonical with hnil | hnames
  · cases hnil
  · exact (hnames ['.', '.'] (by decide)).ne_dotdot rfl

end MockServices.Sftp
