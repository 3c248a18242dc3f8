import MockServices.Foundations.Decimal
import MockServices.Ftp.ControlStream

/-!
# Reading a directory listing

A client reads the lines of LIST: eight fields with a blank after each, and
then the name. What it reads are the entries of the directory exactly when
no name has a line feed in it.
-/

namespace MockServices.Ftp

open Foundations

/-! ## The reader -/

/-- What a line of a listing says about an entry. -/
structure ListedEntry where
  name : Text
  isDir : Bool
  size : ℤ
  month : Text
  mday : ℕ
  hour : ℕ
  min : ℕ
  deriving DecidableEq

/-- So many fields with a blank after each, and the rest of the line. -/
def fields : ℕ → Text → Option (List Text × Text)
  | 0, line => some ([], line)
  | count + 1, line =>
      match line.dropWhile (· ≠ ' ') with
      | [] => none
      | _ :: rest =>
          (fields count rest).map fun r => (line.takeWhile (· ≠ ' ') :: r.1, r.2)

/-- A value that leaves nothing over. -/
def whole {β : Type} : Option (β × Text) → Option β
  | some (value, []) => some value
  | _ => none

def readTime (time : Text) : Option (ℕ × ℕ) :=
  match scanNat time with
  | some (hour, ':' :: rest) => (whole (scanNat rest)).map fun min => (hour, min)
  | _ => none

def readListingLine (line : Text) : Option ListedEntry :=
  match fields 8 line with
  | some ([permissions, _, _, _, fileSize, month, mday, time], name) => do
      let size ← whole (scanSigned fileSize)
      let mday ← whole (scanNat mday)
      let (hour, min) ← readTime time
      some { name, isDir := permissions.head? = some 'd', size, month, mday, hour, min }
  | _ => none

def readListing (listing : Text) : Option (List ListedEntry) :=
  ((segments '\n' listing).map stripCr).mapM readListingLine

/-! ## What is listed -/

/-- The entries of the directory but `.` and `..`. -/
def listedEntries (os : Os) (dirPath : Text) : List DirEntry :=
  ((os.opendir dirPath).getD []).filter fun entry =>
    entry.name ≠ ['.'] ∧ entry.name ≠ ['.', '.']

/-- What the client is to read about an entry. -/
def DirEntry.listed (os : Os) (entry : DirEntry) : ListedEntry :=
  let fileStat := entry.stat.getD ⟨false, 0, 0⟩
  let modifiedAt := os.localtime fileStat.mtime
  { name := entry.name
    isDir := fileStat.isDir
    size := fileStat.size
    month := txt (fmtMonth (modifiedAt.mon + 1))
    mday := modifiedAt.mday
    hour := modifiedAt.hour
    min := modifiedAt.min }

theorem dirListing_eq (os : Os) (dirPath : Text) :
    dirListing os dirPath = (listedEntries os dirPath).flatMap (listingLine os) := by
  unfold dirListing listedEntries
  cases os.opendir dirPath with
  | none => rfl
  | some entries => rfl

/-! ## Fields -/

theorem fields_cons {word : Text} (h : ' ' ∉ word) (count : ℕ) (rest : Text) :
    fields (count + 1) (word ++ ' ' :: rest) =
      (fields count rest).map fun r => (word :: r.1, r.2) := by
  have hword : ∀ c ∈ word, decide (c ≠ ' ') = true := by
    intro c hc
    simpa using fun heq : c = ' ' => h (heq ▸ hc)
  rw [fields, List.dropWhile_append_of_pos hword, List.takeWhile_append_of_pos hword]
  simp

theorem fields_flatMap {words : List Text} (h : ∀ word ∈ words, ' ' ∉ word) (rest : Text) :
    fields words.length (words.flatMap (· ++ [' ']) ++ rest) = some (words, rest) := by
  induction words with
  | nil => rfl
  | cons word words ih =>
      have hrest := ih fun w hw => h w (List.mem_cons_of_mem _ hw)
      rw [List.length_cons, List.flatMap_cons, List.append_assoc, List.append_assoc,
        List.singleton_append, fields_cons (h word List.mem_cons_self), hrest]
      rfl

/-! ## The fields of a line -/

theorem scanNat_twoDigits (n : ℕ) {rest : Text} (h : NoDigit rest) :
    scanNat (txt (twoDigits n) ++ rest) = some (n, rest) := by
  unfold twoDigits txt
  split
  · rw [String.toList_append]
    exact scanNat_zero n h
  · exact scanNat_repr n h

/-- The characters of the fields. -/
def IsField (c : Char) : Prop := IsNumeric c ∨ c = ':' ∨ c = '?' ∨ c.isAlpha = true

instance : DecidablePred IsField := fun c =>
  inferInstanceAs (Decidable ((c = '-' ∨ c.isDigit = true) ∨ c = ':' ∨ c = '?' ∨ c.isAlpha = true))

/-- The test of a whole text, for texts of the source. -/
theorem isField_of_all {t : Text} (h : t.all (IsField ·) = true) : ∀ c ∈ t, IsField c :=
  fun c hc => of_decide_eq_true (List.all_eq_true.mp h c hc)

theorem isField_blank : ¬ IsField ' ' ∧ ¬ IsField '\n' := by
  decide

theorem isField_twoDigits {n : ℕ} : ∀ c ∈ txt (twoDigits n), IsField c := by
  have hdigits : ∀ c ∈ (toString n).toList, IsField c := fun c hc =>
    .inl (.inr (Nat.isDigit_of_mem_toDigits (by decide) (by decide) (Nat.toList_repr ▸ hc)))
  unfold twoDigits txt
  split
  · rw [String.toList_append]
    intro c hc
    rcases List.mem_append.mp hc with hc | hc
    · obtain rfl := List.mem_singleton.mp hc
      exact .inl (.inr rfl)
    · exact hdigits c hc
  · exact hdigits

theorem getD_mem {α : Type*} (xs : List α) (index : ℕ) (default : α) :
    xs.getD index default ∈ default :: xs := by
  rw [List.getD_eq_getElem?_getD]
  cases hentry : xs[index]? with
  | none => exact List.mem_cons_self
  | some entry => exact List.mem_cons_of_mem _ (List.mem_of_getElem? hentry)

theorem isField_fmtMonth (month : ℕ) : ∀ c ∈ txt (fmtMonth month), IsField c := by
  have hmonths : ∀ name ∈ ["???", "Jan", "Feb", "Mar", "Apr", "May", "Jun", "Jul", "Aug", "Sep",
      "Oct", "Nov", "Dec"], (txt name).all (IsField ·) = true := by
    decide
  apply isField_of_all
  apply hmonths
  unfold fmtMonth
  split
  · exact getD_mem _ _ _
  · exact List.mem_cons_self

/-- The eight fields of a line. -/
def listingFields (os : Os) (entry : DirEntry) : List Text :=
  let shown := entry.listed os
  [txt (if shown.isDir then "drwx------" else "-rwx------"), txt "1", txt "owner", txt "group",
    (toString shown.size).toList, shown.month, txt (twoDigits shown.mday),
    txt (twoDigits shown.hour) ++ ':' :: txt (twoDigits shown.min)]

theorem listingLine_eq (os : Os) (entry : DirEntry) :
    listingLine os entry =
      ((listingFields os entry).flatMap (· ++ [' ']) ++ entry.name ++ ['\r']) ++ ['\n'] := by
  have hcrlf : txt "\r\n" = ['\r'] ++ ['\n'] := rfl
  unfold listingLine fmtUnixtime listingFields DirEntry.listed
  rw [hcrlf]
  simp only [txt, String.toList_append, List.flatMap_cons, List.flatMap_nil, List.append_assoc,
    List.cons_append, List.nil_append, List.append_nil]
  rfl

theorem isField_listingFields (os : Os) (entry : DirEntry) :
    ∀ field ∈ listingFields os entry, ∀ c ∈ field, IsField c := by
  have hfixed : ∀ field ∈ [txt "drwx------", txt "-rwx------", txt "1", txt "owner", txt "group"],
      ∀ c ∈ field, IsField c := by
    have hall : ∀ field ∈ [txt "drwx------", txt "-rwx------", txt "1", txt "owner", txt "group"],
        field.all (IsField ·) = true := by
      decide
    exact fun field hfield => isField_of_all (hall field hfield)
  have hpermissions : ∀ c ∈ txt (if (entry.listed os).isDir then "drwx------" else "-rwx------"),
      IsField c := by
    split
    · exact hfixed _ (by simp)
    · exact hfixed _ (by simp)
  have htime : ∀ c ∈ txt (twoDigits (entry.listed os).hour) ++
      ':' :: txt (twoDigits (entry.listed os).min), IsField c := by
    intro c hc
    rcases List.mem_append.mp hc with hc | hc
    · exact isField_twoDigits c hc
    · rcases List.mem_cons.mp hc with rfl | hc
      · exact .inr (.inl rfl)
      · exact isField_twoDigits c hc
  simp only [listingFields, List.forall_mem_cons, List.not_mem_nil, false_imp_iff, implies_true,
    and_true]
  exact ⟨hpermissions, hfixed _ (by simp), hfixed _ (by simp), hfixed _ (by simp),
    fun c hc => .inl (isNumeric_of_mem hc), isField_fmtMonth _, isField_twoDigits, htime⟩

/-- The line of an entry is read back, whatever the name. -/
theorem readListingLine_line (os : Os) (entry : DirEntry) :
    readListingLine ((listingFields os entry).flatMap (· ++ [' ']) ++ entry.name) =
      some (entry.listed os) := by
  have hfields := fields_flatMap (fun field hfield hblank => isField_blank.1
    (isField_listingFields os entry field hfield ' ' hblank)) entry.name
  have hwhole : ∀ n : ℕ, whole (scanNat (txt (twoDigits n))) = some n := by
    intro n
    have hscan := scanNat_twoDigits n noDigit_nil
    rw [List.append_nil] at hscan
    rw [hscan]
    rfl
  have hsize : whole (scanSigned (toString (entry.listed os).size).toList) =
      some (entry.listed os).size := by
    have hscan := scanSigned_toString (entry.listed os).size noDigit_nil
    rw [List.append_nil] at hscan
    rw [hscan]
    rfl
  have htime : readTime (txt (twoDigits (entry.listed os).hour) ++
      ':' :: txt (twoDigits (entry.listed os).min)) =
        some ((entry.listed os).hour, (entry.listed os).min) := by
    rw [readTime, scanNat_twoDigits _ (noDigit_cons (by decide) _)]
    change (whole (scanNat _)).map _ = _
    rw [hwhole]
    rfl
  have hdir : ((txt (if (entry.listed os).isDir then "drwx------" else "-rwx------")).head? =
      some 'd') ↔ (entry.listed os).isDir = true := by
    cases (entry.listed os).isDir <;> decide
  change fields 8 _ = _ at hfields
  unfold readListingLine
  rw [hfields]
  simp only [listingFields]
  rw [hsize, hwhole, htime]
  simp only [Option.bind_eq_bind, Option.bind_some, hdir, Bool.decide_eq_true]
  rfl

theorem segments_listing (os : Os) {entries : List DirEntry}
    (h : ∀ entry ∈ entries, '\n' ∉ entry.name) :
    segments '\n' (entries.flatMap (listingLine os)) = entries.map fun entry =>
      (listingFields os entry).flatMap (· ++ [' ']) ++ entry.name ++ ['\r'] := by
  induction entries with
  | nil => exact segments_of_notMem List.not_mem_nil
  | cons entry entries ih =>
      have hline : '\n' ∉ (listingFields os entry).flatMap (· ++ [' ']) ++ entry.name ++ ['\r'] := by
        have hname := h entry List.mem_cons_self
        have hfields : '\n' ∉ (listingFields os entry).flatMap (· ++ [' ']) := by
          intro hmem
          obtain ⟨field, hfield, hc⟩ := List.mem_flatMap.mp hmem
          rcases List.mem_append.mp hc with hc | hc
          · exact isField_blank.2 (isField_listingFields os entry field hfield _ hc)
          · cases List.mem_singleton.mp hc
        simp [hname, hfields]
      have hrest := ih fun e he => h e (List.mem_cons_of_mem _ he)
      rw [List.flatMap_cons, listingLine_eq, List.append_assoc _ ['\n'], List.singleton_append,
        segments_cons _ _ hline, hrest, List.map_cons]

theorem readListing_of_names (os : Os) {entries : List DirEntry}
    (h : ∀ entry ∈ entries, '\n' ∉ entry.name) :
    readListing (entries.flatMap (listingLine os)) = some (entries.map (DirEntry.listed os)) := by
  have hstrip : ∀ line : Text, stripCr (line ++ ['\r']) = line := by
    intro line
    rw [stripCr, if_pos List.getLast?_concat, List.dropLast_concat]
  rw [readListing, segments_listing os h, List.map_map]
  induction entries with
  | nil => rfl
  | cons entry entries ih =>
      have hrest := ih fun e he => h e (List.mem_cons_of_mem _ he)
      rw [List.map_cons, List.mapM_cons, Function.comp_apply, hstrip, readListingLine_line, hrest]
      rfl

/-! ## Names with a line feed -/

theorem mem_of_fields {count : ℕ} {line : Text} {words : List Text} {name : Text}
    (h : fields count line = some (words, name)) {c : Char} (hc : c ∈ name) : c ∈ line := by
  induction count generalizing line words with
  | zero =>
      obtain ⟨-, rfl⟩ := Prod.mk.inj (Option.some.inj h)
      exact hc
  | succ count ih =>
      rw [fields] at h
      split at h
      · cases h
      · next ch rest hdrop =>
          obtain ⟨⟨words', name'⟩, hrest, heq⟩ := Option.map_eq_some_iff.mp h
          obtain ⟨-, rfl⟩ := Prod.mk.inj heq
          have hmem : c ∈ line.dropWhile (· ≠ ' ') := by
            rw [hdrop]
            exact List.mem_cons_of_mem _ (ih hrest)
          exact (List.dropWhile_sublist _).subset hmem

theorem mem_of_readListingLine {line : Text} {shown : ListedEntry}
    (h : readListingLine line = some shown) {c : Char} (hc : c ∈ shown.name) : c ∈ line := by
  unfold readListingLine at h
  split at h
  · next hfields =>
      obtain ⟨size, -, h⟩ := Option.bind_eq_some_iff.mp h
      obtain ⟨mday, -, h⟩ := Option.bind_eq_some_iff.mp h
      obtain ⟨time, -, h⟩ := Option.bind_eq_some_iff.mp h
      obtain rfl := Option.some.inj h
      exact mem_of_fields hfields hc
  · cases h

/-- A name that is read has no line feed in it. -/
theorem lineFeed_notMem_of_readListing {listing : Text} {shown : List ListedEntry}
    (h : readListing listing = some shown) : ∀ entry ∈ shown, '\n' ∉ entry.name := by
  have hlines : ∀ line ∈ (segments '\n' listing).map stripCr, '\n' ∉ line := by
    intro line hline hmem
    obtain ⟨segment, hsegment, rfl⟩ := List.mem_map.mp hline
    refine sep_notMem_of_mem_segments hsegment ?_
    unfold stripCr at hmem
    split at hmem
    · exact List.mem_of_mem_dropLast hmem
    · exact hmem
  unfold readListing at h
  generalize (segments '\n' listing).map stripCr = lines at h hlines
  induction lines generalizing shown with
  | nil =>
      obtain rfl : [] = shown := Option.some.inj h
      exact List.forall_mem_nil _
  | cons line lines ih =>
      rw [List.mapM_cons] at h
      obtain ⟨first, hfirst, h⟩ := Option.bind_eq_some_iff.mp h
      obtain ⟨others, hothers, h⟩ := Option.bind_eq_some_iff.mp h
      obtain rfl := Option.some.inj h
      have hrest := ih hothers fun l hl => hlines l (List.mem_cons_of_mem _ hl)
      refine List.forall_mem_cons.mpr ⟨fun hmem => ?_, hrest⟩
      exact hlines line List.mem_cons_self (mem_of_readListingLine hfirst hmem)

/-- A listing is read back as the entries of the directory exactly when no
name has a line feed in it. -/
theorem listing_read_back_iff (os : Os) (dirPath : Text) :
    readListing (dirListing os dirPath) =
        some ((listedEntries os dirPath).map (DirEntry.listed os)) ↔
      ∀ entry ∈ listedEntries os dirPath, '\n' ∉ entry.name := by
  rw [dirListing_eq]
  refine ⟨fun h entry hentry => ?_, readListing_of_names os⟩
  exact lineFeed_notMem_of_readListing h _ (List.mem_map_of_mem hentry)

end MockServices.Ftp
