import MockServices.Sftp.Disk

/-!
# Which messages lose data

Apart from WRITE, REMOVE, RMDIR and an OPEN with TRUNC a message should
leave every file with its content where it was, or where an OK RENAME has
put it. Two messages do not: an OPEN for writing with CREAT, whose mode
truncates whatever is there, and a RENAME onto a file, which replaces it.
-/

namespace MockServices.Sftp

open Foundations Foundations.Program

variable {σ : Type}

/-- The texts of a RENAME that has been carried out. -/
def okRenameOf : Event Call.Answer → Option (Text × Text)
  | ⟨.os (.rename source target), ok⟩ => if ok = true then some (source, target) else none
  | _ => none

def okRename (events : List (Event Call.Answer)) : Option (Text × Text) :=
  events.findSome? okRenameOf

/-- Where a path leads after the renaming. -/
def Disk.renamed (disk : Disk σ) (files : Files) : Option (Text × Text) → List Text → List Text
  | some (source, target) =>
      match disk.locate files source, disk.locate files target with
      | some a, some b => FileSystem.relocate a b
      | _, _ => id
  | none => id

/-- Every file keeps its content, and its path unless an OK RENAME has
given it another one. -/
def NoLoss (disk : Disk σ) (ctx : SftpContext) (s : Session σ) (msg : SftpClientMessage) : Prop :=
  let served := s.serve disk.env ctx msg
  (disk.files s.world.env).Keeps (disk.files served.world.env)
    (disk.renamed (disk.files s.world.env) (okRename served.events))

/-- What OPEN gives to `fopen`. -/
def Session.opening (env : Environment σ) (ctx : SftpContext) (s : Session σ)
    (msg : SftpClientMessage) : Option (σ × Text) :=
  if openDenied ctx.perm msg.flags then none
  else resolvedIn env ctx s.world.env msg.filename (msg.flags &&& OpenFlags.creat == 0)

/-- What RENAME gives to `rename`. -/
def Session.renaming (env : Environment σ) (ctx : SftpContext) (s : Session σ)
    (msg : SftpClientMessage) : Option (σ × Text × Text) :=
  if canWrite ctx.perm then
    (resolvedIn env ctx s.world.env msg.filename true).bind fun source =>
      (msg.submessage <|> msg.strData).bind fun dstPath =>
        (resolvedIn env ctx source.1 dstPath false).map fun target =>
          (target.1, source.2, target.2)
  else none

/-- The flags are WRITE and CREAT without READ, APPEND and TRUNC, and they
get through to a file that is not empty, which the system opens. -/
def Truncates (disk : Disk σ) (ctx : SftpContext) (s : Session σ) (msg : SftpClientMessage) :
    Prop :=
  msg.type = .open ∧ msg.flags &&& (OpenFlags.read ||| OpenFlags.write) = OpenFlags.write ∧
    msg.flags &&& OpenFlags.append = 0 ∧ msg.flags &&& OpenFlags.trunc = 0 ∧
      msg.flags &&& OpenFlags.creat ≠ 0 ∧
        ∃ e full path inode, s.opening disk.env ctx msg = some (e, full) ∧
          (disk.env.answer e (.fopen full .wb)).1 ≠ none ∧
            disk.follow (disk.files s.world.env) full = some path ∧
              (disk.files s.world.env).entry path = some (.file inode) ∧
                (disk.files s.world.env).content inode ≠ []

/-- The RENAME gets through, the system carries it out, and there is a
file at the target that is not the source. -/
def Overwrites (disk : Disk σ) (ctx : SftpContext) (s : Session σ) (msg : SftpClientMessage) :
    Prop :=
  msg.type = .rename ∧ ∃ e source target a b inode,
    s.renaming disk.env ctx msg = some (e, source, target) ∧
      (disk.env.answer e (.rename source target)).1 = true ∧
        disk.locate (disk.files s.world.env) source = some a ∧
          disk.locate (disk.files s.world.env) target = some b ∧
            (disk.files s.world.env).entry b = some (.file inode) ∧
              (disk.files s.world.env).entry a ≠ some (.file inode)

/-! ## Messages that lose nothing -/

section Gentle

variable {disk : Disk σ} {ctx : SftpContext} {msg : SftpClientMessage} {α : Type}

/-- The calls that keep every file. -/
def Call.gentle : Call → Prop
  | .os (.fopen _ mode) => mode ≠ .wb ∧ mode ≠ .wbPlus
  | .os (.mkdir _) => True
  | c => c.keepsFiles

theorem Call.keepsFiles.gentle {c : Call} (h : c.keepsFiles) : c.gentle := by
  cases c with
  | os c =>
      cases c with
      | fopen path mode =>
          obtain rfl : mode = .rb := by simpa [Call.keepsFiles, OsCall.changes] using h
          exact ⟨by decide, by decide⟩
      | mkdir path => trivial
      | _ => exact h
  | _ => exact h

theorem keeps_fopen (e : σ) {path : Text} {mode : OpenMode} (hmode : mode ≠ .wb ∧ mode ≠ .wbPlus) :
    (disk.files e).Keeps (disk.files (disk.env.answer e (.fopen path mode)).2) id := by
  have heffect := disk.fopen e path mode
  unfold Effective at heffect
  split at heffect
  · obtain ⟨p, -, hopen⟩ := Option.bind_eq_some_iff.mp heffect
    cases mode with
    | rb =>
        rw [← Option.some.inj hopen]
        exact FileSystem.Keeps.refl
    | rbPlus =>
        obtain ⟨inode, -, hsame⟩ := Option.map_eq_some_iff.mp hopen
        rw [← hsame]
        exact FileSystem.Keeps.refl
    | ab | abPlus =>
        obtain ⟨⟨inode, after⟩, hcreate, hafter⟩ := Option.map_eq_some_iff.mp hopen
        rw [← hafter]
        exact FileSystem.keeps_openOrCreate hcreate
    | wb => exact absurd rfl hmode.1
    | wbPlus => exact absurd rfl hmode.2
  · rw [heffect]
    exact FileSystem.Keeps.refl

theorem keeps_mkdir_call (e : σ) {path : Text} :
    (disk.files e).Keeps (disk.files (disk.env.answer e (.mkdir path)).2) id := by
  have heffect := disk.mkdir e path
  unfold Effective at heffect
  split at heffect
  · obtain ⟨p, -, hmkdir⟩ := Option.bind_eq_some_iff.mp heffect
    exact FileSystem.keeps_mkdir hmkdir
  · rw [heffect]
    exact FileSystem.Keeps.refl

theorem perform_keeps {w w' : World σ} {c : Call} {answer : c.Answer} (hc : c.gentle)
    (h : perform disk.env w c = .ok (answer, w')) :
    (disk.files w.env).Keeps (disk.files w'.env) id := by
  by_cases hkeeps : c.keepsFiles
  · rw [perform_files hkeeps h]
    exact FileSystem.Keeps.refl
  · cases c with
    | os c =>
        obtain ⟨-, rfl⟩ := Prod.mk.inj (Except.ok.inj h)
        cases c with
        | fopen path mode => exact keeps_fopen w.env hc
        | mkdir path => exact keeps_mkdir_call w.env
        | _ => exact absurd hc hkeeps
    | _ => exact absurd trivial hkeeps

abbrev IsGentle (p : Handler α) : Prop := Makes (fun _ _ => True) Call.gentle p

theorem IsGentle.keeps {p : Handler α} (hp : IsGentle p) (w : World σ) :
    (disk.files w.env).Keeps (disk.files (p.execute (perform disk.env) w).world.env) id :=
  (hp.invariant (I := fun w' => (disk.files w.env).Keeps (disk.files w'.env) id)
    (fun _ _ _ _ hw hc h => ⟨trivial, hw.trans (perform_keeps hc h)⟩) FileSystem.Keeps.refl).2

def Call.noRename (c : Call) : Prop := ∀ source target, c ≠ .os (.rename source target)

theorem Call.gentle.noRename {c : Call} (h : c.gentle) : c.noRename := by
  rintro source target rfl
  simp [Call.gentle, Call.keepsFiles, OsCall.changes] at h

theorem okRename_eq_none {p : Handler α} (hp : Makes (fun _ _ => True) Call.noRename p)
    (w : World σ) : okRename (p.execute (perform disk.env) w).events = none := by
  refine List.findSome?_eq_none_iff.mpr fun e he => ?_
  have hcall := hp.events (fun _ _ => trivial) e he
  unfold okRenameOf
  split
  · next source target _ => exact absurd rfl (hcall source target)
  · rfl

theorem noLoss_of_gentle {s : Session σ} (h : IsGentle (processSftp ctx msg)) :
    NoLoss disk ctx s msg := by
  unfold NoLoss
  simp only [Session.serve, okRename_eq_none (h.mono fun _ => Call.gentle.noRename) s.world]
  exact h.keeps s.world

/-- The other messages make no call that could lose anything. -/
theorem processSftp_gentle (h : msg.type.changes = false ∨ msg.type = .mkdir) :
    IsGentle (processSftp ctx msg) := by
  rcases h with h | h
  · exact (processSftp_makesNoChange (Or.inr h)).mono fun _ => Call.keepsFiles.gentle
  · have hk : Housekeeping Call.gentle := by
      constructor <;> simp [Call.gentle, Call.keepsFiles, OsCall.changes]
    unfold processSftp
    rw [h]
    exact makes_sftpDoMkdir hk fun _ _ _ => trivial

end Gentle

/-! ## OPEN and RENAME, call by call -/

section Executed

variable {disk : Disk σ} {ctx : SftpContext} {msg : SftpClientMessage} {s : Session σ}
  {w : World σ} {operation path : Text} {mustExist : Bool} {code : StatusCode} {e : σ} {full : Text}

theorem files_of_resolvedIn (h : resolvedIn disk.env ctx w.env path mustExist = some (e, full)) :
    disk.files e = disk.files w.env := by
  unfold resolvedIn at h
  dsimp only at h
  split at h
  · cases h
  · cases h
    exact disk.quiet w.env .realpath rfl

theorem files_refuse (result : Text) :
    disk.files ((refuse ctx operation path result code).execute (perform disk.env) w).world.env =
      disk.files w.env :=
  MakesNoChange.files (makes_refuse keepsFiles_housekeeping _ _ _ _) w

theorem open_files (htype : msg.type = .open) :
    disk.files (s.serve disk.env ctx msg).world.env =
      match s.opening disk.env ctx msg with
      | none => disk.files s.world.env
      | some (e, full) =>
          disk.files (disk.env.answer e (.fopen full (sftpFlagsToMode msg.flags).1)).2 := by
  simp only [Session.serve, processSftp, htype, sftpDoOpen, Session.opening]
  split
  · exact files_refuse _
  · cases hresolved : resolvedIn disk.env ctx s.world.env msg.filename
        (msg.flags &&& OpenFlags.creat == 0) with
    | none =>
        rw [execute_withResolved_none hresolved, Execution.after_world, files_refuse]
        exact disk.quiet s.world.env .realpath rfl
    | some resolved =>
        obtain ⟨e, full⟩ := resolved
        rw [execute_withResolved hresolved, Execution.after_world]
        simp only [request_bind, execute_call, perform_os, Execution.after_world]
        split
        · exact files_refuse _
        · simp only [execute_call, perform_new, Execution.after_world]
          exact MakesNoChange.files
            (makes_giveHandle keepsFiles_housekeeping keepsFiles_handleCalls _ _ _
              (forall_closing (fun _ => rfl) fun _ => rfl)) _

theorem open_okRename (htype : msg.type = .open) :
    okRename (s.serve disk.env ctx msg).events = none := by
  have hk : Housekeeping Call.noRename := by constructor <;> simp [Call.noRename]
  have hh : HandleCalls Call.noRename := by constructor <;> simp [Call.noRename]
  refine okRename_eq_none ?_ s.world
  unfold processSftp
  rw [htype]
  exact makes_sftpDoOpen hk hh fun full _ _ => by simp [Call.noRename]

theorem okRename_after_realpath {x : Execution Call.Answer (World σ) Fault Unit}
    (realpath : Realpath) :
    okRename (x.after [⟨.os .realpath, realpath⟩]).events = okRename x.events := rfl

/-- A RENAME that gets through is answered as the system has answered it. -/
theorem rename_served {e : σ} {source target : Text} (htype : msg.type = .rename)
    (h : s.renaming disk.env ctx msg = some (e, source, target)) :
    let answered := disk.env.answer e (.rename source target)
    let served := s.serve disk.env ctx msg
    disk.files served.world.env = disk.files answered.2 ∧
      okRename served.events = if answered.1 = true then some (source, target) else none := by
  unfold Session.renaming at h
  split at h
  · next hwrite =>
      obtain ⟨⟨e₁, src⟩, hsource, h⟩ := Option.bind_eq_some_iff.mp h
      obtain ⟨dstPath, hdst, h⟩ := Option.bind_eq_some_iff.mp h
      obtain ⟨⟨e₂, dst⟩, htarget, h⟩ := Option.map_eq_some_iff.mp h
      cases h
      simp only [Session.serve, processSftp, htype, sftpDoRename, requireWrite, if_pos hwrite]
      rw [execute_withResolved hsource, Execution.after_world, okRename_after_realpath, hdst]
      simp only
      rw [execute_withResolved htarget, Execution.after_world, okRename_after_realpath]
      simp only [request_bind, execute_call, perform_os, Execution.after_world]
      cases hdone : (disk.env.answer e₂ (.rename src dst)).1 with
      | true =>
          refine ⟨MakesNoChange.files ?_ _, ?_⟩
          · exact makes_bind (makes_replyStatus keepsFiles_housekeeping _ _) fun _ =>
              makes_call (keepsFiles_housekeeping.log _ _ _ _)
          · rfl
      | false => exact ⟨files_refuse _, rfl⟩
  · cases h

/-- A RENAME that does not get through changes nothing. -/
theorem rename_not_served (htype : msg.type = .rename) (h : s.renaming disk.env ctx msg = none) :
    disk.files (s.serve disk.env ctx msg).world.env = disk.files s.world.env ∧
      okRename (s.serve disk.env ctx msg).events = none := by
  simp only [Session.serve, processSftp, htype, sftpDoRename, requireWrite]
  unfold Session.renaming at h
  split at h
  · next hwrite =>
      rw [if_pos hwrite]
      cases hsource : resolvedIn disk.env ctx s.world.env msg.filename true with
      | none =>
          rw [execute_withResolved_none hsource, Execution.after_world, files_refuse]
          exact ⟨disk.quiet s.world.env .realpath rfl, rfl⟩
      | some source =>
          obtain ⟨e, src⟩ := source
          rw [execute_withResolved hsource, Execution.after_world, okRename_after_realpath,
            ← files_of_resolvedIn hsource]
          simp only [hsource, Option.bind_some] at h
          cases hdst : msg.submessage <|> msg.strData with
          | none =>
              exact ⟨MakesNoChange.files (w := ⟨e, _, _⟩)
                (makes_replyStatus keepsFiles_housekeeping _ _), rfl⟩
          | some dstPath =>
              simp only [hdst, Option.bind_some, Option.map_eq_none_iff] at h
              simp only
              rw [execute_withResolved_none h, Execution.after_world, files_refuse]
              exact ⟨disk.quiet e .realpath rfl, rfl⟩
  · next hwrite =>
      rw [if_neg hwrite]
      exact ⟨files_refuse _, rfl⟩

end Executed

/-! ## When a message loses nothing -/

section Exact

variable {disk : Disk σ} {ctx : SftpContext} {s : Session σ} {msg : SftpClientMessage}

/-- Without TRUNC a file is truncated for WRITE and CREAT without READ and
APPEND. -/
theorem sftpFlagsToMode_truncates {flags : OpenFlags} (htrunc : flags &&& OpenFlags.trunc = 0) :
    (sftpFlagsToMode flags).1 ≠ .wbPlus ∧
      ((sftpFlagsToMode flags).1 = .wb ↔
        flags &&& (OpenFlags.read ||| OpenFlags.write) = OpenFlags.write ∧
          flags &&& OpenFlags.append = 0 ∧ flags &&& OpenFlags.creat ≠ 0) := by
  have hread : OpenFlags.read ≠ OpenFlags.write := by decide
  have hboth : OpenFlags.read ||| OpenFlags.write ≠ OpenFlags.write := by decide
  unfold sftpFlagsToMode
  dsimp only
  split_ifs <;> simp_all

theorem opened_files {e : σ} {full : Text}
    (h : s.opening disk.env ctx msg = some (e, full)) :
    disk.files e = disk.files s.world.env := by
  unfold Session.opening at h
  split at h
  · cases h
  · exact files_of_resolvedIn h

/-- What `fopen` truncates is lost. -/
theorem keeps_fopen_wb_iff (e : σ) (full : Text) :
    (disk.files e).Keeps (disk.files (disk.env.answer e (.fopen full .wb)).2) id ↔
      ((disk.env.answer e (.fopen full .wb)).1 ≠ none →
        ∀ path inode, disk.follow (disk.files e) full = some path →
          (disk.files e).entry path = some (.file inode) → (disk.files e).content inode = []) := by
  have heffect := disk.fopen e full .wb
  cases hopened : (disk.env.answer e (.fopen full .wb)).1 with
  | none =>
      have hafter : disk.files (disk.env.answer e (.fopen full .wb)).2 = disk.files e := by
        simpa [Effective, hopened] using heffect
      rw [hafter]
      exact iff_of_true FileSystem.Keeps.refl fun hne => absurd rfl hne
  | some id =>
      simp only [Effective, hopened, Option.isSome_some, if_true] at heffect
      obtain ⟨path, hfollow, hopen⟩ := Option.bind_eq_some_iff.mp heffect
      obtain ⟨⟨inode, after⟩, hopen, hafter⟩ := Option.map_eq_some_iff.mp hopen
      rw [← hafter, FileSystem.keeps_openTruncated_iff hopen]
      constructor
      · intro hkeeps _ path' inode' hfollow'
        obtain rfl := Option.some.inj (hfollow.symm.trans hfollow')
        exact hkeeps inode'
      · exact fun h inode' => h (by simp) path inode' hfollow

/-- An OPEN loses something exactly when it truncates. -/
theorem noLoss_open_iff (htype : msg.type = .open) (htrunc : msg.flags &&& OpenFlags.trunc = 0) :
    NoLoss disk ctx s msg ↔ ¬ Truncates disk ctx s msg := by
  obtain ⟨hplus, hmode⟩ := sftpFlagsToMode_truncates htrunc
  unfold NoLoss
  simp only [open_okRename htype, open_files htype]
  cases hopening : s.opening disk.env ctx msg with
  | none =>
      apply iff_of_true FileSystem.Keeps.refl
      rintro ⟨-, -, -, -, -, e, full, path, inode, h, -⟩
      simp [hopening] at h
  | some opening =>
      obtain ⟨e, full⟩ := opening
      have hfiles := opened_files hopening
      by_cases hwb : (sftpFlagsToMode msg.flags).1 = .wb
      · obtain ⟨hwrite, happend, hcreat⟩ := hmode.mp hwb
        simp only [← hfiles]
        rw [hwb]
        apply (keeps_fopen_wb_iff e full).trans
        constructor
        · rintro hkeeps ⟨-, -, -, -, -, e', full', path, inode, h, hopened, hfollow, hentry, hne⟩
          rw [hopening] at h
          cases h
          rw [← hfiles] at hfollow hentry hne
          exact hne (hkeeps hopened path inode hfollow hentry)
        · intro hnot hopened path inode hfollow hentry
          by_contra hne
          rw [hfiles] at hfollow hentry hne
          exact hnot ⟨htype, hwrite, happend, htrunc, hcreat, e, full, path, inode, hopening,
            hopened, hfollow, hentry, hne⟩
      · refine iff_of_true ?_ fun h => hwb (hmode.mpr ⟨h.2.1, h.2.2.1, h.2.2.2.2.1⟩)
        simp only [← hfiles]
        exact keeps_fopen e ⟨hwb, hplus⟩

theorem renaming_files {e : σ} {source target : Text}
    (h : s.renaming disk.env ctx msg = some (e, source, target)) :
    disk.files e = disk.files s.world.env := by
  unfold Session.renaming at h
  split at h
  · obtain ⟨⟨e₁, src⟩, hsource, h⟩ := Option.bind_eq_some_iff.mp h
    obtain ⟨dstPath, -, h⟩ := Option.bind_eq_some_iff.mp h
    obtain ⟨⟨e₂, dst⟩, htarget, h⟩ := Option.map_eq_some_iff.mp h
    cases h
    exact (files_of_resolvedIn (w := { s.world with env := e₁ }) htarget).trans
      (files_of_resolvedIn hsource)
  · cases h

/-- A renaming loses the file that it replaces. -/
theorem keeps_renamed_iff (e : σ) (source target : Text) :
    (disk.files e).Keeps (disk.files (disk.env.answer e (.rename source target)).2)
        (disk.renamed (disk.files e)
          (if (disk.env.answer e (.rename source target)).1 = true then some (source, target)
            else none)) ↔
      ((disk.env.answer e (.rename source target)).1 = true →
        ∀ a b inode, disk.locate (disk.files e) source = some a →
          disk.locate (disk.files e) target = some b →
            (disk.files e).entry b = some (.file inode) →
              (disk.files e).entry a = some (.file inode)) := by
  have heffect := disk.rename e source target
  cases hdone : (disk.env.answer e (.rename source target)).1 with
  | false =>
      have hafter : disk.files (disk.env.answer e (.rename source target)).2 = disk.files e := by
        simpa [Effective, hdone] using heffect
      rw [hafter]
      exact iff_of_true FileSystem.Keeps.refl fun h => by cases h
  | true =>
      simp only [Effective, hdone, if_true] at heffect
      obtain ⟨a, ha, heffect⟩ := Option.bind_eq_some_iff.mp heffect
      obtain ⟨b, hb, hrename⟩ := Option.bind_eq_some_iff.mp heffect
      simp only [if_true, Disk.renamed, ha, hb, FileSystem.keeps_rename_iff hrename]
      constructor
      · rintro hkeeps - a' b' inode ⟨⟩ ⟨⟩
        exact hkeeps inode
      · exact fun h inode => h trivial a b inode rfl rfl

/-- A RENAME loses something exactly when it replaces a file. -/
theorem noLoss_rename_iff (htype : msg.type = .rename) :
    NoLoss disk ctx s msg ↔ ¬ Overwrites disk ctx s msg := by
  unfold NoLoss
  cases hrenaming : s.renaming disk.env ctx msg with
  | none =>
      obtain ⟨hsame, hnone⟩ := rename_not_served htype hrenaming
      simp only [hsame, hnone]
      apply iff_of_true FileSystem.Keeps.refl
      rintro ⟨-, e, source, target, a, b, inode, h, -⟩
      simp [hrenaming] at h
  | some found =>
      obtain ⟨e, source, target⟩ := found
      obtain ⟨hafter, hok⟩ := rename_served htype hrenaming
      have hfiles := renaming_files hrenaming
      simp only [hafter, hok, ← hfiles]
      apply (keeps_renamed_iff e source target).trans
      constructor
      · rintro hkeeps ⟨-, e', source', target', a, b, inode, h, hdone, ha, hb, hentry, hne⟩
        rw [hrenaming] at h
        cases h
        rw [← hfiles] at ha hb hentry hne
        exact hne (hkeeps hdone a b inode ha hb hentry)
      · intro hnot hdone a b inode ha hb hentry
        by_contra hne
        rw [hfiles] at ha hb hentry hne
        exact hnot ⟨htype, e, source, target, a, b, inode, hrenaming, hdone, ha, hb, hentry, hne⟩

end Exact

/-- Silent loss of data in SFTP. A message that is no WRITE, REMOVE, RMDIR
or OPEN with TRUNC loses something exactly when it is an OPEN that
truncates a file all the same or a RENAME that replaces one. -/
theorem no_data_loss_iff (disk : Disk σ) (ctx : SftpContext) (s : Session σ)
    (msg : SftpClientMessage) (htype : msg.type ∉ [.write, .remove, .rmdir])
    (htrunc : msg.type = .open → msg.flags &&& OpenFlags.trunc = 0) :
    NoLoss disk ctx s msg ↔ ¬ Truncates disk ctx s msg ∧ ¬ Overwrites disk ctx s msg := by
  by_cases hopen : msg.type = .open
  · have hno : ¬ Overwrites disk ctx s msg := fun h =>
      absurd (hopen.symm.trans h.1) (by decide)
    rw [noLoss_open_iff hopen (htrunc hopen), and_iff_left hno]
  · have hnotrunc : ¬ Truncates disk ctx s msg := fun h => hopen h.1
    rw [and_iff_right hnotrunc]
    by_cases hrename : msg.type = .rename
    · exact noLoss_rename_iff hrename
    · refine iff_of_true (noLoss_of_gentle (processSftp_gentle ?_)) fun h => hrename h.1
      cases h : msg.type <;> simp_all [MessageType.changes]

theorem no_data_loss_iff_append :
    NoLoss bobDisk bobContext (Session.start bobFiles)
      { type := .open, filename := "notes", flags := OpenFlags.write ||| OpenFlags.append } :=
  (no_data_loss_iff bobDisk bobContext _ _ (by decide) fun _ => by decide).mpr
    ⟨fun h => absurd h.2.2.1 (by decide), fun h => absurd h.1 (by decide)⟩

/-- OPEN of bob's notes with WRITE and CREAT leaves them empty. -/
theorem open_loses_data :
    ¬ ∀ (disk : Disk Files) (ctx : SftpContext) (s : Session Files) (msg : SftpClientMessage),
      msg.type ∉ [.write, .remove, .rmdir] →
        (msg.type = .open → msg.flags &&& OpenFlags.trunc = 0) → NoLoss disk ctx s msg := by
  intro h
  have hkept := h bobDisk bobContext (Session.start bobFiles)
    { type := .open, filename := "notes", flags := OpenFlags.write ||| OpenFlags.creat }
    (by decide) fun _ => by decide
  refine (noLoss_open_iff rfl (by decide)).mp hkept ⟨rfl, by decide, by decide, by decide,
    by decide, bobFiles, "/srv/bob/notes", ["srv", "bob", "notes"], 0, rfl, ?_, rfl, rfl, ?_⟩
  · exact Option.isSome_iff_ne_none.mp (by decide +kernel)
  · change "keep".toUTF8.toList ≠ []
    decide +kernel

end MockServices.Sftp
