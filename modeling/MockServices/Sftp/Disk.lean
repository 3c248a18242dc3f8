import MockServices.Foundations.FileSystem
import MockServices.Sftp.Containment

/-!
# The file system under the SFTP handlers

An environment whose calls act on a file system. Where a path leads, when
a call fails and what it answers is left to the environment, and so is
what WRITE, REMOVE and RMDIR do; what the other calls do when they succeed
is not. Handlers that make no changing call leave the file system as it
is, and a session without the write permission makes none.
-/

namespace MockServices.Sftp

open Foundations Foundations.Program

abbrev Files := FileSystem Text UInt8

/-- What `fopen` does to the file system when it succeeds. -/
def OpenMode.open (mode : OpenMode) (files : Files) (path : List Text) : Option Files :=
  match mode with
  | .rb => some files
  | .rbPlus => (files.fileAt path).map fun _ => files
  | .ab | .abPlus => (files.openOrCreate path).map Prod.snd
  | .wb | .wbPlus => (files.openTruncated path).map Prod.snd

/-- The calls that may change the file system. -/
def OsCall.changes : OsCall → Bool
  | .fopen _ mode => mode ≠ .rb
  | .fwrite _ _ | .mkdir _ | .rmdir _ | .unlink _ | .rename _ _ => true
  | _ => false

/-- A call that has succeeded has its effect, and one that has failed has none. -/
def Effective (done : Bool) (effect : Option Files) (before after : Files) : Prop :=
  if done = true then effect = some after else after = before

/-- `follow` is where a path leads, and `locate` the entry that it names
when the last component is not followed. -/
structure Disk (σ : Type) where
  env : Environment σ
  files : σ → Files
  follow : Files → Text → Option (List Text)
  locate : Files → Text → Option (List Text)
  quiet : ∀ s call, call.changes = false → files (env.answer s call).2 = files s
  fopen : ∀ s path mode, Effective (env.answer s (.fopen path mode)).1.isSome
    ((follow (files s) path).bind (mode.open (files s)))
    (files s) (files (env.answer s (.fopen path mode)).2)
  mkdir : ∀ s path, Effective (env.answer s (.mkdir path)).1
    ((locate (files s) path).bind (files s).mkdir)
    (files s) (files (env.answer s (.mkdir path)).2)
  rename : ∀ s source target, Effective (env.answer s (.rename source target)).1
    ((locate (files s) source).bind fun a =>
      (locate (files s) target).bind fun b => (files s).rename a b)
    (files s) (files (env.answer s (.rename source target)).2)

section Keeping

variable {σ : Type} {disk : Disk σ} {ctx : SftpContext} {msg : SftpClientMessage} {α : Type}

def Call.keepsFiles : Call → Prop
  | .os c => c.changes = false
  | _ => True

theorem keepsFiles_housekeeping : Housekeeping Call.keepsFiles := by
  constructor <;> simp [Call.keepsFiles, OsCall.changes]

theorem keepsFiles_handleCalls : HandleCalls Call.keepsFiles := by
  constructor <;> simp [Call.keepsFiles, OsCall.changes]

abbrev MakesNoChange (p : Handler α) : Prop := Makes (fun _ _ => True) Call.keepsFiles p

theorem perform_files {w w' : World σ} {c : Call} {answer : c.Answer} (hc : c.keepsFiles)
    (h : perform disk.env w c = .ok (answer, w')) : disk.files w'.env = disk.files w.env := by
  rw [env_of_perform h]
  cases c with
  | os c => exact disk.quiet w.env c hc
  | _ => rfl

/-- A program that makes no changing call leaves the file system as it is. -/
theorem MakesNoChange.files {p : Handler α} (hp : MakesNoChange p) (w : World σ) :
    disk.files (p.execute (perform disk.env) w).world.env = disk.files w.env :=
  (hp.invariant (I := fun w' => disk.files w'.env = disk.files w.env)
    (fun _ _ _ _ hw hc h => ⟨trivial, (perform_files hc h).trans hw⟩) rfl).2

/-- The messages whose handlers make changing calls. -/
def MessageType.changes : MessageType → Bool
  | .open | .write | .mkdir | .rmdir | .remove | .rename => true
  | _ => false

/-- Without WRITE, CREAT and TRUNC a file is opened for reading. -/
theorem sftpFlagsToMode_rb {flags : OpenFlags}
    (h : flags &&& (OpenFlags.write ||| OpenFlags.creat ||| OpenFlags.trunc) = 0) :
    (sftpFlagsToMode flags).1 = .rb := by
  have hwrite : flags &&& OpenFlags.write = 0 := by
    have hpart : OpenFlags.write =
        (OpenFlags.write ||| OpenFlags.creat ||| OpenFlags.trunc) &&& OpenFlags.write := by decide
    rw [hpart, ← BitVec.and_assoc, h]
    decide
  have hmasked : flags &&& (OpenFlags.read ||| OpenFlags.write) &&& OpenFlags.write = 0 := by
    have hpart : (OpenFlags.read ||| OpenFlags.write) &&& OpenFlags.write = OpenFlags.write := by
      decide
    rw [BitVec.and_assoc, hpart, hwrite]
  unfold sftpFlagsToMode
  dsimp only
  split
  · rfl
  · split
    · next hw =>
        rw [hw] at hmasked
        exact absurd hmasked (by decide)
    · split
      · next hrw =>
          rw [hrw] at hmasked
          exact absurd hmasked (by decide)
      · rfl

theorem processSftp_makesNoChange (h : canWrite ctx.perm = false ∨ msg.type.changes = false) :
    MakesNoChange (processSftp ctx msg) := by
  have hk : Housekeeping Call.keepsFiles := keepsFiles_housekeeping
  have hh : HandleCalls Call.keepsFiles := keepsFiles_handleCalls
  -- A message that would change something is refused.
  have hnot : ∀ {P : Prop}, msg.type.changes = true → canWrite ctx.perm = true → P := by
    intro P htype hwrite
    rcases h with h | h
    · simp [h] at hwrite
    · simp [h] at htype
  unfold processSftp
  cases htype : msg.type with
  | «open» =>
      have hdenied := h.resolve_right (by simp [htype, MessageType.changes])
      refine makes_sftpDoOpen hk hh fun full hopen _ => ⟨?_, fun _ _ => ⟨trivial, rfl⟩⟩
      have hflags :
          msg.flags &&& (OpenFlags.write ||| OpenFlags.creat ||| OpenFlags.trunc) = 0 := by
        simp [openDenied, hdenied] at hopen
        exact hopen.1
      simp [Call.keepsFiles, OsCall.changes, sftpFlagsToMode_rb hflags]
  | close =>
      exact makes_sftpDoClose hk trivial (fun _ _ => trivial) (fun _ => trivial)
        (fun _ => trivial) (fun _ => trivial) (fun _ _ _ _ _ _ => rfl) fun _ => rfl
  | read =>
      exact makes_withFile hk (fun _ => trivial) fun _ _ _ _ =>
        makes_seekFirst hk (fun _ _ _ => rfl) fun _ _ =>
          makes_readFrom hk (fun _ => rfl) fun _ _ _ => rfl
  | write => exact makes_sftpDoWrite hk fun hwrite => hnot (by rw [htype]; rfl) hwrite
  | opendir => exact makes_sftpDoOpendir hk hh fun _ _ _ => 
      ⟨rfl, trivial, fun _ _ => ⟨trivial, rfl⟩⟩
  | readdir =>
      exact makes_withDir hk (fun _ => trivial) fun _ _ _ =>
        makes_replyEntry hk rfl (fun _ => rfl) (fun _ => rfl) fun _ _ => rfl
  | stat | lstat => exact makes_sftpDoStat hk (fun _ _ => rfl) fun _ => rfl
  | fstat =>
      exact makes_withFile hk (fun _ => trivial) fun _ _ _ _ =>
        makes_replyFstat hk rfl fun _ => rfl
  | setstat => exact makes_sftpDoSetstat hk
  | fsetstat => exact makes_sftpDoFsetstat hk
  | mkdir => exact makes_sftpDoMkdir hk fun _ hwrite _ => hnot (by rw [htype]; rfl) hwrite
  | rmdir => exact makes_sftpDoRmdir hk fun _ hwrite _ => hnot (by rw [htype]; rfl) hwrite
  | remove => exact makes_sftpDoRemove hk fun _ hwrite _ => hnot (by rw [htype]; rfl) hwrite
  | rename => exact makes_sftpDoRename hk fun _ _ _ hwrite _ _ _ => hnot (by rw [htype]; rfl) hwrite
  | realpath => exact makes_sftpDoRealpath hk fun _ _ _ => rfl
  | other => exact makes_replyStatus hk _ _

theorem serve_files (h : canWrite ctx.perm = false ∨ msg.type.changes = false) (s : Session σ) :
    disk.files (s.serve disk.env ctx msg).world.env = disk.files s.world.env :=
  (processSftp_makesNoChange h).files s.world

end Keeping

/-- The write permission frame of SFTP: a session without the write
permission leaves the file system as it is, whatever messages it sends. -/
theorem write_permission_frame {σ : Type} (disk : Disk σ) (ctx : SftpContext)
    (hperm : canWrite ctx.perm = false) (s t : Session σ) (msgs : List SftpClientMessage)
    (hrun : run (step disk.env ctx) s msgs = some t) :
    disk.files t.world.env = disk.files s.world.env := by
  refine run_invariant (I := fun u : Session σ => disk.files u.world.env = disk.files s.world.env)
    (fun u msg v hu hstep => ?_) rfl hrun
  obtain ⟨-, rfl⟩ := step_eq_some_iff.mp hstep
  exact (serve_files (Or.inl hperm) u).trans hu

/-! ## A system in which every call succeeds that can -/

theorem nothing_written (fp : FilePtr) (data : Bytes) :
    0 ≤ data.length ∧ (fp.mode.writable = false → 0 = 0) := by
  simp

noncomputable def plainAnswer (realpath : Realpath) (files : Files) :
    (call : OsCall) → call.Answer × Files
  | .fopen path mode =>
      match mode.open files (denoted path) with
      | some after => (some 0, after)
      | none => (none, files)
  | .mkdir path =>
      match files.mkdir (denoted path) with
      | some after => (true, after)
      | none => (false, files)
  | .rename source target =>
      match files.rename (denoted source) (denoted target) with
      | some after => (true, after)
      | none => (false, files)
  | .unlink path =>
      match files.unlink (denoted path) with
      | some after => (true, after)
      | none => (false, files)
  | .rmdir path =>
      match files.rmdir (denoted path) with
      | some after => (true, after)
      | none => (false, files)
  -- No space is left for data.
  | .fwrite fp data => (⟨0, nothing_written fp data⟩, files)
  | call => (grantingAnswer realpath [] [] call, files)

/-- There are no symbolic links, and `realpath` is given. -/
noncomputable def plainDisk (realpath : Realpath) : Disk Files where
  env := ⟨plainAnswer realpath, SlotChoice.first 256 ObjectId⟩
  files := id
  follow _ path := some (denoted path)
  locate _ path := some (denoted path)
  quiet files call h := by
    cases call with
    | fopen path mode =>
        obtain rfl : mode = .rb := by simpa [OsCall.changes] using h
        rfl
    | fwrite | mkdir | rmdir | unlink | rename => cases h
    | _ => rfl
  fopen files path mode := by
    simp only [Effective, plainAnswer, Option.bind_some, id]
    split <;> simp_all
  mkdir files path := by
    simp only [Effective, plainAnswer, Option.bind_some, id]
    split <;> simp_all
  rename files source target := by
    simp only [Effective, plainAnswer, Option.bind_some, id]
    split <;> simp_all

/-- The directory of bob's files, with one file in it. -/
def bobFiles : Files where
  entry path :=
    if path = [] ∨ path = ["srv"] ∨ path = ["srv", "bob"] then some .directory
    else if path = ["srv", "bob", "notes"] then some (.file 0)
    else none
  content _ := "keep".toUTF8.toList
  inodes := 1
  nested := by
    intro path name h
    have hmem : path ++ [name] = ["srv"] ∨ path ++ [name] = ["srv", "bob"] ∨
        path ++ [name] = ["srv", "bob", "notes"] := by
      by_contra hnone
      simp_all
    have hpath : path = [] ∨ path = [txt "srv"] ∨ path = [txt "srv", txt "bob"] := by
      rcases hmem with hmem | hmem | hmem
      · exact Or.inl (by simpa using congrArg List.dropLast hmem)
      · exact Or.inr (Or.inl (by simpa using congrArg List.dropLast hmem))
      · exact Or.inr (Or.inr (by simpa using congrArg List.dropLast hmem))
    rcases hpath with rfl | rfl | rfl <;> rfl
  known := by
    intro path inode h
    split at h
    · cases h
    · split at h
      · cases h
        exact Nat.zero_lt_one
      · cases h

noncomputable def bobDisk : Disk Files :=
  plainDisk (treeRealpath [["srv"], ["srv", "bob"], ["srv", "bob", "notes"]])

def guestContext : SftpContext := { bobContext with perm := SftpPermission.read }

def guestMessages : List SftpClientMessage :=
  [{ type := .open, filename := "notes", flags := OpenFlags.read },
    { type := .open, filename := "notes", flags := OpenFlags.write ||| OpenFlags.creat },
    { type := .write, handle := some ⟨0, by decide⟩, data := [1] },
    { type := .mkdir, filename := "d" }, { type := .remove, filename := "notes" },
    { type := .rename, filename := "notes", submessage := some (txt "old") }]

theorem write_permission_frame_guest :
    ∃ t, run (step bobDisk.env guestContext) (Session.start bobFiles) guestMessages = some t ∧
      bobDisk.files t.world.env = bobFiles := by
  have hserved :
      (run (step bobDisk.env guestContext) (Session.start bobFiles) guestMessages).isSome := by
    decide +kernel
  obtain ⟨t, hrun⟩ := Option.isSome_iff_exists.mp hserved
  exact ⟨t, hrun, write_permission_frame bobDisk guestContext (by decide) _ t _ hrun⟩

end MockServices.Sftp
