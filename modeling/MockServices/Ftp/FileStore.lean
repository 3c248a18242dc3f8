import MockServices.Foundations.StoredContents
import MockServices.Ftp.Frame
import MockServices.Ftp.TransferCompleteness

/-!
# What RETR returns

For the client of one connection the server is a map from names to
contents: a STOR that is answered 226 stores what was sent to it, a DELE
that is answered 250 removes it, and a RETR that is answered 226 returns
what is stored. The map is read off the replies alone. The file system
below it is any without hard links, changed by this connection only.
-/

namespace MockServices.Ftp

open Foundations

/-- A file system without hard links. -/
abbrev Tree := {files : FileSystem Text Char // files.Unshared}

/-- The calls answer as the file system has it: one that succeeds could, and
a file is read as it is. Each of them may fail for reasons of its own. -/
structure Truthful (os : Os) (name : Text → Option (List Text)) (files : FileSystem Text Char) :
    Prop where
  ifstream : ∀ path content, os.ifstream path = some content →
    ∃ place, name path = some place ∧ files.stored place = some content
  ofstream : ∀ path, os.ofstream path = true →
    ∃ place opened, name path = some place ∧ files.openTruncated place = some opened
  unlink : ∀ path, os.unlink path = true →
    ∃ place after, name path = some place ∧ files.unlink place = some after
  mkdir : ∀ path, os.mkdir path = true →
    ∃ place after, name path = some place ∧ files.mkdir place = some after
  rmdir : ∀ path, os.rmdir path = true →
    ∃ place after, name path = some place ∧ files.rmdir place = some after

def fileDeleted : Text := "250 File deleted\r\n"

/-- What the client makes of the replies to its line. -/
def noted (name : Text → Option (List Text)) (client : Client) (line : Text) (os : Os)
    (effects : List Effect) (store : List Text → Option Text) : List Text → Option Text :=
  match name (resolve client.phyRoot client.cwd (lineArg line)) with
  | none => store
  | some place =>
      if lineVerb line = some .stor ∧ .reply transferComplete ∈ effects then
        Function.update store place (some (receivedBlocks os.recv).flatten)
      else if lineVerb line = some .dele ∧ .reply fileDeleted ∈ effects then
        Function.update store place none
      else store

/-- A connection, its file system, and what its client knows to be stored. -/
structure Kept where
  mounted : Mounted
  store : List Text → Option Text

namespace Kept

def start (tmp : Text) (sock : RawSocket) (tree : Tree) : Kept :=
  ⟨Mounted.start tmp sock ⟨tree.val, none⟩, tree.val.stored⟩

abbrev client (s : Kept) : Client := s.mounted.conn.client

abbrev files (s : Kept) : FileSystem Text Char := s.mounted.disk.files

open Classical in
/-- A line is read from a connection that is open. -/
noncomputable def step (name : Text → Option (List Text)) (s : Kept) : Input → Option Kept
  | .line text os =>
      if s.client.sock ≠ none ∧ Truthful os name s.files then
        some ⟨s.mounted.next (fun _ => name) (.line text os),
          noted name s.client text os (s.mounted.conn.effects os text) s.store⟩
      else none
  | input => some { s with mounted := s.mounted.next (fun _ => name) input }

/-- A RETR that is answered 226 sends what is stored under its name. -/
def Returns (name : Text → Option (List Text)) (s : Kept) : Input → Prop
  | .line text os =>
      Truthful os name s.files → lineVerb text = some .retr →
        .reply transferComplete ∈ s.mounted.conn.effects os text →
          ∃ place, name (resolve s.client.phyRoot s.client.cwd (lineArg text)) = some place ∧
            s.store place = some ((s.mounted.conn.effects os text).filterMap Effect.sent).flatten
  | _ => True

end Kept

/-! ## The effects of one line -/

section Effects

variable {os : Os} {name : Text → Option (List Text)} {disk : Disk} {server : Server}
  {client : Client} {line : Text} {e : Effect} {effects : List Effect}

/-- A call on directories, or none that changes anything. -/
def Effect.Mild (e : Effect) : Prop :=
  e.changes = false ∨ ∃ path, e = .mkdir path ∨ e = .rmdir path

/-- The file systems that the map does not tell apart. -/
structure Alike (files files' : FileSystem Text Char) : Prop where
  unshared : files'.Unshared
  stored : files'.stored = files.stored

theorem change_of_succeeded {path : Text} {place : List Text}
    {call : FileSystem Text Char → List Text → Option (FileSystem Text Char)}
    {after : FileSystem Text Char} (hname : name path = some place)
    (hcall : call disk.files place = some after) :
    (disk.change (fun _ => name) path call).files = after := by
  simp [Disk.change, hname, hcall]

/-- Directories come and go without a trace. -/
theorem alike_act (htruthful : Truthful os name disk.files) (hshared : disk.files.Unshared)
    (he : e.Mild) : Alike disk.files (Effect.act os (fun _ => name) disk e).files := by
  rcases he with hquiet | ⟨path, rfl | rfl⟩
  · rw [act_of_not_changes hquiet]
    exact ⟨hshared, rfl⟩
  · by_cases hdone : os.mkdir path = true
    · obtain ⟨place, after, hname, hcall⟩ := htruthful.mkdir path hdone
      have hfiles : (Effect.act os (fun _ => name) disk (.mkdir path)).files = after := by
        rw [Effect.act, if_pos hdone, change_of_succeeded hname hcall]
      rw [hfiles]
      exact ⟨FileSystem.unshared_mkdir hshared hcall, FileSystem.stored_mkdir hcall⟩
    · rw [Effect.act, if_neg hdone]
      exact ⟨hshared, rfl⟩
  · by_cases hdone : os.rmdir path = true
    · obtain ⟨place, after, hname, hcall⟩ := htruthful.rmdir path hdone
      have hfiles : (Effect.act os (fun _ => name) disk (.rmdir path)).files = after := by
        rw [Effect.act, if_pos hdone, change_of_succeeded hname hcall]
      rw [hfiles]
      exact ⟨FileSystem.unshared_rmdir hshared hcall, FileSystem.stored_rmdir hcall⟩
    · rw [Effect.act, if_neg hdone]
      exact ⟨hshared, rfl⟩

/-- Apart from STOR and DELE, a line makes one mild call at most. -/
theorem after_of_dispatched {lookup : Lookup} {server' : Server} {client' : Client}
    (h : Dispatched os server client line server' client' effects)
    (hstor : lineVerb line ≠ some .stor) (hdele : lineVerb line ≠ some .dele) :
    ∃ e : Effect, e.Mild ∧ disk.after os lookup effects = e.act os lookup disk := by
  have hquiet (hall : ∀ e ∈ effects, e.Quiet) :
      ∃ e : Effect, e.Mild ∧ disk.after os lookup effects = e.act os lookup disk :=
    ⟨.reply [], Or.inl rfl, after_of_not_changes fun e he => (hall e he).1⟩
  cases h with
  | answered replies h | named user replies _ _ _ h | admitted user replies _ _ _ h
  | moved cwd replies _ _ _ h => exact hquiet fun e he => h.quiet he
  | entered user replies _ _ _ _ _ h =>
      have hreplies : ∀ d : Disk, d.after os lookup replies = d :=
        fun d => after_of_not_changes fun e he => (h.quiet he).1
      rcases accountRoot_cases server.tmp user.root with hroot | hroot
      · exact ⟨.reply [], Or.inl rfl, by rw [hroot]; exact hreplies disk⟩
      · refine ⟨.mkdir (accountRoot server.tmp user.root).1, Or.inr ⟨_, Or.inl rfl⟩, ?_⟩
        rw [hroot, after_append, hreplies]
        rfl
  | gaveUp opened replies _ _ h =>
      refine hquiet fun e he => ?_
      simp only [List.mem_append] at he
      rcases he with ((he | he) | he) | he
      · exact quiet_of_mem_close he
      · exact quiet_of_mem_open he
      · exact quiet_of_mem_close he
      · exact h.quiet he
  | listening dataSock replies _ _ h =>
      refine hquiet fun e he => ?_
      simp only [List.mem_append, List.mem_cons] at he
      rcases he with he | rfl | he
      · exact quiet_of_mem_close he
      · exact ⟨rfl, by simp⟩
      · exact h.quiet he
  | transferred transfer path hverb _ _ =>
      refine ⟨.reply [], Or.inl rfl, after_of_not_changes fun e he => ?_⟩
      rcases mem_withData he with hquiet | htransfer
      · exact hquiet.1
      · by_contra hchanges
        obtain rfl := (mem_transfer htransfer).1 (Bool.eq_true_of_not_eq_false hchanges)
        exact hstor (lineVerb_of_transfer hverb)
  | called verb path call replies hverb _ _ hcall h =>
      refine ⟨call, Or.inr ⟨path, ?_⟩, ?_⟩
      · cases verb <;> cases hcall
        · exact absurd hverb hdele
        · exact Or.inr rfl
        · exact Or.inl rfl
      · exact after_of_not_changes fun e he => (h.quiet he).1
  | quit replies _ h =>
      exact hquiet fun e he => (List.mem_append.mp he).elim h.quiet quiet_of_mem_closeClient

/-- The replies to a command on a path that does not come to its path. -/
def refusals (invalid : Text) : List Text :=
  [txt "530 Please login with USER and PASS\r\n", txt "550 Permission denied\r\n",
    txt "501 Syntax error\r\n", invalid]

/-- The command on a path is refused, or it goes on with the path. -/
theorem withPath_cases (client : Client) (need : FtpPermission) (emptyOk : Bool)
    (invalid arg : Text) (next : Text → Outcome) :
    (∃ msg ∈ refusals invalid,
      withPath client need emptyOk invalid arg next = (client, ftpSend client msg)) ∨
      withPath client need emptyOk invalid arg next =
        next (resolve client.phyRoot client.cwd arg) := by
  simp only [withPath, requireAuth, requirePerm]
  split
  · split
    · split
      · exact Or.inl ⟨_, by simp [refusals], rfl⟩
      · split
        · exact Or.inl ⟨_, by simp [refusals], rfl⟩
        · exact Or.inr rfl
    · exact Or.inl ⟨_, by simp [refusals], rfl⟩
  · exact Or.inl ⟨_, by simp [refusals], rfl⟩

/-- A transfer is not run, or its effects stand among quiet ones and 226
follows when it says so. -/
theorem withData_cases (os : Os) (client : Client) (transfer : Transfer) (path : Text) :
    ((∀ e ∈ (withData os client (transfer.run os path)).2, e.Quiet) ∧
      .reply transferComplete ∉ (withData os client (transfer.run os path)).2) ∨
      ∃ before after : List Effect,
        (withData os client (transfer.run os path)).2 =
          before ++ (transfer.run os path).1 ++ after ∧
        (∀ e ∈ before ++ after, e.Quiet) ∧
        (.reply transferComplete ∈ (withData os client (transfer.run os path)).2 ↔
          client.sock ≠ none ∧ (transfer.run os path).2 = transferComplete) := by
  have hreply (client : Client) (msg : Text) : ∀ e ∈ ftpSend client msg, e.Quiet :=
    fun e he => (onlyReplies_ftpSend client msg).quiet he
  have hopening : transferComplete ≠ txt "150 Opening data connection\r\n" := by decide
  have hrefused : transferComplete ≠ txt "425 Can't open data connection\r\n" := by decide
  by_cases hlistening : client.pasv = true ∧ client.dataSock ≠ none
  · obtain ⟨listener, hlistener⟩ := Option.ne_none_iff_exists'.mp hlistening.2
    rw [withData_listening os _ hlistening.1 hlistener]
    cases haccept : os.accept with
    | none =>
        refine Or.inl ⟨?_, ?_⟩
        · intro e he
          simp only [List.mem_append] at he
          rcases he with he | he | he
          · exact hreply _ _ e he
          · exact quiet_of_mem_close he
          · exact hreply _ _ e he
        · simp only [List.mem_append, mem_ftpSend, reply_notMem_closePasv, false_or, not_or,
            not_and]
          exact ⟨fun _ => hopening, fun _ => hrefused⟩
    | some dataSock =>
        refine Or.inr ⟨ftpSend client "150 Opening data connection\r\n" ++
          .openSocket dataSock :: (closePasv client).2,
          .closeSocket dataSock :: ftpSend client (transfer.run os path).2, by simp, ?_, ?_⟩
        · intro e he
          simp only [List.mem_append, List.mem_cons] at he
          rcases he with (he | rfl | he) | rfl | he
          · exact hreply _ _ e he
          · exact ⟨rfl, by simp⟩
          · exact quiet_of_mem_close he
          · exact ⟨rfl, by simp⟩
          · exact hreply _ _ e he
        · simp only [List.mem_append, List.mem_cons, mem_ftpSend, reply_notMem_closePasv,
            reply_notMem_run, reduceCtorEq, false_or]
          constructor
          · rintro (⟨-, hmsg⟩ | ⟨hsock, hmsg⟩)
            · exact absurd hmsg hopening
            · exact ⟨hsock, hmsg.symm⟩
          · rintro ⟨hsock, hmsg⟩
            exact Or.inr ⟨hsock, hmsg.symm⟩
  · rw [withData_idle os _ hlistening]
    refine Or.inl ⟨?_, ?_⟩
    · intro e he
      exact (List.mem_append.mp he).elim (hreply _ _ e) (hreply _ _ e)
    · simp only [List.mem_append, mem_ftpSend, not_or, not_and]
      exact ⟨fun _ => hopening, fun _ => hrefused⟩

end Effects

/-! ## STOR and DELE -/

section Changes

variable {os : Os} {lookup : Lookup} {name : Text → Option (List Text)} {disk : Disk}
  {path : Text} {inode : ℕ}

/-- The blocks of an upload are written one after the other. -/
theorem after_writes (blocks : List Text) (h : disk.writing = some inode) :
    disk.after os lookup (blocks.map .fileWrite) =
      { disk with
        files := disk.files.setContent inode (disk.files.content inode ++ blocks.flatten) } := by
  induction blocks generalizing disk with
  | nil =>
      have hsame : disk.files.setContent inode (disk.files.content inode) = disk.files := by
        rw [FileSystem.setContent, Function.update_eq_self]
      rw [List.flatten_nil, List.append_nil, hsame]
      rfl
  | cons block blocks ih =>
      have hfirst : Effect.act os lookup disk (.fileWrite block) =
          { disk with
            files := disk.files.setContent inode (disk.files.content inode ++ block) } := by
        simp only [Effect.act, h]
      rw [List.map_cons, Disk.after, List.foldl_cons, hfirst, ← Disk.after, ih]
      · simp [FileSystem.setContent, Function.update_idem, List.append_assoc]
      · exact h

/-- A file that cannot be opened is left alone, and the answer is not 226. -/
theorem storTransfer_refused (h : ¬ os.ofstream path = true) :
    (disk.after os lookup (storTransfer os path).1).files = disk.files ∧
      (storTransfer os path).2 ≠ transferComplete := by
  have hrefused : storTransfer os path =
      ([Effect.ofstream path], txt "550 Cannot create file\r\n") := if_neg h
  have hfiles : (Effect.act os lookup disk (.ofstream path)).files = disk.files := by
    rw [Effect.act, if_neg h]
  have hother : txt "550 Cannot create file\r\n" ≠ transferComplete := by decide
  rw [hrefused]
  exact ⟨hfiles, hother⟩

/-- What an upload leaves is the file that was sent. -/
theorem after_storTransfer (htruthful : Truthful os name disk.files)
    (hshared : disk.files.Unshared) (hopened : os.ofstream path = true) :
    ∃ place, name path = some place ∧
      (disk.after os (fun _ => name) (storTransfer os path).1).files.Unshared ∧
      (disk.after os (fun _ => name) (storTransfer os path).1).files.stored =
        Function.update disk.files.stored place (some (receivedBlocks os.recv).flatten) := by
  obtain ⟨place, ⟨inode, files⟩, hname, hopen⟩ := htruthful.ofstream path hopened
  have hfile := FileSystem.entry_of_openTruncated hopen
  have hfresh := FileSystem.unshared_openTruncated hshared hopen
  have hempty := FileSystem.stored_openTruncated hshared hopen
  have hcontent : files.content inode = [] := by
    have hstored := congrFun hempty place
    rwa [FileSystem.stored_eq_some hfile, Function.update_self, Option.some.injEq] at hstored
  have hact : Effect.act os (fun _ => name) disk (.ofstream path) = ⟨files, some inode⟩ := by
    simp [Effect.act, hopened, hname, hopen]
  have hafter : disk.after os (fun _ => name) (storTransfer os path).1 =
      ⟨files.setContent inode (receivedBlocks os.recv).flatten, some inode⟩ := by
    simp only [storTransfer, hopened, if_true]
    rw [Disk.after, List.foldl_cons, hact, ← Disk.after, after_writes _ rfl, hcontent,
      List.nil_append]
  refine ⟨place, hname, ?_, ?_⟩
  · rw [hafter]
    exact hfresh
  · rw [hafter, FileSystem.stored_setContent hfresh hfile, hempty, Function.update_idem]

variable {server : Server} {client : Client} {line : Text}

theorem noted_of_not_answered {effects : List Effect} {store : List Text → Option Text}
    (hstor : ¬ (lineVerb line = some .stor ∧ .reply transferComplete ∈ effects))
    (hdele : ¬ (lineVerb line = some .dele ∧ .reply fileDeleted ∈ effects)) :
    noted name client line os effects store = store := by
  unfold noted
  split
  · rfl
  · rw [if_neg hstor, if_neg hdele]

/-- The file system after the effects of a line is what the client notes. -/
def StoreAgrees (name : Text → Option (List Text)) (os : Os) (disk : Disk) (client : Client)
    (line : Text) (effects : List Effect) : Prop :=
  (disk.after os (fun _ => name) effects).files.Unshared ∧
    (disk.after os (fun _ => name) effects).files.stored =
      noted name client line os effects disk.files.stored

theorem storeAgrees_of_unchanged {effects : List Effect} (hshared : disk.files.Unshared)
    (hfiles : (disk.after os (fun _ => name) effects).files = disk.files)
    (hstor : ¬ (lineVerb line = some .stor ∧ .reply transferComplete ∈ effects))
    (hdele : ¬ (lineVerb line = some .dele ∧ .reply fileDeleted ∈ effects)) :
    StoreAgrees name os disk client line effects := by
  rw [StoreAgrees, hfiles, noted_of_not_answered hstor hdele]
  exact ⟨hshared, rfl⟩

theorem files_after_quiet {effects : List Effect} (hquiet : ∀ e ∈ effects, e.Quiet) :
    (disk.after os lookup effects).files = disk.files :=
  congrArg Disk.files (after_of_not_changes fun e he => (hquiet e he).1)

/-- A refusal is neither of the two answers. -/
theorem storeAgrees_refused {need : FtpPermission} {invalid : Text} {next : Text → Outcome}
    {msg : Text} (hshared : disk.files.Unshared)
    (hinvalid : invalid = txt "550 Invalid path\r\n" ∨ invalid = txt "550 File not found\r\n")
    (hmsg : msg ∈ refusals invalid)
    (hcmd : withPath client need false invalid (lineArg line) next =
      (client, ftpSend client msg)) :
    StoreAgrees name os disk client line
      (withPath client need false invalid (lineArg line) next).2 := by
  have hother : transferComplete ≠ msg ∧ fileDeleted ≠ msg := by
    simp only [refusals, List.mem_cons, List.not_mem_nil, or_false] at hmsg
    rcases hinvalid with rfl | rfl <;> rcases hmsg with rfl | rfl | rfl | rfl <;> decide
  rw [hcmd]
  apply storeAgrees_of_unchanged hshared
  · exact files_after_quiet fun e he => (onlyReplies_ftpSend _ _).quiet he
  · exact fun h => hother.1 (mem_ftpSend.mp h.2).2
  · exact fun h => hother.2 (mem_ftpSend.mp h.2).2

theorem storeAgrees_stor (htruthful : Truthful os name disk.files) (hshared : disk.files.Unshared)
    (hsock : client.sock ≠ none) (hverb : lineVerb line = some .stor) :
    StoreAgrees name os disk client line (dispatch os server client line).2.2 := by
  have hdele (effects : List Effect) :
      ¬ (lineVerb line = some .dele ∧ .reply fileDeleted ∈ effects) := by
    simp [hverb]
  have hdispatch : (dispatch os server client line).2 = storCmd os client (lineArg line) := by
    rw [dispatch_eq, hverb]
    rfl
  rw [hdispatch, storCmd]
  rcases withPath_cases client FtpPermission.write false "550 Invalid path\r\n" (lineArg line)
    (fun path => withData os client (storTransfer os path)) with ⟨msg, hmsg, hcmd⟩ | hcmd
  · exact storeAgrees_refused hshared (Or.inl rfl) hmsg hcmd
  · rw [hcmd]
    rcases withData_cases os client .stor (resolve client.phyRoot client.cwd (lineArg line)) with
      ⟨hquiet, hnot⟩ | ⟨before, after, heffects, hquiet, hanswer⟩
    · exact storeAgrees_of_unchanged hshared (files_after_quiet hquiet) (fun h => hnot h.2) (hdele _)
    · simp only [Transfer.run] at heffects hanswer
      have hbefore : ∀ d : Disk, d.after os (fun _ => name) before = d := fun d =>
        after_of_not_changes fun e he => (hquiet e (List.mem_append_left _ he)).1
      have hafter : ∀ d : Disk, d.after os (fun _ => name) after = d := fun d =>
        after_of_not_changes fun e he => (hquiet e (List.mem_append_right _ he)).1
      have hdisk : disk.after os (fun _ => name) (withData os client
          (storTransfer os (resolve client.phyRoot client.cwd (lineArg line)))).2 =
          disk.after os (fun _ => name)
            (storTransfer os (resolve client.phyRoot client.cwd (lineArg line))).1 := by
        rw [heffects, after_append, after_append, hbefore, hafter]
      by_cases hopened :
          os.ofstream (resolve client.phyRoot client.cwd (lineArg line)) = true
      · obtain ⟨place, hname, hunshared, hstored⟩ :=
          after_storTransfer htruthful hshared hopened
        have hreply : (storTransfer os (resolve client.phyRoot client.cwd (lineArg line))).2 =
            transferComplete := congrArg Prod.snd (if_pos hopened)
        have hdone := hanswer.mpr ⟨hsock, hreply⟩
        rw [StoreAgrees, hdisk, noted, hname]
        dsimp only
        rw [if_pos ⟨hverb, hdone⟩]
        exact ⟨hunshared, hstored⟩
      · obtain ⟨hsame, hreply⟩ := storTransfer_refused hopened
        refine storeAgrees_of_unchanged hshared ?_ ?_ (hdele _)
        · rw [hdisk, hsame]
        · exact fun h => hreply (hanswer.mp h.2).2

theorem storeAgrees_dele (htruthful : Truthful os name disk.files) (hshared : disk.files.Unshared)
    (hsock : client.sock ≠ none) (hverb : lineVerb line = some .dele) :
    StoreAgrees name os disk client line (dispatch os server client line).2.2 := by
  have hstor (effects : List Effect) :
      ¬ (lineVerb line = some .stor ∧ .reply transferComplete ∈ effects) := by
    simp [hverb]
  have hdispatch : (dispatch os server client line).2 = deleCmd os client (lineArg line) := by
    rw [dispatch_eq, hverb]
    rfl
  rw [hdispatch, deleCmd]
  rcases withPath_cases client FtpPermission.write false "550 File not found\r\n" (lineArg line)
    (fun path => callOnPath client (.unlink path) (os.unlink path) "250 File deleted\r\n"
      "550 File not found\r\n") with ⟨msg, hmsg, hcmd⟩ | hcmd
  · exact storeAgrees_refused hshared (Or.inr rfl) hmsg hcmd
  · rw [hcmd, callOnPath]
    have hreplies (msg : Text) (d : Disk) : d.after os (fun _ => name) (ftpSend client msg) = d :=
      after_of_not_changes fun e he => ((onlyReplies_ftpSend client msg).quiet he).1
    by_cases hdone : os.unlink (resolve client.phyRoot client.cwd (lineArg line)) = true
    · obtain ⟨place, files, hname, hunlink⟩ := htruthful.unlink _ hdone
      have hfiles : (disk.after os (fun _ => name)
          (.unlink (resolve client.phyRoot client.cwd (lineArg line)) ::
            ftpSend client fileDeleted)).files = files := by
        rw [Disk.after, List.foldl_cons, ← Disk.after, hreplies, Effect.act, if_pos hdone,
          change_of_succeeded hname hunlink]
      rw [if_pos hdone, StoreAgrees]
      refine ⟨hfiles ▸ FileSystem.unshared_unlink hshared hunlink, ?_⟩
      rw [noted, hname]
      dsimp only
      have hanswered : .reply fileDeleted ∈
          Effect.unlink (resolve client.phyRoot client.cwd (lineArg line)) ::
            ftpSend client fileDeleted :=
        List.mem_cons_of_mem _ (mem_ftpSend.mpr ⟨hsock, rfl⟩)
      rw [if_neg (hstor _), if_pos ⟨hverb, hanswered⟩]
      exact (congrArg FileSystem.stored hfiles).trans (FileSystem.stored_unlink hunlink)
    · rw [if_neg hdone]
      apply storeAgrees_of_unchanged hshared
      · rw [Disk.after, List.foldl_cons, ← Disk.after, hreplies, Effect.act, if_neg hdone]
      · exact hstor _
      · rintro ⟨-, hmem⟩
        rcases List.mem_cons.mp hmem with heq | hmem
        · cases heq
        · have hmsg := (mem_ftpSend.mp hmem).2
          revert hmsg
          decide

variable (server line) in
/-- Whatever the line. -/
theorem storeAgrees_line (htruthful : Truthful os name disk.files) (hshared : disk.files.Unshared)
    (hsock : client.sock ≠ none) :
    StoreAgrees name os disk client line (dispatch os server client line).2.2 := by
  by_cases hstor : lineVerb line = some .stor
  · exact storeAgrees_stor htruthful hshared hsock hstor
  · by_cases hdele : lineVerb line = some .dele
    · exact storeAgrees_dele htruthful hshared hsock hdele
    · obtain ⟨e, hmild, hafter⟩ :=
        after_of_dispatched (dispatched os server client line) hstor hdele
      have halike := alike_act htruthful hshared hmild
      rw [StoreAgrees, hafter, noted_of_not_answered (fun h => hstor h.1) (fun h => hdele h.1)]
      exact ⟨halike.unshared, halike.stored⟩

end Changes

/-! ## RETR -/

section Downloads

variable {os : Os} {name : Text → Option (List Text)} {files : FileSystem Text Char}
  {server : Server} {client : Client} {line : Text}

theorem sent_of_quiet {effects : List Effect} (hquiet : ∀ e ∈ effects, e.Quiet) :
    effects.filterMap Effect.sent = [] := by
  rw [List.filterMap_eq_nil_iff]
  intro e he
  have hsend := (hquiet e he).2
  cases e with
  | dataSend bytes => exact absurd rfl (hsend bytes)
  | _ => rfl

/-- The file goes out in blocks, and they make it up. -/
theorem sent_retrTransfer {path content : Text} (h : os.ifstream path = some content) :
    ((retrTransfer os path).1.filterMap Effect.sent).flatten = content := by
  have hsent : (retrTransfer os path).1.filterMap Effect.sent = content.toChunks 8192 := by
    simp only [retrTransfer, h]
    rw [List.filterMap_cons_none rfl, List.filterMap_map]
    exact List.filterMap_some
  rw [hsent, flatten_toChunks]

theorem retr_returns (htruthful : Truthful os name files) (hverb : lineVerb line = some .retr)
    (hdone : .reply transferComplete ∈ (dispatch os server client line).2.2) :
    ∃ place, name (resolve client.phyRoot client.cwd (lineArg line)) = some place ∧
      files.stored place =
        some ((dispatch os server client line).2.2.filterMap Effect.sent).flatten := by
  have hdispatch : (dispatch os server client line).2 = retrCmd os client (lineArg line) := by
    rw [dispatch_eq, hverb]
    rfl
  rw [hdispatch, retrCmd] at hdone ⊢
  rcases withPath_cases client FtpPermission.read false "550 File not found\r\n" (lineArg line)
    (fun path => withData os client (retrTransfer os path)) with ⟨msg, hmsg, hcmd⟩ | hcmd
  · rw [hcmd] at hdone
    rw [← (mem_ftpSend.mp hdone).2] at hmsg
    exact absurd hmsg (by decide)
  · rw [hcmd] at hdone ⊢
    rcases withData_cases os client .retr (resolve client.phyRoot client.cwd (lineArg line)) with
      ⟨-, hnot⟩ | ⟨before, after, heffects, hquiet, hanswer⟩
    · exact absurd hdone hnot
    · simp only [Transfer.run] at heffects hanswer
      have hreply := (hanswer.mp hdone).2
      cases hfile : os.ifstream (resolve client.phyRoot client.cwd (lineArg line)) with
      | none =>
          simp only [retrTransfer, hfile] at hreply
          exact absurd hreply (by decide)
      | some content =>
          obtain ⟨place, hname, hstored⟩ := htruthful.ifstream _ content hfile
          refine ⟨place, hname, hstored.trans (congrArg some ?_)⟩
          rw [heffects, List.filterMap_append, List.filterMap_append,
            sent_of_quiet fun e he => hquiet e (List.mem_append_left _ he),
            sent_of_quiet fun e he => hquiet e (List.mem_append_right _ he), List.nil_append,
            List.append_nil, sent_retrTransfer hfile]

end Downloads

/-! ## Runs -/

namespace Kept

variable {name : Text → Option (List Text)} {s s' : Kept} {input : Input}

/-- What the client knows is what the disk holds. -/
structure Sound (s : Kept) : Prop where
  unshared : s.files.Unshared
  stored : s.store = s.files.stored

theorem Sound.start (tmp : Text) (sock : RawSocket) (tree : Tree) :
    Sound (start tmp sock tree) := ⟨tree.property, rfl⟩

theorem Sound.step (h : Sound s) (hstep : step name s input = some s') : Sound s' := by
  cases input with
  | line text os =>
      simp only [Kept.step] at hstep
      split at hstep
      · next henabled =>
          cases hstep
          obtain ⟨hunshared, hstored⟩ :=
            storeAgrees_line s.mounted.conn.server text henabled.2 h.unshared
              henabled.1
          exact ⟨hunshared, by rw [h.stored]; exact hstored.symm⟩
      · cases hstep
  | addUser | addAnonymousUser | clearUsers =>
      cases hstep
      exact ⟨h.unshared, h.stored⟩

theorem Sound.returns (h : Sound s) (input : Input) : Returns name s input := by
  cases input with
  | line text os =>
      intro htruthful hverb hdone
      rw [h.stored]
      exact retr_returns htruthful hverb hdone
  | addUser | addAnonymousUser | clearUsers => trivial

end Kept

/-- Uploads are downloaded as they were sent. In every run of a connection,
with whatever answers of a file system that only this connection changes, a
RETR that is answered 226 sends exactly what the last STOR answered 226
received under the same name, with no DELE answered 250 in between. -/
theorem downloads_return_uploads (name : Text → Option (List Text)) (tmp : Text)
    (sock : RawSocket) (tree : Tree) (inputs : List Input) :
    Along (Kept.step name) (Kept.Returns name) (Kept.start tmp sock tree) inputs :=
  along_of_invariant_along (fun _ _ _ h _ hstep => h.step hstep)
    (fun _ input h _ => h.returns input)
    (Kept.Sound.start tmp sock tree) (along_of_forall (fun _ _ => trivial) _ _)

end MockServices.Ftp
