import MockServices.Foundations.FileSystem
import MockServices.Ftp.Dispatch

/-!
# What a command line leaves alone

The effects of a command act on a file system. Which of them occur is
decided by the guards of the command: the file system changes only under
the write permission, contents and listings are sent only under the read
permission, and a client that is not logged in changes nothing at all.
-/

namespace MockServices.Ftp

open Foundations

/-- The file system, and the file that STOR writes to. -/
structure Disk where
  files : FileSystem Text Char
  writing : Option ℕ := none

/-- Where the kernel finds what the text of a path names. -/
abbrev Lookup := FileSystem Text Char → Text → Option (List Text)

/-- A call on a path that has succeeded. -/
def Disk.change (disk : Disk) (lookup : Lookup) (path : Text)
    (call : FileSystem Text Char → List Text → Option (FileSystem Text Char)) : Disk :=
  { disk with files := ((lookup disk.files path).bind (call disk.files)).getD disk.files }

noncomputable def Effect.act (os : Os) (lookup : Lookup) (disk : Disk) : Effect → Disk
  | .ofstream path =>
      if os.ofstream path then
        match (lookup disk.files path).bind disk.files.openTruncated with
        | some (inode, files) => ⟨files, some inode⟩
        | none => disk
      else { disk with writing := none }
  | .fileWrite bytes =>
      match disk.writing with
      | some inode =>
          { disk with files := disk.files.setContent inode (disk.files.content inode ++ bytes) }
      | none => disk
  | .unlink path => if os.unlink path then disk.change lookup path FileSystem.unlink else disk
  | .mkdir path => if os.mkdir path then disk.change lookup path FileSystem.mkdir else disk
  | .rmdir path => if os.rmdir path then disk.change lookup path FileSystem.rmdir else disk
  | _ => disk

noncomputable def Disk.after (disk : Disk) (os : Os) (lookup : Lookup) (effects : List Effect) :
    Disk :=
  effects.foldl (Effect.act os lookup) disk

/-- The frame of one command line. -/
structure Framed (os : Os) (lookup : Lookup) (disk : Disk) (server : Server) (client : Client)
    (line : Text) (client' : Client) (effects : List Effect) : Prop where
  files : (disk.after os lookup effects).files = disk.files ∨
    (client.auth = true ∧ client.permits FtpPermission.write = true ∧
      ∃ verb ∈ [Verb.stor, .dele, .mkd, .rmd], lineVerb line = some verb) ∨
    -- The PASS that logs the client in.
    (lineVerb line = some .pass ∧ client.auth = false ∧ client'.auth = true ∧
      (disk.after os lookup effects).files =
        (disk.change lookup client'.phyRoot FileSystem.mkdir).files)
  sent : ∀ bytes, .dataSend bytes ∈ effects → client.auth = true ∧
    client.permits FtpPermission.read = true ∧
      ∃ verb ∈ [Verb.list, .retr], lineVerb line = some verb
  cwd : client'.cwd ≠ client.cwd →
    client.auth = true ∧ client.permits FtpPermission.read = true

/-! ## Effects that change nothing -/

/-- A call that may change the file system. -/
def Effect.changes : Effect → Bool
  | .ofstream _ | .fileWrite _ | .unlink _ | .mkdir _ | .rmdir _ => true
  | _ => false

section Effects

variable {os : Os} {lookup : Lookup} {disk : Disk} {e : Effect} {effects : List Effect}

theorem act_of_not_changes (h : e.changes = false) : e.act os lookup disk = disk := by
  cases e <;> first | rfl | cases h

theorem after_of_not_changes (h : ∀ e ∈ effects, e.changes = false) :
    disk.after os lookup effects = disk := by
  induction effects with
  | nil => rfl
  | cons e effects ih =>
      have hrest := ih fun e he => h e (List.mem_cons_of_mem _ he)
      rw [Disk.after, List.foldl_cons, act_of_not_changes (h e List.mem_cons_self)]
      exact hrest

theorem after_append (es fs : List Effect) :
    disk.after os lookup (es ++ fs) = (disk.after os lookup es).after os lookup fs :=
  List.foldl_append

/-- Neither a change of the file system nor something sent on a data connection. -/
def Effect.Quiet (e : Effect) : Prop := e.changes = false ∧ ∀ bytes, e ≠ .dataSend bytes

theorem OnlyReplies.quiet (h : OnlyReplies effects) (he : e ∈ effects) : e.Quiet := by
  obtain ⟨msg, rfl⟩ := h e he
  exact ⟨rfl, by simp⟩

theorem quiet_of_mem_close {sock : Option RawSocket} (he : e ∈ sock.toList.map .closeSocket) :
    e.Quiet := by
  obtain ⟨s, -, rfl⟩ := List.mem_map.mp he
  exact ⟨rfl, by simp⟩

theorem quiet_of_mem_open {sock : Option RawSocket} (he : e ∈ sock.toList.map .openSocket) :
    e.Quiet := by
  obtain ⟨s, -, rfl⟩ := List.mem_map.mp he
  exact ⟨rfl, by simp⟩

theorem quiet_of_mem_closeClient {client : Client} (he : e ∈ (closeClient client).2) :
    e.Quiet := by
  rcases List.mem_append.mp he with he | he
  · exact quiet_of_mem_close he
  · exact quiet_of_mem_close he

/-- Around a transfer nothing happens to the file system. -/
theorem mem_withData {client : Client} {transfer : List Effect × Text}
    (he : e ∈ (withData os client transfer).2) : e.Quiet ∨ e ∈ transfer.1 := by
  have hreply : ∀ (client : Client) (msg : Text), e ∈ ftpSend client msg → e.Quiet :=
    fun client msg h => (onlyReplies_ftpSend client msg).quiet h
  by_cases hlistening : client.pasv = true ∧ client.dataSock ≠ none
  · obtain ⟨listener, hlistener⟩ := Option.ne_none_iff_exists'.mp hlistening.2
    rw [withData_listening os transfer hlistening.1 hlistener] at he
    rcases List.mem_append.mp he with he | he
    · exact Or.inl (hreply _ _ he)
    · cases haccept : os.accept with
      | none =>
          rw [haccept] at he
          exact Or.inl ((List.mem_append.mp he).elim quiet_of_mem_close (hreply _ _))
      | some dataSock =>
          simp only [haccept, List.mem_append, List.mem_cons] at he
          rcases he with ((rfl | he) | he) | rfl | he
          · exact Or.inl ⟨rfl, by simp⟩
          · exact Or.inl (quiet_of_mem_close he)
          · exact Or.inr he
          · exact Or.inl ⟨rfl, by simp⟩
          · exact Or.inl (hreply _ _ he)
  · rw [withData_idle os transfer hlistening] at he
    exact Or.inl ((List.mem_append.mp he).elim (hreply _ _) (hreply _ _))

/-- Only STOR changes the file system, and only LIST and RETR send. -/
theorem mem_transfer {transfer : Transfer} {path : Text} (he : e ∈ (transfer.run os path).1) :
    (e.changes = true → transfer = .stor) ∧ (∀ bytes, e = .dataSend bytes → transfer ≠ .stor) := by
  cases transfer with
  | list =>
      refine ⟨fun hchanges => ?_, by simp⟩
      simp only [Transfer.run, listTransfer, List.mem_cons, List.not_mem_nil, or_false] at he
      rcases he with rfl | rfl <;> cases hchanges
  | retr =>
      refine ⟨fun hchanges => ?_, by simp⟩
      simp only [Transfer.run, retrTransfer] at he
      split at he
      · obtain rfl := List.mem_singleton.mp he
        cases hchanges
      · rcases List.mem_cons.mp he with rfl | he
        · cases hchanges
        · obtain ⟨chunk, -, rfl⟩ := List.mem_map.mp he
          cases hchanges
  | stor =>
      refine ⟨fun _ => rfl, ?_⟩
      rintro bytes rfl
      simp only [Transfer.run, storTransfer] at he
      split at he
      · simp at he
      · simp at he

end Effects

section Frame

variable {os : Os} {lookup : Lookup} {disk : Disk} {server server' : Server}
  {client client' : Client} {line : Text} {effects : List Effect}

/-- A command without a change or a transfer only has to answer for its `cwd`. -/
theorem framed_of_quiet (h : ∀ e ∈ effects, e.Quiet)
    (hcwd : client'.cwd ≠ client.cwd →
      client.auth = true ∧ client.permits FtpPermission.read = true) :
    Framed os lookup disk server client line client' effects where
  files := Or.inl (congrArg Disk.files (after_of_not_changes fun e he => (h e he).1))
  sent bytes he := ((h _ he).2 bytes rfl).elim
  cwd := hcwd

theorem files_mkdir (path : Text) : (Effect.act os lookup disk (.mkdir path)).files = disk.files ∨
    (Effect.act os lookup disk (.mkdir path)).files =
      (disk.change lookup path FileSystem.mkdir).files := by
  unfold Effect.act
  dsimp only
  split
  · exact Or.inr rfl
  · exact Or.inl rfl

theorem withData_cwd (transfer : List Effect × Text) :
    (withData os client transfer).1.cwd = client.cwd := by
  unfold withData acceptData
  cases client.pasv <;> cases client.dataSock <;> cases os.accept <;> rfl

def Transfer.verb : Transfer → Verb
  | .list => .list
  | .retr => .retr
  | .stor => .stor

theorem lineVerb_of_transfer {transfer : Transfer}
    (h : (lineVerb line).bind Transfer.ofVerb = some transfer) :
    lineVerb line = some transfer.verb := by
  obtain ⟨verb, hverb, hof⟩ := Option.bind_eq_some_iff.mp h
  rw [hverb]
  cases verb <;> cases hof <;> rfl

theorem framed_transfer {transfer : Transfer} {path : Text}
    (hverb : (lineVerb line).bind Transfer.ofVerb = some transfer) (hauth : client.auth = true)
    (hperm : client.permits transfer.need = true) :
    Framed os lookup disk server client line (withData os client (transfer.run os path)).1
      (withData os client (transfer.run os path)).2 := by
  have hline := lineVerb_of_transfer hverb
  refine ⟨?_, fun bytes he => ?_, fun hcwd => (hcwd (withData_cwd _)).elim⟩
  · by_cases hstor : transfer = .stor
    · subst hstor
      exact Or.inr (Or.inl ⟨hauth, hperm, .stor, by simp, hline⟩)
    · refine Or.inl (congrArg Disk.files (after_of_not_changes fun e he => ?_))
      rcases mem_withData he with hquiet | htransfer
      · exact hquiet.1
      · by_contra hchanges
        exact hstor ((mem_transfer htransfer).1 (Bool.eq_true_of_not_eq_false hchanges))
  · rcases mem_withData he with hquiet | htransfer
    · exact (hquiet.2 bytes rfl).elim
    · have hstor := (mem_transfer htransfer).2 bytes rfl
      cases transfer with
      | list => exact ⟨hauth, hperm, .list, by simp, hline⟩
      | retr => exact ⟨hauth, hperm, .retr, by simp, hline⟩
      | stor => exact absurd rfl hstor

theorem framed_call {verb : Verb} {path : Text} {call : Effect} {replies : List Effect}
    (hverb : lineVerb line = some verb) (hauth : client.auth = true)
    (hperm : client.permits FtpPermission.write = true) (hcall : verb.call path = some call)
    (h : OnlyReplies replies) :
    Framed os lookup disk server client line client (call :: replies) := by
  have hwrites : verb ∈ [Verb.stor, .dele, .mkd, .rmd] := by
    cases verb <;> first | decide | cases hcall
  refine ⟨Or.inr (Or.inl ⟨hauth, hperm, verb, hwrites, hverb⟩), fun bytes he => ?_,
    fun hcwd => (hcwd rfl).elim⟩
  rcases List.mem_cons.mp he with rfl | he
  · cases verb <;> cases hcall
  · exact ((h.quiet he).2 bytes rfl).elim

theorem framed_of_dispatched (h : Dispatched os server client line server' client' effects) :
    Framed os lookup disk server client line client' effects := by
  cases h with
  | answered replies h | named user replies _ _ _ h | admitted user replies _ _ _ h =>
      exact framed_of_quiet (fun e he => h.quiet he) fun hcwd => (hcwd rfl).elim
  | entered user replies hverb hauth _ _ _ h =>
      have hreplies : ∀ d : Disk, d.after os lookup replies = d :=
        fun d => after_of_not_changes fun e he => (h.quiet he).1
      refine ⟨?_, fun bytes he => ?_, fun hcwd => (hcwd rfl).elim⟩
      · rw [after_append, hreplies]
        rcases accountRoot_cases server.tmp user.root with hroot | hroot
        · exact Or.inl (by rw [hroot]; rfl)
        · rw [hroot]
          exact (files_mkdir _).imp id fun hfiles => Or.inr ⟨hverb, hauth, rfl, hfiles⟩
      · rcases List.mem_append.mp he with he | he
        · rcases accountRoot_cases server.tmp user.root with hroot | hroot <;> simp [hroot] at he
        · exact ((h.quiet he).2 bytes rfl).elim
  | gaveUp opened replies _ _ h =>
      refine framed_of_quiet (fun e he => ?_) fun hcwd => (hcwd rfl).elim
      simp only [List.mem_append] at he
      rcases he with ((he | he) | he) | he
      · exact quiet_of_mem_close he
      · exact quiet_of_mem_open he
      · exact quiet_of_mem_close he
      · exact h.quiet he
  | listening dataSock replies _ _ h =>
      refine framed_of_quiet (fun e he => ?_) fun hcwd => (hcwd rfl).elim
      simp only [List.mem_append, List.mem_cons] at he
      rcases he with he | rfl | he
      · exact quiet_of_mem_close he
      · exact ⟨rfl, by simp⟩
      · exact h.quiet he
  | transferred transfer path hverb hauth hperm => exact framed_transfer hverb hauth hperm
  | called verb path call replies hverb hauth hperm hcall h =>
      exact framed_call hverb hauth hperm hcall h
  | moved cwd replies _ hauth hperm h =>
      exact framed_of_quiet (fun e he => h.quiet he) fun _ => ⟨hauth, hperm⟩
  | quit replies _ h =>
      refine framed_of_quiet (fun e he => ?_) fun hcwd => (hcwd rfl).elim
      exact (List.mem_append.mp he).elim h.quiet quiet_of_mem_closeClient

end Frame

/-! ## A connection that never logs in -/

/-- A connection and the file system it works on. -/
structure Mounted where
  conn : Connection
  disk : Disk

namespace Mounted

noncomputable def next (lookup : Lookup) (m : Mounted) : Input → Mounted
  | .line text os => ⟨m.conn.next (.line text os), m.disk.after os lookup (m.conn.effects os text)⟩
  | input => ⟨m.conn.next input, m.disk⟩

noncomputable def step (lookup : Lookup) (m : Mounted) (input : Input) : Option Mounted :=
  some (m.next lookup input)

/-- The file system, the paths and the passive listener are as they were. -/
structure Untouched (m m' : Mounted) : Prop where
  files : m'.disk.files = m.disk.files
  cwd : m'.conn.client.cwd = m.conn.client.cwd
  phyRoot : m'.conn.client.phyRoot = m.conn.client.phyRoot
  dataSock : m'.conn.client.dataSock = m.conn.client.dataSock
  pasv : m'.conn.client.pasv = m.conn.client.pasv

end Mounted

section NeverLoggedIn

variable {os : Os} {server server' : Server} {client client' : Client} {line : Text}
  {effects : List Effect}

theorem auth_of_dispatched (h : Dispatched os server client line server' client' effects)
    (hauth : client'.auth = false) : client.auth = false := by
  cases h with
  | admitted | entered => cases hauth
  | transferred transfer path =>
      have hidentity := withData_identity os client (transfer.run os path)
      simp only [Client.identity, Prod.mk.injEq] at hidentity
      rw [← hidentity.2.1, hauth]
  | _ => exact hauth

/-- Without a log-in, only the control socket and the pending name can change. -/
theorem record_of_dispatched (h : Dispatched os server client line server' client' effects)
    (hpasv : client.dataSock = none ∧ client.pasv = false)
    (hauth : client.auth = false) (hauth' : client'.auth = false) :
    client'.phyRoot = client.phyRoot ∧ client'.dataSock = none ∧ client'.pasv = false := by
  cases h with
  | answered | named => exact ⟨rfl, hpasv⟩
  | admitted | entered => cases hauth'
  | quit => exact ⟨rfl, rfl, rfl⟩
  | gaveUp _ _ _ h | listening _ _ _ h | transferred _ _ _ h | called _ _ _ _ _ h
  | moved _ _ _ h => simp [hauth] at h

end NeverLoggedIn

def Mounted.start (tmp : Text) (sock : RawSocket) (disk : Disk) : Mounted :=
  ⟨Connection.start tmp sock, disk⟩

namespace Mounted

variable {lookup : Lookup} {m₀ m : Mounted}

/-- As long as nobody is logged in, everything is as it was and no listener is open. -/
def Idle (m₀ m : Mounted) : Prop :=
  m.conn.client.auth = false →
    Untouched m₀ m ∧ m.conn.client.dataSock = none ∧ m.conn.client.pasv = false

theorem idle_line (h : Idle m₀ m) (text : Text) (os : Os) :
    Idle m₀ (m.next lookup (.line text os)) := by
  intro hauth'
  have hdispatched := dispatched os m.conn.server m.conn.client text
  have hauth := auth_of_dispatched hdispatched hauth'
  obtain ⟨huntouched, hpassive⟩ := h hauth
  have hframed : Framed os lookup m.disk m.conn.server m.conn.client text _ _ :=
    framed_of_dispatched hdispatched
  obtain ⟨hroot, hdataSock, hpasv⟩ := record_of_dispatched hdispatched hpassive hauth hauth'
  refine ⟨⟨?_, ?_, hroot.trans huntouched.phyRoot, ?_, ?_⟩, hdataSock, hpasv⟩
  · rcases hframed.files with hfiles | ⟨hloggedIn, -⟩ | ⟨-, -, hloggedIn, -⟩
    · exact hfiles.trans huntouched.files
    · simp [hauth] at hloggedIn
    · exact absurd hauth' (by simp [next, Connection.next, hloggedIn])
  · by_contra hcwd
    have hmoved := hframed.cwd fun hsame => hcwd (hsame.trans huntouched.cwd)
    simp [hauth] at hmoved
  · exact hdataSock.trans (hpassive.1.symm.trans huntouched.dataSock)
  · exact hpasv.trans (hpassive.2.symm.trans huntouched.pasv)

theorem idle_step (h : Idle m₀ m) {input : Input} {m' : Mounted}
    (hstep : step lookup m input = some m') : Idle m₀ m' := by
  obtain rfl := Option.some.inj hstep
  cases input with
  | line text os => exact idle_line h text os
  | addUser | addAnonymousUser | clearUsers =>
      intro hauth
      obtain ⟨huntouched, hpassive⟩ := h hauth
      exact ⟨⟨huntouched.files, huntouched.cwd, huntouched.phyRoot, huntouched.dataSock,
        huntouched.pasv⟩, hpassive⟩

end Mounted

/-- The permission frame of FTP: of every command line, in every state of
the client and for every answer of the system; and of every run of a
connection that never logs in. -/
theorem permission_frame :
    (∀ os lookup disk server client line, Framed os lookup disk server client line
      (dispatch os server client line).2.1 (dispatch os server client line).2.2) ∧
    ∀ lookup tmp sock disk inputs m,
      run (Mounted.step lookup) (Mounted.start tmp sock disk) inputs = some m →
        m.conn.client.auth = false → Mounted.Untouched (Mounted.start tmp sock disk) m := by
  refine ⟨fun os lookup disk server client line =>
    framed_of_dispatched (dispatched os server client line), ?_⟩
  intro lookup tmp sock disk inputs m hrun hauth
  have hidle : Mounted.Idle (Mounted.start tmp sock disk) m :=
    run_invariant (fun _ _ _ h hstep => Mounted.idle_step h hstep)
      (fun _ => ⟨⟨rfl, rfl, rfl, rfl, rfl⟩, rfl, rfl⟩) hrun
  exact (hidle hauth).1

/-- Nobody knows alice's password. -/
def strangerInputs : List Input :=
  [.addUser "alice" "secret" "/alice" FtpPermission.all, .line "USER alice" grantingOs,
    .line "PASS guess" grantingOs, .line "PASV" grantingOs, .line "STOR a" grantingOs,
    .line "MKD d" grantingOs, .line "CWD d" grantingOs]

theorem permission_frame_stranger :
    let lookup : Lookup := fun _ path => some (path.splitOn '/')
    let start := Mounted.start "/tmp/ms" 4 ⟨FileSystem.empty, none⟩
    Mounted.Untouched start (strangerInputs.foldl (Mounted.next lookup) start) :=
  permission_frame.2 _ _ _ _ strangerInputs _ rfl (by decide +kernel)

end MockServices.Ftp
