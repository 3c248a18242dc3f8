import MockServices.Foundations.Run
import MockServices.Ftp.Commands

/-!
# Runs of one control connection

The inputs of a run are the command lines of one client, each with the
answers of the operating system, interleaved with the registry calls of
the test. What a command can change in the client record is stated once
per command here.
-/

namespace MockServices.Ftp

open Foundations

structure Connection where
  server : Server
  client : Client

inductive Input where
  | line (text : Text) (os : Os)
  | addUser (name pass root : Text) (perm : FtpPermission)
  | addAnonymousUser (root : Text) (perm : FtpPermission)
  | clearUsers

/-- A fresh server with its temporary directory, and a client just accepted. -/
def Connection.start (tmp : Text) (sock : RawSocket) : Connection :=
  ⟨{ tmp }, { sock := some sock }⟩

/-- What dispatching a line does outside the client record. -/
def Connection.effects (conn : Connection) (os : Os) (line : Text) : List Effect :=
  (dispatch os conn.server conn.client line).2.2

def Connection.next (conn : Connection) : Input → Connection
  | .line text os =>
      let (server, client, _) := dispatch os conn.server conn.client text
      ⟨server, client⟩
  | .addUser name pass root perm =>
      { conn with server.users := addUser name pass root perm conn.server.users }
  | .addAnonymousUser root perm =>
      { conn with server.users := addAnonymousUser root perm conn.server.users }
  | .clearUsers => { conn with server.users := [] }

def step (conn : Connection) (input : Input) : Option Connection := some (conn.next input)

/-- The fields of the client that say who is logged in. -/
def Client.identity (client : Client) : Text × Bool × FtpPermission × Text :=
  (client.user, client.auth, client.perm, client.phyRoot)

theorem requireAuth_identity {client : Client} {next : Outcome}
    (h : next.1.identity = client.identity) :
    (requireAuth client next).1.identity = client.identity := by
  unfold requireAuth
  split
  · exact h
  · rfl

theorem requirePerm_identity {client : Client} {need : FtpPermission} {next : Outcome}
    (h : next.1.identity = client.identity) :
    (requirePerm client need next).1.identity = client.identity := by
  unfold requirePerm
  split
  · exact h
  · rfl

theorem closeClient_identity (client : Client) :
    (closeClient client).1.identity = client.identity := rfl

theorem acceptData_identity (os : Os) (client : Client) :
    (acceptData os client).1.1.identity = client.identity := by
  unfold acceptData
  split <;> rfl

theorem okIf_identity (client : Client) (msg : Text) :
    (okIf client msg).1.identity = client.identity := requireAuth_identity rfl

theorem pasvCmd_identity (os : Os) (client : Client) :
    (pasvCmd os client).1.identity = client.identity := by
  apply requireAuth_identity
  cases os.socket with
  | none => rfl
  | some dataSock =>
      dsimp only
      split
      · rfl
      · split
        · rfl
        · cases os.getsockname <;> rfl

theorem withPath_identity {client : Client} {need : FtpPermission} {emptyOk : Bool}
    {invalid arg : Text} {next : Text → Outcome}
    (h : ∀ path, (next path).1.identity = client.identity) :
    (withPath client need emptyOk invalid arg next).1.identity = client.identity := by
  apply requireAuth_identity
  apply requirePerm_identity
  split
  · rfl
  · dsimp only
    split
    · rfl
    · exact h _

theorem withData_identity (os : Os) (client : Client) (transfer : List Effect × Text) :
    (withData os client transfer).1.identity = client.identity := by
  have h := acceptData_identity os client
  unfold withData
  generalize acceptData os client = accepted at h
  obtain ⟨⟨client', effects⟩, connection⟩ := accepted
  cases connection <;> exact h

theorem cwdCmd_identity (client : Client) (arg : Text) :
    (cwdCmd client arg).1.identity = client.identity := by
  apply requireAuth_identity
  apply requirePerm_identity
  split <;> rfl

/-- The verb and the argument that a command line carries. -/
def lineVerb (line : Text) : Option Verb := verbOf (splitLine line).1

def lineArg (line : Text) : Text := (splitLine line).2

theorem dispatch_eq (os : Os) (server : Server) (client : Client) (line : Text) :
    dispatch os server client line = command os server client (lineArg line) (lineVerb line) :=
  rfl

/-- Only `USER` and `PASS` touch the identity and the shared server state. -/
theorem command_other (os : Os) (server : Server) (client : Client) (arg : Text)
    {verb : Option Verb} (huser : verb ≠ some .user) (hpass : verb ≠ some .pass) :
    (command os server client arg verb).1 = server ∧
      (command os server client arg verb).2.1.identity = client.identity := by
  cases verb with
  | none => exact ⟨rfl, rfl⟩
  | some verb =>
      cases verb with
      | user => exact (huser rfl).elim
      | pass => exact (hpass rfl).elim
      | syst | pwd | type => exact ⟨rfl, okIf_identity _ _⟩
      | pasv => exact ⟨rfl, pasvCmd_identity _ _⟩
      | list | retr | stor => exact ⟨rfl, withPath_identity fun _ => withData_identity _ _ _⟩
      | dele | rmd | mkd => exact ⟨rfl, withPath_identity fun _ => rfl⟩
      | cwd | cdup => exact ⟨rfl, cwdCmd_identity _ _⟩
      | quit => exact ⟨rfl, closeClient_identity _⟩
      | noop | feat => exact ⟨rfl, rfl⟩

theorem userCmd_registry (server : Server) (client : Client) (arg : Text) :
    (userCmd server client arg).1.tmp = server.tmp ∧
      (userCmd server client arg).1.users = server.users := by
  unfold userCmd
  split
  · exact ⟨rfl, rfl⟩
  · dsimp only
    split <;> exact ⟨rfl, rfl⟩

theorem passCmd_registry (server : Server) (client : Client) (arg : Text) :
    (passCmd server client arg).1.tmp = server.tmp ∧
      (passCmd server client arg).1.users = server.users := by
  unfold passCmd
  split_ifs
  · exact ⟨rfl, rfl⟩
  · exact ⟨rfl, rfl⟩
  · split
    · exact ⟨rfl, rfl⟩
    · split <;> exact ⟨rfl, rfl⟩

/-- No command line changes the account registry. -/
theorem dispatch_registry (os : Os) (server : Server) (client : Client) (line : Text) :
    (dispatch os server client line).1.tmp = server.tmp ∧
      (dispatch os server client line).1.users = server.users := by
  rw [dispatch_eq]
  by_cases huser : lineVerb line = some .user
  · rw [huser]
    exact userCmd_registry server client _
  · by_cases hpass : lineVerb line = some .pass
    · rw [hpass]
      exact passCmd_registry server client _
    · rw [(command_other os server client _ huser hpass).1]
      exact ⟨rfl, rfl⟩

/-! ## A concrete session -/

/-- Every call succeeds; every file holds one byte. -/
def grantingOs : Os where
  socket := some 7
  bind := true
  listen := true
  getsockname := some 40000
  accept := some 8
  opendir := fun _ => some []
  localtime := fun _ => ⟨0, 1, 0, 0⟩
  ifstream := fun _ => some ['x']
  ofstream := fun _ => true
  recv := []
  unlink := fun _ => true
  mkdir := fun _ => true
  rmdir := fun _ => true

def aliceLogin : List Input :=
  [.addUser "alice" "secret" "/alice" FtpPermission.all, .line "USER alice" grantingOs,
    .line "PASS secret" grantingOs]

/-- Alice's session right after her log-in. -/
def aliceSession : Connection :=
  aliceLogin.foldl Connection.next (Connection.start "/tmp/ms" 4)

end MockServices.Ftp
