import MockServices.Ftp.PathResolution
import Mathlib.Data.BitVec
import Mathlib.Data.Finset.Insert

/-!
# FTP commands on one control connection

Every command handler is a function of the client record and of what the
operating system answers (`Os`). It returns the new record and the list
of effects in the order the source produces them. Log-in also reads and
writes the shared part of the server.
-/

namespace MockServices.Ftp

/-- `enum class ftp_permission : int`. -/
abbrev FtpPermission := BitVec 32

namespace FtpPermission

def none : FtpPermission := 0
def read : FtpPermission := 1
def write : FtpPermission := 2
def all : FtpPermission := read ||| write

end FtpPermission

abbrev RawSocket := ℕ

structure User where
  name : Text
  pass : Text
  root : Text
  perm : FtpPermission
  anon : Bool
  deriving DecidableEq

/-- `none` in `sock` and `dataSock` is `kInvalidSock`. -/
structure Client where
  sock : Option RawSocket
  user : Text := []
  cwd : Text := []
  phyRoot : Text := []
  perm : FtpPermission := FtpPermission.none
  auth : Bool := false
  dataSock : Option RawSocket := none
  pasv : Bool := false

/-- The members of the server that the commands share. -/
structure Server where
  tmp : Text
  users : List User := []
  connUsers : Finset Text := ∅

structure Tm where
  mon : ℕ
  mday : ℕ
  hour : ℕ
  min : ℕ

structure FileStat where
  isDir : Bool
  size : ℤ
  mtime : ℤ

/-- One entry of `readdir`, with what `stat` answers for it. -/
structure DirEntry where
  name : Text
  stat : Option FileStat

/-- What the operating system answers while one command runs. Each entry
of `recv` is one result of `recv` on the data connection: bytes, the
empty text at the end of the stream, or `none` for an error. -/
structure Os where
  socket : Option RawSocket
  bind : Bool
  listen : Bool
  getsockname : Option UInt16
  accept : Option RawSocket
  opendir : Text → Option (List DirEntry)
  localtime : ℤ → Tm
  ifstream : Text → Option Text
  ofstream : Text → Bool
  recv : List (Option Text)
  unlink : Text → Bool
  mkdir : Text → Bool
  rmdir : Text → Bool

inductive Effect where
  | reply (msg : Text)
  | opendir (path : Text)
  | ifstream (path : Text)
  | ofstream (path : Text)
  | fileWrite (bytes : Text)
  | unlink (path : Text)
  | mkdir (path : Text)
  | rmdir (path : Text)
  | dataSend (bytes : Text)
  | openSocket (socket : RawSocket)
  | closeSocket (socket : RawSocket)
  deriving DecidableEq

/-! ## Replies and guards -/

def ftpSend (client : Client) (msg : Text) : List Effect :=
  if client.sock = none then [] else [.reply msg]

abbrev Outcome := Client × List Effect

def requireAuth (client : Client) (next : Outcome) : Outcome :=
  if client.auth then next
  else (client, ftpSend client "530 Please login with USER and PASS\r\n")

def Client.permits (client : Client) (need : FtpPermission) : Bool := client.perm &&& need == need

def requirePerm (client : Client) (need : FtpPermission) (next : Outcome) : Outcome :=
  if client.permits need then next else (client, ftpSend client "550 Permission denied\r\n")

def okIf (client : Client) (msg : Text) : Outcome :=
  requireAuth client (client, ftpSend client msg)

/-! ## Sockets of the data connection -/

def closePasv (client : Client) : Outcome :=
  ({ client with dataSock := none, pasv := false },
    client.dataSock.toList.map .closeSocket)

def closeClient (client : Client) : Outcome :=
  let (client', effects) := closePasv { client with sock := none }
  (client', client.sock.toList.map .closeSocket ++ effects)

def acceptData (os : Os) (client : Client) : Outcome × Option RawSocket :=
  match client.pasv, client.dataSock with
  | true, some listener =>
      (({ client with dataSock := none, pasv := false },
        os.accept.toList.map .openSocket ++ [.closeSocket listener]), os.accept)
  | _, _ => ((client, []), none)

def pasvCmd (os : Os) (client : Client) : Outcome :=
  requireAuth client <|
    let (client, closed) := closePasv client
    let refuse := ftpSend client "425 Can't open data connection\r\n"
    match os.socket with
    | none => (client, closed ++ refuse)
    | some dataSock =>
        let opened := closed ++ [.openSocket dataSock]
        let give := (client, opened ++ [.closeSocket dataSock] ++ refuse)
        if !os.bind then give
        else if !os.listen then give
        else match os.getsockname with
          | none => give
          | some dataPort =>
              ({ client with dataSock := some dataSock, pasv := true },
                opened ++ ftpSend client ("227 Entering Passive Mode (127,0,0,1," ++
                  toString (dataPort.toNat / 256) ++ "," ++ toString (dataPort.toNat % 256) ++
                  ")\r\n" : String))

/-! ## Listings -/

def fmtMonth (month : ℕ) : String :=
  if 1 ≤ month ∧ month ≤ 12 then
    ["Jan", "Feb", "Mar", "Apr", "May", "Jun", "Jul", "Aug", "Sep", "Oct", "Nov",
      "Dec"].getD (month - 1) "???"
  else "???"

/-- `%02d`. -/
def twoDigits (n : ℕ) : String := if n < 10 then "0" ++ toString n else toString n

def fmtUnixtime (os : Os) (timestamp : ℤ) : String :=
  let result := os.localtime timestamp
  fmtMonth (result.mon + 1) ++ " " ++ twoDigits result.mday ++ " " ++ twoDigits result.hour ++
    ":" ++ twoDigits result.min

def listingLine (os : Os) (entry : DirEntry) : Text :=
  let fileStat := entry.stat.getD ⟨false, 0, 0⟩
  let permissions := if fileStat.isDir then "drwx------" else "-rwx------"
  txt (permissions ++ " 1 owner group " ++ toString fileStat.size ++ " " ++
    fmtUnixtime os fileStat.mtime ++ " ") ++ entry.name ++ txt "\r\n"

def dirListing (os : Os) (dirPath : Text) : Text :=
  match os.opendir dirPath with
  | none => []
  | some entries =>
      (entries.filter fun entry => entry.name ≠ ['.'] ∧ entry.name ≠ ['.', '.']).flatMap
        (listingLine os)

/-! ## Commands on paths -/

/-- The common head of the six commands that take a path: both guards,
the check for an empty argument where the command has it, and the
resolution. -/
def withPath (client : Client) (need : FtpPermission) (emptyOk : Bool) (invalid : Text)
    (arg : Text) (next : Text → Outcome) : Outcome :=
  requireAuth client <| requirePerm client need <|
    if !emptyOk && arg.isEmpty then (client, ftpSend client "501 Syntax error\r\n")
    else
      let resolvedPath := resolve client.phyRoot client.cwd arg
      if resolvedPath = [] then (client, ftpSend client invalid) else next resolvedPath

/-- The common frame of the three transfers: the 150 reply, the data
connection, the transfer itself and, once the connection is closed, the
final reply. -/
def withData (os : Os) (client : Client) (transfer : List Effect × Text) : Outcome :=
  let opening := ftpSend client "150 Opening data connection\r\n"
  let ((client, accepted), connection) := acceptData os client
  match connection with
  | none => (client, opening ++ accepted ++ ftpSend client "425 Can't open data connection\r\n")
  | some dataSock =>
      (client, opening ++ accepted ++ transfer.1 ++ [.closeSocket dataSock] ++
        ftpSend client transfer.2)

def listTransfer (os : Os) (resolvedPath : Text) : List Effect × Text :=
  ([.opendir resolvedPath, .dataSend (dirListing os resolvedPath)], "226 Transfer complete\r\n")

def listCmd (os : Os) (client : Client) (arg : Text) : Outcome :=
  withPath client FtpPermission.read true "550 Invalid path\r\n" arg fun resolvedPath =>
    withData os client (listTransfer os resolvedPath)

/-- `input.read(buffer, 8192)` until nothing is left. -/
def retrTransfer (os : Os) (resolvedPath : Text) : List Effect × Text :=
  match os.ifstream resolvedPath with
  | none => ([.ifstream resolvedPath], "550 File not found\r\n")
  | some content =>
      (.ifstream resolvedPath :: (content.toChunks 8192).map .dataSend,
        "226 Transfer complete\r\n")

def retrCmd (os : Os) (client : Client) (arg : Text) : Outcome :=
  withPath client FtpPermission.read false "550 File not found\r\n" arg fun resolvedPath =>
    withData os client (retrTransfer os resolvedPath)

/-- The blocks received before `recv` answers 0 or an error. -/
def receivedBlocks : List (Option Text) → List Text
  | some (c :: cs) :: rest => (c :: cs) :: receivedBlocks rest
  | _ => []

def storTransfer (os : Os) (resolvedPath : Text) : List Effect × Text :=
  if os.ofstream resolvedPath then
    (.ofstream resolvedPath :: (receivedBlocks os.recv).map .fileWrite,
      "226 Transfer complete\r\n")
  else ([.ofstream resolvedPath], "550 Cannot create file\r\n")

def storCmd (os : Os) (client : Client) (arg : Text) : Outcome :=
  withPath client FtpPermission.write false "550 Invalid path\r\n" arg fun resolvedPath =>
    withData os client (storTransfer os resolvedPath)

/-- The common tail of the three commands that make one call on the path. -/
def callOnPath (client : Client) (call : Effect) (done : Bool) (success failure : Text) :
    Outcome :=
  (client, call :: ftpSend client (if done then success else failure))

def deleCmd (os : Os) (client : Client) (arg : Text) : Outcome :=
  withPath client FtpPermission.write false "550 File not found\r\n" arg fun resolvedPath =>
    callOnPath client (.unlink resolvedPath) (os.unlink resolvedPath)
      "250 File deleted\r\n" "550 File not found\r\n"

def mkdCmd (os : Os) (client : Client) (arg : Text) : Outcome :=
  withPath client FtpPermission.write false "550 Invalid path\r\n" arg fun resolvedPath =>
    callOnPath client (.mkdir resolvedPath) (os.mkdir resolvedPath)
      (txt "257 \"" ++ arg ++ txt "\" created\r\n") "550 Cannot create directory\r\n"

def rmdCmd (os : Os) (client : Client) (arg : Text) : Outcome :=
  withPath client FtpPermission.write false "550 Invalid path\r\n" arg fun resolvedPath =>
    callOnPath client (.rmdir resolvedPath) (os.rmdir resolvedPath)
      "250 Directory removed\r\n" "550 Cannot remove directory\r\n"

/-! ## The working directory -/

/-- The scan of `cwd_cmd`: as `scanParts`, but `..` at the top is ignored. -/
def scanCwd : Text → List Text → Text → List Text
  | [], parts, _ => parts
  | character :: rest, parts, currentPart =>
      if character = '/' then
        if currentPart = ['.', '.'] then scanCwd rest parts.dropLast []
        else if currentPart ≠ [] ∧ currentPart ≠ ['.'] then
          scanCwd rest (parts ++ [currentPart]) []
        else scanCwd rest parts []
      else scanCwd rest parts (currentPart ++ [character])

def cwdCmd (client : Client) (arg : Text) : Outcome :=
  requireAuth client <| requirePerm client FtpPermission.read <|
    if arg = [] ∨ arg = ['/'] then
      ({ client with cwd := [] }, ftpSend client "250 Directory changed\r\n")
    else
      let newCwd := match arg with
        | '/' :: rest => rest
        | _ => if client.cwd = [] then arg else client.cwd ++ '/' :: arg
      let parts := scanCwd (newCwd ++ ['/']) [] []
      ({ client with cwd := ['/'].intercalate parts },
        ftpSend client "250 Directory changed\r\n")

/-! ## Log-in -/

/-- The first record `user_cmd` stops at. -/
def findUser (users : List User) (arg : Text) : Option User :=
  users.find? fun user => user.name = arg ∨ (user.anon ∧ arg = txt "anonymous")

/-- The first record `pass_cmd` stops at. -/
def findAccount (users : List User) (name : Text) : Option User :=
  users.find? fun user => user.name = name ∧ ¬ user.anon

def loginSuccessful : Text := txt "230 Login successful\r\n"

def userCmd (server : Server) (client : Client) (arg : Text) : Server × Outcome :=
  match findUser server.users arg with
  | none => (server, client, ftpSend client "530 Login incorrect\r\n")
  | some user =>
      let client := { client with user := user.name }
      if user.anon then
        ({ server with connUsers := insert user.name server.connUsers },
          { client with auth := true, perm := user.perm, phyRoot := server.tmp },
          ftpSend client loginSuccessful)
      else (server, client, ftpSend client "331 Password required\r\n")

/-- The directory `pass_cmd` gives the session, and the `mkdir` whose
result it ignores. -/
def accountRoot (tmp root : Text) : Text × List Effect :=
  if root ≠ [] ∧ root ≠ ['/'] then
    let relativeRoot := match root with
      | '/' :: rest => rest
      | _ => root
    if relativeRoot ≠ [] then
      let phyRoot := tmp ++ '/' :: relativeRoot
      (phyRoot, [.mkdir phyRoot])
    else (tmp, [])
  else (tmp, [])

/-- A log-in touches no file but the directory of its own root. -/
theorem accountRoot_cases (tmp root : Text) : (accountRoot tmp root).2 = [] ∨
    (accountRoot tmp root).2 = [.mkdir (accountRoot tmp root).1] := by
  unfold accountRoot
  split_ifs
  · dsimp only
    split_ifs
    · exact Or.inr rfl
    · exact Or.inl rfl
  · exact Or.inl rfl

def passCmd (server : Server) (client : Client) (arg : Text) : Server × Outcome :=
  if client.auth then (server, client, ftpSend client "230 Already logged in\r\n")
  else if client.user = [] then (server, client, ftpSend client "503 Login with USER first\r\n")
  else
    match findAccount server.users client.user with
    | none => (server, client, ftpSend client "530 Login incorrect\r\n")
    | some user =>
        if user.pass = arg then
          let (phyRoot, made) := accountRoot server.tmp user.root
          ({ server with connUsers := insert user.name server.connUsers },
            { client with auth := true, perm := user.perm, phyRoot },
            made ++ ftpSend client loginSuccessful)
        else (server, client, ftpSend client "530 Login incorrect\r\n")

/-! ## Dispatch -/

def featCmd (client : Client) : Outcome :=
  (client, ftpSend client "211-Extensions supported:\r\n" ++ ftpSend client " PASV\r\n" ++
    ftpSend client "211 End\r\n")

/-- The command word in upper case and the text after the first blank. -/
def splitLine (line : Text) : Text × Text :=
  ((line.takeWhile (· ≠ ' ')).map Char.toUpper, (line.dropWhile (· ≠ ' ')).drop 1)

inductive Verb where
  | user | pass | syst | pwd | type | pasv | list | retr | stor
  | dele | rmd | mkd | cwd | cdup | quit | noop | feat
  deriving DecidableEq

def Verb.word : Verb → String
  | .user => "USER" | .pass => "PASS" | .syst => "SYST" | .pwd => "PWD" | .type => "TYPE"
  | .pasv => "PASV" | .list => "LIST" | .retr => "RETR" | .stor => "STOR" | .dele => "DELE"
  | .rmd => "RMD" | .mkd => "MKD" | .cwd => "CWD" | .cdup => "CDUP" | .quit => "QUIT"
  | .noop => "NOOP" | .feat => "FEAT"

/-- The comparisons of `dispatch`, in its order. -/
def verbOf (cmd : Text) : Option Verb :=
  [Verb.user, .pass, .syst, .pwd, .type, .pasv, .list, .retr, .stor, .dele, .rmd, .mkd, .cwd,
    .cdup, .quit, .noop, .feat].find? fun verb => cmd = txt verb.word

/-- The branches of `dispatch`. -/
def command (os : Os) (server : Server) (client : Client) (arg : Text) :
    Option Verb → Server × Outcome
  | some .user => userCmd server client arg
  | some .pass => passCmd server client arg
  | some .syst => (server, okIf client "215 UNIX Type: L8\r\n")
  | some .pwd =>
      (server, okIf client
        (txt "257 \"/" ++ client.cwd ++ txt "\" is current directory\r\n"))
  | some .type => (server, okIf client "200 TYPE set OK\r\n")
  | some .pasv => (server, pasvCmd os client)
  | some .list => (server, listCmd os client arg)
  | some .retr => (server, retrCmd os client arg)
  | some .stor => (server, storCmd os client arg)
  | some .dele => (server, deleCmd os client arg)
  | some .rmd => (server, rmdCmd os client arg)
  | some .mkd => (server, mkdCmd os client arg)
  | some .cwd => (server, cwdCmd client arg)
  | some .cdup => (server, cwdCmd client "..")
  | some .quit =>
      let (closed, effects) := closeClient client
      (server, closed, ftpSend client "221 Goodbye\r\n" ++ effects)
  | some .noop => (server, client, ftpSend client "200 OK\r\n")
  | some .feat => (server, featCmd client)
  | none => (server, client, ftpSend client "502 Command not implemented\r\n")

def dispatch (os : Os) (server : Server) (client : Client) (line : Text) : Server × Outcome :=
  let (cmd, arg) := splitLine line
  command os server client arg (verbOf cmd)

/-! ## The account registry -/

def addUser (name pass root : Text) (perm : FtpPermission) : List User → List User
  | [] => [⟨name, pass, root, perm, false⟩]
  | user :: users =>
      if user.name = name ∧ ¬ user.anon then { user with pass, root, perm } :: users
      else user :: addUser name pass root perm users

def addAnonymousUser (root : Text) (perm : FtpPermission) (users : List User) : List User :=
  users ++ [⟨txt "anonymous", [], root, perm, true⟩]

end MockServices.Ftp
