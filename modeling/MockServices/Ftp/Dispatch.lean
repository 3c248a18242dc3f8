import MockServices.Ftp.Connection

/-!
# What a command line can do

Every command line ends in one of eleven ways, each with the guards it has
passed. The frame of a command, the sockets it leaves open and the log-ins
it causes are read off these.
-/

namespace MockServices.Ftp

inductive Transfer where
  | list
  | retr
  | stor
  deriving DecidableEq

def Transfer.ofVerb : Verb → Option Transfer
  | .list => some .list
  | .retr => some .retr
  | .stor => some .stor
  | _ => none

def Transfer.need : Transfer → FtpPermission
  | .list | .retr => FtpPermission.read
  | .stor => FtpPermission.write

/-- What happens between the data connection's `accept` and its `close`,
and the reply after it. The first effect is the call that opens the file
or the directory. -/
def Transfer.run (os : Os) (resolvedPath : Text) : Transfer → List Effect × Text
  | .list => listTransfer os resolvedPath
  | .retr => retrTransfer os resolvedPath
  | .stor => storTransfer os resolvedPath

def OnlyReplies (effects : List Effect) : Prop := ∀ e ∈ effects, ∃ msg, e = .reply msg

theorem onlyReplies_ftpSend (client : Client) (msg : Text) : OnlyReplies (ftpSend client msg) := by
  intro e he
  unfold ftpSend at he
  split at he
  · cases he
  · exact ⟨msg, List.mem_singleton.mp he⟩

theorem OnlyReplies.append {es fs : List Effect} (hes : OnlyReplies es) (hfs : OnlyReplies fs) :
    OnlyReplies (es ++ fs) := by
  intro e he
  exact (List.mem_append.mp he).elim (hes e) (hfs e)

/-- The listener is closed whether or not it has given a connection. -/
theorem withData_listening (os : Os) {client : Client} {listener : RawSocket}
    (transfer : List Effect × Text) (hpasv : client.pasv = true)
    (hlistener : client.dataSock = some listener) :
    withData os client transfer = ((closePasv client).1,
      ftpSend client "150 Opening data connection\r\n" ++
        match os.accept with
        | none => (closePasv client).2 ++ ftpSend client "425 Can't open data connection\r\n"
        | some dataSock => .openSocket dataSock :: (closePasv client).2 ++ transfer.1 ++
            .closeSocket dataSock :: ftpSend client transfer.2) := by
  have hsend : ∀ msg, ftpSend { client with dataSock := none, pasv := false } msg =
      ftpSend client msg := fun _ => rfl
  cases haccept : os.accept with
  | none => simp [withData, acceptData, closePasv, hpasv, hlistener, haccept, hsend]
  | some dataSock => simp [withData, acceptData, closePasv, hpasv, hlistener, haccept, hsend]

theorem withData_idle (os : Os) {client : Client} (transfer : List Effect × Text)
    (h : ¬ (client.pasv = true ∧ client.dataSock ≠ none)) :
    withData os client transfer = (client,
      ftpSend client "150 Opening data connection\r\n" ++
        ftpSend client "425 Can't open data connection\r\n") := by
  unfold withData acceptData
  cases hpasv : client.pasv with
  | false => simp
  | true =>
      cases hlistener : client.dataSock with
      | none => simp
      | some listener => exact absurd ⟨hpasv, by simp [hlistener]⟩ h

/-- The call that a command on a path makes. -/
def Verb.call (path : Text) : Verb → Option Effect
  | .dele => some (.unlink path)
  | .rmd => some (.rmdir path)
  | .mkd => some (.mkdir path)
  | _ => none

inductive Dispatched (os : Os) (server : Server) (client : Client) (line : Text) :
    Server → Client → List Effect → Prop
  | answered (replies : List Effect) (h : OnlyReplies replies) :
      Dispatched os server client line server client replies
  -- USER names an account with a password.
  | named (user : User) (replies : List Effect) (hverb : lineVerb line = some .user)
      (huser : findUser server.users (lineArg line) = some user) (hanon : user.anon = false)
      (h : OnlyReplies replies) :
      Dispatched os server client line server { client with user := user.name } replies
  -- USER names an anonymous account.
  | admitted (user : User) (replies : List Effect) (hverb : lineVerb line = some .user)
      (huser : findUser server.users (lineArg line) = some user) (hanon : user.anon = true)
      (h : OnlyReplies replies) :
      Dispatched os server client line
        { server with connUsers := insert user.name server.connUsers }
        { client with user := user.name, auth := true, perm := user.perm, phyRoot := server.tmp }
        replies
  -- PASS logs the client in.
  | entered (user : User) (replies : List Effect) (hverb : lineVerb line = some .pass)
      (hauth : client.auth = false) (hnamed : client.user ≠ [])
      (huser : findAccount server.users client.user = some user)
      (hpass : user.pass = lineArg line) (h : OnlyReplies replies) :
      Dispatched os server client line
        { server with connUsers := insert user.name server.connUsers }
        { client with
          auth := true, perm := user.perm, phyRoot := (accountRoot server.tmp user.root).1 }
        ((accountRoot server.tmp user.root).2 ++ replies)
  -- PASV opens no listener, or closes it again.
  | gaveUp (opened : Option RawSocket) (replies : List Effect)
      (hverb : lineVerb line = some .pasv) (hauth : client.auth = true) (h : OnlyReplies replies) :
      Dispatched os server client line server (closePasv client).1
        ((closePasv client).2 ++ opened.toList.map .openSocket ++
          opened.toList.map .closeSocket ++ replies)
  | listening (dataSock : RawSocket) (replies : List Effect) (hverb : lineVerb line = some .pasv)
      (hauth : client.auth = true) (h : OnlyReplies replies) :
      Dispatched os server client line server
        { (closePasv client).1 with dataSock := some dataSock, pasv := true }
        ((closePasv client).2 ++ .openSocket dataSock :: replies)
  | transferred (transfer : Transfer) (resolvedPath : Text)
      (hverb : (lineVerb line).bind Transfer.ofVerb = some transfer) (hauth : client.auth = true)
      (hperm : client.permits transfer.need = true) :
      Dispatched os server client line server
        (withData os client (transfer.run os resolvedPath)).1
        (withData os client (transfer.run os resolvedPath)).2
  | called (verb : Verb) (resolvedPath : Text) (call : Effect) (replies : List Effect)
      (hverb : lineVerb line = some verb) (hauth : client.auth = true)
      (hperm : client.permits FtpPermission.write = true)
      (hcall : verb.call resolvedPath = some call) (h : OnlyReplies replies) :
      Dispatched os server client line server client (call :: replies)
  | moved (cwd : Text) (replies : List Effect)
      (hverb : lineVerb line = some .cwd ∨ lineVerb line = some .cdup)
      (hauth : client.auth = true) (hperm : client.permits FtpPermission.read = true)
      (h : OnlyReplies replies) :
      Dispatched os server client line server { client with cwd } replies
  | quit (replies : List Effect) (hverb : lineVerb line = some .quit) (h : OnlyReplies replies) :
      Dispatched os server client line server (closeClient client).1
        (replies ++ (closeClient client).2)

section Rules

variable {client : Client} {need : FtpPermission} {outcome : Outcome} {P : Outcome → Prop}

theorem requireAuth_rule (hreply : ∀ msg, P (client, ftpSend client msg))
    (h : client.auth = true → P outcome) : P (requireAuth client outcome) := by
  unfold requireAuth
  split
  · next hauth => exact h hauth
  · exact hreply _

theorem requirePerm_rule (hreply : ∀ msg, P (client, ftpSend client msg))
    (h : client.permits need = true → P outcome) : P (requirePerm client need outcome) := by
  unfold requirePerm
  split
  · next hperm => exact h hperm
  · exact hreply _

theorem withPath_rule {emptyOk : Bool} {invalid arg : Text} {next : Text → Outcome}
    (hreply : ∀ msg, P (client, ftpSend client msg))
    (h : client.auth = true → client.permits need = true → ∀ path, P (next path)) :
    P (withPath client need emptyOk invalid arg next) := by
  refine requireAuth_rule hreply fun hauth => requirePerm_rule hreply fun hperm => ?_
  split
  · exact hreply _
  · dsimp only
    split
    · exact hreply _
    · exact h hauth hperm _

end Rules

section Cases

variable {os : Os} {server : Server} {client : Client} {line : Text}

theorem dispatched_reply (msg : Text) :
    Dispatched os server client line server client (ftpSend client msg) :=
  .answered _ (onlyReplies_ftpSend client msg)

theorem dispatched_user (h : lineVerb line = some .user) :
    Dispatched os server client line (userCmd server client (lineArg line)).1
      (userCmd server client (lineArg line)).2.1 (userCmd server client (lineArg line)).2.2 := by
  unfold userCmd
  split
  · exact dispatched_reply _
  · next user huser =>
      dsimp only
      split
      · next hanon => exact .admitted user _ h huser hanon (onlyReplies_ftpSend _ _)
      · next hanon => exact .named user _ h huser (by simpa using hanon) (onlyReplies_ftpSend _ _)

theorem dispatched_pass (h : lineVerb line = some .pass) :
    Dispatched os server client line (passCmd server client (lineArg line)).1
      (passCmd server client (lineArg line)).2.1 (passCmd server client (lineArg line)).2.2 := by
  unfold passCmd
  split
  · exact dispatched_reply _
  · next hauth =>
      split
      · exact dispatched_reply _
      · next hnamed =>
          split
          · exact dispatched_reply _
          · next user huser =>
              split
              · next hpass =>
                  exact .entered user _ h (by simpa using hauth) hnamed huser hpass
                    (onlyReplies_ftpSend _ _)
              · exact dispatched_reply _

theorem dispatched_pasv (h : lineVerb line = some .pasv) :
    Dispatched os server client line server (pasvCmd os client).1 (pasvCmd os client).2 := by
  refine requireAuth_rule
    (P := fun outcome => Dispatched os server client line server outcome.1 outcome.2)
    dispatched_reply fun hauth => ?_
  have hreplies : ∀ msg, OnlyReplies (ftpSend (closePasv client).1 msg) :=
    onlyReplies_ftpSend (closePasv client).1
  cases os.socket with
  | none => simpa using Dispatched.gaveUp none _ h hauth (hreplies _)
  | some dataSock =>
      have hgive : Dispatched os server client line server _ _ := .gaveUp (some dataSock) _ h hauth
        (hreplies "425 Can't open data connection\r\n")
      dsimp only
      split
      · simpa using hgive
      · split
        · simpa using hgive
        · cases os.getsockname with
          | none => simpa using hgive
          | some dataPort =>
              have hlistening (msg : Text) : Dispatched os server client line server _ _ :=
                .listening dataSock _ h hauth (hreplies msg)
              simpa using hlistening _

theorem dispatched_call {verb : Verb} {emptyOk : Bool} {invalid : Text} {call : Text → Effect}
    {done : Text → Bool} {success failure : Text} (h : lineVerb line = some verb)
    (hcall : ∀ path, verb.call path = some (call path)) {outcome : Outcome}
    (houtcome : outcome = withPath client FtpPermission.write emptyOk invalid (lineArg line)
      fun path => callOnPath client (call path) (done path) success failure) :
    Dispatched os server client line server outcome.1 outcome.2 := by
  rw [houtcome]
  exact withPath_rule
    (P := fun outcome => Dispatched os server client line server outcome.1 outcome.2)
    dispatched_reply fun hauth hperm path =>
      .called verb path (call path) _ h hauth hperm (hcall path) (onlyReplies_ftpSend _ _)

theorem dispatched_cwd {arg : Text} (h : lineVerb line = some .cwd ∨ lineVerb line = some .cdup) :
    Dispatched os server client line server (cwdCmd client arg).1 (cwdCmd client arg).2 := by
  refine requireAuth_rule
    (P := fun outcome => Dispatched os server client line server outcome.1 outcome.2)
    dispatched_reply fun hauth => requirePerm_rule
      (P := fun outcome => Dispatched os server client line server outcome.1 outcome.2)
      dispatched_reply fun hperm => ?_
  split
  · exact .moved _ _ h hauth hperm (onlyReplies_ftpSend _ _)
  · exact .moved _ _ h hauth hperm (onlyReplies_ftpSend _ _)

theorem dispatched_transfer {transfer : Transfer} {emptyOk : Bool} {invalid : Text}
    (h : (lineVerb line).bind Transfer.ofVerb = some transfer) {outcome : Outcome}
    (houtcome : outcome = withPath client transfer.need emptyOk invalid (lineArg line)
      fun path => withData os client (transfer.run os path)) :
    Dispatched os server client line server outcome.1 outcome.2 := by
  rw [houtcome]
  exact withPath_rule
    (P := fun outcome => Dispatched os server client line server outcome.1 outcome.2)
    dispatched_reply fun hauth hperm path => .transferred transfer path h hauth hperm

/-- The inversion of `dispatch`. -/
theorem dispatched (os : Os) (server : Server) (client : Client) (line : Text) :
    Dispatched os server client line (dispatch os server client line).1
      (dispatch os server client line).2.1 (dispatch os server client line).2.2 := by
  rw [dispatch_eq]
  cases hverb : lineVerb line with
  | none => exact dispatched_reply _
  | some verb =>
      have htransfer : ∀ transfer, Transfer.ofVerb verb = some transfer →
          (lineVerb line).bind Transfer.ofVerb = some transfer := by
        intro transfer h
        rw [hverb, Option.bind_some, h]
      cases verb with
      | user => exact dispatched_user hverb
      | pass => exact dispatched_pass hverb
      | syst | pwd | type =>
          exact requireAuth_rule
            (P := fun outcome => Dispatched os server client line server outcome.1 outcome.2)
            dispatched_reply fun _ => dispatched_reply _
      | pasv => exact dispatched_pasv hverb
      | list => exact dispatched_transfer (htransfer .list rfl) rfl
      | retr => exact dispatched_transfer (htransfer .retr rfl) rfl
      | stor => exact dispatched_transfer (htransfer .stor rfl) rfl
      | dele => exact dispatched_call hverb (fun _ => rfl) rfl
      | rmd => exact dispatched_call hverb (fun _ => rfl) rfl
      | mkd => exact dispatched_call hverb (fun _ => rfl) rfl
      | cwd => exact dispatched_cwd (Or.inl hverb)
      | cdup => exact dispatched_cwd (Or.inr hverb)
      | quit => exact .quit _ hverb (onlyReplies_ftpSend _ _)
      | noop => exact dispatched_reply _
      | feat =>
          exact .answered _ (((onlyReplies_ftpSend _ _).append (onlyReplies_ftpSend _ _)).append
            (onlyReplies_ftpSend _ _))

/-- Only QUIT takes the control socket out of the client's record. -/
theorem Dispatched.sock {os : Os} {server server' : Server} {client client' : Client} {line : Text}
    {effects : List Effect} (h : Dispatched os server client line server' client' effects) :
    client'.sock = client.sock ∨ lineVerb line = some .quit ∧ client'.sock = none := by
  cases h with
  | transferred transfer path =>
      left
      unfold withData acceptData
      cases client.pasv <;> cases client.dataSock <;> cases os.accept <;> rfl
  | quit replies hverb => exact Or.inr ⟨hverb, rfl⟩
  | _ => exact Or.inl rfl

end Cases

end MockServices.Ftp
