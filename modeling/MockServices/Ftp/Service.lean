import Mathlib.Data.Finset.Dedup
import MockServices.Ftp.Dispatch

/-!
# The FTP server as a transition system

One thread accepts, one loop runs for each client, and `stop()` runs in a
thread of its own. A step is one section under a mutex, one look at
`running_`, or the part of a client loop between two places where it may
block: `recv` on the control socket, `accept` on the passive listener and
the transfer on the data connection. A socket is named by an identity of
its own, not by a descriptor number.
-/

namespace MockServices.Ftp

open Foundations

/-- A client, by its place in the order in which they were accepted. -/
abbrev ClientId := ℕ

/-- The transfer ends with a `recv` that answers 0 or an error. -/
def Transfer.receives (os : Os) (resolvedPath : Text) : Transfer → Bool
  | .stor => os.ofstream resolvedPath
  | _ => false

/-- Where a client loop stands, with its local data. -/
inductive Stage where
  -- The client is listed, its thread is not started.
  | accepted
  | loop
  | receiving (sock : RawSocket)
  | lines
  | accepting (listener : RawSocket) (transfer : Transfer) (resolvedPath : Text)
  | transferring (dataSock : RawSocket) (work : List Effect) (receives : Bool) (reply : Text)
  | ending
  | removing
  | done
  deriving DecidableEq

/-- The socket on which the loop may be blocked. -/
def Stage.waitsOn : Stage → Option RawSocket
  | .receiving sock => some sock
  | .accepting listener _ _ => some listener
  | .transferring dataSock _ _ _ => some dataSock
  | _ => none

/-- `partialLine` is the text received and not yet dispatched. -/
structure Loop where
  client : Client
  stage : Stage := .accepted
  partialLine : Text := []

/-- One step of a client loop. What the network or the system decides comes with it. -/
inductive Move where
  | enter
  | received (result : Option Text)
  | line (os : Os)
  | connected (os : Os)
  | transfer
  | leave
  | remove

/-- The first line without its line end, and the text after it. -/
def nextLine (text : Text) : Option (Text × Text) :=
  if '\n' ∈ text then
    let line := text.takeWhile (· ≠ '\n')
    some (if line.getLast? = some '\r' then line.dropLast else line,
      (text.dropWhile (· ≠ '\n')).drop 1)
  else none

/-- The command that the loop executes next. -/
def Loop.nextCommand (loop : Loop) : Option Text :=
  match loop.stage with
  | .lines => (nextLine loop.partialLine).bind fun next => if next.1 = [] then none else some next.1
  | _ => none

/-- The line gets a transfer command past its guards to `accept` on a
passive listener: the listener, the transfer and its path. -/
def waitsFor (client : Client) (line : Text) : Option (RawSocket × Transfer × Text) :=
  match (lineVerb line).bind Transfer.ofVerb, client.pasv, client.dataSock with
  | some transfer, true, some listener =>
      let resolvedPath := resolve client.phyRoot client.cwd (lineArg line)
      if client.auth = true ∧ client.permits transfer.need = true ∧
          (transfer = .list ∨ lineArg line ≠ []) ∧ resolvedPath ≠ [] then
        some (listener, transfer, resolvedPath)
      else none
  | _, _, _ => none

namespace Loop

/-- The transfer goes on, or its data connection is closed and the reply sent. -/
def transferOn (loop : Loop) (dataSock : RawSocket) (work : List Effect) (receives : Bool)
    (reply : Text) : Loop × List Effect :=
  if work = [] ∧ receives = false then
    ({ loop with stage := .lines }, .closeSocket dataSock :: ftpSend loop.client reply)
  else ({ loop with stage := .transferring dataSock work receives reply }, [])

def move (server : Server) (loop : Loop) (m : Move) : Option (Server × Loop × List Effect) :=
  match loop.stage, m with
  | .loop, .enter =>
      match loop.client.sock with
      | none => some (server, { loop with stage := .ending }, [])
      | some sock => some (server, { loop with stage := .receiving sock }, [])
  | .receiving _, .received result =>
      match result with
      | none | some [] => some (server, { loop with stage := .ending }, [])
      | some buffer =>
          -- The buffer is appended as a C string.
          let partialLine := loop.partialLine ++ buffer.takeWhile (· ≠ '\x00')
          some (server, { loop with stage := .lines, partialLine }, [])
  | .lines, .line os =>
      match nextLine loop.partialLine with
      | none => some (server, { loop with stage := .loop }, [])
      | some ([], partialLine) => some (server, { loop with partialLine }, [])
      | some (line, partialLine) =>
          match waitsFor loop.client line with
          | some (listener, transfer, resolvedPath) =>
              some (server, { loop with
                stage := .accepting listener transfer resolvedPath, partialLine },
                ftpSend loop.client "150 Opening data connection\r\n")
          | none =>
              let (server, client, effects) := dispatch os server loop.client line
              some (server, { loop with client, partialLine }, effects)
  | .accepting _ transfer resolvedPath, .connected os =>
      let (client, closed) := closePasv loop.client
      match os.accept with
      | none =>
          some (server, { loop with client, stage := .lines },
            closed ++ ftpSend client "425 Can't open data connection\r\n")
      | some dataSock =>
          let (work, reply) := transfer.run os resolvedPath
          let (loop, effects) := transferOn { loop with client } dataSock (work.drop 1)
            (transfer.receives os resolvedPath) reply
          some (server, loop, .openSocket dataSock :: closed ++ work.take 1 ++ effects)
  | .transferring dataSock work receives reply, .transfer =>
      match work with
      | effect :: work =>
          let (loop, effects) := loop.transferOn dataSock work receives reply
          some (server, loop, effect :: effects)
      | [] =>
          let (loop, effects) := loop.transferOn dataSock [] false reply
          some (server, loop, effects)
  | .ending, .leave =>
      let connUsers := if loop.client.auth then server.connUsers.erase loop.client.user
        else server.connUsers
      some ({ server with connUsers }, { loop with stage := .removing }, [])
  | _, _ => none

end Loop

/-- Where `accept_loop` stands. -/
inductive Acceptor where
  | head
  | waiting
  | starting (client : ClientId)
  | sweeping
  | finished
  deriving DecidableEq

/-- How far `stop()` has come: it clears `running_`, sweeps the clients,
joins the acceptor and joins the client loops. -/
inductive Phase where
  | idle
  | running
  | flagged
  | swept
  | joining
  deriving DecidableEq

/-- `owner` and `closed` record every socket handed out to a client and
every one that has been closed. -/
structure Service where
  server : Server
  phase : Phase := .idle
  acceptor : Acceptor := .finished
  clients : List ClientId := []
  loops : List Loop := []
  owner : RawSocket → Option ClientId := fun _ => none
  closed : Finset RawSocket := ∅

inductive ServiceEvent where
  | start
  | stopFlag
  | stopSweep
  | stopJoinAcceptor
  | stopJoined
  | acceptorCheck
  -- `select` has timed out or `accept` has failed.
  | acceptorAgain
  -- `select` has failed.
  | acceptorBreak
  | accept (sock : RawSocket)
  | spawn
  | acceptorSweep
  | addUser (name pass root : Text) (perm : FtpPermission)
  | addAnonymousUser (root : Text) (perm : FtpPermission)
  | clearUsers
  | client (id : ClientId) (m : Move)

def openedBy (effects : List Effect) : List RawSocket :=
  effects.filterMap fun e =>
    match e with
    | .openSocket socket => some socket
    | _ => none

def closedBy (effects : List Effect) : List RawSocket :=
  effects.filterMap fun e =>
    match e with
    | .closeSocket socket => some socket
    | _ => none

@[simp] theorem openedBy_append (es fs : List Effect) :
    openedBy (es ++ fs) = openedBy es ++ openedBy fs := List.filterMap_append

@[simp] theorem closedBy_append (es fs : List Effect) :
    closedBy (es ++ fs) = closedBy es ++ closedBy fs := List.filterMap_append

@[simp] theorem openedBy_cons_open (sock : RawSocket) (es : List Effect) :
    openedBy (.openSocket sock :: es) = sock :: openedBy es := rfl

@[simp] theorem openedBy_cons_close (sock : RawSocket) (es : List Effect) :
    openedBy (.closeSocket sock :: es) = openedBy es := rfl

@[simp] theorem closedBy_cons_open (sock : RawSocket) (es : List Effect) :
    closedBy (.openSocket sock :: es) = closedBy es := rfl

@[simp] theorem closedBy_cons_close (sock : RawSocket) (es : List Effect) :
    closedBy (.closeSocket sock :: es) = sock :: closedBy es := rfl

@[simp] theorem openedBy_ftpSend (client : Client) (msg : Text) :
    openedBy (ftpSend client msg) = [] := by
  unfold ftpSend
  split <;> rfl

@[simp] theorem closedBy_ftpSend (client : Client) (msg : Text) :
    closedBy (ftpSend client msg) = [] := by
  unfold ftpSend
  split <;> rfl

@[simp] theorem openedBy_map_close (sock : Option RawSocket) :
    openedBy (sock.toList.map .closeSocket) = [] := by cases sock <;> rfl

@[simp] theorem closedBy_map_close (sock : Option RawSocket) :
    closedBy (sock.toList.map .closeSocket) = sock.toList := by cases sock <;> rfl

namespace Service

def setLoop (s : Service) (id : ClientId) (loop : Loop) : Service :=
  { s with loops := s.loops.set id loop }

/-- `close_client` for every listed client, and `clients_.clear()`. -/
def sweep (s : Service) : Service :=
  { s with
    clients := []
    loops := s.loops.mapIdx fun id loop =>
      if id ∈ s.clients then { loop with client := (closeClient loop.client).1 } else loop
    closed := s.closed ∪ (s.clients.flatMap fun id =>
      s.loops[id]?.elim [] fun loop => closedBy (closeClient loop.client).2).toFinset }

/-- The accepted client is listed before its thread starts. -/
def acceptClient (s : Service) (sock : RawSocket) : Service :=
  { s with
    acceptor := .starting s.loops.length
    clients := s.clients ++ [s.loops.length]
    loops := s.loops ++ [{ client := { sock := some sock } }]
    owner := Function.update s.owner sock (some s.loops.length) }

def settle (s : Service) (id : ClientId) (effects : List Effect) : Service :=
  { s with
    owner := fun sock => if sock ∈ openedBy effects then some id else s.owner sock
    closed := s.closed ∪ (closedBy effects).toFinset }

/-- The section of `remove_client`. -/
def removeClient (s : Service) (id : ClientId) (loop : Loop) : Service :=
  if id ∈ s.clients then
    let closed := closeClient loop.client
    ({ s with clients := s.clients.erase id }.settle id closed.2).setLoop id
      { loop with client := closed.1, stage := .done }
  else s.setLoop id { loop with stage := .done }

/-- `thread_group::join_all` returns once every loop has. -/
def Joined (s : Service) : Prop := ∀ loop ∈ s.loops, loop.stage = .done

instance (s : Service) : Decidable s.Joined := inferInstanceAs (Decidable (∀ _ ∈ _, _))

/-- The system hands out a socket that nobody has had. An `accept` under way
still does so when another thread has closed the listener. -/
def grants (s : Service) (sock : RawSocket) : Bool := s.owner sock = none

def clientStep (s : Service) (id : ClientId) (loop : Loop) (m : Move) : Option Service :=
  match loop.stage, m with
  | .removing, .remove => some (s.removeClient id loop)
  | _, _ =>
      match loop.move s.server m with
      | none => none
      | some (server, next, effects) =>
          if (openedBy effects).Nodup ∧ (openedBy effects).all s.grants then
            some (({ s with server }.settle id effects).setLoop id next)
          else none

def startLoop (s : Service) (id : ClientId) : Service :=
  { s with
    acceptor := .head
    loops := s.loops.modify id fun loop => { loop with stage := .loop } }

def step (s : Service) : ServiceEvent → Option Service
  | .start => if s.phase = .idle then some { s with phase := .running, acceptor := .head } else none
  | .stopFlag => if s.phase = .running then some { s with phase := .flagged } else none
  | .stopSweep => if s.phase = .flagged then some { s.sweep with phase := .swept } else none
  | .stopJoinAcceptor =>
      if s.phase = .swept ∧ s.acceptor = .finished then some { s with phase := .joining } else none
  | .stopJoined =>
      if s.phase = .joining ∧ s.Joined then some { s with phase := .idle } else none
  | .acceptorCheck =>
      if s.acceptor = .head then
        some { s with acceptor := if s.phase = .running then .waiting else .sweeping }
      else none
  | .acceptorAgain => if s.acceptor = .waiting then some { s with acceptor := .head } else none
  | .acceptorBreak => if s.acceptor = .waiting then some { s with acceptor := .sweeping } else none
  | .accept sock =>
      if s.acceptor = .waiting ∧ s.owner sock = none then some (s.acceptClient sock) else none
  | .spawn =>
      match s.acceptor with
      | .starting id => some (s.startLoop id)
      | _ => none
  | .acceptorSweep =>
      if s.acceptor = .sweeping then some { s.sweep with acceptor := .finished } else none
  | .addUser name pass root perm =>
      some { s with server.users := addUser name pass root perm s.server.users }
  | .addAnonymousUser root perm =>
      some { s with server.users := addAnonymousUser root perm s.server.users }
  | .clearUsers => some { s with server.users := [] }
  | .client id m => s.loops[id]?.bind fun loop => s.clientStep id loop m

end Service

/-! ## One step of a loop -/

def Stage.reading : Stage → Bool
  | .loop | .receiving _ | .lines => true
  | _ => false

/-- The steps that lead from one command to the next. -/
def Move.reads : Move → Bool
  | .enter | .received _ | .line _ => true
  | _ => false

/-- The steps of a client loop, by what they change. -/
inductive Moved (server : Server) (loop : Loop) : Move → Server → Loop → List Effect → Prop
  | read {m} (stage : Stage) (partialLine : Text) (hm : m.reads = true)
      (hstage : loop.stage.reading = true) (hnext : stage.reading = true ∨ stage = .ending)
      (hreceiving : ∀ sock, stage = .receiving sock → loop.client.sock = some sock)
      (hcommand : loop.nextCommand = none) :
      Moved server loop m server { loop with stage, partialLine } []
  | waited (os : Os) (line partialLine : Text) (listener : RawSocket) (transfer : Transfer)
      (resolvedPath : Text) (hcommand : loop.nextCommand = some line)
      (hwaits : waitsFor loop.client line = some (listener, transfer, resolvedPath)) :
      Moved server loop (.line os) server
        { loop with stage := .accepting listener transfer resolvedPath, partialLine }
        (ftpSend loop.client "150 Opening data connection\r\n")
  | dispatched (os : Os) (line partialLine : Text) (hcommand : loop.nextCommand = some line)
      (hwaits : waitsFor loop.client line = none) :
      Moved server loop (.line os) (dispatch os server loop.client line).1
        { loop with client := (dispatch os server loop.client line).2.1, partialLine }
        (dispatch os server loop.client line).2.2
  | refused (os : Os) (listener : RawSocket) (transfer : Transfer) (resolvedPath : Text)
      (hstage : loop.stage = .accepting listener transfer resolvedPath)
      (haccept : os.accept = none) :
      Moved server loop (.connected os) server
        { loop with client := (closePasv loop.client).1, stage := .lines }
        ((closePasv loop.client).2 ++
          ftpSend loop.client "425 Can't open data connection\r\n")
  | begun (os : Os) (listener dataSock : RawSocket) (transfer : Transfer) (resolvedPath : Text)
      (hstage : loop.stage = .accepting listener transfer resolvedPath)
      (haccept : os.accept = some dataSock) :
      Moved server loop (.connected os) server
        (Loop.transferOn { loop with client := (closePasv loop.client).1 } dataSock
          ((transfer.run os resolvedPath).1.drop 1) (transfer.receives os resolvedPath)
          (transfer.run os resolvedPath).2).1
        (.openSocket dataSock :: (closePasv loop.client).2 ++
          (transfer.run os resolvedPath).1.take 1 ++
          (Loop.transferOn { loop with client := (closePasv loop.client).1 } dataSock
            ((transfer.run os resolvedPath).1.drop 1) (transfer.receives os resolvedPath)
            (transfer.run os resolvedPath).2).2)
  | carried (dataSock : RawSocket) (work rest : List Effect) (receives next : Bool) (reply : Text)
      (hstage : loop.stage = .transferring dataSock work receives reply)
      (hrest : rest = work.drop 1) (hnext : next = (receives && work ≠ [])) :
      Moved server loop .transfer server (loop.transferOn dataSock rest next reply).1
        (work.take 1 ++ (loop.transferOn dataSock rest next reply).2)
  | left (hstage : loop.stage = .ending) :
      Moved server loop .leave
        { server with
          connUsers := if loop.client.auth then server.connUsers.erase loop.client.user
            else server.connUsers }
        { loop with stage := .removing } []

theorem moved {server server' : Server} {loop loop' : Loop} {m : Move} {effects : List Effect}
    (h : loop.move server m = some (server', loop', effects)) :
    Moved server loop m server' loop' effects := by
  unfold Loop.move at h
  split at h
  case h_1 hstage =>
      have hcommand : loop.nextCommand = none := by simp only [Loop.nextCommand, hstage]
      split at h
      · cases h
        exact .read .ending loop.partialLine rfl (by rw [hstage]; rfl) (Or.inr rfl) (by simp)
          hcommand
      · next sock hsock =>
          cases h
          exact .read (.receiving sock) loop.partialLine rfl (by rw [hstage]; rfl)
            (Or.inl rfl) (by simp [hsock]) hcommand
  case h_2 hstage =>
      have hcommand : loop.nextCommand = none := by simp only [Loop.nextCommand, hstage]
      split at h
      · cases h
        exact .read .ending loop.partialLine rfl (by rw [hstage]; rfl) (Or.inr rfl) (by simp)
          hcommand
      · cases h
        exact .read .ending loop.partialLine rfl (by rw [hstage]; rfl) (Or.inr rfl) (by simp)
          hcommand
      · cases h
        exact .read .lines _ rfl (by rw [hstage]; rfl) (Or.inl rfl) (by simp) hcommand
  case h_3 os hstage =>
      split at h
      · next hline =>
          cases h
          exact .read .loop loop.partialLine rfl (by rw [hstage]; rfl) (Or.inl rfl) (by simp)
            (by simp only [Loop.nextCommand, hstage, hline, Option.bind_none])
      · next rest hline =>
          cases h
          have hcommand : loop.nextCommand = none := by
            simp only [Loop.nextCommand, hstage, hline, Option.bind_some, if_true]
          have hread : Moved server loop (.line os) _ _ _ := .read loop.stage rest
            rfl (by rw [hstage]; rfl) (Or.inl (by rw [hstage]; rfl)) (by simp [hstage]) hcommand
          exact hread
      · next line rest hnonempty hline =>
          have hcommand : loop.nextCommand = some line := by
            simp only [Loop.nextCommand, hstage, hline, Option.bind_some]
            exact if_neg hnonempty
          split at h
          · next listener transfer resolvedPath hwaits =>
              cases h
              exact .waited os line rest listener transfer resolvedPath hcommand hwaits
          · next hwaits =>
              cases h
              have hdispatched : Moved server loop (.line os) _ _ _ :=
                .dispatched os line rest hcommand hwaits
              exact hdispatched
  case h_4 listener transfer resolvedPath os hstage =>
      dsimp only at h
      split at h
      · next haccept =>
          cases h
          exact .refused os listener transfer resolvedPath hstage haccept
      · next dataSock haccept =>
          cases h
          exact .begun os listener dataSock transfer resolvedPath hstage haccept
  case h_5 dataSock work receives reply hstage =>
      split at h
      · next effect rest =>
          cases h
          exact .carried dataSock (effect :: rest) rest receives receives reply hstage rfl (by simp)
      · cases h
        exact .carried dataSock [] [] receives false reply hstage rfl (by simp)
  case h_6 hstage =>
      cases h
      exact .left hstage
  case h_7 => cases h

theorem Service.owner_of_grants {s : Service} {sock : RawSocket} (h : s.grants sock = true) :
    s.owner sock = none := of_decide_eq_true h

/-- A client's step is its loop's, or it takes itself off the list. -/
theorem Service.clientStep_cases {s t : Service} {id : ClientId} {loop : Loop} {m : Move}
    (h : s.clientStep id loop m = some t) :
    (loop.stage = .removing ∧ m = .remove ∧ t = s.removeClient id loop) ∨
      ∃ server next effects, loop.move s.server m = some (server, next, effects) ∧
        (openedBy effects).Nodup ∧ (∀ sock ∈ openedBy effects, s.grants sock = true) ∧
          t = ({ s with server }.settle id effects).setLoop id next := by
  unfold clientStep at h
  split at h
  · next hstage => exact Or.inl ⟨hstage, rfl, (Option.some.inj h).symm⟩
  · split at h
    · cases h
    · next server next effects hmove =>
        obtain ⟨⟨hdistinct, hopened⟩, ht⟩ := Option.ite_none_right_eq_some.mp h
        refine Or.inr ⟨server, next, effects, hmove, hdistinct, ?_, (Option.some.inj ht).symm⟩
        simpa using hopened

theorem Service.clientStep_of_grants {s : Service} (id : ClientId) {loop next : Loop} {m : Move}
    {server : Server} {effects : List Effect}
    (hmove : loop.move s.server m = some (server, next, effects))
    (hdistinct : (openedBy effects).Nodup)
    (hopened : ∀ sock ∈ openedBy effects, s.grants sock = true) :
    s.clientStep id loop m = some (({ s with server }.settle id effects).setLoop id next) := by
  unfold clientStep
  split
  · next hstage => simp [Loop.move, hstage] at hmove
  · rw [hmove]
    exact if_pos ⟨hdistinct, List.all_eq_true.mpr hopened⟩

theorem Service.clientStep_of_move {s : Service} (id : ClientId) {loop next : Loop} {m : Move}
    {server : Server} {effects : List Effect}
    (hmove : loop.move s.server m = some (server, next, effects))
    (hopened : openedBy effects = []) :
    s.clientStep id loop m = some (({ s with server }.settle id effects).setLoop id next) :=
  clientStep_of_grants id hmove (by simp [hopened]) (by simp [hopened])

/-! ## An undisturbed transfer is the command -/

/-- A loop's step, with the effects so far. -/
def Loop.logged (s : Server × Loop × List Effect) (m : Move) :
    Option (Server × Loop × List Effect) :=
  (s.2.1.move s.1 m).map fun r => (r.1, r.2.1, s.2.2 ++ r.2.2)

theorem transferOn_run (server : Server) (loop : Loop) (dataSock : RawSocket) (work : List Effect)
    (receives : Bool) (reply : Text) (log : List Effect) :
    ∃ moves, run Loop.logged
      (server, (loop.transferOn dataSock work receives reply).1,
        log ++ (loop.transferOn dataSock work receives reply).2) moves =
      some (server, { loop with stage := .lines },
        log ++ work ++ .closeSocket dataSock :: ftpSend loop.client reply) := by
  induction work generalizing log with
  | nil =>
      cases receives with
      | false => exact ⟨[], by simp [Loop.transferOn]⟩
      | true => exact ⟨[.transfer], by simp [Loop.transferOn, run, Loop.logged, Loop.move]⟩
  | cons effect work ih =>
      obtain ⟨moves, hmoves⟩ := ih (log ++ [effect])
      refine ⟨.transfer :: moves, ?_⟩
      have hstep : Loop.logged
          (server, (loop.transferOn dataSock (effect :: work) receives reply).1,
          log ++ (loop.transferOn dataSock (effect :: work) receives reply).2) .transfer =
          some (server, (loop.transferOn dataSock work receives reply).1,
            log ++ [effect] ++ (loop.transferOn dataSock work receives reply).2) := by
        simp [Loop.logged, Loop.move, Loop.transferOn]
      rw [run_cons, hstep, Option.bind_some, hmoves]
      simp

theorem withPath_admitted {client : Client} {need : FtpPermission} {emptyOk : Bool}
    {invalid arg : Text} {next : Text → Outcome} (hauth : client.auth = true)
    (hpermits : client.permits need = true) (harg : emptyOk = true ∨ arg ≠ [])
    (hpath : resolve client.phyRoot client.cwd arg ≠ []) :
    withPath client need emptyOk invalid arg next =
      next (resolve client.phyRoot client.cwd arg) := by
  have hsyntax : ¬ (!emptyOk && arg.isEmpty) = true := by
    rcases harg with rfl | harg
    · simp
    · simp [harg]
  simp only [withPath, requireAuth, requirePerm, hauth, hpermits, hsyntax, hpath, if_true, if_false,
    Bool.false_eq_true]

theorem waitsFor_listening {client : Client} {line : Text} {listener : RawSocket}
    {transfer : Transfer} {resolvedPath : Text}
    (h : waitsFor client line = some (listener, transfer, resolvedPath)) :
    client.pasv = true ∧ client.dataSock = some listener := by
  unfold waitsFor at h
  split at h
  case h_1 hpasv hlistener =>
      obtain ⟨-, heq⟩ := Option.ite_none_right_eq_some.mp h
      cases heq
      exact ⟨hpasv, hlistener⟩
  case h_2 => cases h

/-- What `dispatch` does with a line that gets to `accept` on a listener. -/
theorem dispatch_of_waitsFor (os : Os) (server : Server) {client : Client} {line : Text}
    {listener : RawSocket} {transfer : Transfer} {resolvedPath : Text}
    (h : waitsFor client line = some (listener, transfer, resolvedPath)) :
    dispatch os server client line =
      (server, withData os client (transfer.run os resolvedPath)) := by
  unfold waitsFor at h
  split at h
  case h_1 htransfer _ _ =>
      obtain ⟨⟨hauth, hpermits, harg, hpath⟩, heq⟩ := Option.ite_none_right_eq_some.mp h
      cases heq
      obtain ⟨verb, hverb, hof⟩ := Option.bind_eq_some_iff.mp htransfer
      rw [dispatch_eq, hverb]
      cases verb with
      | list =>
          cases hof
          exact congrArg (Prod.mk server) (withPath_admitted hauth hpermits (Or.inl rfl) hpath)
      | retr | stor =>
          cases hof
          exact congrArg (Prod.mk server)
            (withPath_admitted hauth hpermits (Or.inr (harg.resolve_left (by simp))) hpath)
      | _ => cases hof
  case h_2 => cases h

theorem nextCommand_eq_some_iff {loop : Loop} {line : Text} :
    loop.nextCommand = some line ↔ loop.stage = .lines ∧
      (∃ partialLine, nextLine loop.partialLine = some (line, partialLine)) ∧ line ≠ [] := by
  unfold Loop.nextCommand
  split
  · next hstage =>
      cases hline : nextLine loop.partialLine with
      | none => simp
      | some next =>
          obtain ⟨first, rest⟩ := next
          by_cases hfirst : first = []
          · simp [hfirst]
          · simp [hstage, hfirst]
            rintro rfl
            exact hfirst
  · next hstage => exact iff_of_false (by simp) fun h => hstage h.1

/-- A command is dispatched, or gets to `accept` on a listener. -/
theorem move_line (os : Os) (server : Server) {loop : Loop} {line : Text}
    (hcommand : loop.nextCommand = some line) : ∃ partialLine,
    nextLine loop.partialLine = some (line, partialLine) ∧ loop.move server (.line os) =
      match waitsFor loop.client line with
      | some (listener, transfer, resolvedPath) =>
          some (server, { loop with
            stage := .accepting listener transfer resolvedPath, partialLine },
            ftpSend loop.client "150 Opening data connection\r\n")
      | none =>
          some ((dispatch os server loop.client line).1,
            { loop with client := (dispatch os server loop.client line).2.1, partialLine },
            (dispatch os server loop.client line).2.2) := by
  obtain ⟨hstage, ⟨partialLine, hline⟩, hne⟩ := nextCommand_eq_some_iff.mp hcommand
  refine ⟨partialLine, hline, ?_⟩
  obtain ⟨c, cs, rfl⟩ := List.exists_cons_of_ne_nil hne
  simp only [Loop.move, hstage, hline]

theorem move_connected (os : Os) (server : Server) {loop : Loop} {listener : RawSocket}
    {transfer : Transfer} {resolvedPath : Text}
    (hstage : loop.stage = .accepting listener transfer resolvedPath) :
    loop.move server (.connected os) =
      match os.accept with
      | none =>
          some (server, { loop with client := (closePasv loop.client).1, stage := .lines },
            (closePasv loop.client).2 ++
              ftpSend loop.client "425 Can't open data connection\r\n")
      | some dataSock =>
          let loop' := Loop.transferOn { loop with client := (closePasv loop.client).1 } dataSock
            ((transfer.run os resolvedPath).1.drop 1) (transfer.receives os resolvedPath)
            (transfer.run os resolvedPath).2
          some (server, loop'.1, .openSocket dataSock :: (closePasv loop.client).2 ++
            (transfer.run os resolvedPath).1.take 1 ++ loop'.2) := by
  simp only [Loop.move, hstage]
  rfl

/-- A loop that nothing disturbs does what `dispatch` does with the line. -/
theorem undisturbed_transfer (os : Os) (server : Server) {loop : Loop} {line : Text}
    (hcommand : loop.nextCommand = some line) (hwaits : waitsFor loop.client line ≠ none) :
    ∃ moves partialLine, nextLine loop.partialLine = some (line, partialLine) ∧
      run Loop.logged (server, loop, []) (.line os :: .connected os :: moves) =
      some ((dispatch os server loop.client line).1,
        { loop with client := (dispatch os server loop.client line).2.1, partialLine },
        (dispatch os server loop.client line).2.2) := by
  obtain ⟨⟨listener, transfer, resolvedPath⟩, hwaits⟩ := Option.ne_none_iff_exists'.mp hwaits
  have hdispatch := dispatch_of_waitsFor os server hwaits
  obtain ⟨hpasv, hlistener⟩ := waitsFor_listening hwaits
  obtain ⟨partialLine, hrest, hline⟩ := move_line os server hcommand
  have hstage := (nextCommand_eq_some_iff.mp hcommand).1
  rw [hdispatch, withData_listening os _ hpasv hlistener]
  -- `accept` is reached, and the listener is closed whatever it answers.
  let waiting : Loop :=
    { loop with stage := .accepting listener transfer resolvedPath, partialLine }
  let opening := ftpSend loop.client "150 Opening data connection\r\n"
  have hopen : Loop.logged (server, loop, []) (.line os) = some (server, waiting, opening) := by
    rw [hwaits] at hline
    simp only [Loop.logged, hline, Option.map_some, List.nil_append, waiting, opening]
  have hwaiting : waiting.stage = .accepting listener transfer resolvedPath := rfl
  have hconnected := move_connected os server hwaiting
  have hlogged : Loop.logged (server, waiting, opening) (.connected os) =
      (waiting.move server (.connected os)).map fun r => (r.1, r.2.1, opening ++ r.2.2) := rfl
  cases haccept : os.accept with
  | none =>
      rw [haccept] at hconnected
      refine ⟨[], partialLine, hrest, ?_⟩
      rw [run_cons, hopen, Option.bind_some, run_cons, hlogged, hconnected]
      simp [waiting, opening, hstage]
  | some dataSock =>
      rw [haccept] at hconnected
      obtain ⟨moves, hmoves⟩ := transferOn_run server
        { waiting with client := (closePasv loop.client).1 } dataSock
        ((transfer.run os resolvedPath).1.drop 1) (transfer.receives os resolvedPath)
        (transfer.run os resolvedPath).2
        (opening ++ .openSocket dataSock :: (closePasv loop.client).2 ++
          (transfer.run os resolvedPath).1.take 1)
      refine ⟨moves, partialLine, hrest, ?_⟩
      rw [run_cons, hopen, Option.bind_some, run_cons, hlogged, hconnected]
      simp only [Option.map_some, Option.bind_some]
      have hwork := List.take_append_drop 1 (transfer.run os resolvedPath).1
      have hsend : ∀ msg, ftpSend (closePasv loop.client).1 msg = ftpSend loop.client msg :=
        fun _ => rfl
      rw [List.append_assoc _ _ ((transfer.run os resolvedPath).1.drop 1), hwork] at hmoves
      simpa only [List.append_assoc, List.cons_append, hsend, hstage, waiting, opening] using hmoves

end MockServices.Ftp
