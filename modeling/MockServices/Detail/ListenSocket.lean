import MockServices.Foundations.Pool
import MockServices.Foundations.Run
import MockServices.Foundations.Throwing
import MockServices.Text

/-!
# The listening sockets

The FTP and the MQTT server open a socket in `start()` and wait on it in a
loop of its own thread. The FTP loop closes the socket itself, as it ends:
so it never waits on one that is closed, but the socket stays open when
there is no thread to run the loop. The MQTT server closes it in `stop()`,
before it joins the loop: so it is always closed, and the loop may still be
about to wait on it.
-/

namespace MockServices.Detail

open Foundations

inductive TcpServer where
  | ftp
  | mqtt
  deriving DecidableEq

def TcpServer.name : TcpServer → Text
  | .ftp => "ftp_server"
  | .mqtt => "mqtt_server"

inductive StartFailure where
  | thrown (what : Text)
  /-- What `std::thread` throws when there is no thread to be had. -/
  | noThread
  deriving DecidableEq

/-- Where `accept_loop` stands: before its condition, before `FD_SET` and
`select`, before `accept`, with a client, and at what follows the loop. -/
inductive AcceptPoint where
  | checking
  | selecting
  | accepting
  | serving
  | closing
  | ended
  deriving DecidableEq

/-- What `stop()` does next. -/
inductive StopPoint where
  | closing
  | invalidating
  | joining
  deriving DecidableEq

/-- A server as far as its listening socket goes. -/
structure Listening where
  sockets : Pool := {}
  /-- `ctrl_`, or `listen_sock_`. -/
  sock : Option ℕ := none
  port : ℕ := 0
  running : Bool := false
  /-- `acceptor_`, when it is joinable. -/
  acceptor : Option AcceptPoint := none
  stopping : Option StopPoint := none
  failure : Option StartFailure := none

/-- What the system answers in `start()`. -/
structure ListenAnswers where
  socket : Bool
  bind : Bool
  /-- The port that `getsockname` finds. -/
  sockname : Option ℕ
  listen : Bool
  thread : Bool

/-- The socket is open, and the server listens. -/
def ListenAnswers.opened (answers : ListenAnswers) : Bool :=
  answers.socket && answers.bind && answers.sockname.isSome && answers.listen

inductive Selected where
  | failed
  | timeout
  | ready

inductive AcceptAction where
  | check
  | select (selected : Selected)
  | accept (ok : Bool)
  | serve
  | close

inductive ListenEvent where
  | start (answers : ListenAnswers)
  | stop
  /-- The next step of `stop()`. -/
  | proceed
  | loop (action : AcceptAction)

abbrev StartCall := EStateM StartFailure Listening

namespace Listening

/-- `::socket`, whose answer replaces what the field has. -/
def openSocket (ok : Bool) (s : Listening) : Listening :=
  if ok then { s with sockets := s.sockets.alloc, sock := some s.sockets.next }
  else { s with sock := none }

def closeSocket (s : Listening) : Listening :=
  { s with sockets := s.sockets.freeAll s.sock.toList, sock := none }

/-- A call on the socket. When it fails, the socket is closed. -/
def onSocket (ok : Bool) (what : Text) : StartCall Unit :=
  if ok then pure ()
  else do
    modify closeSocket
    throw (.thrown what)

def requireStopped (server : TcpServer) : StartCall Unit := fun s =>
  require (!s.running) (.thrown (server.name ++ txt " is already running")) s

def start (server : TcpServer) (answers : ListenAnswers) : StartCall Unit := do
  requireStopped server
  modify (openSocket answers.socket)
  require answers.socket (.thrown (txt "socket creation failed"))
  onSocket answers.bind (txt "bind failed")
  onSocket answers.sockname.isSome (txt "getsockname failed")
  modify fun s => { s with port := answers.sockname.getD 0 }
  onSocket answers.listen (txt "listen failed")
  modify fun s => { s with running := true }
  require answers.thread .noThread
  modify fun s => { s with acceptor := some .checking }

def settle : EStateM.Result StartFailure Listening Unit → Listening
  | .ok _ t => { t with failure := none }
  | .error e t => { t with failure := some e }

/-- Only the MQTT server closes the socket before it joins the loop. -/
def enterStop (server : TcpServer) (s : Listening) : Listening :=
  if s.running then
    { s with
      running := false
      stopping := some (match server with | .ftp => .joining | .mqtt => .closing) }
  else s

def proceed (s : Listening) : Option Listening :=
  match s.stopping with
  | none => none
  | some .closing =>
      if s.sock.isSome then
        some { s with
          sockets := s.sockets.freeAll s.sock.toList
          stopping := some .invalidating }
      else some { s with stopping := some .joining }
  | some .invalidating => some { s with sock := none, stopping := some .joining }
  | some .joining =>
      match s.acceptor with
      | none | some .ended => some { s with acceptor := none, stopping := none }
      | some _ => none

/-- Only the FTP loop goes on to close the socket. -/
def leaveLoop (server : TcpServer) (s : Listening) : Listening :=
  { s with acceptor := some (match server with | .ftp => .closing | .mqtt => .ended) }

/-- One step of `accept_loop`. -/
def loopStep (server : TcpServer) (s : Listening) : AcceptPoint → AcceptAction → Option Listening
  | .checking, .check =>
      some (if s.running then { s with acceptor := some .selecting } else s.leaveLoop server)
  | .selecting, .select .failed => some (s.leaveLoop server)
  | .selecting, .select .timeout => some { s with acceptor := some .checking }
  | .selecting, .select .ready => some { s with acceptor := some .accepting }
  | .accepting, .accept ok => some { s with acceptor := some (if ok then .serving else .checking) }
  | .serving, .serve => some { s with acceptor := some .checking }
  | .closing, .close => some { s.closeSocket with acceptor := some .ended }
  | _, _ => none

def step (server : TcpServer) (s : Listening) : ListenEvent → Option Listening
  | .start answers => if s.stopping = none then some (settle (start server answers s)) else none
  | .stop => if s.stopping = none then some (s.enterStop server) else none
  | .proceed => s.proceed
  | .loop action => s.acceptor.bind fun point => s.loopStep server point action

/-- The loop is about to hand its socket to the system. -/
def Waits (s : Listening) : Prop :=
  s.acceptor = some .selecting ∨ s.acceptor = some .accepting

/-- What the loop is about to hand over is no open socket. -/
def Exposed (s : Listening) : Prop := s.Waits ∧ ∀ sock ∈ s.sock, sock ∈ s.sockets.freed

/-- Somebody will close the socket that the field has. -/
def HasCloser (server : TcpServer) (s : Listening) : Prop :=
  match server with
  | .ftp => ∃ point, s.acceptor = some point ∧ point ≠ .ended
  | .mqtt => s.running = true ∨ s.stopping = some .closing

/-- Every socket has been closed, and once, or it is the one that is going
to be closed. -/
structure Tidy (server : TcpServer) (s : Listening) : Prop where
  once : s.sockets.freed.Nodup
  rest : ∀ sock < s.sockets.next,
    sock ∈ s.sockets.freed ∨ s.sock = some sock ∧ s.HasCloser server

/-- `start()` comes to its thread. -/
def Launches (s : Listening) (answers : ListenAnswers) : Prop :=
  s.running = false ∧ s.stopping = none ∧ answers.opened = true

end Listening

end MockServices.Detail
