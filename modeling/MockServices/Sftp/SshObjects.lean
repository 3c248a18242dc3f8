import MockServices.Foundations.Pool
import MockServices.Foundations.Run
import MockServices.Foundations.Throwing
import MockServices.Text

/-!
# The objects of libssh that the server owns

`bind_` and `hostkey_` free what they point to when they are reset or
destroyed. A bind owns the key that it has imported, and the server gives up
its own hold of the key then. `start()` and the constructor may throw at any
call, and the acceptor uses the bind from a thread of its own until `stop()`
has joined it.
-/

namespace MockServices.Sftp

open Foundations

/-- What stands behind an `ssh_bind`. -/
structure SshBind where
  id : ℕ
  imported : Option ℕ := none
  listening : Bool := false

/-- What `ssh_bind_free` frees. -/
def SshBind.objects (bind : SshBind) : List ℕ := bind.id :: bind.imported.toList

inductive SshFailure where
  | thrown (what : Text)
  /-- What `std::thread` throws when there is no thread to be had. -/
  | noThread
  /-- A pointer that is null, or to what has been freed, is read. -/
  | invalidRead
  deriving DecidableEq

/-- How far the constructor, `stop()` and the destructor have come. -/
inductive OwnerPhase where
  | unborn
  | idle
  | running
  | joining
  | resetting
  | destroyed
  deriving DecidableEq

/-- Where `acceptor_loop` stands, as far as it uses the bind. -/
inductive BindUse where
  | checking
  | accepting
  | exchanging
  | ended
  deriving DecidableEq

structure SshOwner where
  /-- The binds, keys and key contexts that libssh has handed out. -/
  ssh : Pool := {}
  bind : Option SshBind := none
  hostkey : Option ℕ := none
  port : ℕ := 0
  phase : OwnerPhase := .unborn
  destroying : Bool := false
  /-- `accept_thread_`, when it is joinable. -/
  acceptor : Option BindUse := none
  /-- What the last call has thrown. -/
  failure : Option SshFailure := none

/-- What libssh answers in `generate_rsa_key`. -/
structure KeyAnswers where
  context : Bool
  generate : Bool

/-- What libssh and the system answer in `start()`. -/
structure StartAnswers where
  bind : Bool
  key : KeyAnswers
  bindAddr : Bool
  bindPort : Bool
  importKey : Bool
  listen : Bool
  /-- What `ssh_get_error` says of the bind. -/
  error : Option Text
  /-- The port that `getsockname` finds. -/
  sockname : Option ℕ
  thread : Bool

/-- The options are taken, and the bind listens or its error can be read. -/
def StartAnswers.accepted (outlives : Bool) (answers : StartAnswers) : Bool :=
  answers.bindAddr && answers.bindPort && answers.importKey && (answers.listen || outlives)

/-- What libssh and the system answer in the constructor, and what `TempDir`
throws. -/
structure ConstructorAnswers where
  bind : Bool
  key : KeyAnswers
  tempDir : Option Text

inductive BindAction where
  /-- The condition of the loop, and whether `ssh_new` makes a session. -/
  | check (session : Bool)
  | accept (ok : Bool)
  | exchange (ok : Bool)

inductive OwnerEvent where
  | construct (answers : ConstructorAnswers)
  | start (answers : StartAnswers)
  | stop
  /-- The next step of `stop()`. -/
  | proceed
  | destroy
  | acceptor (action : BindAction)

abbrev SshCall := EStateM SshFailure SshOwner

/-- `std::string` of a pointer. -/
def readText : Option Text → SshCall Text
  | none => throw .invalidRead
  | some text => pure text

namespace SshOwner

/-- What `bind_` owns. -/
def bound (s : SshOwner) : List ℕ := s.bind.elim [] SshBind.objects

/-- What `bind_` and `hostkey_` own. -/
def held (s : SshOwner) : List ℕ := s.bound ++ s.hostkey.toList

def isRunning (s : SshOwner) : Bool := s.phase = .running

/-- `ssh_bind_new`, `ssh_pki_ctx_new` and `ssh_pki_generate_key`, when they succeed. -/
def newObject : SshCall ℕ := fun s => .ok s.ssh.next { s with ssh := s.ssh.alloc }

/-- `ssh_bind_ptr::reset` -/
def resetBind (s : SshOwner) : SshOwner := { s with ssh := s.ssh.freeAll s.bound, bind := none }

/-- `~ssh_key_ptr` -/
def dropHostkey (s : SshOwner) : SshOwner :=
  { s with ssh := s.ssh.freeAll s.hostkey.toList, hostkey := none }

/-- The constructor of `ssh_bind_ptr`, and the move into `bind_`. -/
def newBind (ok : Bool) : SshCall Unit := do
  require ok (.thrown (txt "ssh_bind_new failed"))
  let id ← newObject
  modify fun s => { s.resetBind with bind := some { id } }

def generateKey (ok : Bool) : SshCall (Option ℕ) :=
  if ok then do
    let raw ← newObject
    return some raw
  else return none

/-- The end of `generate_rsa_key`, and the move into `hostkey_`. -/
def takeHostkey : Option ℕ → SshCall Unit
  | none => throw (.thrown (txt "Failed to generate RSA host key"))
  | some raw => modify fun s => { s.dropHostkey with hostkey := some raw }

/-- `hostkey_ = ssh_key_ptr(generate_rsa_key())` -/
def newHostkey (answers : KeyAnswers) : SshCall Unit := do
  require answers.context (.thrown (txt "Failed to create PKI context"))
  let pk ← newObject
  let raw ← generateKey answers.generate
  modify fun s => { s with ssh := s.ssh.free pk }
  takeHostkey raw

/-- `ssh_get_error` reads from the object that it is given. -/
def getError (error : Option Text) : SshCall (Option Text) := fun s =>
  match s.bind with
  | none => .error .invalidRead s
  | some _ => .ok error s

/-- `ssh_bind_options_set`. When it fails, the bind is reset before it is
asked for the error. -/
def setOption (name : Text) (ok : Bool) (error : Option Text) : SshCall Unit :=
  if ok then pure ()
  else do
    modify resetBind
    let err ← getError error
    let text ← readText err
    throw (.thrown (txt "ssh_bind_options_set " ++ name ++ txt " failed: " ++ text))

/-- The bind frees the key that it had, takes the new one, and the server
releases it. -/
def importHostkey (s : SshOwner) : SshOwner :=
  match s.bind, s.hostkey with
  | some bind, some key =>
      { s with
        ssh := s.ssh.freeAll bind.imported.toList
        bind := some { bind with imported := some key }
        hostkey := none }
  | _, _ => s

def importKey (ok : Bool) (error : Option Text) : SshCall Unit := fun s =>
  match s.hostkey with
  | none => .ok () s
  | some _ =>
      (do
        setOption (txt "IMPORT_KEY") ok error
        modify importHostkey) s

/-- `ssh_bind_listen`. When it fails, the error is asked for before the bind
is reset, and read after it; `outlives` says whether it is still there then. -/
def listen (outlives ok : Bool) (error : Option Text) : SshCall Unit :=
  if ok then
    modify fun s => { s with bind := s.bind.map fun bind => { bind with listening := true } }
  else do
    let err ← getError error
    modify resetBind
    if outlives then
      throw (.thrown (txt "ssh_bind_listen failed: " ++ err.getD (txt "unknown error")))
    else throw .invalidRead

def readPort : Option ℕ → SshCall Unit
  | none => do
      modify resetBind
      throw (.thrown (txt "getsockname after ssh_bind_listen failed"))
  | some port => modify fun s => { s with port, phase := .running }

def startThread (ok : Bool) : SshCall Unit :=
  if ok then modify fun s => { s with acceptor := some .checking } else throw .noThread

def ensureBind (ok : Bool) : SshCall Unit := fun s =>
  match s.bind with
  | none => newBind ok s
  | some _ => .ok () s

def ensureHostkey (answers : KeyAnswers) : SshCall Unit := fun s =>
  match s.hostkey with
  | none => newHostkey answers s
  | some _ => .ok () s

def requireStopped : SshCall Unit := fun s =>
  require (!s.isRunning) (.thrown (txt "sftp_server is already running")) s

/-- `start()`, up to the first use of the bind. -/
def prepare (answers : StartAnswers) : SshCall Unit := do
  requireStopped
  ensureBind answers.bind
  ensureHostkey answers.key

/-- The rest of `start()`. -/
def openBind (outlives : Bool) (answers : StartAnswers) : SshCall Unit := do
  setOption (txt "BINDADDR") answers.bindAddr answers.error
  setOption (txt "BINDPORT") answers.bindPort answers.error
  importKey answers.importKey answers.error
  listen outlives answers.listen answers.error
  readPort answers.sockname
  startThread answers.thread

def start (outlives : Bool) (answers : StartAnswers) : SshCall Unit := do
  prepare answers
  openBind outlives answers

def makeTempDir : Option Text → SshCall Unit
  | some what => throw (.thrown what)
  | none => modify fun s => { s with phase := .idle }

/-- The constructor. -/
def construct (answers : ConstructorAnswers) : SshCall Unit := do
  newBind answers.bind
  newHostkey answers.key
  makeTempDir answers.tempDir

/-- The members are destroyed from the last to the first. -/
def dropMembers (s : SshOwner) : SshOwner :=
  { s.dropHostkey.resetBind with phase := .destroyed }

/-- `stop()`, until it waits for the acceptor. -/
def enterStop (s : SshOwner) : SshOwner := if s.isRunning then { s with phase := .joining } else s

def destroy (s : SshOwner) : SshOwner :=
  if s.isRunning then { s with phase := .joining, destroying := true } else s.dropMembers

/-- The end of `stop()`. -/
def leaveStop (s : SshOwner) : SshOwner :=
  let s := { s.resetBind with port := 0, phase := .idle }
  if s.destroying then s.dropMembers else s

def proceed (s : SshOwner) : Option SshOwner :=
  match s.phase, s.acceptor with
  | .joining, none => some { s with phase := .resetting }
  | .joining, some .ended => some { s with acceptor := none, phase := .resetting }
  | .resetting, _ => some s.leaveStop
  | _, _ => none

/-- Where the loop of the acceptor goes on after a session has come to nothing. -/
def goOn (s : SshOwner) : SshOwner :=
  { s with acceptor := some (if s.isRunning then .checking else .ended) }

/-- `ssh_bind_accept`, and the two checks after it. -/
def accept (s : SshOwner) (ok : Bool) : SshOwner :=
  if s.bind.any SshBind.listening then
    if ok && s.isRunning then { s with acceptor := some .exchanging } else s.goOn
  else { s with failure := some .invalidRead }

/-- One step of `acceptor_loop`. -/
def acceptorStep (s : SshOwner) : BindUse → BindAction → Option SshOwner
  | .checking, .check session =>
      if s.isRunning then
        some { s with acceptor := some (if session then .accepting else .checking) }
      else some { s with acceptor := some .ended }
  | .accepting, .accept ok => some (s.accept ok)
  | .exchanging, .exchange ok =>
      if ok then some { s with acceptor := some .checking } else some s.goOn
  | _, _ => none

/-- A call is over. What it has thrown is the caller's. -/
def settle (unwind : SshOwner → SshOwner) : EStateM.Result SshFailure SshOwner Unit → SshOwner
  | .ok _ t => { t with failure := none }
  | .error e t => { unwind t with failure := some e }

/-- Nobody calls `start`, `stop` or the destructor while one of them is not
through. -/
def Callable (s : SshOwner) : Prop := s.phase = .idle ∨ s.phase = .running

instance (s : SshOwner) : Decidable s.Callable := inferInstanceAs (Decidable (_ ∨ _))

/-- After an invalid read anything may happen, and nothing is said. -/
def step (outlives : Bool) (s : SshOwner) (event : OwnerEvent) : Option SshOwner :=
  if s.failure = some .invalidRead then none
  else match event with
    | .construct answers =>
        if s.phase = .unborn then some (settle dropMembers (construct answers s)) else none
    | .start answers => if s.Callable then some (settle id (start outlives answers s)) else none
    | .stop => if s.Callable then some s.enterStop else none
    | .destroy => if s.Callable then some s.destroy else none
    | .proceed => s.proceed
    | .acceptor action => s.acceptor.bind fun use => s.acceptorStep use action

/-- Everything that libssh has handed out is the server's or has been freed
once, and the server listens, with a host key, from the end of `start()` to
the end of `stop()`. -/
structure InCustody (s : SshOwner) : Prop where
  accounts : s.ssh.Accounts s.held
  listening : (∃ bind ∈ s.bind, bind.listening = true) ↔
    s.phase = .running ∨ s.phase = .joining ∨ s.phase = .resetting
  keyed : ∀ bind ∈ s.bind, bind.listening = true → bind.imported.isSome = true
  accepting : s.acceptor = some .accepting → ∃ bind ∈ s.bind, bind.listening = true
  port : s.phase = .idle → s.port = 0
  gone : s.phase = .destroyed → s.held = []

end SshOwner

end MockServices.Sftp
