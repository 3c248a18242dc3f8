import MockServices.Foundations.Tenure
import MockServices.Sftp.Accounts
import MockServices.Sftp.Teardown

/-!
# The SFTP server

The acceptor thread makes the sessions and hands each one to a thread of
its own, which waits for the SFTP subsystem, looks up the user, serves the
messages and frees the session. The threads share the accounts, the
handshake states and the system; every section under a mutex and every
call of a handler is one step.
-/

namespace MockServices.Sftp

open Foundations

/-- An `ssh_channel` pointer. -/
abbrev Channel := ℕ

structure HandshakeState where
  pendingChannel : Option Channel := none
  subsystemAccepted : Bool := false

/-- What libssh calls back while it handles the packets of a session. The
channel is what `ssh_channel_new` has returned. -/
inductive Callback where
  | authPassword (user password : Text)
  | channelOpenSession (chan : Option Channel)
  | channelSubsystem (subsystem : Option Text)

/-- A session being served: its context, its handles, and what is left to
do for the message at hand. -/
structure Serving where
  ctx : SftpContext
  table : SlotTable 256 ObjectId := fun _ => none
  objects : List Cell := []
  pending : Handler Unit := pure ()

/-- Where `handle_session_after_auth` stands. The loop of
`do_callback_handshake` is `polling` at its condition and `handling` in
`ssh_handle_packets`. -/
inductive ThreadStage where
  | spawned
  | polling (chan : Option Channel)
  | handling (chan : Option Channel)
  | starting
  | lookingUp
  | serving (serving : Serving)
  | leaving
  | forgetting
  | freeing
  | returned

/-- Where `acceptor_loop` stands. -/
inductive AcceptorStage where
  | head
  | creating
  | accepting (session : Lease SshSession)
  | accepted (session : Lease SshSession)
  | exchanging (session : Lease SshSession)
  | rejecting (session : Lease SshSession)
  | dropping (session : Lease SshSession)
  | finished
  deriving DecidableEq

structure SessionThread where
  session : Lease SshSession
  stage : ThreadStage

/-- How far `stop()` has come: it clears `running_`, joins the acceptor,
joins the session threads, and clears the log-ins. -/
inductive ServerPhase where
  | idle
  | running
  | flagged
  | joining
  | clearing
  deriving DecidableEq

inductive ServiceFault where
  -- The handshake state that is read is not in `handshakes_`.
  | noHandshake
  | handler (fault : Fault)
  deriving DecidableEq

/-- `issued` counts the sessions made, and `freed` lists those freed. -/
structure Service (σ : Type) where
  env : σ
  phase : ServerPhase := .idle
  acceptor : AcceptorStage := .finished
  threads : List SessionThread := []
  accounts : Accounts := {}
  handshakes : SshSession → Option HandshakeState := fun _ => none
  issued : ℕ := 0
  freed : List ℕ := []
  fault : Option ServiceFault := none

inductive AcceptorAction where
  | check
  /-- What `ssh_new` returns. -/
  | create (session : Option SshSession)
  | accept (ok : Bool)
  | recheck
  | exchange (ok : Bool)
  | reject
  | drop

inductive ThreadAction where
  | enter
  | check
  | handled (ok : Bool)
  /-- What `sftp_server_new` and `sftp_server_init` return. -/
  | start (server init : Bool)
  | lookUp
  | poll (polled : Polled)
  /-- The next call of the handler. -/
  | call
  | removeHs
  | removeSession
  | free

/-- A thread is known by its place in `session_threads_`, and the acceptor
by `none`. -/
abbrev PartyId := Option ℕ

inductive ServiceEvent where
  | start
  | stopFlag
  | stopJoinAcceptor
  | stopJoined
  | stopClear
  | addUser (name pass root : Text) (perm : SftpPermission)
  | clearUsers
  | acceptor (action : AcceptorAction)
  | thread (i : ℕ) (action : ThreadAction)
  | callback (party : PartyId) (callback : Callback)

/-- The name, the root and the permission that `lookup_user` leaves in its
out parameters. -/
def lookupUser (a : Accounts) (session : SshSession) : Text × Text × SftpPermission :=
  match a.sessionUsers session with
  | none => ("", "", SftpPermission.none)
  | some username =>
      match a.users.find? fun configuredUser => configuredUser.name = username with
      | none => (username, "", SftpPermission.none)
      | some configuredUser => (username, configuredUser.root, configuredUser.perm)

namespace Service

variable {σ : Type}

/-- `hs` as the callbacks and the thread use it. -/
def updateHs (s : Service σ) (session : SshSession) (f : HandshakeState → HandshakeState) :
    Service σ :=
  match s.handshakes session with
  | none => { s with fault := some .noHandshake }
  | some hs => { s with handshakes := Function.update s.handshakes session (some (f hs)) }

/-- `emplace` leaves an entry that is there as it is. -/
def makeHs (s : Service σ) (session : SshSession) : Service σ :=
  match s.handshakes session with
  | none => { s with handshakes := Function.update s.handshakes session (some {}) }
  | some _ => s

def removeHs (s : Service σ) (session : SshSession) : Service σ :=
  { s with handshakes := Function.update s.handshakes session none }

def removeSession (s : Service σ) (session : SshSession) : Service σ :=
  { s with accounts := s.accounts.removeSession session }

def onCallback (s : Service σ) (session : SshSession) : Callback → Service σ
  | .authPassword user password =>
      { s with accounts := s.accounts.checkAuth session user password }
  | .channelOpenSession none => s
  | .channelOpenSession (some chan) =>
      s.updateHs session fun hs => { hs with pendingChannel := some chan }
  | .channelSubsystem subsystem =>
      if subsystem = some (txt "sftp") then
        s.updateHs session fun hs => { hs with subsystemAccepted := true }
      else s

def setAcceptor (s : Service σ) (stage : AcceptorStage) : Service σ := { s with acceptor := stage }

def setStage (s : Service σ) (i : ℕ) (stage : ThreadStage) : Service σ :=
  { s with threads := s.threads.modify i fun thread => { thread with stage } }

def free (s : Service σ) (session : Lease SshSession) : Service σ :=
  { s with freed := s.freed ++ [session.number] }

def isRunning (s : Service σ) : Bool := s.phase = .running

/-- Where the loop of the acceptor goes on after a session has come to nothing. -/
def goOn (s : Service σ) : Service σ :=
  s.setAcceptor (if s.isRunning then .head else .finished)

end Service

/-- The session that the acceptor works on. -/
def AcceptorStage.session : AcceptorStage → Option (Lease SshSession)
  | .head | .creating | .finished => none
  | .accepting session | .accepted session | .exchanging session | .rejecting session
  | .dropping session => some session

def ThreadStage.isReturned : ThreadStage → Bool
  | .returned => true
  | _ => false

namespace Service

variable {σ : Type}

/-- `malloc` returns no address that is in use. -/
def InUse (s : Service σ) (address : SshSession) : Prop :=
  (∃ session, s.acceptor.session = some session ∧ session.address = address) ∨
    ∃ thread ∈ s.threads, thread.stage.isReturned = false ∧ thread.session.address = address

instance (s : Service σ) (address : SshSession) : Decidable (s.InUse address) :=
  have : Decidable (∃ session, s.acceptor.session = some session ∧ session.address = address) :=
    decidable_of_iff (∃ session ∈ s.acceptor.session, session.address = address) Iff.rfl
  inferInstanceAs (Decidable (_ ∨ _))

/-- One step of `acceptor_loop`. -/
def acceptorStep (s : Service σ) : AcceptorStage → AcceptorAction → Option (Service σ)
  | .head, .check => some (s.setAcceptor (if s.isRunning then .creating else .finished))
  | .creating, .create none => some (s.setAcceptor .head)
  | .creating, .create (some address) =>
      if s.InUse address then none
      else some { s with acceptor := .accepting ⟨s.issued, address⟩, issued := s.issued + 1 }
  | .accepting session, .accept ok =>
      if ok then some (s.setAcceptor (.accepted session)) else some (s.free session).goOn
  | .accepted session, .recheck =>
      if s.isRunning then some (s.setAcceptor (.exchanging session))
      else some ((s.free session).setAcceptor .finished)
  | .exchanging session, .exchange ok =>
      if ok then
        some { s with acceptor := .head, threads := s.threads ++ [⟨session, .spawned⟩] }
      else some (s.setAcceptor (.rejecting session))
  | .rejecting session, .reject =>
      some ((s.removeSession session.address).setAcceptor (.dropping session))
  | .dropping session, .drop => some (s.free session).goOn
  | _, _ => none

/-- The return of `ssh_handle_packets`, and the checks after it. -/
def afterPackets (s : Service σ) (i : ℕ) (session : SshSession) (chan : Option Channel) (ok : Bool) :
    Service σ :=
  if ok then
    match s.handshakes session with
    | none => { s with fault := some .noHandshake }
    | some hs =>
        let chan := chan <|> hs.pendingChannel
        s.setStage i (if chan.isSome && hs.subsystemAccepted then .starting else .polling chan)
  else s.setStage i .leaving

/-- One call of the handler at hand. -/
def callStep (env : Environment σ) (s : Service σ) (i : ℕ) (w : Serving) : Option (Service σ) :=
  match w.pending with
  | .done _ => none
  | .call c next =>
      match perform env ⟨s.env, w.table, w.objects⟩ c with
      | .error fault => some { s with fault := some (.handler fault) }
      | .ok (answer, after) =>
          some ({ s with env := after.env }.setStage i (.serving
            { w with table := after.table, objects := after.objects, pending := next answer }))

/-- One round of the loop of `process_sftp`, up to the handler. -/
def pollStep (s : Service σ) (i : ℕ) (w : Serving) (polled : Polled) : Option (Service σ) :=
  match w.pending with
  | .call _ _ => none
  | .done _ =>
      match hear s.isRunning polled with
      | .ended => some (s.setStage i .leaving)
      | .nothing => some s
      | .message msg => some (s.setStage i (.serving { w with pending := processSftp w.ctx msg }))

/-- The context that `process_sftp` is given. -/
def contextOf (longWidth : ℕ) (a : Accounts) (session : SshSession) : SftpContext :=
  let (username, root, perm) := lookupUser a session
  { username, root, perm, longWidth }

/-- One step of `handle_session_after_auth`. -/
def threadStep (env : Environment σ) (longWidth : ℕ) (s : Service σ) (i : ℕ)
    (session : Lease SshSession) : ThreadStage → ThreadAction → Option (Service σ)
  | .spawned, .enter => some ((s.makeHs session.address).setStage i (.polling none))
  | .polling chan, .check =>
      some (s.setStage i (if s.isRunning then .handling chan else .leaving))
  | .handling chan, .handled ok => some (s.afterPackets i session.address chan ok)
  | .starting, .start server init =>
      some (s.setStage i (if server && init then .lookingUp else .leaving))
  | .lookingUp, .lookUp =>
      some (s.setStage i (.serving { ctx := contextOf longWidth s.accounts session.address }))
  | .serving w, .poll polled => s.pollStep i w polled
  | .serving w, .call => s.callStep env i w
  | .leaving, .removeHs => some ((s.removeHs session.address).setStage i .forgetting)
  | .forgetting, .removeSession =>
      some ((s.removeSession session.address).setStage i .freeing)
  | .freeing, .free => some ((s.free session).setStage i .returned)
  | _, _ => none

end Service

/-- A session of the acceptor for which libssh may call back. -/
def AcceptorStage.listening : AcceptorStage → Option (Lease SshSession)
  | .exchanging session => some session
  | _ => none

def ThreadStage.isListening : ThreadStage → Bool
  | .handling _ | .starting | .serving _ | .leaving => true
  | _ => false

namespace Service

variable {σ : Type}

/-- libssh calls back while it handles packets: in the key exchange, in
`ssh_handle_packets`, and wherever it reads from a channel or flushes one. -/
def listening (s : Service σ) : PartyId → Option (Lease SshSession)
  | none => s.acceptor.listening
  | some i =>
      s.threads[i]?.bind fun thread =>
        if thread.stage.isListening then some thread.session else none

def AllReturned (s : Service σ) : Prop := ∀ thread ∈ s.threads, thread.stage.isReturned = true

instance (s : Service σ) : Decidable s.AllReturned :=
  inferInstanceAs (Decidable (∀ _ ∈ _, _))

def next (env : Environment σ) (longWidth : ℕ) (s : Service σ) :
    ServiceEvent → Option (Service σ)
  | .start =>
      if s.phase = .idle then some { s with phase := .running, acceptor := .head } else none
  | .stopFlag => if s.phase = .running then some { s with phase := .flagged } else none
  | .stopJoinAcceptor =>
      if s.phase = .flagged ∧ s.acceptor = .finished then some { s with phase := .joining }
      else none
  | .stopJoined =>
      if s.phase = .joining ∧ s.AllReturned then some { s with phase := .clearing, threads := [] }
      else none
  | .stopClear =>
      if s.phase = .clearing then
        some { s with phase := .idle, accounts := s.accounts.next .stop }
      else none
  | .addUser name pass root perm =>
      some { s with accounts := s.accounts.next (.addUser name pass root perm) }
  | .clearUsers => some { s with accounts := s.accounts.next .clearUsers }
  | .acceptor action => s.acceptorStep s.acceptor action
  | .thread i action =>
      s.threads[i]?.bind fun thread =>
        s.threadStep env longWidth i thread.session thread.stage action
  | .callback party callback =>
      (s.listening party).map fun session => s.onCallback session.address callback

/-- Nothing is said about what follows a fault. -/
def step (env : Environment σ) (longWidth : ℕ) (s : Service σ) (event : ServiceEvent) :
    Option (Service σ) :=
  if s.fault = none then s.next env longWidth event else none

end Service

/-! ## One step -/

/-- A session that may have a log-in, and one that has a handshake state. -/
inductive Standing where
  | bare
  | enrolled
  | shaking
  deriving DecidableEq

def Standing.isEnrolled : Standing → Prop
  | .bare => False
  | .enrolled | .shaking => True

def AcceptorStage.seat : AcceptorStage → Option (Lease SshSession × Standing)
  | .head | .creating | .finished => none
  | .accepting session | .accepted session | .dropping session => some (session, .bare)
  | .exchanging session | .rejecting session => some (session, .enrolled)

def ThreadStage.standing : ThreadStage → Option Standing
  | .returned => none
  | .freeing => some .bare
  | .spawned | .forgetting => some .enrolled
  | .polling _ | .handling _ | .starting | .lookingUp | .serving _ | .leaving => some .shaking

/-- The party whose handshake state the step reads. -/
def ServiceEvent.reads : ServiceEvent → Option PartyId
  | .thread i (.handled true) => some (some i)
  | .callback party (.channelOpenSession (some _)) => some party
  | .callback party (.channelSubsystem subsystem) =>
      if subsystem = some (txt "sftp") then some party else none
  | _ => none

/-- The steps with which a session gives a password, or its user is looked up. -/
def ServiceEvent.witnesses : ServiceEvent → Bool
  | .callback _ (.authPassword _ _) | .thread _ .lookUp => true
  | _ => false

namespace Service

variable {σ : Type}

/-- The steps of the service, by what they change. -/
inductive Stepped (env : Environment σ) (longWidth : ℕ) (s : Service σ) :
    ServiceEvent → Service σ → Prop
  | started (hphase : s.phase = .idle) :
      Stepped env longWidth s .start { s with phase := .running, acceptor := .head }
  | flagged (hphase : s.phase = .running) :
      Stepped env longWidth s .stopFlag { s with phase := .flagged }
  | acceptorJoined (hphase : s.phase = .flagged) (hfinished : s.acceptor = .finished) :
      Stepped env longWidth s .stopJoinAcceptor { s with phase := .joining }
  | threadsJoined (hphase : s.phase = .joining) (hreturned : s.AllReturned) :
      Stepped env longWidth s .stopJoined { s with phase := .clearing, threads := [] }
  | cleared (hphase : s.phase = .clearing) :
      Stepped env longWidth s .stopClear
        { s with phase := .idle, accounts := s.accounts.next .stop }
  | registered {event} (users : List User) (hevent : event.witnesses = false) :
      Stepped env longWidth s event { s with accounts := { s.accounts with users } }
  | acceptorMoved {action} (stage : AcceptorStage) (hseat : stage.seat = s.acceptor.seat)
      (hgoing : s.acceptor ≠ .finished)
      (hwaiting : ∀ session, stage = .accepting session ∨ stage = .accepted session →
        s.acceptor = .accepting session) :
      Stepped env longWidth s (.acceptor action) (s.setAcceptor stage)
  | created {action} (address : SshSession) (hacceptor : s.acceptor = .creating)
      (hfree : ¬ s.InUse address) :
      Stepped env longWidth s (.acceptor action)
        { s with acceptor := .accepting ⟨s.issued, address⟩, issued := s.issued + 1 }
  | exchanged {action} (session : Lease SshSession) (hacceptor : s.acceptor = .accepted session) :
      Stepped env longWidth s (.acceptor action) (s.setAcceptor (.exchanging session))
  | handedOver {action} (session : Lease SshSession) (hacceptor : s.acceptor = .exchanging session) :
      Stepped env longWidth s (.acceptor action)
        { s with acceptor := .head, threads := s.threads ++ [⟨session, .spawned⟩] }
  | rejected {action} (session : Lease SshSession) (hacceptor : s.acceptor = .rejecting session) :
      Stepped env longWidth s (.acceptor action)
        ((s.removeSession session.address).setAcceptor (.dropping session))
  | dropped {action} (session : Lease SshSession) (stage : AcceptorStage)
      (hacceptor : s.acceptor.seat = some (session, .bare)) (hstage : stage.seat = none) :
      Stepped env longWidth s (.acceptor action) ((s.free session).setAcceptor stage)
  | entered {i} (thread : SessionThread) (hthread : s.threads[i]? = some thread)
      (hstage : thread.stage = .spawned) :
      Stepped env longWidth s (.thread i .enter)
        ((s.makeHs thread.session.address).setStage i (.polling none))
  | threadMoved {i action} (thread : SessionThread) (stage : ThreadStage)
      (hthread : s.threads[i]? = some thread) (hbefore : thread.stage.standing = some .shaking)
      (hafter : stage.standing = some .shaking) (hserving : ∀ w, stage ≠ .serving w)
      (hevent : (ServiceEvent.thread i action).witnesses = false) :
      Stepped env longWidth s (.thread i action) (s.setStage i stage)
  | lookedUp {i} (thread : SessionThread) (hthread : s.threads[i]? = some thread)
      (hstage : thread.stage = .lookingUp) :
      Stepped env longWidth s (.thread i .lookUp)
        (s.setStage i (.serving { ctx := contextOf longWidth s.accounts thread.session.address }))
  | idled {i polled} : Stepped env longWidth s (.thread i (.poll polled)) s
  | heard {i polled} (thread : SessionThread) (w : Serving) (msg : SftpClientMessage)
      (hthread : s.threads[i]? = some thread) (hstage : thread.stage = .serving w) :
      Stepped env longWidth s (.thread i (.poll polled))
        (s.setStage i (.serving { w with pending := processSftp w.ctx msg }))
  | called {i} (thread : SessionThread) (w : Serving) (c : Call) (next : c.Answer → Handler Unit)
      (answer : c.Answer) (after : World σ) (hthread : s.threads[i]? = some thread)
      (hstage : thread.stage = .serving w) (hpending : w.pending = .call c next)
      (hperform : perform env ⟨s.env, w.table, w.objects⟩ c = .ok (answer, after)) :
      Stepped env longWidth s (.thread i .call)
        ({ s with env := after.env }.setStage i (.serving
          { w with table := after.table, objects := after.objects, pending := next answer }))
  | removedHs {i} (thread : SessionThread) (hthread : s.threads[i]? = some thread)
      (hstage : thread.stage = .leaving) :
      Stepped env longWidth s (.thread i .removeHs)
        ((s.removeHs thread.session.address).setStage i .forgetting)
  | forgotten {i} (thread : SessionThread) (hthread : s.threads[i]? = some thread)
      (hstage : thread.stage = .forgetting) :
      Stepped env longWidth s (.thread i .removeSession)
        ((s.removeSession thread.session.address).setStage i .freeing)
  | freed {i} (thread : SessionThread) (hthread : s.threads[i]? = some thread)
      (hstage : thread.stage = .freeing) :
      Stepped env longWidth s (.thread i .free) ((s.free thread.session).setStage i .returned)
  | authenticated {party} (session : Lease SshSession) (user password : Text)
      (hparty : s.listening party = some session) :
      Stepped env longWidth s (.callback party (.authPassword user password))
        { s with accounts := s.accounts.checkAuth session.address user password }
  | noted {party callback} (session : Lease SshSession) (hs hs' : HandshakeState)
      (hparty : s.listening party = some session)
      (hfound : s.handshakes session.address = some hs)
      (hevent : (ServiceEvent.callback party callback).witnesses = false) :
      Stepped env longWidth s (.callback party callback)
        { s with handshakes := Function.update s.handshakes session.address (some hs') }
  | missed {party callback} (hevent : (ServiceEvent.callback party callback).witnesses = false) :
      Stepped env longWidth s (.callback party callback) s
  | missing {event party} (session : Lease SshSession) (hparty : s.listening party = some session)
      (hreads : event.reads = some party) (hnone : s.handshakes session.address = none)
      (hevent : event.witnesses = false) :
      Stepped env longWidth s event { s with fault := some .noHandshake }
  | faulted {i} (fault : Fault) :
      Stepped env longWidth s (.thread i .call) { s with fault := some (.handler fault) }

variable {env : Environment σ} {longWidth : ℕ} {s t : Service σ}

theorem setAcceptor_goOn_seat (s : Service σ) :
    (if s.isRunning then AcceptorStage.head else .finished).seat = none := by
  split <;> rfl

theorem stepped_acceptor {action : AcceptorAction} (h : s.acceptorStep s.acceptor action = some t) :
    Stepped env longWidth s (.acceptor action) t := by
  cases hstage : s.acceptor with
  | head =>
      rw [hstage] at h
      cases action <;> cases h
      refine .acceptorMoved _ ?_ (by simp [hstage]) fun session hsession => ?_
      · rw [hstage]
        split <;> rfl
      · split at hsession <;> simp at hsession
  | creating =>
      rw [hstage] at h
      cases action with
      | create address =>
          cases address with
          | none =>
              cases h
              exact .acceptorMoved _ (by rw [hstage]; rfl) (by simp [hstage]) (by simp)
          | some address =>
              obtain ⟨hfree, heq⟩ := Option.ite_none_left_eq_some.mp h
              cases heq
              exact .created address hstage hfree
      | check | accept | recheck | exchange | reject | drop => cases h
  | accepting session =>
      rw [hstage] at h
      cases action with
      | accept ok =>
          cases ok with
          | true =>
              cases h
              exact .acceptorMoved _ (by rw [hstage]; rfl) (by simp [hstage]) (by simp [hstage])
          | false =>
              cases h
              exact .dropped session _ (by rw [hstage]; rfl) (setAcceptor_goOn_seat _)
      | check | create | recheck | exchange | reject | drop => cases h
  | accepted session =>
      rw [hstage] at h
      cases action with
      | recheck =>
          dsimp only [acceptorStep] at h
          split at h
          · cases h
            exact .exchanged session hstage
          · cases h
            exact .dropped session _ (by rw [hstage]; rfl) rfl
      | check | create | accept | exchange | reject | drop => cases h
  | exchanging session =>
      rw [hstage] at h
      cases action with
      | exchange ok =>
          cases ok with
          | true =>
              cases h
              exact .handedOver session hstage
          | false =>
              cases h
              exact .acceptorMoved _ (by rw [hstage]; rfl) (by simp [hstage]) (by simp)
      | check | create | accept | recheck | reject | drop => cases h
  | rejecting session =>
      rw [hstage] at h
      cases action <;> cases h
      exact .rejected session hstage
  | dropping session =>
      rw [hstage] at h
      cases action <;> cases h
      exact .dropped session _ (by rw [hstage]; rfl) (setAcceptor_goOn_seat _)
  | finished =>
      rw [hstage] at h
      cases action <;> cases h

theorem stepped_handled {i : ℕ} {thread : SessionThread} {chan : Option Channel}
    (hthread : s.threads[i]? = some thread) (hstage : thread.stage = .handling chan) (ok : Bool) :
    Stepped env longWidth s (.thread i (.handled ok))
      (s.afterPackets i thread.session.address chan ok) := by
  have hbefore : thread.stage.standing = some .shaking := by rw [hstage]; rfl
  unfold afterPackets
  cases ok with
  | false =>
      exact .threadMoved thread _ hthread hbefore rfl (fun w hw => by cases hw) rfl
  | true =>
      rw [if_pos rfl]
      cases hhs : s.handshakes thread.session.address with
      | none =>
          have hlistening : s.listening (some i) = some thread.session := by
            simp [listening, hthread, hstage, ThreadStage.isListening]
          exact .missing thread.session hlistening rfl hhs rfl
      | some hs =>
          refine .threadMoved thread _ hthread hbefore ?_ (fun w hw => ?_) rfl
          · split <;> rfl
          · split at hw <;> cases hw

theorem stepped_poll {i : ℕ} {thread : SessionThread} {w : Serving} {polled : Polled}
    (hthread : s.threads[i]? = some thread) (hstage : thread.stage = .serving w)
    (h : s.pollStep i w polled = some t) :
    Stepped env longWidth s (.thread i (.poll polled)) t := by
  have hbefore : thread.stage.standing = some .shaking := by rw [hstage]; rfl
  unfold pollStep at h
  cases hpending : w.pending with
  | call c next =>
      rw [hpending] at h
      cases h
  | done result =>
      rw [hpending] at h
      dsimp only at h
      cases hheard : hear s.isRunning polled with
      | ended =>
          rw [hheard] at h
          cases h
          exact .threadMoved thread _ hthread hbefore rfl (fun _ hw => by cases hw) rfl
      | nothing =>
          rw [hheard] at h
          cases h
          exact .idled
      | message msg =>
          rw [hheard] at h
          cases h
          exact .heard thread w msg hthread hstage

theorem stepped_call {i : ℕ} {thread : SessionThread} {w : Serving}
    (hthread : s.threads[i]? = some thread) (hstage : thread.stage = .serving w)
    (h : s.callStep env i w = some t) : Stepped env longWidth s (.thread i .call) t := by
  unfold callStep at h
  cases hpending : w.pending with
  | done result =>
      rw [hpending] at h
      cases h
  | call c next =>
      rw [hpending] at h
      dsimp only at h
      cases hperform : perform env ⟨s.env, w.table, w.objects⟩ c with
      | error fault =>
          rw [hperform] at h
          cases h
          exact .faulted fault
      | ok result =>
          obtain ⟨answer, after⟩ := result
          rw [hperform] at h
          cases h
          exact .called thread w c next answer after hthread hstage hpending hperform

theorem stepped_thread {i : ℕ} {thread : SessionThread} {action : ThreadAction}
    (hthread : s.threads[i]? = some thread)
    (h : s.threadStep env longWidth i thread.session thread.stage action = some t) :
    Stepped env longWidth s (.thread i action) t := by
  cases hstage : thread.stage with
  | spawned =>
      rw [hstage] at h
      cases action <;> cases h
      exact .entered thread hthread hstage
  | polling chan =>
      rw [hstage] at h
      cases action <;> cases h
      refine .threadMoved thread _ hthread (by rw [hstage]; rfl) ?_ (fun w hw => ?_) rfl
      · split <;> rfl
      · split at hw <;> cases hw
  | handling chan =>
      rw [hstage] at h
      cases action <;> cases h
      exact stepped_handled hthread hstage _
  | starting =>
      rw [hstage] at h
      cases action <;> cases h
      refine .threadMoved thread _ hthread (by rw [hstage]; rfl) ?_ (fun w hw => ?_) rfl
      · split <;> rfl
      · split at hw <;> cases hw
  | lookingUp =>
      rw [hstage] at h
      cases action <;> cases h
      exact .lookedUp thread hthread hstage
  | serving w =>
      rw [hstage] at h
      cases action with
      | poll polled => exact stepped_poll hthread hstage h
      | call => exact stepped_call hthread hstage h
      | enter | check | handled | start | lookUp | removeHs | removeSession | free => cases h
  | leaving =>
      rw [hstage] at h
      cases action <;> cases h
      exact .removedHs thread hthread hstage
  | forgetting =>
      rw [hstage] at h
      cases action <;> cases h
      exact .forgotten thread hthread hstage
  | freeing =>
      rw [hstage] at h
      cases action <;> cases h
      exact .freed thread hthread hstage
  | returned =>
      rw [hstage] at h
      cases action <;> cases h

theorem stepped_updateHs {party : PartyId} {session : Lease SshSession} {callback : Callback}
    (hparty : s.listening party = some session) (f : HandshakeState → HandshakeState)
    (hreads : (ServiceEvent.callback party callback).reads = some party)
    (hevent : (ServiceEvent.callback party callback).witnesses = false) :
    Stepped env longWidth s (.callback party callback) (s.updateHs session.address f) := by
  unfold updateHs
  cases hfound : s.handshakes session.address with
  | none => exact .missing session hparty hreads hfound hevent
  | some hs => exact .noted session hs (f hs) hparty hfound hevent

theorem stepped_callback {party : PartyId} {session : Lease SshSession}
    (hparty : s.listening party = some session) (callback : Callback) :
    Stepped env longWidth s (.callback party callback) (s.onCallback session.address callback) := by
  cases callback with
  | authPassword user password => exact .authenticated session user password hparty
  | channelOpenSession chan =>
      cases chan with
      | none => exact .missed rfl
      | some chan => exact stepped_updateHs hparty _ rfl rfl
  | channelSubsystem subsystem =>
      dsimp only [onCallback]
      split
      · next hsftp => exact stepped_updateHs hparty _ (if_pos hsftp) rfl
      · exact .missed rfl

theorem stepped {event : ServiceEvent} (h : s.step env longWidth event = some t) :
    s.fault = none ∧ Stepped env longWidth s event t := by
  obtain ⟨hfault, h⟩ := Option.ite_none_right_eq_some.mp h
  refine ⟨hfault, ?_⟩
  cases event with
  | start =>
      obtain ⟨hphase, heq⟩ := Option.ite_none_right_eq_some.mp h
      cases heq
      exact .started hphase
  | stopFlag =>
      obtain ⟨hphase, heq⟩ := Option.ite_none_right_eq_some.mp h
      cases heq
      exact .flagged hphase
  | stopJoinAcceptor =>
      obtain ⟨⟨hphase, hfinished⟩, heq⟩ := Option.ite_none_right_eq_some.mp h
      cases heq
      exact .acceptorJoined hphase hfinished
  | stopJoined =>
      obtain ⟨⟨hphase, hreturned⟩, heq⟩ := Option.ite_none_right_eq_some.mp h
      cases heq
      exact .threadsJoined hphase hreturned
  | stopClear =>
      obtain ⟨hphase, heq⟩ := Option.ite_none_right_eq_some.mp h
      cases heq
      exact .cleared hphase
  | addUser name pass root perm =>
      cases h
      exact .registered _ rfl
  | clearUsers =>
      cases h
      exact .registered _ rfl
  | acceptor action => exact stepped_acceptor h
  | thread i action =>
      obtain ⟨thread, hthread, hstep⟩ := Option.bind_eq_some_iff.mp h
      exact stepped_thread hthread hstep
  | callback party callback =>
      obtain ⟨session, hparty, heq⟩ := Option.map_eq_some_iff.mp h
      cases heq
      exact stepped_callback hparty callback

end Service

end MockServices.Sftp
