import MockServices.Detail.ListenSocket

/-!
# Who closes the listening socket

Each server pays for its way of closing the socket. The FTP server leaves it
open when the thread of the loop cannot be created, and the MQTT server has
its loop wait on a socket that is closed when `stop()` comes between the
condition of the loop and what follows it.
-/

namespace MockServices.Detail

open Foundations

namespace Listening

variable {server : TcpServer} {lost : List ℕ} {s t : Listening} {answers : ListenAnswers}

/-- The server is not running. Sockets that nobody will close are `lost`. -/
structure Stopped (lost : List ℕ) (s : Listening) : Prop where
  running : s.running = false
  acceptor : s.acceptor = none
  stopping : s.stopping = none
  accounts : s.sockets.Accounts (s.sock.toList ++ lost)

/-- The server runs, and its loop may have to be started yet. -/
structure Up (acceptor : Option AcceptPoint) (lost : List ℕ) (s : Listening) : Prop where
  running : s.running = true
  acceptor : s.acceptor = acceptor
  stopping : s.stopping = none
  sock : s.sock.isSome = true
  accounts : s.sockets.Accounts (s.sock.toList ++ lost)

/-! ## The call of `start()` -/

theorem Stopped.openSocket (h : Stopped lost s) (ok : Bool) :
    Stopped (s.sock.toList ++ lost) (s.openSocket ok) ∧ (s.openSocket ok).sock.isSome = ok := by
  cases ok with
  | true => exact ⟨{ h with accounts := h.accounts.alloc }, rfl⟩
  | false => exact ⟨{ h with }, rfl⟩

theorem Stopped.closeSocket (h : Stopped lost s) : Stopped lost s.closeSocket :=
  { h with accounts := Pool.Accounts.freeAll h.accounts }

theorem meets_onSocket (ok : Bool) (what : Text) :
    Meets (fun s => Stopped lost s ∧ s.sock.isSome = true) (onSocket ok what)
      (fun _ s => ok = true ∧ Stopped lost s ∧ s.sock.isSome = true)
      (fun _ s => ok = false ∧ Stopped lost s ∧ s.sock = none) := by
  cases ok with
  | true => exact Meets.pure fun s hs => ⟨rfl, hs⟩
  | false =>
      intro s hs
      exact ⟨rfl, hs.1.closeSocket, rfl⟩

/-- What `start()` leaves behind when it throws. -/
def Fails (answers : ListenAnswers) (lost : List ℕ) (s : Listening) : Prop :=
  answers.opened = false ∧ Stopped lost s ∧ s.sock = none ∨
    answers.opened = true ∧ answers.thread = false ∧ Up none lost s

theorem meets_start (server : TcpServer) (answers : ListenAnswers) (old : Option ℕ) :
    Meets (fun s => Stopped lost s ∧ s.sock = old) (start server answers)
      (fun _ s => answers.thread = true ∧ Up (some .checking) (old.toList ++ lost) s)
      (fun _ s => Fails answers (old.toList ++ lost) s) := by
  have hfails : ∀ ok, (ok = false → answers.opened = false) → ∀ (e : StartFailure) s,
      ok = false ∧ Stopped (old.toList ++ lost) s ∧ s.sock = none →
        Fails answers (old.toList ++ lost) s :=
    fun ok hok e s h => .inl ⟨hok h.1, h.2⟩
  have hopened : ∀ {ok}, (ok = false → answers.opened = false) → ∀ what,
      Meets (fun s => Stopped (old.toList ++ lost) s ∧ s.sock.isSome = true) (onSocket ok what)
        (fun _ s => ok = true ∧ Stopped (old.toList ++ lost) s ∧ s.sock.isSome = true)
        (fun _ s => Fails answers (old.toList ++ lost) s) :=
    fun hok what => (meets_onSocket _ what).mono (fun _ h => h) (fun _ _ h => h) (hfails _ hok)
  have hrequired : ∀ escape, Meets (fun s => Stopped lost s ∧ s.sock = old)
      (requireStopped server) (fun _ s => Stopped lost s ∧ s.sock = old) escape := by
    intro escape s hs
    rw [requireStopped, hs.1.running]
    exact hs
  apply (hrequired _).bind
  intro _
  apply Meets.modify_bind (fun s => Stopped (old.toList ++ lost) s ∧
    s.sock.isSome = answers.socket) fun s hs => hs.2 ▸ hs.1.openSocket answers.socket
  apply ((Meets.require answers.socket _).mono (fun _ h => h) (fun _ _ h => h) ?_).bind
  · intro _
    apply Meets.given
    intro hsocket
    rw [hsocket]
    apply (hopened (fun h => by simp [ListenAnswers.opened, h]) _).bind
    intro _
    apply Meets.given
    intro hbind
    apply (hopened (fun h => by simp [ListenAnswers.opened, h]) _).bind
    intro _
    apply Meets.given
    intro hsockname
    apply Meets.modify_bind (fun s => Stopped (old.toList ++ lost) s ∧ s.sock.isSome = true)
      fun s hs => ⟨{ hs.1 with }, hs.2⟩
    apply (hopened (fun h => by simp [ListenAnswers.opened, h]) _).bind
    intro _
    apply Meets.given
    intro hlisten
    have hall : answers.opened = true := by
      simp [ListenAnswers.opened, hsocket, hbind, hsockname, hlisten]
    apply Meets.modify_bind (Up none (old.toList ++ lost))
      fun s hs => { hs.1 with running := rfl, sock := hs.2 }
    apply ((Meets.require answers.thread _).mono (fun _ h => h) (fun _ _ h => h)
      fun e s h => .inr ⟨hall, h.1, h.2.2⟩).bind
    intro _
    apply Meets.given
    intro hthread
    exact Meets.modify fun s hs => ⟨hthread, { hs with acceptor := rfl }⟩
  · rintro e s ⟨hsocket, -, hs, hsome⟩
    rw [hsocket] at hsome
    exact hfails answers.socket (fun h => by simp [ListenAnswers.opened, h]) e s
      ⟨hsocket, hs, Option.isSome_eq_false_iff.mp hsome |> Option.isNone_iff_eq_none.mp⟩

/-- A call of `start()` on a server that is not running, as a step. -/
theorem settle_start (h : Stopped lost s) (server : TcpServer) (answers : ListenAnswers) :
    (answers.opened = false ∧ Stopped (s.sock.toList ++ lost) (settle (start server answers s)) ∧
        (settle (start server answers s)).sock = none) ∨
      (answers.opened = true ∧ answers.thread = false ∧
        Up none (s.sock.toList ++ lost) (settle (start server answers s))) ∨
      answers.thread = true ∧
        Up (some .checking) (s.sock.toList ++ lost) (settle (start server answers s)) := by
  have hmeets := @meets_start lost server answers s.sock
  cases hstart : start server answers s with
  | ok a t =>
      obtain ⟨hthread, hup⟩ := hmeets.ok ⟨h, rfl⟩ hstart
      exact .inr (.inr ⟨hthread, { hup with }⟩)
  | error e t =>
      rcases hmeets.error ⟨h, rfl⟩ hstart with ⟨hopened, hstopped, hnone⟩ | ⟨hopened, hthread, hup⟩
      · exact .inl ⟨hopened, { hstopped with }, hnone⟩
      · exact .inr (.inl ⟨hopened, hthread, { hup with }⟩)

/-- A server that runs throws and stays as it is. -/
theorem settle_start_running (h : s.running = true) (server : TcpServer)
    (answers : ListenAnswers) :
    settle (start server answers s) =
      { s with failure := some (.thrown (server.name ++ txt " is already running")) } := by
  have hstopped : requireStopped server s =
      .error (.thrown (server.name ++ txt " is already running")) s := by
    rw [requireStopped, h]
    rfl
  have hstart : start server answers s =
      .error (.thrown (server.name ++ txt " is already running")) s := by
    change EStateM.bind (requireStopped server) _ s = _
    rw [EStateM.bind, hstopped]
  rw [hstart]
  rfl

/-! ## The sockets at large -/

/-- A socket that the server holds has not been closed. -/
theorem not_exposed (haccounts : s.sockets.Accounts (s.sock.toList ++ lost))
    (hsock : s.Waits → s.sock.isSome = true) : ¬ s.Exposed := by
  rintro ⟨hwaits, hclosed⟩
  obtain ⟨sock, hsock⟩ := Option.isSome_iff_exists.mp (hsock hwaits)
  have hheld : sock ∈ s.sock.toList ++ lost :=
    List.mem_append_left _ (Option.mem_toList.mpr hsock)
  exact haccounts.notMem_freed hheld (hclosed sock hsock)

theorem tidy_of_accounts {held : List ℕ} (haccounts : s.sockets.Accounts held)
    (hheld : ∀ sock ∈ held, s.sock = some sock ∧ s.HasCloser server) : s.Tidy server where
  once := haccounts.nodup_freed
  rest sock hsock := by
    have hmem := haccounts.mem_iff.mpr (List.mem_range.mpr hsock)
    exact (List.mem_append.mp hmem).imp_right (hheld sock)

/-! ## The FTP server -/

/-- While the loop has not ended, it has its socket. -/
structure FtpSound (lost : List ℕ) (s : Listening) : Prop where
  accounts : s.sockets.Accounts (s.sock.toList ++ lost)
  stage : s.stopping = none ∨ s.stopping = some .joining
  sock : ∀ point, s.acceptor = some point → point ≠ .ended → s.sock.isSome = true
  parked : s.running = false → s.stopping = none → s.acceptor = none

/-- The loop will close the socket, if there is one. -/
def Closable (s : Listening) : Prop := s.sock.isSome = true → s.HasCloser .ftp

theorem FtpSound.stopped (h : FtpSound lost s) (hrunning : s.running = false)
    (hstopping : s.stopping = none) : Stopped lost s :=
  ⟨hrunning, h.parked hrunning hstopping, hstopping, h.accounts⟩

theorem Stopped.ftpSound (h : Stopped lost s) : FtpSound lost s where
  accounts := h.accounts
  stage := .inl h.stopping
  sock _ hpoint := absurd (hpoint.symm.trans h.acceptor) nofun
  parked _ _ := h.acceptor

theorem Up.ftpSound {acceptor : Option AcceptPoint} (h : Up acceptor lost s) : FtpSound lost s where
  accounts := h.accounts
  stage := .inl h.stopping
  sock _ _ _ := h.sock
  parked hrunning := absurd (h.running.symm.trans hrunning) nofun

/-- One step of the FTP loop. -/
theorem FtpSound.loop {point : AcceptPoint} {action : AcceptAction} (h : FtpSound lost s)
    (hpoint : s.acceptor = some point) (ht : s.loopStep .ftp point action = some t) :
    FtpSound lost t ∧ t.Closable := by
  have hrunning : s.running = false → s.stopping ≠ none := by
    intro hrunning hstopping
    exact absurd (hpoint.symm.trans (h.parked hrunning hstopping)) nofun
  have hmove : ∀ next, point ≠ .ended → next ≠ .ended →
      FtpSound lost { s with acceptor := some next } ∧ Closable { s with acceptor := some next } := by
    intro next hended hnext
    refine ⟨{ h with sock := ?_, parked := ?_ }, fun _ => ⟨next, rfl, hnext⟩⟩
    · exact fun _ _ _ => h.sock point hpoint hended
    · exact fun hstopped hstopping => absurd hstopping (hrunning hstopped)
  cases point <;> cases action <;> simp only [loopStep, reduceCtorEq] at ht
  case checking.check =>
    split at ht <;> cases ht <;> exact hmove _ nofun nofun
  case selecting.select selected =>
    cases selected <;> cases ht <;> exact hmove _ nofun nofun
  case accepting.accept ok =>
    cases ht
    cases ok <;> exact hmove _ nofun nofun
  case serving.serve =>
    cases ht
    exact hmove _ nofun nofun
  case closing.close =>
    cases ht
    refine ⟨⟨Pool.Accounts.freeAll h.accounts, h.stage, ?_, ?_⟩, nofun⟩
    · rintro _ ⟨⟩ hended
      exact absurd rfl hended
    · exact fun hstopped hstopping => absurd hstopping (hrunning hstopped)

theorem FtpSound.proceed (h : FtpSound lost s) (ht : s.proceed = some t) :
    FtpSound lost t ∧ (s.Closable → t.Closable) := by
  have hjoined : ∀ u : Listening, (s.acceptor = none ∨ s.acceptor = some .ended) →
      some { s with acceptor := none, stopping := none } = some u →
        FtpSound lost u ∧ (s.Closable → u.Closable) := by
    rintro u hacceptor hu
    cases hu
    refine ⟨⟨h.accounts, .inl rfl, nofun, fun _ _ => rfl⟩, fun hclosable hsock => ?_⟩
    obtain ⟨point, hpoint, hended⟩ := hclosable hsock
    rcases hacceptor with hnone | hsome
    · exact absurd (hnone.symm.trans hpoint) nofun
    · exact absurd (Option.some.inj (hpoint.symm.trans hsome)) hended
  rw [Listening.proceed] at ht
  rcases h.stage with hstage | hstage
  · rw [hstage] at ht
    cases ht
  · rw [hstage] at ht
    dsimp only at ht
    split at ht
    · next hnone => exact hjoined t (.inl hnone) ht
    · next hended => exact hjoined t (.inr hended) ht
    · cases ht

/-- A `start()` may lose the socket that the server has, and have nobody to
close the new one. -/
theorem FtpSound.start (h : FtpSound lost s) (hstopping : s.stopping = none)
    (hrunning : s.running = false) (answers : ListenAnswers) :
    FtpSound (s.sock.toList ++ lost) (settle (start .ftp answers s)) ∧
      ((settle (start .ftp answers s)).Closable ∨
        answers.opened = true ∧ answers.thread = false ∧
          Up none (s.sock.toList ++ lost) (settle (start .ftp answers s))) := by
  rcases settle_start (h.stopped hrunning hstopping) .ftp answers with
    ⟨-, hstopped, hnone⟩ | ⟨hopened, hthread, hup⟩ | ⟨-, hup⟩
  · exact ⟨hstopped.ftpSound, .inl fun hsock => absurd hsock (by rw [hnone]; nofun)⟩
  · exact ⟨hup.ftpSound, .inr ⟨hopened, hthread, hup⟩⟩
  · exact ⟨hup.ftpSound, .inl fun _ => ⟨.checking, hup.acceptor, nofun⟩⟩

/-- Every step but the `start()` of a server that is not running. -/
theorem FtpSound.step {event : ListenEvent} (h : FtpSound lost s)
    (ht : step .ftp s event = some t)
    (hstart : ∀ answers, event = .start answers → s.running = true) :
    FtpSound lost t ∧ (s.Closable → t.Closable) := by
  cases event with
  | start answers =>
      obtain ⟨-, ht⟩ := Option.ite_none_right_eq_some.mp ht
      rw [settle_start_running (hstart answers rfl)] at ht
      cases ht
      exact ⟨{ h with }, id⟩
  | stop =>
      obtain ⟨hstopping, ht⟩ := Option.ite_none_right_eq_some.mp ht
      cases ht
      rw [enterStop]
      split
      · exact ⟨⟨h.accounts, .inr rfl, h.sock, nofun⟩, id⟩
      · exact ⟨h, id⟩
  | proceed => exact h.proceed ht
  | loop action =>
      obtain ⟨point, hpoint, ht⟩ := Option.bind_eq_some_iff.mp ht
      obtain ⟨hsound, hclosable⟩ := h.loop hpoint ht
      exact ⟨hsound, fun _ => hclosable⟩

theorem ftpSound_step {event : ListenEvent} (h : ∃ lost, FtpSound lost s)
    (ht : step .ftp s event = some t) : ∃ lost, FtpSound lost t := by
  obtain ⟨lost, h⟩ := h
  by_cases hstart : ∀ answers, event = .start answers → s.running = true
  · exact ⟨lost, (h.step ht hstart).1⟩
  · push Not at hstart
    obtain ⟨answers, rfl, hrunning⟩ := hstart
    obtain ⟨hstopping, ht⟩ := Option.ite_none_right_eq_some.mp ht
    cases ht
    exact ⟨_, (h.start hstopping (Bool.eq_false_iff.mpr hrunning) answers).1⟩

theorem FtpSound.not_exposed (h : FtpSound lost s) : ¬ s.Exposed := by
  apply Listening.not_exposed h.accounts
  rintro (hpoint | hpoint) <;> exact h.sock _ hpoint nofun

/-- Nothing is lost, and the loop will close what there is. -/
structure FtpTidy (s : Listening) : Prop where
  sound : FtpSound [] s
  closable : s.Closable

theorem FtpTidy.tidy (h : FtpTidy s) : s.Tidy .ftp := by
  apply tidy_of_accounts h.sound.accounts
  intro sock hsock
  rw [List.append_nil] at hsock
  have hsome := Option.mem_toList.mp hsock
  exact ⟨hsome, h.closable (Option.isSome_iff_exists.mpr ⟨sock, hsome⟩)⟩

/-- In a server that is not running there is no socket to lose. -/
theorem FtpTidy.sock_eq_none (h : FtpTidy s) (hrunning : s.running = false)
    (hstopping : s.stopping = none) : s.sock = none := by
  cases hsock : s.sock with
  | none => rfl
  | some sock =>
      obtain ⟨point, hpoint, -⟩ := h.closable (Option.isSome_iff_exists.mpr ⟨sock, hsock⟩)
      exact absurd (hpoint.symm.trans (h.sound.parked hrunning hstopping)) nofun

theorem FtpTidy.step {event : ListenEvent} (h : FtpTidy s)
    (hevent : ∀ answers, event = .start answers → s.Launches answers → answers.thread = true)
    (ht : step .ftp s event = some t) : FtpTidy t := by
  by_cases hstart : ∀ answers, event = .start answers → s.running = true
  · obtain ⟨hsound, hclosable⟩ := h.sound.step ht hstart
    exact ⟨hsound, hclosable h.closable⟩
  · push Not at hstart
    obtain ⟨answers, rfl, hrunning⟩ := hstart
    have hrunning : s.running = false := Bool.eq_false_iff.mpr hrunning
    obtain ⟨hstopping, ht⟩ := Option.ite_none_right_eq_some.mp ht
    cases ht
    obtain ⟨hsound, hclosable⟩ := h.sound.start hstopping hrunning answers
    rw [h.sock_eq_none hrunning hstopping] at hsound
    refine ⟨hsound, hclosable.resolve_right ?_⟩
    rintro ⟨hopened, hthread, -⟩
    rw [hevent answers rfl ⟨hrunning, hstopping, hopened⟩] at hthread
    cases hthread

/-- Without a thread there is a socket that nobody closes. -/
theorem Up.not_tidy (h : Up none lost s) : ¬ s.Tidy .ftp := by
  intro htidy
  obtain ⟨sock, hsock⟩ := Option.isSome_iff_exists.mp h.sock
  have hheld : sock ∈ s.sock.toList ++ lost :=
    List.mem_append_left _ (Option.mem_toList.mpr hsock)
  have hissued := List.mem_range.mp (h.accounts.mem_iff.mp (List.mem_append_right _ hheld))
  rcases htidy.rest sock hissued with hfreed | ⟨-, point, hpoint, -⟩
  · exact h.accounts.notMem_freed hheld hfreed
  · exact absurd (hpoint.symm.trans h.acceptor) nofun

theorem ftp_initial : FtpTidy {} :=
  ⟨⟨Pool.accounts_empty, .inl rfl, nofun, fun _ _ => rfl⟩, nofun⟩

/-- The FTP loop never waits on a socket that is closed, and closes every
socket once; all of them, if and only if there is always a thread for it. -/
theorem ftp_listen_socket (events : List ListenEvent) :
    Always (step .ftp) (fun s => ¬ s.Exposed ∧ s.sockets.freed.Nodup) {} events ∧
      (Always (step .ftp) (Tidy .ftp) {} events ↔
        Along (step .ftp) (fun s event => ∀ answers, event = .start answers →
          s.Launches answers → answers.thread = true) {} events) := by
  constructor
  · refine always_of_invariant_along (P := fun _ _ => True) (I := fun s => ∃ lost, FtpSound lost s)
      (fun s event t h _ ht => ftpSound_step h ht) ?_ ⟨[], ftp_initial.sound⟩
      (along_of_forall (fun _ _ => trivial) _ _)
    rintro s ⟨lost, h⟩
    exact ⟨h.not_exposed, h.accounts.nodup_freed⟩
  · refine always_iff_along (fun s h => h.tidy) (fun s event t h hevent ht => h.step hevent ht) ?_
      ftp_initial events
    intro s event h hnot
    push Not at hnot
    obtain ⟨answers, rfl, ⟨hrunning, hstopping, hopened⟩, hthread⟩ := hnot
    have hstopped := h.sound.stopped hrunning hstopping
    rcases settle_start hstopped .ftp answers with ⟨hclosed, -⟩ | ⟨-, -, hup⟩ | ⟨hyes, -⟩
    · exact absurd (hopened.symm.trans hclosed) nofun
    · exact ⟨_, if_pos hstopping, hup.not_tidy⟩
    · exact absurd hyes hthread

/-! ## The MQTT server -/

/-- How far the server and its `stop()` have come. -/
inductive MqttPhase (s : Listening) : Prop
  | idle (h : Stopped [] s) (hsock : s.sock = none)
  | running (hrunning : s.running = true) (hstopping : s.stopping = none)
      (hsock : s.sock.isSome = true) (haccounts : s.sockets.Accounts (s.sock.toList ++ []))
  | closing (hrunning : s.running = false) (hstopping : s.stopping = some .closing)
      (hsock : s.sock.isSome = true) (haccounts : s.sockets.Accounts (s.sock.toList ++ []))
  | invalidating (hrunning : s.running = false) (hstopping : s.stopping = some .invalidating)
      (haccounts : s.sockets.Accounts [])
  | joining (hrunning : s.running = false) (hstopping : s.stopping = some .joining)
      (hsock : s.sock = none) (haccounts : s.sockets.Accounts [])

/-- The loop closes nothing. -/
structure MqttSound (s : Listening) : Prop where
  phase : s.MqttPhase
  loop : s.acceptor ≠ some .closing

/-- Where the loop is about to wait, its socket is not closed yet. -/
def Guarded (s : Listening) : Prop := s.Waits → s.HasCloser .mqtt

theorem MqttPhase.held (h : s.MqttPhase) (hcloser : s.HasCloser .mqtt) :
    s.sock.isSome = true ∧ s.sockets.Accounts (s.sock.toList ++ []) := by
  cases h with
  | idle h =>
      rcases hcloser with hrunning | hclosing
      · exact absurd (hrunning.symm.trans h.running) nofun
      · exact absurd (hclosing.symm.trans h.stopping) nofun
  | running _ _ hsock haccounts => exact ⟨hsock, haccounts⟩
  | closing _ _ hsock haccounts => exact ⟨hsock, haccounts⟩
  | invalidating hrunning hstopping | joining hrunning hstopping =>
      rcases hcloser with h | h
      · exact absurd (h.symm.trans hrunning) nofun
      · exact absurd (h.symm.trans hstopping) nofun

theorem MqttPhase.tidy (h : s.MqttPhase) : s.Tidy .mqtt := by
  have hnone : ∀ sock ∈ ([] : List ℕ), s.sock = some sock ∧ s.HasCloser .mqtt :=
    List.forall_mem_nil _
  have hheld : s.HasCloser .mqtt →
      ∀ sock ∈ s.sock.toList ++ [], s.sock = some sock ∧ s.HasCloser .mqtt := by
    intro hcloser sock hsock
    rw [List.append_nil] at hsock
    exact ⟨Option.mem_toList.mp hsock, hcloser⟩
  cases h with
  | idle h hsock =>
      have haccounts := h.accounts
      rw [hsock] at haccounts
      exact tidy_of_accounts haccounts hnone
  | running hrunning _ _ haccounts => exact tidy_of_accounts haccounts (hheld (.inl hrunning))
  | closing _ hstopping _ haccounts => exact tidy_of_accounts haccounts (hheld (.inr hstopping))
  | invalidating _ _ haccounts => exact tidy_of_accounts haccounts hnone
  | joining _ _ _ haccounts => exact tidy_of_accounts haccounts hnone

theorem MqttSound.not_exposed (h : s.MqttSound) (hguarded : s.Guarded) : ¬ s.Exposed := by
  by_cases hwaits : s.Waits
  · obtain ⟨hsock, haccounts⟩ := h.phase.held (hguarded hwaits)
    exact Listening.not_exposed haccounts fun _ => hsock
  · exact fun hexposed => hwaits hexposed.1

/-- The loop may move while the server does not. -/
theorem MqttPhase.move {point next : AcceptPoint} (h : s.MqttPhase)
    (hpoint : s.acceptor = some point) : MqttPhase { s with acceptor := some next } := by
  cases h with
  | idle h => exact absurd (hpoint.symm.trans h.acceptor) nofun
  | running hrunning hstopping hsock haccounts => exact .running hrunning hstopping hsock haccounts
  | closing hrunning hstopping hsock haccounts => exact .closing hrunning hstopping hsock haccounts
  | invalidating hrunning hstopping haccounts => exact .invalidating hrunning hstopping haccounts
  | joining hrunning hstopping hsock haccounts => exact .joining hrunning hstopping hsock haccounts

/-- One step of the MQTT loop. -/
theorem MqttSound.loop_step {point : AcceptPoint} {action : AcceptAction} (h : s.MqttSound)
    (hpoint : s.acceptor = some point) (ht : s.loopStep .mqtt point action = some t) :
    t.MqttSound ∧ (s.Guarded → t.Guarded) := by
  have hmove : ∀ next, next ≠ .closing →
      (Waits { s with acceptor := some next } → s.running = true ∨ s.Waits) →
        MqttSound { s with acceptor := some next } ∧
          (s.Guarded → Guarded { s with acceptor := some next }) := by
    intro next hnext hwaits
    refine ⟨⟨h.phase.move hpoint, fun heq => hnext (Option.some.inj heq)⟩, fun hguarded hnew => ?_⟩
    rcases hwaits hnew with hrunning | hold
    · exact .inl hrunning
    · exact hguarded hold
  have hidle : ∀ {next : AcceptPoint}, next ≠ .selecting → next ≠ .accepting →
      Waits { s with acceptor := some next } → s.running = true ∨ s.Waits := by
    rintro next hselecting haccepting (heq | heq)
    · exact absurd (Option.some.inj heq) hselecting
    · exact absurd (Option.some.inj heq) haccepting
  cases point <;> cases action <;> simp only [loopStep, reduceCtorEq] at ht
  case checking.check =>
    split at ht
    · next hrunning =>
        cases ht
        exact hmove .selecting nofun fun _ => .inl hrunning
    · cases ht
      exact hmove .ended nofun (hidle nofun nofun)
  case selecting.select selected =>
    cases selected with
    | failed =>
        cases ht
        exact hmove .ended nofun (hidle nofun nofun)
    | timeout =>
        cases ht
        exact hmove .checking nofun (hidle nofun nofun)
    | ready =>
        cases ht
        exact hmove .accepting nofun fun _ => .inr (.inl hpoint)
  case accepting.accept ok =>
    cases ht
    cases ok <;> exact hmove _ nofun (hidle nofun nofun)
  case serving.serve =>
    cases ht
    exact hmove .checking nofun (hidle nofun nofun)
  case closing.close => exact absurd hpoint h.loop

/-- The next step of `stop()`. Its first one closes the socket. -/
theorem MqttSound.proceed (h : s.MqttSound) (ht : s.proceed = some t) :
    t.MqttSound ∧ ((s.stopping = some .closing → ¬ s.Waits) → s.Guarded → t.Guarded) := by
  cases h.phase with
  | idle hstopped =>
      rw [Listening.proceed, hstopped.stopping] at ht
      cases ht
  | running _ hstopping =>
      rw [Listening.proceed, hstopping] at ht
      cases ht
  | closing hrunning hstopping hsock haccounts =>
      rw [Listening.proceed, hstopping] at ht
      dsimp only at ht
      rw [if_pos hsock] at ht
      cases ht
      refine ⟨⟨.invalidating hrunning rfl (Pool.Accounts.freeAll haccounts), h.loop⟩, ?_⟩
      exact fun hfree _ hwaits => absurd hwaits (hfree hstopping)
  | invalidating hrunning hstopping haccounts =>
      rw [Listening.proceed, hstopping] at ht
      cases ht
      refine ⟨⟨.joining hrunning rfl rfl haccounts, h.loop⟩, fun _ hguarded hwaits => ?_⟩
      rcases hguarded hwaits with hyes | hclosing
      · exact .inl hyes
      · exact absurd (hclosing.symm.trans hstopping) nofun
  | joining hrunning hstopping hsock haccounts =>
      have hjoined : some { s with acceptor := none, stopping := none } = some t →
          t.MqttSound ∧ ((s.stopping = some .closing → ¬ s.Waits) → s.Guarded → t.Guarded) := by
        intro ht
        cases ht
        have hstopped : Stopped [] { s with acceptor := none, stopping := none } :=
          ⟨hrunning, rfl, rfl, by rw [hsock]; exact haccounts⟩
        refine ⟨⟨.idle hstopped hsock, nofun⟩, fun _ _ hwaits => ?_⟩
        rcases hwaits with hpoint | hpoint <;> cases hpoint
      rw [Listening.proceed, hstopping] at ht
      dsimp only at ht
      split at ht
      · exact hjoined ht
      · exact hjoined ht
      · cases ht

theorem MqttSound.start (h : s.MqttSound) (hstopping : s.stopping = none)
    (answers : ListenAnswers) :
    (settle (start .mqtt answers s)).MqttSound ∧
      (s.Guarded → (settle (start .mqtt answers s)).Guarded) := by
  cases h.phase with
  | idle hstopped hsock =>
      have hcases := settle_start hstopped .mqtt answers
      rw [hsock] at hcases
      rcases hcases with ⟨-, hclosed, hnone⟩ | ⟨-, -, hup⟩ | ⟨-, hup⟩
      · have hpoint := hclosed.acceptor
        refine ⟨⟨.idle hclosed hnone, by rw [hpoint]; nofun⟩, fun _ hwaits => ?_⟩
        rw [Waits, hpoint] at hwaits
        rcases hwaits with h | h <;> cases h
      · refine ⟨⟨.running hup.running hup.stopping hup.sock hup.accounts, ?_⟩, ?_⟩
        · rw [hup.acceptor]
          nofun
        · exact fun _ _ => .inl hup.running
      · refine ⟨⟨.running hup.running hup.stopping hup.sock hup.accounts, ?_⟩, ?_⟩
        · rw [hup.acceptor]
          nofun
        · exact fun _ _ => .inl hup.running
  | running hrunning _ hsock haccounts =>
      rw [settle_start_running hrunning]
      exact ⟨⟨.running hrunning hstopping hsock haccounts, h.loop⟩, fun hguarded => hguarded⟩
  | closing _ hclosing => exact absurd (hclosing.symm.trans hstopping) nofun
  | invalidating _ hinvalidating => exact absurd (hinvalidating.symm.trans hstopping) nofun
  | joining _ hjoining => exact absurd (hjoining.symm.trans hstopping) nofun

theorem MqttSound.step {event : ListenEvent} (h : s.MqttSound)
    (ht : step .mqtt s event = some t) :
    t.MqttSound ∧
      ((event = .proceed → s.stopping = some .closing → ¬ s.Waits) → s.Guarded → t.Guarded) := by
  cases event with
  | start answers =>
      obtain ⟨hstopping, ht⟩ := Option.ite_none_right_eq_some.mp ht
      cases ht
      obtain ⟨hsound, hguarded⟩ := h.start hstopping answers
      exact ⟨hsound, fun _ => hguarded⟩
  | stop =>
      obtain ⟨hstopping, ht⟩ := Option.ite_none_right_eq_some.mp ht
      cases ht
      rw [enterStop]
      split
      · next hrunning =>
          obtain ⟨hsock, haccounts⟩ := h.phase.held (.inl hrunning)
          exact ⟨⟨.closing rfl rfl hsock haccounts, h.loop⟩, fun _ _ _ => .inr rfl⟩
      · exact ⟨h, fun _ => id⟩
  | proceed =>
      obtain ⟨hsound, hguarded⟩ := h.proceed ht
      exact ⟨hsound, fun hevent => hguarded (hevent rfl)⟩
  | loop action =>
      obtain ⟨point, hpoint, ht⟩ := Option.bind_eq_some_iff.mp ht
      obtain ⟨hsound, hguarded⟩ := h.loop_step hpoint ht
      exact ⟨hsound, fun _ => hguarded⟩

theorem mqtt_initial : MqttSound {} :=
  ⟨.idle ⟨rfl, rfl, rfl, Pool.accounts_empty⟩ rfl, nofun⟩

/-- The MQTT server closes every socket once, and its loop waits on one that
has been closed if and only if `stop()` closes it while the loop is between
its condition and the end of `accept`. -/
theorem mqtt_listen_socket (events : List ListenEvent) :
    Always (step .mqtt) (Tidy .mqtt) {} events ∧
      (Always (step .mqtt) (fun s => ¬ s.Exposed) {} events ↔
        Along (step .mqtt) (fun s event =>
          event = .proceed → s.stopping = some .closing → ¬ s.Waits) {} events) := by
  constructor
  · exact always_of_invariant_along (P := fun _ _ => True) (fun s event t h _ ht => (h.step ht).1)
      (fun s h => h.phase.tidy) mqtt_initial (along_of_forall (fun _ _ => trivial) _ _)
  · refine always_iff_along (I := fun s => s.MqttSound ∧ s.Guarded)
      (fun s h => h.1.not_exposed h.2) ?_ ?_ ⟨mqtt_initial, fun h => ?_⟩ events
    · rintro s event t ⟨hsound, hguarded⟩ hevent ht
      exact ⟨(hsound.step ht).1, (hsound.step ht).2 hevent hguarded⟩
    · rintro s event ⟨hsound, -⟩ hnot
      push Not at hnot
      obtain ⟨rfl, hclosing, hwaits⟩ := hnot
      obtain ⟨hsock, -⟩ := hsound.phase.held (.inr hclosing)
      have hstep : step .mqtt s .proceed = some { s with
          sockets := s.sockets.freeAll s.sock.toList, stopping := some .invalidating } := by
        rw [step, Listening.proceed, hclosing]
        exact if_pos hsock
      refine ⟨_, hstep, not_not.mpr ⟨hwaits, fun sock hmem => ?_⟩⟩
      change sock ∈ (s.sockets.freeAll s.sock.toList).freed
      rw [show s.sock = some sock from hmem]
      exact List.mem_cons_self
    · rcases h with h | h <;> cases h

end Listening

end MockServices.Detail
