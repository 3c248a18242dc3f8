import MockServices.Mqtt.Stop

/-!
# No stale sessions

A session belongs to a handler that still has its removal ahead of it, so
the sessions are gone when the last handler is done. After a `stop()` that
returned, nothing is routed to a connection of the run before.
-/

namespace MockServices.Mqtt

open Foundations

/-- The handler has registered and has its `remove_session` ahead of it. -/
def Stage.registered (stage : Stage) : Prop :=
  stage.serving = true ∨ stage = .dropping ∨ stage = .leaving

theorem registered_not_done {stage : Stage} (h : stage.registered) : stage ≠ .done := by
  rintro rfl
  rcases h with h | h | h <;> cases h

namespace Broker

/-- Every key of the sessions is the client id of a handler that
registered and has not returned. -/
def SessionsLive (b : Broker) : Prop :=
  ∀ (clientId : Bytes) (session : Session), b.sessions[clientId]? = some session →
    ∃ conn handler, b.handlers conn = some handler ∧ handler.clientId = clientId ∧
      handler.sock = session.sock ∧ handler.stage.registered ∧ handler.stage ≠ .done

def NoSessions (b : Broker) : Prop := ∀ clientId : Bytes, b.sessions[clientId]? = none

def AllDone (b : Broker) : Prop :=
  ∀ conn handler, b.handlers conn = some handler → handler.stage = .done

section Live

variable {b b' : Broker} {m m' : Members} {event : Event}

theorem sessionsLive_of_kept (h : Kept b m) : b.SessionsLive := by
  intro clientId session hsession
  obtain ⟨conn, handler, hlatest, hhandler, hsock, haccepted⟩ := h.session clientId session hsession
  obtain ⟨g, hg, hid, -⟩ := h.latest clientId conn hlatest
  obtain rfl : handler = g := Option.some.inj (hhandler.symm.trans hg)
  obtain ⟨g, hg, hstage⟩ := h.member conn haccepted
  obtain rfl : handler = g := Option.some.inj (hhandler.symm.trans hg)
  exact ⟨conn, handler, hhandler, hid, hsock.symm, hstage, registered_not_done hstage⟩

theorem noSessions_of_allDone (h : b.SessionsLive) (hdone : b.AllDone) : b.NoSessions := by
  intro clientId
  by_contra hsome
  obtain ⟨session, hsession⟩ := Option.ne_none_iff_exists'.mp hsome
  obtain ⟨conn, handler, hhandler, -, -, -, hnot⟩ := h clientId session hsession
  exact hnot (hdone conn handler hhandler)

theorem allDone_of_joined (hkept : Kept b m) (h : b.Joined) : b.AllDone := by
  intro conn handler hhandler
  exact h conn (hkept.lt_nextConn hhandler) handler hhandler

/-- While the server is idle no handler is left. -/
def IdleDone (b : Broker) : Prop := b.phase = .idle → b.AllDone

theorem IdleDone.step (h : b.IdleDone) (hkept : Kept b m) (hturned : Turned b m event b' m') :
    b'.IdleDone := by
  intro hidle
  cases hturned with
  | started | flagged | swept => cases hidle
  | joined _ hjoined =>
      intro conn handler hhandler
      exact allDone_of_joined hkept hjoined conn handler hhandler
  | accepted hphase =>
      have hsame : b.phase = .idle := hidle
      simp [hsame] at hphase
  | cleared => exact h hidle
  | acted handler hhandler hacted =>
      exact absurd (h (hacted.phase.symm.trans hidle) _ handler hhandler) hacted.not_done

/-- An open descriptor denotes a connection whose handler has it and is not
done with it. -/
def Denoting (b : Broker) : Prop :=
  ∀ sock conn, b.descriptors sock = some conn →
    ∃ handler, b.handlers conn = some handler ∧ handler.sock = sock ∧ handler.stage ≠ .done

theorem Denoting.act {conn : ConnId} {handler : Handler} {action : Action} (h : b.Denoting)
    (hhandler : b.handlers conn = some handler) (hacted : Acted b m conn handler action b' m') :
    b'.Denoting := by
  intro sock other hopen
  have hbefore := hacted.open_before hopen
  obtain ⟨g, hg, hsock, hdone⟩ := h sock other hbefore
  by_cases hown : other = conn
  · subst hown
    obtain rfl : handler = g := Option.some.inj (hhandler.symm.trans hg)
    obtain ⟨next, hnext, hsame⟩ := hacted.self
    refine ⟨next, hnext, hsame.trans hsock, ?_⟩
    refine hacted.not_done_after ?_ hnext
    -- Only the last `close` ends a handler, and it frees the handler's own number.
    rintro rfl
    cases hacted with
    | closed stage hstage =>
        rw [become_descriptors, sockClose_descriptors, if_pos hsock.symm] at hopen
        cases hopen
    | served _ _ _ _ _ haction => exact haction.2 rfl
  · exact ⟨g, (hacted.other hown).trans hg, hsock, hdone⟩

theorem Denoting.step (h : b.Denoting) (hkept : Kept b m) (hturned : Turned b m event b' m') :
    b'.Denoting := by
  cases hturned with
  | started | flagged | joined | cleared => exact h
  | swept =>
      intro sock conn hopen
      exact h sock conn (b.sweepSessions_descriptors.mp hopen).1
  | accepted hphase hfree =>
      intro number conn hopen
      rw [acceptConn_descriptors] at hopen
      split at hopen
      · next hnumber =>
          cases hopen
          refine ⟨{ sock := number }, ?_, rfl, by simp⟩
          rw [acceptConn_handlers, if_pos rfl, hnumber]
      · obtain ⟨g, hg, hrest⟩ := h number conn hopen
        exact ⟨g, hkept.handlers_acceptConn hg _, hrest⟩
  | acted handler hhandler hacted => exact h.act hhandler hacted

end Live

section Routing

variable {b b' : Broker} {conn : ConnId} {handler next : Handler} {action : Action}

theorem afterRequest_ne_forwarding (request : Request) (publishFrame : Bytes)
    (targets : List RawSocket) : afterRequest request ≠ .forwarding publishFrame targets := by
  cases request with
  | publish packet => cases packet <;> simp [afterRequest]
  | subscribe packet => cases packet <;> simp [afterRequest]
  | pingreq | disconnect | unexpected => simp [afterRequest]

/-- The targets of a handler are what is left of those of its routing step. -/
theorem forwarding_of_act (h : b.act conn handler action = some b')
    (hnext : b'.handlers conn = some next) {publishFrame : Bytes} {targets : List RawSocket}
    (hstage : next.stage = .forwarding publishFrame targets) :
    (∃ target, handler.stage = .forwarding publishFrame (target :: targets)) ∨
      ∃ packet, handler.stage = .routing packet ∧ targets = b.targets packet.topic := by
  have hbecome : ∀ {b₀ : Broker} {handler' : Handler}, some (b₀.become conn handler') = some b' →
      handler'.stage = .forwarding publishFrame targets :=
    fun h => next_of_become h hnext ▸ hstage
  unfold act at h
  split at h
  case h_1 => split at h <;> cases hbecome h
  case h_3 => split at h <;> cases hbecome h
  case h_4 => split at h <;> cases hbecome h
  case h_5 =>
      split at h
      · cases hbecome h
      · exact absurd (hbecome h) (afterRequest_ne_forwarding _ _ _)
  case h_7 packet hrouting =>
      cases hbecome h
      exact Or.inr ⟨packet, hrouting, rfl⟩
  case h_8 target rest hforwarding =>
      cases hbecome h
      exact Or.inl ⟨target, hforwarding⟩
  case h_17 => cases h
  all_goals cases hbecome h

end Routing

/-- Only connections from `first` on have work left, and only these are
targets. -/
structure Since (first : ConnId) (b : Broker) : Prop where
  first_le : first ≤ b.nextConn
  working : ∀ conn handler, b.handlers conn = some handler → handler.stage ≠ .done → first ≤ conn
  target : ∀ conn handler publishFrame targets, b.handlers conn = some handler →
    handler.stage = .forwarding publishFrame targets → ∀ sock ∈ targets,
      ∃ owner g, first ≤ owner ∧ b.handlers owner = some g ∧ g.sock = sock

section Since

variable {first : ConnId} {b b' : Broker} {m m' : Members} {event : Event}

theorem Since.targets (h : Since first b) (hlive : b.SessionsLive) (topic : Bytes)
    {sock : RawSocket} (hsock : sock ∈ b.targets topic) :
    ∃ owner g, first ≤ owner ∧ b.handlers owner = some g ∧ g.sock = sock := by
  simp only [Broker.targets, List.mem_map, List.mem_filter] at hsock
  obtain ⟨⟨clientId, session⟩, ⟨hentry, -⟩, rfl⟩ := hsock
  obtain ⟨conn, handler, hhandler, -, hsame, -, hdone⟩ :=
    hlive clientId session (Std.TreeMap.mem_toList_iff_getElem?_eq_some.mp hentry)
  exact ⟨conn, handler, h.working conn handler hhandler hdone, hhandler, hsame⟩

theorem since_of_allDone (hdone : b.AllDone) : Since b.nextConn b where
  first_le := Nat.le_refl _
  working conn handler hhandler hnot := absurd (hdone conn handler hhandler) hnot
  target conn handler publishFrame targets hhandler hstage := by
    rw [hdone conn handler hhandler] at hstage
    cases hstage

theorem Since.step (h : Since first b) (hkept : Kept b m) (hstep : b.step event = some b')
    (hturned : Turned b m event b' m') : Since first b' := by
  cases hturned with
  | started | flagged | swept | joined | cleared => exact ⟨h.first_le, h.working, h.target⟩
  | accepted hphase hfree =>
      refine ⟨Nat.le_succ_of_le h.first_le, fun conn handler hhandler hnot => ?_,
        fun conn handler publishFrame targets hhandler hstage sock hsock => ?_⟩
      · rw [acceptConn_handlers] at hhandler
        split at hhandler
        · next heq => exact heq ▸ h.first_le
        · exact h.working conn handler hhandler hnot
      · rw [acceptConn_handlers] at hhandler
        split at hhandler
        · cases hhandler
          cases hstage
        · obtain ⟨owner, g, hfirst, hg, hrest⟩ :=
            h.target conn handler publishFrame targets hhandler hstage sock hsock
          exact ⟨owner, g, hfirst, hkept.handlers_acceptConn hg _, hrest⟩
  | @acted actor action _ _ handler hhandler hacted =>
      have hkeeps : ∀ sock, (∃ owner g, first ≤ owner ∧ b.handlers owner = some g ∧ g.sock = sock) →
          ∃ owner g, first ≤ owner ∧ b'.handlers owner = some g ∧ g.sock = sock := by
        rintro sock ⟨owner, g, hfirst, hg, hsock⟩
        by_cases hown : owner = actor
        · subst hown
          obtain rfl : handler = g := Option.some.inj (hhandler.symm.trans hg)
          obtain ⟨next, hnext, hsame⟩ := hacted.self
          exact ⟨owner, next, hfirst, hnext, hsame.trans hsock⟩
        · exact ⟨owner, g, hfirst, (hacted.other hown).trans hg, hsock⟩
      have hactor := h.working actor handler hhandler hacted.not_done
      refine ⟨?_, fun conn g hg hnot => ?_,
        fun conn g publishFrame targets hg hstage sock hsock => hkeeps sock ?_⟩
      · exact hacted.nextConn ▸ h.first_le
      · by_cases hown : conn = actor
        · exact hown ▸ hactor
        · exact h.working conn g ((hacted.other hown).symm.trans hg) hnot
      · by_cases hown : conn = actor
        · subst hown
          rw [step_act hhandler] at hstep
          obtain ⟨target, hbefore⟩ | ⟨packet, -, rfl⟩ := forwarding_of_act hstep hg hstage
          · exact h.target conn handler _ _ hhandler hbefore sock (List.mem_cons_of_mem _ hsock)
          · exact h.targets (sessionsLive_of_kept hkept) _ hsock
        · exact h.target conn g publishFrame targets ((hacted.other hown).symm.trans hg) hstage sock
            hsock

end Since

section Runs

variable {b b' : Broker} {events : List Event}

/-- What every run keeps true. -/
def Settled (b : Broker) : Prop := b.Bookkept ∧ b.IdleDone ∧ b.Denoting

theorem Settled.init : Settled {} := by
  refine ⟨⟨.empty, .init⟩, fun _ conn handler hhandler => ?_, fun sock conn hopen => ?_⟩
  · cases hhandler
  · cases hopen

theorem Settled.step {event : Event} (h : b.Settled) (hstep : b.step event = some b') :
    b'.Settled := by
  obtain ⟨⟨m, hkept⟩, hidle, hdenoting⟩ := h
  obtain ⟨m', hturned, hkept'⟩ := step_kept hkept hstep
  exact ⟨⟨m', hkept'⟩, hidle.step hkept hturned, hdenoting.step hkept hturned⟩

theorem settled_run (h : b.Settled) (hrun : run Broker.step b events = some b') : b'.Settled :=
  run_invariant (fun _ _ _ h hstep => h.step hstep) h hrun

theorem Settled.sessionsLive (h : b.Settled) : b.SessionsLive := by
  obtain ⟨⟨m, hkept⟩, -⟩ := h
  exact sessionsLive_of_kept hkept

theorem since_run {first : ConnId} (hsettled : b.Settled) (h : Since first b)
    (hrun : run Broker.step b events = some b') : Since first b' := by
  refine (run_invariant (I := fun u => u.Settled ∧ Since first u) (fun u event v hu hstep => ?_)
    ⟨hsettled, h⟩ hrun).2
  refine ⟨hu.1.step hstep, ?_⟩
  obtain ⟨⟨m, hkept⟩, -⟩ := hu.1
  obtain ⟨m', hturned, -⟩ := step_kept hkept hstep
  exact hu.2.step hkept hstep hturned

/-- Nothing goes to a connection before `first`: neither is its socket a
target of a routing step, nor does a frame reach its descriptor. -/
def RoutesFrom (first : ConnId) (b : Broker) : Prop :=
  (∀ topic, ∀ sock ∈ b.targets topic,
    ∃ owner g, first ≤ owner ∧ b.handlers owner = some g ∧ g.sock = sock) ∧
  (∀ conn handler publishFrame targets, b.handlers conn = some handler →
    handler.stage = .forwarding publishFrame targets → ∀ sock ∈ targets,
      ∃ owner g, first ≤ owner ∧ b.handlers owner = some g ∧ g.sock = sock) ∧
  ∀ sock conn, b.descriptors sock = some conn → first ≤ conn

theorem Since.routesFrom {first : ConnId} (h : Since first b) (hsettled : b.Settled) :
    RoutesFrom first b := by
  refine ⟨fun topic sock hsock => h.targets hsettled.sessionsLive topic hsock, h.target,
    fun sock conn hopen => ?_⟩
  obtain ⟨handler, hhandler, -, hdone⟩ := hsettled.2.2 sock conn hopen
  exact h.working conn handler hhandler hdone

end Runs

end Broker

/-- In every reachable state the sessions are those of handlers that have
not returned. Without a running handler, while the server is idle and when
`stop()` returns there are none, and a server that runs on after that never
routes to a connection it accepted before. -/
theorem no_stale_sessions {events : List Event} {b : Broker}
    (hrun : run Broker.step {} events = some b) :
    b.SessionsLive ∧ (b.AllDone → b.NoSessions) ∧ (b.phase = .idle → b.NoSessions) ∧
    ∀ stopped, b.step .stopJoined = some stopped → stopped.NoSessions ∧
      ∀ later b', run Broker.step stopped later = some b' →
        Broker.RoutesFrom stopped.nextConn b' := by
  have hsettled := Broker.settled_run .init hrun
  have hempty : b.AllDone → b.NoSessions := Broker.noSessions_of_allDone hsettled.sessionsLive
  refine ⟨hsettled.sessionsLive, hempty, fun hidle => hempty (hsettled.2.1 hidle),
    fun stopped hstop => ?_⟩
  have hstopped := hsettled.step hstop
  have hdone : stopped.AllDone := by
    obtain ⟨-, heq⟩ := Option.ite_none_right_eq_some.mp hstop
    cases heq
    exact hstopped.2.1 rfl
  refine ⟨Broker.noSessions_of_allDone hstopped.sessionsLive hdone, fun later b' hlater => ?_⟩
  exact (Broker.since_run hstopped (Broker.since_of_allDone hdone) hlater).routesFrom
    (Broker.settled_run hstopped hlater)

/-- A subscriber is connected when the server is stopped. -/
def stoppedSubscriber : List Event :=
  .start :: joining 0 4 (ascii "a") ++
    [.act 0 (.receive (wholePiece 0x82 [6, 0, 1, 0, 1, 0x74, 0])), .act 0 .subscribe, .stopFlag,
      .stopSessions, .act 0 .suback, .act 0 .check, .act 0 .remove, .act 0 .close]

theorem no_stale_sessions_restarted :
    ∃ b stopped b', run Broker.step {} stoppedSubscriber = some b ∧
      b.step .stopJoined = some stopped ∧ stopped.NoSessions ∧
      run Broker.step stopped (.start :: joining 1 4 (ascii "a")) = some b' ∧
      Broker.RoutesFrom 1 b' := by
  have hruns : ((run Broker.step {} stoppedSubscriber).any fun b =>
      (b.step .stopJoined).any fun stopped => stopped.nextConn = 1 ∧
        (run Broker.step stopped (.start :: joining 1 4 (ascii "a"))).isSome) = true := by
    decide +kernel
  obtain ⟨b, hb, hruns⟩ := (Option.any_eq_true _ _).mp hruns
  obtain ⟨stopped, hstopped, hruns⟩ := (Option.any_eq_true _ _).mp hruns
  obtain ⟨hfirst, hsome⟩ := of_decide_eq_true hruns
  obtain ⟨b', hb'⟩ := Option.isSome_iff_exists.mp hsome
  obtain ⟨-, -, -, hstop⟩ := no_stale_sessions hb
  obtain ⟨hnone, hlater⟩ := hstop stopped hstopped
  exact ⟨b, stopped, b', hb, hstopped, hnone, hb', hfirst ▸ hlater _ b' hb'⟩

end MockServices.Mqtt
