import MockServices.Mqtt.Watched

/-!
# What `stop()` leaves open

`stop()` knows the sockets of its handlers from the sessions only. A
handler that has not registered yet, or whose session is another one's by
now, is in no session, so the sweep leaves its socket open, and
`join_all` waits for a handler that waits for its client.
-/

namespace MockServices.Mqtt

open Foundations

namespace Broker

/-- The handler comes to a `recv`, now or later. -/
def Receives (b : Broker) (conn : ConnId) : Prop :=
  ∃ events b' handler, run step b events = some b' ∧ b'.handlers conn = some handler ∧
    handler.stage.receiving = true

/-- When the sessions are swept, the socket of every handler has been shut
down and closed, or the handler ends without another `recv`. -/
def StopSafe (b : Broker) : Prop :=
  b.phase = .joining → ∀ conn handler, b.handlers conn = some handler →
    handler.stage ≠ .done → b.descriptors handler.sock ≠ some conn ∨ ¬ b.Receives conn

/-- The sweep begins when every handler in a `recv` on its own socket has
this socket in some session. -/
def SweepsReceivers (b : Broker) : Event → Prop
  | .stopSessions => b.phase = .stopping → ∀ conn handler, b.handlers conn = some handler →
      handler.stage.receiving = true → b.descriptors handler.sock = some conn →
        ∃ (clientId : Bytes) (session : Session),
          b.sessions[clientId]? = some session ∧ session.sock = handler.sock
  | _ => True

def Bookkept (b : Broker) : Prop := ∃ m, Kept b m

theorem step_kept {b b' : Broker} {m : Members} {event : Event} (h : Kept b m)
    (hstep : b.step event = some b') : ∃ m', Turned b m event b' m' ∧ Kept b' m' := by
  have hwatched : Watched.step ⟨b, m⟩ event = some ⟨b', observe b m event⟩ :=
    Option.map_eq_some_iff.mpr ⟨b', hstep, rfl⟩
  exact ⟨_, turned hwatched, h.turned (turned hwatched)⟩

theorem Bookkept.step {b b' : Broker} {event : Event} (h : b.Bookkept)
    (hstep : b.step event = some b') : b'.Bookkept := by
  obtain ⟨m, hkept⟩ := h
  obtain ⟨m', -, hkept'⟩ := step_kept hkept hstep
  exact ⟨m', hkept'⟩

section Joining

variable {b b' : Broker} {m m' : Members} {conn : ConnId} {handler : Handler} {action : Action}

theorem receiving_afterRequest (request : Request) : (afterRequest request).receiving = false := by
  cases request with
  | publish packet => cases packet <;> rfl
  | subscribe packet => cases packet <;> rfl
  | pingreq | disconnect | unexpected => rfl

/-- Once `running_` is cleared no handler gets to another `recv`. -/
theorem receiving_of_act (h : b.act conn handler action = some b') (hphase : b.phase ≠ .running)
    {next : Handler} (hnext : b'.handlers conn = some next) : next.stage.receiving = false := by
  have hbecome : ∀ {b₀ : Broker} {handler' : Handler}, some (b₀.become conn handler') = some b' →
      handler'.stage.receiving = false → next.stage.receiving = false :=
    fun h hstage => next_of_become h hnext ▸ hstage
  unfold act at h
  split at h
  case h_1 => split at h <;> exact hbecome h rfl
  case h_3 => split at h <;> exact hbecome h rfl
  case h_4 =>
      rw [if_neg hphase] at h
      exact hbecome h rfl
  case h_5 =>
      split at h
      · exact hbecome h rfl
      · exact hbecome h (receiving_afterRequest _)
  case h_17 => cases h
  all_goals exact hbecome h rfl

end Joining

section Steps

variable {b b' : Broker} {event : Event} {conn : ConnId} {handler : Handler}

/-- After the sweep begins a handler's own step keeps it from another `recv`. -/
theorem step_own {action : Action} (hstep : b.step (.act conn action) = some b')
    (hhandler : b.handlers conn = some handler) (hphase : b.phase ≠ .running) :
    b'.phase = b.phase ∧ ∃ next, b'.handlers conn = some next ∧ next.stage.receiving = false := by
  rw [step_act hhandler] at hstep
  have hacted := acted (m := .empty) hstep
  obtain ⟨next, hnext, -⟩ := hacted.self
  exact ⟨hacted.phase, next, hnext, receiving_of_act hstep hphase hnext⟩

/-- The handler is past its last `recv`. -/
def PastReceiving (conn : ConnId) (b : Broker) : Prop :=
  b.Bookkept ∧ ∃ handler, b.handlers conn = some handler ∧ handler.stage.receiving = false ∧
    (b.phase = .joining ∨ handler.stage = .done)

theorem PastReceiving.step (h : PastReceiving conn b) (hstep : b.step event = some b') :
    PastReceiving conn b' := by
  obtain ⟨⟨m, hkept⟩, handler, hhandler, hreceiving, hwhere⟩ := h
  obtain ⟨m', hturned, hkept'⟩ := step_kept hkept hstep
  refine ⟨⟨m', hkept'⟩, ?_⟩
  by_cases hown : ∃ action, event = .act conn action
  · obtain ⟨action, rfl⟩ := hown
    have hphase : b.phase = .joining := by
      refine hwhere.resolve_right fun hdone => ?_
      rw [step_act hhandler] at hstep
      exact (acted (m := m) hstep).not_done hdone
    obtain ⟨hsame, next, hnext, hreceiving'⟩ := step_own hstep hhandler (by simp [hphase])
    exact ⟨next, hnext, hreceiving', Or.inl (hsame.trans hphase)⟩
  · refine ⟨handler, hkept.bystander hturned hhandler fun action h => hown ⟨action, h⟩,
      hreceiving, ?_⟩
    by_cases hdone : handler.stage = .done
    · exact Or.inr hdone
    · have hphase := hwhere.resolve_right hdone
      have hlt := hkept.lt_nextConn hhandler
      cases hturned with
      | started h | flagged h | swept h => simp [hphase] at h
      | accepted h => simp [hphase] at h
      | joined _ hjoined => exact absurd (hjoined conn hlt handler hhandler) hdone
      | cleared => exact Or.inl hphase
      | acted _ _ hacted => exact Or.inl (hacted.phase.trans hphase)

/-- No step of the joining phase opens a descriptor. -/
theorem descriptors_of_joining (hkept : b.Bookkept) (hphase : b.phase = .joining)
    (hstep : b.step event = some b') {sock : RawSocket}
    (hopen : b'.descriptors sock = some conn) : b.descriptors sock = some conn := by
  obtain ⟨m, hkept⟩ := hkept
  obtain ⟨m', hturned, -⟩ := step_kept hkept hstep
  cases hturned with
  | started h | flagged h | swept h => simp [hphase] at h
  | accepted h => simp [hphase] at h
  | joined | cleared => exact hopen
  | acted handler hhandler hacted => exact hacted.open_before hopen

/-- When the sessions have been swept, a handler that is in no `recv` ends
without another one. -/
theorem not_receives (hkept : b.Bookkept) (hphase : b.phase = .joining)
    (hhandler : b.handlers conn = some handler) (hreceiving : handler.stage.receiving = false) :
    ¬ b.Receives conn := by
  rintro ⟨events, b', next, hrun, hnext, hagain⟩
  have hpast : PastReceiving conn b := ⟨hkept, handler, hhandler, hreceiving, Or.inl hphase⟩
  obtain ⟨-, last, hlast, hnot, -⟩ := run_invariant (fun _ _ _ h hstep => h.step hstep) hpast hrun
  rw [hnext] at hlast
  cases hlast
  simp [hagain] at hnot

end Steps

/-- What a run keeps true, besides its being safe to join the handlers. -/
structure Released (b : Broker) : Prop where
  kept : b.Bookkept
  closed : b.phase = .joining → ∀ conn handler, b.handlers conn = some handler →
    handler.stage.receiving = true → b.descriptors handler.sock ≠ some conn

theorem Released.safe {b : Broker} (h : b.Released) : b.StopSafe := by
  intro hphase conn handler hhandler hdone
  cases hreceiving : handler.stage.receiving with
  | true => exact Or.inl (h.closed hphase conn handler hhandler hreceiving)
  | false => exact Or.inr (not_receives h.kept hphase hhandler hreceiving)

theorem sweepSessions_descriptors (b : Broker) {sock : RawSocket} {conn : ConnId} :
    b.sweepSessions.descriptors sock = some conn ↔ b.descriptors sock = some conn ∧
      ∀ (clientId : Bytes) (session : Session), b.sessions[clientId]? = some session →
        session.sock ≠ sock := by
  have hany : (b.sessions.toList.any fun entry => entry.2.sock = sock) = true ↔
      ∃ (clientId : Bytes) (session : Session), b.sessions[clientId]? = some session ∧
        session.sock = sock := by
    simp only [List.any_eq_true, decide_eq_true_eq, Prod.exists,
      Std.TreeMap.mem_toList_iff_getElem?_eq_some]
  change (if _ then none else b.descriptors sock) = some conn ↔ _
  rw [Option.ite_none_left_eq_some, hany, and_comm]
  push Not
  rfl

theorem Released.init : Released {} where
  kept := ⟨.empty, .init⟩
  closed h := by cases h

/-- The step lemma: a sweep that reaches every receiver leaves none waiting. -/
theorem Released.step {b b' : Broker} {event : Event} (h : b.Released)
    (hsweeps : b.SweepsReceivers event) (hstep : b.step event = some b') : b'.Released := by
  refine ⟨h.kept.step hstep, fun hphase conn handler hhandler hreceiving hopen => ?_⟩
  obtain ⟨m, hkept⟩ := h.kept
  obtain ⟨m', hturned, -⟩ := step_kept hkept hstep
  cases hturned with
  | started | flagged | joined => cases hphase
  | accepted hrunning =>
      have hsame : b.phase = .joining := hphase
      simp [hsame] at hrunning
  | swept hstopping =>
      obtain ⟨hown, hnone⟩ := b.sweepSessions_descriptors.mp hopen
      obtain ⟨clientId, session, hsession, hsock⟩ :=
        hsweeps hstopping conn handler hhandler hreceiving hown
      exact hnone clientId session hsession hsock
  | cleared => exact h.closed hphase conn handler hhandler hreceiving hopen
  | @acted other action b' m' actor hactor hacted =>
      have hjoining : b.phase = .joining := hacted.phase.symm.trans hphase
      have hbefore := descriptors_of_joining ⟨m, hkept⟩ hjoining hstep hopen
      by_cases hown : conn = other
      · subst hown
        obtain ⟨-, next, hnext, hnot⟩ := step_own hstep hactor (by simp [hjoining])
        rw [hnext] at hhandler
        cases hhandler
        simp [hreceiving] at hnot
      · rw [hacted.other hown] at hhandler
        exact h.closed hjoining conn handler hhandler hreceiving hbefore

theorem not_safe_of_not_sweeps {b : Broker} {event : Event} (h : ¬ b.SweepsReceivers event) :
    ∃ b', b.step event = some b' ∧ ¬ b'.StopSafe := by
  cases event with
  | stopSessions =>
      simp only [SweepsReceivers] at h
      push Not at h
      obtain ⟨hphase, conn, handler, hhandler, hreceiving, hown, hnone⟩ := h
      refine ⟨{ b.sweepSessions with phase := .joining }, if_pos hphase, fun hsafe => ?_⟩
      have hdone : handler.stage ≠ .done :=
        fun hdone => by simp [hdone, Stage.receiving] at hreceiving
      rcases hsafe rfl conn handler hhandler hdone with hclosed | hnot
      · exact hclosed (b.sweepSessions_descriptors.mpr ⟨hown, hnone⟩)
      · exact hnot ⟨[], _, handler, rfl, hhandler, hreceiving⟩
  | _ => exact absurd trivial h

end Broker

/-- Joining the handlers. In a run of the broker, the connections and
`stop()`, no handler that is joined waits on an open socket, exactly when
every sweep reaches the handlers that are in a `recv`. -/
theorem stop_joins_no_blocked_handler_iff (events : List Event) :
    Always Broker.step Broker.StopSafe {} events ↔
      Along Broker.step Broker.SweepsReceivers {} events :=
  always_iff_along (fun _ h => h.safe) (fun _ _ _ h hsweeps hstep => h.step hsweeps hstep)
    (fun _ _ _ hnot => Broker.not_safe_of_not_sweeps hnot) Broker.Released.init events

/-- A client has connected and sent nothing when the server is stopped. -/
def silentClient : List Event := [.start, .accept 4, .stopFlag, .stopSessions]

theorem stop_joins_blocked_handler :
    ¬ ∀ events, Always Broker.step Broker.StopSafe {} events := by
  intro h
  have hrun : ((run Broker.step {} silentClient).any fun b =>
      b.phase = .joining ∧ b.descriptors 4 = some 0 ∧ (b.handlers 0).any fun handler =>
        handler.sock = 4 ∧ handler.stage = .handshake) = true := by decide +kernel
  obtain ⟨b, hb, hlast⟩ := (Option.any_eq_true _ _).mp hrun
  obtain ⟨hphase, hopen, hwaits⟩ := of_decide_eq_true hlast
  obtain ⟨handler, hhandler, hstage⟩ := (Option.any_eq_true _ _).mp hwaits
  obtain ⟨hsock, hstage⟩ := of_decide_eq_true hstage
  rcases (h silentClient).of_run hb hphase 0 handler hhandler (by simp [hstage]) with hclosed | hnot
  · exact hclosed (hsock ▸ hopen)
  · exact hnot ⟨[], b, handler, rfl, hhandler, by rw [hstage]; rfl⟩

end MockServices.Mqtt
