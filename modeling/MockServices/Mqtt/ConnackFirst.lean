import MockServices.Mqtt.Connack

/-!
# What keeps the CONNACK first

A packet overtakes a CONNACK in two ways. A SUBSCRIBE adds filters to a
session whose CONNACK is still to be sent, and a PUBLISH is routed to it. Or
`accept` returns a number that a handler, its targets or a session with
filters has kept from an earlier connection. As long as neither happens, the
first packet of every connection is its CONNACK.
-/

namespace MockServices.Mqtt

open Foundations

namespace Stage

/-- The handler has not begun to leave. -/
def staying : Stage → Bool
  | .leaving | .closing | .done => false
  | _ => true

def targets : Stage → List RawSocket
  | .forwarding _ targets => targets
  | _ => []

end Stage

/-- The number is that of a handler that has not begun to leave, a target of
a forwarding handler, or that of a session with filters. -/
def Broker.remembers (b : Broker) (sock : RawSocket) : Bool :=
  ((List.range b.nextConn).any fun conn => (b.handlers conn).any fun handler =>
    handler.stage.staying && handler.sock = sock || sock ∈ handler.stage.targets) ||
  b.sessions.toList.any fun entry => entry.2.filters ≠ [] && entry.2.sock = sock

namespace Greeting

/-- Filters are added only to a session whose descriptor is closed or denotes
a connection that has been sent its CONNACK, and `accept` returns only a
number that is not remembered. -/
def sparesNewcomers (g : Greeting) : Event → Bool
  | .act conn .subscribe => (g.broker.handlers conn).all fun handler =>
      match handler.stage with
      | .subscribing packet => packet.filters = [] ||
          (g.broker.sessions[handler.clientId]?).all fun session =>
            (g.broker.descriptors session.sock).all g.greeted
      | _ => true
  | .accept sock => !g.broker.remembers sock
  | _ => true

/-- The descriptor is closed, or denotes a connection that has been sent its
CONNACK. -/
def Greeted (g : Greeting) (sock : RawSocket) : Prop :=
  ∀ dest, g.broker.descriptors sock = some dest → g.greeted dest = true

/-- What holds as long as newcomers are spared. -/
structure Sparing (g : Greeting) : Prop extends Polite g where
  own : ∀ conn handler, g.broker.handlers conn = some handler → handler.stage.staying = true →
    ∀ dest, g.broker.descriptors handler.sock = some dest → dest = conn
  filtered : ∀ (clientId : Bytes) (session : Session), g.broker.sessions[clientId]? = some session →
    session.filters ≠ [] → g.Greeted session.sock
  aimed : ∀ conn handler, g.broker.handlers conn = some handler →
    ∀ target ∈ handler.stage.targets, g.Greeted target

end Greeting

namespace Broker

section Steps

variable {b b' : Broker} {m m' : Members} {conn : ConnId} {handler next : Handler}
  {action : Action}

/-- A handler that sends has not begun to leave. It sends on its own
descriptor, or forwards to a target. -/
theorem sends_cases (hhandler : b.handlers conn = some handler) {sock : RawSocket} {packet : Bytes}
    (h : b.sends (.act conn action) = some (sock, packet)) :
    handler.stage.staying = true ∧ sock = handler.sock ∧
        (greets handler action = true ∨ handler.stage.spoken = true) ∨
      sock ∈ handler.stage.targets := by
  simp only [sends, hhandler, Option.bind_some] at h
  split at h
  case h_1 hstage =>
      cases h
      exact Or.inl ⟨by rw [hstage]; rfl, rfl, Or.inl (by simp [greets, hstage])⟩
  case h_2 hstage =>
      cases h
      rw [hstage]
      exact Or.inr List.mem_cons_self
  case h_5 => cases h
  all_goals
    rename_i hstage
    cases h
    exact Or.inl ⟨by rw [hstage]; rfl, rfl, Or.inr (by rw [hstage]; rfl)⟩

/-- What is taken is read from an open descriptor. -/
theorem takes_open (h : b.takes handler action = true) :
    handler.stage = .reading ∧ ∃ source, b.descriptors handler.sock = some source := by
  unfold takes at h
  split at h
  · next source hstage =>
      refine ⟨hstage, Option.ne_none_iff_exists'.mp fun hclosed => ?_⟩
      rw [incoming, hclosed, Option.isSome_none, if_neg (by simp), nextRequest_closed] at h
      cases h
  · cases h

/-- A handler that has begun to leave does not come back. -/
theorem staying_acted (hacted : Acted b m conn handler action b' m')
    (hnext : b'.handlers conn = some next) (hstaying : next.stage.staying = true) :
    handler.stage.staying = true := by
  cases hacted with
  | refused hstage | identified _ hstage | registered hstage | subscribed _ hstage =>
      rw [hstage]
      rfl
  | served _ _ _ hstage => cases hserving : handler.stage <;> simp_all [Stage.serving, Stage.staying]
  | removed stage hstage | closed stage hstage =>
      rw [become_handlers_self] at hnext
      cases hnext
      rcases hstage with ⟨hstage, -⟩ | ⟨-, rfl⟩
      · rw [hstage]
        rfl
      · cases hstaying

/-- A session has filters because it had some before, or because a SUBSCRIBE
has just added some. -/
theorem filters_acted (hacted : Acted b m conn handler action b' m') {clientId : Bytes}
    {after : Session} (hafter : b'.sessions[clientId]? = some after) (hfilters : after.filters ≠ []) :
    ∃ before, b.sessions[clientId]? = some before ∧ before.sock = after.sock ∧
      (before.filters ≠ [] ∨ clientId = handler.clientId ∧ action = .subscribe ∧
        ∃ packet, handler.stage = .subscribing packet ∧ packet.filters ≠ []) := by
  cases hacted with
  | refused | identified | served | closed => exact ⟨after, hafter, rfl, Or.inl hfilters⟩
  | registered =>
      rw [become_sessions, registerSession_sessions] at hafter
      split at hafter
      · cases hafter
        exact absurd rfl hfilters
      · exact ⟨after, hafter, rfl, Or.inl hfilters⟩
  | subscribed packet hstage =>
      rw [become_sessions, addFilters_sessions] at hafter
      split at hafter
      · next hown =>
          obtain ⟨before, hbefore, rfl⟩ := Option.map_eq_some_iff.mp hafter
          refine ⟨before, hown ▸ hbefore, rfl, ?_⟩
          by_cases hnil : packet.filters = []
          · exact Or.inl (by simpa [hnil] using hfilters)
          · exact Or.inr ⟨hown, rfl, packet, hstage, hnil⟩
      · exact ⟨after, hafter, rfl, Or.inl hfilters⟩
  | removed =>
      rw [become_sessions, removeSession_sessions] at hafter
      split at hafter
      · cases hafter
      · exact ⟨after, hafter, rfl, Or.inl hfilters⟩

/-- The targets of a handler are what is left of its own, or sockets of
sessions with filters. -/
theorem targets_act (h : b.act conn handler action = some b')
    (hnext : b'.handlers conn = some next) {target : RawSocket}
    (htarget : target ∈ next.stage.targets) :
    target ∈ handler.stage.targets ∨ ∃ (clientId : Bytes) (session : Session),
      b.sessions[clientId]? = some session ∧ session.filters ≠ [] ∧ session.sock = target := by
  cases hstage : next.stage with
  | forwarding publishFrame targets =>
      rw [hstage] at htarget
      obtain ⟨first, hbefore⟩ | ⟨packet, -, rfl⟩ := forwarding_of_act h hnext hstage
      · rw [hbefore]
        exact Or.inl (List.mem_cons_of_mem first htarget)
      · simp only [Stage.targets, Broker.targets, List.mem_map, List.mem_filter] at htarget
        obtain ⟨⟨clientId, session⟩, ⟨hentry, hmatches⟩, rfl⟩ := htarget
        refine Or.inr ⟨clientId, session, Std.TreeMap.mem_toList_iff_getElem?_eq_some.mp hentry,
          fun hnil => ?_, rfl⟩
        simp [hnil] at hmatches
  | _ => simp [hstage, Stage.targets] at htarget

theorem remembers_of_handler {sock : RawSocket} (hkept : b.Bookkept)
    (hhandler : b.handlers conn = some handler)
    (h : handler.stage.staying = true ∧ handler.sock = sock ∨ sock ∈ handler.stage.targets) :
    b.remembers sock = true := by
  obtain ⟨m, hkept⟩ := hkept
  refine Bool.or_eq_true_iff.mpr (Or.inl (List.any_eq_true.mpr ⟨conn, ?_, ?_⟩))
  · exact List.mem_range.mpr (hkept.lt_nextConn hhandler)
  · simpa [hhandler] using h

theorem remembers_of_session {clientId : Bytes} {session : Session}
    (hsession : b.sessions[clientId]? = some session) (hfilters : session.filters ≠ []) :
    b.remembers session.sock = true := by
  refine Bool.or_eq_true_iff.mpr (Or.inr (List.any_eq_true.mpr ⟨(clientId, session), ?_, ?_⟩))
  · exact Std.TreeMap.mem_toList_iff_getElem?_eq_some.mpr hsession
  · simpa using hfilters

end Steps

end Broker

namespace Greeting

section Runs

variable {g g' : Greeting} {event : Event} {conn : ConnId} {handler : Handler} {action : Action}
  {b' : Broker}

theorem Sparing.init : Sparing {} where
  toPolite := .init
  own _ _ hhandler := by cases hhandler
  filtered _ _ hsession := by simp at hsession
  aimed _ _ hhandler := by cases hhandler

/-- While newcomers are spared, nothing touches a connection before its CONNACK. -/
theorem Sparing.touches (h : g.Sparing) : g.TouchesGreeted event := by
  cases event with
  | act conn action =>
      intro handler hhandler
      have hintroduced := h.kept.introduced conn handler hhandler
      refine ⟨fun dest entry hhands => ?_, fun htakes => ?_⟩
      · obtain ⟨-, sock, hsent, hopen⟩ := of_hands hhands
        rcases Broker.sends_cases hhandler hsent with ⟨hstaying, rfl, hsaid⟩ | htarget
        · obtain rfl := h.own conn handler hhandler hstaying dest hopen
          rcases hsaid with hgreets | hspoken
          · exact Or.inr ⟨rfl, hgreets⟩
          · exact Or.inl (hintroduced.spoken hspoken)
        · exact Or.inl (h.aimed conn handler hhandler sock htarget dest hopen)
      · obtain ⟨hstage, source, hopen⟩ := Broker.takes_open htakes
        obtain rfl := h.own conn handler hhandler (by rw [hstage]; rfl) source hopen
        exact ⟨source, hopen, hintroduced.spoken (by rw [hstage]; rfl)⟩
  | start | stopFlag | stopSessions | stopJoined | accept | clearMessages => trivial

theorem Sparing.act (h : g.Sparing) (hhandler : g.broker.handlers conn = some handler)
    (hspares : g.sparesNewcomers (.act conn action) = true)
    (hact : g.broker.act conn handler action = some b')
    (hpolite : Polite { g.note conn handler action with broker := b' }) :
    Sparing { g.note conn handler action with broker := b' } := by
  have hacted := acted (m := .empty) hact
  have hgreeted : ∀ sock, g.Greeted sock →
      Greeted { g.note conn handler action with broker := b' } sock := fun sock hsock dest hopen =>
    greeted_of_greeted (hsock dest (hacted.open_before hopen))
  refine ⟨hpolite, fun other next hnext hstaying dest hopen => ?_,
    fun clientId session hsession hfilters => hgreeted _ ?_,
    fun other next hnext target htarget => hgreeted _ ?_⟩
  · have hbefore := hacted.open_before hopen
    by_cases hown : other = conn
    · subst hown
      obtain ⟨same, hsame, hsock⟩ := hacted.self
      obtain rfl : next = same := Option.some.inj (hnext.symm.trans hsame)
      exact h.own other handler hhandler (Broker.staying_acted hacted hnext hstaying) dest
        (hsock ▸ hbefore)
    · exact h.own other next ((hacted.other hown).symm.trans hnext) hstaying dest hbefore
  · obtain ⟨before, hbefore, hsock, hold | ⟨rfl, rfl, packet, hstage, hnew⟩⟩ :=
      Broker.filters_acted hacted hsession hfilters
    · exact hsock ▸ h.filtered clientId before hbefore hold
    · intro dest hopen
      rw [← hsock] at hopen
      simpa [sparesNewcomers, hhandler, hstage, hnew, hbefore, hopen] using hspares
  · by_cases hown : other = conn
    · subst hown
      rcases Broker.targets_act hact hnext htarget with hold | ⟨clientId, session, hsession, hne, rfl⟩
      · exact h.aimed other handler hhandler target hold
      · exact h.filtered clientId session hsession hne
    · exact h.aimed other next ((hacted.other hown).symm.trans hnext) target htarget

/-- A number that is not remembered can be handed out. -/
theorem Sparing.accept (h : g.Sparing) {sock : RawSocket}
    (hspares : g.sparesNewcomers (.accept sock) = true)
    (hpolite : Polite { g with broker := g.broker.acceptConn sock }) :
    Sparing { g with broker := g.broker.acceptConn sock } := by
  have hforgotten : g.broker.remembers sock = false := by simpa [sparesNewcomers] using hspares
  have hsettled := h.kept.settled.1
  have hgreeted : ∀ number, (number = sock → g.broker.remembers sock = true) → g.Greeted number →
      Greeted { g with broker := g.broker.acceptConn sock } number := by
    intro number hremembers hnumber dest hopen
    dsimp only at hopen
    rw [Broker.acceptConn_descriptors, if_neg] at hopen
    · exact hnumber dest hopen
    · intro hsame
      simp [hremembers hsame] at hforgotten
  refine ⟨hpolite, fun conn next hnext hstaying dest hopen => ?_,
    fun clientId session hsession hfilters => hgreeted _ ?_ (h.filtered clientId session hsession
      hfilters), fun conn next hnext target htarget => ?_⟩
  · dsimp only at hnext hopen
    rw [Broker.acceptConn_handlers] at hnext
    rw [Broker.acceptConn_descriptors] at hopen
    split at hnext
    · next hnew =>
        cases hnext
        rw [if_pos rfl] at hopen
        exact (Option.some.inj hopen).symm.trans hnew.symm
    · rw [if_neg] at hopen
      · exact h.own conn next hnext hstaying dest hopen
      · intro hsame
        have hremembers := Broker.remembers_of_handler hsettled hnext (Or.inl ⟨hstaying, hsame⟩)
        simp [hremembers] at hforgotten
  · rintro rfl
    exact Broker.remembers_of_session hsession hfilters
  · dsimp only at hnext
    rw [Broker.acceptConn_handlers] at hnext
    split at hnext
    · cases hnext
      cases htarget
    · refine hgreeted target ?_ (h.aimed conn next hnext target htarget)
      rintro rfl
      exact Broker.remembers_of_handler hsettled hnext (Or.inr htarget)

theorem Sparing.step (h : g.Sparing) (hspares : g.sparesNewcomers event = true)
    (hstep : g.step event = some g') : g'.Sparing := by
  have hpolite := h.toPolite.step h.touches hstep
  rcases stepped hstep with ⟨conn, action, handler, b', rfl, hhandler, hact, rfl⟩ |
    ⟨hother, b', hb', rfl⟩
  · exact h.act hhandler hspares hact hpolite
  · obtain ⟨m, hkept⟩ := h.kept.settled.1
    obtain ⟨m', hturned, -⟩ := Broker.step_kept hkept hb'
    cases hturned with
    | started | flagged | joined | cleared => exact ⟨hpolite, h.own, h.filtered, h.aimed⟩
    | swept =>
        have hopen : ∀ sock dest, g.broker.sweepSessions.descriptors sock = some dest →
            g.broker.descriptors sock = some dest :=
          fun sock dest hdest => (g.broker.sweepSessions_descriptors.mp hdest).1
        refine ⟨hpolite, fun conn next hnext hstaying dest hdest => ?_,
          fun clientId session hsession => by simp [Broker.sweepSessions] at hsession,
          fun conn next hnext target htarget dest hdest => ?_⟩
        · exact h.own conn next hnext hstaying dest (hopen _ dest hdest)
        · exact h.aimed conn next hnext target htarget dest (hopen _ dest hdest)
    | accepted => exact h.accept hspares hpolite
    | acted => exact absurd rfl (hother _ _)

end Runs

end Greeting

/-- In every run, a handler that is not about to record, route, forward or
subscribe adds nothing to the history or to the filters and hands nothing to
anybody else. As long as newcomers are spared, every connection's first packet
is the CONNACK that answers its accepted CONNECT, and nothing is recorded,
forwarded or subscribed for it before. -/
theorem connack_first (events : List Event) :
    (∀ g conn handler action b', run Greeting.step {} events = some g →
      g.broker.handlers conn = some handler → handler.stage.causing = false →
      g.broker.step (.act conn action) = some b' → b'.history = g.broker.history ∧
        (∀ (clientId : Bytes) (after : Session), b'.sessions[clientId]? = some after →
          after.filters = [] ∨ ∃ before, g.broker.sessions[clientId]? = some before ∧
            after.filters = before.filters) ∧
        ∀ sock packet, g.broker.sends (.act conn action) = some (sock, packet) →
          sock = handler.sock) ∧
    (Along Greeting.step (fun g event => g.sparesNewcomers event = true) {} events →
      Always Greeting.step Greeting.ConnackFirst {} events) := by
  refine ⟨fun g conn handler action b' _ hhandler hquiet hstep => ?_, fun hspares => ?_⟩
  · rw [Broker.step_act hhandler] at hstep
    obtain ⟨hhistory, hfilters, hsends⟩ := Broker.quiet_act hstep hquiet
    exact ⟨hhistory, hfilters, fun sock packet => hsends sock packet hhandler⟩
  · exact always_of_invariant_along (fun _ _ _ h hspares hstep => h.step hspares hstep)
      (fun _ h => h.toConnackFirst) Greeting.Sparing.init hspares

/-- A third client registers under the client id of the first, and takes as
many steps of its own as are given. Then a SUBSCRIBE of the first adds a
filter to its session, and the second publishes. -/
def overtaking (steps : ℕ) : List Event :=
  .start :: joining 0 4 (ascii "x") ++ joining 1 5 (ascii "c") ++
    (joining 2 6 (ascii "x")).take steps ++
      [.act 0 (.receive (wholePiece 0x82 [6, 0, 1, 0, 1, 0x74, 0])), .act 0 .subscribe,
        .act 1 (.receive (wholePiece 0x30 [4, 0, 1, 0x74, 0x70])), .act 1 .record, .act 1 .route,
        .act 1 .forward]

/-- With its CONNACK sent in time, the third client is handed the PUBLISH after it. -/
theorem connack_first_sent_in_time :
    (run Greeting.step {} (overtaking 4)).map (fun g => (g.handed 2).length) = some 2 ∧
      Always Greeting.step Greeting.ConnackFirst {} (overtaking 4) :=
  ⟨by decide +kernel, (connack_first (overtaking 4)).2 (by decide +kernel)⟩

/-- The session of the third client is used before its CONNACK is sent. -/
theorem publish_before_connack :
    ¬ ∀ (events : List Event) (g : Greeting) (conn sender : ConnId) (packet : Bytes)
      (rest : List (ConnId × Bytes)), run Greeting.step {} events = some g →
        g.handed conn = (sender, packet) :: rest → packet = encodeConnack := by
  intro h
  have hrun : (run Greeting.step {} (overtaking 3)).map (fun g => g.handed 2) =
      some [(1, encodePublish (ascii "t") (ascii "p"))] := by decide +kernel
  obtain ⟨g, hg, hhanded⟩ := Option.map_eq_some_iff.mp hrun
  exact absurd (h (overtaking 3) g 2 1 _ [] hg hhanded) (by decide +kernel)

end MockServices.Mqtt
