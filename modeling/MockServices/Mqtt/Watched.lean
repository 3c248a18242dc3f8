import MockServices.Foundations.Membership
import MockServices.Foundations.Run
import MockServices.Mqtt.Broker

/-!
# The broker beside its members

The membership is kept by the events alone: a handler joins when it
inserts its session, adds filters in the section of its SUBSCRIBE, and
leaves when it removes the session on its own account. Everything a step
of a handler can do to both is said once, in `Acted`.
-/

namespace MockServices.Mqtt

open Foundations

abbrev Members := Membership Bytes ConnId Bytes

structure Watched where
  broker : Broker := {}
  members : Members := .empty

/-- The handler has registered and nothing has ended it yet. -/
def Stage.serving : Stage → Bool
  | .connack | .loop | .reading | .recording _ | .routing _ | .forwarding _ _ | .subscribing _
  | .suback _ _ | .pingresp => true
  | _ => false

/-- The handler has not registered yet. -/
def Stage.fresh : Stage → Bool
  | .handshake | .registering => true
  | _ => false

/-- The handler is in a `recv`, or has nothing else to do before the next one. -/
def Stage.receiving : Stage → Bool
  | .handshake | .reading => true
  | _ => false

theorem not_fresh {stage : Stage}
    (h : stage.serving = true ∨ stage = .dropping ∨ stage = .leaving) : stage.fresh = false := by
  rcases h with h | rfl | rfl
  · cases stage <;> first | rfl | cases h
  · rfl
  · rfl

def observeAct (m : Members) (conn : ConnId) (handler : Handler) (action : Action) : Members :=
  match handler.stage, action with
  | .registering, .register => m.join handler.clientId conn
  | .subscribing packet, .subscribe => m.subscribe conn (packet.filters.map Prod.fst)
  | .dropping, .remove => m.leave conn
  | .leaving, .remove => m.leave conn
  | _, _ => m

def observe (b : Broker) (m : Members) : Event → Members
  | .stopSessions => m.clear
  | .act conn action =>
      match b.handlers conn with
      | none => m
      | some handler => observeAct m conn handler action
  | _ => m

def Watched.step (w : Watched) (event : Event) : Option Watched :=
  (w.broker.step event).map fun b => ⟨b, observe w.broker w.members event⟩

/-- The steps of one handler, by what they change beyond its own stage. -/
inductive Acted (b : Broker) (m : Members) (conn : ConnId) (handler : Handler) :
    Action → Broker → Members → Prop
  | refused {address source} (hstage : handler.stage = .handshake) :
      Acted b m conn handler (.connect address source)
        (b.become conn { handler with stage := .closing }) m
  | identified {address source} (clientId : Bytes) (hstage : handler.stage = .handshake) :
      Acted b m conn handler (.connect address source)
        (b.become conn { handler with clientId, stage := .registering }) m
  | registered (hstage : handler.stage = .registering) :
      Acted b m conn handler .register
        ((b.registerSession handler).become conn { handler with stage := .connack })
        (m.join handler.clientId conn)
  | served {action} (history : List PublishPacket) (buffer : Bytes) (stage : Stage)
      (hstage : handler.stage.serving = true)
      (hnext : stage.serving = true ∨ stage = .dropping ∨ stage = .leaving)
      (haction : action ≠ .remove ∧ action ≠ .close) :
      Acted b m conn handler action
        ({ b with history }.become conn { handler with buffer, stage }) m
  | subscribed (packet : SubscribePacket) (hstage : handler.stage = .subscribing packet) :
      Acted b m conn handler .subscribe
        ((b.addFilters handler.clientId packet).1.become conn
          { handler with
            stage := .suback packet.packetId (b.addFilters handler.clientId packet).2 })
        (m.subscribe conn (packet.filters.map Prod.fst))
  | removed (next : Stage)
      (hstage : handler.stage = .dropping ∧ next = .dropped ∨
        handler.stage = .leaving ∧ next = .closing) :
      Acted b m conn handler .remove
        ((b.removeSession handler.clientId).become conn { handler with stage := next })
        (m.leave conn)
  | closed (next : Stage)
      (hstage : handler.stage = .dropped ∧ next = .loop ∨
        handler.stage = .closing ∧ next = .done) :
      Acted b m conn handler .close
        ((b.sockClose handler.sock).become conn { handler with stage := next }) m

theorem serving_afterRequest (request : Request) :
    (Broker.afterRequest request).serving = true ∨ Broker.afterRequest request = .dropping ∨
      Broker.afterRequest request = .leaving := by
  cases request with
  | publish packet => cases packet <;> exact Or.inl rfl
  | subscribe packet =>
      cases packet with
      | none => exact Or.inr (Or.inl rfl)
      | some packet => exact Or.inl rfl
  | pingreq => exact Or.inl rfl
  | disconnect => exact Or.inr (Or.inr rfl)
  | unexpected => exact Or.inr (Or.inr rfl)

/-- A step inside the loop touches the handler, and the history at most. -/
theorem acted_served {b : Broker} {m : Members} {conn : ConnId} {handler : Handler}
    {action : Action} {history : List PublishPacket} {buffer : Bytes} {stage : Stage}
    (hstage : handler.stage.serving = true)
    (hnext : stage.serving = true ∨ stage = .dropping ∨ stage = .leaving)
    (haction : action ≠ .remove ∧ action ≠ .close ∧ action ≠ .subscribe) :
    Acted b m conn handler action ({ b with history }.become conn { handler with buffer, stage })
      (observeAct m conn handler action) := by
  have hmembers : observeAct m conn handler action = m := by
    unfold observeAct
    split
    · next hregistering => simp [hregistering, Stage.serving] at hstage
    · exact (haction.2.2 rfl).elim
    · exact (haction.1 rfl).elim
    · exact (haction.1 rfl).elim
    · rfl
  rw [hmembers]
  exact .served history buffer stage hstage hnext ⟨haction.1, haction.2.1⟩

theorem acted {b b' : Broker} {m : Members} {conn : ConnId} {handler : Handler} {action : Action}
    (h : b.act conn handler action = some b') :
    Acted b m conn handler action b' (observeAct m conn handler action) := by
  unfold Broker.act at h
  split at h
  case h_1 hstage =>
      have hmembers : ∀ address source,
          observeAct m conn handler (.connect address source) = m := by
        intro address source
        simp only [observeAct, hstage]
      rw [hmembers]
      split at h
      · cases h
        exact .refused hstage
      · cases h
        exact .identified _ hstage
  case h_2 hstage =>
      cases h
      simp only [observeAct, hstage]
      exact .registered hstage
  case h_3 hstage =>
      have hserving : handler.stage.serving = true := by rw [hstage]; rfl
      split at h
      · cases h
        exact acted_served hserving (Or.inl rfl) (by simp)
      · cases h
        exact acted_served hserving (Or.inr (Or.inr rfl)) (by simp)
  case h_4 hstage =>
      have hserving : handler.stage.serving = true := by rw [hstage]; rfl
      split at h
      · cases h
        exact acted_served hserving (Or.inl rfl) (by simp)
      · cases h
        exact acted_served hserving (Or.inr (Or.inr rfl)) (by simp)
  case h_5 hstage =>
      have hserving : handler.stage.serving = true := by rw [hstage]; rfl
      split at h
      · cases h
        exact acted_served hserving (Or.inr (Or.inr rfl)) (by simp)
      · cases h
        exact acted_served hserving (serving_afterRequest _) (by simp)
  case h_10 packet hstage =>
      cases h
      simp only [observeAct, hstage]
      exact .subscribed packet hstage
  case h_13 hstage =>
      cases h
      simp only [observeAct, hstage]
      exact .removed .dropped (Or.inl ⟨hstage, rfl⟩)
  case h_14 hstage =>
      cases h
      simp only [observeAct, hstage]
      exact .closed .loop (Or.inl ⟨hstage, rfl⟩)
  case h_15 hstage =>
      cases h
      simp only [observeAct, hstage]
      exact .removed .closing (Or.inr ⟨hstage, rfl⟩)
  case h_16 hstage =>
      cases h
      simp only [observeAct, hstage]
      exact .closed .done (Or.inr ⟨hstage, rfl⟩)
  case h_17 => cases h
  -- Recording, routing, forwarding and the replies only move on.
  all_goals
    rename_i hstage
    have hserving : handler.stage.serving = true := by rw [hstage]; rfl
    cases h
    exact acted_served hserving (Or.inl rfl) (by simp)

theorem Acted.phase {b b' : Broker} {m m' : Members} {conn : ConnId} {handler : Handler}
    {action : Action} (h : Acted b m conn handler action b' m') : b'.phase = b.phase := by
  cases h with
  | subscribed packet => rw [Broker.become_phase, Broker.addFilters_phase]
  | removed next => rw [Broker.become_phase, Broker.removeSession_phase]
  | refused | identified | registered | served | closed => rfl

theorem Acted.nextConn {b b' : Broker} {m m' : Members} {conn : ConnId} {handler : Handler}
    {action : Action} (h : Acted b m conn handler action b' m') : b'.nextConn = b.nextConn := by
  cases h with
  | subscribed packet => exact Broker.addFilters_nextConn ..
  | removed next => exact Broker.removeSession_nextConn ..
  | refused | identified | registered | served | closed => rfl

theorem Acted.other {b b' : Broker} {m m' : Members} {conn other : ConnId} {handler : Handler}
    {action : Action} (h : Acted b m conn handler action b' m') (hne : other ≠ conn) :
    b'.handlers other = b.handlers other := by
  cases h with
  | subscribed packet =>
      rw [Broker.become_handlers, if_neg hne, Broker.addFilters_handlers]
  | removed next => rw [Broker.become_handlers, if_neg hne, Broker.removeSession_handlers]
  | refused | identified | served => rw [Broker.become_handlers, if_neg hne]
  | registered | closed =>
      rw [Broker.become_handlers, if_neg hne]
      rfl

theorem Acted.self {b b' : Broker} {m m' : Members} {conn : ConnId} {handler : Handler}
    {action : Action} (h : Acted b m conn handler action b' m') :
    ∃ next, b'.handlers conn = some next ∧ next.sock = handler.sock := by
  cases h <;> exact ⟨_, Broker.become_handlers_self .., rfl⟩

theorem Acted.none_before {b b' : Broker} {m m' : Members} {conn other : ConnId} {handler : Handler}
    {action : Action} (h : Acted b m conn handler action b' m') (hnone : b'.handlers other = none) :
    other ≠ conn ∧ b.handlers other = none := by
  obtain ⟨next, hnext, -⟩ := h.self
  have hne : other ≠ conn := by
    rintro rfl
    simp [hnext] at hnone
  exact ⟨hne, (h.other hne).symm.trans hnone⟩

theorem Acted.open_before {b b' : Broker} {m m' : Members} {conn other : ConnId} {handler : Handler}
    {action : Action} (h : Acted b m conn handler action b' m') {sock : RawSocket}
    (hopen : b'.descriptors sock = some other) : b.descriptors sock = some other := by
  cases h with
  | refused | identified | registered | served => exact hopen
  | subscribed packet => rwa [Broker.become_descriptors, Broker.addFilters_descriptors] at hopen
  | removed next =>
      rw [Broker.become_descriptors, Broker.removeSession_descriptors] at hopen
      exact (Option.ite_none_left_eq_some.mp hopen).2
  | closed next =>
      rw [Broker.become_descriptors, Broker.sockClose_descriptors] at hopen
      exact (Option.ite_none_left_eq_some.mp hopen).2

theorem Acted.not_done {b b' : Broker} {m m' : Members} {conn : ConnId} {handler : Handler}
    {action : Action} (h : Acted b m conn handler action b' m') : handler.stage ≠ .done := by
  intro hdone
  cases h with
  | refused hstage | identified _ hstage | registered hstage | subscribed _ hstage =>
      cases hdone.symm.trans hstage
  | served _ _ _ hstage => simp [hdone, Stage.serving] at hstage
  | removed _ hstage | closed _ hstage =>
      rcases hstage with ⟨hstage, -⟩ | ⟨hstage, -⟩ <;> cases hdone.symm.trans hstage

theorem Acted.not_done_after {b b' : Broker} {m m' : Members} {conn : ConnId}
    {handler next : Handler} {action : Action} (h : Acted b m conn handler action b' m')
    (haction : action ≠ .close) (hnext : b'.handlers conn = some next) : next.stage ≠ .done := by
  cases h with
  | closed => exact absurd rfl haction
  | served history buffer stage hstage hserving =>
      rw [Broker.become_handlers_self] at hnext
      cases hnext
      rcases hserving with hserving | rfl | rfl
      · rintro rfl
        simp [Stage.serving] at hserving
      · simp
      · simp
  | removed last hstage =>
      rw [Broker.become_handlers_self] at hnext
      cases hnext
      rcases hstage with ⟨-, rfl⟩ | ⟨-, rfl⟩ <;> simp
  | refused | identified | registered | subscribed =>
      rw [Broker.become_handlers_self] at hnext
      cases hnext
      simp

/-- The steps of the whole broker. -/
inductive Turned (b : Broker) (m : Members) : Event → Broker → Members → Prop
  | started (hphase : b.phase = .idle) : Turned b m .start { b with phase := .running } m
  | flagged (hphase : b.phase = .running) : Turned b m .stopFlag { b with phase := .stopping } m
  | swept (hphase : b.phase = .stopping) :
      Turned b m .stopSessions { b.sweepSessions with phase := .joining } m.clear
  | joined (hphase : b.phase = .joining) (hjoined : b.Joined) :
      Turned b m .stopJoined { b with phase := .idle } m
  | accepted {sock} (hphase : b.phase = .running ∨ b.phase = .stopping)
      (hfree : b.descriptors sock = none) : Turned b m (.accept sock) (b.acceptConn sock) m
  | cleared : Turned b m .clearMessages { b with history := [] } m
  | acted {conn action b' m'} (handler : Handler) (hhandler : b.handlers conn = some handler)
      (hacted : Acted b m conn handler action b' m') : Turned b m (.act conn action) b' m'

theorem turned {w w' : Watched} {event : Event} (h : w.step event = some w') :
    Turned w.broker w.members event w'.broker w'.members := by
  obtain ⟨b', hstep, rfl⟩ := Option.map_eq_some_iff.mp h
  cases event with
  | start =>
      obtain ⟨hphase, heq⟩ := Option.ite_none_right_eq_some.mp hstep
      cases heq
      exact .started hphase
  | stopFlag =>
      obtain ⟨hphase, heq⟩ := Option.ite_none_right_eq_some.mp hstep
      cases heq
      exact .flagged hphase
  | stopSessions =>
      obtain ⟨hphase, heq⟩ := Option.ite_none_right_eq_some.mp hstep
      cases heq
      exact .swept hphase
  | stopJoined =>
      obtain ⟨⟨hphase, hjoined⟩, heq⟩ := Option.ite_none_right_eq_some.mp hstep
      cases heq
      exact .joined hphase hjoined
  | accept sock =>
      obtain ⟨⟨hphase, hfree⟩, heq⟩ := Option.ite_none_right_eq_some.mp hstep
      cases heq
      exact .accepted hphase hfree
  | clearMessages =>
      cases hstep
      exact .cleared
  | act conn action =>
      obtain ⟨handler, hhandler, hact⟩ := Option.bind_eq_some_iff.mp hstep
      have hmembers : observe w.broker w.members (.act conn action) =
          observeAct w.members conn handler action := by simp only [observe, hhandler]
      rw [hmembers]
      exact .acted handler hhandler (acted hact)

/-- Bookkeeping that no order of steps disturbs: who has a handler, who is
a member, and to whom a session belongs. -/
structure Kept (b : Broker) (m : Members) : Prop where
  fresh_conn : ∀ conn, b.nextConn ≤ conn → b.handlers conn = none
  member : ∀ conn, m.accepted conn ≠ none → ∃ handler, b.handlers conn = some handler ∧
    (handler.stage.serving = true ∨ handler.stage = .dropping ∨ handler.stage = .leaving)
  latest : ∀ clientId conn, m.latest clientId = some conn → ∃ handler,
    b.handlers conn = some handler ∧ handler.clientId = clientId ∧ handler.stage.fresh = false
  session : ∀ clientId session, b.sessions[clientId]? = some session → ∃ conn handler,
    m.latest clientId = some conn ∧ b.handlers conn = some handler ∧
      session.sock = handler.sock ∧ m.accepted conn ≠ none

theorem Kept.init : Kept {} .empty where
  fresh_conn _ _ := rfl
  member _ h := (h rfl).elim
  latest _ _ h := by cases h
  session _ _ h := by simp at h

namespace Kept

variable {b : Broker} {m : Members} {conn : ConnId} {handler : Handler}

theorem lt_nextConn (h : Kept b m) (hhandler : b.handlers conn = some handler) :
    conn < b.nextConn := by
  by_contra hle
  simp [h.fresh_conn conn (Nat.le_of_not_lt hle)] at hhandler

theorem handlers_acceptConn (h : Kept b m) (hhandler : b.handlers conn = some handler)
    (sock : RawSocket) : (b.acceptConn sock).handlers conn = some handler := by
  rw [Broker.acceptConn_handlers, if_neg (h.lt_nextConn hhandler).ne]
  exact hhandler

/-- A handler may move on as long as a member stays in the loop and a
registered handler keeps its client id. -/
theorem become (h : Kept b m) (hhandler : b.handlers conn = some handler) {next : Handler}
    (hsock : next.sock = handler.sock)
    (hmember : m.accepted conn ≠ none →
      next.stage.serving = true ∨ next.stage = .dropping ∨ next.stage = .leaving)
    (hlatest : handler.stage.fresh = false →
      next.clientId = handler.clientId ∧ next.stage.fresh = false) :
    Kept (b.become conn next) m where
  fresh_conn other hother := by
    rw [Broker.become_handlers]
    split
    · next heq =>
        rw [heq] at hother
        simp [h.fresh_conn conn hother] at hhandler
    · exact h.fresh_conn other hother
  member other hother := by
    rw [Broker.become_handlers]
    split
    · next heq => exact ⟨next, rfl, hmember (heq ▸ hother)⟩
    · exact h.member other hother
  latest clientId other hother := by
    obtain ⟨g, hg, hid, hfresh⟩ := h.latest clientId other hother
    rw [Broker.become_handlers]
    split
    · next heq =>
        subst heq
        obtain rfl : handler = g := Option.some.inj (hhandler.symm.trans hg)
        exact ⟨next, rfl, (hlatest hfresh).1.trans hid, (hlatest hfresh).2⟩
    · exact ⟨g, hg, hid, hfresh⟩
  session clientId session hsession := by
    obtain ⟨other, g, hother, hg, hsocket, haccepted⟩ := h.session clientId session hsession
    refine ⟨other, ?_⟩
    rw [Broker.become_handlers]
    split
    · next heq =>
        subst heq
        obtain rfl : handler = g := Option.some.inj (hhandler.symm.trans hg)
        exact ⟨next, hother, rfl, hsocket.trans hsock.symm, haccepted⟩
    · exact ⟨g, hother, hg, hsocket, haccepted⟩

theorem register (h : Kept b m) (hhandler : b.handlers conn = some handler) :
    Kept ((b.registerSession handler).become conn { handler with stage := .connack })
      (m.join handler.clientId conn) where
  fresh_conn other hother := by
    rw [Broker.become_handlers]
    split
    · next heq =>
        rw [heq] at hother
        simp [h.fresh_conn conn hother] at hhandler
    · exact h.fresh_conn other hother
  member other hother := by
    rw [Broker.become_handlers]
    split
    · exact ⟨_, rfl, Or.inl rfl⟩
    · next hne =>
        rw [Membership.join_accepted, if_neg hne] at hother
        exact h.member other hother
  latest clientId other hother := by
    rw [Membership.join_latest] at hother
    rw [Broker.become_handlers]
    split at hother
    · next heq =>
        cases hother
        rw [if_pos rfl]
        exact ⟨_, rfl, heq.symm, rfl⟩
    · obtain ⟨g, hg, hid, hfresh⟩ := h.latest clientId other hother
      split
      · next heq =>
          subst heq
          obtain rfl : handler = g := Option.some.inj (hhandler.symm.trans hg)
          exact ⟨_, rfl, hid, rfl⟩
      · exact ⟨g, hg, hid, hfresh⟩
  session clientId session hsession := by
    rw [Broker.become_sessions, Broker.registerSession_sessions] at hsession
    rw [Membership.join_latest]
    split at hsession
    · next heq =>
        cases hsession
        rw [if_pos heq]
        exact ⟨conn, _, rfl, Broker.become_handlers_self .., rfl,
          by simp [Membership.join_accepted]⟩
    · next hne =>
        obtain ⟨other, g, hother, hg, hsocket, haccepted⟩ := h.session clientId session hsession
        rw [if_neg hne]
        refine ⟨other, ?_⟩
        rw [Broker.become_handlers, Membership.join_accepted]
        split
        · next heq =>
            subst heq
            obtain rfl : handler = g := Option.some.inj (hhandler.symm.trans hg)
            exact ⟨_, hother, rfl, hsocket, by simp⟩
        · exact ⟨g, hother, hg, hsocket, haccepted⟩

theorem leave (h : Kept b m) (hhandler : b.handlers conn = some handler) :
    Kept (b.removeSession handler.clientId) (m.leave conn) where
  fresh_conn other hother := by
    rw [Broker.removeSession_nextConn] at hother
    rw [Broker.removeSession_handlers]
    exact h.fresh_conn other hother
  member other hother := by
    rw [Membership.leave_accepted] at hother
    rw [Broker.removeSession_handlers]
    split at hother
    · exact (hother rfl).elim
    · exact h.member other hother
  latest clientId other hother := by
    rw [Broker.removeSession_handlers]
    exact h.latest clientId other hother
  session clientId session hsession := by
    rw [Broker.removeSession_sessions] at hsession
    split at hsession
    · cases hsession
    · next hne =>
        obtain ⟨other, g, hother, hg, hsocket, haccepted⟩ := h.session clientId session hsession
        refine ⟨other, g, hother, ?_, hsocket, ?_⟩
        · rw [Broker.removeSession_handlers]
          exact hg
        · rw [Membership.leave_accepted]
          split
          · next heq =>
              subst heq
              obtain ⟨g', hg', hid, -⟩ := h.latest clientId other hother
              obtain rfl : handler = g' := Option.some.inj (hhandler.symm.trans hg')
              exact (hne hid.symm).elim
          · exact haccepted

theorem subscribe (h : Kept b m) (clientId : Bytes) (packet : SubscribePacket) :
    Kept (b.addFilters clientId packet).1 (m.subscribe conn (packet.filters.map Prod.fst)) where
  fresh_conn other hother := by
    rw [Broker.addFilters_nextConn] at hother
    rw [Broker.addFilters_handlers]
    exact h.fresh_conn other hother
  member other hother := by
    rw [Broker.addFilters_handlers]
    exact h.member other (mt (Membership.subscribe_accepted_none_iff ..).mpr hother)
  latest other conn' hother := by
    rw [Broker.addFilters_handlers]
    exact h.latest other conn' hother
  session other session hsession := by
    rw [Broker.addFilters_handlers]
    have hkept : ∀ old : Session, b.sessions[other]? = some old → old.sock = session.sock →
        ∃ conn' g, m.latest other = some conn' ∧ b.handlers conn' = some g ∧
          session.sock = g.sock ∧
            (m.subscribe conn (packet.filters.map Prod.fst)).accepted conn' ≠ none := by
      intro old hold hsame
      obtain ⟨conn', g, hlatest, hg, hsocket, haccepted⟩ := h.session other old hold
      exact ⟨conn', g, hlatest, hg, hsame.symm.trans hsocket,
        mt (Membership.subscribe_accepted_none_iff ..).mp haccepted⟩
    rw [Broker.addFilters_sessions] at hsession
    split at hsession
    · next heq =>
        obtain ⟨old, hold, rfl⟩ := Option.map_eq_some_iff.mp hsession
        exact hkept old (heq ▸ hold) rfl
    · exact hkept session hsession rfl

theorem acted {b' : Broker} {m' : Members} {action : Action} (h : Kept b m)
    (hhandler : b.handlers conn = some handler) (hacted : Acted b m conn handler action b' m') :
    Kept b' m' := by
  have hjoined := h.member conn
  rw [hhandler] at hjoined
  cases hacted with
  | refused hstage =>
      refine h.become hhandler rfl (fun hmember => ?_) (fun hfresh => ?_)
      · obtain ⟨g, hg, hg'⟩ := hjoined hmember
        cases hg
        simp [hstage, Stage.serving] at hg'
      · simp [hstage, Stage.fresh] at hfresh
  | identified clientId hstage =>
      refine h.become hhandler rfl (fun hmember => ?_) (fun hfresh => ?_)
      · obtain ⟨g, hg, hg'⟩ := hjoined hmember
        cases hg
        simp [hstage, Stage.serving] at hg'
      · simp [hstage, Stage.fresh] at hfresh
  | registered hstage => exact h.register hhandler
  | served history buffer stage hstage hnext haction =>
      have hkept : Kept { b with history } m := ⟨h.fresh_conn, h.member, h.latest, h.session⟩
      exact hkept.become hhandler rfl (fun _ => hnext) (fun _ => ⟨rfl, not_fresh hnext⟩)
  | subscribed packet hstage =>
      have hsame : (b.addFilters handler.clientId packet).1.handlers conn = some handler := by
        rw [Broker.addFilters_handlers]
        exact hhandler
      exact (h.subscribe handler.clientId packet).become hsame rfl (fun _ => Or.inl rfl)
        (fun _ => ⟨rfl, rfl⟩)
  | removed next hstage =>
      have hsame : (b.removeSession handler.clientId).handlers conn = some handler := by
        rw [Broker.removeSession_handlers]
        exact hhandler
      refine (h.leave hhandler).become hsame rfl (fun hmember => ?_) (fun _ => ⟨rfl, ?_⟩)
      · simp [Membership.leave_accepted] at hmember
      · rcases hstage with ⟨-, rfl⟩ | ⟨-, rfl⟩ <;> rfl
  | closed next hstage =>
      have hkept : Kept (b.sockClose handler.sock) m :=
        ⟨h.fresh_conn, h.member, h.latest, h.session⟩
      refine hkept.become hhandler rfl (fun hmember => ?_) (fun _ => ⟨rfl, ?_⟩)
      · obtain ⟨g, hg, hg'⟩ := hjoined hmember
        cases hg
        rcases hstage with ⟨hstage, -⟩ | ⟨hstage, -⟩ <;> simp [hstage, Stage.serving] at hg'
      · rcases hstage with ⟨-, rfl⟩ | ⟨-, rfl⟩ <;> rfl

theorem acceptConn (h : Kept b m) (sock : RawSocket) : Kept (b.acceptConn sock) m := by
  refine ⟨fun conn hconn => ?_, fun conn hconn => ?_, fun clientId conn hconn => ?_,
    fun clientId session hsession => ?_⟩
  · have hlt : b.nextConn < conn := hconn
    rw [Broker.acceptConn_handlers, if_neg hlt.ne']
    exact h.fresh_conn conn hlt.le
  · obtain ⟨g, hg, hstage⟩ := h.member conn hconn
    exact ⟨g, h.handlers_acceptConn hg sock, hstage⟩
  · obtain ⟨g, hg, hid⟩ := h.latest clientId conn hconn
    exact ⟨g, h.handlers_acceptConn hg sock, hid⟩
  · obtain ⟨conn, g, hlatest, hg, hrest⟩ := h.session clientId session hsession
    exact ⟨conn, g, hlatest, h.handlers_acceptConn hg sock, hrest⟩

theorem turned {b' : Broker} {m' : Members} {event : Event} (h : Kept b m)
    (hturned : Turned b m event b' m') : Kept b' m' := by
  cases hturned with
  | started => exact ⟨h.fresh_conn, h.member, h.latest, h.session⟩
  | flagged => exact ⟨h.fresh_conn, h.member, h.latest, h.session⟩
  | swept =>
      exact ⟨h.fresh_conn, fun conn hconn => (hconn rfl).elim, h.latest,
        fun clientId session hsession => by simp [Broker.sweepSessions] at hsession⟩
  | joined => exact ⟨h.fresh_conn, h.member, h.latest, h.session⟩
  | accepted => exact h.acceptConn _
  | cleared => exact ⟨h.fresh_conn, h.member, h.latest, h.session⟩
  | acted handler hhandler hacted => exact h.acted hhandler hacted

theorem bystander {b' : Broker} {m' : Members} {event : Event} (h : Kept b m)
    (hturned : Turned b m event b' m') (hhandler : b.handlers conn = some handler)
    (hevent : ∀ action, event ≠ .act conn action) : b'.handlers conn = some handler := by
  cases hturned with
  | started | flagged | swept | joined | cleared => exact hhandler
  | accepted => exact h.handlers_acceptConn hhandler _
  | acted g hg hacted =>
      rw [hacted.other]
      · exact hhandler
      · rintro rfl
        exact hevent _ rfl

end Kept

end MockServices.Mqtt
