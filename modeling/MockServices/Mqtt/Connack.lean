import MockServices.Mqtt.History
import MockServices.Mqtt.StaleSessions

/-!
# The CONNACK comes first

A session is in the table before its CONNACK is sent, and a descriptor
number is in a list of targets or in a handler longer than it is open. So a
packet of another handler can reach a connection that has not been sent its
CONNACK. Beside the broker stands what was handed to each connection, by
what the descriptors denoted at the time.
-/

namespace MockServices.Mqtt

open Foundations

namespace Stage

/-- The handler has not come past its CONNACK. -/
def unsaid : Stage → Bool
  | .handshake | .registering | .connack => true
  | _ => false

/-- The handler has come past its CONNACK and has not left. -/
def spoken : Stage → Bool
  | .handshake | .registering | .connack | .closing | .done => false
  | _ => true

/-- A history entry, a subscription or a delivery is the next thing to come. -/
def causing : Stage → Bool
  | .recording _ | .routing _ | .forwarding _ _ | .subscribing _ => true
  | _ => false

end Stage

namespace Broker

section Doings

variable (b : Broker) (handler : Handler)

/-- The CONNECT that the handler accepts as the first packet. -/
def connects (action : Action) : Option ConnectPacket :=
  match handler.stage, action with
  | .handshake, .connect _ source =>
      (readConnect.run (b.incoming handler.sock source)).map Prod.fst
  | _, _ => none

/-- The handler hands its CONNACK to `send_all`. -/
def greets (action : Action) : Bool :=
  match handler.stage, action with
  | .connack, .connack _ => true
  | _, _ => false

/-- The handler receives a PUBLISH or a SUBSCRIBE that its decoder accepts. -/
def takes (action : Action) : Bool :=
  match handler.stage, action with
  | .reading, .receive source =>
      match (nextRequest handler.buffer).run (b.incoming handler.sock source) with
      | some ((request, _), _) => (afterRequest request).causing
      | none => false
  | _, _ => false

/-- The handler is in the `recv` of a packet. -/
def receives (action : Action) : Bool :=
  match handler.stage, action with
  | .reading, .receive _ => true
  | _, _ => false

end Doings

/-- The packet handed over, with the connection that its descriptor denotes
and the one whose handler hands it over. -/
def hands (b : Broker) : Event → Option (ConnId × ConnId × Bytes)
  | .act conn action => (b.sends (.act conn action)).bind fun sent =>
      (b.descriptors sent.1).map fun dest => (dest, conn, sent.2)
  | _ => none

end Broker

/-- The broker, and of each connection: the CONNECT accepted as its first
packet, whether its handler has handed over the CONNACK, and what it has been
handed, by whose handler. The last part is the connection that a handler has
received its current packet from. -/
structure Greeting where
  broker : Broker := {}
  accepted : ConnId → Option ConnectPacket := fun _ => none
  greeted : ConnId → Bool := fun _ => false
  handed : ConnId → List (ConnId × Bytes) := fun _ => []
  origin : ConnId → Option ConnId := fun _ => none

namespace Greeting

/-- What the step of a handler adds. -/
def note (g : Greeting) (conn : ConnId) (handler : Handler) (action : Action) : Greeting :=
  { g with
    accepted := Function.update g.accepted conn
      ((g.broker.connects handler action).or (g.accepted conn))
    greeted := Function.update g.greeted conn (g.greeted conn || Broker.greets handler action)
    handed := match g.broker.hands (.act conn action) with
      | some (dest, entry) => Function.update g.handed dest (g.handed dest ++ [entry])
      | none => g.handed
    origin := if Broker.receives handler action then
        Function.update g.origin conn (g.broker.descriptors handler.sock)
      else g.origin }

def observed (g : Greeting) : Event → Greeting
  | .act conn action => (g.broker.handlers conn).elim g fun handler => g.note conn handler action
  | _ => g

def step (g : Greeting) (event : Event) : Option Greeting :=
  (g.broker.step event).map fun b => { g.observed event with broker := b }

/-- The first packet that a connection is handed is the CONNACK with which its
handler answers an accepted CONNECT, and whoever is about to record, route,
forward or subscribe does so for a connection whose CONNACK has been sent. -/
structure ConnackFirst (g : Greeting) : Prop where
  first : ∀ conn entry rest, g.handed conn = entry :: rest →
    entry = (conn, encodeConnack) ∧ g.accepted conn ≠ none
  cause : ∀ conn handler, g.broker.handlers conn = some handler → handler.stage.causing = true →
    ∃ source, g.origin conn = some source ∧ g.greeted source = true

/-- A packet goes to a connection that has been sent its CONNACK, or it is this
CONNACK. A PUBLISH or SUBSCRIBE is taken from a connection that has been sent
its CONNACK. -/
def TouchesGreeted (g : Greeting) : Event → Prop
  | .act conn action => ∀ handler, g.broker.handlers conn = some handler →
      (∀ dest entry, g.broker.hands (.act conn action) = some (dest, entry) →
        g.greeted dest = true ∨ dest = conn ∧ Broker.greets handler action = true) ∧
      (g.broker.takes handler action = true →
        ∃ source, g.broker.descriptors handler.sock = some source ∧ g.greeted source = true)
  | _ => True

end Greeting

namespace Broker

section Steps

variable {b b' : Broker} {conn : ConnId} {handler next : Handler} {action : Action}

/-- How the stage of a handler, the CONNECT it has accepted and the CONNACK it
has sent go together. -/
structure Introduced (handler : Handler) (accepted : Option ConnectPacket) (greeted : Bool) :
    Prop where
  unsaid : handler.stage.unsaid = true → greeted = false
  spoken : handler.stage.spoken = true → greeted = true
  accepted : handler.stage = .registering ∨ handler.stage = .connack ∨ greeted = true →
    accepted ≠ none

theorem afterRequest_spoken (request : Request) : (afterRequest request).spoken = true := by
  cases request with
  | publish packet => cases packet <;> rfl
  | subscribe packet => cases packet <;> rfl
  | pingreq | disconnect | unexpected => rfl

theorem introduced_fresh (sock : RawSocket) (accepted : Option ConnectPacket) {greeted : Bool}
    (hgreeted : greeted = false) : Introduced { sock } accepted greeted := by
  refine ⟨fun _ => hgreeted, fun hspoken => ?_, fun haccepted => ?_⟩
  · cases hspoken
  · simp [hgreeted] at haccepted

/-- A handler that has sent its CONNACK stays introduced until it is done. -/
theorem Introduced.goOn {accepted : Option ConnectPacket} {greeted : Bool}
    (hi : Introduced handler accepted greeted) (hspoken : handler.stage.spoken = true)
    (hnext : next.stage.spoken = true ∨ next.stage = .closing) :
    Introduced next ((b.connects handler action).or accepted)
      (greeted || greets handler action) := by
  have hgreeted := hi.spoken hspoken
  have haccepted := hi.accepted (Or.inr (Or.inr hgreeted))
  refine ⟨fun hunsaid => ?_, fun _ => by rw [hgreeted, Bool.true_or], fun _ => by
    simp [Option.or_eq_none_iff, haccepted]⟩
  rcases hnext with hnext | hnext
  · cases hstage : next.stage <;> simp [hstage, Stage.spoken, Stage.unsaid] at hnext hunsaid
  · simp [hnext, Stage.unsaid] at hunsaid

theorem introduced_act {accepted : Option ConnectPacket} {greeted : Bool}
    (hi : Introduced handler accepted greeted) (h : b.act conn handler action = some b')
    (hnext : b'.handlers conn = some next) :
    Introduced next ((b.connects handler action).or accepted)
      (greeted || greets handler action) := by
  unfold act at h
  split at h
  case h_1 address source hstage =>
      have hgreeted := hi.unsaid (by rw [hstage]; rfl)
      split at h
      · obtain rfl := next_of_become h hnext
        refine ⟨fun hunsaid => ?_, fun hspoken => ?_, fun haccepted => ?_⟩
        · cases hunsaid
        · cases hspoken
        · simp [hgreeted, greets, hstage] at haccepted
      · next packet rest hread =>
          obtain rfl := next_of_become h hnext
          refine ⟨fun _ => by simp [hgreeted, greets, hstage], fun hspoken => ?_, fun _ => ?_⟩
          · cases hspoken
          · simp [connects, hstage, hread]
  case h_2 hstage =>
      obtain rfl := next_of_become h hnext
      have haccepted := hi.accepted (Or.inl hstage)
      refine ⟨fun _ => ?_, fun hspoken => ?_, fun _ => ?_⟩
      · simp [hi.unsaid (by rw [hstage]; rfl), greets, hstage]
      · cases hspoken
      · simp [haccepted]
  case h_3 sent hstage =>
      have haccepted := hi.accepted (Or.inr (Or.inl hstage))
      have hgreets : greets handler (.connack sent) = true := by simp [greets, hstage]
      have hpast : next.stage = .loop ∨ next.stage = .leaving := by
        split at h <;> obtain rfl := next_of_become h hnext <;> simp
      refine ⟨fun hunsaid => ?_, fun _ => ?_, fun _ => ?_⟩
      · rcases hpast with hpast | hpast <;> simp [hpast, Stage.unsaid] at hunsaid
      · rw [hgreets, Bool.or_true]
      · simp [haccepted]
  case h_16 hstage =>
      obtain rfl := next_of_become h hnext
      refine ⟨fun hunsaid => ?_, fun hspoken => ?_, fun hgreeted => ?_⟩
      · cases hunsaid
      · cases hspoken
      · have hbefore : greeted = true := by simpa [greets, hstage] using hgreeted
        simp [hi.accepted (Or.inr (Or.inr hbefore))]
  case h_17 => cases h
  case h_4 hstage =>
      apply hi.goOn (by rw [hstage]; rfl)
      split at h <;> obtain rfl := next_of_become h hnext <;> exact Or.inl rfl
  case h_5 hstage =>
      apply hi.goOn (by rw [hstage]; rfl)
      split at h <;> obtain rfl := next_of_become h hnext
      · exact Or.inl rfl
      · exact Or.inl (afterRequest_spoken _)
  case h_15 hstage =>
      obtain rfl := next_of_become h hnext
      exact hi.goOn (by rw [hstage]; rfl) (Or.inr rfl)
  all_goals
    rename_i hstage
    obtain rfl := next_of_become h hnext
    exact hi.goOn (by rw [hstage]; rfl) (Or.inl rfl)

/-- A handler comes to record, route, forward or subscribe by what it takes,
or goes on with it. -/
theorem causing_act (h : b.act conn handler action = some b')
    (hnext : b'.handlers conn = some next) (hcausing : next.stage.causing = true) :
    b.takes handler action = true ∨
      receives handler action = false ∧ handler.stage.causing = true := by
  have hbecome : ∀ {b₀ : Broker} {handler' : Handler}, some (b₀.become conn handler') = some b' →
      handler'.stage.causing = true :=
    fun h => next_of_become h hnext ▸ hcausing
  unfold act at h
  split at h
  case h_1 | h_3 | h_4 => split at h <;> cases hbecome h
  case h_5 source hstage =>
      split at h
      · cases hbecome h
      · next hread => exact Or.inl (by simpa [takes, hstage, hread] using hbecome h)
  case h_6 hstage | h_7 hstage | h_8 hstage =>
      exact Or.inr (by simp [receives, hstage, Stage.causing])
  case h_17 => cases h
  all_goals cases hbecome h

/-- Only a handler that is about to record, forward or subscribe adds to the
history, to the filters or to what others are handed. -/
theorem quiet_act (h : b.act conn handler action = some b')
    (hquiet : handler.stage.causing = false) :
    b'.history = b.history ∧
      (∀ (clientId : Bytes) (after : Session), b'.sessions[clientId]? = some after →
        after.filters = [] ∨ ∃ before, b.sessions[clientId]? = some before ∧
          after.filters = before.filters) ∧
      ∀ sock packet, b.handlers conn = some handler →
        b.sends (.act conn action) = some (sock, packet) → sock = handler.sock := by
  refine ⟨?_, fun clientId after hafter => ?_, fun sock packet hhandler hsent => ?_⟩
  · have hnothing : records handler action = [] := by
      unfold records
      split
      · next hstage => simp [hstage, Stage.causing] at hquiet
      · rfl
    rw [history_act h, hnothing, List.append_nil]
  · have hkeeps : b.sessions[clientId]? = some after →
        after.filters = [] ∨ ∃ before, b.sessions[clientId]? = some before ∧
          after.filters = before.filters :=
      fun hsame => Or.inr ⟨after, hsame, rfl⟩
    obtain ⟨m', hacted⟩ : ∃ m', Acted b .empty conn handler action b' m' := ⟨_, acted h⟩
    cases hacted with
    | refused | identified | served | closed => exact hkeeps hafter
    | registered =>
        rw [become_sessions, registerSession_sessions] at hafter
        split at hafter
        · cases hafter
          exact Or.inl rfl
        · exact hkeeps hafter
    | subscribed packet hstage => simp [hstage, Stage.causing] at hquiet
    | removed =>
        rw [become_sessions, removeSession_sessions] at hafter
        split at hafter
        · cases hafter
        · exact hkeeps hafter
  · simp only [sends, hhandler, Option.bind_some] at hsent
    split at hsent
    case h_2 hstage => simp [hstage, Stage.causing] at hquiet
    case h_5 => cases hsent
    all_goals
      cases hsent
      rfl

theorem stage_of_greets (h : greets handler action = true) : handler.stage = .connack := by
  unfold greets at h
  split at h
  · next hstage => exact hstage
  · cases h

section Sends

variable (hhandler : b.handlers conn = some handler)

include hhandler

theorem sends_of_greets (h : greets handler action = true) :
    b.sends (.act conn action) = some (handler.sock, encodeConnack) := by
  unfold greets at h
  split at h
  · next hstage => simp only [sends, hhandler, Option.bind_some, hstage]
  · cases h

end Sends

theorem receives_of_takes (h : b.takes handler action = true) :
    receives handler action = true := by
  unfold takes at h
  split at h
  · next hstage => simp [receives, hstage]
  · cases h

end Steps

end Broker

namespace Greeting

/-- What holds of every run. -/
structure Kept (g : Greeting) : Prop where
  settled : g.broker.Settled
  introduced : ∀ conn handler, g.broker.handlers conn = some handler →
    Broker.Introduced handler (g.accepted conn) (g.greeted conn)
  fresh : ∀ conn, g.broker.handlers conn = none → g.greeted conn = false

/-- What holds while no step touches a connection that has not been sent its
CONNACK. -/
structure Polite (g : Greeting) : Prop extends ConnackFirst g where
  kept : g.Kept
  silent : ∀ conn, g.greeted conn = false → g.handed conn = []
  closed : ∀ conn sock, g.greeted conn = true → g.handed conn = [] →
    g.broker.descriptors sock ≠ some conn

section Note

variable {g : Greeting} {conn : ConnId} {handler : Handler} {action : Action}

theorem greeted_note (other : ConnId) : (g.note conn handler action).greeted other =
    if other = conn then g.greeted conn || Broker.greets handler action else g.greeted other :=
  Function.update_apply ..

theorem accepted_note (other : ConnId) : (g.note conn handler action).accepted other =
    if other = conn then (g.broker.connects handler action).or (g.accepted conn)
    else g.accepted other :=
  Function.update_apply ..

theorem handed_of_hands {dest : ConnId} {entry : ConnId × Bytes}
    (h : g.broker.hands (.act conn action) = some (dest, entry)) (other : ConnId) :
    (g.note conn handler action).handed other =
      if other = dest then g.handed dest ++ [entry] else g.handed other := by
  simp only [note, h]
  exact Function.update_apply ..

theorem handed_of_none (h : g.broker.hands (.act conn action) = none) :
    (g.note conn handler action).handed = g.handed := by
  simp only [note, h]

theorem handed_nil {other : ConnId} (h : (g.note conn handler action).handed other = []) :
    g.handed other = [] ∧ ∀ entry, g.broker.hands (.act conn action) ≠ some (other, entry) := by
  cases hhands : g.broker.hands (.act conn action) with
  | none =>
      rw [handed_of_none hhands] at h
      exact ⟨h, fun entry => by simp⟩
  | some sent =>
      rw [handed_of_hands hhands] at h
      split at h
      · simp at h
      · next hne =>
          refine ⟨h, fun entry heq => ?_⟩
          cases heq
          exact hne rfl

theorem origin_note (other : ConnId) : (g.note conn handler action).origin other =
    if Broker.receives handler action = true ∧ other = conn then
      g.broker.descriptors handler.sock
    else g.origin other := by
  simp only [note]
  split
  · next hreceives => simp [hreceives, Function.update_apply]
  · next hreceives => simp [hreceives]

theorem greeted_of_greeted {other : ConnId} (h : g.greeted other = true) :
    (g.note conn handler action).greeted other = true := by
  rw [greeted_note]
  split
  · next heq => rw [← heq, h, Bool.true_or]
  · exact h

theorem accepted_of_accepted {other : ConnId} (h : g.accepted other ≠ none) :
    (g.note conn handler action).accepted other ≠ none := by
  rw [accepted_note]
  split
  · next heq => simp [Option.or_eq_none_iff, ← heq, h]
  · exact h

end Note

section Steps

variable {g g' : Greeting} {event : Event}

/-- A step of a handler is noted, and every other one changes the broker only. -/
theorem stepped (h : g.step event = some g') :
    (∃ conn action handler b', event = .act conn action ∧
      g.broker.handlers conn = some handler ∧ g.broker.act conn handler action = some b' ∧
        g' = { g.note conn handler action with broker := b' }) ∨
    (∀ conn action, event ≠ .act conn action) ∧ ∃ b', g.broker.step event = some b' ∧
      g' = { g with broker := b' } := by
  obtain ⟨b', hstep, rfl⟩ := Option.map_eq_some_iff.mp h
  cases event with
  | act conn action =>
      obtain ⟨handler, hhandler, hact⟩ := Option.bind_eq_some_iff.mp hstep
      refine Or.inl ⟨conn, action, handler, b', rfl, hhandler, hact, ?_⟩
      simp only [observed, hhandler, Option.elim_some]
  | start | stopFlag | stopSessions | stopJoined | accept | clearMessages =>
      exact Or.inr ⟨by simp, b', hstep, rfl⟩

/-- Any other step keeps the handlers, or starts one on a new connection. -/
theorem handlers_after {b b' : Broker} (hkept : b.Bookkept) (hstep : b.step event = some b')
    (hother : ∀ conn action, event ≠ .act conn action) (conn : ConnId) :
    b'.handlers conn = b.handlers conn ∨
      b.handlers conn = none ∧ ∃ sock, b'.handlers conn = some { sock } := by
  obtain ⟨m, hkept⟩ := hkept
  obtain ⟨m', hturned, -⟩ := Broker.step_kept hkept hstep
  cases hturned with
  | started | flagged | swept | joined | cleared => exact Or.inl rfl
  | @accepted sock =>
      rw [Broker.acceptConn_handlers]
      split
      · next heq => exact Or.inr ⟨hkept.fresh_conn conn heq.ge, sock, rfl⟩
      · exact Or.inl rfl
  | acted => exact absurd rfl (hother _ _)

/-- Only `accept` opens a descriptor. -/
theorem descriptors_after {b b' : Broker} (hkept : b.Bookkept) (hstep : b.step event = some b')
    {sock : RawSocket} {conn : ConnId} (hopen : b'.descriptors sock = some conn) :
    b.descriptors sock = some conn ∨ b.handlers conn = none := by
  obtain ⟨m, hkept⟩ := hkept
  obtain ⟨m', hturned, -⟩ := Broker.step_kept hkept hstep
  cases hturned with
  | started | flagged | joined | cleared => exact Or.inl hopen
  | swept => exact Or.inl (b.sweepSessions_descriptors.mp hopen).1
  | accepted =>
      rw [Broker.acceptConn_descriptors] at hopen
      split at hopen
      · cases hopen
        exact Or.inr (hkept.fresh_conn _ le_rfl)
      · exact Or.inl hopen
  | acted handler hhandler hacted => exact Or.inl (hacted.open_before hopen)

theorem Kept.init : Kept {} where
  settled := .init
  introduced conn handler hhandler := by cases hhandler
  fresh conn _ := rfl

theorem Kept.step (h : g.Kept) (hstep : g.step event = some g') : g'.Kept := by
  have hsettled : g'.broker.Settled := by
    obtain ⟨b', hb', rfl⟩ := Option.map_eq_some_iff.mp hstep
    exact h.settled.step hb'
  rcases stepped hstep with ⟨conn, action, handler, b', rfl, hhandler, hact, rfl⟩ |
    ⟨hother, b', hb', rfl⟩
  · have hacted := acted (m := .empty) hact
    refine ⟨hsettled, fun other next hnext => ?_, fun other hnone => ?_⟩
    · change Broker.Introduced next ((g.note conn handler action).accepted other)
        ((g.note conn handler action).greeted other)
      rw [accepted_note, greeted_note]
      by_cases hown : other = conn
      · subst hown
        rw [if_pos rfl, if_pos rfl]
        exact Broker.introduced_act (h.introduced other handler hhandler) hact hnext
      · rw [if_neg hown, if_neg hown]
        exact h.introduced other next ((hacted.other hown).symm.trans hnext)
    · obtain ⟨hne, hbefore⟩ := hacted.none_before hnone
      change (g.note conn handler action).greeted other = false
      rw [greeted_note, if_neg hne]
      exact h.fresh other hbefore
  · refine ⟨hsettled, fun conn next hnext => ?_, fun conn hnone => ?_⟩
    · rcases handlers_after h.settled.1 hb' hother conn with hsame | ⟨hnone, sock, hnew⟩
      · exact h.introduced conn next (hsame.symm.trans hnext)
      · obtain rfl : next = { sock } := Option.some.inj (hnext.symm.trans hnew)
        exact Broker.introduced_fresh sock (g.accepted conn) (h.fresh conn hnone)
    · rcases handlers_after h.settled.1 hb' hother conn with hsame | ⟨hbefore, -⟩
      · exact h.fresh conn (hsame.symm.trans hnone)
      · exact h.fresh conn hbefore

section Handed

variable {conn : ConnId} {handler : Handler} {action : Action}

theorem Polite.init : Polite {} where
  first conn entry rest h := by cases h
  cause conn handler hhandler := by cases hhandler
  kept := .init
  silent conn _ := rfl
  closed conn sock h := by cases h

theorem of_hands {dest : ConnId} {entry : ConnId × Bytes}
    (h : g.broker.hands (.act conn action) = some (dest, entry)) :
    entry.1 = conn ∧ ∃ sock, g.broker.sends (.act conn action) = some (sock, entry.2) ∧
      g.broker.descriptors sock = some dest := by
  obtain ⟨⟨sock, packet⟩, hsent, hdest⟩ := Option.bind_eq_some_iff.mp h
  obtain ⟨source, hsource, heq⟩ := Option.map_eq_some_iff.mp hdest
  cases heq
  exact ⟨rfl, sock, hsent, hsource⟩

/-- A connection that has been handed nothing when its CONNACK goes out has
lost its descriptor. -/
theorem Polite.closed_note (h : g.Polite) (hhandler : g.broker.handlers conn = some handler)
    {other : ConnId} (hgreeted : (g.note conn handler action).greeted other = true)
    (hhanded : (g.note conn handler action).handed other = []) (sock : RawSocket) :
    g.broker.descriptors sock ≠ some other := by
  intro hopen
  obtain ⟨hnothing, hnot⟩ := handed_nil hhanded
  cases hbefore : g.greeted other with
  | true => exact h.closed other sock hbefore hnothing hopen
  | false =>
      rw [greeted_note] at hgreeted
      split at hgreeted
      · next heq =>
          subst heq
          rw [hbefore, Bool.false_or] at hgreeted
          obtain ⟨g₀, hg₀, hsock, -⟩ := h.kept.settled.2.2 sock other hopen
          obtain rfl : handler = g₀ := Option.some.inj (hhandler.symm.trans hg₀)
          apply hnot (other, encodeConnack)
          rw [Broker.hands, Broker.sends_of_greets hhandler hgreeted, Option.bind_some, hsock,
            hopen, Option.map_some]
      · simp [hbefore] at hgreeted

theorem accepted_of_greets (h : g.Kept) (hhandler : g.broker.handlers conn = some handler)
    (hgreets : Broker.greets handler action = true) :
    (g.note conn handler action).accepted conn ≠ none :=
  accepted_of_accepted ((h.introduced conn handler hhandler).accepted
    (Or.inr (Or.inl (Broker.stage_of_greets hgreets))))

theorem Polite.first_note (h : g.Polite) (hhandler : g.broker.handlers conn = some handler)
    (htouches : ∀ dest entry, g.broker.hands (.act conn action) = some (dest, entry) →
      g.greeted dest = true ∨ dest = conn ∧ Broker.greets handler action = true)
    {other : ConnId} {entry : ConnId × Bytes} {rest : List (ConnId × Bytes)}
    (hhanded : (g.note conn handler action).handed other = entry :: rest) :
    entry = (other, encodeConnack) ∧ (g.note conn handler action).accepted other ≠ none := by
  have hbefore : ∀ rest, g.handed other = entry :: rest →
      entry = (other, encodeConnack) ∧ (g.note conn handler action).accepted other ≠ none := by
    intro rest hrest
    obtain ⟨hentry, haccepted⟩ := h.first other entry rest hrest
    exact ⟨hentry, accepted_of_accepted haccepted⟩
  cases hhands : g.broker.hands (.act conn action) with
  | none => exact hbefore rest (by rwa [handed_of_none hhands] at hhanded)
  | some sent =>
      obtain ⟨dest, last⟩ := sent
      rw [handed_of_hands hhands] at hhanded
      split at hhanded
      · next heq =>
          subst heq
          cases hnothing : g.handed other with
          | cons first others =>
              rw [hnothing, List.cons_append] at hhanded
              obtain ⟨rfl, -⟩ := List.cons.inj hhanded
              exact hbefore others hnothing
          | nil =>
              rw [hnothing, List.nil_append] at hhanded
              obtain ⟨rfl, -⟩ := List.cons.inj hhanded
              obtain ⟨hsender, sock, hsent, hopen⟩ := of_hands hhands
              rcases htouches other last hhands with hgreeted | ⟨rfl, hgreets⟩
              · exact absurd hopen (h.closed other sock hgreeted hnothing)
              · rw [Broker.sends_of_greets hhandler hgreets] at hsent
                obtain ⟨-, hpacket⟩ := Prod.mk.inj (Option.some.inj hsent)
                exact ⟨Prod.ext hsender hpacket.symm, accepted_of_greets h.kept hhandler hgreets⟩
      · exact hbefore rest hhanded

theorem Polite.silent_note (h : g.Polite)
    (htouches : ∀ dest entry, g.broker.hands (.act conn action) = some (dest, entry) →
      g.greeted dest = true ∨ dest = conn ∧ Broker.greets handler action = true)
    {other : ConnId} (hgreeted : (g.note conn handler action).greeted other = false) :
    (g.note conn handler action).handed other = [] := by
  have hstill : g.greeted other ≠ true := by
    intro hbefore
    simp [greeted_of_greeted hbefore] at hgreeted
  have hbefore := h.silent other ((Bool.not_eq_true _).mp hstill)
  cases hhands : g.broker.hands (.act conn action) with
  | none => rw [handed_of_none hhands, hbefore]
  | some sent =>
      obtain ⟨dest, entry⟩ := sent
      rw [handed_of_hands hhands]
      split
      · next heq =>
          subst heq
          rcases htouches other entry hhands with hsaid | ⟨rfl, hgreets⟩
          · exact absurd hsaid hstill
          · simp [greeted_note, hgreets] at hgreeted
      · exact hbefore

theorem Polite.act (h : g.Polite) (hhandler : g.broker.handlers conn = some handler)
    (htouches : g.TouchesGreeted (.act conn action)) {b' : Broker}
    (hact : g.broker.act conn handler action = some b') (hkept : Kept
      { g.note conn handler action with broker := b' }) :
    Polite { g.note conn handler action with broker := b' } := by
  obtain ⟨hhands, htakes⟩ := htouches handler hhandler
  have hacted := acted (m := .empty) hact
  refine ⟨⟨fun other entry rest hhanded => h.first_note hhandler hhands hhanded,
    fun other next hnext hcausing => ?_⟩, hkept, fun other hgreeted => ?_,
    fun other sock hgreeted hhanded hopen => ?_⟩
  · change ∃ source, (g.note conn handler action).origin other = some source ∧
      (g.note conn handler action).greeted source = true
    rw [origin_note]
    by_cases hown : other = conn
    · subst hown
      rcases Broker.causing_act hact hnext hcausing with hnew | ⟨hold, hbefore⟩
      · obtain ⟨source, hsource, hgreeted⟩ := htakes hnew
        rw [if_pos ⟨Broker.receives_of_takes hnew, rfl⟩]
        exact ⟨source, hsource, greeted_of_greeted hgreeted⟩
      · obtain ⟨source, hsource, hgreeted⟩ := h.cause other handler hhandler hbefore
        rw [if_neg (by simp [hold])]
        exact ⟨source, hsource, greeted_of_greeted hgreeted⟩
    · rw [if_neg fun h => hown h.2]
      obtain ⟨source, hsource, hgreeted⟩ :=
        h.cause other next ((hacted.other hown).symm.trans hnext) hcausing
      exact ⟨source, hsource, greeted_of_greeted hgreeted⟩
  · exact h.silent_note hhands hgreeted
  · exact h.closed_note hhandler hgreeted hhanded sock (hacted.open_before hopen)

end Handed

theorem Polite.step (h : g.Polite) (htouches : g.TouchesGreeted event)
    (hstep : g.step event = some g') : g'.Polite := by
  have hkept := h.kept.step hstep
  rcases stepped hstep with ⟨conn, action, handler, b', rfl, hhandler, hact, rfl⟩ |
    ⟨hother, b', hb', rfl⟩
  · exact h.act hhandler htouches hact hkept
  · have hbookkept := h.kept.settled.1
    refine ⟨⟨h.first, fun conn next hnext hcausing => ?_⟩, hkept, h.silent,
      fun conn sock hgreeted hhanded hopen => ?_⟩
    · rcases handlers_after hbookkept hb' hother conn with hsame | ⟨-, sock, hnew⟩
      · exact h.cause conn next (hsame.symm.trans hnext) hcausing
      · obtain rfl : next = { sock } := Option.some.inj (hnext.symm.trans hnew)
        cases hcausing
    · rcases descriptors_after hbookkept hb' hopen with hbefore | hnone
      · exact h.closed conn sock hgreeted hhanded hbefore
      · simp [h.kept.fresh conn hnone] at hgreeted

end Steps

end Greeting

end MockServices.Mqtt
