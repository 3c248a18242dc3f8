import MockServices.Foundations.Outlets
import MockServices.Foundations.Run
import MockServices.Mqtt.Broker

/-!
# The packets on the wire

`send_all` calls `send` until all of a packet is taken, and nothing keeps
the other handlers away from the socket in between. Here every call is a
step of its own. The bytes of two packets are mixed when a `send_all`
begins on a connection on which another packet is not complete, or goes
on, after the descriptor was handed out again, on another connection.
-/

namespace MockServices.Mqtt

open Foundations

/-- The `send_all` that the handler is in: the descriptor and the packet. -/
def Handler.sending (handler : Handler) : Option (RawSocket × Bytes) :=
  match handler.stage with
  | .connack => some (handler.sock, encodeConnack)
  | .forwarding publishFrame (target :: _) => some (target, publishFrame)
  | .suback packetId returnCodes => some (handler.sock, encodeSuback packetId returnCodes)
  | .pingresp => some (handler.sock, encodePingresp)
  | _ => none

/-- The broker and what has been written to each connection. -/
structure Wired where
  broker : Broker := {}
  outlets : Outlets ConnId ConnId UInt8 := {}

/-- A `send` that takes a part of what it is given, or any other step. A
step that ends a `send_all` is its last call, which takes the rest or
fails. -/
inductive WireEvent where
  | sendPart (conn : ConnId) (count : ℕ)
  | step (event : Event) (sent : Bool)

/-- A `send` of a handler that takes the first `count` bytes of what it is
given, on the connection that the descriptor denotes. -/
structure SendCall where
  conn : ConnId
  dest : ConnId
  packet : Bytes
  count : ℕ

/-- `send_all` answers what its last call has. -/
def Event.agrees (sent : Bool) : Event → Bool
  | .act _ (.connack answer) => answer = sent
  | _ => true

namespace Wired

/-- The call that the event makes, if it makes one that takes anything. -/
def call (w : Wired) : WireEvent → Option SendCall
  | .sendPart conn count => do
      let (sock, packet) ← (w.broker.handlers conn).bind Handler.sending
      let dest ← w.broker.descriptors sock
      if 0 < count ∧ count < (w.outlets.offered conn packet).length then
        some ⟨conn, dest, packet, count⟩
      else none
  | .step (.act conn _) true => do
      let (sock, packet) ← (w.broker.handlers conn).bind Handler.sending
      let dest ← w.broker.descriptors sock
      some ⟨conn, dest, packet, (w.outlets.offered conn packet).length⟩
  | .step _ _ => none

def write (w : Wired) (c : SendCall) : Outlets ConnId ConnId UInt8 :=
  w.outlets.write c.conn c.dest c.packet c.count

/-- Without a call that takes something `send_all` gives up what is left. -/
def outletsAfter (w : Wired) (event : Event) (sent : Bool) : Outlets ConnId ConnId UInt8 :=
  match w.call (.step event sent), event with
  | some c, _ => w.write c
  | none, .act conn _ => w.outlets.giveUp conn
  | none, _ => w.outlets

def step (w : Wired) : WireEvent → Option Wired
  | .sendPart conn count =>
      (w.call (.sendPart conn count)).map fun c => { w with outlets := w.write c }
  | .step event sent =>
      if event.agrees sent then
        (w.broker.step event).map fun broker => ⟨broker, w.outletsAfter event sent⟩
      else none

/-- On every connection there is one packet after the other, whole but for
the last one. -/
def Framed (w : Wired) : Prop := ∀ conn, (w.outlets.outlet conn).Framed

/-- A `send_all` begins on a connection on which every packet is complete,
and goes on on the connection on which it began. -/
def Orderly (w : Wired) (event : WireEvent) : Prop :=
  ∀ c ∈ w.call event, w.outlets.Orderly c.conn c.dest

instance (w : Wired) (event : WireEvent) : Decidable (w.Orderly event) :=
  inferInstanceAs (Decidable (∀ _ ∈ _, _))

end Wired

/-- The handler passes to `send_all` what the broker says it does. -/
theorem sends_eq_sending {b : Broker} {conn : ConnId} {action : Action}
    (h : b.step (.act conn action) ≠ none) :
    b.sends (.act conn action) = (b.handlers conn).bind Handler.sending := by
  cases hhandler : b.handlers conn with
  | none => simp [Broker.sends, hhandler]
  | some handler =>
      rw [Broker.step_act hhandler] at h
      simp only [Broker.sends, hhandler, Option.bind_some, Handler.sending]
      unfold Broker.act at h
      split at h
      case h_17 => exact absurd rfl h
      all_goals
        rename_i hstage
        simp only [hstage]

def WireEvent.ofBroker : WireEvent → Option Event
  | .sendPart _ _ => none
  | .step event _ => some event

/-- Without the calls in the middle of a packet a run is one of the broker. -/
theorem run_ofBroker {w w' : Wired} {events : List WireEvent}
    (h : run Wired.step w events = some w') :
    run Broker.step w.broker (events.filterMap WireEvent.ofBroker) = some w'.broker := by
  induction events generalizing w with
  | nil =>
      cases h
      rfl
  | cons event events ih =>
      obtain ⟨u, hu, hrest⟩ := run_cons_some_iff.mp h
      cases event with
      | sendPart conn count =>
          obtain ⟨c, -, rfl⟩ := Option.map_eq_some_iff.mp hu
          have hbroker := ih hrest
          exact hbroker
      | step event sent =>
          obtain ⟨-, hu⟩ := Option.ite_none_right_eq_some.mp hu
          obtain ⟨b, hb, rfl⟩ := Option.map_eq_some_iff.mp hu
          exact run_cons_some_iff.mpr ⟨b, hb, ih hrest⟩

theorem woven_step {w w' : Wired} {event : WireEvent} (h : w.outlets.Woven)
    (horderly : w.Orderly event) (hstep : w.step event = some w') : w'.outlets.Woven := by
  cases event with
  | sendPart conn count =>
      obtain ⟨c, hcall, rfl⟩ := Option.map_eq_some_iff.mp hstep
      exact h.write (horderly c hcall) _ _
  | step event sent =>
      obtain ⟨-, hstep⟩ := Option.ite_none_right_eq_some.mp hstep
      obtain ⟨broker, -, rfl⟩ := Option.map_eq_some_iff.mp hstep
      change (w.outletsAfter event sent).Woven
      unfold Wired.outletsAfter
      split
      · next hcall => exact h.write (horderly _ hcall) _ _
      · exact h.giveUp
      · exact h

/-- Frame atomicity on the wire. In a run whose `send_all`s all begin on
connections with complete packets only and end on the connection on which
they began, the bytes of two packets are never mixed. -/
theorem frames_whole (events : List WireEvent)
    (horderly : Along Wired.step Wired.Orderly {} events) :
    Always Wired.step Wired.Framed {} events :=
  always_of_invariant_along (I := fun w : Wired => w.outlets.Woven)
    (fun _ _ _ h horderly hstep => woven_step h horderly hstep) (fun _ h => h.framed)
    Outlets.woven_empty horderly

/-- Client `a` has a filter, and client `b` publishes to its topic. -/
def subscribed : List Event :=
  .start :: joining 0 4 (ascii "a") ++ joining 1 5 (ascii "b") ++
    [.act 0 (.receive (wholePiece 0x82 [6, 0, 1, 0, 1, 0x74, 0])), .act 0 .subscribe,
      .act 0 .suback, .act 0 .check, .act 1 (.receive (wholePiece 0x30 [4, 0, 1, 0x74, 0x70])),
      .act 1 .record, .act 1 .route]

/-- Every send takes all of its packet. -/
def allSent (events : List Event) : List WireEvent := events.map fun event => .step event true

theorem frames_whole_in_turn :
    let events := allSent subscribed ++ [.sendPart 1 1, .sendPart 1 2, .step (.act 1 .forward) true,
      .step (.act 0 (.receive (wholePiece 0xC0 [0]))) true, .step (.act 0 .pingresp) true]
    (run Wired.step {} events).isSome = true ∧ Always Wired.step Wired.Framed {} events :=
  ⟨by decide +kernel, frames_whole _ (by decide +kernel)⟩

/-- The answer to a PINGREQ gets into the middle of a forwarded frame. -/
def interleaved : List WireEvent :=
  allSent subscribed ++ [.sendPart 1 1, .step (.act 0 (.receive (wholePiece 0xC0 [0]))) true,
    .step (.act 0 .pingresp) true]

theorem frames_mixed : ¬ ∀ events, Always Wired.step Wired.Framed {} events := by
  intro h
  have hrun : ((run Wired.step {} interleaved).any fun w =>
      decide (¬ (w.outlets.outlet 0).Framed)) = true := by decide +kernel
  obtain ⟨w, hw, hlast⟩ := (Option.any_eq_true _ _).mp hrun
  exact of_decide_eq_true hlast ((h interleaved).of_run hw 0)

end MockServices.Mqtt
