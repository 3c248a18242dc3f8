import Mathlib.Data.List.Forall2
import MockServices.Mqtt.Connack

/-!
# What a handler makes of its requests

Beside the broker stand the bytes that every client has sent and nobody has
read, and of every connection the requests its handler has taken, the
packets it has answered with and the messages it has recorded. A handler
that reads while its descriptor denotes another connection reads anything,
and robs that connection. Whatever it reads, it does one thing for each
request, in the order of the requests, and nothing unasked.
-/

namespace MockServices.Mqtt

open Foundations

namespace Request

/-- The requests that are answered. -/
def calls : Request → Bool
  | .subscribe (some _) | .pingreq => true
  | _ => false

/-- The return codes are missing when another connection has taken the
session away. -/
def AnsweredBy : Request → Bytes → Prop
  | .subscribe (some packet), reply => ∃ returnCodes,
      (returnCodes = [] ∨ returnCodes = packet.filters.map fun _ => 0x00) ∧
        reply = encodeSuback packet.packetId returnCodes
  | .pingreq, reply => reply = encodePingresp
  | _, _ => False

def published : Request → Option PublishPacket
  | .publish packet => packet
  | _ => none

end Request

namespace Broker

/-- The request that the handler takes. -/
def takesRequest (b : Broker) (handler : Handler) (action : Action) : Option Request :=
  match handler.stage, action with
  | .reading, .receive source =>
      ((nextRequest handler.buffer).run (b.incoming handler.sock source)).map fun got => got.1.1
  | _, _ => none

/-- The packet that the handler hands to `send_all`, if it is not a PUBLISH
that it forwards. -/
def speaks (handler : Handler) (action : Action) : Option Bytes :=
  match handler.stage, action with
  | .connack, .connack _ => some encodeConnack
  | .suback packetId returnCodes, .suback => some (encodeSuback packetId returnCodes)
  | .pingresp, .pingresp => some encodePingresp
  | _, _ => none

end Broker

/-- `recv` of one handler, or any other step. What a stray `recv` delivers
comes with it. -/
inductive Moment where
  | connect (conn : ConnId) (address : ℕ) (stray : Source UInt8)
  | receive (conn : ConnId) (stray : Source UInt8)
  | other (event : Event)

def Action.reads : Action → Bool
  | .connect _ _ | .receive _ => true
  | _ => false

def Event.reads : Event → Bool
  | .act _ action => action.reads
  | _ => false

structure Dialogue where
  broker : Broker := {}
  streams : ConnId → Source UInt8
  robbed : ConnId → Bool := fun _ => false
  asked : ConnId → List Request := fun _ => []
  said : ConnId → List Bytes := fun _ => []
  recorded : ConnId → List PublishPacket := fun _ => []

namespace Dialogue

/-- A handler whose descriptor denotes its connection reads what its client
has sent. -/
def source (d : Dialogue) (conn : ConnId) (handler : Handler) (stray : Source UInt8) :
    Source UInt8 :=
  if d.broker.descriptors handler.sock = some conn then d.streams conn else stray

def event (d : Dialogue) : Moment → Option Event
  | .connect conn address stray => (d.broker.handlers conn).map fun handler =>
      .act conn (.connect address (d.source conn handler stray))
  | .receive conn stray => (d.broker.handlers conn).map fun handler =>
      .act conn (.receive (d.source conn handler stray))
  | .other event => if event.reads then none else some event

/-- What the handler leaves of the stream of its own connection. When it
does not get a packet, it does not read again. -/
def leaves (d : Dialogue) (conn : ConnId) (handler : Handler) (action : Action) :
    Option (Source UInt8) :=
  if d.broker.descriptors handler.sock = some conn then
    match action with
    | .connect _ source => (readConnect.run source).map Prod.snd
    | .receive source => ((nextRequest handler.buffer).run source).map Prod.snd
    | _ => none
  else none

/-- The other connection that the handler reads from. -/
def robs (d : Dialogue) (conn : ConnId) (handler : Handler) (action : Action) : Option ConnId :=
  if action.reads then (d.broker.descriptors handler.sock).filter (· ≠ conn) else none

def note (d : Dialogue) (conn : ConnId) (handler : Handler) (action : Action) : Dialogue :=
  { d with
    streams := match d.leaves conn handler action with
      | some rest => Function.update d.streams conn rest
      | none => d.streams
    robbed := match d.robs conn handler action with
      | some other => Function.update (Function.update d.robbed conn true) other true
      | none => d.robbed
    asked := Function.update d.asked conn
      (d.asked conn ++ (d.broker.takesRequest handler action).toList)
    said := Function.update d.said conn (d.said conn ++ (Broker.speaks handler action).toList)
    recorded := Function.update d.recorded conn
      (d.recorded conn ++ Broker.records handler action) }

def observed (d : Dialogue) : Event → Dialogue
  | .act conn action => (d.broker.handlers conn).elim d fun handler => d.note conn handler action
  | _ => d

def step (d : Dialogue) (moment : Moment) : Option Dialogue :=
  (d.event moment).bind fun event =>
    (d.broker.step event).map fun b => { d.observed event with broker := b }

def start (streams : ConnId → Source UInt8) : Dialogue := { streams }

end Dialogue

/-! ## One thing for each request -/

/-- Every request has been answered or recorded, if it is one for that, in
the order of the requests, and nothing else. -/
structure Served (asked : List Request) (said : List Bytes) (recorded : List PublishPacket) :
    Prop where
  said : ∃ replies, said = encodeConnack :: replies ∧
    List.Forall₂ Request.AnsweredBy (asked.filter Request.calls) replies
  recorded : recorded = asked.filterMap Request.published

/-- In the middle of a request, all before it have been served. -/
def Working (asked : List Request) (said : List Bytes) (recorded : List PublishPacket)
    (request : Request) : Prop :=
  ∃ earlier, asked = earlier ++ [request] ∧ Served earlier said recorded

/-- What a handler has done, by where it stands. -/
def Conversed (asked : List Request) (said : List Bytes) (recorded : List PublishPacket) :
    Stage → Prop
  | .handshake | .registering | .connack => asked = [] ∧ said = [] ∧ recorded = []
  | .recording packet => Working asked said recorded (.publish (some packet))
  | .subscribing packet => Working asked said recorded (.subscribe (some packet))
  | .suback packetId returnCodes => ∃ filters,
      Working asked said recorded (.subscribe (some ⟨packetId, filters⟩)) ∧
        (returnCodes = [] ∨ returnCodes = filters.map fun _ => 0x00)
  | .pingresp => Working asked said recorded .pingreq
  -- It has left before its CONNACK, or all is done.
  | .leaving | .closing | .done =>
      (asked = [] ∧ said = [] ∧ recorded = []) ∨ Served asked said recorded
  | .loop | .reading | .routing _ | .forwarding _ _ | .dropping | .dropped =>
      Served asked said recorded

section Requests

variable {asked earlier : List Request} {said : List Bytes} {recorded : List PublishPacket}
  {request : Request}

theorem served_nil : Served [] [encodeConnack] [] := ⟨⟨[], rfl, .nil⟩, rfl⟩

/-- Nothing is done for a request that asks for nothing. -/
theorem Served.silent (h : Served asked said recorded) (hcalls : request.calls = false)
    (hpublished : request.published = none) : Served (asked ++ [request]) said recorded := by
  obtain ⟨⟨replies, hsaid, hreplies⟩, hrecorded⟩ := h
  refine ⟨⟨replies, hsaid, ?_⟩, ?_⟩
  · simpa [List.filter_append, hcalls] using hreplies
  · simpa [List.filterMap_append, hpublished] using hrecorded

theorem Working.answer {reply : Bytes} (h : Working asked said recorded request)
    (hcalls : request.calls = true) (hpublished : request.published = none)
    (hreply : request.AnsweredBy reply) : Served asked (said ++ [reply]) recorded := by
  obtain ⟨earlier, rfl, ⟨⟨replies, rfl, hreplies⟩, hrecorded⟩⟩ := h
  refine ⟨⟨replies ++ [reply], rfl, ?_⟩, ?_⟩
  · rw [List.filter_append, List.filter_cons_of_pos hcalls, List.filter_nil]
    exact List.rel_append hreplies (.cons hreply .nil)
  · simpa [List.filterMap_append, hpublished] using hrecorded

theorem Working.record {packet : PublishPacket}
    (h : Working asked said recorded (.publish (some packet))) :
    Served asked said (recorded ++ [packet]) := by
  obtain ⟨earlier, rfl, ⟨⟨replies, hsaid, hreplies⟩, hrecorded⟩⟩ := h
  refine ⟨⟨replies, hsaid, ?_⟩, ?_⟩
  · simpa [List.filter_append, Request.calls] using hreplies
  · simp [List.filterMap_append, Request.published, hrecorded]

/-- Where the handler goes with a request is where it is to be served. -/
theorem Served.take (h : Served asked said recorded) (request : Request) :
    Conversed (asked ++ [request]) said recorded (Broker.afterRequest request) := by
  have hworking : Working (asked ++ [request]) said recorded request := ⟨asked, rfl, h⟩
  cases request with
  | publish packet =>
      cases packet with
      | none => exact h.silent rfl rfl
      | some packet => exact hworking
  | subscribe packet =>
      cases packet with
      | none => exact h.silent rfl rfl
      | some packet => exact hworking
  | pingreq => exact hworking
  | disconnect | unexpected => exact Or.inr (h.silent rfl rfl)

end Requests

namespace Broker

variable {b b' : Broker} {conn : ConnId} {handler next : Handler} {action : Action}
  {asked : List Request} {said : List Bytes} {recorded : List PublishPacket}

theorem addFilters_codes (clientId : Bytes) (packet : SubscribePacket) :
    (b.addFilters clientId packet).2 = [] ∨
      (b.addFilters clientId packet).2 = packet.filters.map fun _ => 0x00 := by
  unfold addFilters
  split
  · exact Or.inl rfl
  · exact Or.inr rfl

theorem conversed_act (h : Conversed asked said recorded handler.stage)
    (hact : b.act conn handler action = some b') (hnext : b'.handlers conn = some next) :
    Conversed (asked ++ (b.takesRequest handler action).toList)
      (said ++ (speaks handler action).toList) (recorded ++ records handler action) next.stage := by
  unfold act at hact
  split at hact
  case h_1 address source hstage =>
      rw [hstage] at h
      obtain ⟨rfl, rfl, rfl⟩ := h
      simp only [takesRequest, speaks, records, hstage, Option.toList_none, List.append_nil]
      split at hact <;> obtain rfl := next_of_become hact hnext
      · exact Or.inl ⟨rfl, rfl, rfl⟩
      · exact ⟨rfl, rfl, rfl⟩
  case h_2 hstage =>
      rw [hstage] at h
      simp only [takesRequest, speaks, records, hstage, Option.toList_none, List.append_nil]
      obtain rfl := next_of_become hact hnext
      exact h
  case h_3 sent hstage =>
      rw [hstage] at h
      obtain ⟨rfl, rfl, rfl⟩ := h
      simp only [takesRequest, speaks, records, hstage, Option.toList_none, Option.toList_some,
        List.append_nil, List.nil_append]
      split at hact <;> obtain rfl := next_of_become hact hnext
      · exact served_nil
      · exact Or.inr served_nil
  case h_4 hstage =>
      rw [hstage] at h
      simp only [takesRequest, speaks, records, hstage, Option.toList_none, List.append_nil]
      split at hact <;> obtain rfl := next_of_become hact hnext
      · exact h
      · exact Or.inr h
  case h_5 source hstage =>
      rw [hstage] at h
      simp only [takesRequest, speaks, records, hstage, Option.toList_none, List.append_nil]
      split at hact
      · next hread =>
          obtain rfl := next_of_become hact hnext
          rw [hread, Option.map_none, Option.toList_none, List.append_nil]
          exact Or.inr h
      · next request buffer rest hread =>
          obtain rfl := next_of_become hact hnext
          rw [hread]
          exact h.take request
  case h_6 packet hstage =>
      rw [hstage] at h
      simp only [takesRequest, speaks, records, hstage, Option.toList_none, List.append_nil]
      obtain rfl := next_of_become hact hnext
      exact h.record
  case h_10 packet hstage =>
      rw [hstage] at h
      simp only [takesRequest, speaks, records, hstage, Option.toList_none, List.append_nil]
      obtain rfl := next_of_become hact hnext
      exact ⟨packet.filters, h, addFilters_codes handler.clientId packet⟩
  case h_11 packetId returnCodes hstage =>
      rw [hstage] at h
      obtain ⟨filters, hworking, hcodes⟩ := h
      simp only [takesRequest, speaks, records, hstage, Option.toList_none, Option.toList_some,
        List.append_nil]
      obtain rfl := next_of_become hact hnext
      exact hworking.answer rfl rfl ⟨returnCodes, hcodes, rfl⟩
  case h_12 hstage =>
      rw [hstage] at h
      simp only [takesRequest, speaks, records, hstage, Option.toList_none, Option.toList_some,
        List.append_nil]
      obtain rfl := next_of_become hact hnext
      exact Working.answer h rfl rfl rfl
  case h_17 => cases hact
  all_goals
    rename_i hstage
    rw [hstage] at h
    simp only [takesRequest, speaks, records, hstage, Option.toList_none, List.append_nil]
    obtain rfl := next_of_become hact hnext
    exact h

end Broker

/-! ## Runs -/

namespace Dialogue

/-- Every handler has served its requests as far as it has come. -/
def InOrder (d : Dialogue) : Prop :=
  ∀ conn handler, d.broker.handlers conn = some handler →
    Conversed (d.asked conn) (d.said conn) (d.recorded conn) handler.stage

structure Kept (d : Dialogue) : Prop where
  settled : d.broker.Settled
  conversed : d.InOrder
  fresh : ∀ conn, d.broker.handlers conn = none →
    d.asked conn = [] ∧ d.said conn = [] ∧ d.recorded conn = []

section Steps

variable {d d' : Dialogue} {moment : Moment} {conn : ConnId} {handler : Handler} {action : Action}

theorem stepped (h : d.step moment = some d') :
    (∃ conn action handler b', d.event moment = some (.act conn action) ∧
      d.broker.handlers conn = some handler ∧ d.broker.act conn handler action = some b' ∧
        d' = { d.note conn handler action with broker := b' }) ∨
    ∃ event b', d.event moment = some event ∧ (∀ conn action, event ≠ .act conn action) ∧
      d.broker.step event = some b' ∧ d' = { d with broker := b' } := by
  obtain ⟨event, hevent, hstep⟩ := Option.bind_eq_some_iff.mp h
  obtain ⟨b', hb', rfl⟩ := Option.map_eq_some_iff.mp hstep
  cases event with
  | act conn action =>
      obtain ⟨handler, hhandler, hact⟩ := Option.bind_eq_some_iff.mp hb'
      refine Or.inl ⟨conn, action, handler, b', hevent, hhandler, hact, ?_⟩
      simp only [observed, hhandler, Option.elim_some]
  | start | stopFlag | stopSessions | stopJoined | accept | clearMessages =>
      exact Or.inr ⟨_, b', hevent, by simp, hb', rfl⟩

variable (d conn handler action) in
theorem logs_note_self :
    (d.note conn handler action).asked conn =
        d.asked conn ++ (d.broker.takesRequest handler action).toList ∧
      (d.note conn handler action).said conn =
        d.said conn ++ (Broker.speaks handler action).toList ∧
      (d.note conn handler action).recorded conn =
        d.recorded conn ++ Broker.records handler action :=
  ⟨Function.update_self .., Function.update_self .., Function.update_self ..⟩

variable (d handler action) in
theorem logs_note_of_ne {other : ConnId} (h : other ≠ conn) :
    (d.note conn handler action).asked other = d.asked other ∧
      (d.note conn handler action).said other = d.said other ∧
      (d.note conn handler action).recorded other = d.recorded other :=
  ⟨Function.update_of_ne h .., Function.update_of_ne h .., Function.update_of_ne h ..⟩

theorem Kept.start (streams : ConnId → Source UInt8) : Kept (start streams) where
  settled := .init
  conversed conn handler hhandler := by cases hhandler
  fresh conn _ := ⟨rfl, rfl, rfl⟩

theorem Kept.step (h : d.Kept) (hstep : d.step moment = some d') : d'.Kept := by
  rcases stepped hstep with ⟨conn, action, handler, b', -, hhandler, hact, rfl⟩ |
    ⟨event, b', -, hother, hb', rfl⟩
  · have hacted := acted (m := .empty) hact
    have hb' : d.broker.step (.act conn action) = some b' := by
      rw [Broker.step_act hhandler, hact]
    refine ⟨h.settled.step hb', fun other next hnext => ?_, fun other hnone => ?_⟩
    · by_cases hown : other = conn
      · subst hown
        obtain ⟨hasked, hsaid, hrecorded⟩ := d.logs_note_self other handler action
        have hbefore := h.conversed other handler hhandler
        dsimp only at hnext ⊢
        rw [hasked, hsaid, hrecorded]
        exact Broker.conversed_act hbefore hact hnext
      · obtain ⟨hasked, hsaid, hrecorded⟩ := d.logs_note_of_ne handler action hown
        dsimp only at hnext ⊢
        rw [hasked, hsaid, hrecorded]
        exact h.conversed other next ((hacted.other hown).symm.trans hnext)
    · obtain ⟨hne, hbefore⟩ := hacted.none_before hnone
      obtain ⟨hasked, hsaid, hrecorded⟩ := d.logs_note_of_ne handler action hne
      dsimp only
      rw [hasked, hsaid, hrecorded]
      exact h.fresh other hbefore
  · refine ⟨h.settled.step hb', fun conn next hnext => ?_, fun conn hnone => ?_⟩
    · rcases Greeting.handlers_after h.settled.1 hb' hother conn with hsame | ⟨hnone, sock, hnew⟩
      · exact h.conversed conn next (hsame.symm.trans hnext)
      · obtain rfl : next = { sock } := Option.some.inj (hnext.symm.trans hnew)
        exact h.fresh conn hnone
    · rcases Greeting.handlers_after h.settled.1 hb' hother conn with hsame | ⟨hbefore, -⟩
      · exact h.fresh conn (hsame.symm.trans hnone)
      · exact h.fresh conn hbefore

end Steps

end Dialogue

/-- Every request is served once, in the order in which the handler takes
them. In every run of any number of handlers, with whatever the clients
send, a handler says its CONNACK, then one SUBACK for each SUBSCRIBE with
its packet identifier and one PINGRESP for each PINGREQ, and records each
PUBLISH, all in the order of the requests; nothing is said or recorded
unasked, and at most the request at hand has yet to be served. -/
theorem served_in_order (streams : ConnId → Source UInt8) (moments : List Moment) :
    Always Dialogue.step Dialogue.InOrder (.start streams) moments :=
  always_of_invariant_along (fun _ _ _ h _ hstep => h.step hstep) (fun _ h => h.conversed)
    (Dialogue.Kept.start streams) (along_of_forall (fun _ _ => trivial) _ moments)

end MockServices.Mqtt
