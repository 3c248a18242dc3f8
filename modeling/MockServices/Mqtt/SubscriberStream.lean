import MockServices.Mqtt.Dialogue
import MockServices.Mqtt.PublishForwarding
import MockServices.Mqtt.SubscribeGrammar
import MockServices.Mqtt.Wire

/-!
# What a client reads

A client reads its connection packet by packet, as the network cuts it. On
a connection whose packets have not been mixed it reads the packets that
the handlers have begun on it, in their order and without the last one
while that is not complete; each is one of the four that the broker knows
to write, and a PUBLISH carries a message that some handler has recorded.
-/

namespace MockServices.Mqtt

open Foundations

/-- The packets that the broker writes. -/
inductive ServerPacket where
  | connack
  | suback (packetId : ℕ) (returnCodes : Bytes)
  | publish (message : PublishPacket)
  | pingresp

namespace ServerPacket

def packet : ServerPacket → Packet
  | .connack => (PacketType.connack.code <<< 4, [0x00, 0x00])
  | .suback packetId returnCodes =>
      (PacketType.suback.code <<< 4, highByte packetId :: lowByte packetId :: returnCodes)
  | .publish message => (PacketType.publish.code <<< 4, publishBody message.topic message.payload)
  | .pingresp => (PacketType.pingresp.code <<< 4, [])

def encode (p : ServerPacket) : Bytes := frame p.packet

/-- The packet is one that its reader gets back. -/
def Fits (p : ServerPacket) : Prop := p.packet.2.length < 2 ^ 28

/-- What a PUBLISH carries. -/
def message : ServerPacket → Option PublishPacket
  | .publish message => some message
  | _ => none

theorem encode_pingresp : encodePingresp = encode .pingresp := by
  rw [encode, frame, framePacket, packet, List.length_nil, encodeRemainingLength]
  rfl

end ServerPacket

/-- The wire, and the messages that have been put in the history. -/
structure Overheard where
  wired : Wired := {}
  recorded : List PublishPacket := []

/-- What a step puts in the history. -/
def Broker.recordedBy (b : Broker) : WireEvent → List PublishPacket
  | .step (.act conn action) _ =>
      (b.handlers conn).elim [] fun handler => Broker.records handler action
  | _ => []

namespace Overheard

def step (o : Overheard) (event : WireEvent) : Option Overheard :=
  (o.wired.step event).map fun wired =>
    { wired, recorded := o.recorded ++ o.wired.broker.recordedBy event }

/-- However `recv` cuts what has been written to the connection, its reader
gets all packets that have been begun there, or all but the last one, and
what it finds in a PUBLISH has been recorded. -/
def ReadsBack (o : Overheard) (conn : ConnId) : Prop :=
  ∃ whole last : List ServerPacket, last.length ≤ 1 ∧
    (o.wired.outlets.outlet conn).begun = (whole ++ last).map ServerPacket.encode ∧
    (∀ source : Source UInt8, source.contents = (o.wired.outlets.outlet conn).written →
      readPackets source = whole.map ServerPacket.packet) ∧
    ∀ message, .publish message ∈ whole → message ∈ o.recorded ∧
      receivedMessage (ServerPacket.publish message).encode = some message

end Overheard

/-! ## What the handlers carry -/

/-- A message that gets through. -/
def PublishPacket.Deliverable (packet : PublishPacket) : Prop :=
  0 < packet.topic.length ∧ packet.topic.length < 65536 ∧
    (publishBody packet.topic packet.payload).length < 2 ^ 28

/-- The packet gets through, and a message in it has been recorded. -/
structure ServerPacket.Sound (recorded : List PublishPacket) (p : ServerPacket) : Prop where
  fits : p.Fits
  recorded : ∀ message, p = .publish message → message ∈ recorded ∧ message.Deliverable

/-- What the handler carries on its way comes from a packet that was read. -/
def Stage.Carries (recorded : List PublishPacket) : Stage → Prop
  | .recording packet => packet.Deliverable
  | .routing packet => packet.Deliverable ∧ packet ∈ recorded
  | .forwarding publishFrame _ => ∃ message ∈ recorded, message.Deliverable ∧
      publishFrame = encodePublish message.topic message.payload
  | .subscribing packet => packet.filters.length + 2 < 2 ^ 28
  | .suback _ returnCodes => returnCodes.length + 2 < 2 ^ 28
  | _ => True

section Carrying

variable {recorded more : List PublishPacket}

theorem ServerPacket.Sound.mono {p : ServerPacket} (h : p.Sound recorded) :
    p.Sound (recorded ++ more) :=
  ⟨h.fits, fun message heq =>
    ⟨List.mem_append_left _ (h.recorded message heq).1, (h.recorded message heq).2⟩⟩

theorem Stage.Carries.mono {stage : Stage} (h : stage.Carries recorded) :
    stage.Carries (recorded ++ more) := by
  cases stage
  case routing packet => exact ⟨h.1, List.mem_append_left _ h.2⟩
  case forwarding publishFrame targets =>
      obtain ⟨message, hmem, hdeliverable⟩ := h
      exact ⟨message, List.mem_append_left _ hmem, hdeliverable⟩
  all_goals exact h

theorem deliverable_of_decode {body : Bytes} {packet : PublishPacket}
    (hlength : body.length < 2 ^ 28) (h : decodePublish body body.length = some packet) :
    packet.Deliverable := by
  obtain ⟨hbody, hpos, hlt⟩ := decodePublish_eq_some_iff.mp h
  exact ⟨hpos, hlt, hbody ▸ hlength⟩

theorem entries_length {data : Bytes} {filters : List (Bytes × UInt8)}
    (h : SubscribeEntries data filters) : filters.length ≤ data.length := by
  induction h with
  | nil => exact Nat.le_refl 0
  | cons hlength qos h ih =>
      simp only [List.length_cons, List.length_append, List.cons_append]
      omega

theorem filters_of_decode {body : Bytes} {packet : SubscribePacket}
    (hlength : body.length < 2 ^ 28) (h : decodeSubscribe body body.length = some packet) :
    packet.filters.length + 2 < 2 ^ 28 := by
  obtain ⟨high, low, entries, rfl, -, hentries⟩ := decodeSubscribe_iff.mp h
  have hle := entries_length hentries
  simp only [List.length_cons] at hlength
  omega

/-- Where the handler goes with a packet that it has read. -/
theorem carries_afterRequest {header : UInt8} {body : Bytes} (hlength : body.length < 2 ^ 28) :
    (Broker.afterRequest (request header body body.length)).Carries recorded := by
  unfold request
  split
  · cases h : decodePublish body body.length with
    | none => trivial
    | some packet => exact deliverable_of_decode hlength h
  · split
    · cases h : decodeSubscribe body body.length with
      | none => trivial
      | some packet => exact filters_of_decode hlength h
    · split
      · trivial
      · split <;> trivial

/-- The `send_all` that a handler is in writes one of the packets. -/
theorem sending_sound {handler : Handler} {sock : RawSocket} {packet : Bytes}
    (h : handler.stage.Carries recorded) (hsending : handler.sending = some (sock, packet)) :
    ∃ p : ServerPacket, p.Sound recorded ∧ p.encode = packet := by
  unfold Handler.sending at hsending
  split at hsending
  · cases hsending
    have hfits : ServerPacket.connack.Fits := by
      rw [ServerPacket.Fits]
      decide
    exact ⟨.connack, ⟨hfits, nofun⟩, rfl⟩
  · next publishFrame target rest hstage =>
      cases hsending
      rw [hstage] at h
      obtain ⟨message, hmem, hdeliverable, rfl⟩ := h
      refine ⟨.publish message, ⟨hdeliverable.2.2, ?_⟩, rfl⟩
      rintro other heq
      cases heq
      exact ⟨hmem, hdeliverable⟩
  · next packetId returnCodes hstage =>
      cases hsending
      rw [hstage] at h
      exact ⟨.suback packetId returnCodes, ⟨h, nofun⟩, rfl⟩
  · cases hsending
    exact ⟨.pingresp, ⟨Nat.two_pow_pos 28, nofun⟩, ServerPacket.encode_pingresp.symm⟩
  · cases hsending

end Carrying

namespace Broker

variable {b b' : Broker} {conn : ConnId} {handler next : Handler} {action : Action}
  {recorded : List PublishPacket}

/-- The step lemma of the handlers. -/
theorem carries_act (h : handler.stage.Carries recorded)
    (hact : b.act conn handler action = some b') (hnext : b'.handlers conn = some next) :
    next.stage.Carries (recorded ++ records handler action) := by
  unfold act at hact
  split at hact
  case h_1 =>
      split at hact <;> obtain rfl := next_of_become hact hnext <;> trivial
  case h_3 | h_4 =>
      split at hact <;> obtain rfl := next_of_become hact hnext <;> trivial
  case h_5 source hstage =>
      rw [run_nextRequest] at hact
      cases hread : readPacket.run (b.incoming handler.sock source) with
      | none =>
          rw [hread] at hact
          obtain rfl := next_of_become hact hnext
          trivial
      | some got =>
          obtain ⟨⟨header, body⟩, rest⟩ := got
          have hlength : body.length < 2 ^ 28 :=
            readPacket_length (Reader.run_some_iff.mpr ⟨rest, hread, rfl⟩)
          rw [hread, Option.map_some] at hact
          obtain rfl := next_of_become hact hnext
          exact carries_afterRequest hlength
  case h_6 packet hstage =>
      rw [hstage] at h
      obtain rfl := next_of_become hact hnext
      have hrecords : records handler .record = [packet] := by simp only [records, hstage]
      rw [hrecords]
      exact ⟨h, List.mem_append_right _ (List.mem_singleton_self packet)⟩
  case h_7 packet hstage =>
      rw [hstage] at h
      obtain rfl := next_of_become hact hnext
      exact ⟨packet, List.mem_append_left _ h.2, h.1, rfl⟩
  case h_8 publishFrame target targets hstage =>
      rw [hstage] at h
      obtain rfl := next_of_become hact hnext
      obtain ⟨message, hmem, hdeliverable⟩ := h
      exact ⟨message, List.mem_append_left _ hmem, hdeliverable⟩
  case h_10 packet hstage =>
      rw [hstage] at h
      obtain rfl := next_of_become hact hnext
      change (b.addFilters handler.clientId packet).2.length + 2 < 2 ^ 28
      rcases addFilters_codes (b := b) handler.clientId packet with hcodes | hcodes
      · rw [hcodes]
        exact Nat.lt_of_le_of_lt (Nat.le_add_left 2 _) h
      · rwa [hcodes, List.length_map]
  case h_17 => cases hact
  all_goals
    obtain rfl := next_of_become hact hnext
    trivial

end Broker

/-! ## What the connections carry -/

namespace Overheard

/-- The packets begun on a connection are packets of the broker. -/
def Begun (recorded : List PublishPacket) (o : Outlet UInt8) : Prop :=
  ∃ said : List ServerPacket, o.begun = said.map ServerPacket.encode ∧
    ∀ p ∈ said, p.Sound recorded

structure Sound (o : Overheard) : Prop where
  settled : o.wired.broker.Settled
  carries : ∀ conn handler, o.wired.broker.handlers conn = some handler →
    handler.stage.Carries o.recorded
  begun : ∀ conn, Begun o.recorded (o.wired.outlets.outlet conn)

variable {o o' : Overheard} {event : WireEvent}

theorem Begun.mono {recorded more : List PublishPacket} {outlet : Outlet UInt8}
    (h : Begun recorded outlet) : Begun (recorded ++ more) outlet := by
  obtain ⟨said, hbegun, hsound⟩ := h
  exact ⟨said, hbegun, fun p hp => (hsound p hp).mono⟩

theorem sound_initial : Sound {} where
  settled := .init
  carries conn handler hhandler := by cases hhandler
  begun conn := ⟨[], rfl, List.forall_mem_nil _⟩

/-- A call of `send` is given what its handler is in the middle of. -/
theorem sending_of_call {w : Wired} {c : SendCall} (hcall : w.call event = some c) :
    ∃ sock, (w.broker.handlers c.conn).bind Handler.sending = some (sock, c.packet) := by
  unfold Wired.call at hcall
  split at hcall
  · next conn count =>
      obtain ⟨⟨sock, packet⟩, hsending, hrest⟩ := Option.bind_eq_some_iff.mp hcall
      obtain ⟨dest, -, hrest⟩ := Option.bind_eq_some_iff.mp hrest
      obtain ⟨-, hc⟩ := Option.ite_none_right_eq_some.mp hrest
      cases hc
      exact ⟨sock, hsending⟩
  · next conn action =>
      obtain ⟨⟨sock, packet⟩, hsending, hrest⟩ := Option.bind_eq_some_iff.mp hcall
      obtain ⟨dest, -, hc⟩ := Option.bind_eq_some_iff.mp hrest
      cases hc
      exact ⟨sock, hsending⟩
  · cases hcall

/-- A call of `send` begins its packet, or goes on with it. -/
theorem Sound.begun_write (h : o.Sound) {c : SendCall} (hcall : o.wired.call event = some c)
    (conn : ConnId) : Begun o.recorded ((o.wired.write c).outlet conn) := by
  obtain ⟨sock, hsending⟩ := sending_of_call hcall
  obtain ⟨handler, hhandler, hsending⟩ := Option.bind_eq_some_iff.mp hsending
  obtain ⟨p, hp, hpacket⟩ := sending_sound (h.carries c.conn handler hhandler) hsending
  obtain ⟨said, hbegun, hsaid⟩ := h.begun conn
  by_cases hconn : conn = c.dest
  · subst hconn
    have hwrite : ((o.wired.write c).outlet c.dest).begun =
        (o.wired.outlets.outlet c.dest).begun ++
          if (o.wired.outlets.progress c.conn).isNone then [c.packet] else [] :=
      congrArg Outlet.begun Outlets.write_outlet_self
    by_cases hnew : (o.wired.outlets.progress c.conn).isNone = true
    · rw [if_pos hnew, hbegun, ← hpacket] at hwrite
      refine ⟨said ++ [p], by rw [hwrite, List.map_append]; rfl, fun q hq => ?_⟩
      rcases List.mem_append.mp hq with hq | hq
      · exact hsaid q hq
      · exact List.mem_singleton.mp hq ▸ hp
    · rw [if_neg hnew, hbegun, List.append_nil] at hwrite
      exact ⟨said, hwrite, hsaid⟩
  · have hsame : (o.wired.write c).outlet conn = o.wired.outlets.outlet conn :=
      Outlets.write_outlet_of_ne hconn
    rw [hsame]
    exact ⟨said, hbegun, hsaid⟩

/-- The handlers after a step of the broker carry what they should. -/
theorem Sound.carries_step (h : o.Sound) {brokerEvent : Event} {b' : Broker} {sent : Bool}
    (hstep : o.wired.broker.step brokerEvent = some b') {conn : ConnId} {next : Handler}
    (hnext : b'.handlers conn = some next) :
    next.stage.Carries (o.recorded ++ o.wired.broker.recordedBy (.step brokerEvent sent)) := by
  by_cases hact : ∃ actor action, brokerEvent = .act actor action
  · obtain ⟨actor, action, rfl⟩ := hact
    obtain ⟨handler, hhandler, hact⟩ := Option.bind_eq_some_iff.mp hstep
    by_cases hown : conn = actor
    · subst hown
      have hrecorded : o.wired.broker.recordedBy (.step (.act conn action) sent) =
          Broker.records handler action := by
        rw [Broker.recordedBy, hhandler]
        rfl
      rw [hrecorded]
      exact Broker.carries_act (h.carries conn handler hhandler) hact hnext
    · have hsame := (acted (m := .empty) hact).other hown
      exact (h.carries conn next (hsame.symm.trans hnext)).mono
  · have hother : ∀ actor action, brokerEvent ≠ .act actor action :=
      fun actor action heq => hact ⟨actor, action, heq⟩
    rcases Greeting.handlers_after h.settled.1 hstep hother conn with hsame | ⟨-, sock, hnew⟩
    · exact (h.carries conn next (hsame.symm.trans hnext)).mono
    · obtain rfl : next = { sock } := Option.some.inj (hnext.symm.trans hnew)
      trivial

/-- The step lemma. -/
theorem Sound.step (h : o.Sound) (hstep : o.step event = some o') : o'.Sound := by
  obtain ⟨wired, hwired, rfl⟩ := Option.map_eq_some_iff.mp hstep
  cases event with
  | sendPart conn count =>
      obtain ⟨c, hcall, rfl⟩ := Option.map_eq_some_iff.mp hwired
      exact {
        settled := h.settled
        carries := fun conn handler hhandler => (h.carries conn handler hhandler).mono
        begun := fun conn => (h.begun_write hcall conn).mono }
  | step event sent =>
      obtain ⟨-, hwired⟩ := Option.ite_none_right_eq_some.mp hwired
      obtain ⟨b', hb', rfl⟩ := Option.map_eq_some_iff.mp hwired
      refine ⟨h.settled.step hb', fun conn next hnext => h.carries_step hb' hnext, fun conn => ?_⟩
      refine Begun.mono ?_
      change Begun o.recorded ((o.wired.outletsAfter event sent).outlet conn)
      unfold Wired.outletsAfter
      split
      · next hcall => exact h.begun_write hcall conn
      · exact h.begun conn
      · exact h.begun conn

/-- Packets that are there one after the other, but for a last one, are read. -/
theorem read_of_framed {outlet : Outlet UInt8} {said : List ServerPacket}
    (hbegun : outlet.begun = said.map ServerPacket.encode) (hfits : ∀ p ∈ said, p.Fits)
    (hframed : outlet.Framed) :
    ∃ whole last, last.length ≤ 1 ∧ said = whole ++ last ∧
      ∀ source : Source UInt8, source.contents = outlet.written →
        readPackets source = whole.map ServerPacket.packet := by
  have hread : ∀ (whole : List ServerPacket) (cut : Bytes), (∀ p ∈ whole, p.Fits) →
      readPacket.parse cut = none →
      outlet.written = whole.flatMap ServerPacket.encode ++ cut →
      ∀ source : Source UInt8, source.contents = outlet.written →
        readPackets source = whole.map ServerPacket.packet := by
    intro whole cut hwhole hcut hwritten source hsource
    have hwords : ∀ packet ∈ whole.map ServerPacket.packet,
        readPacket.parse (frame packet) = some (packet, []) := by
      intro packet hpacket
      obtain ⟨p, hp, rfl⟩ := List.mem_map.mp hpacket
      exact parse_frame p.packet (hwhole p hp)
    apply Reader.readAll_words readPacket_progresses hwords hcut
    rw [hsource, hwritten, List.flatMap_map]
    rfl
  obtain ⟨hfront, hall⟩ := hframed
  rw [hbegun] at hfront hall
  rcases List.eq_nil_or_concat said with rfl | ⟨front, p, rfl⟩
  · have hnil : outlet.written = [] := List.prefix_nil.mp hall
    exact ⟨[], [], Nat.zero_le 1, rfl, hread [] [] hfits rfl hnil⟩
  · rw [List.concat_eq_append] at hfits hfront hall ⊢
    rw [List.map_append, List.map_singleton, List.dropLast_concat] at hfront
    rw [List.map_append, List.map_singleton, List.flatten_append, List.flatten_singleton] at hall
    obtain ⟨cut, hcut⟩ := hfront
    rw [← hcut] at hall
    obtain ⟨more, hmore⟩ := (List.prefix_append_right_inj _).mp hall
    rw [← List.flatMap_def] at hcut
    by_cases hwhole : more = []
    · rw [hwhole, List.append_nil] at hmore
      refine ⟨front ++ [p], [], Nat.zero_le 1, (List.append_nil _).symm, ?_⟩
      refine hread (front ++ [p]) [] hfits rfl ?_
      rw [← hcut, hmore, List.flatMap_append, List.append_nil]
      simp
    · refine ⟨front, [p], Nat.le_refl 1, rfl, hread front cut ?_ ?_ hcut.symm⟩
      · exact fun q hq => hfits q (List.mem_append_left _ hq)
      · have hp := hfits p (List.mem_append_right _ (List.mem_singleton_self p))
        exact Reader.parse_cut (parse_frame p.packet hp) hmore.symm hwhole

/-- A client finds in a PUBLISH what was published. -/
theorem received_publish {message : PublishPacket} (h : message.Deliverable) :
    receivedMessage (ServerPacket.publish message).encode = some message :=
  receivedMessage_framePacket message.topic message.payload h.2.1
    (PacketType.publish.code <<< 4) (by decide) h.2.2

theorem Sound.readsBack (h : o.Sound) {conn : ConnId}
    (hframed : (o.wired.outlets.outlet conn).Framed) : o.ReadsBack conn := by
  obtain ⟨said, hbegun, hsaid⟩ := h.begun conn
  obtain ⟨whole, last, hlast, rfl, hread⟩ :=
    read_of_framed hbegun (fun p hp => (hsaid p hp).fits) hframed
  refine ⟨whole, last, hlast, hbegun, hread, fun message hmem => ?_⟩
  obtain ⟨hrecorded, hdeliverable⟩ :=
    (hsaid _ (List.mem_append_left _ hmem)).recorded message rfl
  exact ⟨hrecorded, received_publish hdeliverable⟩

end Overheard

/-- What the broker writes can be read. In every run of handlers, `send`s
that take parts and `recv`s that cut, the client of a connection on which
no packets have been mixed reads the packets begun there, in order and all
of them but a last one that is not complete; they are CONNACKs, SUBACKs,
PINGRESPs and PUBLISHes, and each PUBLISH carries a message that has been
put in the history before. -/
theorem server_packets_read_back (events : List WireEvent) :
    Always Overheard.step
      (fun o => ∀ conn, (o.wired.outlets.outlet conn).Framed → o.ReadsBack conn) {} events :=
  always_of_invariant_along (fun _ _ _ h _ hstep => h.step hstep)
    (fun _ h _ => h.readsBack) Overheard.sound_initial
    (along_of_forall (fun _ _ => trivial) _ events)

end MockServices.Mqtt
