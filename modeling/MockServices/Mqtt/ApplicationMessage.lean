import MockServices.Foundations.Run
import MockServices.Mqtt.Broker

/-!
# Application messages at the three qualities of service

`ApplicationMessage` is the PUBLISH packet of the protocol: from QoS 1 on
a packet identifier stands between the topic and the payload, and the
header flags tell a receiver whether it is there. The broker reads the
header for the packet type alone, so the identifier stays in the payload.
-/

namespace MockServices.Mqtt

open Foundations Reader

inductive Qos where
  | atMostOnce
  | atLeastOnce
  | exactlyOnce
  deriving DecidableEq

def Qos.code : Qos → UInt8
  | .atMostOnce => 0
  | .atLeastOnce => 1
  | .exactlyOnce => 2

def identifier (packetId : ℕ) : Qos → Bytes
  | .atMostOnce => []
  | .atLeastOnce => [highByte packetId, lowByte packetId]
  | .exactlyOnce => [highByte packetId, lowByte packetId]

def publishBody (topic rest : Bytes) : Bytes :=
  highByte topic.length :: lowByte topic.length :: topic ++ rest

structure ApplicationMessage where
  topic : Bytes
  payload : Bytes
  qos : Qos
  dup : Bool
  retain : Bool
  packetId : ℕ
  topic_pos : 0 < topic.length
  topic_lt : topic.length < 65536
  -- A longer packet has no remaining length.
  fits : (publishBody topic (identifier packetId qos ++ payload)).length < 2 ^ 28

namespace ApplicationMessage

def flags (m : ApplicationMessage) : UInt8 :=
  (if m.dup then 8 else 0 : UInt8) ||| m.qos.code <<< 1 ||| (if m.retain then 1 else 0)

def header (m : ApplicationMessage) : UInt8 := PacketType.publish.code <<< 4 ||| m.flags

def body (m : ApplicationMessage) : Bytes :=
  publishBody m.topic (identifier m.packetId m.qos ++ m.payload)

def packet (m : ApplicationMessage) : Bytes := framePacket m.header m.body

def content (m : ApplicationMessage) : PublishPacket := ⟨m.topic, m.payload⟩

end ApplicationMessage

/-- How a client reads a PUBLISH packet it receives. -/
def receivedMessage (packet : Bytes) : Option PublishPacket :=
  match readPacket.parse packet with
  | some ((header, body), []) =>
      if packetType header ≠ PacketType.publish.code ∨ body.length < 2 + wordAt body 0 then none
      else
        let topic := assign body 2 (wordAt body 0)
        let rest := body.drop (2 + wordAt body 0)
        if (header >>> 1) &&& 3 = 0 then some ⟨topic, rest⟩
        else if rest.length < 2 then none
        else some ⟨topic, rest.drop 2⟩
  | _ => none

theorem publishBody_length (topic rest : Bytes) :
    (publishBody topic rest).length = 2 + topic.length + rest.length := by
  simp only [publishBody, List.cons_append, List.length_cons, List.length_append]
  omega

section Body

variable (topic rest tail : Bytes)

theorem wordAt_publishBody (hlt : topic.length < 65536) :
    wordAt (publishBody topic rest ++ tail) 0 = topic.length := by
  rw [publishBody, List.cons_append, List.cons_append, List.cons_append]
  exact wordAt_bytes hlt _

theorem drop_publishBody :
    (publishBody topic rest ++ tail).drop (2 + topic.length) = rest ++ tail := by
  have hsplit : publishBody topic rest ++ tail =
      highByte topic.length :: lowByte topic.length :: (topic ++ (rest ++ tail)) := by
    simp [publishBody]
  rw [hsplit, Nat.add_comm 2, List.drop_succ_cons, List.drop_succ_cons, List.drop_left]

theorem assign_publishBody : assign (publishBody topic rest ++ tail) 2 topic.length = topic := by
  simp [assign, publishBody]

/-- Whatever stands after the packet in the buffer, the decoder takes all
that follows the topic for the payload. -/
theorem decodePublish_publishBody (hlt : topic.length < 65536) (hpos : 0 < topic.length) :
    decodePublish (publishBody topic rest ++ tail) (publishBody topic rest).length =
      some ⟨topic, rest⟩ := by
  have hpayload :
      assign (publishBody topic rest ++ tail) (2 + topic.length) rest.length = rest := by
    rw [assign, drop_publishBody, List.take_left]
  have hlength := publishBody_length topic rest
  have hrest : (publishBody topic rest).length - (2 + topic.length) = rest.length := by omega
  simp only [decodePublish, wordAt_publishBody _ _ _ hlt]
  rw [if_neg (by omega), if_neg (by omega), if_neg (by omega), assign_publishBody, hrest,
    hpayload]

theorem receivedMessage_framePacket (hlt : topic.length < 65536) (header : UInt8)
    (htype : packetType header = PacketType.publish.code)
    (hfits : (publishBody topic rest).length < 2 ^ 28) :
    receivedMessage (framePacket header (publishBody topic rest)) =
      if (header >>> 1) &&& 3 = 0 then some ⟨topic, rest⟩
      else if rest.length < 2 then none
      else some ⟨topic, rest.drop 2⟩ := by
  have hparse : readPacket.parse (framePacket header (publishBody topic rest)) =
      some ((header, publishBody topic rest), []) :=
    parse_frame (header, publishBody topic rest) hfits
  have hword := wordAt_publishBody topic rest [] hlt
  have hassign := assign_publishBody topic rest []
  have hdrop := drop_publishBody topic rest []
  simp only [List.append_nil] at hword hassign hdrop
  have hlong : ¬ (publishBody topic rest).length < 2 + topic.length := by
    rw [publishBody_length]
    omega
  simp only [receivedMessage, hparse, hword, hassign, hdrop, htype, hlong, ne_eq, not_true_eq_false,
    or_false, if_false]

end Body

namespace ApplicationMessage

theorem packetType_header (m : ApplicationMessage) :
    packetType m.header = PacketType.publish.code := by
  simp only [header, flags]
  cases m.qos <;> cases m.dup <;> cases m.retain <;> decide

theorem header_qos (m : ApplicationMessage) :
    (m.header >>> 1) &&& 3 = 0 ↔ m.qos = .atMostOnce := by
  simp only [header, flags]
  cases m.qos <;> cases m.dup <;> cases m.retain <;> decide

/-- The packet encodes the message: a client reads back what was published. -/
theorem receivedMessage_packet (m : ApplicationMessage) :
    receivedMessage m.packet = some m.content := by
  rw [packet, body, receivedMessage_framePacket _ _ m.topic_lt _ m.packetType_header m.fits]
  by_cases h : m.qos = .atMostOnce
  · rw [if_pos (m.header_qos.mpr h)]
    simp [h, identifier, content]
  · have hidentifier : identifier m.packetId m.qos =
        [highByte m.packetId, lowByte m.packetId] := by
      cases hcase : m.qos with
      | atMostOnce => exact (h hcase).elim
      | atLeastOnce => rfl
      | exactlyOnce => rfl
    rw [if_neg (mt m.header_qos.mp h), hidentifier]
    simp [content]

/-- What the broker takes the packet for. -/
def decoded (m : ApplicationMessage) : PublishPacket :=
  ⟨m.topic, identifier m.packetId m.qos ++ m.payload⟩

theorem decoded_eq_content_iff (m : ApplicationMessage) :
    m.decoded = m.content ↔ m.qos = .atMostOnce := by
  simp only [decoded, content, PublishPacket.mk.injEq, true_and, List.append_left_eq_self]
  cases m.qos <;> simp [identifier]

theorem nextRequest_packet (m : ApplicationMessage) (buffer tail : Bytes) :
    ∃ after, (nextRequest buffer).parse (m.packet ++ tail) =
      some ((.publish (some m.decoded), after), tail) := by
  have hparse := parse_append tail (parse_frame (m.header, m.body) m.fits)
  have hdecode := decodePublish_publishBody m.topic (identifier m.packetId m.qos ++ m.payload)
    ((store buffer [m.header]).drop m.body.length) m.topic_lt m.topic_pos
  refine ⟨store (store buffer [m.header]) m.body, ?_⟩
  have hrequest : request (packetType m.header) (store (store buffer [m.header]) m.body)
      m.body.length = .publish (some m.decoded) := by
    rw [request, m.packetType_header, if_pos rfl]
    exact congrArg Request.publish hdecode
  simp only [nextRequest, parse_bind, packet]
  rw [frame, List.nil_append] at hparse
  rw [hparse, Option.bind_some, parse_pure, hrequest]

theorem receivedMessage_forwarded (m : ApplicationMessage) :
    receivedMessage (encodePublish m.decoded.topic m.decoded.payload) = some m.decoded := by
  rw [encodePublish]
  exact receivedMessage_framePacket _ _ m.topic_lt _ (by decide) m.fits

end ApplicationMessage

/-- A client in the packet loop sends an application message, in pieces
cut anywhere. The broker records one entry and forwards one frame, and
both carry the topic and the payload exactly when the quality of service
is zero. -/
theorem publish_exact_iff (m : ApplicationMessage) (b : Broker) (conn : ConnId) (handler : Handler)
    (source : Source UInt8) (tail : Bytes) (hhandler : b.handlers conn = some handler)
    (hreading : handler.stage = .reading) (hopen : (b.descriptors handler.sock).isSome)
    (hsource : source.contents = m.packet ++ tail) :
    ∃ b₁ b₂ b₃ entry publishFrame targets,
      b.step (.act conn (.receive source)) = some b₁ ∧
      b₁.step (.act conn .record) = some b₂ ∧ b₂.history = b.history ++ [entry] ∧
      b₂.step (.act conn .route) = some b₃ ∧
      (b₃.handlers conn).map Handler.stage = some (.forwarding publishFrame targets) ∧
      (entry = m.content ∧ receivedMessage publishFrame = some m.content ↔
        m.qos = .atMostOnce) := by
  obtain ⟨buffer, hparse⟩ := m.nextRequest_packet handler.buffer tail
  rw [← hsource] at hparse
  obtain ⟨rest, hrun, -⟩ := run_some_iff.mp hparse
  let recorded : Handler := { handler with buffer, stage := .recording m.decoded }
  let routed : Handler := { handler with buffer, stage := .routing m.decoded }
  let b₁ := b.become conn recorded
  let b₂ := { b₁ with history := b₁.history ++ [m.decoded] }.become conn routed
  let publishFrame := encodePublish m.decoded.topic m.decoded.payload
  let b₃ := b₂.become conn
    { routed with stage := .forwarding publishFrame (b₂.targets m.decoded.topic) }
  have hreceive : b.step (.act conn (.receive source)) = some b₁ := by
    simp only [Broker.step_act hhandler, Broker.act, hreading, Broker.incoming, hopen, if_true,
      hrun]
    rfl
  have hrecord : b₁.step (.act conn .record) = some b₂ := by
    rw [Broker.step_act (b.become_handlers_self conn recorded)]
    rfl
  have hroute : b₂.step (.act conn .route) = some b₃ := by
    rw [Broker.step_act (Broker.become_handlers_self _ conn routed)]
    rfl
  refine ⟨b₁, b₂, b₃, m.decoded, publishFrame, b₂.targets m.decoded.topic, hreceive, hrecord, rfl,
    hroute, ?_, ?_⟩
  · rw [Broker.become_handlers_self]
    rfl
  · rw [m.receivedMessage_forwarded, Option.some.injEq, and_self]
    exact m.decoded_eq_content_iff

/-- Topic `t`, payload `p`, QoS 1, packet identifier 1. -/
def acknowledged : ApplicationMessage where
  topic := ascii "t"
  payload := ascii "p"
  qos := .atLeastOnce
  dup := false
  retain := false
  packetId := 1
  topic_pos := by decide
  topic_lt := by decide
  fits := by decide

def acknowledgedSource : Source UInt8 := wholePiece 0x32 [6, 0, 1, 0x74, 0, 1, 0x70]

def connectedBroker : Broker :=
  (run Broker.step {} (.start :: joining 0 4 (ascii "sensor"))).getD {}

theorem publish_exact_iff_acknowledged :
    (connectedBroker.handlers 0).map Handler.stage = some .reading ∧
    ∃ b₁ b₂ b₃ entry publishFrame targets,
      connectedBroker.step (.act 0 (.receive acknowledgedSource)) = some b₁ ∧
      b₁.step (.act 0 .record) = some b₂ ∧ b₂.history = connectedBroker.history ++ [entry] ∧
      b₂.step (.act 0 .route) = some b₃ ∧
      (b₃.handlers 0).map Handler.stage = some (.forwarding publishFrame targets) ∧
      (entry = acknowledged.content ∧ receivedMessage publishFrame = some acknowledged.content ↔
        acknowledged.qos = .atMostOnce) := by
  have hstage : (connectedBroker.handlers 0).map Handler.stage = some .reading := by
    decide +kernel
  obtain ⟨handler, hhandler, hreading⟩ := Option.map_eq_some_iff.mp hstage
  have hopen : ((connectedBroker.handlers 0).map fun h =>
      (connectedBroker.descriptors h.sock).isSome) = some true := by decide +kernel
  rw [hhandler] at hopen
  exact ⟨hstage, publish_exact_iff acknowledged connectedBroker 0 handler acknowledgedSource []
    hhandler hreading (Option.some.inj hopen) (by decide +kernel)⟩

/-- The packet identifier of a QoS 1 message ends up in the history as
the first two bytes of the payload. -/
theorem publish_not_exact :
    ¬ ∀ (m : ApplicationMessage) (events : List Event) (conn : ConnId) (source : Source UInt8)
      (b b₂ : Broker), run Broker.step {} events = some b →
        (b.handlers conn).map Handler.stage = some .reading → source.contents = m.packet →
          run Broker.step b [.act conn (.receive source), .act conn .record] = some b₂ →
            b₂.history = b.history ++ [m.content] := by
  intro h
  have hrun : (run Broker.step {} (.start :: joining 0 4 (ascii "sensor"))).isSome := by
    decide +kernel
  obtain ⟨b, hb⟩ := Option.isSome_iff_exists.mp hrun
  have hconnected : connectedBroker = b := by rw [connectedBroker, hb, Option.getD_some]
  subst hconnected
  have hafter : (run Broker.step connectedBroker
      [.act 0 (.receive acknowledgedSource), .act 0 .record]).map Broker.history =
        some [⟨ascii "t", [0, 1, 0x70]⟩] := by decide +kernel
  obtain ⟨b₂, hb₂, hhistory⟩ := Option.map_eq_some_iff.mp hafter
  have hclaim := h acknowledged _ 0 acknowledgedSource connectedBroker b₂ hb (by decide +kernel)
    (by decide +kernel) hb₂
  rw [hhistory] at hclaim
  exact absurd hclaim (by decide +kernel)

end MockServices.Mqtt
