import MockServices.Mqtt.ApplicationMessage
import MockServices.Mqtt.Dialogue
import MockServices.Mqtt.SubscribeGrammar

/-!
# What a client sends is what the broker hears

A client sends a CONNECT and then PUBLISH, SUBSCRIBE, PINGREQ and
DISCONNECT packets. They arrive in pieces, perhaps not all of them. The
handler takes the requests that the client has made, in their order, as
long as its descriptor denotes its connection and nobody else reads there.
-/

namespace MockServices.Mqtt

open Foundations Foundations.Reader

/-! ## CONNECT -/

/-- The client id stands behind the name, the level, the flags and the keep
alive; the will, the user name and the password follow. -/
def connectBody (packet : ConnectPacket) (more : Bytes) : Bytes :=
  [0, 4] ++ ascii "MQTT" ++ [4, packet.flags, highByte packet.keepalive, lowByte packet.keepalive,
    highByte packet.clientId.length, lowByte packet.clientId.length] ++ packet.clientId ++ more

section Connect

variable {packet : ConnectPacket} {more data : Bytes}

theorem connectBody_length (packet : ConnectPacket) (more : Bytes) :
    (connectBody packet more).length = 12 + packet.clientId.length + more.length := by
  have hname : (ascii "MQTT").length = 4 := by decide
  simp only [connectBody, List.length_append, List.length_cons, List.length_nil, hname]

/-- What the decoder looks at, where it stands. -/
theorem connectBody_fields (packet : ConnectPacket) (more : Bytes)
    (hid : packet.clientId.length < 65536) (hkeepalive : packet.keepalive < 65536) :
    wordAt (connectBody packet more) 0 = 4 ∧
      assign (connectBody packet more) 2 4 = ascii "MQTT" ∧
      byteAt (connectBody packet more) 6 = 4 ∧ byteAt (connectBody packet more) 7 = packet.flags ∧
      wordAt (connectBody packet more) 8 = packet.keepalive ∧
      wordAt (connectBody packet more) 10 = packet.clientId.length ∧
      assign (connectBody packet more) 12 packet.clientId.length = packet.clientId := by
  have hname : ascii "MQTT" = [77, 81, 84, 84] := by decide
  have hbody : connectBody packet more = 0 :: 4 :: 77 :: 81 :: 84 :: 84 :: 4 :: packet.flags ::
      highByte packet.keepalive :: lowByte packet.keepalive ::
      highByte packet.clientId.length :: lowByte packet.clientId.length ::
      (packet.clientId ++ more) := by
    rw [connectBody, hname]
    simp only [List.cons_append, List.nil_append]
  rw [hbody]
  refine ⟨?_, hname.symm, rfl, rfl, ?_, ?_, ?_⟩
  · simp [wordAt, byteAt]
  · exact wordAt_bytes hkeepalive []
  · exact wordAt_bytes hid []
  · simp [assign]

theorem decodeConnect_connectBody (packet : ConnectPacket) (more : Bytes)
    (hid : packet.clientId.length < 65536) (hkeepalive : packet.keepalive < 65536) :
    decodeConnect (connectBody packet more) (connectBody packet more).length = some packet := by
  obtain ⟨hlength, hname, hlevel, hflags, halive, hidLength, hclient⟩ :=
    connectBody_fields packet more hid hkeepalive
  have hsize := connectBody_length packet more
  rw [decodeConnect, if_neg (by omega), if_neg (by simp [hlength, hname]),
    if_neg (by simp [hlevel]), if_neg (by omega), hidLength, if_neg (by omega), hclient, halive,
    hflags]

/-- The bytes before the client id, by what they are. -/
structure ConnectHead (data : Bytes) (nameHigh nameLow level flags aliveHigh aliveLow idHigh
    idLow : UInt8) (name rest : Bytes) : Prop where
  bytes : data = nameHigh :: nameLow :: name ++ level :: flags :: aliveHigh :: aliveLow ::
    idHigh :: idLow :: rest
  name : name.length = 4

theorem ConnectHead.fields {nameHigh nameLow level flags aliveHigh aliveLow idHigh idLow : UInt8}
    {name rest : Bytes}
    (h : ConnectHead data nameHigh nameLow level flags aliveHigh aliveLow idHigh idLow name rest) :
    wordAt data 0 = nameHigh.toNat * 256 + nameLow.toNat ∧ assign data 2 4 = name ∧
      byteAt data 6 = level ∧ byteAt data 7 = flags ∧
      wordAt data 8 = aliveHigh.toNat * 256 + aliveLow.toNat ∧
      wordAt data 10 = idHigh.toNat * 256 + idLow.toNat ∧ data.drop 12 = rest ∧
      data.length = 12 + rest.length := by
  obtain ⟨rfl, hname⟩ := h
  obtain ⟨m, q, t, t', rfl⟩ : ∃ m q t t', name = [m, q, t, t'] := by
    rcases name with _ | ⟨m, _ | ⟨q, _ | ⟨t, _ | ⟨t', _ | ⟨other, more⟩⟩⟩⟩⟩
    case cons.cons.cons.cons.nil => exact ⟨m, q, t, t', rfl⟩
    all_goals
      simp at hname
  refine ⟨rfl, rfl, rfl, rfl, rfl, rfl, rfl, ?_⟩
  simp only [List.length_append, List.length_cons, List.length_nil]
  omega

theorem exists_connectHead (data : Bytes) (h : 12 ≤ data.length) :
    ∃ nameHigh nameLow level flags aliveHigh aliveLow idHigh idLow name rest,
      ConnectHead data nameHigh nameLow level flags aliveHigh aliveLow idHigh idLow name rest := by
  rcases data with _ | ⟨nameHigh, _ | ⟨nameLow, _ | ⟨m, _ | ⟨q, _ | ⟨t, _ | ⟨t', _ | ⟨level, _ |
    ⟨flags, _ | ⟨aliveHigh, _ | ⟨aliveLow, _ | ⟨idHigh, _ | ⟨idLow, rest⟩⟩⟩⟩⟩⟩⟩⟩⟩⟩⟩⟩
  case cons.cons.cons.cons.cons.cons.cons.cons.cons.cons.cons.cons =>
    exact ⟨nameHigh, nameLow, level, flags, aliveHigh, aliveLow, idHigh, idLow, [m, q, t, t'],
      rest, rfl, rfl⟩
  all_goals
    simp at h

/-- A CONNECT is accepted when it is one of level 4 with a whole client id. -/
theorem decodeConnect_iff : decodeConnect data data.length = some packet ↔
    packet.clientId.length < 65536 ∧ packet.keepalive < 65536 ∧
      ∃ more, data = connectBody packet more := by
  constructor
  · intro h
    rw [decodeConnect] at h
    split_ifs at h with hshort hname hlevel hhead hid
    rw [not_or, not_not, not_not] at hname
    rw [not_not] at hlevel
    cases h
    obtain ⟨nameHigh, nameLow, level, flags, aliveHigh, aliveLow, idHigh, idLow, name, rest,
      hdata⟩ := exists_connectHead data (by omega)
    obtain ⟨hlength, htext, hfour, hflags, halive, hidLength, hrest, hsize⟩ := hdata.fields
    rw [hlength] at hname
    have hhigh : nameHigh = 0 := by
      rw [← highByte_word nameHigh nameLow, hname.1]
      decide
    have hlow : nameLow = 4 := by
      rw [← lowByte_word nameHigh nameLow, hname.1]
      decide
    have hlevel : level = 4 := by
      rw [← hfour]
      exact hlevel
    have hmqtt : ascii "MQTT" = name := by rw [← hname.2, htext]
    have hassign : assign data 12 (wordAt data 10) = rest.take (wordAt data 10) := by
      rw [assign, hrest]
    have hclient : (assign data 12 (wordAt data 10)).length =
        idHigh.toNat * 256 + idLow.toNat := by
      rw [hassign, List.length_take_of_le (by omega), hidLength]
    obtain ⟨hidHigh, hidLow⟩ := bytes_of_length hclient
    have hid : (assign data 12 (wordAt data 10)).length < 65536 := by
      rw [hclient]
      exact word_lt idHigh idLow
    have hkeepalive : wordAt data 8 < 65536 := by
      rw [halive]
      exact word_lt aliveHigh aliveLow
    have hbody : connectBody ⟨assign data 12 (wordAt data 10), wordAt data 8, byteAt data 7⟩
        (rest.drop (wordAt data 10)) = nameHigh :: nameLow :: name ++ level :: flags ::
          aliveHigh :: aliveLow :: idHigh :: idLow :: rest := by
      rw [connectBody, hidHigh, hidLow, halive, highByte_word, lowByte_word, hflags, hassign,
        hmqtt, hhigh, hlow, hlevel]
      simp only [List.append_assoc, List.cons_append, List.nil_append, List.take_append_drop]
    exact ⟨hid, hkeepalive, rest.drop (wordAt data 10), hdata.bytes.trans hbody.symm⟩
  · rintro ⟨hid, hkeepalive, more, rfl⟩
    exact decodeConnect_connectBody packet more hid hkeepalive

end Connect

/-- A CONNECT that a client can send. -/
structure ClientConnect where
  packet : ConnectPacket
  more : Bytes
  clientId_lt : packet.clientId.length < 65536
  keepalive_lt : packet.keepalive < 65536
  fits : (connectBody packet more).length < 2 ^ 28

def ClientConnect.encode (connect : ClientConnect) : Bytes :=
  framePacket (PacketType.connect.code <<< 4) (connectBody connect.packet connect.more)

theorem parse_readConnect (connect : ClientConnect) (tail : Bytes) :
    readConnect.parse (connect.encode ++ tail) = some (connect.packet, tail) := by
  have htype : packetType (PacketType.connect.code <<< 4) = PacketType.connect.code := by decide
  have hlength := parse_remainingLength (connectBody connect.packet connect.more ++ tail)
    connect.fits
  have hdecode := decodeConnect_connectBody connect.packet connect.more connect.clientId_lt
    connect.keepalive_lt
  simp only [readConnect, ClientConnect.encode, framePacket, List.cons_append, List.append_assoc,
    parse_bind, parse_recvByte_cons, Option.bind_some, hlength, htype, ne_eq, not_true_eq_false,
    if_false, parse_recvExact, List.length_append, Nat.le_add_right, if_true, List.take_left,
    List.drop_left, hdecode, parse_pure]

/-- The CONNECT packets that are accepted, and what they carry; the will, the
user name and the password are not looked at. On the wire a CONNECT is read
back however it is cut, and nothing behind it is taken. -/
theorem connect_grammar :
    (∀ data packet, decodeConnect data data.length = some packet ↔
      packet.clientId.length < 65536 ∧ packet.keepalive < 65536 ∧
        ∃ more, data = connectBody packet more) ∧
    ∀ (connect : ClientConnect) (source : Source UInt8) (tail : Bytes),
      source.contents = connect.encode ++ tail →
        ∃ rest, readConnect.run source = some (connect.packet, rest) ∧ rest.contents = tail := by
  refine ⟨fun data packet => decodeConnect_iff, fun connect source tail hsource => ?_⟩
  apply run_some_iff.mp
  rw [hsource, parse_readConnect]

/-! ## The packets of the loop -/

/-- A SUBSCRIBE that a client can send. -/
structure Subscription where
  packetId : ℕ
  filters : List (Bytes × UInt8)
  packetId_lt : packetId < 65536
  filters_le : ∀ entry ∈ filters, entry.1.length ≤ 65535
  fits : (subscribeBody packetId filters).length < 2 ^ 28

inductive ClientPacket where
  | publish (message : ApplicationMessage)
  | subscribe (subscription : Subscription)
  | pingreq
  | disconnect

namespace ClientPacket

def packet : ClientPacket → Packet
  | .publish message => (message.header, message.body)
  | .subscribe subscription => (PacketType.subscribe.code <<< 4 ||| 0x02,
      subscribeBody subscription.packetId subscription.filters)
  | .pingreq => (PacketType.pingreq.code <<< 4, [])
  | .disconnect => (PacketType.disconnect.code <<< 4, [])

def encode (p : ClientPacket) : Bytes := frame p.packet

def request : ClientPacket → Request
  | .publish message => .publish (some message.decoded)
  | .subscribe subscription =>
      .subscribe (some ⟨subscription.packetId, subscription.filters⟩)
  | .pingreq => .pingreq
  | .disconnect => .disconnect

theorem fits (p : ClientPacket) : p.packet.2.length < 2 ^ 28 := by
  cases p with
  | publish message => exact message.fits
  | subscribe subscription => exact subscription.fits
  | pingreq | disconnect => exact Nat.two_pow_pos 28

/-- The switch of the loop tells the packets apart. -/
theorem request_packet (p : ClientPacket) :
    Mqtt.request (packetType p.packet.1) p.packet.2 p.packet.2.length = p.request := by
  cases p with
  | publish message =>
      have hdecode := decodePublish_publishBody message.topic
        (identifier message.packetId message.qos ++ message.payload) [] message.topic_lt
        message.topic_pos
      rw [List.append_nil] at hdecode
      rw [packet, Mqtt.request, message.packetType_header, if_pos rfl]
      exact congrArg Request.publish hdecode
  | subscribe subscription =>
      have hdecode := decodeSubscribe_iff.mpr
        (subscribeGrammar_body subscription.packetId_lt subscription.filters_le)
      have htype : packetType (PacketType.subscribe.code <<< 4 ||| 0x02) =
          PacketType.subscribe.code := by decide
      rw [packet, htype, Mqtt.request, if_neg (by decide), if_pos rfl]
      exact congrArg Request.subscribe hdecode
  | pingreq | disconnect => decide

theorem parse_encode (p : ClientPacket) : readPacket.parse p.encode = some (p.packet, []) :=
  parse_frame p.packet p.fits

end ClientPacket

/-! ## What a handler has heard of its client -/

/-- A client, and what of its packets arrives before the connection ends. -/
structure Client where
  connect : ClientConnect
  packets : List ClientPacket
  source : Source UInt8
  sent : source.contents <+: connect.encode ++ packets.flatMap ClientPacket.encode

/-- The client id under which the handler serves the client. -/
def Client.Identified (client : Client) (clientId : Bytes) : Prop :=
  if client.connect.packet.clientId = [] then ∃ address, clientId = anonymousId address
  else clientId = client.connect.packet.clientId

/-- The requests taken are the first of the client, and the rest may yet come. -/
def Client.Followed (client : Client) (source : Source UInt8) (asked : List Request) : Prop :=
  ∃ taken rest, client.packets = taken ++ rest ∧ asked = taken.map ClientPacket.request ∧
    source.contents <+: rest.flatMap ClientPacket.encode

/-- The handler has read its CONNECT and has not left its client. -/
def Stage.identified : Stage → Bool
  | .handshake | .closing | .done => false
  | _ => true

/-- How far the handler has come with its client. -/
structure Client.Heard (client : Client) (source : Source UInt8) (asked : List Request)
    (handler : Handler) : Prop where
  fresh : handler.stage = .handshake → source = client.source ∧ asked = []
  following : handler.stage.identified = true →
    client.Identified handler.clientId ∧ client.Followed source asked
  asked_prefix : asked <+: client.packets.map ClientPacket.request

section Heard

variable {client : Client} {source : Source UInt8} {asked : List Request} {handler : Handler}

theorem Client.Followed.asked_prefix (h : client.Followed source asked) :
    asked <+: client.packets.map ClientPacket.request := by
  obtain ⟨taken, rest, hpackets, rfl, -⟩ := h
  rw [hpackets, List.map_append]
  exact List.prefix_append _ _

/-- One more request of the client, or none. -/
theorem Client.Followed.take (h : client.Followed source asked) (buffer : Bytes) :
    (nextRequest buffer).run source = none ∨ ∃ request after rest,
      (nextRequest buffer).run source = some ((request, after), rest) ∧
        client.Followed rest (asked ++ [request]) := by
  obtain ⟨taken, rest, hpackets, rfl, hprefix⟩ := h
  cases rest with
  | nil =>
      have hempty : source.contents = [] := List.prefix_nil.mp hprefix
      have hnone : readPacket.run source = none := run_none_iff.mpr (by rw [hempty]; rfl)
      exact Or.inl (by rw [run_nextRequest, hnone, Option.map_none])
  | cons p rest =>
      rw [List.flatMap_cons] at hprefix
      rcases run_word p.parse_encode hprefix with hnone | ⟨after, hrun, hafter⟩
      · exact Or.inl (by rw [run_nextRequest, hnone, Option.map_none])
      · refine Or.inr ⟨p.request, store (store buffer [p.packet.1]) p.packet.2, after, ?_, ?_⟩
        · rw [run_nextRequest, hrun, Option.map_some, p.request_packet]
        · refine ⟨taken ++ [p], rest, ?_, ?_, hafter⟩
          · rw [hpackets, List.append_assoc, List.singleton_append]
          · rw [List.map_append, List.map_singleton]

/-- The CONNECT of the client, or nothing. -/
theorem Client.connected (client : Client) :
    readConnect.run client.source = none ∨ ∃ rest,
      readConnect.run client.source = some (client.connect.packet, rest) ∧
        client.Followed rest [] := by
  have hword := parse_readConnect client.connect []
  rw [List.append_nil] at hword
  rcases run_word hword client.sent with hnone | ⟨rest, hrun, hrest⟩
  · exact Or.inl hnone
  · exact Or.inr ⟨rest, hrun, [], client.packets, rfl, rfl, hrest⟩

theorem Client.Heard.of_followed (hid : client.Identified handler.clientId)
    (h : client.Followed source asked) (hstage : handler.stage ≠ .handshake) :
    client.Heard source asked handler where
  fresh hfresh := absurd hfresh hstage
  following _ := ⟨hid, h⟩
  asked_prefix := h.asked_prefix

/-- A step that reads nothing and keeps the client id. -/
theorem Client.Heard.goOn {next : Handler} (h : client.Heard source asked handler)
    (hid : next.clientId = handler.clientId) (hstage : next.stage ≠ .handshake)
    (hidentified : next.stage.identified = true → handler.stage.identified = true) :
    client.Heard source asked next where
  fresh hfresh := absurd hfresh hstage
  following hnext := by
    rw [hid]
    exact h.following (hidentified hnext)
  asked_prefix := h.asked_prefix

end Heard

/-! ## Runs -/

namespace Dialogue

section Steps

variable {d d' : Dialogue} {moment : Moment} {conn : ConnId} {handler next : Handler}
  {action : Action} {b' : Broker} {client : Client}

/-- A handler reads what its client has sent, unless its descriptor denotes
another connection. -/
theorem source_of_event (hevent : d.event moment = some (.act conn action))
    (hhandler : d.broker.handlers conn = some handler) {source : Source UInt8}
    (hreads : (∃ address, action = .connect address source) ∨ action = .receive source)
    (hown : d.broker.descriptors handler.sock = some conn) : source = d.streams conn := by
  cases moment with
  | connect other address stray =>
      obtain ⟨reader, hreader, heq⟩ := Option.map_eq_some_iff.mp hevent
      cases heq
      obtain rfl : handler = reader := Option.some.inj (hhandler.symm.trans hreader)
      rcases hreads with ⟨_, heq⟩ | heq <;> cases heq
      exact if_pos hown
  | receive other stray =>
      obtain ⟨reader, hreader, heq⟩ := Option.map_eq_some_iff.mp hevent
      cases heq
      obtain rfl : handler = reader := Option.some.inj (hhandler.symm.trans hreader)
      rcases hreads with ⟨_, heq⟩ | heq <;> cases heq
      exact if_pos hown
  | other step =>
      simp only [Dialogue.event] at hevent
      split at hevent
      · cases hevent
      · next hquiet =>
          cases hevent
          rcases hreads with ⟨_, rfl⟩ | rfl <;> exact absurd rfl hquiet

/-- The source of a `recv` is the client's, or there is none any more. -/
theorem incoming_cases (hevent : d.event moment = some (.act conn action))
    (hhandler : d.broker.handlers conn = some handler) {source : Source UInt8}
    (hreads : (∃ address, action = .connect address source) ∨ action = .receive source)
    (hrobs : d.robs conn handler action = none) :
    (d.broker.descriptors handler.sock = some conn ∧ source = d.streams conn ∧
      d.broker.incoming handler.sock source = source) ∨
    (d.broker.descriptors handler.sock = none ∧
      d.broker.incoming handler.sock source = Broker.closed) := by
  have hreading : action.reads = true := by
    rcases hreads with ⟨_, rfl⟩ | rfl <;> rfl
  rw [robs, if_pos hreading] at hrobs
  cases hopen : d.broker.descriptors handler.sock with
  | none => exact Or.inr ⟨rfl, by rw [Broker.incoming, hopen]; rfl⟩
  | some dest =>
      rw [hopen, Option.filter_some] at hrobs
      split at hrobs
      · cases hrobs
      · next hsame =>
          obtain rfl : dest = conn := by simpa using hsame
          exact Or.inl ⟨rfl, source_of_event hevent hhandler hreads hopen,
            by rw [Broker.incoming, hopen]; rfl⟩

theorem streams_note_self (d : Dialogue) (conn : ConnId) (handler : Handler) (action : Action) :
    (d.note conn handler action).streams conn =
      (d.leaves conn handler action).getD (d.streams conn) := by
  simp only [note]
  cases d.leaves conn handler action with
  | none => rfl
  | some rest => exact Function.update_self ..

theorem quiet_logs (d : Dialogue) (conn : ConnId) (handler : Handler)
    (h : action.reads = false) :
    d.leaves conn handler action = none ∧ d.broker.takesRequest handler action = none := by
  cases action with
  | connect | receive => cases h
  | _ => exact ⟨ite_self _, by simp [Broker.takesRequest]⟩

/-- A step that reads nothing leaves the client as it is known. -/
theorem identified_act {b : Broker} (h : action.reads = false)
    (hact : b.act conn handler action = some b') (hnext : b'.handlers conn = some next) :
    next.clientId = handler.clientId ∧ next.stage ≠ .handshake ∧
      (next.stage.identified = true → handler.stage.identified = true) := by
  unfold Broker.act at hact
  split at hact
  case h_1 | h_5 => cases h
  case h_3 | h_4 =>
      rename_i hstage
      split at hact <;> obtain rfl := Broker.next_of_become hact hnext <;>
        exact ⟨rfl, by simp, fun _ => by rw [hstage]; rfl⟩
  case h_15 | h_16 =>
      obtain rfl := Broker.next_of_become hact hnext
      exact ⟨rfl, by simp, fun hidentified => by cases hidentified⟩
  case h_17 => cases hact
  all_goals
    rename_i hstage
    obtain rfl := Broker.next_of_become hact hnext
    exact ⟨rfl, by simp, fun _ => by rw [hstage]; rfl⟩

theorem heard_act (h : client.Heard (d.streams conn) (d.asked conn) handler)
    (hevent : d.event moment = some (.act conn action))
    (hhandler : d.broker.handlers conn = some handler)
    (hact : d.broker.act conn handler action = some b') (hnext : b'.handlers conn = some next)
    (hrobs : d.robs conn handler action = none) :
    client.Heard ((d.leaves conn handler action).getD (d.streams conn))
      (d.asked conn ++ (d.broker.takesRequest handler action).toList) next := by
  by_cases hreads : action.reads = false
  · obtain ⟨hleaves, htakes⟩ := quiet_logs d conn handler hreads
    obtain ⟨hid, hstage, hidentified⟩ := identified_act hreads hact hnext
    rw [hleaves, htakes, Option.getD_none, Option.toList_none, List.append_nil]
    exact h.goOn hid hstage hidentified
  unfold Broker.act at hact
  split at hact
  case h_1 address source hstage =>
      obtain ⟨hsource, hasked⟩ := h.fresh hstage
      have htakes : d.broker.takesRequest handler (.connect address source) = none := by
        simp [Broker.takesRequest, hstage]
      rw [htakes, Option.toList_none, List.append_nil]
      have hclosing : next.stage = .closing → client.Heard
          ((d.leaves conn handler (.connect address source)).getD (d.streams conn)) (d.asked conn)
          next := fun hclosing =>
        ⟨by simp [hclosing], by simp [hclosing, Stage.identified], h.asked_prefix⟩
      rcases incoming_cases hevent hhandler (Or.inl ⟨address, rfl⟩) hrobs with
        ⟨hopen, hown, hincoming⟩ | ⟨-, hincoming⟩
      · rw [hincoming, hown, hsource] at hact
        rcases client.connected with hnone | ⟨rest, hread, hfollowed⟩
        · rw [hnone] at hact
          obtain rfl := Broker.next_of_become hact hnext
          exact hclosing rfl
        · rw [hread] at hact
          obtain rfl := Broker.next_of_become hact hnext
          have hleaves : d.leaves conn handler (.connect address source) = some rest := by
            rw [leaves, if_pos hopen, hown, hsource]
            simp only [hread, Option.map_some]
          rw [hleaves, hasked, Option.getD_some]
          refine .of_followed ?_ hfollowed (by simp)
          unfold Client.Identified
          dsimp only
          split
          · exact ⟨address, rfl⟩
          · rfl
      · rw [hincoming, readConnect_closed] at hact
        obtain rfl := Broker.next_of_become hact hnext
        exact hclosing rfl
  case h_5 source hstage =>
      obtain ⟨hid, hfollowed⟩ := h.following (by rw [hstage]; rfl)
      -- Nothing more of the client has come.
      have hlast (hnone : (nextRequest handler.buffer).run
          (d.broker.incoming handler.sock source) = none)
          (hleaves : d.leaves conn handler (.receive source) = none) :
          client.Heard ((d.leaves conn handler (.receive source)).getD (d.streams conn))
            (d.asked conn ++ (d.broker.takesRequest handler (.receive source)).toList) next := by
        have htakes : d.broker.takesRequest handler (.receive source) = none := by
          simp only [Broker.takesRequest, hstage, hnone, Option.map_none]
        rw [hnone] at hact
        obtain rfl := Broker.next_of_become hact hnext
        rw [htakes, hleaves, Option.getD_none, Option.toList_none, List.append_nil]
        exact h.goOn rfl (by simp) fun _ => by rw [hstage]; rfl
      rcases incoming_cases hevent hhandler (Or.inr rfl) hrobs with
        ⟨hopen, hown, hincoming⟩ | ⟨hclosed, hincoming⟩
      · subst hown
        rcases hfollowed.take handler.buffer with
          hnone | ⟨request, after, rest, hread, hfollowed⟩
        · apply hlast
          · rw [hincoming, hnone]
          · rw [leaves, if_pos hopen]
            simp only [hnone, Option.map_none]
        · have htakes : d.broker.takesRequest handler (.receive (d.streams conn)) =
              some request := by
            simp only [Broker.takesRequest, hstage, hincoming, hread, Option.map_some]
          have hleaves : d.leaves conn handler (.receive (d.streams conn)) = some rest := by
            rw [leaves, if_pos hopen]
            simp only [hread, Option.map_some]
          rw [hincoming, hread] at hact
          obtain rfl := Broker.next_of_become hact hnext
          rw [htakes, hleaves, Option.getD_some, Option.toList_some]
          refine .of_followed hid hfollowed fun hfresh => ?_
          have hstart : Broker.afterRequest request = .handshake := hfresh
          have hspoken := Broker.afterRequest_spoken request
          rw [hstart] at hspoken
          cases hspoken
      · apply hlast
        · rw [hincoming, nextRequest_closed]
        · rw [leaves, if_neg (by simp [hclosed])]
  case h_17 => cases hact
  -- The other steps read nothing.
  all_goals
    exact absurd rfl hreads

/-- Who robs is seen, and who has been robbed stays so. -/
theorem robbed_note {other : ConnId} (h : (d.note conn handler action).robbed other = false) :
    d.robbed other = false ∧ (other = conn → d.robs conn handler action = none) := by
  simp only [note] at h
  cases hrobs : d.robs conn handler action with
  | none =>
      rw [hrobs] at h
      exact ⟨h, fun _ => rfl⟩
  | some dest =>
      simp only [hrobs, Function.update_apply] at h
      split at h
      · cases h
      · split at h
        · cases h
        · next hne => exact ⟨h, fun heq => absurd heq hne⟩

/-- Nobody but its own handler takes from a stream that is spoken of. -/
theorem streams_note_of_ne {other : ConnId} (h : other ≠ conn) :
    (d.note conn handler action).streams other = d.streams other := by
  simp only [note]
  cases d.leaves conn handler action with
  | none => rfl
  | some rest => exact Function.update_of_ne h ..

end Steps

section Runs

variable {clients : ConnId → Client} {d d' : Dialogue} {moment : Moment}

structure Attended (clients : ConnId → Client) (d : Dialogue) : Prop where
  kept : d.Kept
  heard : ∀ conn handler, d.broker.handlers conn = some handler → d.robbed conn = false →
    (clients conn).Heard (d.streams conn) (d.asked conn) handler
  waiting : ∀ conn, d.broker.handlers conn = none → d.robbed conn = false →
    d.streams conn = (clients conn).source

theorem Attended.start (clients : ConnId → Client) :
    Attended clients (start fun conn => (clients conn).source) where
  kept := Kept.start _
  heard conn handler hhandler := by cases hhandler
  waiting conn _ _ := rfl

theorem Attended.step (h : Attended clients d) (hstep : d.step moment = some d') :
    Attended clients d' := by
  have hkept := h.kept.step hstep
  rcases stepped hstep with ⟨conn, action, handler, b', hevent, hhandler, hact, rfl⟩ |
    ⟨event, b', -, hother, hb', rfl⟩
  · have hacted := acted (m := .empty) hact
    refine ⟨hkept, fun other next hnext hrobbed => ?_, fun other hnone hrobbed => ?_⟩
    · obtain ⟨hbefore, hown⟩ := robbed_note hrobbed
      by_cases hsame : other = conn
      · subst hsame
        have hheard := heard_act (h.heard other handler hhandler hbefore) hevent hhandler hact
          hnext (hown rfl)
        have hlogs := (d.logs_note_self other handler action).1
        have hstreams := d.streams_note_self other handler action
        dsimp only
        rw [hlogs, hstreams]
        exact hheard
      · have hlogs := (d.logs_note_of_ne handler action hsame).1
        dsimp only
        rw [hlogs, streams_note_of_ne hsame]
        exact h.heard other next ((hacted.other hsame).symm.trans hnext) hbefore
    · obtain ⟨hne, hnothing⟩ := hacted.none_before hnone
      dsimp only
      rw [streams_note_of_ne hne]
      exact h.waiting other hnothing (robbed_note hrobbed).1
  · refine ⟨hkept, fun conn next hnext hrobbed => ?_, fun conn hnone hrobbed => ?_⟩
    · rcases Greeting.handlers_after h.kept.settled.1 hb' hother conn with
        hsame | ⟨hnone, sock, hnew⟩
      · exact h.heard conn next (hsame.symm.trans hnext) hrobbed
      · obtain rfl : next = { sock } := Option.some.inj (hnext.symm.trans hnew)
        have hasked := (h.kept.fresh conn hnone).1
        refine ⟨fun _ => ⟨h.waiting conn hnone hrobbed, hasked⟩, fun hid => ?_, ?_⟩
        · cases hid
        · dsimp only
          rw [hasked]
          exact List.nil_prefix
    · rcases Greeting.handlers_after h.kept.settled.1 hb' hother conn with hsame | ⟨hbefore, -⟩
      · exact h.waiting conn (hsame.symm.trans hnone) hrobbed
      · exact h.waiting conn hbefore hrobbed

/-- The handler of a connection that nobody has robbed has taken the first
requests of its client and recorded the first of its messages, in their
order, and serves it under the client id that the client has given. -/
def Understood (clients : ConnId → Client) (d : Dialogue) : Prop :=
  ∀ conn handler, d.broker.handlers conn = some handler → d.robbed conn = false →
    d.asked conn <+: (clients conn).packets.map ClientPacket.request ∧
      d.recorded conn <+:
        (clients conn).packets.filterMap (fun p => p.request.published) ∧
      (handler.stage.identified = true → (clients conn).Identified handler.clientId)

end Runs

end Dialogue

/-- What has been recorded are messages that have been taken. -/
theorem Conversed.recorded_initial {asked : List Request} {said : List Bytes}
    {recorded : List PublishPacket} {stage : Stage} (h : Conversed asked said recorded stage) :
    recorded <+: asked.filterMap Request.published := by
  have hworking {request : Request} (hworking : Working asked said recorded request) :
      recorded <+: asked.filterMap Request.published := by
    obtain ⟨earlier, rfl, hserved⟩ := hworking
    rw [hserved.recorded, List.filterMap_append]
    exact List.prefix_append _ _
  have hserved (hserved : Served asked said recorded) :
      recorded <+: asked.filterMap Request.published := by
    rw [hserved.recorded]
  cases stage with
  | handshake | registering | connack =>
      rw [h.2.2]
      exact List.nil_prefix
  | recording | subscribing | pingresp => exact hworking h
  | suback =>
      obtain ⟨filters, hsuback, -⟩ := h
      exact hworking hsuback
  | leaving | closing | done =>
      rcases h with ⟨-, -, rfl⟩ | hdone
      · exact List.nil_prefix
      · exact hserved hdone
  | loop | reading | routing | forwarding | dropping | dropped => exact hserved h

/-- The broker hears what its clients say. Whatever the clients send, in
whatever pieces and however much of it arrives, and in every interleaving
of the handlers: as long as the descriptor of a handler denotes its own
connection when it reads, and no other handler reads there, it takes the
requests of its client in their order, none lost, none twice and none made
up, and records its messages so. -/
theorem clients_understood (clients : ConnId → Client) (moments : List Moment) :
    Always Dialogue.step (Dialogue.Understood clients)
      (.start fun conn => (clients conn).source) moments := by
  refine always_of_invariant_along (fun _ _ _ h _ hstep => h.step hstep) (fun d h => ?_)
    (Dialogue.Attended.start clients) (along_of_forall (fun _ _ => trivial) _ moments)
  intro conn handler hhandler hrobbed
  have hheard := h.heard conn handler hhandler hrobbed
  refine ⟨hheard.asked_prefix, ?_, fun hid => (hheard.following hid).1⟩
  have hmessages : (clients conn).packets.filterMap (fun p => p.request.published) =
      ((clients conn).packets.map ClientPacket.request).filterMap Request.published := by
    rw [List.filterMap_map]
    rfl
  rw [hmessages]
  exact ((h.kept.conversed conn handler hhandler).recorded_initial).trans
    (hheard.asked_prefix.filterMap _)

end MockServices.Mqtt
