import MockServices.Mqtt.ApplicationMessage
import MockServices.Mqtt.DecoderReads
import MockServices.Mqtt.History

/-!
# The forwarded PUBLISH

The topic length of a packet has two bytes, so the truncation in
`encode_publish` takes nothing off a topic that `decode_publish` has read.
A forwarded frame is the publisher's body again, under a header without
flags.
-/

namespace MockServices.Mqtt

open Foundations

/-- A two-byte length of at least one, so many bytes of a topic, and a payload. -/
def PublishGrammar (data : Bytes) : Prop :=
  ∃ (high low : UInt8) (topic payload : Bytes), data = high :: low :: topic ++ payload ∧
    topic.length = high.toNat * 256 + low.toNat ∧ 1 ≤ topic.length

section Bodies

variable {data : Bytes} {packet : PublishPacket}

theorem publishBody_of_length {high low : UInt8} {topic : Bytes}
    (h : topic.length = high.toNat * 256 + low.toNat) (payload : Bytes) :
    publishBody topic payload = high :: low :: topic ++ payload := by
  obtain ⟨hhigh, hlow⟩ := bytes_of_length h
  rw [publishBody, hhigh, hlow]

theorem decodePublish_some (h : decodePublish data data.length = some packet) :
    data = publishBody packet.topic packet.payload ∧ 1 ≤ packet.topic.length ∧
      packet.topic.length < 65536 := by
  match data, h with
  | high :: low :: rest, h =>
      have hword : wordAt (high :: low :: rest) 0 = high.toNat * 256 + low.toNat := rfl
      have hcovered : high.toNat * 256 + low.toNat ≠ 0 ∧
          high.toNat * 256 + low.toNat ≤ rest.length := by
        rw [decodePublish, hword, List.length_cons, List.length_cons] at h
        split_ifs at h
        omega
      have hlength : (rest.take (high.toNat * 256 + low.toNat)).length =
          high.toNat * 256 + low.toNat := List.length_take_of_le hcovered.2
      have hpos : 1 ≤ (rest.take (high.toNat * 256 + low.toNat)).length := by omega
      have hlt := hlength.trans_lt (word_lt high low)
      have hdata := publishBody_of_length hlength (rest.drop (high.toNat * 256 + low.toNat))
      rw [List.cons_append, List.cons_append, List.take_append_drop] at hdata
      have hdecode :=
        decodePublish_publishBody _ (rest.drop (high.toNat * 256 + low.toNat)) [] hlt hpos
      rw [List.append_nil, hdata, h] at hdecode
      cases hdecode
      exact ⟨hdata.symm, hpos, hlt⟩

/-- What `decode_publish` accepts, in the terms of the code that builds it. -/
theorem decodePublish_eq_some_iff : decodePublish data data.length = some packet ↔
    data = publishBody packet.topic packet.payload ∧ 1 ≤ packet.topic.length ∧
      packet.topic.length < 65536 := by
  constructor
  · exact decodePublish_some
  · rintro ⟨rfl, hpos, hlt⟩
    simpa using decodePublish_publishBody packet.topic packet.payload [] hlt hpos

theorem decodePublish_isSome_iff :
    (decodePublish data data.length).isSome ↔ PublishGrammar data := by
  rw [Option.isSome_iff_exists]
  constructor
  · rintro ⟨packet, h⟩
    obtain ⟨hdata, hpos, hlt⟩ := decodePublish_some h
    exact ⟨highByte packet.topic.length, lowByte packet.topic.length, packet.topic,
      packet.payload, hdata, (wordAt_bytes hlt []).symm, hpos⟩
  · rintro ⟨high, low, topic, payload, rfl, hlength, hpos⟩
    refine ⟨⟨topic, payload⟩, decodePublish_eq_some_iff.mpr ⟨?_, hpos, ?_⟩⟩
    · exact (publishBody_of_length hlength payload).symm
    · rw [hlength]
      exact word_lt high low

theorem encodePublish_eq_framePacket (topic payload : Bytes) :
    encodePublish topic payload = framePacket 0x30 (publishBody topic payload) := rfl

/-- The frame is the body it came in, byte for byte, and a client reads the
message from it. -/
theorem forwarded_body (hsize : data.length < 2 ^ 28)
    (h : decodePublish data data.length = some packet) :
    encodePublish packet.topic packet.payload = framePacket 0x30 data ∧
      receivedMessage (encodePublish packet.topic packet.payload) = some packet := by
  obtain ⟨hdata, hpos, hlt⟩ := decodePublish_some h
  rw [encodePublish_eq_framePacket, ← hdata]
  refine ⟨rfl, ?_⟩
  rw [hdata] at hsize ⊢
  exact receivedMessage_framePacket _ _ hlt _ (by decide) hsize

end Bodies

theorem decodePublish_of_request {type : UInt8} {body : Bytes} {size : ℕ} {packet : PublishPacket}
    (h : request type body size = .publish (some packet)) :
    decodePublish body size = some packet := by
  unfold request at h
  split_ifs at h
  exact Request.publish.inj h

namespace Broker

section Runs

variable {b : Broker} {conn : ConnId} {events : List Event}

/-- What a handler accepts is the decoded body of a packet. -/
theorem body_of_accepts {handler : Handler} {action : Action} {packet : PublishPacket}
    (h : packet ∈ b.accepts handler action) :
    ∃ body : Bytes, body.length < 2 ^ 28 ∧ decodePublish body body.length = some packet := by
  unfold accepts at h
  split at h
  case h_2 => cases h
  case h_1 source _ =>
      rw [run_nextRequest] at h
      cases hread : readPacket.run (b.incoming handler.sock source) with
      | none =>
          rw [hread] at h
          cases h
      | some got =>
          obtain ⟨⟨header, body⟩, rest⟩ := got
          have hlength : body.length < 2 ^ 28 :=
            readPacket_length (Reader.run_some_iff.mpr ⟨rest, hread, rfl⟩)
          rw [hread, Option.map_some] at h
          dsimp only at h
          split at h
          · next hrequest =>
              obtain rfl := List.mem_singleton.mp h
              have hswitch := congrArg (fun got => got.map fun r => r.1.1) hrequest
              exact ⟨body, hlength, decodePublish_of_request (Option.some.inj hswitch)⟩
          · cases h

/-- A frame goes back, through routing and recording, to a publish that the
same handler has accepted. -/
theorem forwarded_of_run (hrun : run step {} events = some b) {handed : RawSocket × Bytes}
    (h : (conn, handed) ∈ done (fun _ => forwards) {} events) :
    ∃ packet, (conn, packet) ∈ done accepts {} events ∧
      (conn, packet) ∈ done (fun _ => records) {} events ∧
        handed.2 = encodePublish packet.topic packet.payload := by
  have hkept : Bookkept {} := ⟨.empty, .init⟩
  have hforwarded := routed_forwarded hkept hrun conn
  have hrouted := recorded_routed hkept hrun conn
  have hrecorded := accepted_recorded hkept hrun conn
  simp only [held, Option.elim_none, List.nil_append] at hforwarded hrouted hrecorded
  have hmem : handed ∈ (entriesOf conn (done routes {} events)).flatMap framesOf := by
    rw [hforwarded]
    exact List.mem_append_left _ (mem_entriesOf.mpr h)
  obtain ⟨routed, hroutes, hframe⟩ := List.mem_flatMap.mp hmem
  obtain ⟨target, -, rfl⟩ := List.mem_map.mp hframe
  have hrecords : routed.1 ∈ entriesOf conn (done (fun _ => records) {} events) := by
    rw [hrouted]
    exact List.mem_append_left _ (List.mem_map_of_mem hroutes)
  have haccepts : routed.1 ∈ entriesOf conn (done accepts {} events) := by
    rw [hrecorded]
    exact List.mem_append_left _ hrecords
  exact ⟨routed.1, mem_entriesOf.mp haccepts, mem_entriesOf.mp hrecords, rfl⟩

theorem body_of_done {packet : PublishPacket} (h : (conn, packet) ∈ done accepts {} events) :
    ∃ body : Bytes, body.length < 2 ^ 28 ∧ decodePublish body body.length = some packet := by
  obtain ⟨-, event, -, b₀, -, -, hdoing⟩ := mem_trail h
  obtain ⟨handler, action, -, -, haccepts⟩ := mem_doing hdoing
  exact body_of_accepts haccepts

theorem records_eq {handler : Handler} {action : Action} {packet : PublishPacket}
    (h : packet ∈ records handler action) :
    action = .record ∧ records handler action = [packet] := by
  unfold records at h ⊢
  split at h
  · rw [List.mem_singleton.mp h]
    exact ⟨rfl, rfl⟩
  · cases h

theorem recorded_step {packet : PublishPacket} (hrun : run step {} events = some b)
    (h : (conn, packet) ∈ done (fun _ => records) {} events) :
    ∃ before after b₀ b₁, events = before ++ .act conn .record :: after ∧
      run step {} before = some b₀ ∧ b₀.step (.act conn .record) = some b₁ ∧
        b₁.history = b₀.history ++ [packet] := by
  obtain ⟨before, event, after, b₀, rfl, hbefore, hdoing⟩ := mem_trail h
  obtain ⟨u, hu, hrest⟩ := run_append_some_iff.mp hrun
  obtain rfl := Option.some.inj (hbefore.symm.trans hu)
  obtain ⟨b₁, hstep, -⟩ := run_cons_some_iff.mp hrest
  obtain ⟨handler, action, rfl, hhandler, hrecords⟩ := mem_doing hdoing
  obtain ⟨rfl, honly⟩ := records_eq hrecords
  rw [step_act hhandler] at hstep
  refine ⟨before, after, b₀, b₁, rfl, hbefore, ?_, ?_⟩
  · rw [step_act hhandler, hstep]
  · rw [history_act hstep, honly]

end Runs

end Broker

/-- Every frame that a run forwards carries the message that its handler has
put in the history. -/
def ForwardsRecorded (events : List Event) : Prop :=
  ∀ conn sock publishFrame,
    (conn, sock, publishFrame) ∈ Broker.done (fun _ => Broker.forwards) {} events →
      ∃ (packet : PublishPacket) (before after : List Event) (b₀ b₁ : Broker),
        events = before ++ .act conn .record :: after ∧
        run Broker.step {} before = some b₀ ∧ b₀.step (.act conn .record) = some b₁ ∧
        b₁.history = b₀.history ++ [packet] ∧ receivedMessage publishFrame = some packet

/-- `decode_publish` accepts the grammar, `encode_publish` puts what it has
accepted back into the body it came in, and the two are inverse. -/
theorem publish_forwarding_faithful :
    (∀ data : Bytes, data.length < 2 ^ 28 →
      ((decodePublish data data.length).isSome ↔ PublishGrammar data) ∧
      ∀ topic payload, decodePublish data data.length = some ⟨topic, payload⟩ →
        encodePublish topic payload = framePacket 0x30 data ∧
        receivedMessage (encodePublish topic payload) = some ⟨topic, payload⟩) ∧
    (∀ topic payload : Bytes, 1 ≤ topic.length → topic.length ≤ 65535 →
      encodePublish topic payload = framePacket 0x30 (publishBody topic payload) ∧
      decodePublish (publishBody topic payload) (publishBody topic payload).length =
        some ⟨topic, payload⟩) ∧
    ∀ events b, run Broker.step {} events = some b → ForwardsRecorded events := by
  refine ⟨?_, ?_, ?_⟩
  · intro data hsize
    exact ⟨decodePublish_isSome_iff, fun topic payload h => forwarded_body hsize h⟩
  · intro topic payload hpos hlt
    exact ⟨rfl, decodePublish_eq_some_iff.mpr ⟨rfl, hpos, Nat.lt_succ_of_le hlt⟩⟩
  · intro events b hrun conn sock publishFrame h
    obtain ⟨packet, haccepts, hrecords, hframe⟩ := Broker.forwarded_of_run hrun h
    obtain ⟨before, after, b₀, b₁, hsplit, hbefore, hstep, hhistory⟩ :=
      Broker.recorded_step hrun hrecords
    refine ⟨packet, before, after, b₀, b₁, hsplit, hbefore, hstep, hhistory, ?_⟩
    obtain ⟨body, hlength, hdecode⟩ := Broker.body_of_done haccepts
    obtain rfl : publishFrame = encodePublish packet.topic packet.payload := hframe
    exact (forwarded_body hlength hdecode).2

end MockServices.Mqtt
