import Mathlib.Logic.Function.Basic
import Std.Data.TreeMap
import MockServices.Mqtt.Framing

/-!
# The broker as a transition system

One handler runs for each accepted connection. A step is one section under
a mutex, one socket operation or one look at `running_`, and any number of
handlers take their steps in any order. Descriptor numbers are handed out
by the operating system: `accept` returns any free number, `close` frees
it, and until then it denotes the connection it was handed out for.
-/

namespace MockServices.Mqtt

open Foundations

/-- A descriptor number. -/
abbrev RawSocket := ℕ

/-- A connection, by the order in which it was accepted. -/
abbrev ConnId := ℕ

structure Session where
  clientId : Bytes
  sock : RawSocket
  filters : List Bytes
  deriving DecidableEq

/-- Where a handler stands in `client_handler`, with its local data. -/
inductive Stage where
  | handshake
  | registering
  | connack
  | loop
  | reading
  | recording (packet : PublishPacket)
  | routing (packet : PublishPacket)
  | forwarding (publishFrame : Bytes) (targets : List RawSocket)
  | subscribing (packet : SubscribePacket)
  | suback (packetId : ℕ) (returnCodes : Bytes)
  | pingresp
  -- A malformed SUBSCRIBE: the session goes, the socket is closed, the loop goes on.
  | dropping
  | dropped
  | leaving
  | closing
  | done
  deriving DecidableEq

structure Handler where
  sock : RawSocket
  clientId : Bytes := []
  buffer : Bytes := List.replicate 4096 0
  stage : Stage := .handshake

inductive Phase where
  | idle
  | running
  -- `stop()` has cleared `running_`, then swept the sessions and waits for the handlers.
  | stopping
  | joining
  deriving DecidableEq

structure Broker where
  phase : Phase := .idle
  sessions : Std.TreeMap Bytes Session := {}
  history : List PublishPacket := []
  nextConn : ConnId := 0
  handlers : ConnId → Option Handler := fun _ => none
  descriptors : RawSocket → Option ConnId := fun _ => none

/-- One step of a handler. What the network or the system decides comes with it. -/
inductive Action where
  | connect (address : ℕ) (source : Source UInt8)
  | register
  | connack (sent : Bool)
  | check
  | receive (source : Source UInt8)
  | record
  | route
  | forward
  | routed
  | subscribe
  | suback
  | pingresp
  | remove
  | close

inductive Event where
  | start
  | stopFlag
  | stopSessions
  | stopJoined
  | accept (sock : RawSocket)
  | clearMessages
  | act (conn : ConnId) (action : Action)

/-- The CONNECT packet a handler begins with. -/
def readConnect : Reader UInt8 ConnectPacket := do
  let header ← recvByte
  let remainingLength ← readRemainingLength
  if packetType header ≠ PacketType.connect.code then .fail
  else do
    let payload ← Reader.recvExact remainingLength
    match decodeConnect payload remainingLength with
    | none => .fail
    | some packet => return packet

def anonymousId (address : ℕ) : Bytes := ascii "anon-" ++ ascii (toString address)

/-- The buffer after `recv_exact` into its beginning, resized when it is too short. -/
def store (buffer received : Bytes) : Bytes := received ++ buffer.drop received.length

/-- One turn of the packet loop up to its switch. -/
def nextRequest (buffer : Bytes) : Reader UInt8 (Request × Bytes) := do
  let (header, body) ← readPacket
  let buffer := store (store buffer [header]) body
  return (request (packetType header) buffer body.length, buffer)

namespace Broker

def closed : Source UInt8 := ⟨[], by simp⟩

/-- What `recv` on a descriptor delivers: nothing once the number is free. -/
def incoming (b : Broker) (sock : RawSocket) (source : Source UInt8) : Source UInt8 :=
  if (b.descriptors sock).isSome then source else closed

def become (b : Broker) (conn : ConnId) (handler : Handler) : Broker :=
  { b with handlers := Function.update b.handlers conn (some handler) }

def sockClose (b : Broker) (sock : RawSocket) : Broker :=
  { b with descriptors := Function.update b.descriptors sock none }

def registerSession (b : Broker) (handler : Handler) : Broker :=
  { b with
    sessions := b.sessions.insert handler.clientId ⟨handler.clientId, handler.sock, []⟩ }

def removeSession (b : Broker) (clientId : Bytes) : Broker :=
  match b.sessions[clientId]? with
  | none => b
  | some session => { b.sockClose session.sock with sessions := b.sessions.erase clientId }

/-- The section of `handle_subscribe`, with the return codes it collects. -/
def addFilters (b : Broker) (clientId : Bytes) (packet : SubscribePacket) : Broker × Bytes :=
  match b.sessions[clientId]? with
  | none => (b, [])
  | some session =>
      let filters := session.filters ++ packet.filters.map Prod.fst
      ({ b with sessions := b.sessions.insert clientId { session with filters } },
        packet.filters.map fun _ => 0x00)

/-- The section of `route_publish`: one target for a session, at its first matching filter. -/
def targets (b : Broker) (topic : Bytes) : List RawSocket :=
  (b.sessions.toList.filter fun entry =>
    entry.2.filters.any fun filter => topicMatches filter topic).map fun entry => entry.2.sock

def afterRequest : Request → Stage
  | .publish none => .loop
  | .publish (some packet) => .recording packet
  | .subscribe none => .dropping
  | .subscribe (some packet) => .subscribing packet
  | .pingreq => .pingresp
  | .disconnect => .leaving
  | .unexpected => .leaving

def act (b : Broker) (conn : ConnId) (handler : Handler) (action : Action) : Option Broker :=
  match handler.stage, action with
  | .handshake, .connect address source =>
      match readConnect.run (b.incoming handler.sock source) with
      | none => some (b.become conn { handler with stage := .closing })
      | some (packet, _) =>
          let clientId := if packet.clientId = [] then anonymousId address else packet.clientId
          some (b.become conn { handler with clientId, stage := .registering })
  | .registering, .register =>
      some ((b.registerSession handler).become conn { handler with stage := .connack })
  | .connack, .connack sent =>
      if sent ∧ (b.descriptors handler.sock).isSome then
        some (b.become conn { handler with stage := .loop })
      else some (b.become conn { handler with stage := .leaving })
  | .loop, .check =>
      if b.phase = .running then some (b.become conn { handler with stage := .reading })
      else some (b.become conn { handler with stage := .leaving })
  | .reading, .receive source =>
      match (nextRequest handler.buffer).run (b.incoming handler.sock source) with
      | none => some (b.become conn { handler with stage := .leaving })
      | some ((request, buffer), _) =>
          some (b.become conn { handler with buffer, stage := afterRequest request })
  | .recording packet, .record =>
      some ({ b with history := b.history ++ [packet] }.become conn
        { handler with stage := .routing packet })
  | .routing packet, .route =>
      let publishFrame := encodePublish packet.topic packet.payload
      some (b.become conn
        { handler with stage := .forwarding publishFrame (b.targets packet.topic) })
  | .forwarding publishFrame (_ :: targets), .forward =>
      some (b.become conn { handler with stage := .forwarding publishFrame targets })
  | .forwarding _ [], .routed => some (b.become conn { handler with stage := .loop })
  | .subscribing packet, .subscribe =>
      let (b, returnCodes) := b.addFilters handler.clientId packet
      some (b.become conn { handler with stage := .suback packet.packetId returnCodes })
  | .suback _ _, .suback => some (b.become conn { handler with stage := .loop })
  | .pingresp, .pingresp => some (b.become conn { handler with stage := .loop })
  | .dropping, .remove =>
      some ((b.removeSession handler.clientId).become conn { handler with stage := .dropped })
  | .dropped, .close =>
      some ((b.sockClose handler.sock).become conn { handler with stage := .loop })
  | .leaving, .remove =>
      some ((b.removeSession handler.clientId).become conn { handler with stage := .closing })
  | .closing, .close =>
      some ((b.sockClose handler.sock).become conn { handler with stage := .done })
  | _, _ => none

/-- `accept` has returned a descriptor and its handler starts. -/
def acceptConn (b : Broker) (sock : RawSocket) : Broker :=
  { b with
    nextConn := b.nextConn + 1
    handlers := Function.update b.handlers b.nextConn (some { sock })
    descriptors := Function.update b.descriptors sock (some b.nextConn) }

/-- The section of `stop()`: every session's socket is closed, none is kept. -/
def sweepSessions (b : Broker) : Broker :=
  { b with
    sessions := {}
    descriptors := fun sock =>
      if b.sessions.toList.any fun entry => entry.2.sock = sock then none
      else b.descriptors sock }

/-- `thread_group::join_all` returns once every handler has. -/
def Joined (b : Broker) : Prop :=
  ∀ conn < b.nextConn, ∀ handler ∈ b.handlers conn, handler.stage = .done

instance (b : Broker) : Decidable b.Joined := inferInstanceAs (Decidable (∀ _ < _, ∀ _ ∈ _, _))

def step (b : Broker) : Event → Option Broker
  | .start => if b.phase = .idle then some { b with phase := .running } else none
  | .stopFlag => if b.phase = .running then some { b with phase := .stopping } else none
  | .stopSessions =>
      if b.phase = .stopping then some { b.sweepSessions with phase := .joining } else none
  | .stopJoined =>
      if b.phase = .joining ∧ b.Joined then some { b with phase := .idle } else none
  | .accept sock =>
      -- The accept loop ends when `stop()` joins it.
      if (b.phase = .running ∨ b.phase = .stopping) ∧ b.descriptors sock = none then
        some (b.acceptConn sock)
      else none
  | .clearMessages => some { b with history := [] }
  | .act conn action => (b.handlers conn).bind fun handler => b.act conn handler action

/-- What the step passes to `send_all`. -/
def sends (b : Broker) : Event → Option (RawSocket × Bytes)
  | .act conn action =>
      (b.handlers conn).bind fun handler =>
        match handler.stage, action with
        | .connack, .connack _ => some (handler.sock, encodeConnack)
        | .forwarding publishFrame (target :: _), .forward => some (target, publishFrame)
        | .suback packetId returnCodes, .suback =>
            some (handler.sock, encodeSuback packetId returnCodes)
        | .pingresp, .pingresp => some (handler.sock, encodePingresp)
        | _, _ => none
  | _ => none

@[simp] theorem become_handlers_self (b : Broker) (conn : ConnId) (handler : Handler) :
    (b.become conn handler).handlers conn = some handler := Function.update_self ..

theorem become_handlers (b : Broker) (conn other : ConnId) (handler : Handler) :
    (b.become conn handler).handlers other =
      if other = conn then some handler else b.handlers other := Function.update_apply ..

/-- What a handler has become by its step. -/
theorem next_of_become {b b' : Broker} {conn : ConnId} {handler next : Handler}
    (h : some (b.become conn handler) = some b') (hnext : b'.handlers conn = some next) :
    next = handler := by
  cases h
  rw [become_handlers_self] at hnext
  exact (Option.some.inj hnext).symm

theorem compare_key (key other : Bytes) : compare key other = .eq ↔ other = key := by
  rw [Std.LawfulEqOrd.compare_eq_iff_eq, eq_comm]

section Fields

variable (b : Broker) (conn : ConnId) (handler : Handler) (clientId other : Bytes)
  (packet : SubscribePacket)

@[simp] theorem become_phase : (b.become conn handler).phase = b.phase := rfl

@[simp] theorem become_sessions : (b.become conn handler).sessions = b.sessions := rfl

@[simp] theorem become_descriptors : (b.become conn handler).descriptors = b.descriptors := rfl

theorem registerSession_sessions : (b.registerSession handler).sessions[other]? =
    if other = handler.clientId then some ⟨handler.clientId, handler.sock, []⟩
    else b.sessions[other]? := by
  rw [registerSession, Std.TreeMap.getElem?_insert]
  simp only [compare_key]

theorem removeSession_sessions : (b.removeSession clientId).sessions[other]? =
    if other = clientId then none else b.sessions[other]? := by
  unfold removeSession
  split
  · next hnone =>
      split
      · next heq => rw [heq, hnone]
      · rfl
  · rw [Std.TreeMap.getElem?_erase]
    simp only [compare_key]

theorem addFilters_sessions : (b.addFilters clientId packet).1.sessions[other]? =
    if other = clientId then (b.sessions[clientId]?).map fun session =>
      { session with filters := session.filters ++ packet.filters.map Prod.fst }
    else b.sessions[other]? := by
  unfold addFilters
  split
  · next hnone =>
      split
      · next heq => rw [heq, hnone, Option.map_none]
      · rfl
  · next hsome =>
      rw [Std.TreeMap.getElem?_insert, hsome, Option.map_some]
      simp only [compare_key]

@[simp] theorem removeSession_handlers : (b.removeSession clientId).handlers = b.handlers := by
  unfold removeSession
  split <;> rfl

@[simp] theorem removeSession_nextConn : (b.removeSession clientId).nextConn = b.nextConn := by
  unfold removeSession
  split <;> rfl

@[simp] theorem removeSession_phase : (b.removeSession clientId).phase = b.phase := by
  unfold removeSession
  split <;> rfl

theorem removeSession_descriptors (sock : RawSocket) :
    (b.removeSession clientId).descriptors sock =
      if (b.sessions[clientId]?).map Session.sock = some sock then none
      else b.descriptors sock := by
  unfold removeSession
  split
  · next hnone => simp [hnone]
  · next hsome => simp [hsome, sockClose, Function.update_apply, eq_comm]

@[simp] theorem addFilters_handlers : (b.addFilters clientId packet).1.handlers = b.handlers := by
  unfold addFilters
  split <;> rfl

@[simp] theorem addFilters_nextConn : (b.addFilters clientId packet).1.nextConn = b.nextConn := by
  unfold addFilters
  split <;> rfl

@[simp] theorem addFilters_phase : (b.addFilters clientId packet).1.phase = b.phase := by
  unfold addFilters
  split <;> rfl

@[simp] theorem addFilters_descriptors :
    (b.addFilters clientId packet).1.descriptors = b.descriptors := by
  unfold addFilters
  split <;> rfl

theorem acceptConn_handlers (sock : RawSocket) : (b.acceptConn sock).handlers conn =
    if conn = b.nextConn then some { sock } else b.handlers conn := Function.update_apply ..

theorem acceptConn_descriptors (sock number : RawSocket) : (b.acceptConn sock).descriptors number =
    if number = sock then some b.nextConn else b.descriptors number := Function.update_apply ..

theorem sockClose_descriptors (sock number : RawSocket) : (b.sockClose sock).descriptors number =
    if number = sock then none else b.descriptors number := Function.update_apply ..

end Fields

theorem step_act {b : Broker} {conn : ConnId} {handler : Handler}
    (h : b.handlers conn = some handler) (action : Action) :
    b.step (.act conn action) = b.act conn handler action := by
  rw [step, h, Option.bind_some]

end Broker

theorem readConnect_closed : readConnect.run Broker.closed = none :=
  Reader.run_none_iff.mpr rfl

theorem nextRequest_closed (buffer : Bytes) : (nextRequest buffer).run Broker.closed = none :=
  Reader.run_none_iff.mpr rfl

def wholePiece (first : UInt8) (rest : Bytes) : Source UInt8 := ⟨[first :: rest], by simp⟩

/-- A client connects under a client id, and its handler enters the packet loop. -/
def joining (conn : ConnId) (sock : RawSocket) (clientId : Bytes) : List Event :=
  let payload := [0, 4] ++ ascii "MQTT" ++ [4, 2, 0, 60] ++
    [highByte clientId.length, lowByte clientId.length] ++ clientId
  [.accept sock,
    .act conn (.connect 0 (wholePiece 0x10 (encodeRemainingLength payload.length ++ payload))),
    .act conn .register, .act conn (.connack true), .act conn .check]

end MockServices.Mqtt
