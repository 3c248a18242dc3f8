import MockServices.Foundations.Trail
import MockServices.Mqtt.DecoderReads

/-!
# The reused receive buffer

Two brokers that differ in nothing but what stands in the buffers of their
handlers send the same and go on in the same way, step by step and so in
every run.
-/

namespace MockServices.Mqtt

open Foundations

def Handler.blank (handler : Handler) : Handler := { handler with buffer := [] }

namespace Broker

/-- The brokers are the same but for the buffers. -/
structure Alike (b c : Broker) : Prop where
  phase : b.phase = c.phase
  sessions : b.sessions = c.sessions
  history : b.history = c.history
  nextConn : b.nextConn = c.nextConn
  descriptors : b.descriptors = c.descriptors
  handlers : ∀ conn, (b.handlers conn).map Handler.blank = (c.handlers conn).map Handler.blank

section Steps

variable {b c b' : Broker} {conn : ConnId} {handler other : Handler}

theorem blank_eq_iff : handler.blank = other.blank ↔
    handler.sock = other.sock ∧ handler.clientId = other.clientId ∧
      handler.stage = other.stage := by
  simp [Handler.blank]

theorem Alike.symm (h : Alike b c) : Alike c b where
  phase := h.phase.symm
  sessions := h.sessions.symm
  history := h.history.symm
  nextConn := h.nextConn.symm
  descriptors := h.descriptors.symm
  handlers conn := (h.handlers conn).symm

theorem Alike.counterpart (h : Alike b c) (hhandler : b.handlers conn = some handler) :
    ∃ other, c.handlers conn = some other ∧ handler.blank = other.blank := by
  have hother := h.handlers conn
  rw [hhandler, Option.map_some, eq_comm, Option.map_eq_some_iff] at hother
  obtain ⟨other, hother, hblank⟩ := hother
  exact ⟨other, hother, hblank.symm⟩

theorem Alike.become (h : Alike b c) (hblank : handler.blank = other.blank) :
    Alike (b.become conn handler) (c.become conn other) where
  phase := h.phase
  sessions := h.sessions
  history := h.history
  nextConn := h.nextConn
  descriptors := h.descriptors
  handlers party := by
    rw [become_handlers, become_handlers]
    split
    · rw [Option.map_some, hblank, Option.map_some]
    · exact h.handlers party

theorem Alike.registerSession (h : Alike b c) (hsock : handler.sock = other.sock)
    (hclient : handler.clientId = other.clientId) :
    Alike (b.registerSession handler) (c.registerSession other) where
  phase := h.phase
  sessions := by simp only [Broker.registerSession, h.sessions, hsock, hclient]
  history := h.history
  nextConn := h.nextConn
  descriptors := h.descriptors
  handlers := h.handlers

theorem Alike.sockClose (h : Alike b c) (sock : RawSocket) :
    Alike (b.sockClose sock) (c.sockClose sock) where
  phase := h.phase
  sessions := h.sessions
  history := h.history
  nextConn := h.nextConn
  descriptors := by simp only [Broker.sockClose, h.descriptors]
  handlers := h.handlers

theorem Alike.removeSession (h : Alike b c) (clientId : Bytes) :
    Alike (b.removeSession clientId) (c.removeSession clientId) := by
  simp only [Broker.removeSession, ← h.sessions]
  cases b.sessions[clientId]? with
  | none => exact h
  | some session =>
      exact { h.sockClose session.sock with sessions := by rw [h.sessions] }

theorem Alike.addFilters (h : Alike b c) (clientId : Bytes) (packet : SubscribePacket) :
    Alike (b.addFilters clientId packet).1 (c.addFilters clientId packet).1 ∧
      (b.addFilters clientId packet).2 = (c.addFilters clientId packet).2 := by
  simp only [Broker.addFilters, ← h.sessions]
  cases b.sessions[clientId]? with
  | none => exact ⟨h, rfl⟩
  | some session => exact ⟨{ h with sessions := by rw [h.sessions] }, rfl⟩

theorem Alike.incoming (h : Alike b c) (sock : RawSocket) (source : Source UInt8) :
    b.incoming sock source = c.incoming sock source := by
  rw [Broker.incoming, h.descriptors, Broker.incoming]

theorem Alike.targets (h : Alike b c) (topic : Bytes) : b.targets topic = c.targets topic := by
  rw [Broker.targets, h.sessions, Broker.targets]

/-- A handler does with one buffer what it does with another. -/
theorem Alike.act {action : Action} (h : Alike b c) (hblank : handler.blank = other.blank)
    (hact : b.act conn handler action = some b') :
    ∃ c', c.act conn other action = some c' ∧ Alike b' c' := by
  obtain ⟨sock, clientId, buffer, stage⟩ := handler
  obtain ⟨otherSock, otherId, otherBuffer, otherStage⟩ := other
  simp only [Handler.blank, Handler.mk.injEq, true_and] at hblank
  obtain ⟨rfl, rfl, rfl⟩ := hblank
  unfold Broker.act at hact ⊢
  dsimp only at hact ⊢
  split at hact
  case h_17 => cases hact
  case h_1 address source =>
      rw [← h.incoming]
      split at hact <;> cases hact <;> exact ⟨_, rfl, h.become rfl⟩
  case h_3 sent =>
      rw [← h.descriptors]
      split at hact <;> cases hact
      · next hsent => exact ⟨_, if_pos hsent, h.become rfl⟩
      · next hfailed => exact ⟨_, if_neg hfailed, h.become rfl⟩
  case h_4 =>
      rw [← h.phase]
      split at hact <;> cases hact
      · next hrunning => exact ⟨_, if_pos hrunning, h.become rfl⟩
      · next hstopped => exact ⟨_, if_neg hstopped, h.become rfl⟩
  case h_5 source =>
      rw [run_nextRequest] at hact ⊢
      rw [← h.incoming]
      cases hread : readPacket.run (b.incoming sock source) with
      | none =>
          rw [hread] at hact
          cases hact
          exact ⟨_, rfl, h.become rfl⟩
      | some got =>
          rw [hread] at hact
          cases hact
          exact ⟨_, rfl, h.become rfl⟩
  all_goals
    cases hact
    refine ⟨_, rfl, ?_⟩
  case h_2 => exact (h.registerSession rfl rfl).become rfl
  case h_6 packet =>
      have hrecorded : Alike { b with history := b.history ++ [packet] }
          { c with history := c.history ++ [packet] } :=
        { h with history := by rw [h.history] }
      exact hrecorded.become rfl
  case h_7 packet =>
      rw [h.targets]
      exact h.become rfl
  case h_10 packet =>
      obtain ⟨hadded, hcodes⟩ := h.addFilters clientId packet
      rw [hcodes]
      exact hadded.become rfl
  case h_13 | h_15 => exact (h.removeSession clientId).become rfl
  case h_14 | h_16 => exact (h.sockClose sock).become rfl
  all_goals exact h.become rfl

theorem Alike.sweepSessions (h : Alike b c) : Alike b.sweepSessions c.sweepSessions where
  phase := h.phase
  sessions := rfl
  history := h.history
  nextConn := h.nextConn
  descriptors := by simp only [Broker.sweepSessions, h.sessions, h.descriptors]
  handlers := h.handlers

theorem Alike.acceptConn (h : Alike b c) (sock : RawSocket) :
    Alike (b.acceptConn sock) (c.acceptConn sock) where
  phase := h.phase
  sessions := h.sessions
  history := h.history
  nextConn := by simp only [Broker.acceptConn, h.nextConn]
  descriptors := by simp only [Broker.acceptConn, h.descriptors, h.nextConn]
  handlers conn := by
    rw [acceptConn_handlers, acceptConn_handlers, h.nextConn]
    split
    · rfl
    · exact h.handlers conn

theorem Alike.joined (h : Alike b c) (hjoined : b.Joined) : c.Joined := by
  intro conn hconn other hother
  obtain ⟨handler, hhandler, hblank⟩ := h.symm.counterpart hother
  rw [← h.nextConn] at hconn
  rw [(blank_eq_iff.mp hblank).2.2]
  exact hjoined conn hconn handler hhandler

theorem Alike.step {event : Event} (h : Alike b c) (hstep : b.step event = some b') :
    ∃ c', c.step event = some c' ∧ Alike b' c' := by
  cases event with
  | act conn action =>
      obtain ⟨handler, hhandler, hact⟩ := Option.bind_eq_some_iff.mp hstep
      obtain ⟨other, hother, hblank⟩ := h.counterpart hhandler
      rw [step_act hother]
      exact h.act hblank hact
  | clearMessages =>
      cases hstep
      exact ⟨_, rfl, { h with history := rfl }⟩
  | start | stopFlag =>
      obtain ⟨hphase, hstep⟩ := Option.ite_none_right_eq_some.mp hstep
      cases hstep
      exact ⟨_, if_pos (h.phase ▸ hphase), { h with phase := rfl }⟩
  | stopSessions =>
      obtain ⟨hphase, hstep⟩ := Option.ite_none_right_eq_some.mp hstep
      cases hstep
      exact ⟨_, if_pos (h.phase ▸ hphase), { h.sweepSessions with phase := rfl }⟩
  | stopJoined =>
      obtain ⟨⟨hphase, hjoined⟩, hstep⟩ := Option.ite_none_right_eq_some.mp hstep
      cases hstep
      exact ⟨_, if_pos ⟨h.phase ▸ hphase, h.joined hjoined⟩, { h with phase := rfl }⟩
  | accept sock =>
      obtain ⟨henabled, hstep⟩ := Option.ite_none_right_eq_some.mp hstep
      cases hstep
      rw [h.phase, h.descriptors] at henabled
      exact ⟨_, if_pos henabled, h.acceptConn sock⟩

theorem Alike.sends (h : Alike b c) (event : Event) : b.sends event = c.sends event := by
  cases event with
  | act conn action =>
      have hother := h.handlers conn
      simp only [Broker.sends]
      cases hhandler : b.handlers conn with
      | none =>
          rw [hhandler, Option.map_none, eq_comm, Option.map_eq_none_iff] at hother
          rw [hother]
      | some handler =>
          obtain ⟨other, hother, hblank⟩ := h.counterpart hhandler
          obtain ⟨hsock, -, hstage⟩ := blank_eq_iff.mp hblank
          rw [hother, Option.bind_some, Option.bind_some, hsock, hstage]
  | start | stopFlag | stopSessions | stopJoined | accept | clearMessages => rfl

end Steps

section Runs

variable {b c : Broker}

/-- What a step passes to `send_all`, for the trail of a run. -/
def sent (b : Broker) (event : Event) : List (RawSocket × Bytes) := (b.sends event).toList

/-- A step that one of the brokers cannot take the other cannot take either. -/
theorem Alike.step_none {event : Event} (h : Alike b c) (hstep : b.step event = none) :
    c.step event = none := by
  cases hother : c.step event with
  | none => rfl
  | some c' =>
      obtain ⟨b', hb', -⟩ := h.symm.step hother
      rw [hstep] at hb'
      cases hb'

theorem Alike.run {events : List Event} {b' : Broker} (h : Alike b c)
    (hrun : run Broker.step b events = some b') :
    ∃ c', Foundations.run Broker.step c events = some c' ∧ Alike b' c' := by
  induction events generalizing b c with
  | nil =>
      obtain rfl : b = b' := by simpa using hrun
      exact ⟨c, rfl, h⟩
  | cons event events ih =>
      obtain ⟨u, hu, hrest⟩ := run_cons_some_iff.mp hrun
      obtain ⟨v, hv, halike⟩ := h.step hu
      obtain ⟨c', hc', hlast⟩ := ih halike hrest
      exact ⟨c', run_cons_some_iff.mpr ⟨v, hv, hc'⟩, hlast⟩

theorem Alike.trail_sent (h : Alike b c) (events : List Event) :
    trail Broker.step sent b events = trail Broker.step sent c events := by
  induction events generalizing b c with
  | nil => rfl
  | cons event events ih =>
      have hsent : sent b event = sent c event := by rw [sent, sent, h.sends event]
      rw [trail, trail, hsent]
      cases hstep : b.step event with
      | none => rw [h.step_none hstep]
      | some b' =>
          obtain ⟨c', hc', halike⟩ := h.step hstep
          rw [hc', Option.elim_some, Option.elim_some, ih halike]

end Runs

end Broker

/-- Look by look the decoder comes to the answer, and it looks at no index
from `size` on. -/
def LooksInside {β : Type} (probe : Probe UInt8 β) (answer : β) (buffer : Bytes) (size : ℕ) :
    Prop :=
  probe.run buffer = some answer ∧ ∀ index ∈ probe.reads buffer, index < size

/-- The decoders read nothing but the packet, and the packet decides what
they answer. What a handler does with a packet, in any run, is therefore
the same whatever earlier packets have left in its buffer. -/
theorem decoders_stay_inside :
    (∀ (buffer : Bytes) (size : ℕ), size ≤ buffer.length →
      LooksInside (probeConnect size) (decodeConnect buffer size) buffer size ∧
      LooksInside (probePublish size) (decodePublish buffer size) buffer size ∧
      LooksInside (probeSubscribe size) (decodeSubscribe buffer size) buffer size) ∧
    (∀ (buffer other : Bytes) (size : ℕ), size ≤ buffer.length → size ≤ other.length →
      buffer.take size = other.take size →
        decodeConnect buffer size = decodeConnect other size ∧
        decodePublish buffer size = decodePublish other size ∧
        decodeSubscribe buffer size = decodeSubscribe other size) ∧
    (∀ buffer received : Bytes, received.length ≤ (store buffer received).length ∧
      buffer.length ≤ (store buffer received).length) ∧
    ∀ (b c : Broker) (events : List Event), b.Alike c →
      trail Broker.step Broker.sent b events = trail Broker.step Broker.sent c events ∧
      ∀ b', run Broker.step b events = some b' →
        ∃ c', run Broker.step c events = some c' ∧ b'.Alike c' := by
  refine ⟨?_, ?_, ?_, ?_⟩
  · intro buffer size hsize
    exact ⟨⟨run_probeConnect hsize, (inside_probeConnect size).reads_lt buffer⟩,
      ⟨run_probePublish hsize, (inside_probePublish size).reads_lt buffer⟩,
      ⟨run_probeSubscribe hsize, (inside_probeSubscribe size).reads_lt buffer⟩⟩
  · intro buffer other size hbuffer hother hagree
    exact ⟨decodeConnect_congr hbuffer hother hagree, decodePublish_congr hbuffer hother hagree,
      decodeSubscribe_congr hbuffer hother hagree⟩
  · intro buffer received
    rw [length_store]
    exact ⟨Nat.le_max_right _ _, Nat.le_max_left _ _⟩
  · intro b c events halike
    exact ⟨halike.trail_sent events, fun b' hrun => halike.run hrun⟩

end MockServices.Mqtt
