import MockServices.Foundations.Trail
import MockServices.Mqtt.Stop

/-!
# The history and the order of the messages

A publish goes through its handler in four steps: it is received, recorded
in the history, routed, and handed over to one target after the other. What
has come in at one of them and not gone out at the next is in the stage of
the handler, and a handler holds one message at a time. So whatever the
other handlers do, the messages of a connection keep their order.
-/

namespace MockServices.Mqtt

open Foundations

namespace Broker

section Doings

variable (b : Broker) (handler : Handler)

/-- The publish that the handler receives and `decode_publish` accepts. -/
def accepts (action : Action) : List PublishPacket :=
  match handler.stage, action with
  | .reading, .receive source =>
      match (nextRequest handler.buffer).run (b.incoming handler.sock source) with
      | some ((.publish (some packet), _), _) => [packet]
      | _ => []
  | _, _ => []

/-- What `handle_publish` appends to the history. -/
def records (action : Action) : List PublishPacket :=
  match handler.stage, action with
  | .recording packet, .record => [packet]
  | _, _ => []

/-- The message whose targets `route_publish` collects, and the sessions it
collects them from. -/
def routes (action : Action) : List (PublishPacket × Broker) :=
  match handler.stage, action with
  | .routing packet, .route => [(packet, b)]
  | _, _ => []

/-- The frame that `route_publish` hands to the next target. -/
def forwards (action : Action) : List (RawSocket × Bytes) :=
  match handler.stage, action with
  | .forwarding publishFrame (target :: _), .forward => [(target, publishFrame)]
  | _, _ => []

end Doings

/-- What the handler that takes the step does in it, under its connection. -/
def doing {α : Type} (does : Broker → Handler → Action → List α) (b : Broker) :
    Event → List (ConnId × α)
  | .act conn action => (b.handlers conn).elim [] fun handler =>
      (does b handler action).map fun done => (conn, done)
  | _ => []

/-- The publishes that are taken off the connections, whichever handler it is
that has received them. -/
def taken (b : Broker) : Event → List (ConnId × PublishPacket)
  | .act conn action => (b.handlers conn).elim [] fun handler =>
      (b.descriptors handler.sock).elim [] fun source =>
        (b.accepts handler action).map fun packet => (source, packet)
  | _ => []

/-- What a handler accepts was sent on its own connection. -/
def TakesOwn (b : Broker) : Event → Prop
  | .act conn action => ∀ handler, b.handlers conn = some handler →
      b.accepts handler action ≠ [] → b.descriptors handler.sock = some conn
  | _ => True

/-- What the handlers do along a run. -/
def done {α : Type} (does : Broker → Handler → Action → List α) (b : Broker)
    (events : List Event) : List (ConnId × α) := trail step (doing does) b events

/-- What the handler of the connection holds in its stage. -/
def held {α : Type} (part : Stage → List α) (conn : ConnId) (b : Broker) : List α :=
  (b.handlers conn).elim [] fun handler => part handler.stage

end Broker

/-- Received and not yet recorded. -/
def Stage.toRecord : Stage → List PublishPacket
  | .recording packet => [packet]
  | _ => []

/-- Recorded and not yet routed. -/
def Stage.toRoute : Stage → List PublishPacket
  | .routing packet => [packet]
  | _ => []

/-- Routed and not yet handed over. -/
def Stage.toForward : Stage → List (RawSocket × Bytes)
  | .forwarding publishFrame targets => targets.map (·, publishFrame)
  | _ => []

/-- The frames that a routing step is about to hand over. -/
def framesOf (routed : PublishPacket × Broker) : List (RawSocket × Bytes) :=
  (routed.2.targets routed.1.topic).map (·, encodePublish routed.1.topic routed.1.payload)

namespace Broker

section Balance

variable {b b' : Broker} {conn : ConnId} {handler next : Handler} {action : Action}

theorem toRecord_afterRequest (request : Request) : (afterRequest request).toRecord =
    match request with
    | .publish (some packet) => [packet]
    | _ => [] := by
  cases request with
  | publish packet => cases packet <;> rfl
  | subscribe packet => cases packet <;> rfl
  | pingreq | disconnect | unexpected => rfl

theorem toRoute_afterRequest (request : Request) : (afterRequest request).toRoute = [] := by
  cases request with
  | publish packet => cases packet <;> rfl
  | subscribe packet => cases packet <;> rfl
  | pingreq | disconnect | unexpected => rfl

theorem toForward_afterRequest (request : Request) : (afterRequest request).toForward = [] := by
  cases request with
  | publish packet => cases packet <;> rfl
  | subscribe packet => cases packet <;> rfl
  | pingreq | disconnect | unexpected => rfl

/-- A step of a handler takes a message from one stage to the next. -/
theorem balance_act (h : b.act conn handler action = some b')
    (hnext : b'.handlers conn = some next) :
    handler.stage.toRecord ++ b.accepts handler action =
        records handler action ++ next.stage.toRecord ∧
      handler.stage.toRoute ++ records handler action =
        (b.routes handler action).map Prod.fst ++ next.stage.toRoute ∧
      handler.stage.toForward ++ (b.routes handler action).flatMap framesOf =
        forwards handler action ++ next.stage.toForward := by
  unfold act at h
  split at h
  case h_5 source hreading =>
      cases hread : (nextRequest handler.buffer).run (b.incoming handler.sock source) with
      | none =>
          rw [hread] at h
          obtain rfl := next_of_become h hnext
          simp [accepts, records, routes, forwards, hreading, hread, Stage.toRecord, Stage.toRoute,
            Stage.toForward]
      | some got =>
          obtain ⟨⟨request, buffer⟩, rest⟩ := got
          rw [hread] at h
          obtain rfl := next_of_become h hnext
          simp only [accepts, records, routes, forwards, hreading, hread, toRecord_afterRequest,
            toRoute_afterRequest, toForward_afterRequest]
          split <;> simp_all [Stage.toRecord, Stage.toRoute, Stage.toForward]
  case h_17 => cases h
  case h_1 hstage | h_3 hstage | h_4 hstage =>
      split at h <;> obtain rfl := next_of_become h hnext <;>
        simp [accepts, records, routes, forwards, hstage, Stage.toRecord, Stage.toRoute,
          Stage.toForward]
  all_goals
    rename_i hstage
    obtain rfl := next_of_become h hnext
    simp [accepts, records, routes, forwards, hstage, Stage.toRecord, Stage.toRoute,
      Stage.toForward, framesOf]

end Balance

section Parties

variable {α β γ : Type} {b b' : Broker} {m m' : Members} {conn : ConnId} {event : Event}
  {events : List Event}

theorem entriesOf_doing_own (does : Broker → Handler → Action → List α) {handler : Handler}
    (hhandler : b.handlers conn = some handler) (action : Action) :
    entriesOf conn (doing does b (.act conn action)) = does b handler action := by
  simp [doing, hhandler, entriesOf, List.flatMap_map]

theorem entriesOf_doing_other (does : Broker → Handler → Action → List α)
    (hother : ∀ action, event ≠ .act conn action) : entriesOf conn (doing does b event) = [] := by
  cases event with
  | act actor action =>
      have hne : actor ≠ conn := by
        rintro rfl
        exact hother action rfl
      cases hhandler : b.handlers actor <;> simp [doing, hhandler, entriesOf, hne]
  | start | stopFlag | stopSessions | stopJoined | accept | clearMessages => rfl

/-- Only its own steps change what a handler holds. -/
theorem held_other {part : Stage → List γ} (hfresh : part .handshake = []) (hkept : Kept b m)
    (hturned : Turned b m event b' m') (hother : ∀ action, event ≠ .act conn action) :
    held part conn b' = held part conn b := by
  cases hhandler : b.handlers conn with
  | some handler => rw [held, hkept.bystander hturned hhandler hother, held, hhandler]
  | none =>
      cases hturned with
      | started | flagged | swept | joined | cleared => rfl
      | accepted =>
          rw [held, acceptConn_handlers, held, hhandler]
          split
          · exact hfresh
          · rfl
      | @acted actor _ _ _ handler _ hacted =>
          have hne : conn ≠ actor := by
            rintro rfl
            exact hother _ rfl
          rw [held, hacted.other hne, held]

/-- What a balance of the handler's own steps says of whole runs. -/
theorem done_balance (puts : Broker → Handler → Action → List α)
    (takes : Broker → Handler → Action → List β) (put : α → List γ) (taken : β → List γ)
    (part : Stage → List γ) (hfresh : part .handshake = [])
    (hact : ∀ {b b' : Broker} {conn : ConnId} {handler next : Handler} {action : Action},
      b.act conn handler action = some b' → b'.handlers conn = some next →
        part handler.stage ++ (puts b handler action).flatMap put =
          (takes b handler action).flatMap taken ++ part next.stage)
    (hkept : b.Bookkept) (hrun : run step b events = some b') (conn : ConnId) :
    held part conn b ++ (entriesOf conn (done puts b events)).flatMap put =
      (entriesOf conn (done takes b events)).flatMap taken ++ held part conn b' := by
  simp only [entriesOf_flatMap]
  refine trail_balance (I := Bookkept) (fun _ _ _ hkept hstep => hkept.step hstep)
    (fun u event v hkept hstep => ?_) hkept hrun
  simp only [← entriesOf_flatMap]
  obtain ⟨m, hkept⟩ := hkept
  obtain ⟨m', hturned, -⟩ := step_kept hkept hstep
  by_cases hmine : ∃ action, event = .act conn action
  · obtain ⟨action, rfl⟩ := hmine
    obtain ⟨handler, hhandler, hstep⟩ := Option.bind_eq_some_iff.mp hstep
    obtain ⟨next, hnext, -⟩ := (acted (m := m) hstep).self
    rw [entriesOf_doing_own _ hhandler, entriesOf_doing_own _ hhandler, held, hhandler, held, hnext]
    exact hact hstep hnext
  · have hother : ∀ action, event ≠ .act conn action := fun action h => hmine ⟨action, h⟩
    rw [entriesOf_doing_other _ hother, entriesOf_doing_other _ hother,
      held_other hfresh hkept hturned hother]
    simp

end Parties

section Runs

variable {b b' : Broker} {events : List Event}

theorem accepted_recorded (hkept : b.Bookkept) (hrun : run step b events = some b')
    (conn : ConnId) :
    held Stage.toRecord conn b ++ entriesOf conn (done accepts b events) =
      entriesOf conn (done (fun _ => records) b events) ++ held Stage.toRecord conn b' := by
  have hbalance := done_balance accepts (fun _ => records) (fun packet => [packet])
    (fun packet => [packet]) Stage.toRecord rfl
    (fun hact hnext => by simpa using (balance_act hact hnext).1) hkept hrun conn
  simpa using hbalance

theorem recorded_routed (hkept : b.Bookkept) (hrun : run step b events = some b')
    (conn : ConnId) :
    held Stage.toRoute conn b ++ entriesOf conn (done (fun _ => records) b events) =
      (entriesOf conn (done routes b events)).map Prod.fst ++ held Stage.toRoute conn b' := by
  have hbalance := done_balance (fun _ => records) routes (fun packet => [packet])
    (fun routed => [routed.1]) Stage.toRoute rfl
    (fun hact hnext => by
      simpa [← List.map_eq_flatMap] using (balance_act hact hnext).2.1) hkept hrun conn
  simpa [← List.map_eq_flatMap] using hbalance

theorem routed_forwarded (hkept : b.Bookkept) (hrun : run step b events = some b')
    (conn : ConnId) :
    held Stage.toForward conn b ++ (entriesOf conn (done routes b events)).flatMap framesOf =
      entriesOf conn (done (fun _ => forwards) b events) ++ held Stage.toForward conn b' := by
  have hbalance := done_balance routes (fun _ => forwards) framesOf (fun handed => [handed])
    Stage.toForward rfl
    (fun hact hnext => by simpa using (balance_act hact hnext).2.2) hkept hrun conn
  simpa using hbalance

@[simp] theorem removeSession_history (b : Broker) (clientId : Bytes) :
    (b.removeSession clientId).history = b.history := by
  unfold removeSession
  split <;> rfl

@[simp] theorem addFilters_history (b : Broker) (clientId : Bytes) (packet : SubscribePacket) :
    (b.addFilters clientId packet).1.history = b.history := by
  unfold addFilters
  split <;> rfl

@[simp] theorem become_history (b : Broker) (conn : ConnId) (handler : Handler) :
    (b.become conn handler).history = b.history := rfl

theorem history_act {conn : ConnId} {handler : Handler} {action : Action}
    (h : b.act conn handler action = some b') :
    b'.history = b.history ++ records handler action := by
  unfold act at h
  split at h
  case h_17 => cases h
  case h_1 hstage | h_3 hstage | h_4 hstage | h_5 hstage =>
      split at h <;> cases h <;> simp [records, hstage]
  case h_10 packet hstage =>
      cases h
      calc (b.addFilters handler.clientId packet).1.history = b.history :=
            addFilters_history ..
        _ = b.history ++ records handler .subscribe := by simp [records, hstage]
  all_goals
    rename_i hstage
    cases h
    simp [records, hstage, registerSession, sockClose]

theorem history_step {event : Event} (hclear : event ≠ .clearMessages)
    (hstep : b.step event = some b') :
    b'.history = b.history ++ (doing (fun _ => records) b event).map Prod.snd := by
  cases event with
  | clearMessages => exact absurd rfl hclear
  | act conn action =>
      obtain ⟨handler, hhandler, hact⟩ := Option.bind_eq_some_iff.mp hstep
      rw [history_act hact]
      simp [doing, hhandler]
  | start | stopFlag | stopSessions | stopJoined | accept =>
      obtain ⟨-, heq⟩ := Option.ite_none_right_eq_some.mp hstep
      cases heq
      exact (List.append_nil _).symm

/-- While nothing clears it the history grows by what is recorded. -/
theorem history_run (hclear : .clearMessages ∉ events) (hrun : run step b events = some b') :
    b'.history = b.history ++ (done (fun _ => records) b events).map Prod.snd := by
  induction events generalizing b with
  | nil =>
      obtain rfl : b = b' := by simpa using hrun
      simp [done]
  | cons event events ih =>
      obtain ⟨u, hu, hrest⟩ := run_cons_some_iff.mp hrun
      rw [List.mem_cons, not_or] at hclear
      have hdone : done (fun _ => records) b (event :: events) =
          doing (fun _ => records) b event ++ done (fun _ => records) u events := trail_cons hu _
      rw [ih hclear.2 hrest, history_step (Ne.symm hclear.1) hu, hdone, List.map_append,
        List.append_assoc]

end Runs

section Subscribers

variable {b b' : Broker} {events : List Event} {clientId : Bytes} {sock : RawSocket}

/-- The frames among those handed over that go to the socket. -/
def toSock (sock : RawSocket) (handed : List (RawSocket × Bytes)) : List Bytes :=
  (handed.filter fun entry => entry.1 = sock).map Prod.snd

theorem toSock_append (handed more : List (RawSocket × Bytes)) :
    toSock sock (handed ++ more) = toSock sock handed ++ toSock sock more := by
  simp [toSock]

theorem toSock_flatMap {α : Type} (entries : List α) (f : α → List (RawSocket × Bytes)) :
    toSock sock (entries.flatMap f) = entries.flatMap fun entry => toSock sock (f entry) := by
  induction entries with
  | nil => rfl
  | cons entry entries ih =>
      rw [List.flatMap_cons, toSock_append, ih, List.flatMap_cons]

theorem toSock_framesOf (routed : PublishPacket × Broker) :
    toSock sock (framesOf routed) = List.replicate ((routed.2.targets routed.1.topic).count sock)
      (encodePublish routed.1.topic routed.1.payload) := by
  rw [framesOf]
  induction routed.2.targets routed.1.topic with
  | nil => rfl
  | cons target targets ih =>
      by_cases heq : target = sock
      · subst heq
        rw [List.count_cons_self, List.replicate_succ, ← ih]
        simp [toSock]
      · rw [List.count_cons_of_ne heq, ← ih]
        simp [toSock, heq]

/-- The client's session is there and has the socket. -/
def Registered (clientId : Bytes) (sock : RawSocket) (b : Broker) : Prop :=
  (b.sessions[clientId]?).map Session.sock = some sock

instance (clientId : Bytes) (sock : RawSocket) (b : Broker) :
    Decidable (Registered clientId sock b) :=
  inferInstanceAs (Decidable (_ = _))

/-- A filter of the client's session matches the topic. -/
def Matches (clientId topic : Bytes) (b : Broker) : Prop :=
  ∃ session, b.sessions[clientId]? = some session ∧
    ∃ filter ∈ session.filters, topicMatches filter topic = true

theorem mem_targets_of_matches {topic : Bytes} (hregistered : Registered clientId sock b)
    (hmatches : Matches clientId topic b) : sock ∈ b.targets topic := by
  obtain ⟨session, hsession, filter, hfilter, hcovers⟩ := hmatches
  rw [Registered, hsession, Option.map_some, Option.some.injEq] at hregistered
  simp only [targets, List.mem_map, List.mem_filter, List.any_eq_true]
  exact ⟨(clientId, session), ⟨Std.TreeMap.mem_toList_iff_getElem?_eq_some.mpr hsession, filter,
    hfilter, hcovers⟩, hregistered⟩

theorem mem_doing {α : Type} {does : Broker → Handler → Action → List α} {event : Event}
    {entry : ConnId × α} (h : entry ∈ doing does b event) :
    ∃ handler action, event = .act entry.1 action ∧ b.handlers entry.1 = some handler ∧
      entry.2 ∈ does b handler action := by
  cases event with
  | act conn action =>
      simp only [doing] at h
      cases hhandler : b.handlers conn with
      | none => simp [hhandler] at h
      | some handler =>
          rw [hhandler, Option.elim_some, List.mem_map] at h
          obtain ⟨done, hdone, rfl⟩ := h
          exact ⟨handler, action, rfl, hhandler, hdone⟩
  | start | stopFlag | stopSessions | stopJoined | accept | clearMessages => cases h

/-- A routing step looks at the sessions as they are. -/
theorem mem_doing_routes {event : Event} {routed : ConnId × PublishPacket × Broker}
    (h : routed ∈ doing routes b event) : routed.2.2 = b := by
  obtain ⟨handler, action, -, -, hroutes⟩ := mem_doing h
  unfold routes at hroutes
  split at hroutes
  · rw [List.mem_singleton.mp hroutes]
  · cases hroutes

end Subscribers

end Broker

/-- The history is what has been recorded since the last time it was cleared,
in the order of the recording steps. -/
def HistorySinceClear (events : List Event) (b : Broker) : Prop :=
  ∀ before after mid, events = before ++ after →
    (before = [] ∨ before.getLast? = some .clearMessages) → .clearMessages ∉ after →
    run Broker.step {} before = some mid →
      b.history = (Broker.done (fun _ => Broker.records) mid after).map Prod.snd

/-- What a connection has published and the broker accepted has been recorded
in the same order, but for the one message that is about to be recorded. -/
def RecordedInOrder (conn : ConnId) (events : List Event) (b : Broker) : Prop :=
  entriesOf conn (Broker.done Broker.accepts {} events) =
    entriesOf conn (Broker.done (fun _ => Broker.records) {} events) ++
      Broker.held Stage.toRecord conn b

/-- The connection's handler has handed over nothing but frames of messages
that it had recorded. -/
def RecordedFirst (conn : ConnId) (events : List Event) : Prop :=
  entriesOf conn (Broker.done (fun _ => Broker.forwards) {} events) <+:
      (entriesOf conn (Broker.done Broker.routes {} events)).flatMap framesOf ∧
    (entriesOf conn (Broker.done Broker.routes {} events)).map Prod.fst <+:
      entriesOf conn (Broker.done (fun _ => Broker.records) {} events)

/-- Along the run from `b` to `b'` the handler of `conn` hands to the
subscriber, beginning with what it held at first and ending with what it
holds at last, the messages that it routes, one after the other, and every
message that matches at least once. -/
def InPublishingOrder (clientId : Bytes) (sock : RawSocket) (conn : ConnId) (b : Broker)
    (events : List Event) (b' : Broker) : Prop :=
  let routed := entriesOf conn (Broker.done Broker.routes b events)
  let copies (entry : PublishPacket × Broker) : ℕ := (entry.2.targets entry.1.topic).count sock
  Broker.toSock sock (Broker.held Stage.toForward conn b) ++
      routed.flatMap (fun entry => List.replicate (copies entry)
        (encodePublish entry.1.topic entry.1.payload)) =
    Broker.toSock sock (entriesOf conn (Broker.done (fun _ => Broker.forwards) b events)) ++
      Broker.toSock sock (Broker.held Stage.toForward conn b') ∧
  ∀ entry ∈ routed, Broker.Matches clientId entry.1.topic entry.2 → 0 < copies entry

theorem inPublishingOrder {clientId : Bytes} {sock : RawSocket} {b b' : Broker}
    {events : List Event} (hkept : b.Bookkept) (hrun : run Broker.step b events = some b')
    (hregistered : Always Broker.step (Broker.Registered clientId sock) b events) (conn : ConnId) :
    InPublishingOrder clientId sock conn b events b' := by
  refine ⟨?_, fun entry hentry hmatches => ?_⟩
  · have hforwarded := congrArg (Broker.toSock sock) (Broker.routed_forwarded hkept hrun conn)
    rw [Broker.toSock_append, Broker.toSock_append, Broker.toSock_flatMap] at hforwarded
    simpa only [Broker.toSock_framesOf] using hforwarded
  · have hthere : ∀ routed ∈ Broker.done Broker.routes b events,
        Broker.Registered clientId sock routed.2.2 :=
      forall_mem_trail (I := Broker.Registered clientId sock)
        (fun u event hu routed hrouted => Broker.mem_doing_routes hrouted ▸ hu) hregistered hrun
    have hroute := hthere _ (mem_entriesOf.mp hentry)
    exact List.count_pos_iff.mpr (Broker.mem_targets_of_matches hroute hmatches)

theorem historySinceClear {events : List Event} {b : Broker}
    (hrun : run Broker.step {} events = some b) : HistorySinceClear events b := by
  rintro before after mid rfl hbefore hclear hmid
  obtain ⟨u, hu, hafter⟩ := run_append_some_iff.mp hrun
  obtain rfl : mid = u := Option.some.inj (hmid.symm.trans hu)
  have hempty : mid.history = [] := by
    rcases hbefore with rfl | hlast
    · obtain rfl : {} = mid := by simpa using hmid
      rfl
    · obtain ⟨first, rfl⟩ := List.getLast?_eq_some_iff.mp hlast
      obtain ⟨v, -, hcleared⟩ := run_append_some_iff.mp hmid
      obtain ⟨v', hstep, hnil⟩ := run_cons_some_iff.mp hcleared
      cases hnil
      cases hstep
      rfl
  rw [Broker.history_run hclear hafter, hempty, List.nil_append]

theorem recordedFirst {events : List Event} {b : Broker}
    (hrun : run Broker.step {} events = some b) (conn : ConnId) : RecordedFirst conn events := by
  have hkept : Broker.Bookkept {} := ⟨.empty, .init⟩
  exact ⟨⟨_, (Broker.routed_forwarded hkept hrun conn).symm⟩,
    ⟨_, (Broker.recorded_routed hkept hrun conn).symm⟩⟩

theorem inPublishingOrder_of_run {events : List Event} {b : Broker}
    (hrun : run Broker.step {} events = some b) {before later : List Event} {mid : Broker}
    (hsplit : events = before ++ later) (hbefore : run Broker.step {} before = some mid)
    {clientId : Bytes} {sock : RawSocket}
    (hregistered : Always Broker.step (Broker.Registered clientId sock) mid later)
    (conn : ConnId) : InPublishingOrder clientId sock conn mid later b := by
  subst hsplit
  obtain ⟨u, hu, hlater⟩ := run_append_some_iff.mp hrun
  obtain rfl : mid = u := Option.some.inj (hbefore.symm.trans hu)
  have hmid : mid.Bookkept :=
    run_invariant (fun _ _ _ hkept hstep => hkept.step hstep) ⟨.empty, .init⟩ hbefore
  exact inPublishingOrder hmid hlater hregistered conn

/-- The publishes sent on the connection have been recorded by its own handler
in the order in which they were sent, but for the one that it is about to
record. This is more than their order in `messages()`, where a publish that
another handler has taken may happen to stand in its place. -/
def SentInOrder (conn : ConnId) (events : List Event) (b : Broker) : Prop :=
  entriesOf conn (trail Broker.step Broker.taken {} events) =
    entriesOf conn (Broker.done (fun _ => Broker.records) {} events) ++
      Broker.held Stage.toRecord conn b

namespace Broker

section Sent

variable {b : Broker} {event : Event} {events : List Event}

theorem doing_eq_taken (h : b.TakesOwn event) : b.doing accepts event = b.taken event := by
  cases event with
  | act conn action =>
      rw [doing, taken]
      cases hhandler : b.handlers conn with
      | none => rfl
      | some handler =>
          by_cases haccepts : b.accepts handler action = []
          · cases hsock : b.descriptors handler.sock <;> simp [haccepts, hsock]
          · simp [h handler hhandler haccepts]
  | start | stopFlag | stopSessions | stopJoined | accept | clearMessages => rfl

theorem accepts_enabled {conn : ConnId} {handler : Handler} {action : Action}
    (hhandler : b.handlers conn = some handler) (h : b.accepts handler action ≠ []) :
    ∃ b', b.step (.act conn action) = some b' := by
  rw [step_act hhandler]
  unfold accepts at h
  split at h
  · next source hreading =>
      split at h
      · next hread => simp [act, hreading, hread]
      · exact absurd rfl h
  · exact absurd rfl h

/-- What is taken off a connection and accepted by its own handler comes from
its own descriptor. -/
theorem source_of_taken {conn : ConnId} {handler : Handler} {action : Action}
    (hhandler : b.handlers conn = some handler) (h : b.accepts handler action ≠ [])
    (htaken : entriesOf conn (b.taken (.act conn action)) = b.accepts handler action) :
    b.descriptors handler.sock = some conn := by
  obtain ⟨packet, hpacket⟩ := List.exists_mem_of_ne_nil _ h
  rw [← htaken, mem_entriesOf] at hpacket
  cases hsource : b.descriptors handler.sock with
  | none => simp [taken, hhandler, hsource] at hpacket
  | some source =>
      simp only [taken, hhandler, hsource, Option.elim_some, List.mem_map, Prod.mk.injEq] at hpacket
      obtain ⟨_, -, hsame, -⟩ := hpacket
      rw [hsame]

end Sent

end Broker

/-- As long as handlers accept what was sent on their own connections, all of
it is recorded in order, and the first time one does not, its own connection
has sent nothing for it to record. -/
theorem sentInOrder_iff (events : List Event) :
    (∀ before after b, events = before ++ after → run Broker.step {} before = some b →
      ∀ conn, SentInOrder conn before b) ↔ Along Broker.step Broker.TakesOwn {} events := by
  have hkept : Broker.Bookkept {} := ⟨.empty, .init⟩
  constructor
  · rw [along_iff_forall_split]
    rintro hsent before event after b rfl hrun
    cases event with
    | act conn action =>
        intro handler hhandler haccepts
        obtain ⟨b', hstep⟩ := Broker.accepts_enabled hhandler haccepts
        have hrun' : run Broker.step {} (before ++ [.act conn action]) = some b' :=
          run_append hrun (run_cons_some_iff.mpr ⟨b', hstep, rfl⟩)
        have hbefore := hsent before _ b rfl hrun conn
        have hafter := hsent (before ++ [.act conn action]) after b' (by simp) hrun' conn
        have haccepted := Broker.accepted_recorded hkept hrun conn
        have haccepted' := Broker.accepted_recorded hkept hrun' conn
        rw [SentInOrder, ← haccepted] at hbefore
        rw [SentInOrder, ← haccepted', Broker.done, trail_append hrun, trail_append hrun,
          entriesOf_append, entriesOf_append, hbefore] at hafter
        apply Broker.source_of_taken hhandler haccepts
        rw [trail_cons hstep, trail_cons hstep, trail_nil, trail_nil, List.append_nil,
          List.append_nil, Broker.entriesOf_doing_own _ hhandler, List.append_assoc] at hafter
        exact List.append_cancel_left (List.append_cancel_left hafter)
    | start | stopFlag | stopSessions | stopJoined | accept | clearMessages => trivial
  · rintro htakes before after b rfl hrun conn
    have hown : Along Broker.step Broker.TakesOwn {} before := by
      rw [along_iff_forall_split] at htakes ⊢
      rintro first event rest u rfl hfirst
      exact htakes first event (rest ++ after) u (by simp) hfirst
    have haccepted := Broker.accepted_recorded hkept hrun conn
    rw [SentInOrder, ← trail_congr (fun u event h => Broker.doing_eq_taken h) hown hrun]
    exact haccepted

/-- The first handler reads on after a malformed SUBSCRIBE, when its number is
the second client's already. It accepts the first message of that client, and
records it after the second. -/
def overtaken : List Event :=
  .start :: joining 0 4 (ascii "a") ++
    [.act 0 (.receive (wholePiece 0x82 [0])), .act 0 .remove, .act 0 .close] ++
      joining 1 4 (ascii "b") ++
        [.act 0 .check, .act 0 (.receive (wholePiece 0x30 [4, 0, 1, 0x74, 0x70])),
          .act 1 (.receive (wholePiece 0x30 [4, 0, 1, 0x74, 0x71])), .act 1 .record, .act 0 .record]

end MockServices.Mqtt
