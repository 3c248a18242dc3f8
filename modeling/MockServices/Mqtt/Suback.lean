import MockServices.Mqtt.Delivery
import MockServices.Mqtt.StaleSessions

/-!
# The answer to a SUBSCRIBE

`handle_subscribe` looks for a session under the client id, adds the
filters to whatever it finds and answers with a code for each filter it
has added. Only while the session is still the connection's own is that a
code for each filter, and only while the descriptor has not been closed
does the answer go where the SUBSCRIBE came from. A connection is told by
what a descriptor denotes, not by its number.
-/

namespace MockServices.Mqtt

open Foundations

/-- However the run goes on, before the handler is back at the head of its
loop it hands one packet to its socket. -/
def HandsOne (w : Watched) (conn : ConnId) (sock : RawSocket) (packet : Bytes) : Prop :=
  ∀ later w', run Watched.step w later = some w' → .act conn .check ∉ later →
    handedBy conn w later = [] ∧ w'.step (.act conn .suback) ≠ none ∨
      handedBy conn w later = [(sock, packet)]

/-- The SUBSCRIBE is answered by one SUBACK that carries its packet id and a
code for each filter. Where it grants a filter, the filters have been added to
a session whose socket denotes the connection. -/
def AnsweredOnce (w : Watched) (conn : ConnId) (handler : Handler) (packet : SubscribePacket) :
    Prop :=
  ∃ (w' : Watched) (returnCodes : Bytes), w.step (.act conn .subscribe) = some w' ∧
    returnCodes.length = packet.filters.length ∧
    (0x00 ∈ returnCodes → ∃ (clientId : Bytes) (before after : Session),
      w.broker.sessions[clientId]? = some before ∧ w'.broker.sessions[clientId]? = some after ∧
        w'.broker.descriptors after.sock = some conn ∧
        after.filters = before.filters ++ packet.filters.map Prod.fst) ∧
    HandsOne w' conn handler.sock (encodeSuback packet.packetId returnCodes)

/-- Every SUBSCRIBE that is served while the server runs is answered. -/
def AnswersSubscribe (w : Watched) : Event → Prop
  | .act conn .subscribe => w.broker.phase = .running → ∀ handler packet,
      w.broker.handlers conn = some handler → handler.stage = .subscribing packet →
        AnsweredOnce w conn handler packet
  | _ => True

/-- The handler has a SUBSCRIBE to answer. -/
def Stage.owes : Stage → Bool
  | .subscribing _ | .suback _ _ => true
  | _ => false

/-- While a SUBSCRIBE is to be answered, the descriptor that the SUBACK goes
to denotes its connection. Once that is lost it does not come back. -/
def Addressed (w : Watched) : Prop :=
  w.broker.phase = .running → ∀ conn handler, w.broker.handlers conn = some handler →
    handler.stage.owes = true → w.broker.descriptors handler.sock = some conn

/-- The SUBSCRIBE that the step of a handler accepts. -/
def Broker.subscribes (b : Broker) (handler : Handler) (action : Action) :
    Option SubscribePacket :=
  match handler.stage, action with
  | .reading, .receive source =>
      match (nextRequest handler.buffer).run (b.incoming handler.sock source) with
      | some ((.subscribe packet, _), _) => packet
      | _ => none
  | _, _ => none

/-- The descriptor that the step of a handler closes: that of the session it
removes, or its own. -/
def Broker.closes (b : Broker) (handler : Handler) (action : Action) : Option RawSocket :=
  match handler.stage, action with
  | .dropping, .remove | .leaving, .remove => (b.sessions[handler.clientId]?).map Session.sock
  | .dropped, .close | .closing, .close => some handler.sock
  | _, _ => none

/-- A SUBSCRIBE is accepted from the handler's own connection. When it is
served, it has no filters or finds a session of the connection. No handler
closes a descriptor of a connection that waits for its SUBACK. -/
def KeepsAnswers (w : Watched) : Event → Prop
  | .act conn action => w.broker.phase = .running → ∀ handler,
      w.broker.handlers conn = some handler →
        (∀ packet, w.broker.subscribes handler action = some packet →
          w.broker.descriptors handler.sock = some conn) ∧
        (∀ packet, action = .subscribe → handler.stage = .subscribing packet →
          packet.filters = [] ∨ ∃ session, w.broker.sessions[handler.clientId]? = some session ∧
            w.broker.descriptors session.sock = some conn) ∧
        ∀ sock other waiting, w.broker.closes handler action = some sock →
          w.broker.descriptors sock = some other → w.broker.handlers other = some waiting →
            waiting.stage.owes = false
  | _ => True

/-- A SUBSCRIBE that `decode_subscribe` accepts is not lost on the way: the
handler that has received it does nothing before it serves it. -/
def ReachesSubscribe (w : Watched) (conn : ConnId) : Prop :=
  ∀ handler source header body rest packet, w.broker.handlers conn = some handler →
    handler.stage = .reading →
    readPacket.run (w.broker.incoming handler.sock source) = some ((header, body), rest) →
    packetType header = PacketType.subscribe.code →
    decodeSubscribe (store (store handler.buffer [header]) body) body.length = some packet →
    ∃ w', w.step (.act conn (.receive source)) = some w' ∧
      ∀ later w'', run Watched.step w' later = some w'' → .act conn .subscribe ∉ later →
        handedBy conn w' later = [] ∧
          (w''.broker.handlers conn).map Handler.stage = some (.subscribing packet)

theorem encodeRemainingLength_ne_nil (length : ℕ) : encodeRemainingLength length ≠ [] := by
  rw [encodeRemainingLength]
  split <;> simp

/-- A SUBACK without codes is shorter than any other. -/
theorem encodeSuback_nil {packetId : ℕ} {codes : Bytes}
    (h : encodeSuback packetId codes = encodeSuback packetId []) : codes = [] := by
  have hlength := congrArg List.length h
  have hpos := List.length_pos_iff.mpr (encodeRemainingLength_ne_nil (codes.length + 1 + 1))
  have hone : (encodeRemainingLength (0 + 1 + 1)).length = 1 := by decide +kernel
  simp only [encodeSuback, framePacket, List.length_cons, List.length_append, List.length_nil,
    hone] at hlength
  exact List.length_eq_zero_iff.mp (by omega)

theorem encodeSuback_inj {packetId : ℕ} {codes codes' : Bytes}
    (hlength : codes.length = codes'.length)
    (h : encodeSuback packetId codes = encodeSuback packetId codes') : codes = codes' := by
  simpa [encodeSuback, framePacket, hlength] using h

section Steps

variable {b b' : Broker} {conn : ConnId} {handler : Handler} {action : Action}

theorem suback_act {packetId : ℕ} {returnCodes : Bytes}
    (hstage : handler.stage = .suback packetId returnCodes)
    (h : b.act conn handler action = some b') :
    action = .suback ∧ b' = b.become conn { handler with stage := .loop } := by
  cases action <;> simp [Broker.act, hstage] at h
  exact ⟨rfl, h.symm⟩

theorem loop_act (hstage : handler.stage = .loop) (h : b.act conn handler action = some b') :
    action = .check := by
  cases action <;> simp [Broker.act, hstage] at h
  rfl

/-- A handler has a SUBSCRIBE to answer when it has just accepted it, or had it before. -/
theorem owes_act {next : Handler} (h : b.act conn handler action = some b')
    (hnext : b'.handlers conn = some next) (howes : next.stage.owes = true) :
    b.closes handler action = none ∧
      (b.subscribes handler action ≠ none ∨ handler.stage.owes = true) := by
  have hbecome : ∀ {b₀ : Broker} {handler' : Handler}, some (b₀.become conn handler') = some b' →
      handler'.stage.owes = true :=
    fun h => Broker.next_of_become h hnext ▸ howes
  unfold Broker.act at h
  split at h
  case h_1 | h_3 | h_4 => split at h <;> cases hbecome h
  case h_5 source hstage =>
      split at h
      · cases hbecome h
      · next request buffer rest hread =>
          have hsubscribes := hbecome h
          cases request with
          | subscribe packet =>
              cases packet with
              | none => cases hsubscribes
              | some packet =>
                  exact ⟨by simp [Broker.closes, hstage],
                    Or.inl (by simp [Broker.subscribes, hstage, hread])⟩
          | publish packet => cases packet <;> cases hsubscribes
          | pingreq | disconnect | unexpected => cases hsubscribes
  case h_10 packet hstage =>
      exact ⟨by simp [Broker.closes, hstage], Or.inr (by rw [hstage]; rfl)⟩
  case h_17 => cases h
  all_goals cases hbecome h

variable (conn) in
theorem subscribes_act {packet : SubscribePacket} (h : b.subscribes handler action = some packet) :
    b.closes handler action = none ∧ ∃ b' next, b.act conn handler action = some b' ∧
      b'.handlers conn = some next ∧ next.sock = handler.sock ∧ next.stage.owes = true := by
  unfold Broker.subscribes at h
  split at h
  · next source hstage =>
      split at h
      · next hread =>
          subst h
          refine ⟨by simp [Broker.closes, hstage], ?_⟩
          simp only [Broker.act, hstage, hread]
          exact ⟨_, _, rfl, Broker.become_handlers_self .., rfl, rfl⟩
      · cases h
  · cases h

theorem closes_act {sock : RawSocket} (h : b.closes handler action = some sock) (conn : ConnId) :
    handler.stage.owes = false ∧ ∃ b', b.act conn handler action = some b' := by
  unfold Broker.closes at h
  split at h
  case h_5 => cases h
  all_goals
    rename_i hstage
    simp only [Broker.act, hstage]
    exact ⟨rfl, _, rfl⟩

theorem descriptors_act (h : b.act conn handler action = some b') (sock : RawSocket) :
    b'.descriptors sock = if b.closes handler action = some sock then none
      else b.descriptors sock := by
  obtain ⟨m', hacted⟩ : ∃ m', Acted b .empty conn handler action b' m' := ⟨_, acted h⟩
  have hstays : b.closes handler action = none → b'.descriptors = b.descriptors →
      b'.descriptors sock = if b.closes handler action = some sock then none
        else b.descriptors sock := by
    intro hnone hsame
    rw [hnone, if_neg (by simp), hsame]
  cases hacted with
  | refused hstage | identified _ hstage | registered hstage =>
      exact hstays (by simp [Broker.closes, hstage]) rfl
  | served _ _ _ hstage =>
      refine hstays ?_ rfl
      unfold Broker.closes
      split <;> first | rfl | simp_all [Stage.serving]
  | subscribed packet hstage =>
      exact hstays (by simp [Broker.closes, hstage]) (Broker.addFilters_descriptors ..)
  | removed next hstage =>
      rw [Broker.become_descriptors, Broker.removeSession_descriptors]
      rcases hstage with ⟨hstage, -⟩ | ⟨hstage, -⟩ <;> simp [Broker.closes, hstage]
  | closed next hstage =>
      rw [Broker.become_descriptors, Broker.sockClose_descriptors]
      rcases hstage with ⟨hstage, -⟩ | ⟨hstage, -⟩ <;> simp [Broker.closes, hstage, eq_comm]

theorem subscribing_act {packet : SubscribePacket} (hstage : handler.stage = .subscribing packet)
    (h : b.act conn handler action = some b') : action = .subscribe := by
  cases action <;> simp [Broker.act, hstage] at h
  rfl

end Steps

section Runs

variable {w w' : Watched} {conn : ConnId} {handler : Handler} {later : List Event}

theorem subscribing_run {packet : SubscribePacket} (hkept : Kept w.broker w.members)
    (hhandler : w.broker.handlers conn = some handler)
    (hstage : handler.stage = .subscribing packet) (hevents : .act conn .subscribe ∉ later)
    (hrun : run Watched.step w later = some w') :
    handedBy conn w later = [] ∧
      (w'.broker.handlers conn).map Handler.stage = some (.subscribing packet) := by
  let Waits (g : Handler) (handed : List (RawSocket × Bytes)) : Prop :=
    g.stage = .subscribing packet ∧ handed = []
  have hrun' := handed_run (I := Waits) (fun b b' g before action hmem hg hbefore hact => by
    rw [subscribing_act hbefore.1 hact] at hmem
    exact absurd hmem hevents) hkept hhandler ⟨hstage, rfl⟩ hrun
  obtain ⟨next, hnext, hwaits, hnothing⟩ := hrun'
  exact ⟨hnothing, by rw [hnext, Option.map_some, hwaits]⟩

/-- The handler hands over its SUBACK and is back in the loop. -/
theorem suback_run {packetId : ℕ} {returnCodes : Bytes} (hkept : Kept w.broker w.members)
    (hhandler : w.broker.handlers conn = some handler)
    (hstage : handler.stage = .suback packetId returnCodes) :
    HandsOne w conn handler.sock (encodeSuback packetId returnCodes) := by
  intro later w' hrun hevents
  let Replies (g : Handler) (handed : List (RawSocket × Bytes)) : Prop :=
    g = handler ∧ handed = [] ∨
      g.stage = .loop ∧ handed = [(handler.sock, encodeSuback packetId returnCodes)]
  have hrun' := handed_run (I := Replies) (fun b b' g before action hmem hg hbefore hact => by
    rcases hbefore with ⟨rfl, rfl⟩ | ⟨hloop, -⟩
    · obtain ⟨rfl, rfl⟩ := suback_act hstage hact
      refine ⟨_, Broker.become_handlers_self .., Or.inr ⟨rfl, ?_⟩⟩
      simp [Broker.sends, hg, hstage]
    · rw [loop_act hloop hact] at hmem
      exact absurd hmem hevents) hkept hhandler (Or.inl ⟨rfl, rfl⟩) hrun
  obtain ⟨next, hnext, ⟨rfl, hnothing⟩ | ⟨-, hone⟩⟩ := hrun'
  · refine Or.inl ⟨hnothing, ?_⟩
    simp [Watched.step, Broker.step_act hnext, Broker.act, hstage]
  · exact Or.inr hone

/-- What the handler is going to hand over is settled. -/
theorem HandsOne.packet_eq {sock : RawSocket} {packet : Bytes} {packetId : ℕ} {returnCodes : Bytes}
    (h : HandsOne w conn sock packet) (hhandler : w.broker.handlers conn = some handler)
    (hstage : handler.stage = .suback packetId returnCodes) :
    encodeSuback packetId returnCodes = packet := by
  have hstep : w.step (.act conn .suback) =
      some ⟨w.broker.become conn { handler with stage := .loop },
        observe w.broker w.members (.act conn .suback)⟩ := by
    simp only [Watched.step, Broker.step_act hhandler, Broker.act, hstage, Option.map_some]
  have hhanded : handedBy conn w [.act conn .suback] =
      [(handler.sock, encodeSuback packetId returnCodes)] := by
    simp [handedBy, hstep, Broker.sends, hhandler, hstage]
  have hrun : run Watched.step w [.act conn .suback] = some _ :=
    run_cons_some_iff.mpr ⟨_, hstep, rfl⟩
  rcases h _ _ hrun (by simp) with ⟨hnothing, -⟩ | hone
  · simp [hhanded] at hnothing
  · simpa using (congrArg (List.map Prod.snd) (hhanded.symm.trans hone))

end Runs

/-- A body that `decode_subscribe` accepts is what the turn of the loop yields. -/
theorem nextRequest_subscribe {buffer body : Bytes} {header : UInt8} {source rest : Source UInt8}
    {packet : SubscribePacket} (hreads : readPacket.run source = some ((header, body), rest))
    (htype : packetType header = PacketType.subscribe.code)
    (hdecode : decodeSubscribe (store (store buffer [header]) body) body.length = some packet) :
    ∃ after, (nextRequest buffer).run source = some ((.subscribe (some packet),
      store (store buffer [header]) body), after) := by
  have hparse : readPacket.parse source.contents = some ((header, body), rest.contents) :=
    Reader.run_some_iff.mpr ⟨rest, hreads, rfl⟩
  have hrequest : request (packetType header) (store (store buffer [header]) body) body.length =
      .subscribe (some packet) := by
    rw [request, htype, if_neg (by decide), if_pos rfl, hdecode]
  have hnext : (nextRequest buffer).parse source.contents =
      some ((.subscribe (some packet), store (store buffer [header]) body), rest.contents) := by
    rw [nextRequest, Reader.parse_bind, hparse, Option.bind_some, Reader.parse_pure, hrequest]
  obtain ⟨after, hafter, -⟩ := Reader.run_some_iff.mp hnext
  exact ⟨after, hafter⟩

section Answers

variable {w : Watched} {conn : ConnId} {handler : Handler} {packet : SubscribePacket}

theorem reachesSubscribe_of_kept (hkept : Kept w.broker w.members) : ReachesSubscribe w conn := by
  intro handler source header body rest packet hhandler hreading hreads htype hdecode
  obtain ⟨after, hafter⟩ := nextRequest_subscribe hreads htype hdecode
  let served : Handler := { handler with
    buffer := store (store handler.buffer [header]) body
    stage := .subscribing packet }
  have hact : w.broker.step (.act conn (.receive source)) =
      some (w.broker.become conn served) := by
    simp only [Broker.step_act hhandler, Broker.act, hreading, hafter]
    rfl
  have hstep : w.step (.act conn (.receive source)) = some ⟨w.broker.become conn served,
      observe w.broker w.members (.act conn (.receive source))⟩ := by
    rw [Watched.step, hact, Option.map_some]
  refine ⟨_, hstep, fun later w'' hrun hevents => ?_⟩
  exact subscribing_run (hkept.turned (turned hstep))
    (Broker.become_handlers_self _ conn served) rfl hevents hrun

/-- The codes are those of the section of `handle_subscribe`. -/
theorem subscribe_step (hhandler : w.broker.handlers conn = some handler)
    (hstage : handler.stage = .subscribing packet) :
    w.step (.act conn .subscribe) =
      some ⟨(w.broker.addFilters handler.clientId packet).1.become conn { handler with
          stage := .suback packet.packetId (w.broker.addFilters handler.clientId packet).2 },
        observe w.broker w.members (.act conn .subscribe)⟩ := by
  simp only [Watched.step, Broker.step_act hhandler, Broker.act, hstage, Option.map_some]

theorem addFilters_none (hnone : w.broker.sessions[handler.clientId]? = none) :
    (w.broker.addFilters handler.clientId packet).2 = [] := by
  simp only [Broker.addFilters, hnone]

theorem addFilters_some {session : Session}
    (hsome : w.broker.sessions[handler.clientId]? = some session) :
    (w.broker.addFilters handler.clientId packet).2 = packet.filters.map fun _ => 0x00 := by
  simp only [Broker.addFilters, hsome]

theorem answered_of_found (hkept : Kept w.broker w.members)
    (hhandler : w.broker.handlers conn = some handler)
    (hstage : handler.stage = .subscribing packet)
    (hfound : packet.filters = [] ∨ ∃ session,
      w.broker.sessions[handler.clientId]? = some session ∧
        w.broker.descriptors session.sock = some conn) :
    AnsweredOnce w conn handler packet := by
  have hstep := subscribe_step hhandler hstage
  have hreply := suback_run (hkept.turned (turned hstep)) (Broker.become_handlers_self ..) rfl
  refine ⟨_, _, hstep, ?_, fun hgranted => ?_, hreply⟩
  · cases hsession : w.broker.sessions[handler.clientId]? with
    | none =>
        have hnil : packet.filters = [] := by simpa [hsession] using hfound
        rw [addFilters_none hsession, hnil]
        rfl
    | some session => rw [addFilters_some hsession, List.length_map]
  · cases hsession : w.broker.sessions[handler.clientId]? with
    | none => simp [addFilters_none hsession] at hgranted
    | some session =>
        have hfilters : packet.filters ≠ [] := by
          intro hnil
          simp [addFilters_some hsession, hnil] at hgranted
        obtain ⟨found, hfound, hown⟩ := hfound.resolve_left hfilters
        obtain rfl : session = found := Option.some.inj (hsession.symm.trans hfound)
        refine ⟨handler.clientId, session,
          { session with filters := session.filters ++ packet.filters.map Prod.fst }, hsession, ?_,
          ?_, rfl⟩
        · rw [Broker.become_sessions, Broker.addFilters_sessions, if_pos rfl, hsession,
            Option.map_some]
        · rwa [Broker.become_descriptors, Broker.addFilters_descriptors]

/-- What is handed over tells the codes, and the codes tell whether there was
a session. -/
theorem found_of_answered (hhandler : w.broker.handlers conn = some handler)
    (hstage : handler.stage = .subscribing packet)
    (h : AnsweredOnce w conn handler packet) : packet.filters = [] ∨ ∃ session,
      w.broker.sessions[handler.clientId]? = some session ∧
        w.broker.descriptors session.sock = some conn := by
  obtain ⟨w', returnCodes, hstep, hlength, hgranted, hone⟩ := h
  rw [subscribe_step hhandler hstage] at hstep
  cases hstep
  by_cases hfilters : packet.filters = []
  · exact Or.inl hfilters
  have hsent := hone.packet_eq (Broker.become_handlers_self ..) rfl
  cases hsession : w.broker.sessions[handler.clientId]? with
  | none =>
      rw [addFilters_none hsession] at hsent
      have hnone := encodeSuback_nil hsent.symm
      rw [hnone, List.length_nil, eq_comm, List.length_eq_zero_iff] at hlength
      exact absurd hlength hfilters
  | some session =>
      rw [addFilters_some hsession] at hsent
      have hcodes := encodeSuback_inj (by rw [List.length_map, hlength]) hsent
      obtain ⟨clientId, before, after, hbefore, hafter, hown, hadded⟩ := hgranted (by
        obtain ⟨filter, hfilter⟩ := List.exists_mem_of_ne_nil _ hfilters
        exact hcodes ▸ List.mem_map.mpr ⟨filter, hfilter, rfl⟩)
      rw [Broker.become_sessions, Broker.addFilters_sessions] at hafter
      rw [Broker.become_descriptors, Broker.addFilters_descriptors] at hown
      split at hafter
      · next hsame =>
          subst hsame
          rw [hsession, Option.map_some, Option.some.injEq] at hafter
          subst hafter
          exact Or.inr ⟨session, rfl, hown⟩
      · rw [hbefore, Option.some.injEq] at hafter
        simp [hafter, hfilters] at hadded

end Answers

/-- What a run keeps true as long as its steps keep the answers. -/
structure Answering (w : Watched) : Prop where
  kept : Kept w.broker w.members
  idle : w.broker.IdleDone
  denoting : w.broker.Denoting
  addressed : Addressed w

namespace Answering

variable {w w' : Watched} {event : Event}

theorem init : Answering {} where
  kept := Kept.init
  idle _ _ _ hhandler := by cases hhandler
  denoting _ _ hopen := by cases hopen
  addressed hrunning := by cases hrunning

theorem addressed_act {conn : ConnId} {action : Action} {handler : Handler} {b' : Broker}
    (h : Answering w) (hrunning : w.broker.phase = .running)
    (hhandler : w.broker.handlers conn = some handler)
    (hkeeps : KeepsAnswers w (.act conn action))
    (hact : w.broker.act conn handler action = some b') {other : ConnId} {waiting : Handler}
    (hwaiting : b'.handlers other = some waiting) (howes : waiting.stage.owes = true) :
    b'.descriptors waiting.sock = some other := by
  obtain ⟨hsubscribes, -, hcloses⟩ := hkeeps hrunning handler hhandler
  have hacted := acted (m := w.members) hact
  rw [descriptors_act hact]
  by_cases hown : other = conn
  · subst hown
    obtain ⟨next, hnext, hsock⟩ := hacted.self
    obtain rfl : waiting = next := Option.some.inj (hwaiting.symm.trans hnext)
    obtain ⟨hnone, hnew | hold⟩ := owes_act hact hwaiting howes
    · obtain ⟨packet, hpacket⟩ := Option.ne_none_iff_exists'.mp hnew
      rw [hnone, if_neg (by simp), hsock]
      exact hsubscribes packet hpacket
    · rw [hnone, if_neg (by simp), hsock]
      exact h.addressed hrunning other handler hhandler hold
  · have hbefore := (hacted.other hown).symm.trans hwaiting
    have hopen := h.addressed hrunning other waiting hbefore howes
    rw [if_neg]
    · exact hopen
    · intro hclosed
      simp [hcloses _ other waiting hclosed hopen hbefore] at howes

theorem step (h : Answering w) (hkeeps : KeepsAnswers w event) (hstep : w.step event = some w') :
    Answering w' := by
  have hturned := turned hstep
  refine ⟨h.kept.turned hturned, h.idle.step h.kept hturned, h.denoting.step h.kept hturned,
    fun hrunning conn waiting hwaiting howes => ?_⟩
  obtain ⟨b', hb', rfl⟩ := Option.map_eq_some_iff.mp hstep
  dsimp only at hturned hrunning hwaiting ⊢
  cases hturned with
  | started hphase =>
      have hdone := h.idle hphase conn waiting hwaiting
      simp [hdone, Stage.owes] at howes
  | flagged | swept | joined => cases hrunning
  | cleared => exact h.addressed hrunning conn waiting hwaiting howes
  | accepted hphase hfree =>
      rw [Broker.acceptConn_handlers] at hwaiting
      split at hwaiting
      · cases hwaiting
        cases howes
      · have hopen := h.addressed hrunning conn waiting hwaiting howes
        rw [Broker.acceptConn_descriptors, if_neg]
        · exact hopen
        · intro hsame
          simp [hsame, hfree] at hopen
  | acted handler hhandler hacted =>
      rw [Broker.step_act hhandler] at hb'
      exact h.addressed_act (hacted.phase.symm.trans hrunning) hhandler hkeeps hb' hwaiting howes

theorem answers (h : Answering w) (hkeeps : KeepsAnswers w event) : AnswersSubscribe w event := by
  unfold AnswersSubscribe
  split
  · intro hrunning handler packet hhandler hstage
    have hfound := (hkeeps hrunning handler hhandler).2.1 packet rfl hstage
    exact answered_of_found h.kept hhandler hstage hfound
  · trivial

/-- A step that answers what it serves and leaves nobody without an address
keeps the answers. -/
theorem keeps (h : Answering w) (hanswers : AnswersSubscribe w event)
    (haddressed : ∀ w', w.step event = some w' → Addressed w') : KeepsAnswers w event := by
  unfold KeepsAnswers
  split
  · next conn action =>
      intro hrunning handler hhandler
      have hafter : ∀ b', w.broker.act conn handler action = some b' → ∀ other waiting,
          b'.handlers other = some waiting → waiting.stage.owes = true →
            b'.descriptors waiting.sock = some other := by
        intro b' hact
        have hstep : w.step (.act conn action) =
            some ⟨b', observe w.broker w.members (.act conn action)⟩ := by
          rw [Watched.step, Broker.step_act hhandler, hact, Option.map_some]
        have hphase := (acted (m := w.members) hact).phase
        exact haddressed _ hstep (hphase.trans hrunning)
      refine ⟨fun packet hsubscribes => ?_, ?_, fun sock other waiting hcloses hopen hwaiting => ?_⟩
      · obtain ⟨hnone, b', next, hact, hnext, hsock, howes⟩ := subscribes_act conn hsubscribes
        have hopen := hafter b' hact conn next hnext howes
        rwa [hsock, descriptors_act hact, hnone, if_neg (by simp)] at hopen
      · rintro packet rfl hstage
        exact found_of_answered hhandler hstage (hanswers hrunning handler packet hhandler hstage)
      · by_contra howes
        obtain ⟨hidle, b', hact⟩ := closes_act hcloses conn
        have hne : other ≠ conn := by
          rintro rfl
          obtain rfl : handler = waiting := Option.some.inj (hhandler.symm.trans hwaiting)
          exact howes hidle
        have hafter' := hafter b' hact other waiting
          (((acted (m := w.members) hact).other hne).trans hwaiting)
          ((Bool.not_eq_false _).mp howes)
        obtain ⟨g, hg, hsock, -⟩ := h.denoting sock other hopen
        obtain rfl : waiting = g := Option.some.inj (hwaiting.symm.trans hg)
        rw [descriptors_act hact, hsock, if_pos hcloses] at hafter'
        cases hafter'
  · trivial

end Answering

theorem kept_step (w : Watched) (event : Event) (w' : Watched) (hkept : Kept w.broker w.members)
    (hstep : w.step event = some w') : Kept w'.broker w'.members :=
  hkept.turned (turned hstep)

/-- In every run, whatever the handlers' order: no accepted SUBSCRIBE is lost
before it is served. All that are served while the server runs are answered by
one SUBACK with a code for each filter, granting only what went to a session
of the connection, and the SUBACK can go to the connection, exactly when every
step keeps the answers. -/
theorem subscribe_answered_iff (events : List Event) :
    (∀ w conn, run Watched.step {} events = some w → ReachesSubscribe w conn) ∧
    (Always Watched.step Addressed {} events ∧ Along Watched.step AnswersSubscribe {} events ↔
      Along Watched.step KeepsAnswers {} events) := by
  refine ⟨fun w conn hrun => ?_, ?_⟩
  · exact reachesSubscribe_of_kept (run_invariant kept_step Kept.init hrun)
  · exact always_and_along_iff_along (I := Answering) (fun _ h => h.addressed)
      (fun _ _ _ h hkeeps hstep => h.step hkeeps hstep) (fun _ _ h hkeeps => h.answers hkeeps)
      (fun _ _ h hanswers haddressed => h.keeps hanswers haddressed) .init events

/-- Two connections share a client id. The first leaves, and takes the session
of the second along, when the second has sent a SUBSCRIBE for `t`. -/
def sharedId : List Event :=
  .start :: joining 0 4 (ascii "a") ++ joining 1 5 (ascii "a") ++
    [.act 1 (.receive (wholePiece 0x82 [6, 0, 1, 0, 1, 0x74, 0])),
      .act 0 (.receive (wholePiece 0xE0 [0])), .act 0 .remove]

theorem subscribe_unanswered :
    ¬ ∀ events, Along Watched.step AnswersSubscribe {} events := by
  intro h
  have hlost : ((run Watched.step {} sharedId).any fun w =>
      (w.broker.handlers 1).any fun handler => decide
        (handler.stage = .subscribing ⟨1, [(ascii "t", 0)]⟩ ∧ w.broker.phase = .running ∧
          w.broker.sessions[handler.clientId]? = none)) = true := by decide +kernel
  obtain ⟨w, hrun, hany⟩ := (Option.any_eq_true _ _).mp hlost
  obtain ⟨handler, hhandler, hdecide⟩ := (Option.any_eq_true _ _).mp hany
  obtain ⟨hstage, hphase, hnone⟩ := of_decide_eq_true hdecide
  have hanswers := ((h (sharedId ++ [.act 1 .subscribe])).append hrun).1
  rcases found_of_answered hhandler hstage (hanswers hphase handler _ hhandler hstage) with
    hnil | ⟨session, hsession, -⟩
  · cases hnil
  · simp [hnone] at hsession

end MockServices.Mqtt
