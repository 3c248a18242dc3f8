import Mathlib.Data.List.Nodup
import MockServices.Mqtt.Watched

/-!
# Who is handed a forwarded message

While connections whose handlers run side by side have sockets and client
ids of their own, the sessions of the broker mirror its membership: the
session of a member holds its socket and all filters it has added. The
targets of a routing step are then the sockets of the topic's audience,
one each, and the forwarding loop hands the frame to each of them once.
-/

namespace MockServices.Mqtt

open Foundations

/-- The handler runs under a client id. -/
def Stage.named : Stage → Bool
  | .handshake | .closing | .done => false
  | _ => true

/-- Sockets are identities, and no two handlers run under one client id. -/
def Apart (h g : Handler) : Prop :=
  h.sock ≠ g.sock ∧ (h.stage.named = true → g.stage.named = true → h.clientId ≠ g.clientId)

instance (h g : Handler) : Decidable (Apart h g) := inferInstanceAs (Decidable (_ ∧ (_ → _ → _)))

def Distinct (b : Broker) : Prop :=
  ∀ i < b.nextConn, ∀ j < i, ∀ h ∈ b.handlers i, ∀ g ∈ b.handlers j, Apart h g

instance (b : Broker) : Decidable (Distinct b) :=
  inferInstanceAs (Decidable (∀ _ < _, ∀ _ < _, ∀ _ ∈ _, ∀ _ ∈ _, _))

def covers (filter topic : Bytes) : Prop := topicMatches filter topic = true

theorem named_of_member {stage : Stage}
    (h : stage.serving = true ∨ stage = .dropping ∨ stage = .leaving) : stage.named = true := by
  rcases h with h | rfl | rfl
  · cases stage <;> first | rfl | cases h
  · rfl
  · rfl

section Distinct

variable {b : Broker} {m : Members} {conn other : ConnId} {handler g : Handler}

theorem Distinct.ne (hdistinct : Distinct b) (hkept : Kept b m)
    (hhandler : b.handlers conn = some handler) (hg : b.handlers other = some g)
    (hne : conn ≠ other) : Apart handler g := by
  have hbound : ∀ {conn handler}, b.handlers conn = some handler → conn < b.nextConn :=
    fun h => hkept.lt_nextConn h
  rcases Nat.lt_or_gt_of_ne hne with hlt | hlt
  · obtain ⟨hsock, hid⟩ := hdistinct other (hbound hg) conn hlt g hg handler hhandler
    exact ⟨hsock.symm, fun h h' => (hid h' h).symm⟩
  · exact hdistinct conn (hbound hhandler) other hlt handler hhandler g hg

theorem Distinct.clientId_ne (hdistinct : Distinct b) (hkept : Kept b m)
    (hhandler : b.handlers conn = some handler) (hnamed : handler.stage.named = true)
    (hg : b.handlers other = some g) (hmember : m.accepted other ≠ none) (hne : other ≠ conn) :
    g.clientId ≠ handler.clientId := by
  obtain ⟨g', hg', hstage⟩ := hkept.member other hmember
  obtain rfl : g = g' := Option.some.inj (hg.symm.trans hg')
  exact (hdistinct.ne hkept hg hhandler hne).2 (named_of_member hstage) hnamed

end Distinct

/-- The session of a member is the one it registered, with the filters it
has added since. -/
def Mirrored (b : Broker) (m : Members) : Prop :=
  ∀ conn handler lists, b.handlers conn = some handler → m.accepted conn = some lists →
    b.sessions[handler.clientId]? = some ⟨handler.clientId, handler.sock, lists.flatten⟩

namespace Mirrored

variable {b : Broker} {m : Members} {conn : ConnId} {handler : Handler}

theorem become (h : Mirrored b m) (hhandler : b.handlers conn = some handler) {next : Handler}
    (hsame : m.accepted conn ≠ none →
      next.sock = handler.sock ∧ next.clientId = handler.clientId) :
    Mirrored (b.become conn next) m := by
  intro other g lists hg hlists
  rw [Broker.become_handlers] at hg
  split at hg
  · next heq =>
      subst heq
      cases hg
      obtain ⟨hsock, hid⟩ := hsame (by simp [hlists])
      rw [hsock, hid]
      exact h other handler lists hhandler hlists
  · exact h other g lists hg hlists

theorem acted {b' : Broker} {m' : Members} {action : Action} (h : Mirrored b m)
    (hkept : Kept b m) (hdistinct : Distinct b) (hhandler : b.handlers conn = some handler)
    (hacted : Acted b m conn handler action b' m') : Mirrored b' m' := by
  have hother : ∀ other g, b.handlers other = some g → m.accepted other ≠ none → other ≠ conn →
      handler.stage.named = true → g.clientId ≠ handler.clientId :=
    fun other g hg hmember hne hnamed =>
      hdistinct.clientId_ne hkept hhandler hnamed hg hmember hne
  cases hacted with
  | refused hstage => exact h.become hhandler fun _ => ⟨rfl, rfl⟩
  | identified clientId hstage =>
      refine h.become hhandler fun hmember => ?_
      obtain ⟨g, hg, hg'⟩ := hkept.member conn hmember
      obtain rfl : handler = g := Option.some.inj (hhandler.symm.trans hg)
      simp [hstage, Stage.serving] at hg'
  | registered hstage =>
      intro other g lists hg hlists
      rw [Broker.become_handlers] at hg
      rw [Membership.join_accepted] at hlists
      rw [Broker.become_sessions, Broker.registerSession_sessions]
      split at hg
      · next heq =>
          rw [if_pos heq] at hlists
          cases hg
          cases hlists
          rw [if_pos rfl]
          rfl
      · next hne =>
          rw [if_neg hne] at hlists
          rw [if_neg (hother other g hg (by simp [hlists]) hne (by rw [hstage]; rfl))]
          exact h other g lists hg hlists
  | served history buffer stage hstage hnext haction =>
      have hmirrored : Mirrored { b with history } m := h
      exact hmirrored.become hhandler fun _ => ⟨rfl, rfl⟩
  | subscribed packet hstage =>
      intro other g lists hg hlists
      rw [Broker.become_handlers, Broker.addFilters_handlers] at hg
      rw [Membership.subscribe_accepted] at hlists
      rw [Broker.become_sessions, Broker.addFilters_sessions]
      split at hg
      · next heq =>
          rw [if_pos heq] at hlists
          cases hg
          obtain ⟨old, hold, rfl⟩ := Option.map_eq_some_iff.mp hlists
          rw [if_pos rfl, h conn handler old hhandler hold]
          simp
      · next hne =>
          rw [if_neg hne] at hlists
          rw [if_neg (hother other g hg (by simp [hlists]) hne (by rw [hstage]; rfl))]
          exact h other g lists hg hlists
  | removed next hstage =>
      intro other g lists hg hlists
      rw [Broker.become_handlers, Broker.removeSession_handlers] at hg
      rw [Membership.leave_accepted] at hlists
      rw [Broker.become_sessions, Broker.removeSession_sessions]
      have hnamed : handler.stage.named = true := by
        rcases hstage with ⟨hstage, -⟩ | ⟨hstage, -⟩ <;> rw [hstage] <;> rfl
      split at hlists
      · cases hlists
      · next hne =>
          rw [if_neg hne] at hg
          rw [if_neg (hother other g hg (by simp [hlists]) hne hnamed)]
          exact h other g lists hg hlists
  | closed next hstage =>
      have hmirrored : Mirrored (b.sockClose handler.sock) m := h
      exact hmirrored.become hhandler fun _ => ⟨rfl, rfl⟩

theorem turned {b' : Broker} {m' : Members} {event : Event} (h : Mirrored b m) (hkept : Kept b m)
    (hdistinct : Distinct b) (hturned : Turned b m event b' m') : Mirrored b' m' := by
  cases hturned with
  | started | flagged | joined | cleared => exact h
  | swept =>
      intro conn g lists hg hlists
      cases hlists
  | accepted hphase hfree =>
      intro conn g lists hg hlists
      obtain ⟨g', hg', -⟩ := hkept.member conn (by simp [hlists])
      rw [Broker.acceptConn_handlers, if_neg (hkept.lt_nextConn hg').ne] at hg
      exact h conn g lists hg hlists
  | acted handler hhandler hacted => exact h.acted hkept hdistinct hhandler hacted

end Mirrored

section Targets

variable {b : Broker} {m : Members} (hkept : Kept b m) (hmirrored : Mirrored b m)

include hkept hmirrored

/-- Every session is the mirror of a member. -/
theorem session_member {clientId : Bytes} {session : Session}
    (hsession : b.sessions[clientId]? = some session) :
    ∃ conn handler lists, b.handlers conn = some handler ∧ m.accepted conn = some lists ∧
      handler.clientId = clientId ∧ session = ⟨clientId, handler.sock, lists.flatten⟩ := by
  obtain ⟨conn, handler, hlatest, hhandler, -, hmember⟩ := hkept.session _ _ hsession
  obtain ⟨lists, hlists⟩ := Option.ne_none_iff_exists'.mp hmember
  obtain ⟨g, hg, hid, -⟩ := hkept.latest _ _ hlatest
  obtain rfl : handler = g := Option.some.inj (hhandler.symm.trans hg)
  have hmirror := hmirrored conn handler lists hhandler hlists
  rw [hid, hsession] at hmirror
  exact ⟨conn, handler, lists, hhandler, hlists, hid, Option.some.inj hmirror⟩

theorem mem_targets (topic : Bytes) (sock : RawSocket) :
    sock ∈ b.targets topic ↔ ∃ conn handler, b.handlers conn = some handler ∧
      handler.sock = sock ∧ conn ∈ m.audience covers topic := by
  simp only [Broker.targets, List.mem_map, List.mem_filter, List.any_eq_true]
  constructor
  · rintro ⟨⟨clientId, session⟩, ⟨hentry, filter, hfilter, hcovers⟩, rfl⟩
    have hsession := Std.TreeMap.mem_toList_iff_getElem?_eq_some.mp hentry
    obtain ⟨conn, handler, lists, hhandler, hlists, -, rfl⟩ :=
      session_member hkept hmirrored hsession
    exact ⟨conn, handler, hhandler, rfl,
      (Membership.mem_audience hlists).mpr ⟨filter, hfilter, hcovers⟩⟩
  · rintro ⟨conn, handler, hhandler, rfl, haudience⟩
    obtain ⟨lists, hlists, -⟩ := id haudience
    obtain ⟨filter, hfilter, hcovers⟩ := (Membership.mem_audience hlists).mp haudience
    exact ⟨(handler.clientId, _), ⟨Std.TreeMap.mem_toList_iff_getElem?_eq_some.mpr
      (hmirrored conn handler lists hhandler hlists), filter, hfilter, hcovers⟩, rfl⟩

theorem targets_nodup (hdistinct : Distinct b) (topic : Bytes) : (b.targets topic).Nodup := by
  have hkeys : b.sessions.toList.Nodup :=
    Std.TreeMap.distinct_keys_toList.imp fun hne heq => hne (by simp [heq])
  refine List.Nodup.map_on ?_ (hkeys.filter _)
  rintro ⟨clientId, session⟩ hentry ⟨clientId', session'⟩ hentry' hsock
  have hsession := Std.TreeMap.mem_toList_iff_getElem?_eq_some.mp (List.mem_filter.mp hentry).1
  have hsession' := Std.TreeMap.mem_toList_iff_getElem?_eq_some.mp (List.mem_filter.mp hentry').1
  obtain ⟨conn, handler, lists, hhandler, hlists, rfl, rfl⟩ :=
    session_member hkept hmirrored hsession
  obtain ⟨conn', g, lists', hg, hlists', rfl, rfl⟩ := session_member hkept hmirrored hsession'
  have hsame : conn = conn' := by
    by_contra hne
    exact (hdistinct.ne hkept hhandler hg hne).1 hsock
  subst hsame
  obtain rfl : handler = g := Option.some.inj (hhandler.symm.trans hg)
  obtain rfl : lists = lists' := Option.some.inj (hlists.symm.trans hlists')
  rfl

end Targets

/-- What one handler passes to `send_all` along a run. -/
def handedBy (conn : ConnId) : Watched → List Event → List (RawSocket × Bytes)
  | _, [] => []
  | w, event :: events =>
      let handed :=
        match event with
        | .act actor _ => if actor = conn then (w.broker.sends event).toList else []
        | _ => []
      handed ++ (w.step event).elim [] fun w' => handedBy conn w' events

theorem handedBy_other {conn : ConnId} {w w' : Watched} {event : Event} {events : List Event}
    (hstep : w.step event = some w') (hevent : ∀ action, event ≠ .act conn action) :
    handedBy conn w (event :: events) = handedBy conn w' events := by
  cases event with
  | act actor action =>
      have hne : actor ≠ conn := by
        rintro rfl
        exact hevent action rfl
      simp [handedBy, hstep, hne]
  | start | stopFlag | stopSessions | stopJoined | accept | clearMessages =>
      simp [handedBy, hstep]

/-- A handler in the forwarding loop hands the frame to the next target or,
when none is left, leaves the loop. -/
theorem forwarding_act {b b' : Broker} {conn : ConnId} {handler : Handler} {publishFrame : Bytes}
    {targets : List RawSocket} {action : Action}
    (hstage : handler.stage = .forwarding publishFrame targets)
    (h : b.act conn handler action = some b') :
    (∃ target rest, action = .forward ∧ targets = target :: rest ∧
      b' = b.become conn { handler with stage := .forwarding publishFrame rest }) ∨
        action = .routed ∧ targets = [] := by
  cases targets with
  | nil => cases action <;> simp [Broker.act, hstage] at h ⊢
  | cons target rest =>
      cases action <;> simp [Broker.act, hstage] at h
      exact Or.inl ⟨target, rest, rfl, rfl, h.symm⟩

/-- What relates a handler to what it has handed over, and is kept by its
own steps, is kept whatever the others do in between. -/
theorem handed_run {conn : ConnId} {I : Handler → List (RawSocket × Bytes) → Prop}
    {w w' : Watched} {events : List Event} {handler : Handler} {handed : List (RawSocket × Bytes)}
    (hown : ∀ (b b' : Broker) (g : Handler) (before : List (RawSocket × Bytes)) (action : Action),
      .act conn action ∈ events → b.handlers conn = some g → I g before →
        b.act conn g action = some b' → ∃ next, b'.handlers conn = some next ∧
          I next (before ++ (b.sends (.act conn action)).toList))
    (hkept : Kept w.broker w.members) (hhandler : w.broker.handlers conn = some handler)
    (hI : I handler handed) (hrun : run Watched.step w events = some w') :
    ∃ next, w'.broker.handlers conn = some next ∧ I next (handed ++ handedBy conn w events) := by
  induction events generalizing w handler handed with
  | nil =>
      obtain rfl : w = w' := by simpa using hrun
      exact ⟨handler, hhandler, by simpa [handedBy] using hI⟩
  | cons event events ih =>
      obtain ⟨u, hstep, hrest⟩ := run_cons_some_iff.mp hrun
      have hturned := turned hstep
      have hrestown := fun b b' g before action hmem =>
        hown b b' g before action (List.mem_cons_of_mem event hmem)
      by_cases hmine : ∃ action, event = .act conn action
      · obtain ⟨action, rfl⟩ := hmine
        obtain ⟨b', hact, rfl⟩ := Option.map_eq_some_iff.mp hstep
        rw [Broker.step_act hhandler] at hact
        obtain ⟨next, hnext, hInext⟩ :=
          hown _ _ handler handed action List.mem_cons_self hhandler hI hact
        obtain ⟨last, hlast, hIlast⟩ := ih hrestown (hkept.turned hturned) hnext hInext hrest
        refine ⟨last, hlast, ?_⟩
        simpa [handedBy, hstep] using hIlast
      · have hother : ∀ action, event ≠ .act conn action := fun action h => hmine ⟨action, h⟩
        rw [handedBy_other hstep hother]
        exact ih hrestown (hkept.turned hturned) (hkept.bystander hturned hhandler hother) hI hrest

/-- Until the handler leaves the loop, what it has handed over and what it
has still to hand over make up the targets of the routing step. -/
theorem forwarding_run {conn : ConnId} {handler : Handler} {publishFrame : Bytes}
    {targets : List RawSocket} {w w' : Watched} {events : List Event}
    (hkept : Kept w.broker w.members) (hhandler : w.broker.handlers conn = some handler)
    (hstage : handler.stage = .forwarding publishFrame targets)
    (hevents : .act conn .routed ∉ events) (hrun : run Watched.step w events = some w') :
    ∃ rest, (w'.broker.handlers conn).map Handler.stage = some (.forwarding publishFrame rest) ∧
      handedBy conn w events ++ rest.map (·, publishFrame) = targets.map (·, publishFrame) := by
  let Left (g : Handler) (handed : List (RawSocket × Bytes)) : Prop :=
    ∃ rest, g.stage = .forwarding publishFrame rest ∧
      handed ++ rest.map (·, publishFrame) = targets.map (·, publishFrame)
  have hleft : Left handler [] := ⟨targets, hstage, rfl⟩
  have hrun' := handed_run (I := Left) (fun b b' g before action hmem hg hbefore hact => by
    obtain ⟨rest, hg', hsum⟩ := hbefore
    rcases forwarding_act hg' hact with ⟨target, rest, rfl, rfl, rfl⟩ | ⟨rfl, -⟩
    · refine ⟨_, Broker.become_handlers_self .., rest, rfl, ?_⟩
      simpa [Broker.sends, hg, hg'] using hsum
    · exact absurd hmem hevents) hkept hhandler hleft hrun
  obtain ⟨next, hnext, rest, hrest, hsum⟩ := hrun'
  exact ⟨rest, by rw [hnext, Option.map_some, hrest], hsum⟩

theorem mirrored_run {events : List Event} {w : Watched}
    (hdistinct : Always Watched.step (fun w => Distinct w.broker) {} events)
    (hrun : run Watched.step {} events = some w) :
    Kept w.broker w.members ∧ Mirrored w.broker w.members := by
  refine run_invariant_along (I := fun w : Watched =>
      Kept w.broker w.members ∧ Mirrored w.broker w.members)
    (fun w event w' hinv hdistinct hstep => ?_) ?_ hdistinct.along hrun
  · exact ⟨hinv.1.turned (turned hstep), hinv.2.turned hinv.1 hdistinct (turned hstep)⟩
  · refine ⟨Kept.init, fun conn handler lists hhandler => ?_⟩
    cases hhandler

/-- A handler routes an accepted PUBLISH. Its targets are the sockets of
the members that have an accepted SUBSCRIBE with a matching filter, each
once. Whatever the other handlers do meanwhile, it hands the frame to the
targets in turn, and when it leaves the loop it has handed it to each. -/
def DeliversExactly (w : Watched) (conn : ConnId) (packet : PublishPacket) : Prop :=
  ∃ (w' : Watched) (targets : List RawSocket), w.step (.act conn .route) = some w' ∧
    targets.Nodup ∧
      (∀ sock, sock ∈ targets ↔ ∃ member handler, w.broker.handlers member = some handler ∧
        handler.sock = sock ∧ member ∈ w.members.audience covers packet.topic) ∧
      ∀ later w'', run Watched.step w' later = some w'' → .act conn .routed ∉ later →
        handedBy conn w' later <+:
            targets.map (·, encodePublish packet.topic packet.payload) ∧
          (w''.step (.act conn .routed) ≠ none →
            handedBy conn w' later =
              targets.map (·, encodePublish packet.topic packet.payload))

/-- Client `a` has two filters that cover the topic client `b` publishes to. -/
def overlapping : List Event :=
  .start :: joining 0 4 (ascii "a") ++ joining 1 5 (ascii "b") ++
    [.act 0 (.receive (wholePiece 0x82 [10, 0, 1, 0, 1, 0x74, 0, 0, 1, 0x23, 0])),
      .act 0 .subscribe, .act 0 .suback, .act 1 (.receive (wholePiece 0x30 [4, 0, 1, 0x74, 0x70])),
      .act 1 .record]

end MockServices.Mqtt
