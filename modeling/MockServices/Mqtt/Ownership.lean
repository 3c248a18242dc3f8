import MockServices.Mqtt.Watched

/-!
# Who owns a session and its socket

The handler that registered last under a client id and has not ended owns
the session under that id, and its descriptor still denotes its own
connection. Two kinds of step can take this away from it: another handler
of the same client id removes the session, or another handler closes a
descriptor number a second time after `accept` has handed it out again.
As long as neither happens, ownership holds in every state.
-/

namespace MockServices.Mqtt

open Foundations

/-- The handler has registered, and neither it nor `stop()` has ended the session. -/
def active (b : Broker) (m : Members) (conn : ConnId) : Bool :=
  (m.accepted conn).isSome && (b.handlers conn).any fun handler => handler.stage.serving

def OwnsSession (w : Watched) : Prop :=
  w.broker.phase = .running → ∀ conn handler, w.broker.handlers conn = some handler →
    active w.broker w.members conn = true → w.members.latest handler.clientId = some conn →
      (∃ session, w.broker.sessions[handler.clientId]? = some session ∧
        session.sock = handler.sock) ∧ w.broker.descriptors handler.sock = some conn

/-- A session is removed only if the connection that registered last under
its client id is the remover or has ended, and a descriptor is closed only
if its number has not been handed out again. -/
def sparesOthers (w : Watched) : Event → Bool
  | .act conn action =>
      match w.broker.handlers conn, action with
      | some handler, .remove =>
          w.broker.phase ≠ .running || (w.members.latest handler.clientId).all fun other =>
            other = conn || !active w.broker w.members other
      | some handler, .close =>
          w.broker.phase ≠ .running || (w.broker.descriptors handler.sock).all (· = conn)
      | _, _ => true
  | _ => true

structure Owning (b : Broker) (m : Members) : Prop where
  own : ∀ conn handler, b.handlers conn = some handler →
    handler.stage.fresh = true ∨ m.accepted conn ≠ none ∧ handler.stage.serving = true →
      b.descriptors handler.sock = some conn
  listed : ∀ conn handler, b.handlers conn = some handler → m.accepted conn ≠ none →
    handler.stage.serving = true → m.latest handler.clientId = some conn →
      b.sessions[handler.clientId]? ≠ none
  live : ∀ clientId session conn, b.sessions[clientId]? = some session →
    m.latest clientId = some conn → b.descriptors session.sock = some conn

namespace Owning

variable {b : Broker} {m : Members} {conn : ConnId} {handler : Handler}

theorem become (h : Owning b m) (hhandler : b.handlers conn = some handler) {next : Handler}
    (hsock : next.sock = handler.sock)
    (hfresh : next.stage.fresh = true → handler.stage.fresh = true)
    (hserving : m.accepted conn ≠ none → next.stage.serving = true →
      handler.stage.serving = true ∧ next.clientId = handler.clientId) :
    Owning (b.become conn next) m where
  own other g hg hlive := by
    rw [Broker.become_handlers] at hg
    split at hg
    · next heq =>
        subst heq
        cases hg
        rw [hsock]
        apply h.own other handler hhandler
        exact hlive.imp hfresh fun hmember => ⟨hmember.1, (hserving hmember.1 hmember.2).1⟩
    · exact h.own other g hg hlive
  listed other g hg hmember hstage hlatest := by
    rw [Broker.become_handlers] at hg
    split at hg
    · next heq =>
        subst heq
        cases hg
        obtain ⟨hstage', hid⟩ := hserving hmember hstage
        rw [hid] at hlatest ⊢
        exact h.listed other handler hhandler hmember hstage' hlatest
    · exact h.listed other g hg hmember hstage hlatest
  live := h.live

theorem register (h : Owning b m) (hhandler : b.handlers conn = some handler)
    (hstage : handler.stage = .registering) :
    Owning ((b.registerSession handler).become conn { handler with stage := .connack })
      (m.join handler.clientId conn) where
  own other g hg hlive := by
    rw [Broker.become_handlers] at hg
    split at hg
    · next heq =>
        subst heq
        cases hg
        exact h.own other handler hhandler (Or.inl (by rw [hstage]; rfl))
    · next hne =>
        rw [Membership.join_accepted, if_neg hne] at hlive
        exact h.own other g hg hlive
  listed other g hg hmember hserving hlatest := by
    rw [Broker.become_sessions, Broker.registerSession_sessions]
    rw [Membership.join_latest] at hlatest
    split
    · simp
    · next hother =>
        rw [if_neg hother] at hlatest
        rw [Broker.become_handlers] at hg
        split at hg
        · cases hg
          exact (hother rfl).elim
        · next hne =>
            rw [Membership.join_accepted, if_neg hne] at hmember
            exact h.listed other g hg hmember hserving hlatest
  live clientId session other hsession hlatest := by
    rw [Broker.become_sessions, Broker.registerSession_sessions] at hsession
    rw [Membership.join_latest] at hlatest
    split at hsession
    · next heq =>
        rw [if_pos heq] at hlatest
        cases hsession
        cases hlatest
        exact h.own conn handler hhandler (Or.inl (by rw [hstage]; rfl))
    · next hne =>
        rw [if_neg hne] at hlatest
        exact h.live clientId session other hsession hlatest

theorem subscribe (h : Owning b m) (clientId : Bytes) (packet : SubscribePacket) :
    Owning (b.addFilters clientId packet).1 (m.subscribe conn (packet.filters.map Prod.fst)) where
  own other g hg hlive := by
    rw [Broker.addFilters_handlers] at hg
    rw [Broker.addFilters_descriptors]
    exact h.own other g hg
      (hlive.imp_right (And.imp_left (mt (Membership.subscribe_accepted_none_iff ..).mpr)))
  listed other g hg hmember hserving hlatest := by
    rw [Broker.addFilters_handlers] at hg
    have hkept := h.listed other g hg (mt (Membership.subscribe_accepted_none_iff ..).mpr hmember)
      hserving hlatest
    rw [Broker.addFilters_sessions]
    split
    · next heq => rwa [← heq, Ne, Option.map_eq_none_iff]
    · exact hkept
  live other session conn' hsession hlatest := by
    rw [Broker.addFilters_descriptors]
    rw [Broker.addFilters_sessions] at hsession
    split at hsession
    · next heq =>
        obtain ⟨old, hold, rfl⟩ := Option.map_eq_some_iff.mp hsession
        exact h.live other old conn' (heq ▸ hold) hlatest
    · exact h.live other session conn' hsession hlatest

/-- The one step that closes somebody else's socket on purpose: the session
removed belongs to whoever registered last. -/
theorem remove (h : Owning b m) (hkept : Kept b m)
    (hspares : ∀ other, m.latest handler.clientId = some other →
      other = conn ∨ active b m other = false) :
    Owning (b.removeSession handler.clientId) (m.leave conn) := by
  have hactive : ∀ other g, b.handlers other = some g → other ≠ conn → m.accepted other ≠ none →
      g.stage.serving = true → m.latest handler.clientId ≠ some other := by
    intro other g hg hne hmember hserving hlatest
    rcases hspares other hlatest with heq | hidle
    · exact hne heq
    · simp [active, hg, hserving, hmember] at hidle
  have hclosed : ∀ sock other, b.descriptors sock = some other →
      m.latest handler.clientId ≠ some other →
        (b.removeSession handler.clientId).descriptors sock = some other := by
    intro sock other hsock hother
    rw [Broker.removeSession_descriptors, if_neg]
    · exact hsock
    · intro hsame
      obtain ⟨session, hsession, rfl⟩ := Option.map_eq_some_iff.mp hsame
      obtain ⟨owner, -, hlatest, -⟩ := hkept.session _ _ hsession
      have howner := h.live _ session owner hsession hlatest
      obtain rfl : other = owner := Option.some.inj (hsock.symm.trans howner)
      exact hother hlatest
  refine ⟨fun other g hg hlive => ?_, fun other g hg hmember hserving hlatest => ?_,
    fun clientId session other hsession hlatest => ?_⟩
  · rw [Broker.removeSession_handlers] at hg
    rw [Membership.leave_accepted] at hlive
    rcases hlive with hfresh | ⟨hmember, hserving⟩
    · refine hclosed g.sock other (h.own other g hg (Or.inl hfresh)) fun hlatest => ?_
      obtain ⟨g', hg', -, hregistered⟩ := hkept.latest _ _ hlatest
      obtain rfl : g = g' := Option.some.inj (hg.symm.trans hg')
      simp [hfresh] at hregistered
    · split at hmember
      · exact (hmember rfl).elim
      · next hne =>
          exact hclosed g.sock other (h.own other g hg (Or.inr ⟨hmember, hserving⟩))
            (hactive other g hg hne hmember hserving)
  · rw [Broker.removeSession_handlers] at hg
    rw [Membership.leave_accepted] at hmember
    rw [Broker.removeSession_sessions]
    split at hmember
    · exact (hmember rfl).elim
    · next hne =>
        rw [if_neg]
        · exact h.listed other g hg hmember hserving hlatest
        · intro heq
          rw [Membership.leave_latest, heq] at hlatest
          exact hactive other g hg hne hmember hserving hlatest
  · rw [Broker.removeSession_sessions] at hsession
    split at hsession
    · cases hsession
    · next hne =>
        refine hclosed _ other (h.live clientId session other hsession hlatest) fun hsame => ?_
        obtain ⟨g, hg, hid, -⟩ := hkept.latest _ _ hlatest
        obtain ⟨g', hg', hid', -⟩ := hkept.latest _ _ hsame
        obtain rfl : g = g' := Option.some.inj (hg.symm.trans hg')
        exact hne (hid.symm.trans hid')

theorem close (h : Owning b m) (hkept : Kept b m) (hhandler : b.handlers conn = some handler)
    (hstage : handler.stage = .dropped ∨ handler.stage = .closing)
    (hspares : ∀ other, b.descriptors handler.sock = some other → other = conn) :
    Owning (b.sockClose handler.sock) m := by
  have hleft : m.accepted conn = none := by
    by_contra hmember
    obtain ⟨g, hg, hg'⟩ := hkept.member conn hmember
    obtain rfl : handler = g := Option.some.inj (hhandler.symm.trans hg)
    rcases hstage with hstage | hstage <;> simp [hstage, Stage.serving] at hg'
  have hkeeps : ∀ sock other, b.descriptors sock = some other → other ≠ conn →
      (b.sockClose handler.sock).descriptors sock = some other := by
    intro sock other hsock hne
    rw [Broker.sockClose_descriptors, if_neg]
    · exact hsock
    · rintro rfl
      exact hne (hspares other hsock)
  refine ⟨fun other g hg hlive => ?_, h.listed, fun clientId session other hsession hlatest => ?_⟩
  · apply hkeeps g.sock other (h.own other g hg hlive)
    rintro rfl
    obtain rfl : handler = g := Option.some.inj (hhandler.symm.trans hg)
    rcases hlive with hfresh | ⟨hmember, -⟩
    · rcases hstage with hstage | hstage <;> simp [hstage, Stage.fresh] at hfresh
    · exact hmember hleft
  · apply hkeeps _ other (h.live clientId session other hsession hlatest)
    rintro rfl
    obtain ⟨owner, -, hlatest', -, -, hmember⟩ := hkept.session _ _ hsession
    obtain rfl : other = owner := Option.some.inj (hlatest.symm.trans hlatest')
    exact hmember hleft

theorem acted {b' : Broker} {m' : Members} {action : Action} (h : Owning b m) (hkept : Kept b m)
    (hrunning : b.phase = .running) (hhandler : b.handlers conn = some handler)
    (hspares : sparesOthers ⟨b, m⟩ (.act conn action) = true)
    (hacted : Acted b m conn handler action b' m') : Owning b' m' := by
  cases hacted with
  | refused hstage =>
      exact h.become hhandler rfl (by simp [Stage.fresh]) (by simp [Stage.serving])
  | identified clientId hstage =>
      exact h.become hhandler rfl (fun _ => by rw [hstage]; rfl) (by simp [Stage.serving])
  | registered hstage => exact h.register hhandler hstage
  | served history buffer stage hstage hnext haction =>
      have howning : Owning { b with history } m := ⟨h.own, h.listed, h.live⟩
      refine howning.become hhandler rfl (fun hfresh => ?_) (fun _ _ => ⟨hstage, rfl⟩)
      have hnot : stage.fresh = true := hfresh
      simp [not_fresh hnext] at hnot
  | subscribed packet hstage =>
      have hsame : (b.addFilters handler.clientId packet).1.handlers conn = some handler := by
        rw [Broker.addFilters_handlers]
        exact hhandler
      exact (h.subscribe handler.clientId packet).become hsame rfl (by simp [Stage.fresh])
        (fun _ _ => ⟨by rw [hstage]; rfl, rfl⟩)
  | removed next hstage =>
      have hsame : (b.removeSession handler.clientId).handlers conn = some handler := by
        rw [Broker.removeSession_handlers]
        exact hhandler
      have hothers : ∀ other, m.latest handler.clientId = some other →
          other = conn ∨ active b m other = false := by
        intro other hlatest
        simpa [sparesOthers, hhandler, hrunning, hlatest] using hspares
      refine (h.remove hkept hothers).become hsame rfl (fun hfresh => ?_)
        (fun hmember => ?_)
      · rcases hstage with ⟨-, rfl⟩ | ⟨-, rfl⟩ <;> simp [Stage.fresh] at hfresh
      · simp [Membership.leave_accepted] at hmember
  | closed next hstage =>
      have hothers : ∀ other, b.descriptors handler.sock = some other → other = conn := by
        intro other hsock
        simpa [sparesOthers, hhandler, hrunning, hsock] using hspares
      have hstage' : handler.stage = .dropped ∨ handler.stage = .closing :=
        hstage.imp And.left And.left
      refine (h.close hkept hhandler hstage' hothers).become hhandler rfl (fun hfresh => ?_)
        (fun hmember => ?_)
      · rcases hstage with ⟨-, rfl⟩ | ⟨-, rfl⟩ <;> simp [Stage.fresh] at hfresh
      · obtain ⟨g, hg, hg'⟩ := hkept.member conn hmember
        obtain rfl : handler = g := Option.some.inj (hhandler.symm.trans hg)
        rcases hstage' with hstage | hstage <;> simp [hstage, Stage.serving] at hg'

theorem acceptConn (h : Owning b m) {sock : RawSocket}
    (hfree : b.descriptors sock = none) : Owning (b.acceptConn sock) m := by
  have hkeeps : ∀ number other, b.descriptors number = some other →
      (b.acceptConn sock).descriptors number = some other := by
    intro number other hnumber
    rw [Broker.acceptConn_descriptors, if_neg]
    · exact hnumber
    · rintro rfl
      simp [hfree] at hnumber
  refine ⟨fun other g hg hlive => ?_, fun other g hg hmember hserving hlatest => ?_,
    fun clientId session other hsession hlatest =>
      hkeeps _ other (h.live clientId session other hsession hlatest)⟩
  · rw [Broker.acceptConn_handlers] at hg
    split at hg
    · next heq =>
        cases hg
        rw [Broker.acceptConn_descriptors, if_pos rfl, heq]
    · exact hkeeps _ other (h.own other g hg hlive)
  · rw [Broker.acceptConn_handlers] at hg
    split at hg
    · cases hg
      simp [Stage.serving] at hserving
    · exact h.listed other g hg hmember hserving hlatest

/-- When every handler has returned, nothing is owned and no session is left. -/
theorem start (hkept : Kept b m)
    (hdone : ∀ conn handler, b.handlers conn = some handler → handler.stage = .done) :
    Owning { b with phase := .running } m := by
  refine ⟨fun conn g hg hlive => ?_, fun conn g hg _ hserving => ?_,
    fun clientId session conn hsession hlatest => ?_⟩
  · have hstage := hdone conn g hg
    simp [hstage, Stage.fresh, Stage.serving] at hlive
  · have hstage := hdone conn g hg
    simp [hstage, Stage.serving] at hserving
  · obtain ⟨owner, -, -, -, -, hmember⟩ := hkept.session _ _ hsession
    obtain ⟨g, hg, hg'⟩ := hkept.member owner hmember
    have hstage := hdone owner g hg
    simp [hstage, Stage.serving] at hg'

end Owning

structure Governed (w : Watched) : Prop where
  kept : Kept w.broker w.members
  idle : w.broker.phase = .idle → ∀ conn handler, w.broker.handlers conn = some handler →
    handler.stage = .done
  owning : w.broker.phase = .running → Owning w.broker w.members

theorem Governed.init : Governed {} where
  kept := Kept.init
  idle _ _ _ h := by cases h
  owning h := by cases h

theorem Governed.turned {w : Watched} {b' : Broker} {m' : Members} {event : Event}
    (h : Governed w) (hspares : sparesOthers w event = true)
    (hturned : Turned w.broker w.members event b' m') : Governed ⟨b', m'⟩ := by
  refine ⟨h.kept.turned hturned, ?_, ?_⟩
  · intro hidle
    cases hturned with
    | started => cases hidle
    | flagged => cases hidle
    | swept => cases hidle
    | joined hphase hjoined =>
        intro conn handler hhandler
        exact hjoined conn (h.kept.lt_nextConn hhandler) handler hhandler
    | accepted hphase => rcases hphase with hphase | hphase <;> cases hidle.symm.trans hphase
    | cleared => exact h.idle hidle
    | acted handler hhandler hacted =>
        have hphase : w.broker.phase = .idle := hacted.phase.symm.trans hidle
        exact (hacted.not_done (h.idle hphase _ _ hhandler)).elim
  · intro hrunning
    cases hturned with
    | started hphase => exact Owning.start h.kept (h.idle hphase)
    | flagged => cases hrunning
    | swept => cases hrunning
    | joined => cases hrunning
    | accepted hphase hfree => exact (h.owning hrunning).acceptConn hfree
    | cleared =>
        have howning := h.owning hrunning
        exact ⟨howning.own, howning.listed, howning.live⟩
    | acted handler hhandler hacted =>
        have hphase : w.broker.phase = .running := hacted.phase.symm.trans hrunning
        exact (h.owning hphase).acted h.kept hphase hhandler hspares hacted

theorem Governed.ownsSession {w : Watched} (h : Governed w) : OwnsSession w := by
  intro hrunning conn handler hhandler hactive hlatest
  have hactive' : w.members.accepted conn ≠ none ∧ handler.stage.serving = true := by
    simpa [active, hhandler, Option.isSome_iff_ne_none] using hactive
  obtain ⟨hmember, hserving⟩ := hactive'
  have hlisted := (h.owning hrunning).listed conn handler hhandler hmember hserving hlatest
  obtain ⟨session, hsession⟩ := Option.ne_none_iff_exists'.mp hlisted
  obtain ⟨owner, g, hlatest', hg, hsock, -⟩ := h.kept.session _ _ hsession
  obtain rfl : conn = owner := Option.some.inj (hlatest.symm.trans hlatest')
  obtain rfl : handler = g := Option.some.inj (hhandler.symm.trans hg)
  exact ⟨⟨session, hsession, hsock⟩,
    (h.owning hrunning).own conn handler hhandler (Or.inr ⟨hmember, hserving⟩)⟩

theorem session_ownership (events : List Event)
    (hspares : Along Watched.step (fun w event => sparesOthers w event = true) {} events) :
    Always Watched.step OwnsSession {} events := by
  refine always_of_invariant_along (fun w event w' hgoverned hspares hstep => ?_)
    (fun w hgoverned => hgoverned.ownsSession) Governed.init hspares
  exact hgoverned.turned hspares (turned hstep)

/-- Two clients with ids of their own; the first one leaves. -/
def twoClients : List Event :=
  .start :: joining 0 4 (ascii "a") ++ joining 1 5 (ascii "b") ++
    [.act 0 (.receive Broker.closed), .act 0 .remove, .act 0 .close]

theorem session_ownership_two_clients :
    (run Watched.step {} twoClients).isSome = true ∧
      Always Watched.step OwnsSession {} twoClients :=
  ⟨by decide +kernel, session_ownership twoClients (by decide +kernel)⟩

/-- A client connects again under its id. When the first connection ends,
its handler removes the session of the second one. -/
def reconnected : List Event :=
  .start :: joining 0 4 (ascii "a") ++ joining 1 5 (ascii "a") ++
    [.act 0 (.receive Broker.closed), .act 0 .remove]

theorem session_ownership_lost :
    ¬ ∀ events, Always Watched.step OwnsSession {} events := by
  intro h
  have hrun : (run Watched.step {} reconnected).isSome := by decide +kernel
  obtain ⟨w, hw⟩ := Option.isSome_iff_exists.mp hrun
  have howns := (h reconnected).of_run hw
  have hread : ∀ {α : Type} (f : Watched → α) {x : α},
      (run Watched.step {} reconnected).map f = some x → f w = x := by
    intro α f x hx
    rw [hw] at hx
    exact Option.some.inj hx
  have hphase := hread (fun w => w.broker.phase) (by decide +kernel : _ = some .running)
  have hactive := hread (fun w => active w.broker w.members 1) (by decide +kernel : _ = some true)
  have hlatest := hread (fun w => w.members.latest (ascii "a"))
    (by decide +kernel : _ = some (some 1))
  have hgone := hread (fun w => w.broker.sessions[ascii "a"]?) (by decide +kernel : _ = some none)
  obtain ⟨handler, hhandler, hid⟩ := Option.map_eq_some_iff.mp
    (hread (fun w => (w.broker.handlers 1).map Handler.clientId)
      (by decide +kernel : _ = some (some (ascii "a"))))
  obtain ⟨⟨session, hsession, -⟩, -⟩ :=
    howns hphase 1 handler hhandler hactive (by rw [hid]; exact hlatest)
  rw [hid, hgone] at hsession
  cases hsession

end MockServices.Mqtt
