import MockServices.Mqtt.Watched

/-!
# Descriptors that denote somebody else

`remove_session` closes the descriptor of the session it finds, and the
handler that has called it closes its own descriptor right after. So the
first `remove_session` of a running server closes a descriptor of another
handler, or has its own handler close a number that may be another
connection's by then. While there is none, every call of a handler is on
its own connection, which is closed once.
-/

namespace MockServices.Mqtt

open Foundations

/-- A `recv` that is not the last one of its packet, a `shutdown` that is
followed by its `close`, or any other step. -/
inductive Move where
  | recv (conn : ConnId)
  | shutdown (conn : ConnId)
  | step (event : Event)

namespace Broker

/-- The descriptors that `remove_session` is about to shut down and close. -/
def removing (b : Broker) (handler : Handler) : List RawSocket :=
  match handler.stage with
  | .dropping | .leaving => ((b.sessions[handler.clientId]?).map Session.sock).toList
  | _ => []

/-- The descriptors on which a handler calls `recv`, `shutdown` or `close`. -/
def callsOf (b : Broker) (handler : Handler) : Action → List RawSocket
  | .connect _ _ | .receive _ => if handler.stage.receiving = true then [handler.sock] else []
  | .remove => b.removing handler
  | .close =>
      match handler.stage with
      | .dropped | .closing => [handler.sock]
      | _ => []
  | _ => []

/-- The calls of a move, each with the connection whose handler makes it. -/
def calls (b : Broker) : Move → List (ConnId × RawSocket)
  | .recv conn => match b.handlers conn with
      | some handler => if handler.stage.receiving = true then [(conn, handler.sock)] else []
      | none => []
  | .shutdown conn => match b.handlers conn with
      | some handler => (b.removing handler).map (conn, ·)
      | none => []
  | .step (.act conn action) => match b.handlers conn with
      | some handler => (b.callsOf handler action).map (conn, ·)
      | none => []
  | .step _ => []

theorem not_done_of_receiving {handler : Handler} (h : handler.stage.receiving = true) :
    handler.stage ≠ .done := by
  intro hdone
  simp [hdone, Stage.receiving] at h

theorem mem_callsOf {b : Broker} {handler : Handler} {action : Action} {sock : RawSocket}
    (hremove : action ≠ .remove) (h : sock ∈ b.callsOf handler action) :
    sock = handler.sock ∧ handler.stage ≠ .done := by
  unfold callsOf at h
  split at h
  case h_1 | h_2 =>
      split at h
      · next hstage => exact ⟨List.mem_singleton.mp h, not_done_of_receiving hstage⟩
      · cases h
  case h_3 => exact absurd rfl hremove
  case h_4 =>
      split at h
      case h_3 => cases h
      all_goals
        rename_i hstage
        exact ⟨List.mem_singleton.mp h, by simp [hstage]⟩
  case h_5 => cases h

end Broker

/-- `first` is the first connection since the start of the server, and
`closes` counts the `close` calls made for each connection by handlers
while the server is running. -/
structure Audited where
  watched : Watched := {}
  first : ConnId := 0
  closes : ConnId → ℕ := fun _ => 0

namespace Audited

/-- The connection for which the step closes a descriptor. -/
def closedBy (a : Audited) : Event → Option ConnId
  | .act conn .close => some conn
  | .act conn .remove => (a.watched.broker.handlers conn).bind fun handler =>
      (a.watched.broker.sessions[handler.clientId]?).bind fun _ =>
        a.watched.members.latest handler.clientId
  | _ => none

def closesAfter (a : Audited) (event : Event) : ConnId → ℕ :=
  if a.watched.broker.phase = .running then fun conn =>
    a.closes conn + if a.closedBy event = some conn then 1 else 0
  else a.closes

def firstAfter (a : Audited) : Event → ConnId
  | .start => a.watched.broker.nextConn
  | _ => a.first

def step (a : Audited) : Move → Option Audited
  | .step event => (a.watched.step event).map fun watched =>
      ⟨watched, a.firstAfter event, a.closesAfter event⟩
  | move => if a.watched.broker.calls move = [] then none else some a

/-- While the server is running, a handler calls on its own connection only. -/
def CallsOwn (a : Audited) (move : Move) : Prop :=
  a.watched.broker.phase = .running → ∀ call ∈ a.watched.broker.calls move,
    a.watched.broker.descriptors call.2 = some call.1

/-- While the server is running, no connection is closed twice, and each one
whose handler has ended has been closed. -/
def ClosesOnce (a : Audited) : Prop :=
  a.watched.broker.phase = .running → ∀ conn, a.closes conn ≤ 1 ∧
    ∀ handler, a.watched.broker.handlers conn = some handler → a.first ≤ conn →
      handler.stage = .done → a.closes conn = 1

/-- No handler is in `remove_session` while the server is running. -/
def KeepsSessions (a : Audited) (move : Move) : Prop :=
  match move with
  | .shutdown _ | .step (.act _ .remove) => a.watched.broker.phase ≠ .running
  | _ => True

section Closes

variable {a : Audited} {event : Event} {conn : ConnId} {action : Action}

theorem closesAfter_of_none (h : a.closedBy event = none) : a.closesAfter event = a.closes := by
  unfold closesAfter
  split
  · simp [h]
  · rfl

theorem closesAfter_of_not_running (h : a.watched.broker.phase ≠ .running) :
    a.closesAfter event = a.closes := if_neg h

theorem closesAfter_close (h : a.watched.broker.phase = .running) :
    a.closesAfter (.act conn .close) =
      fun other => a.closes other + if conn = other then 1 else 0 := by
  unfold closesAfter
  rw [if_pos h]
  simp [closedBy]

theorem closedBy_eq_none (hremove : action ≠ .remove) (hclose : action ≠ .close) :
    a.closedBy (.act conn action) = none := by
  cases action <;> first | rfl | contradiction

end Closes

end Audited

/-- Where a handler stands in a running server that has removed no session. -/
structure Placed (b : Broker) (closes : ConnId → ℕ) (conn : ConnId) (handler : Handler) : Prop where
  own : handler.stage ≠ .done → b.descriptors handler.sock = some conn ∧ closes conn = 0
  undropped : handler.stage ≠ .dropped
  listed : handler.stage.serving = true ∨ handler.stage = .dropping ∨ handler.stage = .leaving →
    b.sessions[handler.clientId]? ≠ none

def AllPlaced (b : Broker) (closes : ConnId → ℕ) : Prop :=
  ∀ conn handler, b.handlers conn = some handler → Placed b closes conn handler

namespace AllPlaced

variable {b : Broker} {m m' : Members} {closes : ConnId → ℕ} {conn : ConnId} {handler : Handler}

theorem become (h : AllPlaced b closes) (hhandler : b.handlers conn = some handler)
    (hdone : handler.stage ≠ .done) {c : Broker} {next : Handler}
    (hhandlers : c.handlers = b.handlers) (hdescriptors : c.descriptors = b.descriptors)
    (hsessions : ∀ clientId : Bytes, b.sessions[clientId]? ≠ none → c.sessions[clientId]? ≠ none)
    (hsock : next.sock = handler.sock) (hnext : next.stage ≠ .dropped)
    (hlisted : next.stage.serving = true ∨ next.stage = .dropping ∨ next.stage = .leaving →
      c.sessions[next.clientId]? ≠ none) : AllPlaced (c.become conn next) closes := by
  intro other g hg
  rw [Broker.become_handlers] at hg
  split at hg
  · next heq =>
      subst heq
      cases hg
      refine ⟨fun _ => ?_, hnext, hlisted⟩
      rw [Broker.become_descriptors, hdescriptors, hsock]
      exact (h other handler hhandler).own hdone
  · rw [hhandlers] at hg
    obtain ⟨hown, hundropped, hlisted'⟩ := h other g hg
    refine ⟨?_, hundropped, fun hstage => hsessions _ (hlisted' hstage)⟩
    rw [Broker.become_descriptors, hdescriptors]
    exact hown

theorem close (h : AllPlaced b closes) (hhandler : b.handlers conn = some handler)
    (hdone : handler.stage ≠ .done) : AllPlaced
      ((b.sockClose handler.sock).become conn { handler with stage := .done })
      fun other => closes other + if conn = other then 1 else 0 := by
  intro other g hg
  rw [Broker.become_handlers] at hg
  split at hg
  · cases hg
    exact ⟨fun hne => absurd rfl hne, by simp, fun hstage => by simp [Stage.serving] at hstage⟩
  · next hne =>
      obtain ⟨hown, hundropped, hlisted⟩ := h other g hg
      refine ⟨fun hstage => ?_, hundropped, hlisted⟩
      obtain ⟨hopen, hcount⟩ := hown hstage
      have hsock : g.sock ≠ handler.sock := by
        intro heq
        rw [heq, ((h conn handler hhandler).own hdone).1] at hopen
        exact hne (Option.some.inj hopen).symm
      rw [Broker.become_descriptors, Broker.sockClose_descriptors, if_neg hsock,
        if_neg fun heq => hne heq.symm]
      exact ⟨hopen, hcount⟩

/-- The step lemma of the running server: a handler closes the connection
whose CONNECT has failed, and nothing else. -/
theorem acted (h : AllPlaced b closes) (hhandler : b.handlers conn = some handler)
    {action : Action} {b' : Broker} (hacted : Acted b m conn handler action b' m')
    (haction : action ≠ .remove) : action ≠ .close ∧ AllPlaced b' closes ∨
      action = .close ∧ AllPlaced b' fun other => closes other + if conn = other then 1 else 0 := by
  have hdone := hacted.not_done
  cases hacted with
  | refused hstage =>
      refine Or.inl ⟨by simp, h.become hhandler hdone rfl rfl (fun _ => id) rfl (by simp) ?_⟩
      simp [Stage.serving]
  | identified clientId hstage =>
      refine Or.inl ⟨by simp, h.become hhandler hdone rfl rfl (fun _ => id) rfl (by simp) ?_⟩
      simp [Stage.serving]
  | registered hstage =>
      refine Or.inl ⟨by simp, h.become hhandler hdone rfl rfl (fun clientId hlisted => ?_) rfl
        (by simp) fun _ => ?_⟩
      · rw [Broker.registerSession_sessions]
        split
        · simp
        · exact hlisted
      · simp [Broker.registerSession_sessions]
  | served history buffer stage hstage hnext haction' =>
      have hlisted := (h conn handler hhandler).listed (Or.inl hstage)
      refine Or.inl ⟨haction'.2, h.become hhandler hdone (c := { b with history }) rfl rfl
        (fun _ => id) rfl ?_ fun _ => hlisted⟩
      rcases hnext with hnext | rfl | rfl
      · rintro rfl
        simp [Stage.serving] at hnext
      · simp
      · simp
  | subscribed packet hstage =>
      have hlisted := (h conn handler hhandler).listed (Or.inl (by rw [hstage]; rfl))
      have hkept : ∀ clientId : Bytes, b.sessions[clientId]? ≠ none →
          (b.addFilters handler.clientId packet).1.sessions[clientId]? ≠ none := by
        intro clientId hsession
        rw [Broker.addFilters_sessions]
        split
        · simpa using hlisted
        · exact hsession
      exact Or.inl ⟨by simp, h.become hhandler hdone (b.addFilters_handlers _ _)
        (b.addFilters_descriptors _ _) hkept rfl (by simp) fun _ => hkept _ hlisted⟩
  | removed next hstage => exact absurd rfl haction
  | closed next hstage =>
      rcases hstage with ⟨hstage, -⟩ | ⟨-, rfl⟩
      · exact absurd hstage (h conn handler hhandler).undropped
      · exact Or.inr ⟨rfl, h.close hhandler hdone⟩

end AllPlaced

/-- What a run keeps true in which nobody removes a session while the
server is running. -/
structure Tidy (a : Audited) : Prop where
  kept : Kept a.watched.broker a.watched.members
  denoted : ∀ sock conn, a.watched.broker.descriptors sock = some conn →
    ∃ handler, a.watched.broker.handlers conn = some handler ∧ handler.sock = sock
  idle : a.watched.broker.phase = .idle → ∀ conn handler,
    a.watched.broker.handlers conn = some handler → handler.stage = .done
  placed : a.watched.broker.phase = .running → AllPlaced a.watched.broker a.closes
  unaccepted : ∀ conn, a.watched.broker.handlers conn = none → a.closes conn = 0
  once : ∀ conn, a.closes conn ≤ 1
  ended : a.watched.broker.phase = .running → ∀ conn handler,
    a.watched.broker.handlers conn = some handler → a.first ≤ conn →
      handler.stage = .done → a.closes conn = 1

namespace Tidy

theorem init : Tidy {} where
  kept := .init
  denoted _ _ h := by cases h
  idle _ _ _ h := by cases h
  placed h := by cases h
  unaccepted _ _ := rfl
  once _ := Nat.zero_le 1
  ended h := by cases h

section Steps

variable {a a' : Audited} {event : Event} {conn : ConnId} {action : Action}

theorem denoted_step (h : Tidy a) {b' : Broker} {m' : Members}
    (hturned : Turned a.watched.broker a.watched.members event b' m') {sock : RawSocket}
    {conn : ConnId} (hopen : b'.descriptors sock = some conn) :
    ∃ handler, b'.handlers conn = some handler ∧ handler.sock = sock := by
  cases hturned with
  | started | flagged | joined | cleared => exact h.denoted sock conn hopen
  | swept =>
      have hbefore : a.watched.broker.descriptors sock = some conn :=
        (Option.ite_none_left_eq_some.mp hopen).2
      exact h.denoted sock conn hbefore
  | accepted hphase hfree =>
      rw [Broker.acceptConn_descriptors] at hopen
      rw [Broker.acceptConn_handlers]
      split at hopen
      · next heq =>
          cases hopen
          exact ⟨_, if_pos rfl, heq.symm⟩
      · obtain ⟨handler, hhandler, hsock⟩ := h.denoted sock conn hopen
        exact ⟨handler, (if_neg (h.kept.lt_nextConn hhandler).ne).trans hhandler, hsock⟩
  | @acted other action b' m' actor hactor hacted =>
      obtain ⟨handler, hhandler, hsock⟩ := h.denoted sock conn (hacted.open_before hopen)
      by_cases hown : conn = other
      · subst hown
        obtain ⟨next, hnext, hsame⟩ := hacted.self
        rw [hactor] at hhandler
        cases hhandler
        exact ⟨next, hnext, hsame.trans hsock⟩
      · exact ⟨handler, (hacted.other hown).trans hhandler, hsock⟩

theorem act_running (h : Tidy a) (hrunning : a.watched.broker.phase = .running)
    (hremove : action ≠ .remove) {handler : Handler} {b' : Broker} {m' : Members}
    (hhandler : a.watched.broker.handlers conn = some handler)
    (hacted : Acted a.watched.broker a.watched.members conn handler action b' m')
    (hturned : Turned a.watched.broker a.watched.members (.act conn action) b' m') :
    Tidy ⟨⟨b', m'⟩, a.first, a.closesAfter (.act conn action)⟩ := by
  have hphase : b'.phase ≠ .idle := by rw [hacted.phase, hrunning]; simp
  rcases (h.placed hrunning).acted hhandler hacted hremove with ⟨hclose, hplaced⟩ | ⟨rfl, hplaced⟩
  · have hcloses : a.closesAfter (.act conn action) = a.closes :=
      Audited.closesAfter_of_none (Audited.closedBy_eq_none hremove hclose)
    rw [hcloses]
    refine ⟨h.kept.turned hturned, fun _ _ => h.denoted_step hturned,
      fun hidle => absurd hidle hphase, fun _ => hplaced,
      fun other hother => h.unaccepted other (hacted.none_before hother).2, h.once,
      fun _ other g hg hfirst hdone => ?_⟩
    have hne : other ≠ conn := by
      rintro rfl
      exact hacted.not_done_after hclose hg hdone
    exact h.ended hrunning other g ((hacted.other hne).symm.trans hg) hfirst hdone
  · rw [Audited.closesAfter_close hrunning]
    have hfree := ((h.placed hrunning conn handler hhandler).own hacted.not_done).2
    refine ⟨h.kept.turned hturned, fun _ _ => h.denoted_step hturned,
      fun hidle => absurd hidle hphase, fun _ => hplaced, fun other hother => ?_, fun other => ?_,
      fun _ other g hg hfirst hdone => ?_⟩
    · obtain ⟨hne, hbefore⟩ := hacted.none_before hother
      simp [h.unaccepted other hbefore, hne.symm]
    · by_cases heq : conn = other
      · subst heq
        simp [hfree]
      · simpa [heq] using h.once other
    · by_cases heq : conn = other
      · subst heq
        simp [hfree]
      · have hbefore := (hacted.other (Ne.symm heq)).symm.trans hg
        simpa [heq] using h.ended hrunning other g hbefore hfirst hdone

theorem accept (h : Tidy a) {sock : RawSocket}
    (hfree : a.watched.broker.descriptors sock = none)
    (hphase : a.watched.broker.phase = .running ∨ a.watched.broker.phase = .stopping)
    (hturned : Turned a.watched.broker a.watched.members (.accept sock)
      (a.watched.broker.acceptConn sock) a.watched.members) :
    Tidy ⟨⟨a.watched.broker.acceptConn sock, a.watched.members⟩, a.first, a.closes⟩ := by
  have hnew : a.watched.broker.handlers a.watched.broker.nextConn = none :=
    h.kept.fresh_conn _ le_rfl
  refine ⟨h.kept.turned hturned, fun _ _ => h.denoted_step hturned, fun hidle => ?_,
    fun hrunning other g hg => ?_, fun other hother => ?_, h.once,
    fun hrunning other g hg hfirst hdone => ?_⟩
  · have hsame : a.watched.broker.phase = .idle := hidle
    simp [hsame] at hphase
  · rw [Broker.acceptConn_handlers] at hg
    split at hg
    · next heq =>
        subst heq
        cases hg
        refine ⟨fun _ => ⟨?_, h.unaccepted _ hnew⟩, by simp, fun hstage => ?_⟩
        · rw [Broker.acceptConn_descriptors, if_pos rfl]
        · simp [Stage.serving] at hstage
    · obtain ⟨hown, hundropped, hlisted⟩ := h.placed hrunning other g hg
      refine ⟨fun hstage => ?_, hundropped, hlisted⟩
      obtain ⟨hopen, hcount⟩ := hown hstage
      have hsock : g.sock ≠ sock := by
        rintro rfl
        simp [hfree] at hopen
      exact ⟨by rw [Broker.acceptConn_descriptors, if_neg hsock, hopen], hcount⟩
  · rw [Broker.acceptConn_handlers] at hother
    split at hother
    · cases hother
    · exact h.unaccepted other hother
  · rw [Broker.acceptConn_handlers] at hg
    split at hg
    · cases hg
      cases hdone
    · exact h.ended hrunning other g hg hfirst hdone

theorem act_stopping (h : Tidy a) (hrunning : a.watched.broker.phase ≠ .running)
    {handler : Handler} {b' : Broker} {m' : Members}
    (hhandler : a.watched.broker.handlers conn = some handler)
    (hacted : Acted a.watched.broker a.watched.members conn handler action b' m')
    (hturned : Turned a.watched.broker a.watched.members (.act conn action) b' m') :
    Tidy ⟨⟨b', m'⟩, a.first, a.closes⟩ := by
  have hphase : b'.phase ≠ .running := hacted.phase ▸ hrunning
  refine ⟨h.kept.turned hturned, fun _ _ => h.denoted_step hturned, fun hidle => ?_,
    fun h => absurd h hphase, fun other hnone => ?_, h.once, fun h => absurd h hphase⟩
  · exact absurd (h.idle (hacted.phase ▸ hidle) conn handler hhandler) hacted.not_done
  · exact h.unaccepted other (hacted.none_before hnone).2

/-- The step lemma: steps outside `remove_session` keep the descriptors tidy. -/
theorem step {move : Move} (h : Tidy a) (hkeeps : a.KeepsSessions move)
    (hstep : a.step move = some a') : Tidy a' := by
  cases move with
  | recv conn | shutdown conn =>
      obtain ⟨-, heq⟩ := Option.ite_none_left_eq_some.mp hstep
      cases heq
      exact h
  | step event =>
      obtain ⟨⟨b', m'⟩, hwatched, rfl⟩ := Option.map_eq_some_iff.mp hstep
      have hturned := turned hwatched
      have hkept := h.kept.turned hturned
      have hdenoted : ∀ sock conn, b'.descriptors sock = some conn →
          ∃ handler, b'.handlers conn = some handler ∧ handler.sock = sock :=
        fun _ _ => h.denoted_step hturned
      cases hturned with
      | started hphase =>
          rw [Audited.closesAfter_of_none rfl]
          refine ⟨hkept, hdenoted, fun hidle => ?_, fun _ conn handler hhandler => ?_, h.unaccepted,
            h.once, fun _ conn handler hhandler hfirst => ?_⟩
          · cases hidle
          · have hdone := h.idle hphase conn handler hhandler
            exact ⟨fun hne => absurd hdone hne, by simp [hdone], by simp [hdone, Stage.serving]⟩
          · exact absurd (h.kept.lt_nextConn hhandler) (Nat.not_lt.mpr hfirst)
      | flagged | swept =>
          rw [Audited.closesAfter_of_none rfl]
          refine ⟨hkept, hdenoted, fun hphase => ?_, fun hphase => ?_, h.unaccepted, h.once,
            fun hphase => ?_⟩
          all_goals cases hphase
      | joined hphase hjoined =>
          rw [Audited.closesAfter_of_none rfl]
          refine ⟨hkept, hdenoted, fun _ conn handler hhandler => ?_, fun hrunning => ?_,
            h.unaccepted, h.once, fun hrunning => ?_⟩
          · exact hjoined conn (h.kept.lt_nextConn hhandler) handler hhandler
          · cases hrunning
          · cases hrunning
      | accepted hphase hfree =>
          rw [Audited.closesAfter_of_none rfl]
          exact h.accept hfree hphase (.accepted hphase hfree)
      | cleared =>
          rw [Audited.closesAfter_of_none rfl]
          refine ⟨hkept, hdenoted, h.idle, fun hrunning conn handler hhandler => ?_, h.unaccepted,
            h.once, h.ended⟩
          obtain ⟨hown, hundropped, hlisted⟩ := h.placed hrunning conn handler hhandler
          exact ⟨hown, hundropped, hlisted⟩
      | @acted conn action b' m' handler hhandler hacted =>
          have hturned := Turned.acted handler hhandler hacted
          by_cases hrunning : a.watched.broker.phase = .running
          · have hremove : action ≠ .remove := by
              rintro rfl
              exact hkeeps hrunning
            exact h.act_running hrunning hremove hhandler hacted hturned
          · rw [Audited.closesAfter_of_not_running hrunning]
            exact h.act_stopping hrunning hhandler hacted hturned

theorem closesOnce (h : Tidy a) : a.ClosesOnce := fun hrunning conn =>
  ⟨h.once conn, fun handler hhandler hfirst hdone =>
    h.ended hrunning conn handler hhandler hfirst hdone⟩

theorem callsOwn {move : Move} (h : Tidy a) (hkeeps : a.KeepsSessions move) : a.CallsOwn move := by
  intro hrunning call hcall
  have hown : ∀ conn handler, a.watched.broker.handlers conn = some handler →
      handler.stage ≠ .done → a.watched.broker.descriptors handler.sock = some conn :=
    fun conn handler hhandler hdone => ((h.placed hrunning conn handler hhandler).own hdone).1
  unfold Broker.calls at hcall
  split at hcall
  · split at hcall
    · next handler hhandler =>
        split at hcall
        · next hstage =>
            obtain rfl := List.mem_singleton.mp hcall
            exact hown _ handler hhandler (Broker.not_done_of_receiving hstage)
        · cases hcall
    · cases hcall
  · exact absurd hrunning hkeeps
  · next conn action =>
      split at hcall
      · next handler hhandler =>
          have hremove : action ≠ .remove := by
            rintro rfl
            exact hkeeps hrunning
          obtain ⟨sock, hsock, rfl⟩ := List.mem_map.mp hcall
          obtain ⟨rfl, hdone⟩ := Broker.mem_callsOf hremove hsock
          exact hown conn handler hhandler hdone
      · cases hcall
  · cases hcall

end Steps

end Tidy

/-! ## After `remove_session` -/

/-- No descriptor denotes the connection of the handler any more. -/
def Lost (conn : ConnId) (a : Audited) : Prop :=
  Kept a.watched.broker a.watched.members ∧ a.watched.broker.handlers conn ≠ none ∧
    ∀ sock, a.watched.broker.descriptors sock ≠ some conn

section Lost

variable {a a' : Audited} {conn : ConnId}

theorem Lost.step {move : Move} (h : Lost conn a) (hstep : a.step move = some a') :
    Lost conn a' := by
  obtain ⟨hkept, hhandler, hlost⟩ := h
  cases move with
  | recv | shutdown =>
      obtain ⟨-, heq⟩ := Option.ite_none_left_eq_some.mp hstep
      cases heq
      exact ⟨hkept, hhandler, hlost⟩
  | step event =>
      obtain ⟨⟨b', m'⟩, hwatched, rfl⟩ := Option.map_eq_some_iff.mp hstep
      have hturned := turned hwatched
      refine ⟨hkept.turned hturned, ?_⟩
      cases hturned with
      | started | flagged | joined | cleared => exact ⟨hhandler, hlost⟩
      | swept =>
          exact ⟨hhandler, fun sock hopen => hlost sock (Option.ite_none_left_eq_some.mp hopen).2⟩
      | @accepted sock hphase hfree =>
          have hne : conn ≠ a.watched.broker.nextConn := by
            rintro rfl
            exact hhandler (hkept.fresh_conn _ le_rfl)
          have hsame := (a.watched.broker.acceptConn_handlers conn sock).trans (if_neg hne)
          refine ⟨fun hnone => hhandler (hsame.symm.trans hnone), fun number hopen => ?_⟩
          have hnumber := (a.watched.broker.acceptConn_descriptors sock number).symm.trans hopen
          split at hnumber
          · exact hne (Option.some.inj hnumber).symm
          · exact hlost number hnumber
      | @acted other action b' m' handler hother hacted =>
          refine ⟨?_, fun sock hopen => hlost sock (hacted.open_before hopen)⟩
          by_cases hown : conn = other
          · obtain ⟨next, hnext, -⟩ := hacted.self
            subst hown
            exact fun hnone => absurd (hnext.symm.trans hnone) (by simp)
          · rw [hacted.other hown]
            exact hhandler

/-- The handler's next `close` is not on its own connection. -/
theorem Lost.not_callsOwn (h : Lost conn a) (hrunning : a.watched.broker.phase = .running)
    (henabled : a.step (.step (.act conn .close)) ≠ none) :
    ¬ a.CallsOwn (.step (.act conn .close)) := by
  obtain ⟨a', hstep⟩ := Option.ne_none_iff_exists'.mp henabled
  obtain ⟨⟨b', m'⟩, hwatched, -⟩ := Option.map_eq_some_iff.mp hstep
  have hturned : Turned _ _ _ b' m' := turned hwatched
  cases hturned with
  | acted handler hhandler hacted =>
      have hcall : (conn, handler.sock) ∈ a.watched.broker.calls (.step (.act conn .close)) := by
        cases hacted with
        | served _ _ _ _ _ haction => exact absurd rfl haction.2
        | closed next hstage =>
            rcases hstage with ⟨hstage, -⟩ | ⟨hstage, -⟩ <;>
              simp [Broker.calls, hhandler, Broker.callsOf, hstage]
      exact fun hown => h.2.2 _ (hown hrunning _ hcall)

/-- The first `remove_session` of a running server is a call on another
handler's connection, or the handler has no connection afterwards. -/
theorem Tidy.remove (h : Tidy a) (hrunning : a.watched.broker.phase = .running)
    (hstep : a.step (.step (.act conn .remove)) = some a') :
    ¬ a.CallsOwn (.step (.act conn .remove)) ∨ Lost conn a' := by
  obtain ⟨⟨b', m'⟩, hwatched, rfl⟩ := Option.map_eq_some_iff.mp hstep
  have hturned : Turned _ _ _ b' m' := turned hwatched
  have hkept := h.kept.turned hturned
  cases hturned with
  | acted handler hhandler hacted =>
      cases hacted with
      | served _ _ _ _ _ haction => exact absurd rfl haction.1
      | removed next hstage =>
          have hleaving : handler.stage = .dropping ∨ handler.stage = .leaving :=
            hstage.imp And.left And.left
          obtain ⟨session, hsession⟩ := Option.ne_none_iff_exists'.mp
            ((h.placed hrunning conn handler hhandler).listed (Or.inr hleaving))
          by_cases hown : a.watched.broker.descriptors session.sock = some conn
          · refine Or.inr ⟨hkept, by simp, fun sock hopen => ?_⟩
            rw [Broker.become_descriptors, Broker.removeSession_descriptors] at hopen
            obtain ⟨hne, hbefore⟩ := Option.ite_none_left_eq_some.mp hopen
            obtain ⟨g, hg, hsock⟩ := h.denoted sock conn hbefore
            obtain ⟨g', hg', hsock'⟩ := h.denoted session.sock conn hown
            rw [hg] at hg'
            cases hg'
            exact hne (by rw [hsession, Option.map_some, ← hsock', hsock])
          · have hcall : (conn, session.sock) ∈
                a.watched.broker.calls (.step (.act conn .remove)) := by
              rcases hleaving with hleaving | hleaving <;>
                simp [Broker.calls, hhandler, Broker.callsOf, Broker.removing, hleaving, hsession]
            exact Or.inl fun hcalls => hown (hcalls hrunning _ hcall)

end Lost

instance (a : Audited) (move : Move) : Decidable (a.KeepsSessions move) := by
  unfold Audited.KeepsSessions
  split <;> infer_instance

instance (a : Audited) (move : Move) : Decidable (a.CallsOwn move) :=
  inferInstanceAs (Decidable (_ → ∀ _ ∈ _, _))

/-- Descriptor ownership. In a run without `remove_session` while the
server is running, every handler calls on its own connection only, and
every connection is closed once. The first `remove_session` is a call on
another connection, or the handler's next `close` is. -/
theorem descriptors_own (moves : List Move)
    (hkeeps : Along Audited.step Audited.KeepsSessions {} moves) :
    (Along Audited.step Audited.CallsOwn {} moves ∧
      Always Audited.step Audited.ClosesOnce {} moves) ∧
    ∀ a conn a', run Audited.step {} moves = some a → a.watched.broker.phase = .running →
      a.step (.step (.act conn .remove)) = some a' →
        ¬ a.CallsOwn (.step (.act conn .remove)) ∨
        ∀ later a'', run Audited.step a' later = some a'' → a''.watched.broker.phase = .running →
          a''.step (.step (.act conn .close)) ≠ none →
            ¬ a''.CallsOwn (.step (.act conn .close)) := by
  have hstep : ∀ (a : Audited) move a', Tidy a → a.KeepsSessions move → a.step move = some a' →
      Tidy a' := fun _ _ _ h hkeeps hstep => h.step hkeeps hstep
  refine ⟨⟨along_of_invariant_along hstep (fun _ _ h hkeeps => h.callsOwn hkeeps) .init hkeeps,
    always_of_invariant_along hstep (fun _ h => h.closesOnce) .init hkeeps⟩, ?_⟩
  intro a conn a' hrun hrunning hremove
  have htidy : Tidy a := run_invariant_along hstep .init hkeeps hrun
  refine (htidy.remove hrunning hremove).imp_right
    fun hlost later a'' hlater hrunning' henabled => ?_
  have hlost' : Lost conn a'' := run_invariant (fun _ _ _ h hstep => h.step hstep) hlost hlater
  exact hlost'.not_callsOwn hrunning' henabled

/-- A run of the broker, without the `recv` calls. -/
def steps (events : List Event) : List Move := events.map .step

/-- Two clients, one of which never gets to send a CONNECT. -/
def refusedClient : List Move :=
  steps (.start :: joining 0 4 (ascii "a") ++ [.accept 5]) ++
    [.recv 1, .step (.act 1 (.connect 0 Broker.closed)), .step (.act 1 .close), .recv 0]

theorem descriptors_own_refused :
    (run Audited.step {} refusedClient).isSome = true ∧
      Along Audited.step Audited.CallsOwn {} refusedClient ∧
        Always Audited.step Audited.ClosesOnce {} refusedClient :=
  ⟨by decide +kernel, (descriptors_own refusedClient (by decide +kernel)).1⟩

/-- A client disconnects, and a new one is accepted under its number
before the handler of the first closes the number again. -/
def disconnected : List Move :=
  steps (.start :: joining 0 4 (ascii "a") ++
    [.act 0 (.receive (wholePiece 0xE0 [0])), .act 0 .remove, .accept 4])

theorem descriptors_lost : ¬ ∀ moves, Along Audited.step Audited.CallsOwn {} moves := by
  intro h
  have hrun : ((run Audited.step {} disconnected).any fun a =>
      decide (¬ a.CallsOwn (.step (.act 0 .close)))) = true := by decide +kernel
  obtain ⟨a, ha, hlast⟩ := (Option.any_eq_true _ _).mp hrun
  exact of_decide_eq_true hlast ((h (disconnected ++ [.step (.act 0 .close)])).append ha).1

end MockServices.Mqtt
